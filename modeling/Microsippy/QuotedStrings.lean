import Microsippy.NameAddrText

/-! # Quoted strings in name-addr values

What `usipy_sip_hdr_nameaddr_parse` makes of a quoted display name and of quoted parameter values.
-/

namespace Microsippy

set_option autoImplicit false

/-! ## The grammar -/

/-- The text between the double quotes of a quoted string. -/
inductive QuotedText : Bytes → Prop
  | nil : QuotedText []
  | char {c : UInt8} {b : Bytes} (hQuote : c ≠ ch '"') (hEscape : c ≠ ch '\\') (h : QuotedText b) :
    QuotedText (c :: b)
  | pair {c : UInt8} {b : Bytes} (h : QuotedText b) : QuotedText (ch '\\' :: c :: b)

def QuotedString (q : Bytes) : Prop := ∃ b, QuotedText b ∧ q = ch '"' :: (b ++ [ch '"'])

/-- The characters of a token. -/
def isToken (c : UInt8) : Bool :=
  (ch '0' ≤ c && c ≤ ch '9') || (ch 'A' ≤ c && c ≤ ch 'Z') || (ch 'a' ≤ c && c ≤ ch 'z') ||
    (bytes "-.!%*_+`'~").contains c

def Token (b : Bytes) : Prop := b ≠ [] ∧ ∀ c ∈ b, isToken c = true

/-! ## Tokens and quoted strings -/

theorem isToken_plain {c : UInt8} (h : isToken c = true) :
    Str.isLws c = false ∧ c ≠ ch ';' ∧ c ≠ ch '=' := by
  refine ⟨?_, ?_, ?_⟩
  · cases hLws : Str.isLws c with
    | false => rfl
    | true =>
      simp only [Str.isLws, Bool.or_eq_true, beq_iff_eq] at hLws
      rcases hLws with ((rfl | rfl) | rfl) | rfl <;> exact absurd h (by decide +kernel)
  · rintro rfl
    exact absurd h (by decide +kernel)
  · rintro rfl
    exact absurd h (by decide +kernel)

/-- A text that begins and ends with other characters than white space. -/
structure Solid (b : Bytes) : Prop where
  some : b ≠ []
  left : b.dropWhile Str.isLws = b
  right : b.rdropWhile Str.isLws = b

theorem Token.solid {b : Bytes} (h : Token b) : Solid b := by
  obtain ⟨hSome, hAll⟩ := h
  refine ⟨hSome, ?_, ?_⟩
  · obtain ⟨c, b, rfl⟩ := List.exists_cons_of_ne_nil hSome
    exact List.dropWhile_cons_of_neg
      (Bool.eq_false_iff.mp (isToken_plain (hAll c List.mem_cons_self)).1)
  · rw [List.rdropWhile_eq_self_iff]
    intro hSome
    exact Bool.eq_false_iff.mp (isToken_plain (hAll _ (List.getLast_mem hSome))).1

theorem QuotedString.solid {b : Bytes} (h : QuotedString b) : Solid b := by
  obtain ⟨t, -, rfl⟩ := h
  refine ⟨List.cons_ne_nil _ _, List.dropWhile_cons_of_neg (by decide), ?_⟩
  rw [← List.cons_append]
  exact List.rdropWhile_concat_neg _ _ _ (by decide)

namespace NameAddr

open Params

/-- A parameter as it may be written: a name alone, or with a token or a quoted string. -/
structure WrittenParam (q : Bytes × Bytes) : Prop where
  name : Token q.1
  value : q.2 = [] ∨ Token q.2 ∨ QuotedString q.2

/-- A value as it may be written: a URI between brackets, after a quoted name or none, and before the
parameters. -/
structure Written (display w uri : Bytes) (ps : List (Bytes × Bytes)) : Prop where
  display : display = [] ∨ QuotedString display
  space : ∀ c ∈ w, Str.isLws c = true
  uri : ∀ c ∈ uri, c ≠ ch '<' ∧ c ≠ ch '>' ∧ c ≠ ch '"' ∧ Str.isLws c = false
  params : ∀ q ∈ ps, WrittenParam q

def written (display w uri : Bytes) (ps : List (Bytes × Bytes)) : Bytes :=
  display ++ w ++ ch '<' :: (uri ++ ch '>' :: (ps.map fun q => ch ';' :: pairOut q).flatten)

/-- The value is accepted, with the URI as its address and the parameters as written. -/
def ReadsAs (b uri : Bytes) (ps : List (Bytes × Bytes)) : Prop :=
  ∀ (m : Mem) (hvp : Str) (hp : Heap), (hp.mem m).read hvp = b → hp.Room (sizeof ps.length) →
    ∃ nap hp', (parse m hvp).run hp = some (.ok nap, hp') ∧ (hp'.mem m).read nap.addr_spec = uri ∧
      Params.texts (hp'.mem m) nap.params = ps

theorem readsAs_iff {b uri : Bytes} {ps : List (Bytes × Bytes)} :
    ReadsAs b uri ps ↔ ∃ t, parseText b = some t ∧ t.addr_spec = uri ∧ t.params = ps := by
  constructor
  · intro h
    obtain ⟨nap, hp', hRun, hUri, hParams⟩ := h (fun _ => .zero) (Str.lit b) _ (Mem.read_lit _ b)
      (room_fresh sized _)
    obtain ⟨hMem, hParts⟩ := parse_ok hRun
    refine ⟨nap.texts (hp'.mem fun _ => .zero), ?_, hUri, hParams⟩
    rw [hMem, ← Mem.read_lit (Heap.mem _ _) b, ← read_parseParts, hParts, Option.map_some]
  · rintro ⟨t, hText, rfl, rfl⟩ m hvp hp hRead hRoom
    rw [← hRead, ← read_parseParts] at hText
    obtain ⟨nap, hParts, rfl⟩ := Option.map_eq_some_iff.mp hText
    have hLength : (texts (hp.mem m) nap).params.length = nap.params.length := List.length_map ..
    rw [hLength] at hRoom
    obtain ⟨hp', hRun⟩ := @paramsParser_run sizeof _ parseParts NameAddr.params sized m hvp nap hp hParts
      hRoom
    obtain ⟨hMem, -⟩ := parse_ok hRun
    exact ⟨nap, hp', hRun, by rw [hMem]; rfl, by rw [hMem]; rfl⟩

/-- A written parameter without a `;` in its value is read as written. -/
theorem tight_written {q : Bytes × Bytes} (h : WrittenParam q) (hSemi : ch ';' ∉ q.2) :
    Tight Str.isLws (ch ';') q := by
  obtain ⟨t, v⟩ := q
  obtain ⟨hToken, hValue⟩ := h
  have hSolid := hToken.solid
  have hNot : ch ';' ∉ t := fun hIn => (isToken_plain (hToken.2 _ hIn)).2.1 rfl
  have hEq : ch '=' ∉ t := fun hIn => (isToken_plain (hToken.2 _ hIn)).2.2 rfl
  cases Decidable.em (v = []) with
  | inl hNone =>
    have hOut : pairOut (t, v) = t := by rw [pairOut, if_pos hNone, List.append_nil]
    refine ⟨by rw [hOut]; exact hSolid.some, by rwa [hOut], by rw [hOut, hSolid.left],
      by rw [hOut, hSolid.right], ?_⟩
    rw [hOut, pair_none hEq, hNone]
  | inr hSome =>
    have hOut : pairOut (t, v) = t ++ ch '=' :: v := by rw [pairOut, if_neg hSome]
    have hSolidValue : Solid v := (hValue.resolve_left hSome).elim Token.solid QuotedString.solid
    refine ⟨?_, ?_, ?_, ?_, ?_⟩
    · rw [hOut]
      exact List.append_ne_nil_of_left_ne_nil hSolid.some _
    · rw [hOut, List.mem_append, List.mem_cons, not_or, not_or]
      exact ⟨hNot, by decide, hSemi⟩
    · rw [hOut, Trim.dropWhile_append_cons isLws_eq, hSolid.left]
    · rw [hOut, Trim.rdropWhile_append_cons isLws_eq, hSolidValue.right]
    · rw [hOut, pair_cut hEq, hSolid.right, hSolidValue.left]

/-! ## Where the brackets are -/

theorem mem_trimmed {c : UInt8} {b : Bytes} (hc : Str.isLws c = false) (h : c ∈ b) :
    c ∈ (b.dropWhile Str.isLws).rdropWhile Str.isLws := by
  rw [← List.count_pos_iff, Trim.count_rdropWhile hc, Trim.count_dropWhile hc]
  exact List.count_pos_iff.mpr h

/-- Where the name has no `<` and no value has a `;`, everything is read as written. -/
theorem parseText_opaque {display w uri : Bytes} {ps : List (Bytes × Bytes)}
    (h : Written display w uri ps) (hDisplay : ch '<' ∉ display) (hValues : ∀ q ∈ ps, ch ';' ∉ q.2) :
    ∃ t, parseText (written display w uri ps) = some t ∧ t.addr_spec = uri ∧ t.params = ps := by
  have hOpen : ch '<' ∉ display ++ w := by
    rw [List.mem_append, not_or]
    exact ⟨hDisplay, fun hIn => absurd (h.space _ hIn) (by decide)⟩
  have hClose : ch '>' ∉ uri := fun hIn => (h.uri _ hIn).2.1 rfl
  have hLeft : (uri ++ ch '>' :: (ps.map fun q => ch ';' :: pairOut q).flatten).dropWhile Str.isLws =
      uri ++ ch '>' :: (ps.map fun q => ch ';' :: pairOut q).flatten := by
    cases uri with
    | nil => exact List.dropWhile_cons_of_neg (by decide)
    | cons c uri =>
      exact List.dropWhile_cons_of_neg (Bool.eq_false_iff.mp (h.uri c List.mem_cons_self).2.2.2)
  have hRight : uri.rdropWhile Str.isLws = uri := by
    rw [List.rdropWhile_eq_self_iff]
    intro hSome
    exact Bool.eq_false_iff.mp (h.uri _ (List.getLast_mem hSome)).2.2.2
  have hTight : ∀ q ∈ ps, Tight Str.isLws (ch ';') q := fun q hq =>
    tight_written (h.params q hq) (hValues q hq)
  rw [parseText, written, cut_append hOpen]
  dsimp only
  rw [hLeft, cut_append hClose]
  dsimp only
  rw [closedText]
  cases ps with
  | nil => exact ⟨_, rfl, hRight, rfl⟩
  | cons q qs =>
    rw [flatten_out (List.cons_ne_nil q qs), List.dropWhile_cons_of_neg (by decide)]
    dsimp only
    rw [if_neg]
    · exact ⟨_, rfl, hRight, parsed_out_tight hTight⟩
    · rintro (hNone | hNot)
      · exact (out_tight (hTight q List.mem_cons_self)).1 hNone
      · exact hNot rfl

/-- From a text with a `<` before the brackets something else than the URI is read, or the brackets
are read as part of the parameters. -/
theorem parseText_early {y uri d r z : Bytes} {t : NameAddrText} (hUri : ch '<' ∉ uri ∧ ch '>' ∉ uri)
    (hFirst : ch '<' ∉ d) (hRest : r = y ++ ch '<' :: (uri ++ ch '>' :: z))
    (hText : parseText (d ++ ch '<' :: r) = some t) (hAddr : t.addr_spec = uri) :
    z.count (ch '<') < countIn (ch '<') t.params := by
  rw [parseText, cut_append hFirst] at hText
  dsimp only at hText
  rw [cut_dropWhile isLws_gt] at hText
  obtain ⟨hNot, -⟩ | ⟨a, x, rfl, hClose, -⟩ := cut_cases (ch '>') y
  · have hBoth : ch '>' ∉ y ++ ch '<' :: uri := by
      rw [List.mem_append, List.mem_cons, not_or, not_or]
      exact ⟨hNot, by decide, hUri.2⟩
    have hSplit : r = (y ++ ch '<' :: uri) ++ ch '>' :: z := by
      rw [hRest, List.append_assoc, List.cons_append]
    rw [hSplit, cut_append hBoth, Option.map_some] at hText
    have hIs := (closedText_some hText).2.1
    rw [hAddr] at hIs
    have hIn : ch '<' ∈ uri := by
      rw [hIs]
      exact mem_trimmed isLws_lt (by simp)
    exact absurd hIn hUri.1
  · have hCut : cut (ch '>') r = some (a, x ++ ch '<' :: (uri ++ ch '>' :: z)) := by
      rw [hRest, List.append_assoc, List.cons_append, cut_append hClose]
    rw [hCut, Option.map_some] at hText
    have hMore : z.count (ch '<') < (x ++ ch '<' :: (uri ++ ch '>' :: z)).count (ch '<') := by
      have hGt : ch '>' ≠ ch '<' := by decide
      rw [List.count_append, List.count_cons_self, List.count_append, List.count_cons_of_ne hGt]
      omega
    rw [← Trim.count_dropWhile isLws_lt (x ++ ch '<' :: (uri ++ ch '>' :: z))] at hMore
    obtain ⟨-, -, ⟨-, hEmpty⟩ | ⟨w, hSemi, hList⟩⟩ := closedText_some hText
    · rw [hEmpty, List.count_nil] at hMore
      omega
    · have hNe : ch ';' ≠ ch '<' := by decide
      rw [hSemi, List.count_cons_of_ne hNe] at hMore
      rwa [hList, countIn_parsed isLws_lt hNe (by decide)]

/-- A quoted name and quoted values are left alone if and only if the name has no `<` and no value has
a `;`. -/
theorem readsAs_written_iff {display w uri : Bytes} {ps : List (Bytes × Bytes)}
    (h : Written display w uri ps) :
    ReadsAs (written display w uri ps) uri ps ↔ ch '<' ∉ display ∧ ∀ q ∈ ps, ch ';' ∉ q.2 := by
  rw [readsAs_iff]
  constructor
  · rintro ⟨t, hText, hAddr, hParams⟩
    constructor
    · intro hIn
      obtain ⟨d, z, rfl, hFirst⟩ := List.eq_append_cons_of_mem hIn
      have hSplit : written (d ++ ch '<' :: z) w uri ps = d ++ ch '<' :: ((z ++ w) ++ ch '<' :: (uri ++
          ch '>' :: (ps.map fun q => ch ';' :: pairOut q).flatten)) := by
        simp only [written, List.append_assoc, List.cons_append]
      rw [hSplit] at hText
      have hUri : ch '<' ∉ uri ∧ ch '>' ∉ uri :=
        ⟨fun hIn => (h.uri _ hIn).1 rfl, fun hIn => (h.uri _ hIn).2.1 rfl⟩
      have hMore := parseText_early hUri hFirst rfl hText hAddr
      rw [countIn_out (by decide) (by decide), hParams] at hMore
      exact absurd hMore (Nat.lt_irrefl _)
    · intro q hq
      obtain ⟨-, -, hList, -⟩ := parseText_some hText
      rw [← hParams, hList] at hq
      exact (not_mem_parsed hq).2
  · rintro ⟨hDisplay, hValues⟩
    exact parseText_opaque h hDisplay hValues

/-- A quoted name with a `;` and a `>` in it, and a tag. -/
theorem readsAs_written_bob :
    ReadsAs (bytes "\"Bob;>\" <sip:b@h>;tag=1") (bytes "sip:b@h") [(bytes "tag", bytes "1")] := by
  have hDisplay : QuotedString (bytes "\"Bob;>\"") :=
    ⟨bytes "Bob;>", .char (by decide) (by decide) (.char (by decide) (by decide) (.char (by decide)
      (by decide) (.char (by decide) (by decide) (.char (by decide) (by decide) .nil)))),
      by decide +kernel⟩
  have hWritten : Written (bytes "\"Bob;>\"") (bytes " ") (bytes "sip:b@h")
      [(bytes "tag", bytes "1")] :=
    ⟨Or.inr hDisplay, by decide +kernel, by decide +kernel,
      List.forall_mem_singleton.mpr ⟨⟨by decide +kernel, by decide +kernel⟩,
        Or.inr (Or.inl ⟨by decide +kernel, by decide +kernel⟩)⟩⟩
  have hText : bytes "\"Bob;>\" <sip:b@h>;tag=1" = written (bytes "\"Bob;>\"") (bytes " ")
      (bytes "sip:b@h") [(bytes "tag", bytes "1")] := by decide +kernel
  rw [hText]
  exact (readsAs_written_iff hWritten).mpr ⟨by decide +kernel, by decide +kernel⟩

/-- A quoted value is cut at its `;`. -/
theorem quoted_value_cut : ¬ ∀ display w uri ps, Written display w uri ps →
    ReadsAs (written display w uri ps) uri ps := by
  intro hAll
  have hValue : QuotedString (bytes "\"x;y\"") :=
    ⟨bytes "x;y", .char (by decide) (by decide) (.char (by decide) (by decide)
      (.char (by decide) (by decide) .nil)), by decide +kernel⟩
  have hWritten : Written [] [] (bytes "sip:b@h") [(bytes "p", bytes "\"x;y\"")] :=
    ⟨Or.inl rfl, List.forall_mem_nil _, by decide +kernel,
      List.forall_mem_singleton.mpr ⟨⟨by decide +kernel, by decide +kernel⟩, Or.inr (Or.inr hValue)⟩⟩
  obtain ⟨t, hText, -, hParams⟩ := readsAs_iff.mp (hAll _ _ _ _ hWritten)
  have hRead : parseText (written [] [] (bytes "sip:b@h") [(bytes "p", bytes "\"x;y\"")]) =
      some ⟨[], bytes "sip:b@h", [(bytes "p", bytes "\"x"), (bytes "y\"", [])]⟩ := by decide +kernel
  rw [hRead] at hText
  obtain rfl := Option.some.inj hText
  exact absurd hParams (by decide +kernel)

end NameAddr

end Microsippy
