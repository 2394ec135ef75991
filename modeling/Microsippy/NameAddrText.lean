import Microsippy.AuthzPrint
import Microsippy.DialogUris
import Microsippy.Params

/-! # Name-addr values as text

What `usipy_sip_hdr_nameaddr_parse` makes of the bytes of a value, which values are built again to the
same, and what it makes of quoted strings.
-/

namespace Microsippy

set_option autoImplicit false

/-- The bytes of a name-addr, the parameters by name and value. -/
structure NameAddrText where
  display_name : Bytes := []
  addr_spec : Bytes := []
  params : List (Bytes × Bytes) := []
  deriving DecidableEq

namespace NameAddr

open Params

/-- A value whose bracket is closed, by what follows it. -/
def closedText (display_name addr_spec r : Bytes) : Option NameAddrText :=
  match r.dropWhile Str.isLws with
  | [] => some { display_name, addr_spec }
  | c :: t =>
    if t = [] ∨ c ≠ ch ';' then none
    else some { display_name, addr_spec, params := parsed Str.isLws (ch ';') t }

theorem closedText_some {display_name addr_spec r : Bytes} {t : NameAddrText}
    (h : closedText display_name addr_spec r = some t) :
    t.display_name = display_name ∧ t.addr_spec = addr_spec ∧
      ((t.params = [] ∧ r.dropWhile Str.isLws = []) ∨ ∃ y, r.dropWhile Str.isLws = ch ';' :: y ∧
        t.params = parsed Str.isLws (ch ';') y) := by
  rw [closedText] at h
  cases hTail : r.dropWhile Str.isLws with
  | nil =>
    rw [hTail] at h
    obtain rfl := Option.some.inj h
    exact ⟨rfl, rfl, Or.inl ⟨rfl, rfl⟩⟩
  | cons c y =>
    rw [hTail] at h
    dsimp only at h
    split at h
    · cases h
    · rename_i hJunk
      obtain rfl := Option.some.inj h
      obtain rfl : c = ch ';' := Decidable.of_not_not fun hNe => hJunk (Or.inr hNe)
      exact ⟨rfl, rfl, Or.inr ⟨y, rfl, rfl⟩⟩

/-- `usipy_sip_hdr_nameaddr_parse` on bytes. -/
def parseText (b : Bytes) : Option NameAddrText :=
  match cut (ch '<') b with
  | none =>
    match cut (ch ';') b with
    | some (a, r) => some {
        addr_spec := a.rdropWhile Str.isLws
        params := parsed Str.isLws (ch ';') (r.dropWhile Str.isLws) }
    | none => some { addr_spec := b }
  | some (d, r) =>
    match cut (ch '>') (r.dropWhile Str.isLws) with
    | none => none
    | some (a, r) => closedText (d.rdropWhile Str.isLws) (a.rdropWhile Str.isLws) r

def texts (m : Mem) (nap : NameAddr) : NameAddrText where
  display_name := m.read nap.display_name
  addr_spec := m.read nap.addr_spec
  params := Params.texts m nap.params

theorem read_parseParts (m : Mem) (hvp : Str) :
    (parseParts m hvp).map (texts m) = parseText (m.read hvp) := by
  have hParams := texts_trimmed m
  have hOpen := Str.read_splitElem m hvp (ch '<')
  rw [parseParts, parseText]
  cases hCut : cut (ch '<') (m.read hvp) with
  | none =>
    rw [hCut, Option.map_none, Option.map_eq_none_iff] at hOpen
    have hSemi := Str.read_splitElem m hvp (ch ';')
    rw [hOpen]
    cases hSplit : cut (ch ';') (m.read hvp) with
    | none =>
      rw [hSplit, Option.map_none, Option.map_eq_none_iff] at hSemi
      simp [hSemi, texts, hParams]
    | some x =>
      rw [hSplit, Option.map_some] at hSemi
      obtain ⟨⟨addr, iup⟩, hIs, hRead⟩ := Option.map_eq_some_iff.mp hSemi
      obtain ⟨hAddr, hRest⟩ := Prod.mk.inj hRead
      simp [hIs, texts, hParams, hAddr, hRest]
  | some x =>
    rw [hCut, Option.map_some] at hOpen
    obtain ⟨⟨display, iup⟩, hIs, hRead⟩ := Option.map_eq_some_iff.mp hOpen
    obtain ⟨hDisplay, hRest⟩ := Prod.mk.inj hRead
    have hClose := Str.read_splitElem m iup (ch '>')
    rw [hRest] at hClose
    rw [hIs]
    dsimp only
    cases hEnd : cut (ch '>') (x.2.dropWhile Str.isLws) with
    | none =>
      rw [hEnd, Option.map_none, Option.map_eq_none_iff] at hClose
      simp [hClose]
    | some y =>
      rw [hEnd, Option.map_some] at hClose
      obtain ⟨⟨addr, rest⟩, hAt, hRead⟩ := Option.map_eq_some_iff.mp hClose
      obtain ⟨hAddr, hAfter⟩ := Prod.mk.inj hRead
      rw [hAt]
      dsimp only
      rw [closedText]
      cases hTail : y.2.dropWhile Str.isLws with
      | nil =>
        have hEmpty : rest.l = 0 := by rw [← Mem.length_read m, hAfter, hTail, List.length_nil]
        simp [hEmpty, texts, hParams, hDisplay, hAddr]
      | cons c t =>
        have hLength : rest.l = t.length + 1 := by
          rw [← Mem.length_read m, hAfter, hTail, List.length_cons]
        have hSome : ¬ rest.l = 0 := by omega
        have hOne : rest.l = 1 ↔ t = [] := by rw [hLength, ← List.length_eq_zero_iff]; omega
        have hList := hParams rest.tail
        rw [Str.read_tail (hAfter.trans hTail)] at hList
        simp only [hSome, hOne, hAfter, hTail, List.head?_cons, ne_eq, Option.some.injEq, if_false]
        split
        · rfl
        · simpa [texts, Str.tail, hDisplay, hAddr] using hList

/-! ## The parser -/

theorem sized : Sized sizeof := sized_of_header (by decide)

theorem parse_ok {m : Mem} {hvp : Str} {nap : NameAddr} {hp hp' : Heap}
    (hRun : (parse m hvp).run hp = some (.ok nap, hp')) :
    hp'.mem = hp.mem ∧ parseParts (hp.mem m) hvp = some nap :=
  @paramsParser_ok sizeof _ parseParts NameAddr.params m hvp nap hp hp' hRun

/-- Whether a heap of any kind with the room for them has a text parsed to `t`. -/
def ParsesTo (b : Bytes) (t : NameAddrText) : Prop :=
  ∀ (m : Mem) (hp : Heap), hp.Room (sizeof t.params.length) →
    ∃ nap hp', (parse m (Str.lit b)).run hp = some (.ok nap, hp') ∧ nap.texts (hp'.mem m) = t

theorem parsesTo_iff {b : Bytes} {t : NameAddrText} : ParsesTo b t ↔ parseText b = some t :=
  (@paramsParser_iff sizeof _ _ parseParts NameAddr.params sized texts (fun _ => parseText)
    (fun t => t.params.length) read_parseParts (fun _ _ => List.length_map ..) b t).trans
      (forall_const Mem)

/-! ## Values built again -/

/-- What the builder writes. -/
def textOut (t : NameAddrText) : Bytes :=
  (if t.display_name = [] then [] else t.display_name ++ [ch ' ']) ++
    ch '<' :: (t.addr_spec ++ ch '>' :: (t.params.map fun q => ch ';' :: pairOut q).flatten)

theorem plain_params (params : List TvPair) : ∀ c ∈ (params.map fun pp =>
    [Chunk.put 0 (Str.lit (bytes ";")), .put 0 pp.token] ++
      if pp.value.l = 0 then [] else [.put 0 (Str.lit (bytes "=")), .put 0 pp.value]).flatten,
    c.plain = true := by
  intro c hc
  obtain ⟨cs, hcs, hMem⟩ := List.mem_flatten.mp hc
  obtain ⟨pp, -, rfl⟩ := List.mem_map.mp hcs
  split at hMem <;> simp at hMem <;> rcases hMem with rfl | rfl | rfl | rfl <;> rfl

theorem plain_build (nap : NameAddr) : ∀ c ∈ nap.build 0, c.plain = true := by
  rw [build]
  refine List.forall_mem_append.mpr ⟨List.forall_mem_append.mpr ⟨?_, ?_⟩, plain_params _⟩
  · split <;> simp [Chunk.plain]
  · simp [Chunk.plain]

theorem read_eq_nil (m : Mem) (s : Str) : s.l = 0 ↔ m.read s = [] := by
  rw [← Mem.length_read m s, List.length_eq_zero_iff]

theorem paramsText_eq (m : Mem) (params : List TvPair) :
    paramsText m params = ((Params.texts m params).map fun q => ch ';' :: pairOut q).flatten := by
  rw [paramsText, Params.texts, List.map_map]
  simp only [read_eq_nil m]
  rfl

theorem outAll_texts (m : Mem) (nap : NameAddr) :
    Chunk.outAll m.read (nap.build 0) = textOut (nap.texts m) := by
  rw [outAll_build, displayText, paramsText_eq, textOut, texts]
  simp only [read_eq_nil m]

/-- The text of a built value is parsed to the same value. -/
def RoundTrips (m : Mem) (nap : NameAddr) : Prop :=
  Chunk.Writes m (nap.build 0) fun b => ParsesTo b (nap.texts m)

theorem roundTrips_iff (m : Mem) (nap : NameAddr) :
    RoundTrips m nap ↔ parseText (textOut (nap.texts m)) = some (nap.texts m) := by
  rw [RoundTrips, Chunk.writes_iff (plain_build nap), outAll_texts, parsesTo_iff]

/-- The address of a value without `<`. -/
def bareAddr (b : Bytes) : Bytes :=
  match cut (ch ';') b with
  | some (a, _) => a.rdropWhile Str.isLws
  | none => b

/-- The text of the parameters of a value. -/
def paramText (b : Bytes) : Bytes :=
  match cut (ch '<') b with
  | none =>
    match cut (ch ';') b with
    | some (_, r) => r.dropWhile Str.isLws
    | none => []
  | some (_, r) =>
    match cut (ch '>') r with
    | some (_, r) => (r.dropWhile Str.isLws).tail
    | none => []

/-- The values that survive being built: no blank last parameter, and where the address stands alone,
no `>` and no white space at its ends. -/
structure Rebuilt (b : Bytes) : Prop where
  params : ¬ BlankEnd Str.isLws (ch ';') (paramText b)
  bare : ch '<' ∉ b → ch '>' ∉ bareAddr b ∧ (bareAddr b).dropWhile Str.isLws = bareAddr b ∧
    (bareAddr b).rdropWhile Str.isLws = bareAddr b

theorem isLws_lt : Str.isLws (ch '<') = false := by decide

theorem isLws_gt : Str.isLws (ch '>') = false := by decide

theorem isLws_semi : Str.isLws (ch ';') = false := by decide

theorem isLws_eq : Str.isLws (ch '=') = false := by decide

theorem cut_dropWhile {dlm : UInt8} {r : Bytes} (hDlm : Str.isLws dlm = false) :
    cut dlm (r.dropWhile Str.isLws) = (cut dlm r).map fun (a, z) => (a.dropWhile Str.isLws, z) := by
  obtain ⟨hNot, hCut⟩ | ⟨a, z, rfl, hFirst, hCut⟩ := cut_cases dlm r
  · rw [hCut, cut_none fun h => hNot (Trim.mem_of_dropWhile h)]
    rfl
  · rw [hCut, Trim.dropWhile_append_cons hDlm, cut_append fun h => hFirst (Trim.mem_of_dropWhile h)]
    rfl

/-- What is known of an accepted value. -/
theorem parseText_some {b : Bytes} {t : NameAddrText} (h : parseText b = some t) :
    ch '<' ∉ t.display_name ∧ t.display_name.rdropWhile Str.isLws = t.display_name ∧
      t.params = parsed Str.isLws (ch ';') (paramText b) ∧
      (ch '<' ∉ b → t.addr_spec = bareAddr b) ∧
      (ch '<' ∈ b → ch '>' ∉ t.addr_spec ∧ t.addr_spec.dropWhile Str.isLws = t.addr_spec ∧
        t.addr_spec.rdropWhile Str.isLws = t.addr_spec) := by
  rw [parseText] at h
  obtain ⟨hNot, hOpen⟩ | ⟨d, r, rfl, hFirst, hOpen⟩ := cut_cases (ch '<') b
  · rw [hOpen] at h
    dsimp only at h
    rw [paramText, bareAddr, hOpen]
    dsimp only
    obtain ⟨-, hSemi⟩ | ⟨a, r, -, -, hSemi⟩ := cut_cases (ch ';') b
    · rw [hSemi] at h ⊢
      obtain rfl := Option.some.inj h
      exact ⟨List.not_mem_nil, rfl, rfl, fun _ => rfl, fun hIs => absurd hIs hNot⟩
    · rw [hSemi] at h ⊢
      obtain rfl := Option.some.inj h
      exact ⟨List.not_mem_nil, rfl, rfl, fun _ => rfl, fun hIs => absurd hIs hNot⟩
  · rw [hOpen] at h
    dsimp only at h
    rw [cut_dropWhile isLws_gt] at h
    rw [paramText, hOpen]
    dsimp only
    have hDisplay : ch '<' ∉ d.rdropWhile Str.isLws := fun hIs => hFirst (Trim.mem_of_rdropWhile hIs)
    have hIn : ch '<' ∈ d ++ ch '<' :: r := by simp
    obtain ⟨-, hClose⟩ | ⟨a, z, -, hNot, hClose⟩ := cut_cases (ch '>') r
    · rw [hClose] at h
      cases h
    · rw [hClose] at h ⊢
      dsimp only [Option.map_some] at h ⊢
      have hAddr : ch '>' ∉ (a.dropWhile Str.isLws).rdropWhile Str.isLws := fun hIs =>
        hNot (Trim.mem_of_dropWhile (Trim.mem_of_rdropWhile hIs))
      have hLeft : ((a.dropWhile Str.isLws).rdropWhile Str.isLws).dropWhile Str.isLws =
          (a.dropWhile Str.isLws).rdropWhile Str.isLws := by
        rw [← Trim.trim_comm, List.dropWhile_idempotent]
      obtain ⟨hName, hSpec, hParams⟩ := closedText_some h
      rw [hName, hSpec]
      refine ⟨hDisplay, List.rdropWhile_idempotent _ _, ?_, fun hOut => absurd hIn hOut,
        fun _ => ⟨hAddr, hLeft, List.rdropWhile_idempotent _ _⟩⟩
      obtain ⟨hNone, hEmpty⟩ | ⟨y, hSemi, hList⟩ := hParams
      · rw [hNone, hEmpty]
        rfl
      · rw [hSemi, List.tail_cons, hList]

/-- A text written from a name, an address and parameters that are told apart. -/
theorem parseText_written {d a : Bytes} {ps : List (Bytes × Bytes)} (hDisplay : ch '<' ∉ d)
    (hTrimmed : d.rdropWhile Str.isLws = d) (hAddr : ch '>' ∉ a)
    (hLeft : a.dropWhile Str.isLws = a) (hRight : a.rdropWhile Str.isLws = a) :
    parseText (textOut ⟨d, a, ps⟩) = some ⟨d, a, ps⟩ ↔ parsed Str.isLws (ch ';') (out (ch ';') ps) = ps := by
  have hSpace : ∀ c ∈ [ch ' '], Str.isLws c = true := by decide +kernel
  have hName : ch '<' ∉ (if d = [] then [] else d ++ [ch ' ']) ∧
      (if d = [] then [] else d ++ [ch ' ']).rdropWhile Str.isLws = d := by
    split
    · rename_i hNone
      exact ⟨List.not_mem_nil, hNone.symm⟩
    · refine ⟨?_, (Trim.rdropWhile_append_of_all hSpace).trans hTrimmed⟩
      rw [List.mem_append, not_or]
      exact ⟨hDisplay, by decide⟩
  rw [textOut, parseText, cut_append hName.1]
  dsimp only
  rw [cut_dropWhile isLws_gt, cut_append hAddr, Option.map_some]
  dsimp only
  rw [hName.2, hLeft, hRight, closedText]
  cases ps with
  | nil => exact ⟨fun _ => rfl, fun _ => rfl⟩
  | cons q qs =>
    rw [flatten_out (List.cons_ne_nil q qs), List.dropWhile_cons_of_neg (Bool.eq_false_iff.mp isLws_semi)]
    dsimp only
    split
    · rename_i hEmpty
      have hNil : out (ch ';') (q :: qs) = [] := hEmpty.resolve_right fun h => h rfl
      rw [hNil, parsed_nil]
      constructor <;> intro h <;> cases h
    · rw [Option.some.injEq, NameAddrText.mk.injEq]
      exact ⟨fun h => h.2.2, fun h => ⟨rfl, rfl, h⟩⟩

/-- A value survives being built if and only if nothing in it is taken for a bracket or dropped. -/
theorem parseText_textOut_iff {b : Bytes} {t : NameAddrText} (h : parseText b = some t) :
    parseText (textOut t) = some t ↔ Rebuilt b := by
  obtain ⟨hDisplay, hTrimmed, hParams, hBare, hBracketed⟩ := parseText_some h
  have hRead : ch '>' ∉ t.addr_spec → t.addr_spec.dropWhile Str.isLws = t.addr_spec →
      t.addr_spec.rdropWhile Str.isLws = t.addr_spec →
      (parseText (textOut t) = some t ↔ ¬ BlankEnd Str.isLws (ch ';') (paramText b)) := by
    intro hAddr hLeft hRight
    rw [← parsed_out_iff isLws_eq isLws_semi (by decide), ← hParams]
    exact parseText_written hDisplay hTrimmed hAddr hLeft hRight
  constructor
  · intro hSame
    have hIn : ch '<' ∈ textOut t := by simp [textOut]
    obtain ⟨hAddr, hLeft, hRight⟩ := (parseText_some hSame).2.2.2.2 hIn
    refine ⟨(hRead hAddr hLeft hRight).mp hSame, fun hNot => ?_⟩
    rw [← hBare hNot]
    exact ⟨hAddr, hLeft, hRight⟩
  · rintro ⟨hEnd, hAlone⟩
    obtain ⟨hAddr, hLeft, hRight⟩ : ch '>' ∉ t.addr_spec ∧
        t.addr_spec.dropWhile Str.isLws = t.addr_spec ∧ t.addr_spec.rdropWhile Str.isLws = t.addr_spec := by
      cases Decidable.em (ch '<' ∈ b) with
      | inl hIn => exact hBracketed hIn
      | inr hNot =>
        rw [hBare hNot]
        exact hAlone hNot
    exact (hRead hAddr hLeft hRight).mpr hEnd

theorem roundTrips_iff_rebuilt {m : Mem} {hvp : Str} {nap : NameAddr} {hp hp' : Heap}
    (hRun : (parse m hvp).run hp = some (.ok nap, hp')) :
    RoundTrips (hp'.mem m) nap ↔ Rebuilt ((hp.mem m).read hvp) := by
  obtain ⟨hMem, hParts⟩ := parse_ok hRun
  have hText : parseText ((hp.mem m).read hvp) = some (nap.texts (hp.mem m)) := by
    rw [← read_parseParts, hParts, Option.map_some]
  rw [roundTrips_iff, hMem]
  exact parseText_textOut_iff hText

end NameAddr

end Microsippy
