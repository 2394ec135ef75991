import Microsippy.Msg
import Microsippy.ViaText

/-! # White space around parameters

Which values are parsed to the same parameters when spaces and tabs are put around the delimiters, and
what the lookups of a tag and a branch find then.
-/

namespace Microsippy

set_option autoImplicit false

namespace Params

/-- Spaces and tabs. -/
def Pad (w : Bytes) : Prop := ∀ c ∈ w, Str.isWs c = true

theorem Pad.lws {w : Bytes} (h : Pad w) : ∀ c ∈ w, Str.isLws c = true := by
  intro c hc
  have hWs := h c hc
  rw [Str.isWs, Bool.or_eq_true] at hWs
  rw [Str.isLws, Bool.or_eq_true, Bool.or_eq_true, Bool.or_eq_true]
  exact Or.inl (Or.inl hWs)

/-- A parameter, and the same with padding around its `=`. -/
inductive PiecePads : Bytes → Bytes → Prop
  | plain {p : Bytes} (hNot : ch '=' ∉ p) : PiecePads p p
  | around {t v w w' : Bytes} (hFirst : ch '=' ∉ t) (hw : Pad w) (hw' : Pad w') :
    PiecePads (t ++ ch '=' :: v) (t ++ w ++ ch '=' :: (w' ++ v))

/-- A list, and the same with padding around its delimiters. -/
inductive ListPads : Bytes → Bytes → Prop
  | last {p p' : Bytes} (hNot : ch ';' ∉ p) (hPiece : PiecePads p p') : ListPads p p'
  | cons {a a' r r' w w' : Bytes} (hFirst : ch ';' ∉ a) (hPiece : PiecePads a a') (hw : Pad w)
    (hw' : Pad w') (hRest : ListPads r r') :
    ListPads (a ++ ch ';' :: r) (a' ++ w ++ ch ';' :: (w' ++ r'))

/-- Parameters that are read alike. -/
inductive Alike : Bytes → Bytes → Prop
  | refl (p : Bytes) : Alike p p
  | around {t t' v v' : Bytes} (ht : ch '=' ∉ t) (ht' : ch '=' ∉ t')
    (hToken : t'.rdropWhile Str.isLws = t.rdropWhile Str.isLws)
    (hValue : v'.dropWhile Str.isLws = v.dropWhile Str.isLws) :
    Alike (t ++ ch '=' :: v) (t' ++ ch '=' :: v')

theorem Alike.pair {p p' : Bytes} (h : Alike p p') : pair Str.isLws p' = pair Str.isLws p := by
  cases h with
  | refl => rfl
  | around ht ht' hToken hValue => rw [pair_cut ht, pair_cut ht', hToken, hValue]

theorem Alike.dropWhile {p p' : Bytes} (h : Alike p p') :
    Alike (p.dropWhile Str.isLws) (p'.dropWhile Str.isLws) := by
  cases h with
  | refl => exact .refl _
  | around ht ht' hToken hValue =>
    rw [Trim.dropWhile_append_cons NameAddr.isLws_eq, Trim.dropWhile_append_cons NameAddr.isLws_eq]
    apply Alike.around (fun h => ht (Trim.mem_of_dropWhile h)) (fun h => ht' (Trim.mem_of_dropWhile h))
    · rw [Trim.trim_comm, Trim.trim_comm, hToken]
    · exact hValue

theorem Alike.rdropWhile {p p' : Bytes} (h : Alike p p') :
    Alike (p.rdropWhile Str.isLws) (p'.rdropWhile Str.isLws) := by
  cases h with
  | refl => exact .refl _
  | around ht ht' hToken hValue =>
    rw [Trim.rdropWhile_append_cons NameAddr.isLws_eq, Trim.rdropWhile_append_cons NameAddr.isLws_eq]
    apply Alike.around ht ht' hToken
    rw [← Trim.trim_comm, ← Trim.trim_comm, hValue]

theorem not_mem_lws {c : UInt8} {w : Bytes} (hc : Str.isLws c = false)
    (hw : ∀ c ∈ w, Str.isLws c = true) : c ∉ w := fun hIn => Bool.eq_false_iff.mp hc (hw c hIn)

theorem PiecePads.alike {p p' : Bytes} (h : PiecePads p p') : Alike p p' := by
  cases h with
  | plain => exact .refl _
  | @around t v w w' hFirst hw hw' =>
    apply Alike.around hFirst
    · rw [List.mem_append, not_or]
      exact ⟨hFirst, not_mem_lws NameAddr.isLws_eq hw.lws⟩
    · exact Trim.rdropWhile_append_of_all hw.lws
    · exact List.dropWhile_append_of_pos hw'.lws

theorem PiecePads.semi {p p' : Bytes} (h : PiecePads p p') (hNot : ch ';' ∉ p) : ch ';' ∉ p' := by
  cases h with
  | plain => exact hNot
  | around hFirst hw hw' =>
    simp only [List.mem_append, List.mem_cons, not_or] at hNot ⊢
    exact ⟨⟨hNot.1, not_mem_lws NameAddr.isLws_semi hw.lws⟩, hNot.2.1,
      not_mem_lws NameAddr.isLws_semi hw'.lws, hNot.2.2⟩

theorem parsed_alike {p p' : Bytes} (h : Alike p p') (hNot : ch ';' ∉ p) (hNot' : ch ';' ∉ p') :
    parsed Str.isLws (ch ';') p' = parsed Str.isLws (ch ';') p := by
  cases h with
  | refl => rfl
  | around ht ht' hToken hValue =>
    rw [parsed_last (by simp) hNot, parsed_last (by simp) hNot', (Alike.around ht ht' hToken hValue).pair]

/-- A padded list is read as the list, with or without the white space before it. -/
theorem ListPads.parsed {r r' : Bytes} (h : ListPads r r') :
    parsed Str.isLws (ch ';') r' = parsed Str.isLws (ch ';') r ∧
      parsed Str.isLws (ch ';') (r'.dropWhile Str.isLws) =
        parsed Str.isLws (ch ';') (r.dropWhile Str.isLws) := by
  induction h with
  | last hNot hPiece =>
    have hNot' := hPiece.semi hNot
    exact ⟨parsed_alike hPiece.alike hNot hNot', parsed_alike hPiece.alike.dropWhile
      (fun h => hNot (Trim.mem_of_dropWhile h)) fun h => hNot' (Trim.mem_of_dropWhile h)⟩
  | @cons a a' r r' w w' hFirst hPiece hw hw' hRest ih =>
    have hFirst' : ch ';' ∉ a' ++ w := by
      rw [List.mem_append, not_or]
      exact ⟨hPiece.semi hFirst, not_mem_lws NameAddr.isLws_semi hw.lws⟩
    have hLater : Params.parsed Str.isLws (ch ';') ((w' ++ r').dropWhile Str.isLws) =
        Params.parsed Str.isLws (ch ';') (r.dropWhile Str.isLws) := by
      rw [List.dropWhile_append_of_pos hw'.lws, ih.2]
    constructor
    · rw [parsed_cut hFirst, parsed_cut hFirst', hLater, Trim.rdropWhile_append_of_all hw.lws,
        hPiece.alike.rdropWhile.pair]
    · rw [Trim.dropWhile_append_cons NameAddr.isLws_semi, Trim.dropWhile_append_cons NameAddr.isLws_semi,
        parsed_cut fun h => hFirst (Trim.mem_of_dropWhile h),
        parsed_cut fun h => hFirst' (Trim.mem_of_dropWhile h), hLater, Trim.trim_comm, Trim.trim_comm,
        Trim.rdropWhile_append_of_all hw.lws, ← Trim.trim_comm, ← Trim.trim_comm,
        hPiece.alike.dropWhile.rdropWhile.pair]

/-! ## The name of the first parameter -/

/-- A list without a first name: white space, and a `;` or a `=` after it. -/
inductive NoName : Bytes → Prop
  | mk {w z : Bytes} {d : UInt8} (hw : ∀ c ∈ w, Str.isLws c = true) (hd : d = ch ';' ∨ d = ch '=') :
    NoName (w ++ d :: z)

theorem semi_ne_eq : ch ';' ≠ ch '=' := by decide

/-- The first name is what is before the first `;` or `=`. -/
theorem first_name {t z : Bytes} {d : UInt8} (hSemi : ch ';' ∉ t) (hEq : ch '=' ∉ t)
    (hd : d = ch ';' ∨ d = ch '=') :
    (parsed Str.isLws (ch ';') (t ++ d :: z)).head?.map (·.1) = some (t.rdropWhile Str.isLws) := by
  have hTrimmed : ch '=' ∉ t.rdropWhile Str.isLws := fun h => hEq (Trim.mem_of_rdropWhile h)
  obtain rfl | rfl := hd
  · rw [parsed_cut hSemi, pair_none hTrimmed]
    rfl
  · obtain ⟨hNot, -⟩ | ⟨v, r, rfl, hFirst, -⟩ := cut_cases (ch ';') z
    · have hWhole : ch ';' ∉ t ++ ch '=' :: z := by
        simp [hSemi, hNot, semi_ne_eq]
      rw [parsed_last (by simp) hWhole, pair_cut hEq]
      rfl
    · have hPiece : ch ';' ∉ t ++ ch '=' :: v := by
        simp [hSemi, hFirst, semi_ne_eq]
      rw [← List.cons_append, ← List.append_assoc, parsed_cut hPiece,
        Trim.rdropWhile_append_cons NameAddr.isLws_eq, pair_cut hEq]
      rfl

/-- The name of a first parameter without one does not depend on the white space there. -/
theorem parsed_noName {u u' z : Bytes} {d : UInt8} (hu : ∀ c ∈ u, Str.isLws c = true)
    (hu' : ∀ c ∈ u', Str.isLws c = true) (hd : d = ch ';' ∨ d = ch '=') :
    parsed Str.isLws (ch ';') (u' ++ d :: z) = parsed Str.isLws (ch ';') (u ++ d :: z) := by
  have hBlank : ∀ {u : Bytes}, (∀ c ∈ u, Str.isLws c = true) → u.rdropWhile Str.isLws = [] :=
    fun hu => List.rdropWhile_eq_nil_iff.mpr hu
  obtain rfl | rfl := hd
  · rw [parsed_cut (not_mem_lws NameAddr.isLws_semi hu), parsed_cut (not_mem_lws NameAddr.isLws_semi hu'), hBlank hu,
      hBlank hu']
  · have hAlike : ∀ v, Alike (u ++ ch '=' :: v) (u' ++ ch '=' :: v) := fun v =>
      .around (not_mem_lws NameAddr.isLws_eq hu) (not_mem_lws NameAddr.isLws_eq hu') (by rw [hBlank hu, hBlank hu']) rfl
    have hSemi := not_mem_lws NameAddr.isLws_semi hu
    have hSemi' := not_mem_lws NameAddr.isLws_semi hu'
    obtain ⟨hLast, -⟩ | ⟨v, r, rfl, hFirst, -⟩ := cut_cases (ch ';') z
    · apply parsed_alike (hAlike z) <;> simp [hSemi, hSemi', hLast, semi_ne_eq]
    · have hPiece : ch ';' ∉ u ++ ch '=' :: v ∧ ch ';' ∉ u' ++ ch '=' :: v := by
        simp [hSemi, hSemi', hFirst, semi_ne_eq]
      have hParts : ∀ u, u ++ ch '=' :: (v ++ ch ';' :: r) = (u ++ ch '=' :: v) ++ ch ';' :: r := by simp
      rw [hParts, hParts, parsed_cut hPiece.1, parsed_cut hPiece.2, (hAlike v).rdropWhile.pair]

/-- White space before a list is read as part of its first name, where there is one. -/
theorem parsed_before {w r : Bytes} (hw : ∀ c ∈ w, Str.isLws c = true) (hSome : r ≠ []) :
    parsed Str.isLws (ch ';') (w ++ r) = parsed Str.isLws (ch ';') r ↔ w = [] ∨ NoName r := by
  constructor
  · intro h
    obtain hPlain | ⟨t, d, z, rfl, hPlain, hd⟩ :=
      Trim.all_or_stop (fun c => c != ch ';' && c != ch '=') r
    · have hSemi : ch ';' ∉ r := fun hIn => by simpa using hPlain _ hIn
      have hEq : ch '=' ∉ r := fun hIn => by simpa using hPlain _ hIn
      have hSemi' : ch ';' ∉ w ++ r := by
        rw [List.mem_append, not_or]
        exact ⟨not_mem_lws NameAddr.isLws_semi hw, hSemi⟩
      have hEq' : ch '=' ∉ w ++ r := by
        rw [List.mem_append, not_or]
        exact ⟨not_mem_lws NameAddr.isLws_eq hw, hEq⟩
      rw [parsed_last (by simp [hSome]) hSemi', parsed_last hSome hSemi, pair_none hEq', pair_none hEq] at h
      left
      simpa using h
    · have hSemi : ch ';' ∉ t := fun hIn => by simpa using hPlain _ hIn
      have hEq : ch '=' ∉ t := fun hIn => by simpa using hPlain _ hIn
      have hDlm : d = ch ';' ∨ d = ch '=' := by
        simpa [or_iff_not_imp_left] using hd
      have hSemi' : ch ';' ∉ w ++ t := by
        rw [List.mem_append, not_or]
        exact ⟨not_mem_lws NameAddr.isLws_semi hw, hSemi⟩
      have hEq' : ch '=' ∉ w ++ t := by
        rw [List.mem_append, not_or]
        exact ⟨not_mem_lws NameAddr.isLws_eq hw, hEq⟩
      have hName := congrArg (fun qs : List (Bytes × Bytes) => qs.head?.map (·.1)) h
      rw [← List.append_assoc, first_name hSemi hEq hDlm, first_name hSemi' hEq' hDlm,
        Option.some.injEq] at hName
      obtain hBlank | ⟨u, e, v, hIs, -, he⟩ := Trim.all_or_stop Str.isLws t
      · exact Or.inr (.mk hBlank hDlm)
      · rw [hIs, ← List.append_assoc, Trim.rdropWhile_append_cons he, Trim.rdropWhile_append_cons he,
          List.append_assoc] at hName
        exact Or.inl (List.append_left_eq_self.mp hName)
  · rintro (rfl | hNone)
    · rfl
    · cases hNone with
      | @mk u z d hu hd =>
        rw [← List.append_assoc]
        exact parsed_noName hu (List.forall_mem_append.mpr ⟨hw, hu⟩) hd

theorem ListPads.ne_nil {r r' : Bytes} (h : ListPads r r') (hSome : r ≠ []) : r' ≠ [] := by
  cases h with
  | last hNot hPiece =>
    cases hPiece with
    | plain => exact hSome
    | around => simp
  | cons => simp

theorem noName_iff {t z : Bytes} {d : UInt8} (hSemi : ch ';' ∉ t) (hEq : ch '=' ∉ t)
    (hd : d = ch ';' ∨ d = ch '=') : NoName (t ++ d :: z) ↔ ∀ c ∈ t, Str.isLws c = true := by
  constructor
  · intro h
    generalize hIs : t ++ d :: z = r at h
    cases h with
    | @mk u y e hu he =>
      have hTake : ∀ {t z : Bytes} {d : UInt8}, ch ';' ∉ t → ch '=' ∉ t → d = ch ';' ∨ d = ch '=' →
          (t ++ d :: z).takeWhile (fun c => c != ch ';' && c != ch '=') = t := by
        intro t z d hSemi hEq hd
        have hPlain : ∀ c ∈ t, (c != ch ';' && c != ch '=') = true := by
          intro c hc
          simpa using ⟨fun h => hSemi (h ▸ hc), fun h => hEq (h ▸ hc)⟩
        rw [List.takeWhile_append_of_pos hPlain, List.takeWhile_cons_of_neg (by simpa [or_iff_not_imp_left] using hd),
          List.append_nil]
      have hSame := hTake (z := z) hSemi hEq hd
      rw [hIs, hTake (not_mem_lws NameAddr.isLws_semi hu) (not_mem_lws NameAddr.isLws_eq hu) he] at hSame
      rwa [← hSame]
  · exact fun ht => .mk ht hd

/-- Padding is after what is before the first `;` or `=`. -/
theorem ListPads.first {r r' : Bytes} (h : ListPads r r') :
    r' = r ∨ ∃ t w z z' d, r = t ++ d :: z ∧ r' = t ++ w ++ d :: z' ∧ ch ';' ∉ t ∧ ch '=' ∉ t ∧ Pad w ∧
      (d = ch ';' ∨ d = ch '=') := by
  cases h with
  | last hNot hPiece =>
    cases hPiece with
    | plain => exact Or.inl rfl
    | @around t v w w' hFirst hw hw' =>
      rw [List.mem_append, not_or] at hNot
      exact Or.inr ⟨t, w, v, w' ++ v, _, rfl, rfl, hNot.1, hFirst, hw, Or.inr rfl⟩
  | @cons a a' r r' w w' hFirst hPiece hw hw' hRest =>
    cases hPiece with
    | plain hNot => exact Or.inr ⟨a, w, r, w' ++ r', _, rfl, rfl, hFirst, hNot, hw, Or.inl rfl⟩
    | @around t v x x' hEq hx hx' =>
      rw [List.mem_append, not_or] at hFirst
      exact Or.inr ⟨t, x, v ++ ch ';' :: r, x' ++ v ++ w ++ ch ';' :: (w' ++ r'), ch '=', by simp,
        by simp, hFirst.1, hEq, hx, Or.inr rfl⟩

/-- Padding neither gives the first parameter a name nor takes it. -/
theorem ListPads.noName {r r' : Bytes} (h : ListPads r r') : NoName r' ↔ NoName r := by
  obtain rfl | ⟨t, w, z, z', d, rfl, rfl, hSemi, hEq, hw, hd⟩ := h.first
  · rfl
  · have hSemi' : ch ';' ∉ t ++ w := by
      rw [List.mem_append, not_or]
      exact ⟨hSemi, not_mem_lws NameAddr.isLws_semi hw.lws⟩
    have hEq' : ch '=' ∉ t ++ w := by
      rw [List.mem_append, not_or]
      exact ⟨hEq, not_mem_lws NameAddr.isLws_eq hw.lws⟩
    rw [noName_iff hSemi' hEq' hd, noName_iff hSemi hEq hd, List.forall_mem_append]
    exact and_iff_left hw.lws

theorem ListPads.mem {r r' : Bytes} (h : ListPads r r') {c : UInt8} (hc : Str.isLws c = false)
    (hIn : c ∈ r') : c ∈ r := by
  have hPad : ∀ {w : Bytes}, Pad w → c ∉ w := fun hw => not_mem_lws hc hw.lws
  have hPiece : ∀ {p p' : Bytes}, PiecePads p p' → c ∈ p' → c ∈ p := by
    intro p p' hPads hIn
    cases hPads with
    | plain => exact hIn
    | around hFirst hw hw' => simpa [hPad hw, hPad hw'] using hIn
  induction h with
  | last hNot hPads => exact hPiece hPads hIn
  | cons hFirst hPads hw hw' hRest ih =>
    simp only [List.mem_append, List.mem_cons, hPad hw, hPad hw', or_false, false_or] at hIn ⊢
    exact hIn.imp (hPiece hPads) (Or.imp_right ih)

/-! ## Lookups -/

/-- The value of the first parameter of a name. -/
def lookup (name : Bytes) (qs : List (Bytes × Bytes)) : Option Bytes :=
  (qs.find? fun q => q.1 == name).map (·.2)

theorem lookup_texts (m : Mem) (name : Bytes) (params : List TvPair) :
    (params.find? fun pp => pp.token.l == name.length && m.read pp.token == name).map
      (fun pp => m.read pp.value) = lookup name (texts m params) := by
  have hName : ∀ s : Str, (s.l == name.length && m.read s == name) = (m.read s == name) := by
    intro s
    rw [Bool.and_eq_right_iff_imp, beq_iff_eq, beq_iff_eq]
    rintro rfl
    exact (Mem.length_read m s).symm
  rw [lookup, texts, List.find?_map, Option.map_map]
  simp only [hName]
  rfl

end Params

namespace NameAddr

open Params

theorem read_getParam (m : Mem) (nap : NameAddr) (name : Bytes) :
    (nap.getParam m name).map m.read = lookup name (Params.texts m nap.params) := by
  rw [getParam, Option.map_map, ← lookup_texts]
  rfl

/-- A value, and the same with padding around the delimiters of its parameters. -/
inductive Padded : Bytes → Bytes → Prop
  | refl (b : Bytes) : Padded b b
  | bare {a w w' r r' : Bytes} (hOpen : ch '<' ∉ a ++ ch ';' :: r) (ha : ch ';' ∉ a) (hw : Pad w)
    (hw' : Pad w') (hList : ListPads r r') :
    Padded (a ++ ch ';' :: r) (a ++ w ++ ch ';' :: (w' ++ r'))
  | closed {d u x w w' r r' : Bytes} (hd : ch '<' ∉ d) (hu : ch '>' ∉ u)
    (hx : ∀ c ∈ x, Str.isLws c = true) (hw : Pad w) (hw' : Pad w') (hList : ListPads r r') :
    Padded (d ++ ch '<' :: (u ++ ch '>' :: (x ++ ch ';' :: r)))
      (d ++ ch '<' :: (u ++ ch '>' :: (x ++ w ++ ch ';' :: (w' ++ r'))))

/-- Padding between the `;` after the bracket and the name of the parameter there. -/
inductive Moved : Bytes → Bytes → Prop
  | mk {d u x w w' r r' : Bytes} (hd : ch '<' ∉ d) (hu : ch '>' ∉ u) (hx : ∀ c ∈ x, Str.isLws c = true)
    (hw : Pad w) (hw' : Pad w') (hList : ListPads r r') (hBefore : w' ≠ []) (hSome : r ≠ [])
    (hName : ¬ NoName r) :
    Moved (d ++ ch '<' :: (u ++ ch '>' :: (x ++ ch ';' :: r)))
      (d ++ ch '<' :: (u ++ ch '>' :: (x ++ w ++ ch ';' :: (w' ++ r'))))

theorem parseText_bare {a r : Bytes} (hOpen : ch '<' ∉ a ++ ch ';' :: r) (ha : ch ';' ∉ a) :
    parseText (a ++ ch ';' :: r) = some ⟨[], a.rdropWhile Str.isLws,
      parsed Str.isLws (ch ';') (r.dropWhile Str.isLws)⟩ := by
  rw [parseText, cut_none hOpen, cut_append ha]

theorem parseText_closed {d u x r : Bytes} (hd : ch '<' ∉ d) (hu : ch '>' ∉ u)
    (hx : ∀ c ∈ x, Str.isLws c = true) :
    parseText (d ++ ch '<' :: (u ++ ch '>' :: (x ++ ch ';' :: r))) = if r = [] then none else
      some ⟨d.rdropWhile Str.isLws, (u.dropWhile Str.isLws).rdropWhile Str.isLws,
        parsed Str.isLws (ch ';') r⟩ := by
  have hTail : (x ++ ch ';' :: r).dropWhile Str.isLws = ch ';' :: r := by
    rw [Trim.dropWhile_append_cons isLws_semi, List.dropWhile_eq_nil_iff.mpr hx, List.nil_append]
  have hClose : cut (ch '>') ((u ++ ch '>' :: (x ++ ch ';' :: r)).dropWhile Str.isLws) =
      some (u.dropWhile Str.isLws, x ++ ch ';' :: r) := by
    rw [cut_dropWhile isLws_gt, cut_append hu]
    rfl
  rw [parseText, cut_append hd]
  simp only [hClose]
  rw [closedText, hTail]
  simp

/-- What padding does to the parameters of a bracketed value. -/
theorem parsed_closed_iff {w' r r' : Bytes} (hw' : Pad w') (hList : ListPads r r') (hSome : r ≠ []) :
    parsed Str.isLws (ch ';') (w' ++ r') = parsed Str.isLws (ch ';') r ↔ w' = [] ∨ NoName r := by
  rw [← hList.parsed.1, parsed_before hw'.lws (hList.ne_nil hSome), hList.noName]

theorem Padded.text {b b' : Bytes} (h : Padded b b') (hMoved : ¬ Moved b b') {t : NameAddrText}
    (hText : parseText b = some t) : ∃ t', parseText b' = some t' ∧ t'.params = t.params := by
  cases h with
  | refl => exact ⟨t, hText, rfl⟩
  | @bare a w w' r r' hOpen ha hw hw' hList =>
    have hOpen' : ch '<' ∉ a ++ w ++ ch ';' :: (w' ++ r') := by
      simp only [List.mem_append, List.mem_cons, not_or] at hOpen ⊢
      exact ⟨⟨hOpen.1, not_mem_lws isLws_lt hw.lws⟩, hOpen.2.1, not_mem_lws isLws_lt hw'.lws,
        fun hIn => hOpen.2.2 (hList.mem isLws_lt hIn)⟩
    have ha' : ch ';' ∉ a ++ w := by
      rw [List.mem_append, not_or]
      exact ⟨ha, not_mem_lws isLws_semi hw.lws⟩
    rw [parseText_bare hOpen ha] at hText
    obtain rfl := Option.some.inj hText
    refine ⟨_, parseText_bare hOpen' ha', ?_⟩
    rw [List.dropWhile_append_of_pos hw'.lws, hList.parsed.2]
  | @closed d u x w w' r r' hd hu hx hw hw' hList =>
    rw [parseText_closed hd hu hx] at hText
    split at hText
    · cases hText
    · rename_i hSome
      obtain rfl := Option.some.inj hText
      have hSame : parsed Str.isLws (ch ';') (w' ++ r') = parsed Str.isLws (ch ';') r := by
        rw [parsed_closed_iff hw' hList hSome, or_iff_not_imp_left]
        intro hBefore
        exact Classical.byContradiction fun hName => hMoved (.mk hd hu hx hw hw' hList hBefore hSome hName)
      refine ⟨⟨d.rdropWhile Str.isLws, (u.dropWhile Str.isLws).rdropWhile Str.isLws,
        parsed Str.isLws (ch ';') (w' ++ r')⟩, ?_, hSame⟩
      rw [parseText_closed hd hu (List.forall_mem_append.mpr ⟨hx, hw.lws⟩), if_neg]
      exact List.append_ne_nil_of_right_ne_nil w' (hList.ne_nil hSome)

theorem Moved.text {b b' : Bytes} (h : Moved b b') :
    ∃ t, parseText b = some t ∧ ∀ t', parseText b' = some t' → t'.params ≠ t.params := by
  cases h with
  | @mk d u x w w' r r' hd hu hx hw hw' hList hBefore hSome hName =>
    have hSome' : w' ++ r' ≠ [] := List.append_ne_nil_of_right_ne_nil w' (hList.ne_nil hSome)
    rw [parseText_closed hd hu hx, parseText_closed hd hu (List.forall_mem_append.mpr ⟨hx, hw.lws⟩),
      if_neg hSome, if_neg hSome']
    refine ⟨_, rfl, ?_⟩
    rintro t' hText hSame
    obtain rfl := Option.some.inj hText
    obtain hNone | hNoName := (parsed_closed_iff hw' hList hSome).mp hSame
    · exact hBefore hNone
    · exact hName hNoName

end NameAddr

namespace Via

open Params

/-- A value, and the same with padding around the delimiters of its parameters. -/
inductive Padded : Bytes → Bytes → Prop
  | refl (b : Bytes) : Padded b b
  | listed {name version x transport s w w' r r' : Bytes} {d : UInt8} (hName : ch '/' ∉ name)
    (hVersion : ch '/' ∉ version) (hx : ∀ c ∈ x, Str.isLws c = true) (hSome : transport ≠ [])
    (hTransport : ∀ c ∈ transport, Str.isLws c = false) (hd : Str.isLws d = true) (hs : ch ';' ∉ s)
    (hw : Pad w) (hw' : Pad w') (hList : ListPads r r') :
    Padded (name ++ ch '/' :: (version ++ ch '/' :: (x ++ (transport ++ d :: (s ++ ch ';' :: r)))))
      (name ++ ch '/' :: (version ++ ch '/' :: (x ++ (transport ++ d ::
        (s ++ w ++ ch ';' :: (w' ++ r'))))))

theorem spaceText_semi {stack s r : Bytes} (hs : ch ';' ∉ s) :
    spaceText stack ((s ++ ch ';' :: r).dropWhile Str.isLws) =
      ((s.dropWhile Str.isLws).rdropWhile Str.isLws, r.dropWhile Str.isLws) := by
  rw [Trim.dropWhile_append_cons NameAddr.isLws_semi, spaceText,
    cut_append fun h => hs (Trim.mem_of_dropWhile h)]

theorem Padded.text {b b' : Bytes} (h : Padded b b') {stack : Bytes} {t : ViaText}
    (hText : parseText stack b = some t) : ∃ t', parseText stack b' = some t' ∧ t'.params = t.params := by
  cases h with
  | refl => exact ⟨t, hText, rfl⟩
  | @listed name version x transport s w w' r r' d hName hVersion hx hSome hTransport hd hs hw hw' hList =>
    have hs' : ch ';' ∉ s ++ w := by
      rw [List.mem_append, not_or]
      exact ⟨hs, not_mem_lws NameAddr.isLws_semi hw.lws⟩
    have hPlace : ((s ++ w).dropWhile Str.isLws).rdropWhile Str.isLws =
        (s.dropWhile Str.isLws).rdropWhile Str.isLws := by
      rw [Trim.trim_comm, Trim.trim_comm, Trim.rdropWhile_append_of_all hw.lws]
    rw [parseText, headText_append hName hVersion hx hSome hTransport hd] at hText
    rw [parseText, headText_append hName hVersion hx hSome hTransport hd]
    simp only [Option.bind_eq_bind, Option.bind_some, spaceText_semi hs] at hText
    simp only [Option.bind_eq_bind, Option.bind_some, spaceText_semi hs', hPlace]
    obtain ⟨place, hIs, hOut⟩ := Option.bind_eq_some_iff.mp hText
    obtain rfl := Option.some.inj hOut
    rw [hIs]
    refine ⟨_, rfl, ?_⟩
    rw [List.dropWhile_append_of_pos hw'.lws, hList.parsed.2]

theorem Padded.same {b b' stack : Bytes} (h : Padded b b') {t t' : ViaText}
    (hText : parseText stack b = some t) (hText' : parseText stack b' = some t') :
    t'.params = t.params := by
  obtain ⟨u, hIs, hParams⟩ := h.text hText
  rw [hText'] at hIs
  rw [Option.some.inj hIs, hParams]

end Via

/-! ## Transactions -/

namespace Msg

open Params

theorem read_requireParam (m : Mem) (params : List TvPair) (name : Bytes) :
    (requireParam m params name).map m.read =
      (lookup name (Params.texts m params)).bind fun value => if value = [] then none else some value := by
  rw [requireParam, ← lookup_texts, Option.bind_map, Option.map_bind]
  congr 1
  funext pp
  have hEmpty := NameAddr.read_eq_nil m pp.value
  simp only [Function.comp_apply, hEmpty]
  split <;> rfl

/-- Parsed values of a header in two messages: of a name-addr or a Via, with values that are
related. -/
inductive Replaced (rn rv : Bytes → Bytes → Prop) (stack : Str) (m m' : Mem) :
    ParsedHdr → ParsedHdr → Prop
  | nameaddr {v v' : Str} {nap nap' : NameAddr} (hValue : rn (m.read v) (m'.read v'))
    (hParts : NameAddr.parseParts m v = some nap) (hParts' : NameAddr.parseParts m' v' = some nap') :
    Replaced rn rv stack m m' (.nameaddr nap) (.nameaddr nap')
  | via {v v' : Str} {vp vp' : Via} (hValue : rv (m.read v) (m'.read v'))
    (hParts : Via.parseParts stack m v = some vp) (hParts' : Via.parseParts stack m' v' = some vp') :
    Replaced rn rv stack m m' (.via vp) (.via vp')
  | cseq (c c' : Cseq) : Replaced rn rv stack m m' (.cseq c) (.cseq c')
  | generic (s s' : Str) : Replaced rn rv stack m m' (.generic s) (.generic s')

/-- A header and the one it was replaced by. -/
structure HdrReplaced (rn rv : Bytes → Bytes → Prop) (stack : Str) (m m' : Mem) (h h' : MsgHdr) :
    Prop where
  hf_type : h'.hf_type = h.hf_type
  parsed : Option.Rel (Replaced rn rv stack m m') h.parsed h'.parsed

/-- What the branch and the tag of a transaction read as. -/
def tidTexts (m : Mem) (msg : Msg) : Option (Bytes × Bytes) :=
  (msg.getTid m).map fun tid => (m.read tid.vbranch, m.read tid.from_tag)

section

variable {rn rv : Bytes → Bytes → Prop} {stack : Str} {m m' : Mem} {msg msg' : Msg}

theorem isSome_of_rel {α β : Type} {R : α → β → Prop} {x : Option α} {y : Option β}
    (h : Option.Rel R x y) : y.isSome = x.isSome := by
  cases h <;> rfl

theorem present_replaced (h : List.Forall₂ (HdrReplaced rn rv stack m m') msg.hdrs msg'.hdrs) (t : Hf) :
    msg'.present t = msg.present t := by
  rw [present, present]
  generalize msg.hdrs = hs, msg'.hdrs = hs' at h
  induction h with
  | nil => rfl
  | cons hr _ ih => rw [List.any_cons, List.any_cons, hr.hf_type, ih]

theorem top_replaced (h : List.Forall₂ (HdrReplaced rn rv stack m m') msg.hdrs msg'.hdrs) (t : Hf) :
    Option.Rel (HdrReplaced rn rv stack m m') (msg.top t) (msg'.top t) := by
  rw [top, top]
  generalize msg.hdrs = hs, msg'.hdrs = hs' at h
  induction h with
  | nil => exact .none
  | cons hr _ ih =>
    rw [List.find?_cons, List.find?_cons, hr.hf_type]
    split
    · exact .some hr
    · exact ih

/-- Related lists are folded to related results. -/
theorem foldl_related {α β σ τ : Type} {R : α → β → Prop} {S : σ → τ → Prop} {f : σ → α → σ}
    {g : τ → β → τ} (hStep : ∀ x y a b, S x y → R a b → S (f x a) (g y b)) {as : List α} {bs : List β}
    (h : List.Forall₂ R as bs) {x : σ} {y : τ} (hStart : S x y) : S (as.foldl f x) (bs.foldl g y) := by
  induction h generalizing x y with
  | nil => exact hStart
  | cons hr _ ih => exact ih (hStep _ _ _ _ hStart hr)

theorem matched_replaced (h : List.Forall₂ (HdrReplaced rn rv stack m m') msg.hdrs msg'.hdrs)
    (mask : List Hf) :
    List.Forall₂ (HdrReplaced rn rv stack m m') (msg.matched mask true) (msg'.matched mask true) := by
  rw [matched, matched, if_pos rfl, if_pos rfl]
  refine (@foldl_related _ _ _ _ _ (fun x y : List Hf × List MsgHdr => y.1 = x.1 ∧
    List.Forall₂ (HdrReplaced rn rv stack m m') x.2 y.2) _ _ ?_ _ _ h _ _ ⟨rfl, .nil⟩).2
  rintro ⟨seen, out⟩ ⟨seen', out'⟩ h h' ⟨hSeen, hOut⟩ hr
  dsimp only at hSeen hOut ⊢
  rw [hSeen, hr.hf_type]
  split
  · exact ⟨rfl, List.rel_append hOut (.cons hr .nil)⟩
  · exact ⟨rfl, hOut⟩

theorem parseHdrs_replaced (h : List.Forall₂ (HdrReplaced rn rv stack m m') msg.hdrs msg'.hdrs)
    (mask : List Hf) : msg'.parseHdrs mask true = msg.parseHdrs mask true := by
  have hPresent : msg'.present = msg.present := funext (present_replaced h)
  have hMatched := matched_replaced h mask
  rw [parseHdrs, parseHdrs, hPresent]
  generalize msg.matched mask true = hs, msg'.matched mask true = hs' at hMatched
  congr 1
  induction hMatched with
  | nil => rfl
  | cons hr _ ih => rw [List.all_cons, List.all_cons, isSome_of_rel hr.parsed, ih]

theorem parsed_replaced (h : List.Forall₂ (HdrReplaced rn rv stack m m') msg.hdrs msg'.hdrs) (t : Hf) :
    Option.Rel (Replaced rn rv stack m m') ((msg.top t).bind (·.parsed))
      ((msg'.top t).bind (·.parsed)) := by
  have hTop := top_replaced h t
  generalize msg.top t = x, msg'.top t = y at hTop
  cases hTop with
  | none => exact .none
  | some hr => exact hr.parsed

theorem read_tid {x x' y y' : Option Str} {f f' : Str → Str → Tid}
    (hf : ∀ vbranch from_tag, (f vbranch from_tag).vbranch = vbranch ∧
      (f vbranch from_tag).from_tag = from_tag)
    (hf' : ∀ vbranch from_tag, (f' vbranch from_tag).vbranch = vbranch ∧
      (f' vbranch from_tag).from_tag = from_tag)
    (hBranch : x'.map m'.read = x.map m.read) (hTag : y'.map m'.read = y.map m.read) :
    (x'.bind fun vbranch => y'.bind fun from_tag => some (f' vbranch from_tag)).map
        (fun tid => (m'.read tid.vbranch, m'.read tid.from_tag)) =
      (x.bind fun vbranch => y.bind fun from_tag => some (f vbranch from_tag)).map
        fun tid => (m.read tid.vbranch, m.read tid.from_tag) := by
  cases x with
  | none =>
    rw [Option.map_none, Option.map_eq_none_iff] at hBranch
    rw [hBranch]
    rfl
  | some vbranch =>
    obtain ⟨vbranch', rfl, hReadBranch⟩ := Option.map_eq_some_iff.mp hBranch
    cases y with
    | none =>
      rw [Option.map_none, Option.map_eq_none_iff] at hTag
      rw [hTag]
      rfl
    | some from_tag =>
      obtain ⟨from_tag', rfl, hReadTag⟩ := Option.map_eq_some_iff.mp hTag
      simp only [Option.bind_some, Option.map_some, hf, hf', hReadBranch, hReadTag]

/-- Values that have the same parameters give a transaction the same branch and tag. -/
theorem tidTexts_replaced
    (hNameaddr : ∀ b b', rn b b' → ∀ t t', NameAddr.parseText b = some t →
      NameAddr.parseText b' = some t' → t'.params = t.params)
    (hVia : ∀ b b', rv b b' → ∀ stack t t', Via.parseText stack b = some t →
      Via.parseText stack b' = some t' → t'.params = t.params)
    (hStack : m'.read stack = m.read stack)
    (h : List.Forall₂ (HdrReplaced rn rv stack m m') msg.hdrs msg'.hdrs) :
    tidTexts m' msg' = tidTexts m msg := by
  have hBranches : ∀ v v' vp vp', rv (m.read v) (m'.read v') → Via.parseParts stack m v = some vp →
      Via.parseParts stack m' v' = some vp' →
      (requireParam m' vp'.params (bytes "branch")).map m'.read =
        (requireParam m vp.params (bytes "branch")).map m.read := by
    intro v v' vp vp' hValue hParts hParts'
    have hText := Via.read_parseParts stack m v
    have hText' := Via.read_parseParts stack m' v'
    rw [hParts, Option.map_some] at hText
    rw [hParts', Option.map_some, hStack] at hText'
    have hSame := hVia _ _ hValue _ _ _ hText.symm hText'.symm
    rw [read_requireParam, read_requireParam]
    exact congrArg (fun qs => (lookup _ qs).bind _) hSame
  have hTags : ∀ v v' nap nap', rn (m.read v) (m'.read v') → NameAddr.parseParts m v = some nap →
      NameAddr.parseParts m' v' = some nap' →
      (requireParam m' nap'.params (bytes "tag")).map m'.read =
        (requireParam m nap.params (bytes "tag")).map m.read := by
    intro v v' nap nap' hValue hParts hParts'
    have hText := NameAddr.read_parseParts m v
    have hText' := NameAddr.read_parseParts m' v'
    rw [hParts, Option.map_some] at hText
    rw [hParts', Option.map_some] at hText'
    have hSame := hNameaddr _ _ hValue _ _ hText.symm hText'.symm
    rw [read_requireParam, read_requireParam]
    exact congrArg (fun qs => (lookup _ qs).bind _) hSame
  have hCseq := parsed_replaced h .CSEQ
  have hCallid := parsed_replaced h .CALLID
  have hVias := parsed_replaced h .VIA
  have hFrom := parsed_replaced h .FROM
  rw [tidTexts, tidTexts, getTid, getTid, parseHdrs_replaced h]
  split
  · generalize (msg.top .CSEQ).bind (·.parsed) = c, (msg'.top .CSEQ).bind (·.parsed) = c',
      (msg.top .CALLID).bind (·.parsed) = i, (msg'.top .CALLID).bind (·.parsed) = i',
      (msg.top .VIA).bind (·.parsed) = v, (msg'.top .VIA).bind (·.parsed) = v',
      (msg.top .FROM).bind (·.parsed) = f, (msg'.top .FROM).bind (·.parsed) = f' at *
    cases hCseq with
    | none => rfl
    | some hc =>
      cases hc with
      | nameaddr | via | generic => rfl
      | cseq =>
        cases hCallid with
        | none => rfl
        | some hi =>
          cases hi with
          | nameaddr | via | cseq => rfl
          | generic =>
            cases hVias with
            | none => rfl
            | some hv =>
              cases hv with
              | nameaddr | cseq | generic => rfl
              | via hValue hParts hParts' =>
                cases hFrom with
                | none => rfl
                | some hf =>
                  cases hf with
                  | via | cseq | generic => rfl
                  | nameaddr hFromValue hFromParts hFromParts' =>
                    simp only [Option.bind_eq_bind, Option.pure_def]
                    apply read_tid _ _ (hBranches _ _ _ _ hValue hParts hParts')
                      (hTags _ _ _ _ hFromValue hFromParts hFromParts')
                    · exact fun _ _ => ⟨rfl, rfl⟩
                    · exact fun _ _ => ⟨rfl, rfl⟩
  · rfl

end

end Msg

/-! ## What does not change -/

open Params

/-- Padding a name-addr value changes neither whether it is parsed, nor its parameters, nor the value
found for a name, nor the branch and the tag of a transaction. -/
structure NameAddr.Unmoved (b b' : Bytes) : Prop where
  params : ∀ (m : Mem) (v v' : Str) (nap : NameAddr) (hp hp' : Heap), (hp.mem m).read v = b →
    (hp.mem m).read v' = b' → (parse m v).run hp = some (.ok nap, hp') →
    ∃ nap', (parse m v').run hp = some (.ok nap', hp') ∧
      Params.texts (hp.mem m) nap'.params = Params.texts (hp.mem m) nap.params ∧
      ∀ name, (nap'.getParam (hp.mem m) name).map (hp.mem m).read =
        (nap.getParam (hp.mem m) name).map (hp.mem m).read
  tid : ∀ (stack : Str) (m m' : Mem) (msg msg' : Msg), m'.read stack = m.read stack →
    List.Forall₂ (Msg.HdrReplaced (fun x y => y = x ∨ x = b ∧ y = b') Via.Padded stack m m')
      msg.hdrs msg'.hdrs → Msg.tidTexts m' msg' = Msg.tidTexts m msg

/-- Padding a Via value changes neither whether it is parsed, nor its parameters, nor the branch and
the tag of a transaction. -/
structure Via.Unmoved (b b' : Bytes) : Prop where
  params : ∀ (stack : Str) (m : Mem) (v v' : Str) (vp : Via) (hp hp' : Heap), (hp.mem m).read v = b →
    (hp.mem m).read v' = b' → (parse stack m v).run hp = some (.ok vp, hp') →
    ∃ vp', (parse stack m v').run hp = some (.ok vp', hp') ∧
      Params.texts (hp.mem m) vp'.params = Params.texts (hp.mem m) vp.params
  tid : ∀ (stack : Str) (m m' : Mem) (msg msg' : Msg), m'.read stack = m.read stack →
    List.Forall₂ (Msg.HdrReplaced (fun x y => y = x) (fun x y => y = x ∨ x = b ∧ y = b') stack m m')
      msg.hdrs msg'.hdrs → Msg.tidTexts m' msg' = Msg.tidTexts m msg

theorem NameAddr.unmoved_iff {b b' : Bytes} (h : Padded b b') : Unmoved b b' ↔ ¬ Moved b b' := by
  constructor
  · intro hUnmoved hMoved
    obtain ⟨t, hText, hDiffers⟩ := hMoved.text
    obtain ⟨nap, hp', hRun, hIs⟩ := parsesTo_iff.mpr hText (fun _ => .zero) _
      (room_fresh sized t.params.length)
    obtain ⟨nap', hRun', hParams, -⟩ := hUnmoved.params _ _ (Str.lit b') _ _ _ (Mem.read_lit _ b)
      (Mem.read_lit _ b') hRun
    obtain ⟨hMem, hParts'⟩ := parse_ok hRun'
    have hText' := congrArg (Option.map (texts (hp'.mem fun _ => .zero))) hParts'
    rw [← hMem, read_parseParts, Mem.read_lit, Option.map_some] at hText'
    rw [← hMem] at hParams
    exact hDiffers _ hText' (hParams.trans (congrArg NameAddrText.params hIs))
  · intro hMoved
    constructor
    · intro m v v' nap hp hp' hRead hRead' hRun
      have hText := read_parseParts (hp.mem m) v
      rw [(parse_ok hRun).2, hRead] at hText
      obtain ⟨t', hText', hParams⟩ := h.text hMoved hText.symm
      rw [← hRead', ← read_parseParts] at hText'
      obtain ⟨nap', hParts', rfl⟩ := Option.map_eq_some_iff.mp hText'
      refine ⟨nap', ?_, hParams, fun name => ?_⟩
      · have hLength := congrArg List.length hParams
        rw [texts, texts, Params.texts, Params.texts, List.length_map, List.length_map] at hLength
        exact @paramsParser_length sizeof _ parseParts NameAddr.params parseParts m v v' nap nap' hp hp'
          hRun hParts' hLength.symm
      · rw [read_getParam, read_getParam]
        exact congrArg (lookup name) hParams
    · intro stack m m' msg msg' hStack hHdrs
      apply Msg.tidTexts_replaced _ _ hStack hHdrs
      · rintro x y (rfl | ⟨rfl, rfl⟩) t t' hText hText'
        · rw [hText] at hText'
          rw [Option.some.inj hText']
        · obtain ⟨u, hIs, hParams⟩ := h.text hMoved hText
          rw [hText'] at hIs
          rw [Option.some.inj hIs, hParams]
      · exact fun x y hxy stack t t' hText hText' => hxy.same hText hText'

theorem Via.unmoved {b b' : Bytes} (h : Padded b b') : Unmoved b b' := by
  constructor
  · intro stack m v v' vp hp hp' hRead hRead' hRun
    have hText := read_parseParts stack (hp.mem m) v
    rw [(parse_ok hRun).2, hRead] at hText
    obtain ⟨t', hText', hParams⟩ := h.text hText.symm
    rw [← hRead', ← read_parseParts] at hText'
    obtain ⟨vp', hParts', rfl⟩ := Option.map_eq_some_iff.mp hText'
    refine ⟨vp', ?_, hParams⟩
    have hLength := congrArg List.length hParams
    rw [texts, texts, Params.texts, Params.texts, List.length_map, List.length_map] at hLength
    exact @paramsParser_length sizeof _ (parseParts stack) Via.params (parseParts stack) m v v' vp vp' hp hp'
      hRun hParts' hLength.symm
  · intro stack m m' msg msg' hStack hHdrs
    apply Msg.tidTexts_replaced _ _ hStack hHdrs
    · rintro x y rfl t t' hText hText'
      rw [hText] at hText'
      rw [Option.some.inj hText']
    · rintro x y (rfl | ⟨rfl, rfl⟩) stack t t' hText hText'
      · rw [hText] at hText'
        rw [Option.some.inj hText']
      · exact h.same hText hText'

/-- Padding changes nothing but where it is put between the `;` after a bracket and the name of the
parameter there. -/
theorem padding_iff (b b' : Bytes) :
    (NameAddr.Padded b b' → (NameAddr.Unmoved b b' ↔ ¬ NameAddr.Moved b b')) ∧
      (Via.Padded b b' → Via.Unmoved b b') :=
  ⟨NameAddr.unmoved_iff, Via.unmoved⟩

theorem pad_space : Pad (bytes " ") := by
  intro c hc
  obtain rfl := List.mem_singleton.mp hc
  rfl

theorem tag_pads {w w' : Bytes} (hw : Pad w) (hw' : Pad w') :
    ListPads (bytes "tag=1") (bytes "tag" ++ w ++ ch '=' :: (w' ++ bytes "1")) := by
  have hText : bytes "tag=1" = bytes "tag" ++ ch '=' :: bytes "1" := by decide +kernel
  rw [hText]
  exact .last (by decide +kernel) (.around (by decide +kernel) hw hw')

/-- A From with padding around the `=` of its tag, and a Via with padding after its `;`. -/
theorem padding_iff_tagged :
    NameAddr.Unmoved (bytes "<sip:a@b>;tag=1") (bytes "<sip:a@b> ;tag = 1") ∧
      Via.Unmoved (bytes "SIP/2.0/UDP h;branch=z") (bytes "SIP/2.0/UDP h; branch=z") := by
  have hNone : Pad [] := List.forall_mem_nil _
  have hBlank := pad_space
  constructor
  · have hPadded : NameAddr.Padded (bytes "<sip:a@b>;tag=1") (bytes "<sip:a@b> ;tag = 1") :=
      @NameAddr.Padded.closed [] (bytes "sip:a@b") [] (bytes " ") [] _ _ (by decide +kernel)
        (by decide +kernel) (List.forall_mem_nil _) hBlank hNone (tag_pads hBlank hBlank)
    refine ((padding_iff _ _).1 hPadded).mpr fun hMoved => ?_
    obtain ⟨t, hText, hDiffers⟩ := hMoved.text
    have hRead : NameAddr.parseText (bytes "<sip:a@b>;tag=1") =
        NameAddr.parseText (bytes "<sip:a@b> ;tag = 1") := by decide +kernel
    exact hDiffers t (hRead ▸ hText) rfl
  · have hList : ListPads (bytes "branch=z") (bytes "branch=z") := by
      have hText : bytes "branch=z" = bytes "branch" ++ ch '=' :: bytes "z" := by decide +kernel
      rw [hText]
      exact .last (by decide +kernel) (.around (by decide +kernel) hNone hNone)
    exact (padding_iff _ _).2 (@Via.Padded.listed (bytes "SIP") (bytes "2.0") [] (bytes "UDP") (bytes "h") []
      (bytes " ") _ _ (ch ' ') (by decide +kernel) (by decide +kernel) (List.forall_mem_nil _)
      (by decide +kernel) (by decide +kernel) (by decide) (by decide +kernel) hNone hBlank hList)

/-- A blank before the first parameter hides the tag. -/
theorem padding_hides_tag : ¬ ∀ b b', (NameAddr.Padded b b' → NameAddr.Unmoved b b') ∧
    (Via.Padded b b' → Via.Unmoved b b') := by
  intro hAll
  have hNone : Pad [] := List.forall_mem_nil _
  have hBlank := pad_space
  have hList := tag_pads hNone hNone
  have hPadded : NameAddr.Padded (bytes "<sip:a@b>;tag=1") (bytes "<sip:a@b>; tag=1") :=
    @NameAddr.Padded.closed [] (bytes "sip:a@b") [] [] (bytes " ") _ _ (by decide +kernel)
      (by decide +kernel) (List.forall_mem_nil _) hNone hBlank hList
  have hName : ¬ NoName (bytes "tag" ++ ch '=' :: bytes "1") := by
    rw [noName_iff (by decide +kernel) (by decide +kernel) (Or.inr rfl)]
    decide +kernel
  have hMoved : NameAddr.Moved (bytes "<sip:a@b>;tag=1") (bytes "<sip:a@b>; tag=1") :=
    @NameAddr.Moved.mk [] (bytes "sip:a@b") [] [] (bytes " ") _ _ (by decide +kernel) (by decide +kernel)
      (List.forall_mem_nil _) hNone hBlank hList (by decide +kernel) (by decide +kernel) hName
  exact (NameAddr.unmoved_iff hPadded).mp ((hAll _ _).1 hPadded) hMoved

end Microsippy
