import Microsippy.AuthText
import Microsippy.LocalUri
import Microsippy.Lib.Trim

/-! # Credentials as text

The fields of a header as `usipy_sip_hdr_authz_append_value` prints them, and when the parser reads
each of them back.
-/

namespace Microsippy

set_option autoImplicit false

/-- A printed field. -/
structure AuthField where
  name : Bytes
  value : Bytes
  quote : Bool

/-- A name the parser takes as it is. -/
structure NameOk (n : Bytes) : Prop where
  begins : ∃ c t, n = c :: t ∧ Auth.isDelim c = false ∧ Str.isLws c = false
  ends : n.rdropWhile Str.isWs = n
  noEq : ch '=' ∉ n

/-- A value that needs no quotes. -/
structure BareValue (v : Bytes) : Prop where
  begins : ∃ c t, v = c :: t ∧ Str.isWs c = false ∧ c ≠ ch '"'
  ends : v.rdropWhile Str.isLws = v
  noComma : ch ',' ∉ v

/-- A value that is read as it is when it has no quotes, `last` where no comma follows. -/
structure BareIn (last : Bool) (v : Bytes) : Prop where
  begins : ∃ c t, v = c :: t ∧ Str.isWs c = false ∧ c ≠ ch '"'
  ends : v.rdropWhile (if last then Str.isWs else Str.isLws) = v
  noComma : ch ',' ∉ v

namespace AuthField

def pair (f : AuthField) : Bytes × Bytes := (f.name, f.value)

/-- What follows the `=`. -/
def valueOut (f : AuthField) : Bytes :=
  if f.quote then ch '"' :: (cstr f.value ++ [ch '"']) else cstr f.value

/-- The fields, each after a comma. -/
def joined (fs : List AuthField) : Bytes := fs.flatMap fun f => ch ',' :: (f.name ++ ch '=' :: f.valueOut)

/-- A value the parser reads back. -/
structure Ok (f : AuthField) : Prop where
  noNul : 0 ∉ f.value
  quoted : f.quote = true → ch '"' ∉ f.value
  bare : f.quote = false → BareValue f.value

@[simp] theorem joined_nil : joined [] = [] := rfl

theorem joined_cons (f : AuthField) (fs : List AuthField) :
    joined (f :: fs) = ch ',' :: (f.name ++ ch '=' :: (f.valueOut ++ joined fs)) := by
  simp [joined]

end AuthField

namespace Auth

open AuthField

variable {f : AuthField} {fs : List AuthField}

theorem pairTexts_dropDelims (fuel : Nat) (b : Bytes) :
    pairTexts fuel (b.dropWhile isDelim) = pairTexts fuel b := by
  cases fuel with
  | zero => rfl
  | succ fuel => rw [pairTexts, pairTexts, List.dropWhile_idempotent]

theorem dropDelims_comma (b : Bytes) : (ch ',' :: b).dropWhile isDelim = b.dropWhile isDelim :=
  List.dropWhile_cons_of_pos (by decide)

theorem dropDelims_joined (hName : NameOk f.name) :
    (joined (f :: fs)).dropWhile isDelim = f.name ++ ch '=' :: (f.valueOut ++ joined fs) := by
  obtain ⟨c, t, hName, hDelim, -⟩ := hName.begins
  rw [joined_cons, dropDelims_comma, hName, List.cons_append,
    List.dropWhile_cons_of_neg (by simp [hDelim])]

/-- The first of the parameters by its name and value. -/
theorem pairTexts_cut {fuel : Nat} {b w x : Bytes} (hDrop : b.dropWhile isDelim = w ++ ch '=' :: x)
    (hFirst : ch '=' ∉ w) : pairTexts (fuel + 1) b =
      if w.rdropWhile Str.isWs = [] then none
      else (valueText x).bind fun y => (pairTexts fuel y.2).map ((w.rdropWhile Str.isWs, y.1) :: ·) := by
  have hCut := cut_append (b := x) hFirst
  rw [pairTexts, hDrop]
  cases hText : w ++ ch '=' :: x with
  | nil => simp at hText
  | cons c t =>
    rw [hText] at hCut
    simp only [hCut, Option.bind_eq_bind, Option.bind_some]
    split
    · rfl
    · cases valueText x with
      | none => rfl
      | some y =>
        simp only [Option.bind_some]
        cases pairTexts fuel y.2 <;> rfl

/-- The first of the fields is taken by its name. -/
theorem pairTexts_joined (hName : NameOk f.name) (fuel : Nat) :
    pairTexts (fuel + 1) (joined (f :: fs)) =
      (valueText (f.valueOut ++ joined fs)).bind fun (v, r) =>
        (pairTexts fuel r).map ((f.name, v) :: ·) := by
  have hNamed : f.name ≠ [] := by
    obtain ⟨c, t, hCons, -, -⟩ := hName.begins
    rw [hCons]
    exact List.cons_ne_nil c t
  rw [pairTexts_cut (dropDelims_joined hName) hName.noEq, hName.ends, if_neg hNamed]

theorem rdropWs_of_rdropLws {v : Bytes} (h : v.rdropWhile Str.isLws = v) :
    v.rdropWhile Str.isWs = v := by
  rw [List.rdropWhile_eq_self_iff] at h ⊢
  intro hSome
  have hNot := Str.isWs_of_isLws (Bool.eq_false_iff.mpr (h hSome))
  exact Bool.eq_false_iff.mp hNot

/-! ## Values -/

/-- What is cut at a NUL goes on with it. -/
theorem noNul_of_append {v x y : Bytes} {c : UInt8} (hNot : c ≠ 0)
    (h : cstr v ++ c :: x = v ++ y) : 0 ∉ v := by
  induction v with
  | nil => exact List.not_mem_nil
  | cons b v ih =>
    cases Decidable.em (b = 0) with
    | inl hNul =>
      subst hNul
      exact absurd (List.cons.inj h).1 hNot
    | inr hPlain =>
      rw [cstr, List.takeWhile_cons_of_pos (by simpa using hPlain), List.cons_append,
        List.cons_append] at h
      rw [List.mem_cons, not_or]
      exact ⟨fun hIs => hPlain hIs.symm, ih (List.cons.inj h).2⟩

theorem cstr_le (v : Bytes) : (cstr v).length ≤ v.length := (List.takeWhile_sublist _).length_le

/-- A value that is all read back was all printed. -/
theorem noNul_of_le {v : Bytes} (h : v.length ≤ (cstr v).length) : 0 ∉ v := by
  have hAll : cstr v = v := (List.takeWhile_prefix _).eq_of_length_le h
  rw [← hAll]
  intro hMem
  have hIs := List.mem_takeWhile_imp hMem
  simp at hIs

theorem rdropWhile_le (p : UInt8 → Bool) (v : Bytes) : (v.rdropWhile p).length ≤ v.length :=
  (List.rdropWhile_prefix p v).length_le

/-- What follows a value, if anything does. -/
def Follows (x : Bytes) : Prop := x = [] ∨ ∃ y, x = ch ',' :: y

theorem follows_joined (fs : List AuthField) : Follows (joined fs) := by
  cases fs with
  | nil => exact Or.inl rfl
  | cons f fs => exact Or.inr ⟨_, joined_cons f fs⟩

theorem valueText_quoted {v : Bytes} (h : ch '"' ∉ v) (x : Bytes) :
    valueText (ch '"' :: (v ++ ch '"' :: x)) = some (v, x.dropWhile isDelim) := by
  rw [valueText, List.dropWhile_cons_of_neg (by decide)]
  dsimp only
  rw [if_pos rfl, cut_append h, Option.map_some]

/-- A value in quotes that is read back has none. -/
theorem plain_of_quoted {v x r : Bytes}
    (h : valueText (ch '"' :: (cstr v ++ ch '"' :: x)) = some (v, r)) : 0 ∉ v ∧ ch '"' ∉ v := by
  rw [valueText, List.dropWhile_cons_of_neg (by decide)] at h
  dsimp only at h
  rw [if_pos rfl] at h
  obtain ⟨⟨a, s⟩, hCut, hPair⟩ := Option.map_eq_some_iff.mp h
  simp only [Prod.mk.injEq] at hPair
  obtain ⟨rfl, -⟩ := hPair
  obtain ⟨hNone, -⟩ | ⟨b, u, hAppend, hFirst, hCutSome⟩ := cut_cases (ch '"') (cstr a ++ ch '"' :: x)
  · exact absurd (by simp) hNone
  · rw [hCutSome] at hCut
    obtain ⟨rfl, -⟩ := Prod.mk.inj (Option.some.inj hCut)
    exact ⟨noNul_of_append (by decide) hAppend, hFirst⟩

theorem bareIn_of_bareValue {v : Bytes} (h : BareValue v) (last : Bool) : BareIn last v where
  begins := h.begins
  ends := by
    cases last with
    | false => exact h.ends
    | true => exact rdropWs_of_rdropLws h.ends
  noComma := h.noComma

/-- A value without quotes is read back before what follows it. -/
theorem valueText_bare {v x : Bytes} (hx : Follows x) (h : BareIn x.isEmpty v) :
    valueText (v ++ x) = some (v, (x.tail.dropWhile Str.isLws).dropWhile isDelim) := by
  obtain ⟨c, t, rfl, hWs, hNot⟩ := h.begins
  have hEnds := h.ends
  rw [valueText, List.cons_append, List.dropWhile_cons_of_neg (by simp [hWs])]
  dsimp only
  rw [if_neg hNot]
  obtain rfl | ⟨y, rfl⟩ := hx
  · rw [List.append_nil, cut_none h.noComma]
    simpa using hEnds
  · have hCut := cut_append (b := y) h.noComma
    rw [List.cons_append] at hCut
    have hLws : (c :: t).rdropWhile Str.isLws = c :: t := hEnds
    simp [hCut, hLws, rdropWs_of_rdropLws hLws]

/-- A value without quotes that is read back needs none. -/
theorem bareIn_of_valueText {v x r : Bytes} (hx : Follows x) (hSome : v ≠ [])
    (h : valueText (cstr v ++ x) = some (v, r)) : 0 ∉ v ∧ BareIn x.isEmpty v := by
  have hStop : x.dropWhile Str.isWs = x := by
    obtain rfl | ⟨y, rfl⟩ := hx
    · rfl
    · exact List.dropWhile_cons_of_neg (by decide)
  have hText : (cstr v ++ x).dropWhile Str.isWs = (cstr v).dropWhile Str.isWs ++ x := by
    rw [List.dropWhile_append]
    split
    · rename_i hEmpty
      rw [List.isEmpty_iff.mp hEmpty, hStop]
      rfl
    · rfl
  have hShort : ((cstr v).dropWhile Str.isWs).length ≤ (cstr v).length :=
    (List.dropWhile_sublist _).length_le
  have hSuffix : (cstr v).dropWhile Str.isWs <:+ cstr v := List.dropWhile_suffix _
  have hStr := cstr_le v
  rw [valueText, hText] at h
  cases hFront : (cstr v).dropWhile Str.isWs with
  | nil =>
    exfalso
    rw [hFront, List.nil_append] at h
    obtain rfl | ⟨y, rfl⟩ := hx
    · contradiction
    · have hCut := @cut_append (ch ',') [] y List.not_mem_nil
      rw [List.nil_append] at hCut
      simp only [hCut, Option.map_some, Option.getD_some] at h
      rw [if_neg (by decide)] at h
      simp only [List.rdropWhile_nil, Option.some.injEq, Prod.mk.injEq] at h
      exact hSome h.1.symm
  | cons c t =>
    rw [hFront, List.cons_append] at h
    simp only at h
    split at h
    · rename_i hQuote
      exfalso
      obtain ⟨⟨a, s⟩, hCut, hPair⟩ := Option.map_eq_some_iff.mp h
      simp only [Prod.mk.injEq] at hPair
      obtain ⟨rfl, -⟩ := hPair
      have hIn : ch '"' ∈ a := by
        have hMem : ch '"' ∈ cstr a := hSuffix.subset (by rw [hFront, hQuote]; exact List.mem_cons_self)
        exact (List.takeWhile_sublist _).subset hMem
      obtain ⟨-, hNone⟩ | ⟨b, u, -, hFirst, hCutSome⟩ := cut_cases (ch '"') (t ++ x)
      · rw [hNone] at hCut
        contradiction
      · rw [hCutSome] at hCut
        obtain ⟨rfl, -⟩ := Prod.mk.inj (Option.some.inj hCut)
        exact hFirst hIn
    · rename_i hNot
      rw [hFront] at hShort hSuffix
      -- nothing of the value is lost, so nothing is cut off or trimmed either
      have hWhole : ∀ b : Bytes, b <+: c :: t → v.length ≤ b.length → 0 ∉ v ∧ b = v ∧ c :: t = v := by
        intro b hPrefix hLe
        have hLength := hPrefix.length_le
        have hAll : c :: t = cstr v := hSuffix.eq_of_length_le (by omega)
        have hPlain : 0 ∉ v := noNul_of_le (by omega)
        rw [cstr_of_plain hPlain] at hAll
        exact ⟨hPlain, (hPrefix.eq_of_length_le (by rw [hAll]; omega)).trans hAll, hAll⟩
      have hBegins : c :: t = v → ∃ d u, v = d :: u ∧ Str.isWs d = false ∧ d ≠ ch '"' := by
        intro hAll
        have hHead := List.head?_dropWhile_not Str.isWs (cstr v)
        rw [hFront] at hHead
        exact ⟨c, t, hAll.symm, hHead, hNot⟩
      obtain ⟨hNotIn, hNone⟩ | ⟨b, u, hAppend, hFirst, hCutSome⟩ := cut_cases (ch ',') (c :: (t ++ x))
      · obtain rfl | ⟨y, rfl⟩ := hx
        · rw [List.append_nil] at hNone h hNotIn
          simp only [hNone, Option.map_none, Option.getD_none, Option.some.injEq, Prod.mk.injEq] at h
          have hWs := rdropWhile_le Str.isWs (c :: t)
          obtain ⟨hPlain, -, hAll⟩ := hWhole (c :: t) (List.prefix_refl _) (by rw [← h.1]; exact hWs)
          rw [hAll] at h hNotIn
          exact ⟨hPlain, hBegins hAll, h.1, hNotIn⟩
        · exact absurd (by simp) hNotIn
      · simp only [hCutSome, Option.map_some, Option.getD_some, Option.some.injEq, Prod.mk.injEq] at h
        have hRead := h.1
        have hLws := rdropWhile_le Str.isLws b
        have hWs := rdropWhile_le Str.isWs (b.rdropWhile Str.isLws)
        rw [hRead] at hWs
        rw [← List.cons_append] at hAppend
        obtain rfl | ⟨y, rfl⟩ := hx
        · rw [List.append_nil] at hAppend
          obtain ⟨-, rfl, hAll⟩ := hWhole b ⟨_, hAppend.symm⟩ (by omega)
          rw [hAll] at hAppend
          exact absurd hAppend (by simp)
        · have hPrefix : b <+: c :: t := by
            obtain ⟨w, hLong, hRest⟩ | ⟨w, hFits, -⟩ := List.append_eq_append_iff.mp hAppend
            · cases w with
              | nil =>
                rw [List.append_nil] at hLong
                exact hLong ▸ List.prefix_refl _
              | cons d w =>
                rw [List.cons_append] at hRest
                rw [hLong, ← (List.cons.inj hRest).1] at hFirst
                exact absurd (by simp) hFirst
            · exact ⟨w, hFits.symm⟩
          obtain ⟨hPlain, rfl, hAll⟩ := hWhole b hPrefix (by omega)
          have hEnds : b.rdropWhile Str.isLws = b :=
            (List.rdropWhile_prefix _ b).eq_of_length_le (by omega)
          exact ⟨hPlain, hBegins hAll, hEnds, hFirst⟩

/-- A field that is well printed is read back. -/
theorem valueText_ok (hOk : f.Ok) (hNames : ∀ g ∈ fs, NameOk g.name) :
    valueText (f.valueOut ++ joined fs) = some (f.value, (joined fs).dropWhile isDelim) := by
  have hPlain := cstr_of_plain hOk.noNul
  rw [valueOut, hPlain]
  cases hQuote : f.quote with
  | true =>
    rw [if_pos rfl, List.cons_append, List.append_assoc]
    exact valueText_quoted (hOk.quoted hQuote) _
  | false =>
    have hBare := valueText_bare (follows_joined fs) (bareIn_of_bareValue (hOk.bare hQuote) _)
    rw [if_neg Bool.false_ne_true, hBare]
    cases fs with
    | nil => rfl
    | cons g gs =>
      obtain ⟨d, u, hName, -, hLws⟩ := (hNames g List.mem_cons_self).begins
      rw [joined_cons, List.tail_cons, hName, List.cons_append,
        List.dropWhile_cons_of_neg (by simp [hLws]), dropDelims_comma]

/-- Fields that are well printed are all read back, and nothing else. -/
theorem pairTexts_ok {fuel : Nat} (hNames : ∀ f ∈ fs, NameOk f.name) (hOk : ∀ f ∈ fs, f.Ok)
    (hFuel : fs.length < fuel) : pairTexts fuel (joined fs) = some (fs.map pair) := by
  induction fs generalizing fuel with
  | nil =>
    cases fuel with
    | zero => rfl
    | succ fuel => rfl
  | cons f fs ih =>
    rw [List.forall_mem_cons] at hNames hOk
    cases fuel with
    | zero => exact absurd hFuel (Nat.not_lt_zero _)
    | succ fuel =>
      rw [pairTexts_joined hNames.1, valueText_ok hOk.1 hNames.2, Option.bind_some]
      simp only [pairTexts_dropDelims]
      rw [ih hNames.2 hOk.2 (by simpa using hFuel)]
      rfl

/-! ## What a parse takes -/

/-- The equal signs of a text. -/
def eqs (b : Bytes) : Nat := b.count (ch '=')

/-- The equal signs parameters take up. -/
def eqsOf (ps : List (Bytes × Bytes)) : Nat := (ps.map fun p => 1 + eqs p.2).sum

@[simp] theorem eqs_nil : eqs [] = 0 := rfl

@[simp] theorem eqs_append (a b : Bytes) : eqs (a ++ b) = eqs a + eqs b := List.count_append

@[simp] theorem eqsOf_nil : eqsOf [] = 0 := rfl

@[simp] theorem eqsOf_cons (p : Bytes × Bytes) (ps : List (Bytes × Bytes)) :
    eqsOf (p :: ps) = 1 + eqs p.2 + eqsOf ps := by
  simp [eqsOf]

theorem eqs_cons_ne {c : UInt8} (h : c ≠ ch '=') (b : Bytes) : eqs (c :: b) = eqs b :=
  List.count_cons_of_ne h

theorem eqs_cons_eq (b : Bytes) : eqs (ch '=' :: b) = 1 + eqs b := by
  rw [eqs, List.count_cons_self, Nat.add_comm]
  rfl

theorem eqs_dropWhile {p : UInt8 → Bool} (h : p (ch '=') = false) (b : Bytes) :
    eqs (b.dropWhile p) = eqs b := Trim.count_dropWhile h b

theorem eqs_rdropWhile {p : UInt8 → Bool} (h : p (ch '=') = false) (b : Bytes) :
    eqs (b.rdropWhile p) = eqs b := Trim.count_rdropWhile h b

theorem eqs_cut {dlm : UInt8} {b v r : Bytes} (hNe : dlm ≠ ch '=') (h : cut dlm b = some (v, r)) :
    eqs v + eqs r = eqs b ∧ r.length < b.length := by
  obtain ⟨-, hNone⟩ | ⟨a, s, rfl, -, hSome⟩ := cut_cases dlm b
  · rw [hNone] at h
    contradiction
  · rw [hSome] at h
    obtain ⟨rfl, rfl⟩ := Prod.mk.inj (Option.some.inj h)
    constructor
    · rw [eqs_append, eqs_cons_ne hNe]
    · rw [List.length_append, List.length_cons]
      omega

/-- A value and what follows it have the equal signs of the text. -/
theorem eqs_valueText {b v r : Bytes} (h : valueText b = some (v, r)) :
    eqs v + eqs r = eqs b ∧ r.length ≤ b.length := by
  have hText := eqs_dropWhile (p := Str.isWs) (by decide) b
  have hShort : (b.dropWhile Str.isWs).length ≤ b.length := (List.dropWhile_sublist _).length_le
  rw [valueText] at h
  cases hRest : b.dropWhile Str.isWs with
  | nil =>
    rw [hRest] at h
    contradiction
  | cons c t =>
    rw [hRest] at h hText hShort
    simp only at h
    split at h
    · rename_i hQuote
      obtain ⟨⟨v', r'⟩, hCut, hPair⟩ := Option.map_eq_some_iff.mp h
      simp only [Prod.mk.injEq] at hPair
      obtain ⟨rfl, rfl⟩ := hPair
      obtain ⟨hEqs, hLess⟩ := eqs_cut (by decide) hCut
      have hDelims : (r'.dropWhile isDelim).length ≤ r'.length := (List.dropWhile_sublist _).length_le
      rw [hQuote, eqs_cons_ne (by decide)] at hText
      rw [List.length_cons] at hShort
      rw [eqs_dropWhile (by decide), hEqs, hText]
      exact ⟨rfl, by omega⟩
    · obtain ⟨-, hNone⟩ | ⟨a, s, hAppend, -, hSome⟩ := cut_cases (ch ',') (c :: t)
      · simp only [hNone, Option.map_none, Option.getD_none, Option.some.injEq, Prod.mk.injEq] at h
        obtain ⟨rfl, rfl⟩ := h
        rw [eqs_rdropWhile (by decide), hText]
        exact ⟨rfl, Nat.zero_le _⟩
      · simp only [hSome, Option.map_some, Option.getD_some, Option.some.injEq, Prod.mk.injEq] at h
        obtain ⟨rfl, rfl⟩ := h
        obtain ⟨hEqs, hLess⟩ := eqs_cut (by decide) hSome
        have hLws : (s.dropWhile Str.isLws).length ≤ s.length := (List.dropWhile_sublist _).length_le
        have hDelims : ((s.dropWhile Str.isLws).dropWhile isDelim).length ≤
          (s.dropWhile Str.isLws).length := (List.dropWhile_sublist _).length_le
        rw [eqs_rdropWhile (by decide), eqs_rdropWhile (by decide), eqs_dropWhile (by decide),
          eqs_dropWhile (by decide), hEqs, hText]
        exact ⟨rfl, by omega⟩

/-- The parameters take up all equal signs of the text. -/
theorem eqsOf_pairTexts {fuel : Nat} {b : Bytes} {ps : List (Bytes × Bytes)}
    (h : pairTexts fuel b = some ps) (hFuel : b.length ≤ fuel) : eqsOf ps = eqs b := by
  induction fuel generalizing b ps with
  | zero =>
    obtain rfl := List.eq_nil_of_length_eq_zero (Nat.le_zero.mp hFuel)
    obtain rfl := Option.some.inj h
    rfl
  | succ fuel ih =>
    have hText := eqs_dropWhile (p := isDelim) (by decide) b
    have hShort : (b.dropWhile isDelim).length ≤ b.length := (List.dropWhile_sublist _).length_le
    rw [pairTexts] at h
    cases hRest : b.dropWhile isDelim with
    | nil =>
      rw [hRest] at h hText
      obtain rfl := Option.some.inj h
      rw [← hText]
      rfl
    | cons c t =>
      rw [hRest] at h hText hShort
      obtain ⟨⟨name, y⟩, hCut, h⟩ := Option.bind_eq_some_iff.mp h
      obtain ⟨⟨v, r⟩, hValue, h⟩ := Option.bind_eq_some_iff.mp h
      obtain ⟨more, hMore, h⟩ := Option.bind_eq_some_iff.mp h
      obtain rfl := Option.some.inj h
      split at hValue
      · contradiction
      · obtain ⟨hEqs, hLess⟩ := eqs_valueText hValue
        obtain ⟨-, hNone⟩ | ⟨a, s, hAppend, hFirst, hSome⟩ := cut_cases (ch '=') (c :: t)
        · rw [hNone] at hCut
          contradiction
        · rw [hSome] at hCut
          obtain ⟨rfl, rfl⟩ := Prod.mk.inj (Option.some.inj hCut)
          have hLength : s.length < (c :: t).length := by
            rw [hAppend, List.length_append, List.length_cons]
            omega
          have hBefore : eqs a = 0 := List.count_eq_zero.mpr hFirst
          rw [eqsOf_cons, ih hMore (by omega), ← hText, hAppend, eqs_append, eqs_cons_eq, hBefore]
          simp only
          omega

theorem eqs_cstr (v : Bytes) : eqs (cstr v) ≤ eqs v := (List.takeWhile_sublist _).count_le _

theorem eqs_valueOut (f : AuthField) : eqs f.valueOut = eqs (cstr f.value) := by
  rw [valueOut]
  split
  · rw [eqs_cons_ne (by decide), eqs_append, eqs_cons_ne (by decide)]
    rfl
  · rfl

theorem eqs_joined (hNames : ∀ f ∈ fs, NameOk f.name) : eqs (joined fs) ≤ eqsOf (fs.map pair) := by
  induction fs with
  | nil => exact Nat.le_refl _
  | cons f fs ih =>
    rw [List.forall_mem_cons] at hNames
    have hLe := eqs_cstr f.value
    have hName : eqs f.name = 0 := List.count_eq_zero.mpr hNames.1.noEq
    have hRest := ih hNames.2
    rw [joined_cons, eqs_cons_ne (by decide), eqs_append, eqs_cons_eq, eqs_append, hName, eqs_valueOut,
      List.map_cons, eqsOf_cons]
    simp only [pair]
    omega

end Auth

/-! ## What is kept of a parse -/

namespace AuthText

open Auth (eqs eqsOf eqsOf_cons)

/-- The members with a place of their own. -/
def known : List Bytes := [bytes "realm", bytes "nonce", bytes "qop", bytes "algorithm", bytes "opaque"]

def member (a : AuthText) (n : Bytes) : Bytes :=
  if n = bytes "realm" then a.realm
  else if n = bytes "nonce" then a.nonce
  else if n = bytes "qop" then a.qop
  else if n = bytes "algorithm" then a.algorithm
  else if n = bytes "opaque" then a.opaque_
  else []

/-- The equal signs a member takes up, none when it is missing. -/
def eqsIn (v : Bytes) : Nat := if v = [] then 0 else 1 + eqs v

/-- The equal signs of what is kept. -/
def kept (a : AuthText) : Nat :=
  eqsIn a.realm + eqsIn a.nonce + eqsIn a.qop + eqsIn a.algorithm + eqsIn a.opaque_ + eqsOf a.params

theorem eqsIn_le (v : Bytes) : eqsIn v ≤ 1 + eqs v := by
  rw [eqsIn]
  split <;> omega

theorem eqsIn_eq {v : Bytes} (h : eqsIn v = 1 + eqs v) : v ≠ [] := by
  rintro rfl
  simp [eqsIn] at h

theorem eqsIn_pos {v : Bytes} (h : v ≠ []) : 0 < eqsIn v := by
  rw [eqsIn, if_neg h]
  omega

/-- What one parameter changes. -/
structure SetsMember (a : AuthText) (p : Bytes × Bytes) (a' : AuthText) : Prop where
  member : a'.member p.1 = p.2
  other : ∀ n, n ≠ p.1 → a'.member n = a.member n
  params : a'.params = a.params
  kept : a'.kept + eqsIn (a.member p.1) = a.kept + eqsIn p.2

structure AddsParam (a : AuthText) (p : Bytes × Bytes) (a' : AuthText) : Prop where
  member : ∀ n, a'.member n = a.member n
  params : a'.params = a.params ++ [p]
  kept : a'.kept = a.kept + (1 + eqs p.2)

theorem assign_known {a : AuthText} {p : Bytes × Bytes} (h : p.1 ∈ known) :
    a.SetsMember p (a.assign p) := by
  obtain ⟨k, v⟩ := p
  simp only [known, List.mem_cons, List.not_mem_nil, or_false] at h
  obtain rfl | rfl | rfl | rfl | rfl := h
  · refine ⟨rfl, fun n hn => ?_, rfl, ?_⟩
    · show member { a with realm := v } n = _
      simp only [member, if_neg hn]
    · show kept { a with realm := v } + eqsIn a.realm = _
      simp only [kept]
      omega
  · refine ⟨rfl, fun n hn => ?_, rfl, ?_⟩
    · show member { a with nonce := v } n = _
      simp only [member, if_neg hn]
    · show kept { a with nonce := v } + eqsIn a.nonce = _
      simp only [kept]
      omega
  · refine ⟨rfl, fun n hn => ?_, rfl, ?_⟩
    · show member { a with qop := v } n = _
      simp only [member, if_neg hn]
    · show kept { a with qop := v } + eqsIn a.qop = _
      simp only [kept]
      omega
  · refine ⟨rfl, fun n hn => ?_, rfl, ?_⟩
    · show member { a with algorithm := v } n = _
      simp only [member, if_neg hn]
    · show kept { a with algorithm := v } + eqsIn a.algorithm = _
      simp only [kept]
      omega
  · refine ⟨rfl, fun n hn => ?_, rfl, ?_⟩
    · show member { a with opaque_ := v } n = _
      simp only [member, if_neg hn]
    · show kept { a with opaque_ := v } + eqsIn a.opaque_ = _
      simp only [kept]
      omega

theorem assign_param {a : AuthText} {p : Bytes × Bytes} (h : p.1 ∉ known) :
    a.AddsParam p (a.assign p) := by
  simp only [known, List.mem_cons, List.not_mem_nil, or_false, not_or] at h
  obtain ⟨h₁, h₂, h₃, h₄, h₅⟩ := h
  rw [assign, if_neg h₁, if_neg h₂, if_neg h₃, if_neg h₄, if_neg h₅]
  refine ⟨fun n => rfl, rfl, ?_⟩
  simp only [kept, eqsOf, List.map_append, List.sum_append, List.map_cons, List.map_nil,
    List.sum_cons, List.sum_nil]
  omega

theorem kept_assign (a : AuthText) (p : Bytes × Bytes) :
    (a.assign p).kept ≤ a.kept + (1 + eqs p.2) := by
  have hLe := eqsIn_le p.2
  cases Decidable.em (p.1 ∈ known) with
  | inl h =>
    have hKept := (assign_known (a := a) h).kept
    omega
  | inr h => exact Nat.le_of_eq (assign_param h).kept

theorem kept_assignAll (a : AuthText) (ps : List (Bytes × Bytes)) :
    (a.assignAll ps).kept ≤ a.kept + eqsOf ps := by
  induction ps generalizing a with
  | nil => exact Nat.le_refl _
  | cons p ps ih =>
    have hHead := kept_assign a p
    have hTail := ih (a.assign p)
    rw [assignAll_cons, eqsOf_cons]
    omega

/-- Nothing of the parameters is lost: no member is empty or set twice. -/
def Full (a : AuthText) (ps : List (Bytes × Bytes)) : Prop :=
  (a.assignAll ps).kept = a.kept + eqsOf ps

theorem Full.cons {a : AuthText} {p : Bytes × Bytes} {ps : List (Bytes × Bytes)}
    (h : a.Full (p :: ps)) :
    (a.assign p).kept = a.kept + (1 + eqs p.2) ∧ (a.assign p).Full ps := by
  have hHead := kept_assign a p
  have hTail := kept_assignAll (a.assign p) ps
  rw [Full, assignAll_cons, eqsOf_cons] at h
  rw [Full]
  omega

/-- A member that is set stays. -/
theorem Full.member {a : AuthText} {ps : List (Bytes × Bytes)} (h : a.Full ps) {n : Bytes}
    (hSet : a.member n ≠ []) : (a.assignAll ps).member n = a.member n := by
  induction ps generalizing a with
  | nil => rfl
  | cons p ps ih =>
    obtain ⟨hHead, hTail⟩ := h.cons
    have hLe := eqsIn_le p.2
    have hSame : (a.assign p).member n = a.member n := by
      cases Decidable.em (p.1 ∈ known) with
      | inl hKnown =>
        have hSets := assign_known (a := a) hKnown
        have hKept := hSets.kept
        refine hSets.other n ?_
        rintro rfl
        have hPos := eqsIn_pos hSet
        omega
      | inr hParam => exact (assign_param hParam).member n
    rw [assignAll_cons, ih hTail (hSame ▸ hSet), hSame]

theorem params_assignAll (a : AuthText) (ps : List (Bytes × Bytes)) :
    ∃ more, (a.assignAll ps).params = a.params ++ more := by
  induction ps generalizing a with
  | nil => exact ⟨[], (List.append_nil _).symm⟩
  | cons p ps ih =>
    obtain ⟨more, hMore⟩ := ih (a.assign p)
    cases Decidable.em (p.1 ∈ known) with
    | inl h => exact ⟨more, by rw [assignAll_cons, hMore, (assign_known h).params]⟩
    | inr h =>
      refine ⟨p :: more, ?_⟩
      rw [assignAll_cons, hMore, (assign_param h).params, List.append_assoc]
      rfl

/-- A member that is set of which nothing is lost was not set before and stays. -/
theorem Full.stays {a : AuthText} {p : Bytes × Bytes} {ps : List (Bytes × Bytes)}
    (h : a.Full (p :: ps)) (hKnown : p.1 ∈ known) :
    a.member p.1 = [] ∧ p.2 ≠ [] ∧ (a.assignAll (p :: ps)).member p.1 = p.2 := by
  obtain ⟨hHead, hTail⟩ := h.cons
  have hSets := assign_known (a := a) hKnown
  have hKept := hSets.kept
  have hLe := eqsIn_le p.2
  have hSome : p.2 ≠ [] := eqsIn_eq (by omega)
  refine ⟨?_, hSome, ?_⟩
  · cases Decidable.em (a.member p.1 = []) with
    | inl hNone => exact hNone
    | inr hSet =>
      have hPos := eqsIn_pos hSet
      omega
  · rw [assignAll_cons, hTail.member (by rwa [hSets.member]), hSets.member]

/-- Two lists that start with a parameter that is no member start with the same when what is kept of
them is. -/
theorem param_head {a : AuthText} {p q : Bytes × Bytes} {ps qs : List (Bytes × Bytes)}
    (hp : p.1 ∉ known) (hq : q.1 ∉ known)
    (hSame : a.assignAll (p :: ps) = a.assignAll (q :: qs)) : p = q := by
  obtain ⟨more, hMore⟩ := params_assignAll (a.assign p) ps
  obtain ⟨more', hMore'⟩ := params_assignAll (a.assign q) qs
  rw [(assign_param hp).params, List.append_assoc] at hMore
  rw [(assign_param hq).params, List.append_assoc] at hMore'
  rw [assignAll_cons, assignAll_cons] at hSame
  rw [hSame, hMore'] at hMore
  exact (List.cons.inj (List.append_cancel_left hMore)).1.symm

/-- Two lists of which nothing is lost start with one value when they start with one name and what
is kept of them is the same. -/
theorem Full.head {a : AuthText} {n v w : Bytes} {ps qs : List (Bytes × Bytes)}
    (hLeft : a.Full ((n, v) :: ps)) (hRight : a.Full ((n, w) :: qs))
    (hSame : a.assignAll ((n, v) :: ps) = a.assignAll ((n, w) :: qs)) : v = w := by
  cases Decidable.em (n ∈ known) with
  | inl h =>
    obtain ⟨-, -, hv⟩ := hLeft.stays h
    obtain ⟨-, -, hw⟩ := hRight.stays h
    exact hv.symm.trans ((congrArg (·.member n) hSame).trans hw)
  | inr h => exact (Prod.mk.inj (param_head h h hSame)).2

end AuthText

namespace Auth

open AuthField

variable {f : AuthField} {fs : List AuthField}

/-- A field that is read back is well printed. The last field stands before no comma. -/
theorem ok_of_valueText {r : Bytes} (hSome : f.quote = false → f.value ≠ [])
    (hLast : fs = [] → f.quote = false → f.Ok)
    (h : valueText (f.valueOut ++ joined fs) = some (f.value, r)) : f.Ok := by
  rw [valueOut] at h
  cases hQuote : f.quote with
  | true =>
    rw [if_pos hQuote, List.cons_append, List.append_assoc] at h
    obtain ⟨hPlain, hNone⟩ := plain_of_quoted h
    exact ⟨hPlain, fun _ => hNone, fun hNot => by simp [hQuote] at hNot⟩
  | false =>
    cases fs with
    | nil => exact hLast rfl hQuote
    | cons g gs =>
      rw [if_neg (by simp [hQuote])] at h
      obtain ⟨hPlain, hBegins, hEnds, hNone⟩ := bareIn_of_valueText (follows_joined _) (hSome hQuote) h
      exact ⟨hPlain, fun hNot => by simp [hQuote] at hNot,
        fun _ => ⟨hBegins, hEnds, hNone⟩⟩

/-- Fields that all come back as they were are well printed. -/
theorem ok_of_pairTexts {fuel : Nat} {ps : List (Bytes × Bytes)} {a : AuthText}
    (hNames : ∀ f ∈ fs, NameOk f.name) (hSome : ∀ f ∈ fs, f.quote = false → f.value ≠ [])
    (hLast : ∀ f, fs.getLast? = some f → f.quote = false → f.Ok)
    (hFuel : (joined fs).length ≤ fuel + 1) (hPairs : pairTexts fuel (joined fs) = some ps)
    (hFull : a.Full (fs.map pair)) (hSame : a.assignAll ps = a.assignAll (fs.map pair)) :
    ∀ f ∈ fs, f.Ok := by
  induction fs generalizing fuel ps a with
  | nil => exact fun f hf => absurd hf List.not_mem_nil
  | cons f fs ih =>
    have hPrinted := eqs_joined hNames
    have hEqs : eqsOf ps = eqs (joined (f :: fs)) := by
      rw [← pairTexts_dropDelims] at hPairs
      rw [← eqs_dropWhile (p := isDelim) (by decide)]
      refine eqsOf_pairTexts hPairs ?_
      rw [joined_cons, List.length_cons] at hFuel
      rw [dropDelims_joined (hNames f List.mem_cons_self)]
      omega
    have hFullRead : a.Full ps := by
      have hKept := AuthText.kept_assignAll a ps
      rw [AuthText.Full, hSame, hFull]
      rw [hSame, hFull] at hKept
      omega
    rw [List.forall_mem_cons] at hNames hSome
    cases fuel with
    | zero =>
      rw [joined_cons, List.length_cons, List.length_append, List.length_cons] at hFuel
      omega
    | succ fuel =>
      rw [pairTexts_joined hNames.1] at hPairs
      obtain ⟨⟨v, r⟩, hValue, hRest⟩ := Option.bind_eq_some_iff.mp hPairs
      obtain ⟨more, hMore, rfl⟩ := Option.map_eq_some_iff.mp hRest
      have hRead : v = f.value := hFullRead.head hFull hSame
      subst hRead
      have hOk : f.Ok := ok_of_valueText hSome.1 (fun hNil => hLast f (by rw [hNil]; rfl)) hValue
      rw [valueText_ok hOk hNames.2] at hValue
      obtain ⟨-, rfl⟩ := Prod.mk.inj (Option.some.inj hValue)
      rw [pairTexts_dropDelims] at hMore
      rw [List.forall_mem_cons]
      refine ⟨hOk, ih hNames.2 hSome.2 (fun g hg => hLast g ?_) ?_ hMore hFull.cons.2 hSame⟩
      · cases fs with
        | nil => contradiction
        | cons g' gs => exact hg
      · rw [joined_cons, List.length_cons, List.length_append, List.length_cons,
          List.length_append] at hFuel
        omega

end Auth

end Microsippy
