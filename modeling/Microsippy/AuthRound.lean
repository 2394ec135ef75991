import Microsippy.AuthPrint

/-! # Challenges read back

When `usipy_sip_hdr_auth_parse` returns what `usipy_sip_hdr_auth_build` printed of a challenge.
-/

namespace Microsippy

set_option autoImplicit false

/-! ## What a parse makes -/

/-- A name as the parser takes it. -/
structure NameTaken (n : Bytes) : Prop where
  begins : ∃ c t, n = c :: t ∧ Auth.isDelim c = false
  ends : n.rdropWhile Str.isWs = n
  noEq : ch '=' ∉ n

namespace Auth

theorem taken_of_pairTexts {fuel : Nat} {b : Bytes} {ps : List (Bytes × Bytes)}
    (h : pairTexts fuel b = some ps) : ∀ p ∈ ps, NameTaken p.1 := by
  induction fuel generalizing b ps with
  | zero =>
    obtain rfl := Option.some.inj h
    exact List.forall_mem_nil _
  | succ fuel ih =>
    rw [pairTexts] at h
    cases hRest : b.dropWhile isDelim with
    | nil =>
      rw [hRest] at h
      obtain rfl := Option.some.inj h
      exact List.forall_mem_nil _
    | cons c t =>
      rw [hRest] at h
      obtain ⟨⟨name, y⟩, hCut, h⟩ := Option.bind_eq_some_iff.mp h
      obtain ⟨⟨v, r⟩, hValue, h⟩ := Option.bind_eq_some_iff.mp h
      obtain ⟨more, hMore, h⟩ := Option.bind_eq_some_iff.mp h
      obtain rfl := Option.some.inj h
      rw [List.forall_mem_cons]
      refine ⟨?_, ih hMore⟩
      split at hValue
      · contradiction
      · rename_i hSome
        obtain ⟨-, hNone⟩ | ⟨a, s, hAppend, hFirst, hCutSome⟩ := cut_cases (ch '=') (c :: t)
        · rw [hNone] at hCut
          contradiction
        · rw [hCutSome] at hCut
          obtain ⟨rfl, rfl⟩ := Prod.mk.inj (Option.some.inj hCut)
          have hDelim := List.head?_dropWhile_not isDelim b
          rw [hRest] at hDelim
          refine ⟨?_, List.rdropWhile_idempotent .., fun hIn => hFirst (Trim.mem_of_rdropWhile hIn)⟩
          cases hName : a.rdropWhile Str.isWs with
          | nil => exact absurd hName hSome
          | cons d u =>
            obtain ⟨w, hWhole⟩ := List.rdropWhile_prefix Str.isWs a
            rw [hName] at hWhole
            rw [← hWhole, List.cons_append, List.cons_append] at hAppend
            exact ⟨d, u, rfl, (List.cons.inj hAppend).1 ▸ hDelim⟩

end Auth

namespace AuthText

open AuthField
open Auth (eqs eqsOf)

/-- What is true of every header that was parsed. -/
structure Parsed (t : AuthText) : Prop where
  scheme : t.scheme ≠ []
  noLws : ∀ c ∈ t.scheme, Str.isLws c = false
  taken : ∀ p ∈ t.params, NameTaken p.1
  params : ∀ p ∈ t.params, p.1 ∉ known

theorem params_sublist (a : AuthText) (ps : List (Bytes × Bytes)) :
    (a.assignAll ps).params = a.params ++ ps.filter fun p => p.1 ∉ known := by
  induction ps generalizing a with
  | nil => exact (List.append_nil _).symm
  | cons p ps ih =>
    rw [assignAll_cons, ih]
    cases Decidable.em (p.1 ∈ known) with
    | inl h => rw [(assign_known h).params, List.filter_cons_of_neg (by simpa using h)]
    | inr h =>
      rw [(assign_param h).params, List.filter_cons_of_pos (by simpa using h), List.append_assoc,
        List.singleton_append]

theorem parsed_of_parseText {b : Bytes} {t : AuthText} (h : Auth.parseText b = some t) : t.Parsed := by
  obtain ⟨⟨scheme, ps⟩, hParts, rfl⟩ := Option.map_eq_some_iff.mp h
  obtain ⟨⟨s, r⟩, hCut, hPairs⟩ := Option.bind_eq_some_iff.mp hParts
  obtain ⟨-, hNone⟩ | ⟨a, d, x, -, ha, -, hSome⟩ := cutLws_cases b
  · rw [hNone] at hCut
    contradiction
  · rw [hSome] at hCut
    obtain ⟨rfl, rfl⟩ := Prod.mk.inj (Option.some.inj hCut)
    dsimp only at hPairs
    split at hPairs
    · contradiction
    · rename_i hNamed
      obtain ⟨qs, hRead, hPair⟩ := Option.map_eq_some_iff.mp hPairs
      obtain ⟨rfl, rfl⟩ := Prod.mk.inj hPair
      have hTaken := Auth.taken_of_pairTexts hRead
      have hParams := params_sublist { scheme := a } qs
      rw [List.nil_append] at hParams
      have hScheme := scheme_assignAll { scheme := a } qs
      constructor
      · rw [hScheme]
        exact hNamed
      · rw [hScheme]
        exact ha
      · rw [hParams]
        exact fun p hp => hTaken p (List.mem_filter.mp hp).1
      · rw [hParams]
        exact fun p hp => by simpa using (List.mem_filter.mp hp).2

/-! ## The fields of a challenge -/

section

variable {t : AuthText}

theorem map_pair_params (ps : List (Bytes × Bytes)) :
    (ps.map fun p => (⟨p.1, p.2, ch ',' ∈ p.2 ∨ ch ' ' ∈ p.2⟩ : AuthField)).map pair = ps := by
  rw [List.map_map]
  exact List.map_id _

theorem name_knownFields (t : AuthText) : ∀ f ∈ t.knownFields, f.name ∈ known := by
  rw [knownFields]
  split_ifs <;> simp [known]

theorem taken_known : ∀ n ∈ known, NameTaken n := by
  intro n hn
  simp only [known, List.mem_cons, List.not_mem_nil, or_false] at hn
  obtain rfl | rfl | rfl | rfl | rfl := hn <;> exact ⟨⟨_, _, rfl, by decide⟩, by decide, by decide⟩

theorem taken_fields (h : t.Parsed) : ∀ f ∈ t.fields, NameTaken f.name := by
  rw [fields, List.forall_mem_append, List.forall_mem_map]
  exact ⟨fun f hf => taken_known _ (name_knownFields t f hf), h.taken⟩

/-- The members are printed before the other parameters. -/
theorem ordered_fields (h : t.Parsed) :
    t.fields.Pairwise fun f g => g.name ∈ known → f.name ∈ known := by
  have hKnown := name_knownFields t
  have hParams : ∀ g ∈ t.params.map (fun p => (⟨p.1, p.2, ch ',' ∈ p.2 ∨ ch ' ' ∈ p.2⟩ : AuthField)),
      g.name ∉ known := List.forall_mem_map.mpr h.params
  rw [fields, List.pairwise_append]
  exact ⟨List.pairwise_of_forall_mem_list fun f hf _ _ _ => hKnown f hf,
    List.pairwise_of_forall_mem_list fun _ _ g hg hIn => absurd hIn (hParams g hg),
    fun f hf _ _ _ => hKnown f hf⟩

theorem assignAll_append (a : AuthText) (ps qs : List (Bytes × Bytes)) :
    a.assignAll (ps ++ qs) = (a.assignAll ps).assignAll qs := List.foldl_append

theorem assignAll_params {a : AuthText} {ps : List (Bytes × Bytes)} (h : ∀ p ∈ ps, p.1 ∉ known) :
    a.assignAll ps = { a with params := a.params ++ ps } := by
  induction ps generalizing a with
  | nil => rw [assignAll_nil, List.append_nil]
  | cons p ps ih =>
    rw [List.forall_mem_cons] at h
    have hNot := h.1
    simp only [known, List.mem_cons, List.not_mem_nil, or_false, not_or] at hNot
    obtain ⟨hRealm, hNonce, hQop, hAlgorithm, hOpaque⟩ := hNot
    have hOne : a.assign p = { a with params := a.params ++ [p] } := by
      rw [assign, if_neg hRealm, if_neg hNonce, if_neg hQop, if_neg hAlgorithm, if_neg hOpaque]
    rw [assignAll_cons, hOne, ih h.2, List.append_assoc, List.singleton_append]

/-- The fields make up the challenge. -/
theorem assignAll_fields (h : t.Parsed) :
    AuthText.assignAll { scheme := t.scheme } (t.fields.map pair) = t := by
  have hKnown : AuthText.assignAll { scheme := t.scheme } (t.knownFields.map pair) =
      { t with params := [] } := by
    obtain ⟨scheme, realm, nonce, qop, algorithm, opaque_, params⟩ := t
    cases realm <;> cases nonce <;> cases qop <;> cases algorithm <;> cases opaque_ <;> rfl
  rw [fields, List.map_append, assignAll_append, hKnown, map_pair_params, assignAll_params h.params]
  rfl

theorem eqsOf_append (ps qs : List (Bytes × Bytes)) : eqsOf (ps ++ qs) = eqsOf ps + eqsOf qs := by
  rw [eqsOf, List.map_append, List.sum_append]
  rfl

/-- Nothing of a challenge is lost between its fields. -/
theorem full_fields (h : t.Parsed) : AuthText.Full { scheme := t.scheme } (t.fields.map pair) := by
  have hIte : ∀ (n v : Bytes) (q : Bool),
      eqsOf ((if v ≠ [] then [(⟨n, v, q⟩ : AuthField)] else []).map pair) = eqsIn v := by
    intro n v q
    rw [eqsIn]
    cases v <;> rfl
  have hNone : kept { scheme := t.scheme } = 0 := rfl
  rw [Full, assignAll_fields h, hNone, Nat.zero_add, fields, knownFields]
  simp only [List.map_append, eqsOf_append, hIte, map_pair_params]
  rfl

end

end AuthText

/-! ## Fields read one after the other -/

namespace AuthField

/-- What is read where white space and line ends are dropped first or not. -/
def trimmed (lws : Bool) (b : Bytes) : Bytes := if lws then b.dropWhile Str.isLws else b

/-- A name that comes back. -/
structure NameRead (lws : Bool) (n : Bytes) : Prop where
  noNul : 0 ∉ n
  begins : trimmed lws n = n

/-- A value that comes back, `last` where nothing follows. -/
structure ValueRead (last : Bool) (f : AuthField) : Prop where
  noNul : 0 ∉ f.value
  quoted : f.quote = true → ch '"' ∉ f.value
  bare : f.quote = false → BareIn last f.value

/-- Fields that come back, after white space and line ends that are dropped or not. They are dropped
after a value without quotes. -/
def ReadBack : Bool → List AuthField → Prop
  | _, [] => True
  | lws, f :: fs => NameRead lws f.name ∧ f.ValueRead fs.isEmpty ∧ ReadBack (!f.quote) fs

/-- A field that has a `=` in the text. -/
def Valued (f : AuthField) : Prop := f.quote = false → f.value ≠ []

instance (f : AuthField) : Decidable f.Valued := inferInstanceAs (Decidable (_ → _))

variable {lws : Bool} {f : AuthField} {fs : List AuthField} {n : Bytes}

theorem ValueRead.valued {last : Bool} (h : f.ValueRead last) : f.Valued := by
  intro hBare hNone
  obtain ⟨c, t, hSome, -⟩ := (h.bare hBare).begins
  rw [hNone] at hSome
  cases hSome

theorem ReadBack.each (h : ReadBack lws fs) : ∀ f ∈ fs, 0 ∉ f.name ∧ f.Valued := by
  induction fs generalizing lws with
  | nil => exact List.forall_mem_nil _
  | cons f fs ih =>
    obtain ⟨hName, hValue, hRest⟩ := h
    exact List.forall_mem_cons.mpr ⟨⟨hName.noNul, hValue.valued⟩, ih hRest⟩

theorem out_valued (h : f.Valued) : f.out = cstr f.name ++ ch '=' :: f.valueOut := by
  rw [out, if_neg]
  rintro ⟨hBare, hNone⟩
  exact h hBare hNone

theorem out_ne_nil (h : f.Valued) : f.out ≠ [] := by
  rw [out_valued h]
  simp

theorem listOut_cons (h : f.Valued) :
    listOut false (f :: fs) = cstr f.name ++ ch '=' :: (f.valueOut ++ listOut true fs) := by
  rw [listOut, if_neg Bool.false_ne_true, decide_eq_true (out_ne_nil h), Bool.or_true, out_valued h,
    List.append_assoc, List.cons_append]

theorem listOut_true (h : f.Valued) : listOut true (f :: fs) = ch ',' :: listOut false (f :: fs) := by
  rw [listOut, listOut, if_pos rfl, if_neg Bool.false_ne_true, decide_eq_true (out_ne_nil h), Bool.or_true,
    Bool.or_true, List.cons_append]

theorem follows_listOut (fs : List AuthField) : Auth.Follows (listOut true fs) := by
  cases fs with
  | nil => exact Or.inl rfl
  | cons f fs => exact Or.inr ⟨_, rfl⟩

theorem isEmpty_listOut (fs : List AuthField) : (listOut true fs).isEmpty = fs.isEmpty := by
  cases fs <;> rfl

theorem trimmed_append_eq (lws : Bool) (a x : Bytes) :
    trimmed lws (a ++ ch '=' :: x) = trimmed lws a ++ ch '=' :: x := by
  cases lws with
  | false => rfl
  | true => exact Trim.dropWhile_append_cons (by decide)

theorem trimmed_sublist (lws : Bool) (b : Bytes) : (trimmed lws b).Sublist b := by
  cases lws with
  | false => exact List.Sublist.refl b
  | true => exact List.dropWhile_sublist _

/-- The text of fields that come back has no white space or line ends before it. -/
theorem trimmed_listOut (hTaken : ∀ f ∈ fs, NameTaken f.name) (h : ReadBack lws fs) :
    trimmed lws (listOut false fs) = listOut false fs := by
  cases fs with
  | nil => cases lws <;> rfl
  | cons f fs =>
    obtain ⟨hName, hValue, -⟩ := h
    rw [listOut_cons hValue.valued, trimmed_append_eq, cstr_of_plain hName.noNul, hName.begins]

theorem length_listOut (hTaken : ∀ f ∈ fs, NameTaken f.name) (h : ∀ f ∈ fs, 0 ∉ f.name ∧ f.Valued) :
    2 * fs.length ≤ (listOut false fs).length := by
  induction fs with
  | nil => exact Nat.le_refl _
  | cons f fs ih =>
    rw [List.forall_mem_cons] at hTaken h
    obtain ⟨c, t, hName, -⟩ := hTaken.1.begins
    have hRest := ih hTaken.2 h.2
    have hLonger : (listOut false fs).length ≤ (listOut true fs).length := by
      cases fs with
      | nil => exact Nat.le_refl _
      | cons g gs =>
        rw [listOut_true (List.forall_mem_cons.mp h.2).1.2, List.length_cons]
        exact Nat.le_succ _
    rw [listOut_cons h.1.2, cstr_of_plain h.1.1, hName]
    simp only [List.length_cons, List.length_append] at hRest ⊢
    omega

end AuthField

namespace Auth

open AuthField

variable {lws : Bool} {fuel : Nat} {f : AuthField} {fs : List AuthField} {n : Bytes}

/-- The name that is read where one is printed. -/
def nameRead (lws : Bool) (n : Bytes) : Bytes :=
  ((trimmed lws (cstr n)).dropWhile isDelim).rdropWhile Str.isWs

/-- What is left to read after a value. -/
def afterValue (quote : Bool) (x : Bytes) : Bytes :=
  if quote then x.dropWhile isDelim else (x.tail.dropWhile Str.isLws).dropWhile isDelim

theorem nameRead_eq (hTaken : NameTaken n) (h : NameRead lws n) : nameRead lws n = n := by
  obtain ⟨c, t, hName, hDelim⟩ := hTaken.begins
  have hBegins : n.dropWhile isDelim = n := by
    rw [hName, List.dropWhile_cons_of_neg (by simp [hDelim])]
  rw [nameRead, cstr_of_plain h.noNul, h.begins, hBegins, hTaken.ends]

/-- A name that is read as it was is printed whole. -/
theorem nameRead_of_eq (h : nameRead lws n = n) : NameRead lws n := by
  have hEnds := rdropWhile_le Str.isWs ((trimmed lws (cstr n)).dropWhile isDelim)
  have hDelims := (List.dropWhile_sublist isDelim (l := trimmed lws (cstr n))).length_le
  have hLws := (trimmed_sublist lws (cstr n)).length_le
  have hStr := cstr_le n
  rw [← nameRead, h] at hEnds
  have hPlain : 0 ∉ n := noNul_of_le (by omega)
  rw [cstr_of_plain hPlain] at hDelims hLws hEnds
  exact ⟨hPlain, (trimmed_sublist lws n).eq_of_length_le (by omega)⟩

/-- The first of the fields is taken by the name that is read. -/
theorem pairTexts_named (hEq : ch '=' ∉ n) (x : Bytes) :
    pairTexts (fuel + 1) (trimmed lws (cstr n ++ ch '=' :: x)) =
      if nameRead lws n = [] then none
      else (valueText x).bind fun y => (pairTexts fuel y.2).map ((nameRead lws n, y.1) :: ·) := by
  have hNot : ch '=' ∉ (trimmed lws (cstr n)).dropWhile isDelim := fun hIn =>
    hEq ((List.takeWhile_sublist _).subset ((trimmed_sublist _ _).subset (Trim.mem_of_dropWhile hIn)))
  have hDrop := @Trim.dropWhile_append_cons _ isDelim (ch '=') (trimmed lws (cstr n)) x (by decide)
  rw [trimmed_append_eq, pairTexts_cut hDrop hNot, nameRead]

theorem valueText_read (h : f.ValueRead fs.isEmpty) :
    valueText (f.valueOut ++ listOut true fs) = some (f.value, afterValue f.quote (listOut true fs)) := by
  rw [valueOut, afterValue, cstr_of_plain h.noNul]
  cases hQuote : f.quote with
  | true =>
    rw [if_pos rfl, if_pos rfl, List.cons_append, List.append_assoc]
    exact valueText_quoted (h.quoted hQuote) _
  | false =>
    have hBare := h.bare hQuote
    rw [← isEmpty_listOut] at hBare
    rw [if_neg Bool.false_ne_true, if_neg Bool.false_ne_true]
    exact valueText_bare (follows_listOut fs) hBare

/-- A value that is read as it was is one that comes back. -/
theorem valueRead_of_valueText {r : Bytes} (hValued : f.Valued)
    (h : valueText (f.valueOut ++ listOut true fs) = some (f.value, r)) : f.ValueRead fs.isEmpty := by
  rw [valueOut] at h
  cases hQuote : f.quote with
  | true =>
    rw [if_pos hQuote, List.cons_append, List.append_assoc] at h
    obtain ⟨hPlain, hNone⟩ := plain_of_quoted h
    exact ⟨hPlain, fun _ => hNone, fun hNot => by simp [hQuote] at hNot⟩
  | false =>
    rw [if_neg (by simp [hQuote])] at h
    obtain ⟨hPlain, hBare⟩ := bareIn_of_valueText (follows_listOut fs) (hValued hQuote) h
    rw [isEmpty_listOut] at hBare
    exact ⟨hPlain, fun hNot => by simp [hQuote] at hNot, fun _ => hBare⟩

/-- After a value the text of the next field is read. -/
theorem pairTexts_afterValue (quote : Bool) (h : ∀ f ∈ fs, f.Valued) :
    pairTexts fuel (afterValue quote (listOut true fs)) =
      pairTexts fuel (trimmed (!quote) (listOut false fs)) := by
  cases fs with
  | nil => cases quote <;> rfl
  | cons g gs =>
    rw [listOut_true (List.forall_mem_cons.mp h).1]
    cases quote with
    | true =>
      rw [afterValue, if_pos rfl, dropDelims_comma]
      exact pairTexts_dropDelims _ _
    | false =>
      rw [afterValue, if_neg Bool.false_ne_true]
      exact pairTexts_dropDelims _ _

/-- Fields that come back one by one are all read, and nothing else. -/
theorem pairTexts_readBack (hTaken : ∀ f ∈ fs, NameTaken f.name) (h : ReadBack lws fs)
    (hFuel : fs.length < fuel) :
    pairTexts fuel (trimmed lws (listOut false fs)) = some (fs.map pair) := by
  induction fs generalizing lws fuel with
  | nil => cases fuel <;> cases lws <;> rfl
  | cons f fs ih =>
    have hEach := h.each
    obtain ⟨hName, hValue, hRest⟩ := h
    rw [List.forall_mem_cons] at hTaken hEach
    have hIs := nameRead_eq hTaken.1 hName
    cases fuel with
    | zero => exact absurd hFuel (Nat.not_lt_zero _)
    | succ fuel =>
      have hNamed : f.name ≠ [] := by
        obtain ⟨c, t, hCons, -⟩ := hTaken.1.begins
        rw [hCons]
        exact List.cons_ne_nil c t
      rw [listOut_cons hEach.1.2, pairTexts_named hTaken.1.noEq, hIs, if_neg hNamed, valueText_read hValue,
        Option.bind_some]
      dsimp only
      rw [pairTexts_afterValue _ fun g hg => (hEach.2 g hg).2, ih hTaken.2 hRest (by simpa using hFuel)]
      rfl

end Auth

/-! ## What comes back was printed well -/

namespace AuthText

open AuthField
open Auth (eqs eqsOf eqsOf_cons)

theorem member_assignAll {a : AuthText} {ps : List (Bytes × Bytes)} (h : ∀ p ∈ ps, p.1 ∉ known) (n : Bytes) :
    (a.assignAll ps).member n = a.member n := by
  rw [assignAll_params h]
  rfl

/-- Where nothing is lost and the same is kept, a parameter that is no member is read as it was. -/
theorem Full.param {a : AuthText} {p q : Bytes × Bytes} {ps qs : List (Bytes × Bytes)}
    (hRead : a.Full (p :: ps)) (hParams : ∀ r ∈ q :: qs, r.1 ∉ known)
    (hSame : a.assignAll (p :: ps) = a.assignAll (q :: qs)) : p = q := by
  cases Decidable.em (p.1 ∈ known) with
  | inl h =>
    obtain ⟨hNone, hSome, hSet⟩ := hRead.stays h
    rw [hSame, member_assignAll hParams, hNone] at hSet
    exact absurd hSet.symm hSome
  | inr h => exact param_head h (hParams q List.mem_cons_self) hSame

theorem read_known (lws : Bool) : ∀ n ∈ known, NameRead lws n := by
  intro n hn
  simp only [known, List.mem_cons, List.not_mem_nil, or_false] at hn
  obtain rfl | rfl | rfl | rfl | rfl := hn <;> cases lws <;> exact ⟨by decide, by decide⟩

end AuthText

namespace Auth

open AuthField
open AuthText (known)

variable {lws : Bool} {fuel : Nat} {f : AuthField} {fs : List AuthField}

/-- Fields that are read with the same result and nothing lost come back one by one. -/
theorem readBack_of_pairTexts {a : AuthText} {ps : List (Bytes × Bytes)}
    (hTaken : ∀ f ∈ fs, NameTaken f.name) (hValued : ∀ f ∈ fs, f.Valued)
    (hOrder : fs.Pairwise fun f g => g.name ∈ known → f.name ∈ known)
    (hPairs : pairTexts fuel (trimmed lws (listOut false fs)) = some ps)
    (hRead : a.Full ps) (hFull : a.Full (fs.map pair)) (hSame : a.assignAll ps = a.assignAll (fs.map pair)) :
    ReadBack lws fs := by
  induction fs generalizing lws fuel a ps with
  | nil => trivial
  | cons f fs ih =>
    rw [List.forall_mem_cons] at hTaken hValued
    rw [List.pairwise_cons] at hOrder
    cases fuel with
    | zero =>
      obtain rfl := Option.some.inj hPairs
      rw [AuthText.Full, ← hSame, List.map_cons, eqsOf_cons] at hFull
      simp only [AuthText.assignAll_nil] at hFull
      omega
    | succ fuel =>
      rw [listOut_cons hValued.1, pairTexts_named hTaken.1.noEq] at hPairs
      split at hPairs
      · contradiction
      · obtain ⟨⟨v, r⟩, hValue, hRest⟩ := Option.bind_eq_some_iff.mp hPairs
        obtain ⟨more, hMore, rfl⟩ := Option.map_eq_some_iff.mp hRest
        dsimp only at hMore hRead hSame
        have hHead : (nameRead lws f.name, v) = f.pair := by
          cases Decidable.em (f.name ∈ known) with
          | inl h =>
            have hName := nameRead_eq hTaken.1 (AuthText.read_known lws _ h)
            rw [hName] at hRead hSame ⊢
            rw [hRead.head hFull hSame]
            rfl
          | inr h =>
            refine hRead.param (fun q hq => ?_) hSame
            have hIn : q ∈ (f :: fs).map pair := hq
            obtain ⟨g, hg, rfl⟩ := List.mem_map.mp hIn
            cases hg with
            | head => exact h
            | tail _ hg => exact fun hIn => h (hOrder.1 g hg hIn)
        obtain ⟨hName, hIs⟩ := Prod.mk.inj hHead
        subst hIs
        have hOk := valueRead_of_valueText hValued.1 hValue
        rw [valueText_read hOk] at hValue
        obtain ⟨-, rfl⟩ := Prod.mk.inj (Option.some.inj hValue)
        rw [pairTexts_afterValue _ hValued.2] at hMore
        rw [hName] at hRead hSame
        exact ⟨nameRead_of_eq hName, hOk,
          ih hTaken.2 hValued.2 hOrder.2 hMore hRead.cons.2 hFull.cons.2 hSame⟩

theorem eqs_out (hEq : ch '=' ∉ f.name) : eqs f.out ≤ 1 + eqs f.value ∧ (1 ≤ eqs f.out → f.Valued) := by
  have hName : eqs (cstr f.name) = 0 :=
    List.count_eq_zero.mpr fun hIn => hEq ((List.takeWhile_sublist _).subset hIn)
  have hLe := eqs_cstr f.value
  have hOut : eqs f.valueOut = eqs (cstr f.value) := eqs_valueOut f
  cases Decidable.em f.Valued with
  | inl h =>
    rw [out_valued h, eqs_append, eqs_cons_eq, hName, hOut]
    exact ⟨by omega, fun _ => h⟩
  | inr h =>
    have hBlank : f.quote = false ∧ f.value = [] := by
      rw [AuthField.Valued] at h
      push Not at h
      exact h
    rw [AuthField.out, if_pos hBlank, List.append_nil, hName]
    exact ⟨Nat.zero_le _, fun hOne => absurd hOne (by decide)⟩

/-- Fields print no more equal signs than they take up, and as many only when each has one. -/
theorem eqs_listOut (hTaken : ∀ f ∈ fs, NameTaken f.name) (printed : Bool) :
    eqs (listOut printed fs) ≤ eqsOf (fs.map pair) ∧
      (eqsOf (fs.map pair) ≤ eqs (listOut printed fs) → ∀ f ∈ fs, f.Valued) := by
  induction fs generalizing printed with
  | nil => exact ⟨Nat.le_refl _, fun _ => List.forall_mem_nil _⟩
  | cons f fs ih =>
    rw [List.forall_mem_cons] at hTaken
    obtain ⟨hHead, hHeadValued⟩ := eqs_out hTaken.1.noEq
    obtain ⟨hRest, hRestValued⟩ := ih hTaken.2 (printed || decide (f.out ≠ []))
    have hText : eqs (listOut printed (f :: fs)) =
        eqs f.out + eqs (listOut (printed || decide (f.out ≠ [])) fs) := by
      rw [listOut, eqs_append]
      cases printed with
      | false => rfl
      | true => rw [if_pos rfl, eqs_cons_ne (by decide)]
    rw [hText, List.map_cons, eqsOf_cons]
    simp only [pair]
    refine ⟨by omega, fun hAll => List.forall_mem_cons.mpr ⟨hHeadValued ?_, hRestValued ?_⟩⟩ <;> omega

end Auth

/-! ## Challenges -/

namespace AuthText

open AuthField
open Auth (eqs eqsOf)

/-- A challenge that can be printed and read back. -/
structure Printable (t : AuthText) : Prop where
  some : t.fields ≠ []
  noNul : 0 ∉ t.scheme
  fields : ReadBack true t.fields

/-- The text of a challenge is parsed to the challenge if and only if that can be printed. -/
theorem parseText_out {t : AuthText} (h : t.Parsed) : Auth.parseText t.out = some t ↔ t.Printable := by
  have hTaken := taken_fields h
  have hFull := full_fields h
  have hScheme : ∀ c ∈ cstr t.scheme, Str.isLws c = false := fun c hc =>
    h.noLws c ((List.takeWhile_sublist _).subset hc)
  cases Decidable.em (t.fields = []) with
  | inl hNone =>
    have hFails : Auth.parseText t.out = none := by
      rw [out, if_pos hNone, List.append_nil, Auth.parseText, Auth.partsText, cutLws_none hScheme]
      rfl
    rw [hFails]
    constructor
    · rintro ⟨⟩
    · rintro ⟨hSome, -, -⟩
      exact absurd hNone hSome
  | inr hSome =>
    rw [out, if_neg hSome, Auth.parseText_append hScheme]
    constructor
    · intro hIs
      split at hIs
      · contradiction
      · obtain ⟨ps, hPairs, hSame⟩ := Option.map_eq_some_iff.mp hIs
        have hWhole : cstr t.scheme = t.scheme := by
          have hKept := scheme_assignAll { scheme := cstr t.scheme } ps
          rw [hSame] at hKept
          exact hKept.symm
        rw [hWhole] at hSame
        replace hSame := hSame.trans (assignAll_fields h).symm
        have hEqs := Auth.eqsOf_pairTexts hPairs (Nat.le_refl _)
        rw [Auth.eqs_dropWhile (by decide)] at hEqs
        obtain ⟨hLe, hValued⟩ := Auth.eqs_listOut hTaken false
        have hKept := kept_assignAll { scheme := t.scheme } ps
        rw [hSame, hFull] at hKept
        have hRead : AuthText.Full { scheme := t.scheme } ps := by
          rw [Full, hSame, hFull]
          omega
        constructor
        · exact hSome
        · exact Auth.noNul_of_le (Nat.le_of_eq (congrArg List.length hWhole).symm)
        · exact Auth.readBack_of_pairTexts hTaken (hValued (by omega)) (ordered_fields h) hPairs hRead hFull
            hSame
    · rintro ⟨-, hNul, hRead⟩
      have hBody : (listOut false t.fields).dropWhile Str.isLws = listOut false t.fields :=
        trimmed_listOut hTaken hRead
      have hLength := length_listOut hTaken hRead.each
      have hPos := List.length_pos_iff.mpr hSome
      have hPairs := @Auth.pairTexts_readBack true (listOut false t.fields).length _ hTaken hRead (by omega)
      rw [trimmed_listOut hTaken hRead] at hPairs
      rw [cstr_of_plain hNul, if_neg h.scheme, hBody, hPairs, Option.map_some, assignAll_fields h]

end AuthText

namespace Auth

open AuthField

/-- The text of a built challenge, in a buffer that takes it, is parsed to the same challenge. -/
def RoundTrips (m : Mem) (ap : Auth) : Prop :=
  Chunk.Writes m (ap.build m) fun b => ParsesTo b (ap.texts m)

theorem roundTrips_text (m : Mem) (ap : Auth) :
    RoundTrips m ap ↔ parseText (ap.texts m).out = some (ap.texts m) := by
  rw [RoundTrips, Chunk.writes_iff (plain_build m ap), outAll_build, parsesTo_iff]

/-- A challenge that was parsed and is built again is parsed to the same if and only if it says
something, nothing of it has a NUL, no value in quotes has a double quote, each value without quotes is
one that needs none, and no name that is first or after one of these begins with a line end. -/
theorem challenge_roundTrips {m : Mem} {hvp : Str} {ap : Auth} {hp hp' : Heap}
    (hRun : (parse m hvp).run hp = some (.ok ap, hp')) :
    RoundTrips (hp'.mem m) ap ↔ (ap.texts (hp'.mem m)).Printable := by
  rw [roundTrips_text]
  exact AuthText.parseText_out (AuthText.parsed_of_parseText (texts_parse hRun))

/-- A challenge with a realm and a parameter, which comes back. -/
theorem challenge_roundTrips_realm : ∃ ap hp hp',
    (parse (fun _ => .zero) (Str.lit (bytes "Digest realm=\"a b\", x=y"))).run hp = some (.ok ap, hp') ∧
      RoundTrips (hp'.mem fun _ => .zero) ap := by
  have hText : parseText (bytes "Digest realm=\"a b\", x=y") =
      some { scheme := bytes "Digest", realm := bytes "a b", params := [(bytes "x", bytes "y")] } := by
    decide +kernel
  obtain ⟨ap, hp', hRun, hIs⟩ := parsesTo_iff.mpr hText (fun _ => .zero) _ (room_sizeof (Nat.le_refl _))
  refine ⟨ap, _, hp', hRun, (challenge_roundTrips hRun).mpr ?_⟩
  rw [hIs]
  refine ⟨List.cons_ne_nil _ _, by decide, ?_⟩
  exact ⟨⟨by decide, by decide⟩, ⟨by decide, fun _ => by decide, fun h => by cases h⟩,
    ⟨by decide, by decide⟩,
    ⟨by decide, (fun h => by cases h), fun _ => ⟨⟨_, _, rfl, by decide, by decide⟩, by decide, by decide⟩⟩,
    trivial⟩

/-- A parameter with an empty value is printed without the `=` the parser wants. -/
theorem emptyParam_lost : ¬ ∀ (m : Mem) (hvp : Str) (ap : Auth) (hp hp' : Heap),
    (parse m hvp).run hp = some (.ok ap, hp') → RoundTrips (hp'.mem m) ap := by
  intro hAll
  have hText : parseText (bytes "Digest x=\"\"") =
      some { scheme := bytes "Digest", params := [(bytes "x", [])] } := by
    decide +kernel
  obtain ⟨ap, hp', hRun, hIs⟩ := parsesTo_iff.mpr hText (fun _ => .zero) _ (room_sizeof (Nat.le_refl _))
  have hBack := (roundTrips_text _ _).mp (hAll _ _ _ _ _ hRun)
  rw [hIs] at hBack
  exact absurd hBack (by decide +kernel)

end Auth

end Microsippy
