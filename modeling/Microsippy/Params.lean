import Microsippy.AuthText
import Microsippy.Lib.Trim
import Microsippy.LocalUri

/-! # Parameter lists

What the loops over the parameters of a URI, a name-addr or a Via make of the bytes of a list, and
what is left of it when the parameters are written one after the other and read again.
-/

namespace Microsippy

namespace Params

set_option autoImplicit false

variable {ws : UInt8 → Bool} {dlm : UInt8} {a b p r : Bytes}

/-- The parts of a list, what is around a delimiter dropped. -/
def pieces (ws : UInt8 → Bool) (dlm : UInt8) : Nat → Bytes → List Bytes
  | 0, _ => []
  | fuel + 1, b =>
    if b = [] then []
    else
      match cut dlm b with
      | some (a, r) => a.rdropWhile ws :: pieces ws dlm fuel (r.dropWhile ws)
      | none => [b]

/-- `name=value`, or a name alone. -/
def pair (ws : UInt8 → Bool) (p : Bytes) : Bytes × Bytes :=
  match cut (ch '=') p with
  | some (t, v) => (t.rdropWhile ws, v.dropWhile ws)
  | none => (p, [])

/-- The parameters of a list, by name and value. -/
def parsed (ws : UInt8 → Bool) (dlm : UInt8) (b : Bytes) : List (Bytes × Bytes) :=
  (pieces ws dlm b.length b).map (pair ws)

theorem pieces_fuel {n n' : Nat} (h : b.length ≤ n) (h' : b.length ≤ n') :
    pieces ws dlm n b = pieces ws dlm n' b := by
  induction n generalizing b n' with
  | zero =>
    obtain rfl := List.length_eq_zero_iff.mp (Nat.le_zero.mp h)
    cases n' <;> rfl
  | succ n ih =>
    cases n' with
    | zero =>
      obtain rfl := List.length_eq_zero_iff.mp (Nat.le_zero.mp h')
      rfl
    | succ n' =>
      rw [pieces, pieces]
      split
      · rfl
      · obtain ⟨-, hCut⟩ | ⟨a, r, rfl, -, hCut⟩ := cut_cases dlm b
        · rw [hCut]
        · have hLe : (r.dropWhile ws).length ≤ r.length := (List.dropWhile_sublist ws).length_le
          rw [List.length_append, List.length_cons] at h h'
          rw [hCut]
          exact congrArg _ (ih (by omega) (by omega))

@[simp] theorem parsed_nil : parsed ws dlm [] = [] := rfl

/-- The last parameter is what no delimiter follows. -/
theorem parsed_last (hSome : b ≠ []) (hNot : dlm ∉ b) : parsed ws dlm b = [pair ws b] := by
  obtain ⟨c, b, rfl⟩ := List.exists_cons_of_ne_nil hSome
  rw [parsed, List.length_cons, pieces, if_neg hSome, cut_none hNot]
  rfl

theorem parsed_cut (hFirst : dlm ∉ a) :
    parsed ws dlm (a ++ dlm :: r) = pair ws (a.rdropWhile ws) :: parsed ws dlm (r.dropWhile ws) := by
  have hLe : (r.dropWhile ws).length ≤ r.length := (List.dropWhile_sublist ws).length_le
  have hSome : a ++ dlm :: r ≠ [] := List.append_ne_nil_of_right_ne_nil a (List.cons_ne_nil dlm r)
  have hLength : (a ++ dlm :: r).length = a.length + r.length + 1 := by
    rw [List.length_append, List.length_cons]
    omega
  rw [parsed, hLength, pieces, if_neg hSome, cut_append hFirst]
  exact congrArg (List.cons _ ∘ List.map _) (pieces_fuel (by omega) (Nat.le_refl _))

theorem parsed_eq_nil : parsed ws dlm b = [] ↔ b = [] := by
  constructor
  · intro h
    obtain ⟨hNot, -⟩ | ⟨a, r, rfl, hFirst, -⟩ := cut_cases dlm b
    · apply Decidable.byContradiction
      intro hSome
      rw [parsed_last hSome hNot] at h
      cases h
    · rw [parsed_cut hFirst] at h
      cases h
  · rintro rfl
    rfl

/-- A list is empty, its last parameter, or what is before a delimiter and what is after it. -/
theorem parsed_induct (ws : UInt8 → Bool) (dlm : UInt8) {motive : Bytes → Prop} (nil : motive [])
    (last : ∀ b, b ≠ [] → dlm ∉ b → motive b)
    (cons : ∀ a r, dlm ∉ a → motive (r.dropWhile ws) → motive (a ++ dlm :: r)) (b : Bytes) :
    motive b := by
  generalize hn : b.length = n
  induction n using Nat.strongRecOn generalizing b with
  | ind n ih =>
    obtain ⟨hNot, -⟩ | ⟨a, r, rfl, hFirst, -⟩ := cut_cases dlm b
    · cases b with
      | nil => exact nil
      | cons c b => exact last _ (List.cons_ne_nil c b) hNot
    · have hLe : (r.dropWhile ws).length ≤ r.length := (List.dropWhile_sublist ws).length_le
      rw [List.length_append, List.length_cons] at hn
      exact cons a r hFirst (ih _ (by omega) _ rfl)

/-! ## One parameter -/

/-- A parameter as it is written. -/
def pairOut (q : Bytes × Bytes) : Bytes := q.1 ++ if q.2 = [] then [] else ch '=' :: q.2

theorem pairOut_eq_nil {q : Bytes × Bytes} : pairOut q = [] ↔ q = ([], []) := by
  obtain ⟨t, v⟩ := q
  cases v <;> simp [pairOut]

theorem pair_none (h : ch '=' ∉ p) : pair ws p = (p, []) := by
  rw [pair, cut_none h]

theorem pair_cut {t v : Bytes} (h : ch '=' ∉ t) :
    pair ws (t ++ ch '=' :: v) = (t.rdropWhile ws, v.dropWhile ws) := by
  rw [pair, cut_append h]

/-- A parameter written again is read as it was. -/
theorem pair_pairOut (p : Bytes) : pair ws (pairOut (pair ws p)) = pair ws p := by
  obtain ⟨hNot, -⟩ | ⟨t, v, rfl, hFirst, -⟩ := cut_cases (ch '=') p
  · rw [pair_none hNot, pairOut, if_pos rfl, List.append_nil, pair_none hNot]
  · have hToken : ch '=' ∉ t.rdropWhile ws := fun h => hFirst (Trim.mem_of_rdropWhile h)
    rw [pair_cut hFirst, pairOut]
    split
    · rename_i hNone
      exact (congrArg (pair ws) (List.append_nil _)).trans ((pair_none hToken).trans (Prod.ext rfl hNone.symm))
    · rw [pair_cut hToken, List.rdropWhile_idempotent, List.dropWhile_idempotent]

theorem mem_pairOut_pair {c : UInt8} (h : c ∈ pairOut (pair ws p)) : c ∈ p := by
  obtain ⟨hNot, -⟩ | ⟨t, v, rfl, hFirst, -⟩ := cut_cases (ch '=') p
  · rwa [pair_none hNot, pairOut, if_pos rfl, List.append_nil] at h
  · rw [pair_cut hFirst, pairOut] at h
    rw [List.mem_append, List.mem_cons]
    split at h
    · rw [List.append_nil] at h
      exact Or.inl (Trim.mem_of_rdropWhile h)
    · rw [List.mem_append, List.mem_cons] at h
      exact h.imp Trim.mem_of_rdropWhile (Or.imp_right Trim.mem_of_dropWhile)

/-- A parameter that ends in no white space is written so. -/
theorem rdropWhile_pairOut (hEq : ws (ch '=') = false) (h : p.rdropWhile ws = p) :
    (pairOut (pair ws p)).rdropWhile ws = pairOut (pair ws p) := by
  obtain ⟨hNot, -⟩ | ⟨t, v, rfl, hFirst, -⟩ := cut_cases (ch '=') p
  · rw [pair_none hNot, pairOut, if_pos rfl, List.append_nil, h]
  · rw [Trim.rdropWhile_append_cons hEq, List.append_cancel_left_eq, List.cons_inj_right] at h
    rw [pair_cut hFirst, pairOut]
    split
    · rw [List.append_nil, List.rdropWhile_idempotent]
    · rw [Trim.rdropWhile_append_cons hEq, Trim.trim_comm, h]

/-- A parameter that begins with no white space is written so. -/
theorem dropWhile_pairOut (hEq : ws (ch '=') = false) (h : p.dropWhile ws = p) :
    (pairOut (pair ws p)).dropWhile ws = pairOut (pair ws p) := by
  obtain ⟨hNot, -⟩ | ⟨t, v, rfl, hFirst, -⟩ := cut_cases (ch '=') p
  · rw [pair_none hNot, pairOut, if_pos rfl, List.append_nil, h]
  · rw [Trim.dropWhile_append_cons hEq, List.append_cancel_right_eq] at h
    have hToken : (t.rdropWhile ws).dropWhile ws = t.rdropWhile ws := by
      rw [← Trim.trim_comm, h]
    rw [pair_cut hFirst, pairOut]
    split
    · rw [List.append_nil, hToken]
    · rw [Trim.dropWhile_append_cons hEq, hToken]

/-! ## The list written again -/

/-- Parameters as they are written, with the delimiter between them. -/
def out (dlm : UInt8) : List (Bytes × Bytes) → Bytes
  | [] => []
  | [q] => pairOut q
  | q :: q' :: qs => pairOut q ++ dlm :: out dlm (q' :: qs)

theorem out_cons {q : Bytes × Bytes} {qs : List (Bytes × Bytes)} (h : qs ≠ []) :
    out dlm (q :: qs) = pairOut q ++ dlm :: out dlm qs := by
  obtain ⟨q', qs, rfl⟩ := List.exists_cons_of_ne_nil h
  rfl

/-- A delimiter before each parameter. -/
theorem flatten_out {qs : List (Bytes × Bytes)} (h : qs ≠ []) :
    (qs.map fun q => dlm :: pairOut q).flatten = dlm :: out dlm qs := by
  induction qs with
  | nil => exact absurd rfl h
  | cons q qs ih =>
    cases qs with
    | nil => simp [out]
    | cons q' qs => rw [List.map_cons, List.flatten_cons, ih (List.cons_ne_nil _ _)]; rfl

/-- A list that begins with no white space is written so. -/
theorem dropWhile_out (hEq : ws (ch '=') = false) (hDlm : ws dlm = false) (b : Bytes)
    (h : b.dropWhile ws = b) :
    (out dlm (parsed ws dlm b)).dropWhile ws = out dlm (parsed ws dlm b) := by
  obtain ⟨hNot, -⟩ | ⟨a, r, rfl, hFirst, -⟩ := cut_cases dlm b
  · cases b with
    | nil => rfl
    | cons c b =>
      rw [parsed_last (List.cons_ne_nil c b) hNot]
      exact dropWhile_pairOut hEq h
  · rw [Trim.dropWhile_append_cons hDlm, List.append_cancel_right_eq] at h
    have hPiece : (a.rdropWhile ws).dropWhile ws = a.rdropWhile ws := by rw [← Trim.trim_comm, h]
    have hPair := dropWhile_pairOut hEq hPiece
    rw [parsed_cut hFirst]
    cases hRest : parsed ws dlm (r.dropWhile ws) with
    | nil => exact hPair
    | cons q qs => rw [out_cons (List.cons_ne_nil q qs), Trim.dropWhile_append_cons hDlm, hPair]

/-- What is left of the parameters written again: all but a blank last one. -/
theorem parsed_out (hEq : ws (ch '=') = false) (hDlm : ws dlm = false) (b : Bytes) :
    parsed ws dlm (out dlm (parsed ws dlm b)) =
      if (parsed ws dlm b).getLast? = some ([], []) then (parsed ws dlm b).dropLast
      else parsed ws dlm b := by
  have hOne : ∀ p, dlm ∉ p → parsed ws dlm (pairOut (pair ws p)) =
      if pair ws p = ([], []) then [] else [pair ws p] := by
    intro p hNot
    split
    · rename_i hBlank
      rw [pairOut_eq_nil.mpr hBlank, parsed_nil]
    · rename_i hBlank
      rw [parsed_last (fun h => hBlank (pairOut_eq_nil.mp h)) fun h => hNot (mem_pairOut_pair h),
        pair_pairOut]
  induction b using parsed_induct ws dlm with
  | nil => rfl
  | last b hSome hNot =>
    rw [parsed_last hSome hNot, out, hOne b hNot]
    simp
  | cons a r hFirst ih =>
    have hPiece : dlm ∉ a.rdropWhile ws := fun h => hFirst (Trim.mem_of_rdropWhile h)
    rw [parsed_cut hFirst]
    cases hRest : parsed ws dlm (r.dropWhile ws) with
    | nil =>
      rw [out, hOne _ hPiece]
      simp
    | cons q qs =>
      have hTrimmed := dropWhile_out hEq hDlm (r.dropWhile ws) (List.dropWhile_idempotent ws r)
      have hPair := rdropWhile_pairOut hEq (List.rdropWhile_idempotent ws a)
      rw [hRest] at ih hTrimmed
      rw [out_cons (List.cons_ne_nil q qs), parsed_cut fun h => hPiece (mem_pairOut_pair h), hPair,
        pair_pairOut, hTrimmed, ih, List.getLast?_cons_cons, List.dropLast_cons_cons]
      split <;> rfl

/-- A parameter that is written as it is read, wherever it stands. -/
structure Tight (ws : UInt8 → Bool) (dlm : UInt8) (q : Bytes × Bytes) : Prop where
  some : pairOut q ≠ []
  whole : dlm ∉ pairOut q
  left : (pairOut q).dropWhile ws = pairOut q
  right : (pairOut q).rdropWhile ws = pairOut q
  read : pair ws (pairOut q) = q

theorem out_tight {q : Bytes × Bytes} {qs : List (Bytes × Bytes)} (h : Tight ws dlm q) :
    out dlm (q :: qs) ≠ [] ∧ (out dlm (q :: qs)).dropWhile ws = out dlm (q :: qs) := by
  cases qs with
  | nil => exact ⟨h.some, h.left⟩
  | cons q' qs =>
    obtain ⟨c, b, hIs⟩ := List.exists_cons_of_ne_nil h.some
    have hLeft := h.left
    rw [out_cons (List.cons_ne_nil q' qs), hIs]
    rw [hIs, List.dropWhile_cons] at hLeft
    split at hLeft
    · have hLe := (List.dropWhile_sublist ws (l := b)).length_le
      rw [hLeft, List.length_cons] at hLe
      omega
    · rename_i hc
      exact ⟨List.cons_ne_nil _ _, List.dropWhile_cons_of_neg hc⟩

/-- A list of such parameters is read as it was written. -/
theorem parsed_out_tight {qs : List (Bytes × Bytes)} (h : ∀ q ∈ qs, Tight ws dlm q) :
    parsed ws dlm (out dlm qs) = qs := by
  induction qs with
  | nil => rfl
  | cons q qs ih =>
    obtain ⟨hq, hqs⟩ := List.forall_mem_cons.mp h
    cases qs with
    | nil => rw [out, parsed_last hq.some hq.whole, hq.read]
    | cons q' qs =>
      rw [out_cons (List.cons_ne_nil q' qs), parsed_cut hq.whole, hq.right, hq.read,
        (out_tight (hqs q' List.mem_cons_self)).2, ih hqs]

/-! ## What is in a list -/

theorem mem_pair {c : UInt8} (h : c ∈ (pair ws p).1 ∨ c ∈ (pair ws p).2) : c ∈ p := by
  obtain ⟨hNot, -⟩ | ⟨t, v, rfl, hFirst, -⟩ := cut_cases (ch '=') p
  · rw [pair_none hNot] at h
    exact h.resolve_right List.not_mem_nil
  · rw [pair_cut hFirst] at h
    rw [List.mem_append, List.mem_cons]
    exact h.imp Trim.mem_of_rdropWhile fun hv => Or.inr (Trim.mem_of_dropWhile hv)

/-- No parameter has the delimiter in it. -/
theorem not_mem_parsed {q : Bytes × Bytes} (h : q ∈ parsed ws dlm b) : dlm ∉ q.1 ∧ dlm ∉ q.2 := by
  have hOne : ∀ p, dlm ∉ p → dlm ∉ (pair ws p).1 ∧ dlm ∉ (pair ws p).2 := fun p hNot =>
    ⟨fun hIn => hNot (mem_pair (Or.inl hIn)), fun hIn => hNot (mem_pair (Or.inr hIn))⟩
  induction b using parsed_induct ws dlm with
  | nil => cases h
  | last b hSome hNot =>
    rw [parsed_last hSome hNot] at h
    obtain rfl := List.mem_singleton.mp h
    exact hOne b hNot
  | cons a r hFirst ih =>
    rw [parsed_cut hFirst] at h
    obtain rfl | hLater := List.mem_cons.mp h
    · exact hOne _ fun hIn => hFirst (Trim.mem_of_rdropWhile hIn)
    · exact ih hLater

/-- How often a character stands in parameters. -/
def countIn (c : UInt8) (qs : List (Bytes × Bytes)) : Nat :=
  (qs.map fun q => q.1.count c + q.2.count c).sum

/-- A character that neither separates nor is dropped stands in the parameters as often as in the
list. -/
theorem countIn_parsed {c : UInt8} (hWs : ws c = false) (hDlm : dlm ≠ c) (hEq : ch '=' ≠ c) (b : Bytes) :
    countIn c (parsed ws dlm b) = b.count c := by
  have hOne : ∀ p : Bytes, (pair ws p).1.count c + (pair ws p).2.count c = p.count c := by
    intro p
    obtain ⟨hNot, -⟩ | ⟨t, v, rfl, hFirst, -⟩ := cut_cases (ch '=') p
    · rw [pair_none hNot]
      rfl
    · rw [pair_cut hFirst, Trim.count_rdropWhile hWs, Trim.count_dropWhile hWs, List.count_append,
        List.count_cons_of_ne hEq]
  induction b using parsed_induct ws dlm with
  | nil => rfl
  | last b hSome hNot =>
    rw [parsed_last hSome hNot]
    exact hOne b
  | cons a r hFirst ih =>
    rw [countIn] at ih
    rw [parsed_cut hFirst, countIn, List.map_cons, List.sum_cons, hOne, ih, Trim.count_rdropWhile hWs,
      Trim.count_dropWhile hWs, List.count_append, List.count_cons_of_ne hDlm]

theorem countIn_out {c : UInt8} (hDlm : dlm ≠ c) (hEq : ch '=' ≠ c) (qs : List (Bytes × Bytes)) :
    (qs.map fun q => dlm :: pairOut q).flatten.count c = countIn c qs := by
  have hOne : ∀ q : Bytes × Bytes, (dlm :: pairOut q).count c = q.1.count c + q.2.count c := by
    intro q
    rw [List.count_cons_of_ne hDlm, pairOut, List.count_append]
    split
    · rename_i hNone
      rw [hNone]
    · rw [List.count_cons_of_ne hEq]
  induction qs with
  | nil => rfl
  | cons q qs ih =>
    rw [List.map_cons, List.flatten_cons, List.count_append, hOne, ih, countIn, countIn, List.map_cons,
      List.sum_cons]

/-! ## Blank parameters -/

/-- White space with at most one `=` in it. -/
def BlankPiece (ws : UInt8 → Bool) (p : Bytes) : Prop :=
  (∀ c ∈ p, ws c = true) ∨
    ∃ u v, p = u ++ ch '=' :: v ∧ (∀ c ∈ u, ws c = true) ∧ ∀ c ∈ v, ws c = true

/-- A list whose last parameter is blank: white space around a `=`, or a blank piece with nothing but
white space after its delimiter. -/
inductive BlankEnd (ws : UInt8 → Bool) (dlm : UInt8) : Bytes → Prop
  | bare {u v : Bytes} (hu : ∀ c ∈ u, ws c = true) (hv : ∀ c ∈ v, ws c = true) :
    BlankEnd ws dlm (u ++ ch '=' :: v)
  | closed {q w : Bytes} (hq : BlankPiece ws q) (hw : ∀ c ∈ w, ws c = true) :
    BlankEnd ws dlm (q ++ dlm :: w)
  | after {a w r : Bytes} (hFirst : dlm ∉ a) (hw : ∀ c ∈ w, ws c = true) (hr : r.dropWhile ws = r)
    (hEnd : BlankEnd ws dlm r) : BlankEnd ws dlm (a ++ dlm :: (w ++ r))

theorem pair_blank_iff (hEq : ws (ch '=') = false) :
    pair ws p = ([], []) ↔
      p = [] ∨ ∃ u v, p = u ++ ch '=' :: v ∧ (∀ c ∈ u, ws c = true) ∧ ∀ c ∈ v, ws c = true := by
  constructor
  · intro h
    obtain ⟨hNot, -⟩ | ⟨t, v, rfl, hFirst, -⟩ := cut_cases (ch '=') p
    · rw [pair_none hNot] at h
      exact Or.inl (Prod.mk.inj h).1
    · rw [pair_cut hFirst] at h
      obtain ⟨hToken, hValue⟩ := Prod.mk.inj h
      exact Or.inr ⟨t, v, rfl, List.rdropWhile_eq_nil_iff.mp hToken, List.dropWhile_eq_nil_iff.mp hValue⟩
  · rintro (rfl | ⟨u, v, rfl, hu, hv⟩)
    · rfl
    · rw [pair_cut fun h => Bool.eq_false_iff.mp hEq (hu _ h), List.rdropWhile_eq_nil_iff.mpr hu,
        List.dropWhile_eq_nil_iff.mpr hv]

theorem pair_rdropWhile_blank_iff (hEq : ws (ch '=') = false) :
    pair ws (p.rdropWhile ws) = ([], []) ↔ BlankPiece ws p := by
  rw [pair_blank_iff hEq, List.rdropWhile_eq_nil_iff, BlankPiece]
  refine or_congr_right ?_
  constructor
  · rintro ⟨u, v, hIs, hu, hv⟩
    refine ⟨u, v ++ p.rtakeWhile ws, ?_, hu,
      List.forall_mem_append.mpr ⟨hv, fun c hc => List.mem_rtakeWhile_imp hc⟩⟩
    rw [← List.cons_append, ← List.append_assoc, ← hIs, List.rdropWhile_append_rtakeWhile]
  · rintro ⟨u, v, rfl, hu, hv⟩
    exact ⟨u, v.rdropWhile ws, Trim.rdropWhile_append_cons hEq, hu, fun c hc => hv c (Trim.mem_of_rdropWhile hc)⟩

theorem dlm_not_mem_blank (hDlm : ws dlm = false) (hNe : dlm ≠ ch '=') (h : BlankPiece ws p) :
    dlm ∉ p := by
  have hNot : ∀ {q : Bytes}, (∀ c ∈ q, ws c = true) → dlm ∉ q := fun hq hMem =>
    Bool.eq_false_iff.mp hDlm (hq _ hMem)
  obtain hp | ⟨u, v, rfl, hu, hv⟩ := h
  · exact hNot hp
  · rw [List.mem_append, List.mem_cons, not_or, not_or]
    exact ⟨hNot hu, hNe, hNot hv⟩

/-- The last parameter read is empty when the list ends in a blank one. -/
theorem getLast?_parsed (hEq : ws (ch '=') = false) (hDlm : ws dlm = false) (hNe : dlm ≠ ch '=') :
    (parsed ws dlm b).getLast? = some ([], []) ↔ BlankEnd ws dlm b := by
  constructor
  · intro h
    induction b using parsed_induct ws dlm with
    | nil => cases h
    | last b hSome hNot =>
      rw [parsed_last hSome hNot, List.getLast?_singleton, Option.some.injEq, pair_blank_iff hEq] at h
      obtain rfl | ⟨u, v, rfl, hu, hv⟩ := h
      · exact absurd rfl hSome
      · exact .bare hu hv
    | cons a r hFirst ih =>
      rw [parsed_cut hFirst] at h
      cases hRest : parsed ws dlm (r.dropWhile ws) with
      | nil =>
        rw [hRest, List.getLast?_singleton, Option.some.injEq, pair_rdropWhile_blank_iff hEq] at h
        exact .closed h (List.dropWhile_eq_nil_iff.mp (parsed_eq_nil.mp hRest))
      | cons q qs =>
        rw [hRest, List.getLast?_cons_cons, ← hRest] at h
        rw [← List.takeWhile_append_dropWhile (p := ws) (l := r)]
        exact .after hFirst (fun c hc => List.mem_takeWhile_imp hc) (List.dropWhile_idempotent ws r) (ih h)
  · intro h
    induction h with
    | @bare u v hu hv =>
      have hPiece : BlankPiece ws (u ++ ch '=' :: v) := Or.inr ⟨u, v, rfl, hu, hv⟩
      rw [parsed_last (by simp) (dlm_not_mem_blank hDlm hNe hPiece), List.getLast?_singleton,
        (pair_blank_iff hEq).mpr (Or.inr ⟨u, v, rfl, hu, hv⟩)]
    | closed hq hw =>
      rw [parsed_cut (dlm_not_mem_blank hDlm hNe hq), List.dropWhile_eq_nil_iff.mpr hw, parsed_nil,
        List.getLast?_singleton, (pair_rdropWhile_blank_iff hEq).mpr hq]
    | @after a w r hFirst hw hr hEnd ih =>
      rw [parsed_cut hFirst, List.dropWhile_append_of_pos hw, hr]
      cases hRest : parsed ws dlm r with
      | nil => rw [hRest] at ih; cases ih
      | cons q qs => rw [List.getLast?_cons_cons, ← hRest, ih]

/-- A list written again is read as it was if and only if it does not end in a blank parameter. -/
theorem parsed_out_iff (hEq : ws (ch '=') = false) (hDlm : ws dlm = false) (hNe : dlm ≠ ch '=')
    (b : Bytes) : parsed ws dlm (out dlm (parsed ws dlm b)) = parsed ws dlm b ↔ ¬ BlankEnd ws dlm b := by
  rw [parsed_out hEq hDlm b, ← getLast?_parsed hEq hDlm hNe]
  constructor
  · intro h hBlank
    rw [if_pos hBlank] at h
    have hLength := congrArg List.length h
    have hSome : parsed ws dlm b ≠ [] := by
      intro hNil
      rw [hNil] at hBlank
      cases hBlank
    have hPos := List.length_pos_iff.mpr hSome
    rw [List.length_dropLast] at hLength
    omega
  · exact fun h => if_neg h

/-! ## Lists of views -/

section

variable {m : Mem}

/-- The elements of a list of views. -/
theorem read_elems {next : Str → Option (Str × Str)}
    (hNext : ∀ x, (next x).map (readPair m) =
      (cut dlm (m.read x)).map fun (v, r) => (v.rdropWhile ws, r.dropWhile ws)) (fuel : Nat) (s : Str) :
    (elems next fuel s).map m.read = pieces ws dlm fuel (m.read s) := by
  induction fuel generalizing s with
  | zero => rfl
  | succ fuel ih =>
    have hEmpty : s.l = 0 ↔ m.read s = [] := by
      rw [← Mem.length_read m s, List.length_eq_zero_iff]
    have hHere := hNext s
    rw [elems, pieces]
    simp only [hEmpty]
    split
    · rfl
    · cases hCut : cut dlm (m.read s) with
      | none =>
        rw [hCut, Option.map_none, Option.map_eq_none_iff] at hHere
        rw [hHere]
        rfl
      | some x =>
        rw [hCut, Option.map_some] at hHere
        obtain ⟨⟨this, rest⟩, hIs, hRead⟩ := Option.map_eq_some_iff.mp hHere
        obtain ⟨hThis, hRest⟩ := Prod.mk.inj hRead
        rw [hIs]
        simp only
        rw [List.map_cons, ih, hThis, hRest]

/-- What the token and the value of a pair read as. -/
def texts (m : Mem) (ps : List TvPair) : List (Bytes × Bytes) :=
  ps.map fun p => readPair m (p.token, p.value)

theorem read_tvPairTrimmed (m : Mem) (s : Str) :
    readPair m ((tvPairTrimmed m s).token, (tvPairTrimmed m s).value) = pair Str.isLws (m.read s) := by
  rw [tvPairTrimmed, pair, ← Str.read_split_cut]
  cases s.split m (ch '=') with
  | none => rfl
  | some x => simp [readPair, Str.read_ltrmE, Str.read_ltrmB]

theorem read_tvPair (m : Mem) (s : Str) :
    readPair m ((tvPair m s).token, (tvPair m s).value) = pair (fun _ => false) (m.read s) := by
  rw [tvPair, pair, ← Str.read_split_cut]
  cases s.split m (ch '=') with
  | none => rfl
  | some x => simp [readPair, Trim.dropWhile_false, Trim.rdropWhile_false]

/-- The parameters of a name-addr or a Via. -/
theorem texts_trimmed (m : Mem) (s : Str) :
    texts m ((elems (fun s => s.splitElem m (ch ';')) s.l s).map (tvPairTrimmed m)) =
      parsed Str.isLws (ch ';') (m.read s) := by
  rw [texts, List.map_map, parsed, Mem.length_read,
    ← read_elems (fun x => Str.read_splitElem m x (ch ';')), List.map_map]
  exact List.map_congr_left fun s _ => read_tvPairTrimmed m s

/-- The parameters or the headers of a URI. -/
theorem texts_pairs (m : Mem) (dlm : UInt8) (s : Str) :
    texts m (Uri.pairs m dlm s) = parsed (fun _ => false) dlm (m.read s) := by
  have hNext : ∀ x : Str, (x.splitElemNlws m dlm).map (readPair m) =
      (cut dlm (m.read x)).map fun (v, r) => (v.rdropWhile fun _ => false, r.dropWhile fun _ => false) := by
    intro x
    simp only [Trim.rdropWhile_false, Trim.dropWhile_false]
    exact (Str.read_split_cut m x dlm).trans Option.map_id'.symm
  rw [texts, Uri.pairs, List.map_map, parsed, Mem.length_read, ← read_elems hNext, List.map_map]
  exact List.map_congr_left fun s _ => read_tvPair m s

end

end Params

/-! ## Ports -/

/-- A port number as `usipy_str_atoui_range` reads it. -/
def portText (b : Bytes) : Option UInt32 :=
  (Str.atouiLoop 0 b).bind fun r => if r < 1 ∨ ((65535 : UInt32) ≥ 1 ∧ r > 65535) then none else some r

theorem read_port (m : Mem) (x : Str) : x.atouiRange m 1 65535 = portText (m.read x) := rfl

theorem isLws_dec {n : Nat} : ∀ c ∈ dec n, Str.isLws c = false := by
  intro c hc
  have hNe : ∀ d : UInt8, d < ch '0' → c ≠ d := fun d hd hIs => not_mem_dec (Or.inl hd) (hIs ▸ hc)
  simp only [Str.isLws, Bool.or_eq_false_iff, beq_eq_false_iff_ne]
  exact ⟨⟨⟨hNe _ (by decide), hNe _ (by decide)⟩, hNe _ (by decide)⟩, hNe _ (by decide)⟩

/-- A port is not 0 and is read back in decimal. -/
theorem portText_some {b : Bytes} {port : UInt32} (h : portText b = some port) :
    port ≠ 0 ∧ portText (dec port.toNat) = some port := by
  obtain ⟨r, -, hIn⟩ := Option.bind_eq_some_iff.mp h
  split at hIn
  · cases hIn
  · rename_i hRange
    obtain rfl := Option.some.inj hIn
    have hOne : (1 : UInt32).toNat = 1 := rfl
    have hMax : (65535 : UInt32).toNat = 65535 := rfl
    simp only [UInt32.lt_iff_toNat_lt, UInt32.le_iff_toNat_le, gt_iff_lt, ge_iff_le, hOne, hMax] at hRange
    have hRead : Mem.read (fun _ => .zero) (Str.lit (dec r.toNat)) = dec r.toNat := Mem.read_lit _ _
    obtain ⟨v, hRound, hValue⟩ := @atouiRange_dec (fun _ => .zero) _ r.toNat 1 65535 hRead
      (by rw [hOne]; omega) (by rw [hMax]; omega)
    rw [read_port, hRead] at hRound
    refine ⟨fun hZero => ?_, ?_⟩
    · rw [hZero] at hRange
      simp at hRange
    · rw [hRound, UInt32.toNat_inj.mp hValue]

/-! ## Room for parameters -/

theorem extendPairs_ok {size : Nat → Nat} {start n : Nat} {ps : List TvPair} {u : Unit} {hp hp' : Heap}
    (hRun : (extendPairs size start n ps).run hp = some (.ok u, hp')) : hp'.mem = hp.mem := by
  induction ps generalizing n hp with
  | nil =>
    obtain ⟨-, rfl⟩ := Op.pure_ok.mp hRun
    rfl
  | cons p ps ih =>
    obtain ⟨u, hp₁, hExtend, hRest⟩ := Op.bind_ok.mp hRun
    exact (ih hRest).trans (Auth.aextend_ok hExtend)

/-- The size of a structure with its parameters. -/
structure Sized (size : Nat → Nat) : Prop where
  aligned : ∀ k, Heap.alignedSize (size k) = size k
  mono : Monotone size

theorem sized_of_header {n : Nat} (h : n % 8 = 0) : Sized fun k => n + sizeofTvPair * k where
  aligned k := by
    rw [Heap.alignedSize, if_neg (by simp only [sizeofTvPair]; omega)]
    simp only [sizeofTvPair]
    omega
  mono k k' h := by
    simp only [sizeofTvPair]
    omega

theorem extendPairs_append (size : Nat → Nat) (start n : Nat) (ps qs : List TvPair) :
    extendPairs size start n (ps ++ qs) =
      extendPairs size start n ps >>= fun _ => extendPairs size start (n + ps.length) qs := by
  induction ps generalizing n with
  | nil => rfl
  | cons p ps ih =>
    have hCount : n + (p :: ps).length = n + 1 + ps.length := by
      rw [List.length_cons]
      omega
    funext hp
    change Op.run (Heap.aextend (size (n + 1)) start >>= fun _ =>
        extendPairs size start (n + 1) (ps ++ qs)) hp =
      Op.run ((Heap.aextend (size (n + 1)) start >>= fun _ => extendPairs size start (n + 1) ps) >>=
        fun _ => extendPairs size start (n + (p :: ps).length) qs) hp
    rw [hCount, ih, Op.run_bind, Op.run_bind, Op.run_bind]
    cases (Heap.aextend (size (n + 1)) start).run hp with
    | none => rfl
    | some r =>
      obtain ⟨r, hp'⟩ := r
      cases r <;> rfl

section

variable {size : Nat → Nat}

/-- There is room for the parameters. -/
theorem extendPairs_run (hSize : Sized size) {start n : Nat} {ps : List TvPair} {hp : Heap}
    (hRoom : start + size (n + ps.length) ≤ hp.tsize) (hTop : hp.alen ≤ hp.tsize) :
    ∃ hp', (extendPairs size start n ps).run hp = some (.ok (), hp') := by
  induction ps generalizing n hp with
  | nil => exact ⟨hp, rfl⟩
  | cons p ps ih =>
    rw [List.length_cons] at hRoom
    have hLe : size (n + 1) ≤ size (n + (ps.length + 1)) := hSize.mono (by omega)
    have hFits : start + Heap.alignedSize (size (n + 1)) - hp.alen ≤ hp.remaining := by
      rw [hSize.aligned, Heap.remaining]
      omega
    have hFits' := hFits
    rw [Heap.remaining] at hFits'
    obtain ⟨hp', hRun⟩ := @ih (n + 1)
      { hp with alen := hp.alen + (start + Heap.alignedSize (size (n + 1)) - hp.alen) }
      (by rwa [Nat.add_assoc, Nat.add_comm 1]) (by simp only; omega)
    refine ⟨hp', ?_⟩
    rw [extendPairs, Op.run_bind, Heap.aextend, Op.run_bind, Op.run_get, Op.andThen_ok, Op.run_bind,
      Op.run_require, if_pos hFits, Op.andThen_ok, Op.run_modify, Op.andThen_ok]
    exact hRun

/-! ## The parsers -/

variable {α τ : Type} {parts : Mem → Str → Option α} {params : α → List TvPair}

/-- The shape of the parsers: a structure, its parts, and room for their parameters. -/
def paramsParser (size : Nat → Nat) (parts : Mem → Str → Option α) (params : α → List TvPair) (m : Mem)
    (hvp : Str) : HeapM α := do
  let start ← Heap.allocCnt (size 0)
  let hp ← Op.get
  Op.cleanup (Heap.cntRollback start) do
    let a ← Op.orElse (parts (hp.mem m) hvp) ()
    extendPairs size start 0 (params a)
    return a

theorem paramsParser_ok {m : Mem} {hvp : Str} {a : α} {hp hp' : Heap}
    (hRun : (paramsParser size parts params m hvp).run hp = some (.ok a, hp')) :
    hp'.mem = hp.mem ∧ parts (hp.mem m) hvp = some a := by
  obtain ⟨start, hp₁, hAlloc, hRun⟩ := Op.bind_ok.mp hRun
  obtain ⟨-, -, rfl⟩ := Heap.reserve_ok.mp hAlloc
  obtain ⟨_, _, hGet, hRun⟩ := Op.bind_ok.mp hRun
  obtain ⟨rfl, rfl⟩ := Op.get_ok.mp hGet
  obtain ⟨a', hp₂, hElse, hRun⟩ := Op.bind_ok.mp (Op.cleanup_ok.mp hRun)
  obtain ⟨hParts, rfl⟩ := Op.orElse_ok.mp hElse
  obtain ⟨u, hp₃, hExtend, hRun⟩ := Op.bind_ok.mp hRun
  obtain ⟨rfl, rfl⟩ := Op.pure_ok.mp hRun
  have hMem := extendPairs_ok hExtend
  exact ⟨hMem, hParts⟩

theorem paramsParser_run (hSize : Sized size) {m : Mem} {hvp : Str} {a : α} {hp : Heap}
    (hParts : parts (hp.mem m) hvp = some a) (hRoom : hp.Room (size (params a).length)) :
    ∃ hp', (paramsParser size parts params m hvp).run hp = some (.ok a, hp') := by
  have hFits := hRoom.2
  have hLe : size 0 ≤ size (params a).length := hSize.mono (Nat.zero_le _)
  rw [hSize.aligned] at hFits
  have hBare : hp.Room (size 0) := ⟨hRoom.1, by rw [hSize.aligned]; omega⟩
  obtain ⟨hp', hRun⟩ := @extendPairs_run size hSize (Heap.alignedSize hp.alen) 0 (params a)
    { hp with alen := Heap.alignedSize hp.alen + Heap.alignedSize (size 0) }
    (by rw [Nat.zero_add]; exact hFits) (by simp only [hSize.aligned]; omega)
  refine ⟨hp', ?_⟩
  rw [paramsParser, Op.run_bind, Heap.allocCnt, Heap.alloc_run hBare, Op.andThen_ok, Op.run_bind,
    Op.run_get, Op.andThen_ok]
  exact Op.cleanup_ok.mpr (Op.bind_ok.mpr ⟨a, _, Op.orElse_ok.mpr ⟨hParts, rfl⟩,
    Op.bind_ok.mpr ⟨(), hp', hRun, rfl⟩⟩)

/-- What a parser does is given by the parts. -/
theorem paramsParser_congr {parts' : Mem → Str → Option α} {m : Mem} {hvp : Str} {hp : Heap}
    (h : parts (hp.mem m) hvp = parts' (hp.mem m) hvp) :
    (paramsParser size parts params m hvp).run hp = (paramsParser size parts' params m hvp).run hp := by
  rw [paramsParser, paramsParser, Op.run_bind, Op.run_bind]
  cases hAlloc : (Heap.allocCnt (size 0)).run hp with
  | none => rfl
  | some r =>
    obtain ⟨r, hp₁⟩ := r
    cases r with
    | error e => rfl
    | ok start =>
      obtain ⟨-, -, rfl⟩ := Heap.reserve_ok.mp hAlloc
      simp only [Op.andThen_ok, Op.run_bind, Op.run_get]
      change Op.run (Op.cleanup _ (Op.orElse (parts (hp.mem m) hvp) () >>= _)) _ = _
      rw [h]
      rfl

/-- Where something was parsed, a structure without parameters fits. -/
theorem paramsParser_none {parts' : Mem → Str → Option α} {m : Mem} {hvp : Str} {a a' : α} {hp hp' : Heap}
    (hRun : (paramsParser size parts params m hvp).run hp = some (.ok a, hp'))
    (hParts : parts' (hp.mem m) hvp = some a') (hNone : params a' = []) :
    ∃ hp', (paramsParser size parts' params m hvp).run hp = some (.ok a', hp') := by
  obtain ⟨start, hp₁, hAlloc, -⟩ := Op.bind_ok.mp hRun
  refine ⟨hp₁, Op.bind_ok.mpr ⟨start, hp₁, hAlloc, Op.bind_ok.mpr ⟨hp₁, hp₁, rfl, ?_⟩⟩⟩
  obtain ⟨-, -, rfl⟩ := Heap.reserve_ok.mp hAlloc
  refine Op.cleanup_ok.mpr (Op.bind_ok.mpr ⟨a', _, Op.orElse_ok.mpr ⟨hParts, rfl⟩, ?_⟩)
  rw [hNone]
  rfl

theorem extendPairs_congr {start n : Nat} {ps qs : List TvPair} (h : ps.length = qs.length) :
    extendPairs size start n ps = extendPairs size start n qs := by
  induction ps generalizing n qs with
  | nil =>
    obtain rfl := List.length_eq_zero_iff.mp h.symm
    rfl
  | cons p ps ih =>
    obtain ⟨q, qs, rfl⟩ := List.exists_cons_of_length_eq_add_one h.symm
    rw [extendPairs, extendPairs, ih (Nat.succ.inj h)]

/-- Where something was parsed, so is what has as many parameters. -/
theorem paramsParser_length {parts' : Mem → Str → Option α} {m : Mem} {hvp hvp' : Str} {a a' : α}
    {hp hp' : Heap} (hRun : (paramsParser size parts params m hvp).run hp = some (.ok a, hp'))
    (hParts : parts' (hp.mem m) hvp' = some a') (hLength : (params a).length = (params a').length) :
    (paramsParser size parts' params m hvp').run hp = some (.ok a', hp') := by
  obtain ⟨start, hp₁, hAlloc, hRun⟩ := Op.bind_ok.mp hRun
  have hReserved := hAlloc
  obtain ⟨-, -, rfl⟩ := Heap.reserve_ok.mp hReserved
  obtain ⟨_, _, hGet, hRun⟩ := Op.bind_ok.mp hRun
  obtain ⟨rfl, rfl⟩ := Op.get_ok.mp hGet
  obtain ⟨b, hp₂, hElse, hRun⟩ := Op.bind_ok.mp (Op.cleanup_ok.mp hRun)
  obtain ⟨hSome, rfl⟩ := Op.orElse_ok.mp hElse
  obtain ⟨u, hp₃, hExtend, hRun⟩ := Op.bind_ok.mp hRun
  obtain ⟨rfl, rfl⟩ := Op.pure_ok.mp hRun
  rw [extendPairs_congr hLength] at hExtend
  exact Op.bind_ok.mpr ⟨start, _, hAlloc, Op.bind_ok.mpr ⟨_, _, rfl, Op.cleanup_ok.mpr
    (Op.bind_ok.mpr ⟨a', _, Op.orElse_ok.mpr ⟨hParts, rfl⟩, Op.bind_ok.mpr ⟨u, _, hExtend, rfl⟩⟩)⟩⟩

/-- A fresh heap with just the room for `n` parameters. -/
theorem room_fresh (hSize : Sized size) (n : Nat) : Heap.Room { tsize := size n } (size n) := by
  have hZero : Heap.alignedSize 0 = 0 := by decide
  refine ⟨Nat.zero_le _, ?_⟩
  rw [hSize.aligned]
  simp only [hZero]
  omega

/-- A text is parsed on every heap with the room for its parameters to what it says, whatever the
memory. -/
theorem paramsParser_iff (hSize : Sized size) {texts : Mem → α → τ} {text : Mem → Bytes → Option τ}
    {count : τ → Nat} (hRead : ∀ m s, (parts m s).map (texts m) = text m (m.read s))
    (hCount : ∀ m a, count (texts m a) = (params a).length) {b : Bytes} {t : τ} :
    (∀ (m : Mem) (hp : Heap), hp.Room (size (count t)) → ∃ a hp',
      (paramsParser size parts params m (Str.lit b)).run hp = some (.ok a, hp') ∧
        texts (hp'.mem m) a = t) ↔ ∀ m, text m b = some t := by
  constructor
  · intro h m
    obtain ⟨a, hp', hRun, rfl⟩ := h m _ (room_fresh hSize _)
    obtain ⟨hMem, hParts⟩ := paramsParser_ok hRun
    have hText := hRead m (Str.lit b)
    rw [Mem.read_lit] at hText
    rw [hMem, ← hText]
    exact congrArg (Option.map (texts m)) hParts
  · intro h m hp hRoom
    have h := h (hp.mem m)
    rw [← Mem.read_lit (hp.mem m) b, ← hRead] at h
    obtain ⟨a, hParts, rfl⟩ := Option.map_eq_some_iff.mp h
    rw [hCount] at hRoom
    obtain ⟨hp', hRun⟩ := paramsParser_run hSize hParts hRoom
    exact ⟨a, hp', hRun, by rw [(paramsParser_ok hRun).1]⟩

end

end Microsippy
