import Microsippy.ActiveCount

/-! # Reaping

`usipy_sip_tm_utils.c`: the loop that drops what has ended, and what it leaves of the table.
-/

namespace Microsippy

set_option autoImplicit false

/-- The loop of `usipy_sip_tm_reap_terminated`, `n` slots from `i` on. -/
def reapFrom : Nat → Nat → TmM Unit
  | 0, _ => return ()
  | n + 1, i => do
    let tm ← Op.get
    if (tm.tx i).active ∧ (tm.tx i).state = .TERMINATED then
      let _ ← Op.attempt (ε := TmError) (dropTransaction i)
    reapFrom n (i + 1)

/-- `usipy_sip_tm_reap_terminated` -/
def reapTerminated : TmM Unit := do
  let tm ← Op.get
  if tm.nactive = 0 then return ()
  else reapFrom tm.max_transactions 0

namespace Tm

variable {tm tm' : Tm} {i j n : Nat}

/-- A slot has a transaction that has ended. -/
def Ended (tm : Tm) (i : Nat) : Prop :=
  i < tm.max_transactions ∧ (tm.tx i).active = true ∧ (tm.tx i).state = .TERMINATED

/-- A slot has a transaction whose parent has ended. -/
def Orphaned (tm : Tm) (i : Nat) : Prop :=
  ∃ p, (tm.tx i).parent_index = some p ∧ tm.Ended p

/-- A slot is as it was, but that it may have lost its child. -/
def LosesChild (tm tm' : Tm) (i : Nat) : Prop :=
  tm'.tx i = tm.tx i ∨ tm'.tx i = { tm.tx i with child_index := none } ∧
    ∃ c, (tm.tx i).child_index = some c ∧ (tm'.tx c).active = false

/-- What reaping the slots before `n` leaves of a table. -/
structure ReapedTo (n : Nat) (tm tm' : Tm) : Prop where
  max_transactions : tm'.max_transactions = tm.max_transactions
  gone : ∀ i < n, ¬ tm'.Ended i
  orphans : ∀ i p, i < tm.max_transactions → p < n → tm.Ended p → ¬ tm.Orphaned p → (tm.tx i).parent_index = some p →
    (tm'.tx i).active = false
  survivors : ∀ i, (tm.tx i).active = true → ¬ tm.Ended i → ¬ tm.Orphaned i → (tm'.tx i).active = true
  waiting : ∀ i, n ≤ i → tm.Ended i → ¬ tm.Orphaned i → (tm'.tx i).active = true
  left : ∀ i, (tm'.tx i).active = true → tm.LosesChild tm' i
  free : ∀ i, (tm.tx i).active = false → tm'.tx i = tm.tx i

theorem dropLinked_eq (tm : Tm) (index j : Nat) : tm.dropLinked index j = tm.tx j ∨
    (tm.tx j).child_index = some index ∧ (tm.tx j).active = true ∧
      tm.dropLinked index j = { tm.tx j with child_index := none } := by
  rw [dropLinked]
  split
  · rename_i hLinked
    exact Or.inr ⟨hLinked.2.2.2.1, hLinked.2.2.1, rfl⟩
  · exact Or.inl rfl

/-- What is active after a drop. -/
theorem drop_active {index : Nat} : ((tm.drop index).tx j).active = true ↔
    (tm.tx j).active = true ∧ j ≠ index ∧ ¬ tm.ChildOf index j := by
  rw [drop_tx]
  split
  · rename_i hGone
    constructor
    · rintro ⟨⟩
    · rintro ⟨-, hOther, hNot⟩
      exact absurd hGone (not_or.mpr ⟨hOther, hNot⟩)
  · rename_i hStays
    have hSame : (tm.dropLinked index j).active = (tm.tx j).active := by
      obtain hIs | ⟨-, -, hIs⟩ := tm.dropLinked_eq index j <;> rw [hIs]
    rw [hSame]
    exact ⟨fun h => ⟨h, not_or.mp hStays⟩, And.left⟩

/-- A drop leaves a slot as it is, but that it may lose the child dropped. -/
theorem drop_left {index : Nat} (h : ((tm.drop index).tx j).active = true) :
    tm.LosesChild (tm.drop index) j := by
  obtain ⟨-, hOther, hNot⟩ := drop_active.mp h
  rw [LosesChild, drop_tx, if_neg (not_or.mpr ⟨hOther, hNot⟩)]
  apply (tm.dropLinked_eq index j).imp_right
  rintro ⟨hChild, -, hIs⟩
  refine ⟨hIs, index, hChild, ?_⟩
  rw [drop_tx, if_pos (Or.inl rfl)]
  rfl

theorem drop_inactive {index : Nat} (hActive : (tm.tx index).active = true)
    (h : (tm.tx j).active = false) : (tm.drop index).tx j = tm.tx j := by
  have hGone : ¬ (j = index ∨ tm.ChildOf index j) := by
    rintro (rfl | hChild)
    · rw [hActive] at h
      cases h
    · rw [hChild.2.1] at h
      cases h
  rw [drop_tx, if_neg hGone]
  obtain hIs | ⟨-, hOn, -⟩ := tm.dropLinked_eq index j
  · exact hIs
  · rw [hOn] at h
    cases h

theorem LosesChild.state (h : tm.LosesChild tm' i) : (tm'.tx i).state = (tm.tx i).state ∧
    (tm'.tx i).active = (tm.tx i).active ∧ (tm'.tx i).parent_index = (tm.tx i).parent_index := by
  obtain hIs | ⟨hIs, -⟩ := h <;> rw [hIs] <;> exact ⟨rfl, rfl, rfl⟩

theorem LosesChild.trans {tm'' : Tm} (h : tm.LosesChild tm' i) (h' : tm'.LosesChild tm'' i)
    (hFree : ∀ c, (tm'.tx c).active = false → (tm''.tx c).active = false) : tm.LosesChild tm'' i := by
  obtain hIs | ⟨hIs, c, hChild, hGone⟩ := h
  · rw [LosesChild, hIs] at h'
    exact h'
  · obtain hIs' | ⟨-, c', hChild', -⟩ := h'
    · exact Or.inr ⟨hIs'.trans hIs, c, hChild, hFree c hGone⟩
    · rw [hIs] at hChild'
      cases hChild'

theorem reapedTo_zero (tm : Tm) : tm.ReapedTo 0 tm where
  max_transactions := rfl
  gone _ hLt := absurd hLt (Nat.not_lt_zero _)
  orphans _ _ _ hLt := absurd hLt (Nat.not_lt_zero _)
  survivors _ hActive _ _ := hActive
  waiting _ _ hEnded _ := hEnded.2.1
  left _ _ := Or.inl rfl
  free _ _ := rfl

/-- A slot that has not ended is passed over. -/
theorem ReapedTo.pass (h : tm.ReapedTo n tm')
    (hNot : ¬ ((tm'.tx n).active = true ∧ (tm'.tx n).state = .TERMINATED)) :
    tm.ReapedTo (n + 1) tm' := by
  constructor
  · exact h.max_transactions
  · intro i hi hEnded
    obtain hLt | rfl := Nat.lt_succ_iff_lt_or_eq.mp hi
    · exact h.gone i hLt hEnded
    · exact hNot hEnded.2
  · intro i p hIn hp hEnded hOrphan hParent
    obtain hLt | rfl := Nat.lt_succ_iff_lt_or_eq.mp hp
    · exact h.orphans i p hIn hLt hEnded hOrphan hParent
    · have hActive := h.waiting p le_rfl hEnded hOrphan
      exact absurd ⟨hActive, (h.left p hActive).state.1.trans hEnded.2.2⟩ hNot
  · exact h.survivors
  · exact fun i hi => h.waiting i (Nat.le_of_succ_le hi)
  · exact h.left
  · exact h.free

/-- A slot that has ended is dropped, and its children with it. -/
theorem ReapedTo.drops (h : tm.ReapedTo n tm') (hIn : n < tm.max_transactions)
    (hActive : (tm'.tx n).active = true) (hState : (tm'.tx n).state = .TERMINATED) :
    tm.ReapedTo (n + 1) (tm'.drop n) := by
  obtain ⟨hSame, hOn, -⟩ := (h.left n hActive).state
  have hEnded : tm.Ended n := ⟨hIn, hOn.symm.trans hActive, hSame.symm.trans hState⟩
  have hParent : ∀ i, (tm'.tx i).active = true → tm'.ChildOf n i → tm.Orphaned i := by
    rintro i hOn ⟨-, -, hChild⟩
    exact ⟨n, (h.left i hOn).state.2.2.symm.trans hChild, hEnded⟩
  have hFrees : ∀ i, (tm'.tx i).active = false → ((tm'.drop n).tx i).active = false := by
    intro i hOff
    rw [drop_inactive hActive hOff]
    exact hOff
  constructor
  · exact (drop_frame tm' n).1.trans h.max_transactions
  · rintro i hi ⟨hLt, hOn, hState⟩
    obtain ⟨hWas, hOther, -⟩ := drop_active.mp hOn
    have hBefore : tm'.Ended i :=
      ⟨(drop_frame tm' n).1 ▸ hLt, hWas, (drop_left hOn).state.1.symm.trans hState⟩
    exact h.gone i (by omega) hBefore
  · intro i p hi hp hEndedP hOrphan hChild
    obtain hLt | rfl := Nat.lt_succ_iff_lt_or_eq.mp hp
    · exact hFrees i (h.orphans i p hi hLt hEndedP hOrphan hChild)
    · by_contra hOn
      obtain ⟨hWas, -, hNot⟩ := drop_active.mp (Bool.not_eq_false _ ▸ hOn)
      exact hNot ⟨h.max_transactions.symm ▸ hi, hWas, (h.left i hWas).state.2.2.trans hChild⟩
  · intro i hOn hNot hOrphan
    have hWas := h.survivors i hOn hNot hOrphan
    refine drop_active.mpr ⟨hWas, ?_, fun hChild => hOrphan (hParent i hWas hChild)⟩
    rintro rfl
    exact hNot hEnded
  · intro i hi hEndedI hOrphan
    have hWas := h.waiting i (Nat.le_of_succ_le hi) hEndedI hOrphan
    exact drop_active.mpr ⟨hWas, by omega, fun hChild => hOrphan (hParent i hWas hChild)⟩
  · intro i hOn
    exact (h.left i (drop_active.mp hOn).1).trans (drop_left hOn) hFrees
  · intro i hOff
    have hBefore := h.free i hOff
    rw [← hBefore]
    exact drop_inactive hActive (hBefore ▸ hOff)

/-- No slot comes to be its own parent. -/
theorem ReapedTo.childOf (h : tm.ReapedTo n tm') {k : Nat} (hChild : tm'.ChildOf k k) : tm.ChildOf k k := by
  obtain ⟨hIn, hActive, hParent⟩ := hChild
  obtain ⟨-, hOn, hSame⟩ := (h.left k hActive).state
  exact ⟨h.max_transactions ▸ hIn, hOn.symm.trans hActive, hSame.symm.trans hParent⟩

/-- The loop, with the first `i` slots done. -/
theorem reapFrom_run (h : tm.ReapedTo i tm') {k : Nat} (hAll : i + k = tm.max_transactions) :
    ∃ t, (reapFrom k i).run tm' = some (.ok (), t) ∧ tm.ReapedTo tm.max_transactions t ∧
      ((∀ j, ¬ tm.ChildOf j j) → tm'.Counted → t.Counted) := by
  induction k generalizing i tm' with
  | zero =>
    obtain rfl : i = tm.max_transactions := hAll
    exact ⟨tm', rfl, h, fun _ => id⟩
  | succ k ih =>
    by_cases hEnded : (tm'.tx i).active = true ∧ (tm'.tx i).state = .TERMINATED
    · obtain ⟨t, hRun, hReaped, hCounts⟩ := ih (h.drops (by omega) hEnded.1 hEnded.2) (by omega)
      have hDrop := dropTransaction_run (h.max_transactions.symm ▸ (by omega)) hEnded.1
      refine ⟨t, ?_, hReaped, fun hOwn hCounted => ?_⟩
      · rw [reapFrom]
        simp only [Op.run_bind, Op.run_get, Op.andThen_ok, if_pos hEnded]
        rw [show (Op.attempt (dropTransaction i) : Op TmError Tm _).run tm' =
          some (.ok (.ok ()), tm'.drop i) from Op.attempt_some.mpr ⟨_, hDrop, rfl⟩]
        exact hRun
      · exact hCounts hOwn (hCounted.drop hEnded.1 fun hChild => hOwn i (h.childOf hChild))
    · obtain ⟨t, hRun, hReaped, hCounts⟩ := ih (h.pass hEnded) (by omega)
      refine ⟨t, ?_, hReaped, hCounts⟩
      rw [reapFrom]
      simp only [Op.run_bind, Op.run_get, Op.andThen_ok, if_neg hEnded]
      exact hRun

/-- A table with nothing active is left as it is. -/
theorem Counted.reapedTo_of_none (h : tm.Counted) (hNone : tm.nactive = 0) :
    tm.ReapedTo tm.max_transactions tm := by
  have hIdle : ∀ i, ¬ (tm.tx i).active = true := by
    intro i hActive
    have hCount := h.count
    have hSome := numActive_freed (h.inTable i hActive) hActive (tm.tx i).reset_active
    omega
  constructor
  · rfl
  · exact fun i _ hEnded => hIdle i hEnded.2.1
  · exact fun i p _ _ hEnded => absurd hEnded.2.1 (hIdle p)
  · exact fun i hActive => absurd hActive (hIdle i)
  · exact fun i _ hEnded => absurd hEnded.2.1 (hIdle i)
  · exact fun i hActive => absurd hActive (hIdle i)
  · exact fun _ _ => rfl

end Tm

end Microsippy
