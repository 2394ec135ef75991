import Microsippy.Tm.Slot

/-! # Dropping and evicting

What `usipy_sip_tm_drop_transaction` does to every slot, and what `usipy_sip_tm_alloc_slot` chooses.
-/

namespace Microsippy

set_option autoImplicit false

namespace Txi

@[simp] theorem fini_active (tp : Txi) : tp.fini.active = false := rfl

@[simp] theorem fini_parent (tp : Txi) : tp.fini.parent_index = none := rfl

@[simp] theorem fini_child (tp : Txi) : tp.fini.child_index = none := rfl

@[simp] theorem fini_fini (tp : Txi) : tp.fini.fini = tp.fini := rfl

@[simp] theorem reset_active (tp : Txi) : tp.reset.active = false := rfl

end Txi

namespace Tm

/-- Whether slot `j` is freed along with `index`. -/
def ChildOf (tm : Tm) (index j : Nat) : Prop :=
  j < tm.max_transactions ∧ (tm.tx j).active ∧ (tm.tx j).parent_index = some index

instance (tm : Tm) (index j : Nat) : Decidable (tm.ChildOf index j) :=
  inferInstanceAs (Decidable (_ ∧ _ ∧ _))

/-- The children among the first `n` slots freed. -/
def dropChildren (tm : Tm) (index n : Nat) : Tm := (List.range n).foldl (dropChild index) tm

theorem dropChildren_succ (tm : Tm) (index n : Nat) :
    tm.dropChildren index (n + 1) = dropChild index (tm.dropChildren index n) n := by
  simp [dropChildren, List.range_succ, List.foldl_append]

theorem dropChild_max (tm : Tm) (index i : Nat) :
    (dropChild index tm i).max_transactions = tm.max_transactions := by
  simp only [dropChild]
  split <;> rfl

theorem dropChild_serial (tm : Tm) (index i : Nat) :
    (dropChild index tm i).serial = tm.serial ∧ (dropChild index tm i).leaked = tm.leaked := by
  simp only [dropChild]
  split <;> exact ⟨rfl, rfl⟩

theorem dropChild_tx (tm : Tm) (index i j : Nat) :
    (dropChild index tm i).tx j =
      if j = i ∧ (tm.tx i).active ∧ (tm.tx i).parent_index = some index then (tm.tx j).fini
      else tm.tx j := by
  simp only [dropChild]
  by_cases hChild : (tm.tx i).active ∧ (tm.tx i).parent_index = some index
  · rw [if_pos hChild]
    by_cases hj : j = i
    · subst hj
      simp [hChild, set]
    · simp [hj, set]
  · rw [if_neg hChild, if_neg]
    exact fun h => hChild h.2

theorem dropChildren_tx (tm : Tm) (index n j : Nat) :
    (tm.dropChildren index n).tx j =
      if j < n ∧ (tm.tx j).active ∧ (tm.tx j).parent_index = some index then (tm.tx j).fini
      else tm.tx j := by
  induction n generalizing j with
  | zero => simp [dropChildren]
  | succ n ih =>
    have hOwn : (tm.dropChildren index n).tx n = tm.tx n := by
      rw [ih n, if_neg]
      exact fun h => Nat.lt_irrefl n h.1
    rw [dropChildren_succ, dropChild_tx, hOwn, ih j]
    by_cases hj : j = n
    · subst hj
      simp
    · have hLt : j < n + 1 ↔ j < n := by omega
      simp [hj, hLt]

theorem dropChildren_frame (tm : Tm) (index n : Nat) :
    (tm.dropChildren index n).max_transactions = tm.max_transactions ∧
      (tm.dropChildren index n).serial = tm.serial ∧
      (tm.dropChildren index n).leaked = tm.leaked := by
  induction n with
  | zero => exact ⟨rfl, rfl, rfl⟩
  | succ n ih =>
    rw [dropChildren_succ, dropChild_max, (dropChild_serial _ _ _).1, (dropChild_serial _ _ _).2]
    exact ih

/-- The links of a slot's parent to it undone. -/
theorem unlinkParent_tx (tm : Tm) (index j : Nat) :
    (tm.unlinkParent index).tx j =
      if (tm.tx index).parent_index = some j ∧ j < tm.max_transactions ∧ (tm.tx j).active ∧
        (tm.tx j).child_index = some index then { tm.tx j with child_index := none }
      else tm.tx j := by
  simp only [unlinkParent]
  split
  · rename_i hNone
    simp [hNone]
  · rename_i p hParent
    by_cases hLink : p < tm.max_transactions ∧ (tm.tx p).active ∧ (tm.tx p).child_index = some index
    · rw [if_pos hLink]
      by_cases hj : j = p
      · subst hj
        simp [hParent, hLink]
      · have hOther : (tm.tx index).parent_index ≠ some j := by
          rw [hParent]
          exact fun h => hj (Option.some.inj h).symm
        rw [set_other _ _ hj, if_neg (fun h => hOther h.1)]
    · rw [if_neg hLink, if_neg]
      rintro ⟨hIs, hRest⟩
      obtain rfl : p = j := Option.some.inj (hParent.symm.trans hIs)
      exact hLink hRest

theorem unlinkParent_frame (tm : Tm) (index : Nat) :
    (tm.unlinkParent index).max_transactions = tm.max_transactions ∧
      (tm.unlinkParent index).serial = tm.serial ∧ (tm.unlinkParent index).leaked = tm.leaked ∧
      (tm.unlinkParent index).nactive = tm.nactive := by
  simp only [unlinkParent]
  split
  · exact ⟨rfl, rfl, rfl, rfl⟩
  · split <;> exact ⟨rfl, rfl, rfl, rfl⟩

/-- A slot after a drop that is neither the one dropped nor freed with it. -/
def dropLinked (tm : Tm) (index j : Nat) : Txi :=
  if (tm.tx index).parent_index = some j ∧ j < tm.max_transactions ∧ (tm.tx j).active ∧
    (tm.tx j).child_index = some index ∧ ¬ tm.ChildOf index index then
    { tm.tx j with child_index := none }
  else tm.tx j

theorem dropChildren_all_tx (tm : Tm) (index j : Nat) :
    (tm.dropChildren index tm.max_transactions).tx j =
      if tm.ChildOf index j then (tm.tx j).fini else tm.tx j :=
  dropChildren_tx tm index tm.max_transactions j

theorem drop_tx (tm : Tm) (index j : Nat) :
    (tm.drop index).tx j =
      if j = index ∨ tm.ChildOf index j then (tm.tx j).fini else tm.dropLinked index j := by
  let tm₁ := tm.dropChildren index tm.max_transactions
  have hMax : tm₁.max_transactions = tm.max_transactions := (dropChildren_frame tm index _).1
  have hTx : ∀ k, tm₁.tx k = if tm.ChildOf index k then (tm.tx k).fini else tm.tx k :=
    dropChildren_all_tx tm index
  by_cases hj : j = index
  · subst hj
    have hSlot : (tm.drop j).tx j = ((tm₁.unlinkParent j).tx j).fini := set_same _ _ _
    rw [hSlot, if_pos (Or.inl rfl), unlinkParent_tx, hTx]
    split <;> split <;> rfl
  · have hSlot : (tm.drop index).tx j = (tm₁.unlinkParent index).tx j := set_other _ _ hj
    rw [hSlot, unlinkParent_tx, hMax, hTx, hTx]
    by_cases hChild : tm.ChildOf index j
    · simp [hChild]
    · by_cases hSelf : tm.ChildOf index index
      · simp [hChild, hSelf, hj, dropLinked]
      · simp [hChild, hSelf, hj, dropLinked]

theorem drop_frame (tm : Tm) (index : Nat) :
    (tm.drop index).max_transactions = tm.max_transactions ∧
      (tm.drop index).serial = tm.serial ∧ (tm.drop index).leaked = tm.leaked := by
  have hChildren := dropChildren_frame tm index tm.max_transactions
  have hUnlink := unlinkParent_frame (tm.dropChildren index tm.max_transactions) index
  exact ⟨hUnlink.1.trans hChildren.1, hUnlink.2.1.trans hChildren.2.1,
    hUnlink.2.2.1.trans hChildren.2.2⟩

theorem drop_policy (tm : Tm) (index : Nat) : (tm.drop index).id_policy = tm.id_policy := by
  have hChildren : ∀ n, (tm.dropChildren index n).id_policy = tm.id_policy := by
    intro n
    induction n with
    | zero => rfl
    | succ n ih =>
      rw [dropChildren_succ, dropChild]
      split <;> exact ih
  have hUnlink : ∀ tm : Tm, (tm.unlinkParent index).id_policy = tm.id_policy := by
    intro tm
    rw [unlinkParent]
    split
    · rfl
    · split <;> rfl
  exact (hUnlink (tm.dropChildren index tm.max_transactions)).trans (hChildren _)

/-! ## Choosing a slot -/

/-- The one to evict of the slots before `k`: the first of the evictable ones due first. -/
def Victim (tm : Tm) (k v : Nat) : Prop :=
  v < k ∧ (tm.tx v).evictable ∧
    ∀ j < k, (tm.tx j).evictable →
      (tm.tx v).evictionDue < (tm.tx j).evictionDue ∨
        (tm.tx v).evictionDue = (tm.tx j).evictionDue ∧ v ≤ j

theorem Victim.le_due {tm : Tm} {k v : Nat} (h : tm.Victim k v) {j : Nat} (hj : j < k)
    (hEvictable : (tm.tx j).evictable) : (tm.tx v).evictionDue ≤ (tm.tx j).evictionDue := by
  rcases h.2.2 j hj hEvictable with hLt | ⟨hEq, -⟩
  · exact UInt64.le_of_lt hLt
  · exact hEq ▸ UInt64.le_refl _

theorem Victim.unique {tm : Tm} {k v v' : Nat} (h : tm.Victim k v) (h' : tm.Victim k v') :
    v = v' := by
  rcases h.2.2 v' h'.1 h'.2.1 with hLt | ⟨hEq, hLe⟩
  · rcases h'.2.2 v h.1 h.2.1 with hGt | ⟨hEq, -⟩
    · exact absurd hGt (UInt64.lt_asymm hLt)
    · exact absurd hLt (hEq ▸ UInt64.lt_irrefl _)
  · rcases h'.2.2 v h.1 h.2.1 with hGt | ⟨-, hGe⟩
    · exact absurd hGt (hEq ▸ UInt64.lt_irrefl _)
    · exact Nat.le_antisymm hLe hGe

/-- What a scan of the slots before `k` knows of the slot to evict. -/
def Earliest (tm : Tm) (k : Nat) : Option (Nat × UInt64) → Prop
  | none => ∀ j < k, ¬ (tm.tx j).evictable
  | some (v, due) => tm.Victim k v ∧ due = (tm.tx v).evictionDue

/-- The victim with slot `k` looked at too. -/
def better (tm : Tm) (k : Nat) (victim : Option (Nat × UInt64)) : Option (Nat × UInt64) :=
  if !(tm.tx k).evictable then victim
  else
    match victim with
    | some (v, due) =>
      if (tm.tx k).evictionDue < due then some (k, (tm.tx k).evictionDue) else some (v, due)
    | none => some (k, (tm.tx k).evictionDue)

theorem Earliest.succ {tm : Tm} {k : Nat} {victim : Option (Nat × UInt64)}
    (h : tm.Earliest k victim) : tm.Earliest (k + 1) (tm.better k victim) := by
  by_cases hEvictable : (tm.tx k).evictable
  · cases victim with
    | none =>
      simp only [better, hEvictable, Bool.not_true, Bool.false_eq_true, if_false]
      refine ⟨⟨Nat.lt_succ_self k, hEvictable, fun j hj hOther => ?_⟩, rfl⟩
      rcases Nat.lt_succ_iff_lt_or_eq.mp hj with hBefore | rfl
      · exact absurd hOther (h j hBefore)
      · exact Or.inr ⟨rfl, Nat.le_refl _⟩
    | some victim =>
      obtain ⟨v, due⟩ := victim
      obtain ⟨⟨hLt, hv, hLeast⟩, rfl⟩ := h
      simp only [better, hEvictable, Bool.not_true, Bool.false_eq_true, if_false]
      by_cases hDue : (tm.tx k).evictionDue < (tm.tx v).evictionDue
      · rw [if_pos hDue]
        refine ⟨⟨Nat.lt_succ_self k, hEvictable, fun j hj hOther => ?_⟩, rfl⟩
        rcases Nat.lt_succ_iff_lt_or_eq.mp hj with hBefore | rfl
        · rcases hLeast j hBefore hOther with hMore | ⟨hSame, -⟩
          · exact Or.inl (UInt64.lt_trans hDue hMore)
          · exact Or.inl (hSame ▸ hDue)
        · exact Or.inr ⟨rfl, Nat.le_refl _⟩
      · rw [if_neg hDue]
        refine ⟨⟨Nat.lt_succ_of_lt hLt, hv, fun j hj hOther => ?_⟩, rfl⟩
        rcases Nat.lt_succ_iff_lt_or_eq.mp hj with hBefore | rfl
        · exact hLeast j hBefore hOther
        · rcases UInt64.lt_or_eq_of_le (UInt64.not_lt.mp hDue) with hLess | hSame
          · exact Or.inl hLess
          · exact Or.inr ⟨hSame, Nat.le_of_lt hLt⟩
  · have hSame : tm.better k victim = victim := by simp [better, hEvictable]
    rw [hSame]
    cases victim with
    | none =>
      intro j hj
      rcases Nat.lt_succ_iff_lt_or_eq.mp hj with hBefore | rfl
      · exact h j hBefore
      · exact hEvictable
    | some victim =>
      obtain ⟨v, due⟩ := victim
      obtain ⟨⟨hLt, hv, hLeast⟩, hIs⟩ := h
      refine ⟨⟨Nat.lt_succ_of_lt hLt, hv, fun j hj hOther => ?_⟩, hIs⟩
      rcases Nat.lt_succ_iff_lt_or_eq.mp hj with hBefore | rfl
      · exact hLeast j hBefore hOther
      · exact absurd hOther hEvictable

theorem allocScan_succ (tm : Tm) (n i : Nat) (victim : Option (Nat × UInt64)) :
    tm.allocScan (n + 1) i victim =
      if !(tm.tx i).active then (some i, none) else tm.allocScan n (i + 1) (tm.better i victim) := by
  simp only [allocScan, better]
  split
  · rfl
  · split
    · rfl
    · split <;> rfl

/-- A scan ends at the first free slot, or with the earliest of the evictable ones. -/
theorem allocScan_spec (tm : Tm) (n i : Nat) (victim : Option (Nat × UInt64))
    (hActive : ∀ j < i, (tm.tx j).active) (hVictim : tm.Earliest i victim) :
    (∃ k < i + n, ¬ (tm.tx k).active ∧ tm.allocScan n i victim = (some k, none)) ∨
      (∀ j < i + n, (tm.tx j).active) ∧
        ∃ last, tm.Earliest (i + n) last ∧ tm.allocScan n i victim = (none, last.map Prod.fst) := by
  induction n generalizing i victim with
  | zero => exact Or.inr ⟨hActive, victim, hVictim, rfl⟩
  | succ n ih =>
    rw [allocScan_succ]
    by_cases hFree : (tm.tx i).active
    · have hNext : ∀ j < i + 1, (tm.tx j).active := by
        intro j hj
        rcases Nat.lt_succ_iff_lt_or_eq.mp hj with hBefore | rfl
        · exact hActive j hBefore
        · exact hFree
      simp only [hFree, Bool.not_true, Bool.false_eq_true, if_false]
      have hRest := ih (i + 1) (tm.better i victim) hNext hVictim.succ
      rwa [Nat.add_right_comm i 1 n] at hRest
    · left
      refine ⟨i, by omega, hFree, ?_⟩
      simp [hFree]

end Tm

theorem dropTransaction_run {tm : Tm} {index : Nat} (hIndex : index < tm.max_transactions)
    (hActive : (tm.tx index).active) :
    (dropTransaction index).run tm = some (.ok (), tm.drop index) := by
  simp [dropTransaction, hIndex, hActive]

/-- The ways of `usipy_sip_tm_alloc_slot`: a free slot, an evicted one, or none at all. -/
theorem allocSlot_cases (tm : Tm) :
    (∃ k < tm.max_transactions, ¬ (tm.tx k).active ∧
      allocSlot.run tm = some (.ok k, tm.set k (tm.tx k).reset)) ∨
    (∀ j < tm.max_transactions, (tm.tx j).active) ∧
      ((∃ v, tm.Victim tm.max_transactions v ∧
        allocSlot.run tm = some (.ok v, (tm.drop v).set v ((tm.drop v).tx v).reset)) ∨
      (∀ j < tm.max_transactions, ¬ (tm.tx j).evictable) ∧
        allocSlot.run tm = some (.error .NOSPC, tm)) := by
  have hScan := tm.allocScan_spec tm.max_transactions 0 none (by simp) (by simp [Tm.Earliest])
  rw [Nat.zero_add] at hScan
  rcases hScan with ⟨k, hk, hFree, hResult⟩ | ⟨hFull, last, hLast, hResult⟩
  · left
    refine ⟨k, hk, hFree, ?_⟩
    simp [allocSlot, hResult]
  · right
    refine ⟨hFull, ?_⟩
    cases last with
    | none =>
      right
      refine ⟨hLast, ?_⟩
      simp [allocSlot, hResult]
    | some victim =>
      left
      obtain ⟨v, due⟩ := victim
      refine ⟨v, hLast.1, ?_⟩
      have hDrop := dropTransaction_run hLast.1.1 (hFull v hLast.1.1)
      simp [allocSlot, hResult, hDrop, Op.run_failWith]

theorem evictable_parent {c : Ctl} (h : c.evictable) : c.parent_index = none := by
  by_contra hParent
  have hSome : c.parent_index.isSome := Option.isSome_iff_ne_none.mpr hParent
  simp [Ctl.evictable, hSome] at h

/-- The slots once one without a parent is evicted. -/
theorem drop_tx_of_evictable {tm : Tm} {v : Nat} (h : (tm.tx v).evictable) (j : Nat) :
    (tm.drop v).tx j = if j = v ∨ tm.ChildOf v j then (tm.tx j).fini else tm.tx j := by
  have hParent := evictable_parent h
  rw [Tm.drop_tx]
  simp [Tm.dropLinked, hParent]

/-- What the constructor of the manager makes of the slots. -/
theorem Tm.ctor_fresh {p : CtorParams} {tm : Tm} (h : Tm.ctor p = some tm) :
    tm.tx = freshSlot ∧ tm.serial = 1 ∧ tm.nactive = 0 ∧ tm.leaked = 0 := by
  simp only [Tm.ctor, Option.bind_eq_bind] at h
  split at h
  · cases h
  · obtain ⟨transport, -, h⟩ := Option.bind_eq_some_iff.mp h
    obtain ⟨⟨r, hp⟩, -, h⟩ := Option.bind_eq_some_iff.mp h
    cases r with
    | error e => cases h
    | ok r =>
      obtain rfl := Option.some.inj h
      exact ⟨rfl, rfl, rfl, rfl⟩

end Microsippy
