import Microsippy.Lib.Count
import Microsippy.Fits

/-! # The count of active slots

The manager counts its active slots one by one as they are taken and given back. What it has counted,
and the slots that are active.
-/

namespace Microsippy

set_option autoImplicit false

variable {allow : Allow}

namespace Tm

/-- The slots whose active flag is set. -/
def numActive (tm : Tm) : Nat := Count.below (fun j => (tm.tx j).active) tm.max_transactions

/-- Only slots of the table are active, and those counted are active or leaked. -/
structure Counted (tm : Tm) : Prop where
  inTable : ∀ j, (tm.tx j).active = true → j < tm.max_transactions
  count : tm.nactive = tm.numActive + tm.leaked

variable {tm : Tm} {j : Nat} {tp : Txi}

theorem set_active_other (tm : Tm) (j : Nat) (tp : Txi) (k : Nat) (hk : k ≠ j) :
    ((tm.set j tp).tx k).active = (tm.tx k).active := by
  rw [set_other _ _ hk]

theorem numActive_kept (h : tp.active = (tm.tx j).active) : (tm.set j tp).numActive = tm.numActive := by
  refine Count.below_congr fun k _ => ?_
  cases Nat.decEq k j with
  | isTrue hk =>
    subst hk
    rw [set_same, h]
  | isFalse hk => exact set_active_other tm j tp k hk

theorem numActive_taken (hIn : j < tm.max_transactions) (hFree : (tm.tx j).active = false)
    (hActive : tp.active = true) : (tm.set j tp).numActive = tm.numActive + 1 :=
  Count.below_gain hIn (set_active_other tm j tp) hFree (by rwa [set_same])

theorem numActive_freed (hIn : j < tm.max_transactions) (hActive : (tm.tx j).active = true)
    (hFree : tp.active = false) : (tm.set j tp).numActive + 1 = tm.numActive :=
  Count.below_loss hIn (set_active_other tm j tp) hActive (by rwa [set_same])

namespace Counted

theorem set_inTable (h : tm.Counted) (hActive : tp.active = true → j < tm.max_transactions) (k : Nat)
    (hk : ((tm.set j tp).tx k).active = true) : k < tm.max_transactions := by
  cases Nat.decEq k j with
  | isTrue hIs =>
    subst hIs
    rw [set_same] at hk
    exact hActive hk
  | isFalse hOther =>
    rw [set_other _ _ hOther] at hk
    exact h.inTable k hk

theorem kept (h : tm.Counted) (hSame : tp.active = (tm.tx j).active) : (tm.set j tp).Counted :=
  ⟨h.set_inTable fun hActive => h.inTable j (hSame.symm.trans hActive),
    h.count.trans (congrArg (· + tm.leaked) (numActive_kept hSame).symm)⟩

theorem entered (h : tm.Counted) (hIn : j < tm.max_transactions) (hFree : (tm.tx j).active = false)
    (hActive : tp.active = true) : (tm.enter j tp).Counted := by
  refine ⟨h.set_inTable fun _ => hIn, ?_⟩
  have hTaken : (tm.enter j tp).numActive = tm.numActive + 1 := numActive_taken hIn hFree hActive
  have hCount := h.count
  rw [hTaken]
  simp only [enter, set_leaked]
  omega

/-- A slot freed and no longer counted. -/
theorem uncounted (h : tm.Counted) (hActive : (tm.tx j).active = true) (hFree : tp.active = false) :
    Counted { tm.set j tp with nactive := tm.nactive - 1 } := by
  refine ⟨h.set_inTable fun hNot => Bool.noConfusion (hFree.symm.trans hNot), ?_⟩
  have hFreed : (tm.set j tp).numActive + 1 = tm.numActive :=
    numActive_freed (h.inTable j hActive) hActive hFree
  have hCount := h.count
  have hSame : numActive { tm.set j tp with nactive := tm.nactive - 1 } = (tm.set j tp).numActive := rfl
  rw [hSame]
  simp only [set_leaked]
  omega

theorem leaked (h : tm.Counted) (hActive : (tm.tx j).active = true) (hFree : tp.active = false) :
    Counted { tm.set j tp with leaked := tm.leaked + 1 } := by
  refine ⟨h.set_inTable fun hNot => Bool.noConfusion (hFree.symm.trans hNot), ?_⟩
  have hFreed : (tm.set j tp).numActive + 1 = tm.numActive :=
    numActive_freed (h.inTable j hActive) hActive hFree
  have hCount := h.count
  have hSame : numActive { tm.set j tp with leaked := tm.leaked + 1 } = (tm.set j tp).numActive := rfl
  rw [hSame]
  simp only [set_nactive]
  omega

theorem dropChild (h : tm.Counted) (index i : Nat) : (Tm.dropChild index tm i).Counted := by
  simp only [Tm.dropChild]
  split
  · rename_i hChild
    exact h.uncounted hChild.1 rfl
  · exact h

theorem dropChildren (h : tm.Counted) (index n : Nat) : (tm.dropChildren index n).Counted := by
  induction n with
  | zero => exact h
  | succ n ih =>
    rw [dropChildren_succ]
    exact ih.dropChild index n

theorem unlinkParent (h : tm.Counted) (index : Nat) : (tm.unlinkParent index).Counted := by
  simp only [Tm.unlinkParent]
  split
  · exact h
  · split
    · exact h.kept rfl
    · exact h

/-- A slot that is its own parent would be freed twice. -/
theorem drop (h : tm.Counted) {index : Nat} (hActive : (tm.tx index).active = true)
    (hOwn : ¬ tm.ChildOf index index) : (tm.drop index).Counted := by
  have hChildren := h.dropChildren index tm.max_transactions
  have hStill : (tm.dropChildren index tm.max_transactions).tx index = tm.tx index := by
    rw [dropChildren_all_tx, if_neg hOwn]
  have hSlot : (((tm.dropChildren index tm.max_transactions).unlinkParent index).tx index).active =
      true := by
    rw [unlinkParent_tx, hStill]
    split <;> exact hActive
  exact (hChildren.unlinkParent index).uncounted hSlot rfl

end Counted

end Tm

theorem Act.counted {tm tm' : Tm} (h : Act allow tm tm') (hTwice : ¬ allow.twice) (hOld : tm.Counted) :
    tm'.Counted := by
  cases h with
  | work j tp hRole h => exact hOld.kept h.life.active
  | fill j tp hRole hFree h => exact hOld.kept h.life.active
  | stay j tp h => exact hOld.kept h.ctl.life.active
  | clear j hFree => exact hOld.kept hFree.symm
  | enter j tp hFree hActive hBorn hRole hKept hSlot hIn => exact hOld.entered hIn hFree hActive
  | drop j hj hActive hOwn => exact hOld.drop hActive fun hChild => hTwice (hOwn hChild)
  | uncount j hActive => exact hOld.uncounted hActive rfl
  | leak j hActive => exact hOld.leaked hActive rfl

theorem Moves.counted {tm tm' : Tm} (h : Moves allow tm tm') (hTwice : ¬ allow.twice)
    (hOld : tm.Counted) : tm'.Counted := by
  induction h with
  | refl => exact hOld
  | tail _ hStep ih =>
    cases hStep with
    | inl hAct => exact hAct.counted hTwice ih
    | inr hEnters =>
      obtain ⟨j, tp, hBorn, hUas, hOk, hOwner, hSlot, hFree, hIn⟩ := hEnters
      exact ih.entered hIn hFree hOk.active

namespace World

/-! ## Runs -/

/-- A step that leaves the count wrong: a constructor of a client transaction fails when it has counted its
slot. -/
def Miscounts (w : World) (l : Label) : Prop :=
  ∃ v, w.step l = some v ∧ v.tm.leaked ≠ w.tm.leaked

/-- No slot is its own parent, and none is taken off the count twice. -/
theorem ReachableBy.drops_once {ok : World → Label → Prop} {w : World} (h : ReachableBy ok w) (l : Label) :
    ¬ w.DropsTwice l := by
  rintro ⟨i, -, -, -, hParent⟩
  exact h.fit.parent i hParent

theorem start_counted {p : CtorParams} {tm : Tm} (h : Tm.ctor p = some tm) :
    tm.Counted ∧ tm.leaked = 0 := by
  obtain ⟨hSlots, -, hActive, hLeaked⟩ := Tm.ctor_fresh h
  have hFree : ∀ j, (tm.tx j).active = false := fun j => by
    rw [hSlots]
    rfl
  refine ⟨⟨fun j hj => Bool.noConfusion ((hFree j).symm.trans hj), ?_⟩, hLeaked⟩
  have hNone : tm.numActive = Count.below (fun _ => false) tm.max_transactions :=
    Count.below_congr fun k _ => hFree k
  rw [hActive, hLeaked, hNone, Count.below_none]

/-- Whether a step leaks nothing. -/
def countsRight (w : World) (l : Label) : Bool := (w.step l).all fun v => v.tm.leaked == w.tm.leaked

theorem not_miscounts_of_countsRight {w : World} {l : Label} (h : w.countsRight l = true) :
    ¬ w.Miscounts l := by
  rintro ⟨v, hStep, hLeaked⟩
  rw [countsRight, hStep, Option.all_some, beq_iff_eq] at h
  exact hLeaked h

end World

end Microsippy
