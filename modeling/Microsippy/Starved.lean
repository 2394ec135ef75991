import Microsippy.Untouched

/-! # A slot that keeps the others from their turns

`usipy_sip_tm_run` returns at the first slot whose turn fails. What the run does for another slot is the
same whether it returns there or goes on, as long as nothing in the rest of it reaches that slot.
-/

namespace Microsippy

set_option autoImplicit false

variable {j : Nat}

namespace World

variable {w v u : World}

/-- Slot `j` holds the same in both but for a link to a child, and the same was sent and told for it. -/
def AlikeFor (j : Nat) (w v : World) : Prop :=
  (v.tm.tx j).bare = (w.tm.tx j).bare ∧ v.log.filter (Event.about j) = w.log.filter (Event.about j)

theorem AlikeFor.refl (w : World) : w.AlikeFor j w := ⟨rfl, rfl⟩

theorem AlikeFor.symm (h : w.AlikeFor j v) : v.AlikeFor j w := ⟨h.1.symm, h.2.symm⟩

theorem AlikeFor.trans (h : w.AlikeFor j v) (h' : v.AlikeFor j u) : w.AlikeFor j u :=
  ⟨h'.1.trans h.1, h'.2.trans h.2⟩

theorem Leaves.alike (h : w.Leaves j v) : w.AlikeFor j v := ⟨h.slot, h.told⟩

/-- A run has come to slot `i`, which is to send, and slot `j` is neither that nor its child. -/
structure SendsBeside (w : World) (now : UInt64) (i j : Nat) (stack : List Frame) : Prop where
  reachable : w.Reachable
  atTurn : ∃ outp, w.stack = .run now i outp :: stack
  sends : w.tm.Sends now i
  other : j ≠ i
  noChild : (w.tm.tx i).child_index ≠ some j

theorem SendsBeside.turn {now : UInt64} {i : Nat} {stack : List Frame} {rval : Int}
    (h : w.SendsBeside now i j stack) (hStep : w.step (.turn rval) = some v) :
    w.TurnEnds now i stack rval v ∧ w.AlikeFor j v := by
  obtain ⟨outp, hStack⟩ := h.atTurn
  obtain ⟨hEnds, hOthers⟩ := turn_leaves_others h.reachable hStack h.sends hStep
  exact ⟨hEnds, (hEnds.leaves h.other (hOthers j h.other h.noChild)).alike⟩

/-- A step that does nothing to slot `j`. -/
def Passes (j : Nat) (w : World) (l : Label) : Prop := ¬ w.Reaches j l ∧ ¬ w.GivesBack j l

theorem run_alike (hReachable : w.Reachable) (hRun : Transition.Run step (Passes j) w
    v) : w.AlikeFor j v := by
  induction hRun with
  | refl => exact .refl w
  | snoc hFirst hPasses hStep ih =>
    obtain ⟨p, tm, hCtor, hBefore⟩ := hReachable
    have hHeld : Sys.Held _ := ReachableBy.held ⟨p, tm, hCtor, hBefore.trans
      (hFirst.mono fun _ _ _ => trivial)⟩
    exact ih.trans (step_leaves hHeld hPasses.1 hPasses.2 hStep).alike

end World

/-- A manager of two slots with an OPTIONS request in each. -/
def twoOptions : List Label :=
  [.call (.newUacTr (Sample.request .OPTIONS)), .call (.newUacTr (Sample.request .OPTIONS))]

/-- A run that starts. -/
def runStarts : Label := .call (.run 1 true)

/-- A run before the turn of a slot. -/
def Frame.comesTo (now : UInt64) (i : Nat) : Frame → Bool
  | .run t k _ => t == now && k == i
  | _ => false

theorem Frame.stack_of_comesTo {stack : List Frame} {now : UInt64} {i : Nat} (hOne : stack.length = 1)
    (h : stack.all (Frame.comesTo now i) = true) : ∃ outp, stack = [.run now i outp] := by
  obtain ⟨f, rfl⟩ := List.length_eq_one_iff.mp hOne
  rw [List.all_cons, List.all_nil, Bool.and_true] at h
  cases f with
  | run t k outp =>
    simp only [Frame.comesTo, Bool.and_eq_true, beq_iff_eq] at h
    obtain ⟨rfl, rfl⟩ := h
    exact ⟨outp, rfl⟩
  | _ => cases h

end Microsippy
