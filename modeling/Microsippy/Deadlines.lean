import Microsippy.WorldMoves
import Microsippy.RunReport

/-! # Deadlines of server transactions

Timers H, I, J and L over whole runs: once one has a due time that is set, the transaction goes on to a
later phase, or the timer stays and is due no later.
-/

namespace Microsippy

set_option autoImplicit false

theorem Ctl.Onward.strict {p : Prop} {c c' : Ctl} (h : c.Onward p c') (hNot : ¬ p) :
    c.Onward False c' :=
  ⟨h.timed, h.phase, h.type, Or.inr (h.due.resolve_left hNot)⟩

namespace World

/-- A server transaction over a run that never puts off Timer J. -/
theorem run_onward {w w' : World} (hOk : w.tm.UasOk)
    (hRun : Transition.Run step (fun w l => ¬ w.PostponesJ l) w w') {i : Nat}
    (hBorn : (w'.tm.tx i).born < w.tm.serial) (hRole : (w'.tm.tx i).role = .UAS) :
    (w.tm.tx i).role = .UAS ∧ (w.tm.tx i).toCtl.Onward False (w'.tm.tx i).toCtl := by
  induction hRun with
  | refl => exact ⟨hRole, Ctl.onward_same (hOk i hRole).timed rfl rfl rfl rfl⟩
  | @snoc t u l hFirst hKeeps hStep ih =>
    obtain ⟨hSerial, hOkT⟩ := run_serial_le hOk hFirst
    have hKept := (step_moves hOkT hStep).kept (Nat.lt_of_lt_of_le hBorn hSerial) hRole
    have hRoleT : (t.tm.tx i).role = .UAS := hKept.ctl.life.role.symm.trans hRole
    obtain ⟨hRoleW, hOnward⟩ := ih (hKept.ctl.life.born ▸ hBorn) hRoleT
    have hLast := (hKept.ctl.onward hRoleT (hOkT i hRoleT).timed).strict hKeeps
    exact ⟨hRoleW, hOnward.trans (hOk i hRoleW).timed hLast⟩

/-- A turn whose timer is due: the transaction is ended before anybody is told. -/
theorem goes_uasVisit_due {w : World} {now : UInt64} {i : Nat} {outp : Option RunOut} {rval : Int}
    (hOk : w.tm.UasOk) (hDue : (w.tm.tx i).timerDue now = true) :
    ∃ w₁ : World, w₁.tm = w.tm.set i { w.tm.tx i with toCtl := (w.tm.tx i).uasMarkTerminated } ∧
      Goes {} (fun _ _ => True) w₁ (w.uasVisit now i outp rval) := by
  let tm₁ := w.tm.set i { w.tm.tx i with toCtl := (w.tm.tx i).uasMarkTerminated }
  have hMoves : Moves {} w.tm tm₁ :=
    .single (Or.inl (.stay i _ (Txi.lasts_ctl (Ctl.rests_uasMarkTerminated _))))
  have hOk₁ : tm₁.UasOk := hMoves.uasOk hOk
  have hRun : (onTm (uasRun i now)).run w.toSys =
      some (.ok (.timeout (w.tm.tx i).timer.type (w.tm.tx i).uas_callbacks.no_ack
        (w.tm.tx i).uas_owner), { w.toSys with tm := tm₁ }) := by
    refine Op.zoom_some.mpr ⟨tm₁, ?_, rfl⟩
    rw [uasRun, Op.run_bind, Op.run_get, Op.andThen_ok]
    simp only [hDue, if_true]
    rfl
  refine ⟨{ w with toSys := { w.toSys with tm := tm₁ } }, rfl, ?_⟩
  rw [uasVisit, World.after, hRun]
  cases (w.tm.tx i).timer.type with
  | H =>
    refine .of_push (f := .run now (i + 1) outp) ?_
    cases (w.tm.tx i).uas_callbacks.no_ack with
    | true => exact .emit rfl
    | false => exact goes_countTimeout
  | L =>
    cases (w.tm.tx i).uas_owner with
    | none => exact .next
    | some d => exact .of_push (goes_dialogTimeout hOk₁)
  | _ => exact .next

/-- A turn at or past the due time of a server transaction ends it. -/
theorem turn_due {w w' : World} {now : UInt64} {i : Nat} {outp : Option RunOut} {stack : List Frame}
    {rval : Int} (hOk : w.tm.UasOk) (hStack : w.stack = .run now i outp :: stack)
    (hIn : i < w.tm.max_transactions) (hRoleOld : (w.tm.tx i).role = .UAS)
    (hDue : (w.tm.tx i).timerDue now = true) (hStep : w.step (.turn rval) = some w')
    (hBorn : (w'.tm.tx i).born < w.tm.serial) (hRole : (w'.tm.tx i).role = .UAS) :
    (w'.tm.tx i).state = .TERMINATED := by
  simp only [step, hStack, visit, Nat.not_le.mpr hIn, if_false, (hOk i hRoleOld).active, hRoleOld,
    Bool.not_true, Bool.false_eq_true] at hStep
  obtain ⟨w₁, hEnded, hGoes⟩ := goes_uasVisit_due (w := { w with stack }) hOk hDue
  have hMoves := (hGoes w' hStep).moves.slots
  have hKept := hMoves.kept (i := i) (by rw [hEnded]; exact hBorn) hRole
  refine hKept.ctl.ended ?_
  rw [hEnded, Tm.set_same]
  rfl

end World

/-- An OPTIONS request answered with a 200 that was sent at time 1. -/
def sentOptions : List Label := answeredOptions ++ [.call (.run 1 true), .turn 0, .turn 0]

/-- The request comes again, and the 200 is sent again unless `send_to` fails. -/
def optionsAgain (rval : Int) : List Label :=
  [.call (.handleIncoming 9 (some (optionsTo "<sip:b@h>"))), .call (.run 9 true), .turn rval]

/-- The transaction of slot 0 after some more steps, as a test finds it. -/
def timerAfter (ls : List Label) (test : Ctl → Ctl → Bool) (w : World) : Bool :=
  (w.tm.tx 0).timer.type == .J && (w.tm.tx 0).timer.due_at_ms != TIME_NONE &&
    (Transition.exec World.step w ls).any fun w' =>
      (w'.tm.tx 0).role == .UAS && (w'.tm.tx 0).born == (w.tm.tx 0).born &&
        test (w.tm.tx 0).toCtl (w'.tm.tx 0).toCtl

theorem timerAfter_iff {ls : List Label} {test : Ctl → Ctl → Bool} {w : World} :
    timerAfter ls test w = true ↔
      (w.tm.tx 0).timer.type = .J ∧ (w.tm.tx 0).timer.due_at_ms ≠ TIME_NONE ∧
        ∃ w', Transition.exec World.step w ls = some w' ∧ (w'.tm.tx 0).role = .UAS ∧
          (w'.tm.tx 0).born = (w.tm.tx 0).born ∧ test (w.tm.tx 0).toCtl (w'.tm.tx 0).toCtl = true := by
  simp only [timerAfter, Bool.and_eq_true, beq_iff_eq, bne_iff_ne, Option.any_eq_true, and_assoc]

end Microsippy
