import Microsippy.WorldMoves

/-! # What every step keeps of the manager

A relation that every function of the manager keeps is kept by every step of the system.
-/

namespace Microsippy

set_option autoImplicit false

/-- Every function of the manager that a step may run keeps a relation. -/
structure TmKeeps (R : Tm → Tm → Prop) : Prop where
  newUacTr : ∀ tpp, Op.Keeps R (newUacTr tpp)
  newUasTr : ∀ tpp, Op.Keeps R (newUasTr tpp)
  newInDialogTransaction : ∀ tpp, Op.Keeps R (newInDialogTransaction tpp)
  nextTransaction : ∀ index payload ehp, Op.Keeps R (nextTransaction index payload ehp)
  cancel : ∀ index, Op.Keeps R (cancel index)
  sendUasResponse : ∀ index rpp, Op.Keeps R (sendUasResponse index rpp)
  uasCancelOk : ∀ cancelp index, Op.Keeps R (uasCancelOk cancelp index)
  uasTrCancelled : ∀ cancelp index rpp, Op.Keeps R (uasTrCancelled cancelp index rpp)
  dropTransaction : ∀ index, Op.Keeps R (dropTransaction index)
  setTimerPolicy : ∀ index policy, Op.Keeps R (setTimerPolicy index policy)
  handleIncomingResponse : ∀ now msg code tid, Op.Keeps R (handleIncomingResponse now msg code tid)
  uacResponseDone : ∀ index code, Op.Keeps R (uacResponseDone index code)
  handleIncomingRequest : ∀ now msg method tid, Op.Keeps R (handleIncomingRequest now msg method tid)
  uacRun : ∀ index now, Op.Keeps R (uacRun index now)
  uacTimedOut : ∀ index rest, Op.Keeps R (uacTimedOut index rest)
  uacSent : ∀ index now, Op.Keeps R (uacSent index now)
  uasRun : ∀ index now, Op.Keeps R (uasRun index now)
  uasSent : ∀ index now, Op.Keeps R (uasSent index now)
  uasSetOwner : ∀ index owner, Op.Keeps R (uasSetOwner index owner)
  uasClearOwner : ∀ index owner, Op.Keeps R (uasClearOwner index owner)
  uasSendAt : ∀ index owner at_ms, Op.Keeps R (uasSendAt index owner at_ms)

/-- A relation of the managers of two systems. -/
def Sys.Keeps (R : Tm → Tm → Prop) (s s' : Sys) : Prop := R s.tm s'.tm

variable {R : Tm → Tm → Prop}

theorem TmKeeps.onTm {α : Type} {x : TmM α} (hx : Op.Keeps R x) : Op.Keeps (Sys.Keeps R) (onTm x) := by
  intro s r s' hRun
  obtain ⟨tm, hPart, rfl⟩ := Op.zoom_some.mp hRun
  exact hx _ _ _ hPart

namespace World

/-- Whatever comes of a state, the relation is kept. -/
def Stays (R : Tm → Tm → Prop) (w : World) (o : Option World) : Prop := ∀ v, o = some v → R w.tm v.tm

theorem Stays.none {w : World} : Stays R w none := fun _ hv => by cases hv

theorem Stays.congr {w u : World} {o : Option World} (h : u.tm = w.tm) (hu : Stays R u o) : Stays R w o :=
  fun v hv => h ▸ hu v hv

end World

variable [IsPreorder Tm R]

instance : IsPreorder Sys (Sys.Keeps R) where
  refl s := Std.Refl.refl s.tm
  trans _ _ _ h h' := IsTrans.trans (r := R) _ _ _ h h'

namespace TmKeeps

/-! ## Dialogs -/

theorem setDialog (d : Nat) (f : Sys → Option Dialog) :
    Op.Keeps (Sys.Keeps R) (Op.modify (ε := TmError) fun s => s.setDialog d (f s)) :=
  .modify fun s => Std.Refl.refl s.tm

theorem getDialog (d : Nat) : Op.Keeps (Sys.Keeps R) (getDialog d) := .bind .get fun _ => .demand _

theorem modDialog (d : Nat) (f : Dialog → Dialog) : Op.Keeps (Sys.Keeps R) (modDialog d f) :=
  .bind (getDialog d) fun dp => setDialog d fun _ => some (f dp)

theorem addDialog (dp : Dialog) : Op.Keeps (Sys.Keeps R) (addDialog dp) :=
  .bind .get fun _ => .bind (.modify fun s => Std.Refl.refl s.tm) fun _ => .pure _

theorem dialogUasSent (h : TmKeeps R) (d : Nat) (now : UInt64) :
    Op.Keeps (Sys.Keeps R) (dialogUasSent d now) := by
  refine .bind (getDialog d) fun _ => .bind (.demand _) fun _ => .ite (fun _ => .pure _) fun _ =>
    .bind (.attempt (onTm (h.uasSendAt _ _ _))) fun r => ?_
  cases r with
  | error e => exact .pure _
  | ok u => exact modDialog _ _

theorem dialogUasAcked (h : TmKeeps R) (d : Nat) : Op.Keeps (Sys.Keeps R) (dialogUasAcked d) := by
  refine .bind (getDialog d) fun dp => .bind (modDialog _ _) fun _ => ?_
  cases dp.invite_index with
  | none => exact .pure _
  | some index => exact .bind (.attempt (onTm (h.uasSendAt _ _ _))) fun _ => .pure _

theorem dialogEnd (h : TmKeeps R) (d : Nat) (cbp : Option UacCallbacks) :
    Op.Keeps (Sys.Keeps R) (dialogEnd d cbp) :=
  .bind (getDialog d) fun _ => .bind (.require _ _) fun _ =>
    .bind (onTm (h.newInDialogTransaction _)) fun _ =>
    .bind (modDialog _ _) fun _ => .bind (h.dialogUasAcked d) fun _ => .pure _

theorem dialogUasTimeout (h : TmKeeps R) (d : Nat) : Op.Keeps (Sys.Keeps R) (dialogUasTimeout d) :=
  .bind .get fun _ => .bind (getDialog d) fun _ => .ite (fun _ => .pure _) fun _ =>
    .bind (h.dialogUasAcked d) fun _ => .pure _

theorem dialogUasCtor (h : TmKeeps R) (invite_index : Nat) (rpp : UasResponseParams) :
    Op.Keeps (Sys.Keeps R) (dialogUasCtor invite_index rpp) :=
  .failWith (.bind (.require _ _) fun _ => .bind .get fun _ => .bind (.orElse _ _) fun _ =>
    .bind (keeps_onLocalHeap _ _) fun _ => .bind (onTm (h.sendUasResponse _ _)) fun _ => .bind .get fun _ =>
      .bind (onTm (h.uasSetOwner _ _)) fun _ => addDialog _) _

theorem dialogDtor (h : TmKeeps R) (d : Nat) : Op.Keeps (Sys.Keeps R) (dialogDtor d) := by
  refine .bind (getDialog d) fun dp => ?_
  cases dp.invite_index with
  | none => exact setDialog d fun _ => none
  | some index =>
    exact .bind (h.dialogUasAcked d) fun _ => .bind (.attempt (onTm (h.uasClearOwner _ _))) fun _ =>
      setDialog d fun _ => none

theorem dialogAcceptUasBye (h : TmKeeps R) (d tx_index : Nat) (msg : Msg) :
    Op.Keeps (Sys.Keeps R) (dialogAcceptUasBye d tx_index msg) :=
  .bind .get fun _ => .bind (getDialog d) fun _ => .bind (.require _ _) fun _ => .bind (.require _ _) fun _ =>
    .bind (.require _ _) fun _ => .bind (modDialog _ _) fun _ => h.dialogUasAcked d

end TmKeeps

/-! ## Steps -/

namespace World

theorem Stays.of_eq {w u : World} (h : u.tm = w.tm) : Stays R w (some u) := by
  intro v hv
  obtain rfl := Option.some.inj hv
  rw [h]
  exact Std.Refl.refl w.tm

theorem Stays.after {α : Type} {w : World} {x : SysM α} {k : Except TmError α → World → Option World}
    (hx : Op.Keeps (Sys.Keeps R) x) (hk : ∀ r s, Stays R { w with toSys := s } (k r { w with toSys := s })) :
    Stays R w (w.after x k) := by
  intro v hv
  rw [World.after] at hv
  cases hRun : x.run w.toSys with
  | none =>
    rw [hRun] at hv
    cases hv
  | some out =>
    rw [hRun] at hv
    exact IsTrans.trans _ _ _ (hx _ _ _ hRun) (hk out.1 out.2 v hv)

theorem Stays.answerIndex {w : World} {x : SysM Nat} (hx : Op.Keeps (Sys.Keeps R) x) :
    Stays R w (w.answerIndex x) := .after hx fun _ _ => .of_eq rfl

theorem Stays.answerUnit {w : World} {x : SysM Unit} (hx : Op.Keeps (Sys.Keeps R) x) :
    Stays R w (w.answerUnit x) := .after hx fun _ _ => .of_eq rfl

theorem stays_countTimeout {w : World} : Stays R w w.countTimeout := by
  rw [countTimeout]
  split
  · exact .of_eq rfl
  · exact .none

section

variable {w : World}

theorem stays_handleIncoming (h : TmKeeps R) {now : UInt64} {msg : Option Msg} :
    Stays R w (w.handleIncoming now msg) := by
  cases msg with
  | none => exact .of_eq rfl
  | some msg =>
    simp only [World.handleIncoming]
    split
    · exact .of_eq rfl
    · refine .after (TmKeeps.onTm (h.handleIncomingResponse _ _ _ _)) fun r s => ?_
      cases r with
      | error e => exact .of_eq rfl
      | ok a =>
        simp only
        split
        · exact .of_eq rfl
        · exact .after (TmKeeps.onTm (h.uacResponseDone _ _)) fun _ _ => .of_eq rfl
    · refine .after (TmKeeps.onTm (h.handleIncomingRequest _ _ _ _)) fun r s => ?_
      rcases r with e | _ | _ | _ | _ | _
      · exact .of_eq rfl
      · rename_i index owner
        cases owner with
        | none => exact .of_eq rfl
        | some d => exact .after (h.dialogUasAcked d) fun _ _ => .of_eq rfl
      · exact .of_eq rfl
      · simp only
        split
        · exact .of_eq rfl
        · exact .of_eq rfl
      · exact .of_eq rfl
      · exact .of_eq rfl

theorem stays_perform (h : TmKeeps R) {c : Call} : Stays R w (w.perform c) := by
  cases c with
  | newUacTr tpp => exact .answerIndex (TmKeeps.onTm (h.newUacTr _))
  | newUasTr tpp => exact .answerIndex (TmKeeps.onTm (h.newUasTr _))
  | newInDialogTransaction tpp => exact .answerIndex (TmKeeps.onTm (h.newInDialogTransaction _))
  | nextTransaction index payload ehp => exact .answerUnit (TmKeeps.onTm (h.nextTransaction _ _ _))
  | cancel index => exact .answerUnit (TmKeeps.onTm (h.cancel _))
  | sendUasResponse index rpp => exact .answerUnit (TmKeeps.onTm (h.sendUasResponse _ _))
  | uasCancelOk cancelp index => exact .answerUnit (TmKeeps.onTm (h.uasCancelOk _ _))
  | uasTrCancelled cancelp index rpp => exact .answerUnit (TmKeeps.onTm (h.uasTrCancelled _ _ _))
  | dropTransaction index => exact .answerUnit (TmKeeps.onTm (h.dropTransaction _))
  | setTimerPolicy index policy => exact .answerUnit (TmKeeps.onTm (h.setTimerPolicy _ _))
  | run now report => exact .of_eq rfl
  | handleIncoming now msg => exact stays_handleIncoming h
  | dialogUacCtor index msg =>
    exact .answerIndex (.failWith (.bind .get fun _ => .bind (keeps_onLocalHeap _ _) fun _ =>
      TmKeeps.addDialog _) _)
  | dialogUasCtor index rpp => exact .answerIndex (h.dialogUasCtor _ _)
  | dialogSetNoAckHandler d handler => exact .answerUnit (TmKeeps.modDialog _ _)
  | dialogDtor d => exact .answerUnit (h.dialogDtor d)
  | dialogAcceptUasBye d index msg => exact .answerUnit (h.dialogAcceptUasBye _ _ _)
  | dialogHandleUasTransaction d index msg =>
    exact .answerUnit (.bind (h.dialogAcceptUasBye _ _ _) fun _ => TmKeeps.onTm (h.sendUasResponse _ _))
  | dialogEnd d cbp => exact .answerIndex (h.dialogEnd _ _)

/-! ## A turn -/

theorem stays_uacTimeoutDone (h : TmKeeps R) {now : UInt64} {i index : Nat} {rest : TimeoutRest}
    {outp : Option RunOut} :
    Stays R w (w.uacTimeoutDone now i index rest outp) := by
  refine .after (TmKeeps.onTm (h.uacTimedOut _ _)) fun r s => ?_
  cases r with
  | error e => exact .of_eq rfl
  | ok u => exact .of_eq rfl

theorem stays_uacVisit (h : TmKeeps R) {now : UInt64} {i : Nat} {outp : Option RunOut} {rval : Int} :
    Stays R w (w.uacVisit now i outp rval) := by
  refine .after (TmKeeps.onTm (h.uacRun _ _)) fun r s => ?_
  rcases r with e | _ | _ | _ | _
  · exact .of_eq rfl
  · exact .of_eq rfl
  · simp only
    split
    · exact .of_eq rfl
    · exact stays_uacTimeoutDone h
  · exact .of_eq rfl
  · simp only
    split
    · exact .of_eq rfl
    · refine .congr (u := World.send i rval { w with toSys := s }) rfl
        (.after (TmKeeps.onTm (h.uacSent _ _)) fun r s => ?_)
      cases r with
      | error e => exact .of_eq rfl
      | ok bye => exact .of_eq rfl

theorem stays_dialogGiveUp (h : TmKeeps R) {d : Nat} {handler : Bool} :
    Stays R w (w.dialogGiveUp d handler countTimeout) := by
  refine .after (.attempt (h.dialogEnd d none)) fun r s => ?_
  split
  · exact .of_eq rfl
  · exact stays_countTimeout

theorem stays_dialogTimeout (h : TmKeeps R) {d : Nat} : Stays R w (w.dialogTimeout d) := by
  rw [World.dialogTimeout]
  split
  · exact .none
  · refine .after (h.dialogUasTimeout d) fun r s => ?_
    rcases r with e | _ | told
    · exact .of_eq rfl
    · exact .of_eq rfl
    · cases told with
      | true => exact .of_eq rfl
      | false => exact stays_dialogGiveUp h

theorem stays_uasVisit (h : TmKeeps R) {now : UInt64} {i : Nat} {outp : Option RunOut} {rval : Int} :
    Stays R w (w.uasVisit now i outp rval) := by
  refine .after (TmKeeps.onTm (h.uasRun _ _)) fun r s => ?_
  rcases r with e | ⟨timer, told, owner⟩ | _ | _
  · exact .of_eq rfl
  · cases timer with
    | H =>
      simp only
      split
      · exact .of_eq rfl
      · exact .congr rfl stays_countTimeout
    | L =>
      cases owner with
      | none => exact .of_eq rfl
      | some d => exact .congr rfl (stays_dialogTimeout h)
    | _ => exact .of_eq rfl
  · exact .of_eq rfl
  · simp only
    split
    · exact .of_eq rfl
    · refine .congr (u := World.send i rval { w with toSys := s }) rfl
        (.after (TmKeeps.onTm (h.uasSent _ _)) fun r s => ?_)
      cases r with
      | error e => exact .of_eq rfl
      | ok owner =>
        refine .after ?_ fun r s => ?_
        · cases owner with
          | none => exact .pure _
          | some d => exact h.dialogUasSent d now
        · simp only
          split
          · exact .none
          · exact .of_eq rfl

theorem stays_resume (h : TmKeeps R) {rval : Int} {f : Frame} : Stays R w (w.resume rval f) := by
  cases f with
  | run now i outp => exact .none
  | uacTimeout index rest born =>
    simp only [World.resume]
    split
    · exact .congr rfl (stays_uacTimeoutDone h)
    · exact .none
  | noAck => exact stays_countTimeout
  | dialogNoAck d handler =>
    simp only [World.resume]
    split
    · exact stays_countTimeout
    · exact stays_dialogGiveUp h
  | dialogHandler => exact stays_countTimeout
  | response index code born => exact .after (TmKeeps.onTm (h.uacResponseDone _ _)) fun _ _ => .of_eq rfl
  | uasCancel index => exact .of_eq rfl
  | incomingRequest tid => exact .of_eq rfl

/-- What every function of the manager keeps, every step keeps. -/
theorem step_stays (h : TmKeeps R) {v : World} {l : Label} (hStep : w.step l = some v) : R w.tm v.tm := by
  have hStays : Stays R w (w.step l) := by
    cases l with
    | call c =>
      simp only [World.step]
      split
      · exact stays_perform h
      · exact .none
    | turn rval =>
      simp only [World.step]
      split
      · refine .congr rfl ?_
        simp only [World.visit]
        split
        · exact .of_eq rfl
        · split
          · exact .of_eq rfl
          · split
            · exact stays_uacVisit h
            · exact stays_uasVisit h
      · exact .none
    | ret rval =>
      simp only [World.step]
      split
      · exact .none
      · exact .congr rfl (stays_resume h)
  exact hStays v hStep

end

end World

end Microsippy
