import Microsippy.RunReport
import Microsippy.TurnAsserts
import Microsippy.Owners
import Microsippy.Untouched

/-! # The assertions of a run

A run that is given a report or none, in a course whose steps meet no assertion but the one on the report.
-/

namespace Microsippy

set_option autoImplicit false

/-! ## Dialogs -/

/-- A dialog that was not destroyed. -/
def Sys.There (d : Nat) (s : Sys) : Prop := (s.dialogs d).isSome

theorem onTm_ne_none {α : Type} {x : TmM α} {s : Sys} (h : x.run s.tm ≠ none) : (onTm x).run s ≠ none :=
  Op.Defined.zoom (P := (· = s.tm)) (fun _ hIs => hIs ▸ h) _ _ s rfl

theorem total_onTm {α : Type} {x : TmM α} (hx : Op.Total x) : Op.Total (onTm x) := hx.zoom _ _

theorem total_uasSendAt (index owner : Nat) (at_ms : UInt64) : Op.Total (uasSendAt index owner at_ms) :=
  .bind .get fun _ => .bind (.require _ _) fun _ => total_onSlot fun _ => .modify _

theorem total_dialogHush (d : Nat) (invite_index : Option Nat) : Op.Total (dialogHush d invite_index) := by
  cases invite_index with
  | none => exact .pure _
  | some index => exact .bind (.attempt (total_onTm (total_uasSendAt _ _ _))) fun _ => .pure _

section

variable {d : Nat}

theorem there_onTm {α : Type} (x : TmM α) : Op.Keeps (Op.Implies (Sys.There d)) (onTm x) := by
  intro s r s' hRun hThere
  obtain ⟨tm, -, rfl⟩ := Op.zoom_some.mp hRun
  exact hThere

theorem there_getDialog : Op.Keeps (Op.Implies (Sys.There d)) (getDialog d) := .bind .get fun _ => .demand _

theorem there_modDialog (f : Dialog → Dialog) : Op.Keeps (Op.Implies (Sys.There d)) (modDialog d f) := by
  refine .bind there_getDialog fun dp => .modify fun s _ => ?_
  simp only [Sys.There, Sys.setDialog, if_true]
  rfl

theorem there_dialogHush (invite_index : Option Nat) :
    Op.Keeps (Op.Implies (Sys.There d)) (dialogHush d invite_index) := by
  cases invite_index with
  | none => exact .pure _
  | some index => exact .bind (.attempt (there_onTm _)) fun _ => .pure _

theorem there_dialogUasAcked : Op.Keeps (Op.Implies (Sys.There d)) (dialogUasAcked d) :=
  .bind there_getDialog fun _ => .bind (there_modDialog _) fun _ => there_dialogHush _

theorem there_dialogUasTimeout : Op.Keeps (Op.Implies (Sys.There d)) (dialogUasTimeout d) :=
  .bind .get fun _ => .bind there_getDialog fun _ => .ite (fun _ => .pure _) fun _ =>
    .bind there_dialogUasAcked fun _ => .pure _

theorem defined_getDialog : Op.Defined (Sys.There d) (getDialog d) :=
  .getBind fun _ hThere => .demand fun _ _ => hThere

theorem defined_modDialog (f : Dialog → Dialog) : Op.Defined (Sys.There d) (modDialog d f) :=
  .bind defined_getDialog there_getDialog fun _ => (Op.Total.modify _).defined

theorem defined_dialogUasAcked : Op.Defined (Sys.There d) (dialogUasAcked d) :=
  .bind defined_getDialog there_getDialog fun _ => .bind (defined_modDialog _) (there_modDialog _) fun _ =>
    (total_dialogHush _ _).defined

theorem defined_dialogUasTimeout : Op.Defined (Sys.There d) (dialogUasTimeout d) := by
  refine .getBind fun s hThere => .weaken (P := Sys.There d) ?_ fun _ hIs => hIs ▸ hThere
  refine .bind defined_getDialog there_getDialog fun _ =>
    .ite (fun _ => (Op.Total.pure _).defined) fun _ => ?_
  exact .bind defined_dialogUasAcked there_dialogUasAcked fun _ => (Op.Total.pure _).defined

/-- A dialog has all the parameters of its BYE. -/
theorem defined_dialogEnd (cbp : Option UacCallbacks) : Op.Defined (Sys.There d) (dialogEnd d cbp) := by
  refine .bind defined_getDialog there_getDialog fun dp => .bind (Op.Total.require _ _).defined (.require _ _)
    fun _ => .bind (Op.Total.defined (total_onTm ?_)) (there_onTm _) fun index => ?_
  · have hMethod : Method.ofByte? Method.BYE.cantype = some .BYE := rfl
    exact total_newInDialogTransaction rfl rfl hMethod (by decide)
  · exact .bind (defined_modDialog _) (there_modDialog _) fun _ =>
      .bind defined_dialogUasAcked there_dialogUasAcked fun _ => (Op.Total.pure _).defined

/-- The 2xx of an INVITE is sent for a dialog that names it. -/
theorem defined_dialogUasSent (now : UInt64) :
    Op.Defined (fun s => ∃ dp, s.dialogs d = some dp ∧ dp.invite_index.isSome) (dialogUasSent d now) := by
  rintro s ⟨dp, hThere, hNames⟩
  have hSome : Sys.There d s := by
    rw [Sys.There, hThere]
    rfl
  have hGet : (getDialog d).run s = some (.ok dp, s) := by
    rw [getDialog, Op.run_bind, Op.run_get, Op.andThen_ok, hThere, Op.run_demand_some]
  rw [dialogUasSent, Op.run_bind, hGet, Op.andThen_ok]
  refine Op.Defined.bind (P := Sys.There d) (.demand fun _ _ => hNames) (.demand _) (fun index => ?_) s hSome
  refine .ite (fun _ => (Op.Total.pure _).defined) fun _ => ?_
  refine .bind (total_onTm (total_uasSendAt _ _ _)).attempt.defined (.attempt (there_onTm _)) fun r => ?_
  cases r with
  | error e => exact (Op.Total.pure _).defined
  | ok u => exact defined_modDialog _

end

/-! ## The callbacks of a run -/

/-- A callback of `usipy_sip_tm_run`. -/
def Frame.ofRun : Frame → Bool
  | .uacTimeout _ _ _ | .noAck | .dialogNoAck _ _ | .dialogHandler => true
  | _ => false

def Frame.isRun : Frame → Bool
  | .run _ _ _ => true
  | _ => false

/-- A run goes on once the callback on top has returned. -/
def OnRun (stack : List Frame) : Prop := stack.head?.any Frame.isRun = true

theorem onRun_iff {stack : List Frame} :
    OnRun stack ↔ ∃ now i outp rest, stack = .run now i outp :: rest := by
  cases stack with
  | nil => simp [OnRun]
  | cons f rest => cases f <;> simp [OnRun, Frame.isRun]

/-- Every callback of a run lies on that run. -/
def Stacked : List Frame → Prop
  | [] => True
  | f :: stack => (f.ofRun = true → OnRun stack) ∧ Stacked stack

theorem Stacked.plain {f : Frame} {stack : List Frame} (h : Stacked stack) (hNot : f.ofRun = false) :
    Stacked (f :: stack) :=
  ⟨fun hOf => Bool.noConfusion (hOf.symm.trans hNot), h⟩

/-- Whatever comes of a step, its callbacks lie on their runs. -/
def Lays (x : Option World) : Prop := ∀ v, x = some v → Stacked v.stack

namespace World

variable {w : World}

theorem lays_some (h : Stacked w.stack) : Lays (some w) := by
  rintro v hv
  obtain rfl := Option.some.inj hv
  exact h

theorem lays_none : Lays none := fun _ hv => by cases hv

theorem lays_after {α : Type} {x : SysM α} {k : Except TmError α → World → Option World}
    (hk : ∀ r s, Lays (k r { w with toSys := s })) : Lays (w.after x k) := by
  intro v hv
  obtain ⟨r, s, -, hv⟩ := after_some hv
  exact hk r s v hv

theorem lays_countTimeout (h : Stacked w.stack) : Lays w.countTimeout := by
  intro v hv
  rw [World.countTimeout] at hv
  split at hv
  · rename_i now i outp stack hStack
    obtain rfl := Option.some.inj hv
    rw [hStack] at h
    exact h
  · cases hv

theorem lays_dialogGiveUp (h : Stacked w.stack) (hRun : OnRun w.stack) (d : Nat) (handler : Bool) :
    Lays (w.dialogGiveUp d handler countTimeout) := by
  refine lays_after fun r s => ?_
  cases handler with
  | true => exact lays_some ⟨fun _ => hRun, h⟩
  | false => exact lays_countTimeout (w := { w with toSys := s }) h

theorem lays_dialogTimeout (h : Stacked w.stack) (hRun : OnRun w.stack) (d : Nat) :
    Lays (w.dialogTimeout d) := by
  rw [World.dialogTimeout]
  split
  · exact lays_none
  · refine lays_after fun r s => ?_
    split
    · exact lays_some h
    · exact lays_some h
    · exact lays_some ⟨fun _ => hRun, h⟩
    · exact lays_dialogGiveUp (w := { w with toSys := s }) h hRun d _

theorem lays_next (h : Stacked w.stack) (now : UInt64) (i : Nat) (outp : Option RunOut) :
    Lays (w.next now i outp) :=
  lays_some (h.plain rfl)

theorem lays_uacTimeoutDone (h : Stacked w.stack) (now : UInt64) (i index : Nat) (rest : TimeoutRest)
    (outp : Option RunOut) : Lays (w.uacTimeoutDone now i index rest outp) := by
  refine lays_after fun r s => ?_
  cases r with
  | error e => exact lays_some h
  | ok u => exact lays_next (w := { w with toSys := s }) h _ _ _

theorem lays_uacVisit (h : Stacked w.stack) (now : UInt64) (i : Nat) (outp : Option RunOut) (rval : Int) :
    Lays (w.uacVisit now i outp rval) := by
  refine lays_after fun r s => ?_
  have hNext : ∀ o, Stacked (.run now (i + 1) o :: w.stack) := fun o => h.plain rfl
  cases r with
  | error e => exact lays_some h
  | ok turn =>
    cases turn with
    | «over» => exact lays_some (hNext _)
    | idle => exact lays_some (hNext _)
    | timeout rest told timeout_id =>
      cases told with
      | true => exact lays_some ⟨fun _ => rfl, hNext _⟩
      | false => exact lays_uacTimeoutDone (w := { w with toSys := s }) h _ _ _ _ _
    | send =>
      simp only
      split
      · exact lays_some h
      · refine lays_after fun r s => ?_
        cases r with
        | error e => exact lays_some h
        | ok bye => exact lays_some (hNext _)

theorem lays_uasVisit (h : Stacked w.stack) (now : UInt64) (i : Nat) (outp : Option RunOut) (rval : Int) :
    Lays (w.uasVisit now i outp rval) := by
  refine lays_after fun r s => ?_
  have hNext : ∀ o, Stacked (.run now (i + 1) o :: w.stack) := fun o => h.plain rfl
  simp only
  split
  · exact lays_some h
  · exact lays_some (hNext _)
  · split
    · exact lays_some ⟨fun _ => rfl, hNext _⟩
    · exact lays_countTimeout (w := ({ w with toSys := s } : World).push (.run now (i + 1) outp)) (hNext _)
  · exact lays_dialogTimeout (w := ({ w with toSys := s } : World).push
      (.run now (i + 1) outp)) (hNext _) rfl _
  · exact lays_some (hNext _)
  · split
    · exact lays_some h
    · refine lays_after fun r s => ?_
      cases r with
      | error e => exact lays_some h
      | ok owner =>
        refine lays_after fun r s => ?_
        simp only
        split
        · exact lays_none
        · exact lays_some (hNext _)

theorem lays_visit (h : Stacked w.stack) (now : UInt64) (i : Nat) (outp : Option RunOut) (rval : Int) :
    Lays (w.visit now i outp rval) := by
  rw [visit]
  split
  · exact lays_some h
  · split
    · exact lays_next h _ _ _
    · cases (w.tm.tx i).role with
      | UAC => exact lays_uacVisit h now i outp rval
      | UAS => exact lays_uasVisit h now i outp rval

theorem lays_resume {f : Frame} (h : Stacked w.stack) (hRun : f.ofRun = true → OnRun w.stack) (rval : Int) :
    Lays (w.resume rval f) := by
  cases f with
  | run now i outp => exact lays_none
  | uacTimeout index rest born =>
    rw [resume]
    split
    · rename_i now i outp stack hStack
      rw [hStack] at h
      exact lays_uacTimeoutDone (w := { w with stack }) h.2 _ _ _ _ _
    · exact lays_none
  | noAck => exact lays_countTimeout h
  | dialogNoAck d handler =>
    rw [resume]
    split
    · exact lays_countTimeout h
    · exact lays_dialogGiveUp h (hRun rfl) d handler
  | dialogHandler => exact lays_countTimeout h
  | response index code born => exact lays_after fun r s => lays_some h
  | uasCancel index => exact lays_some h
  | incomingRequest tid => exact lays_some h

theorem lays_handleIncoming (h : Stacked w.stack) (now : UInt64) (msg : Option Msg) :
    Lays (w.handleIncoming now msg) := by
  cases msg with
  | none => exact lays_some h
  | some msg =>
    rw [handleIncoming]
    split
    · exact lays_some h
    · refine lays_after fun r s => ?_
      simp only
      split
      · exact lays_some h
      · split
        · exact lays_some (h.plain rfl)
        · exact lays_after fun r s => lays_some h
    · refine lays_after fun r s => ?_
      simp only
      split
      · exact lays_some h
      · exact lays_some h
      · exact lays_after fun r s => lays_some h
      · exact lays_some h
      · split
        · exact lays_some (h.plain rfl)
        · exact lays_some h
      · exact lays_some h
      · exact lays_some (h.plain rfl)

theorem lays_perform (h : Stacked w.stack) (c : Call) : Lays (w.perform c) := by
  cases c with
  | run now report => exact lays_some (h.plain rfl)
  | handleIncoming now msg => exact lays_handleIncoming h now msg
  | _ => exact lays_after fun r s => lays_some h

theorem step_stacked {v : World} {l : Label} (h : Stacked w.stack) (hStep : w.step l = some v) :
    Stacked v.stack := by
  cases l with
  | call c =>
    rw [step] at hStep
    split at hStep
    · exact lays_perform h c v hStep
    · cases hStep
  | turn rval =>
    rw [step] at hStep
    split at hStep
    · rename_i now i outp stack hStack
      rw [hStack] at h
      exact lays_visit (w := { w with stack }) h.2 now i outp rval v hStep
    · cases hStep
  | ret rval =>
    rw [step] at hStep
    split at hStep
    · cases hStep
    · rename_i f stack hStack
      rw [hStack] at h
      exact lays_resume (w := { w with stack }) h.2 h.1 rval v hStep

theorem ReachableBy.stacked {ok : World → Label → Prop} (h : ReachableBy ok w) : Stacked w.stack := by
  obtain ⟨p, tm, -, hRun⟩ := h
  exact hRun.invariant (fun _ _ _ hInv _ hStep => step_stacked hInv hStep) trivial

end World

/-! ## Steps -/

namespace World

/-- A step that is open: a call of the application that violates no assertion of its own, the next turn of
a run, or the return of a callback. -/
inductive Offers (w : World) : Label → Prop
  | call (c : Call) (hTurn : w.appTurn = true) (hGoes : (w.perform c).isSome) : w.Offers (.call c)
  | turn (rval : Int) (now : UInt64) (i : Nat) (outp : Option RunOut) (stack : List Frame)
      (hStack : w.stack = .run now i outp :: stack) : w.Offers (.turn rval)
  | ret (rval : Int) (f : Frame) (stack : List Frame) (hStack : w.stack = f :: stack)
      (hOther : f.isRun = false) : w.Offers (.ret rval)

/-- The next turn of a run is one of a client transaction and violates an assertion of its own. -/
structure TurnAsserts (w : World) (now : UInt64) (i : Nat) (rval : Int) : Prop where
  inTable : i < w.tm.max_transactions
  active : (w.tm.tx i).active = true
  role : (w.tm.tx i).role = .UAC
  asserts : w.tm.UacAsserts now i rval

/-- A step of a run violates an assertion. -/
inductive Asserts (w : World) : Label → Prop
  | turn (now : UInt64) (i : Nat) (outp : Option RunOut) (stack : List Frame) (rval : Int)
      (hStack : w.stack = .run now i outp :: stack) (h : w.TurnAsserts now i rval) : w.Asserts (.turn rval)
  | unasked (now : UInt64) (i : Nat) (stack : List Frame) (rval : Int)
      (hStack : w.stack = .run now i none :: stack) (h : w.tm.ReportsUnasked now i rval) :
      w.Asserts (.turn rval)
  | destroyed (l : Label) (h : w.EndsDestroyed l) : w.Asserts l

variable {w : World}

theorem after_isSome {α : Type} {x : SysM α} {k : Except TmError α → World → Option World}
    (hx : x.run w.toSys ≠ none)
    (hk : ∀ r s, x.run w.toSys = some (r, s) → (k r { w with toSys := s }).isSome) :
    (w.after x k).isSome := by
  obtain ⟨out, hRun⟩ := Option.ne_none_iff_exists'.mp hx
  simp only [World.after, hRun]
  exact hk _ _ hRun

theorem countTimeout_isSome (hRun : OnRun w.stack) : w.countTimeout.isSome := by
  obtain ⟨now, i, outp, rest, hStack⟩ := onRun_iff.mp hRun
  rw [countTimeout, hStack]
  rfl

theorem uacTimeoutDone_isSome (hFit : w.tm.Fit) (now : UInt64) (i index : Nat) (rest : TimeoutRest)
    (outp : Option RunOut) : (w.uacTimeoutDone now i index rest outp).isSome := by
  refine after_isSome (onTm_ne_none (uacTimedOut_ne_none hFit rest)) fun r s _ => ?_
  cases r with
  | error e => rfl
  | ok u => rfl

theorem dialogGiveUp_isSome {d : Nat} (hThere : w.There d) (hRun : OnRun w.stack) (handler : Bool) :
    (w.dialogGiveUp d handler countTimeout).isSome := by
  refine after_isSome ((defined_dialogEnd none).attempt _ hThere) fun r s _ => ?_
  cases handler with
  | true => rfl
  | false => exact countTimeout_isSome (w := { w with toSys := s }) hRun

theorem dialogTimeout_isSome {d : Nat} (hThere : w.There d) (hRun : OnRun w.stack) :
    (w.dialogTimeout d).isSome := by
  obtain ⟨dp, hIs⟩ := Option.isSome_iff_exists.mp hThere
  simp only [dialogTimeout, hIs]
  refine after_isSome (defined_dialogUasTimeout _ hThere) fun r s hTimeout => ?_
  have hStill : Sys.There d s := there_dialogUasTimeout.holds hThere hTimeout
  split
  · rfl
  · rfl
  · rfl
  · exact dialogGiveUp_isSome (w := { w with toSys := s }) hStill hRun _

theorem uacVisit_isSome {now : UInt64} {i : Nat} {rval : Int} (hFit : w.tm.Fit)
    (hIn : i < w.tm.max_transactions) (hActive : (w.tm.tx i).active = true)
    (hRole : (w.tm.tx i).role = .UAC) (hNot : ¬ w.TurnAsserts now i rval) (outp : Option RunOut) :
    (w.uacVisit now i outp rval).isSome := by
  have hQuiet : ¬ w.tm.UacAsserts now i rval := fun h => hNot ⟨hIn, hActive, hRole, h⟩
  have hSpared : ¬ w.tm.UacStops now i := fun h => hQuiet (.stops h)
  refine after_isSome (onTm_ne_none (uacRun_ne_none hFit hActive hRole hSpared)) fun r s hTurn => ?_
  obtain ⟨tm, hRun, rfl⟩ := Op.zoom_some.mp hTurn
  have hThere : tm.Fit := (fit_uacRun i now).holds hFit hRun
  cases r with
  | error e => rfl
  | ok turn =>
    cases turn with
    | «over» => rfl
    | idle => rfl
    | timeout rest told timeout_id =>
      cases told with
      | true => rfl
      | false => exact uacTimeoutDone_isSome (w := { w with tm }) hThere _ _ _ _ _
    | send =>
      simp only
      split
      · rfl
      · rename_i hSent
        obtain rfl : rval = 0 := not_not.mp hSent
        refine after_isSome (onTm_ne_none (uacSent_ne_none hFit hActive hRole hQuiet hRun)) fun r s _ => ?_
        cases r with
        | error e => rfl
        | ok bye => rfl

theorem uasVisit_isSome {now : UInt64} {i : Nat} {outp : Option RunOut} {stack : List Frame} {rval : Int}
    (hFit : w.tm.Fit) (hHeld : w.toSys.Held) (hStack : w.stack = .run now i outp :: stack)
    (hIn : i < w.tm.max_transactions) (hActive : (w.tm.tx i).active = true) (hRole : (w.tm.tx i).role = .UAS)
    (hAsked : outp = none → ¬ w.tm.ReportsUnasked now i rval) :
    (uasVisit now i outp rval { w with stack }).isSome := by
  refine after_isSome (onTm_ne_none uasRun_ne_none) fun r s hTurn => ?_
  obtain ⟨tm, hRun, rfl⟩ := Op.zoom_some.mp hTurn
  have hThere : tm.Fit := (fit_uasRun i now).holds hFit hRun
  cases r with
  | error e => rfl
  | ok turn =>
    cases turn with
    | idle => rfl
    | timeout timer told owner =>
      cases timer with
      | H =>
        cases told with
        | true => rfl
        | false => rfl
      | L =>
        cases owner with
        | none => rfl
        | some d =>
          have hCalls : w.CallsOwner (.turn rval) i d := .timeout now rval outp stack told tm hStack rfl hRun
          exact dialogTimeout_isSome (w := ({ w with tm, stack } : World).push (.run now (i + 1) outp))
            (hHeld.there i d hCalls.owner) rfl
      | _ => rfl
    | send =>
      simp only
      split
      · rfl
      · rename_i hSent
        obtain rfl : rval = 0 := not_not.mp hSent
        have hOn : (tm.tx i).active = true := by
          obtain ⟨-, hIs, -⟩ | ⟨-, -, hIs, -⟩ | ⟨-, -, rfl⟩ := uasRun_turns hRun
          · cases hIs
          · cases hIs
          · rw [Tm.set_same]
            exact (Ctl.stays_startTimerL now _).active.trans hActive
        refine after_isSome (onTm_ne_none (uasSent_ne_none hThere hOn)) fun r s hSentRun => ?_
        obtain ⟨tm₂, hSentTm, rfl⟩ := Op.zoom_some.mp hSentRun
        cases r with
        | error e => rfl
        | ok owner =>
          refine after_isSome ?_ fun r s hTold => ?_
          · cases owner with
            | none => exact Option.some_ne_none _
            | some d =>
              have hCalls : w.CallsOwner (.turn 0) i d := .sent now outp stack tm tm₂ hStack rfl hRun hSentTm
              obtain ⟨dp, hIs, hNames⟩ := hHeld.names hCalls.owner
              exact defined_dialogUasSent now _ ⟨dp, hIs, by rw [hNames]; rfl⟩
          · simp only
            split
            · rename_i hNone
              obtain ⟨hUnasked, hFinal⟩ := uasSentReport_eq_none.mp hNone
              obtain ⟨hEarly, hLive, hSending, -⟩ := uasRun_send hRun
              have hEnd := reports_at_end hRun hSentTm rfl hTold
              exact absurd ⟨hIn, hActive, hRole, hEarly, hLive, hSending, rfl, hEnd.symm.trans hFinal⟩
                (hAsked (Option.map_eq_none_iff.mp hUnasked))
            · rfl

theorem visit_isSome {now : UInt64} {i : Nat} {outp : Option RunOut} {stack : List Frame} {rval : Int}
    (hFit : w.tm.Fit) (hHeld : w.toSys.Held) (hStack : w.stack = .run now i outp :: stack)
    (hNot : ¬ w.Asserts (.turn rval)) : (visit now i outp rval { w with stack }).isSome := by
  rw [visit]
  split
  · rfl
  · rename_i hIn
    have hIn : i < w.tm.max_transactions := Nat.lt_of_not_le hIn
    split
    · rfl
    · rename_i hOff
      have hActive : (w.tm.tx i).active = true := by
        rwa [Bool.not_eq_true, Bool.not_eq_false'] at hOff
      cases hRole : (w.tm.tx i).role with
      | UAC =>
        refine uacVisit_isSome (w := { w with stack }) hFit hIn hActive hRole (fun h => ?_) outp
        exact hNot (.turn now i outp stack rval hStack ⟨hIn, hActive, hRole, h.asserts⟩)
      | UAS =>
        refine uasVisit_isSome hFit hHeld hStack hIn hActive hRole fun hNone h => ?_
        exact hNot (.unasked now i stack rval (hNone ▸ hStack) h)

theorem resume_isSome {f : Frame} {stack : List Frame} {rval : Int} (hFit : w.tm.Fit)
    (hStack : w.stack = f :: stack) (hLies : Stacked w.stack) (hOther : f.isRun = false)
    (hNot : ¬ w.Asserts (.ret rval)) : (resume { w with stack } rval f).isSome := by
  rw [hStack] at hLies
  cases f with
  | run now i outp => cases hOther
  | uacTimeout index rest born =>
    obtain ⟨now, i, outp, below, rfl⟩ := onRun_iff.mp (hLies.1 rfl)
    exact uacTimeoutDone_isSome (w := { w with stack := below }) hFit now i index rest outp
  | noAck => exact countTimeout_isSome (w := { w with stack }) (hLies.1 rfl)
  | dialogNoAck d handler =>
    rw [resume]
    split
    · exact countTimeout_isSome (w := { w with stack }) (hLies.1 rfl)
    · rename_i hZero
      obtain rfl : rval = 0 := not_not.mp hZero
      refine dialogGiveUp_isSome (w := { w with stack }) ?_ (hLies.1 rfl) handler
      by_contra hGone
      exact hNot (.destroyed _ ⟨rfl, d, handler, stack, hStack, Option.not_isSome_iff_eq_none.mp hGone⟩)
  | dialogHandler => exact countTimeout_isSome (w := { w with stack }) (hLies.1 rfl)
  | response index code born =>
    have hDone := onTm_ne_none (s := w.toSys) (uacResponseDone_ne_none (i := index) hFit code)
    exact after_isSome (w := { w with stack }) hDone fun r s _ => rfl
  | uasCancel index => rfl
  | incomingRequest tid => rfl

/-- A step that is open is taken, unless a run violates an assertion in it. -/
theorem step_isSome {l : Label} (h : w.Reachable) (hOffers : w.Offers l) (hNot : ¬ w.Asserts l) :
    (w.step l).isSome := by
  have hFit : w.tm.Fit := ReachableBy.fit h
  cases hOffers with
  | call c hTurn hGoes =>
    rw [step, if_pos hTurn]
    exact hGoes
  | turn rval now i outp stack hStack =>
    simp only [step, hStack]
    exact visit_isSome hFit (ReachableBy.held h) hStack hNot
  | ret rval f stack hStack hOther =>
    simp only [step, hStack]
    exact resume_isSome hFit hStack (ReachableBy.stacked h) hOther hNot

/-! ## Courses -/

/-- Labels that are open one after the other, with no assertion violated by a run. -/
def Course : World → List Label → Prop
  | _, [] => True
  | w, l :: ls => w.Offers l ∧ ¬ w.Asserts l ∧ ∀ v, w.step l = some v → v.Course ls

theorem Course.exec_isSome {ls : List Label} (hCourse : w.Course ls) (h : w.Reachable) :
    (Transition.exec step w ls).isSome := by
  induction ls generalizing w with
  | nil => rfl
  | cons l ls ih =>
    obtain ⟨hOffers, hNot, hRest⟩ := hCourse
    obtain ⟨v, hStep⟩ := Option.isSome_iff_exists.mp (step_isSome h hOffers hNot)
    rw [Transition.exec, hStep, Option.bind_some]
    have hOne : Transition.Run step (fun _ _ => True) w v := .snoc .refl trivial hStep
    exact ih (hRest v hStep) (h.run hOne)

/-- A run with a report is at a server transaction, or past the table. -/
def serverTurns (w : World) : Label → Bool
  | .call (.run _ _) => w.appTurn
  | .turn _ =>
    match w.stack with
    | .run _ i (some _) :: _ => (w.tm.tx i).role == .UAS || decide (w.tm.max_transactions ≤ i)
    | _ => false
  | _ => false

theorem course_of_serverTurns {ls : List Label}
    (h : (Transition.execWhile step serverTurns w ls).isSome) : w.Course ls := by
  induction ls generalizing w with
  | nil => trivial
  | cons l ls ih =>
    rw [Transition.execWhile] at h
    split at h
    · rename_i hTest
      obtain ⟨u, hRest⟩ := Option.isSome_iff_exists.mp h
      obtain ⟨v, hStep, hGo⟩ := Option.bind_eq_some_iff.mp hRest
      refine ⟨?_, fun hAsserts => ?_, fun v' hStep' => ih ?_⟩
      · cases l with
        | call c =>
          cases c with
          | run now report => exact .call _ hTest rfl
          | _ => cases hTest
        | turn rval =>
          rw [serverTurns] at hTest
          split at hTest
          · exact .turn _ _ _ _ _ ‹_›
          · cases hTest
        | ret rval => cases hTest
      · cases hAsserts with
        | turn now i outp stack rval hStack hTurn =>
          cases outp with
          | none =>
            rw [serverTurns, hStack] at hTest
            cases hTest
          | some o =>
            rw [serverTurns, hStack, Bool.or_eq_true, beq_iff_eq, decide_eq_true_eq] at hTest
            cases hTest with
            | inl hServer => exact Role.noConfusion (hServer.symm.trans hTurn.role)
            | inr hPast => exact absurd hTurn.inTable (Nat.not_lt_of_le hPast)
        | unasked now i stack rval hStack hTurn =>
          rw [serverTurns, hStack] at hTest
          cases hTest
        | destroyed l hEnds =>
          obtain ⟨rfl, -⟩ := hEnds
          cases hTest
      · rw [Option.some.inj (hStep'.symm.trans hStep), hGo]
        rfl
    · cases h

end World

end Microsippy
