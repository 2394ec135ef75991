import Microsippy.World
import Microsippy.Tm.Moves
import Microsippy.DialogUris
import Mathlib.Data.List.Forall2

/-! # The report of a run

`usipy_sip_tm_run` is given a place for its report or none. Two courses of one run, with a report and
without, are compared step by step.
-/

namespace Microsippy

set_option autoImplicit false

/-- Whether a final response that was sent is reported by `usipy_sip_tm_uas_post_send_invite_final` or
`usipy_sip_tm_uas_post_send_final`, which assert that there is a report. -/
def Ctl.uasReportsFinal (method : Method) (c : Ctl) : Bool :=
  c.state != .ACCEPTED &&
    (c.uasIsInviteNon2xxFinal method || decide (200 ≤ c.last_status_code) && !c.reliable)

/-- A turn that sends such a response. -/
structure Tm.ReportsUnasked (now : UInt64) (i : Nat) (rval : Int) (tm : Tm) : Prop where
  inTable : i < tm.max_transactions
  active : (tm.tx i).active
  role : (tm.tx i).role = .UAS
  early : (tm.tx i).timerDue now = false
  live : (tm.tx i).state ≠ .TERMINATED
  sending : (tm.tx i).notSending now = false
  sent : rval = 0
  final : (tm.tx i).uasReportsFinal (tm.tx i).cache.method_type

/-- Frames that differ in the report of a run at most, the second with one where the first has. -/
inductive Frame.SameButReport : Frame → Frame → Prop
  | run (now : UInt64) (i : Nat) (outp outp' : Option RunOut) (h : outp' = none → outp = none) :
      SameButReport (.run now i outp) (.run now i outp')
  | refl (f : Frame) : SameButReport f f

/-- Events that differ in the report of a run at most. -/
inductive Event.SameButReport : Event → Event → Prop
  | run (outp outp' : Option RunOut) :
      SameButReport (.reply (.ok (.run outp))) (.reply (.ok (.run outp')))
  | refl (e : Event) : SameButReport e e

namespace World

/-- The same state after the same sends and callbacks. -/
structure SameButReport (w w' : World) : Prop where
  sys : w.toSys = w'.toSys
  stack : List.Forall₂ Frame.SameButReport w.stack w'.stack
  log : List.Forall₂ Event.SameButReport w.log w'.log

/-- What two courses come to: both stop, or both go on in the same state. -/
abbrev Agree : Option World → Option World → Prop := Option.Rel SameButReport

/-- A run without a report gets to a turn that needs one. -/
def Unasked : World → List Label → Prop
  | _, [] => False
  | w, l :: ls =>
    (∃ now i stack rval, w.stack = .run now i none :: stack ∧ l = .turn rval ∧
      w.tm.ReportsUnasked now i rval) ∨
    ∃ w', w.step l = some w' ∧ w'.Unasked ls

namespace SameButReport

theorem refl (w : World) : w.SameButReport w :=
  ⟨rfl, List.forall₂_same.mpr fun _ _ => .refl _, List.forall₂_same.mpr fun _ _ => .refl _⟩

variable {w w' : World}

theorem tm_eq (h : w.SameButReport w') : w.tm = w'.tm := congrArg Sys.tm h.sys

theorem withSys (h : w.SameButReport w') (s : Sys) :
    SameButReport { w with toSys := s } { w' with toSys := s } :=
  ⟨rfl, h.stack, h.log⟩

theorem push (h : w.SameButReport w') {f f' : Frame} (hf : f.SameButReport f') :
    (w.push f).SameButReport (w'.push f') :=
  ⟨h.sys, .cons hf h.stack, h.log⟩

theorem emit (h : w.SameButReport w') {e e' : Event} (he : e.SameButReport e') :
    (w.emit e).SameButReport (w'.emit e') :=
  ⟨h.sys, h.stack, List.rel_append h.log (.cons he .nil)⟩

theorem emitSame (h : w.SameButReport w') (e : Event) : (w.emit e).SameButReport (w'.emit e) :=
  h.emit (.refl e)

theorem pushSame (h : w.SameButReport w') (f : Frame) : (w.push f).SameButReport (w'.push f) :=
  h.push (.refl f)

theorem after {α : Type} (h : w.SameButReport w') {x : SysM α}
    {k k' : Except TmError α → World → Option World}
    (hk : ∀ r s, x.run w.toSys = some (r, s) →
      Agree (k r { w with toSys := s }) (k' r { w' with toSys := s })) :
    Agree (w.after x k) (w'.after x k') := by
  rw [World.after, World.after, ← h.sys]
  cases hx : x.run w.toSys with
  | none => exact .none
  | some out => exact hk _ _ hx

/-- What follows does not look at the report. -/
theorem afterSame {α : Type} (h : w.SameButReport w') {x : SysM α}
    {k : Except TmError α → World → Option World}
    (hk : ∀ r u u', SameButReport u u' → Agree (k r u) (k r u')) :
    Agree (w.after x k) (w'.after x k) :=
  h.after fun r s _ => hk r _ _ (h.withSys s)

theorem reply (h : w.SameButReport w') (r : Except TmError Answer) :
    Agree (w.reply r) (w'.reply r) :=
  .some (h.emitSame _)

theorem answerIndex (h : w.SameButReport w') (x : SysM Nat) :
    Agree (w.answerIndex x) (w'.answerIndex x) :=
  h.afterSame fun _ _ _ hu => hu.reply _

theorem answerUnit (h : w.SameButReport w') (x : SysM Unit) :
    Agree (w.answerUnit x) (w'.answerUnit x) :=
  h.afterSame fun _ _ _ hu => hu.reply _

/-! ## Incoming messages -/

theorem responseDone (h : w.SameButReport w') (index : Nat) (code : StatusCode) :
    Agree (w.responseDone index code) (w'.responseDone index code) :=
  h.afterSame fun _ _ _ hu => hu.reply _

theorem incomingResponse (h : w.SameButReport w') (now : UInt64) (msg : Msg) (code : StatusCode)
    (tid : Tid) : Agree (w.incomingResponse now msg code tid) (w'.incomingResponse now msg code tid) := by
  refine h.afterSame fun r u u' hu => ?_
  cases r with
  | error e => exact hu.reply _
  | ok a =>
    simp only
    rw [hu.tm_eq]
    split
    · exact .some ((hu.emitSame _).pushSame _)
    · exact hu.responseDone _ _

theorem incomingRequest (h : w.SameButReport w') (now : UInt64) (msg : Msg) (method : Method)
    (tid : Tid) :
    Agree (w.incomingRequest now msg method tid) (w'.incomingRequest now msg method tid) := by
  refine h.afterSame fun r u u' hu => ?_
  cases r with
  | error e => exact hu.reply _
  | ok a =>
    cases a with
    | ack2xx index owner =>
      cases owner with
      | none => exact hu.reply _
      | some d => exact hu.afterSame fun _ _ _ hv => hv.reply _
    | ack index => exact hu.reply _
    | cancel index told =>
      simp only
      rw [hu.tm_eq]
      split
      · exact .some ((hu.emitSame _).pushSame _)
      · exact hu.reply _
    | retransmit index => exact hu.reply _
    | new => exact .some ((hu.emitSame _).pushSame _)

theorem handleIncoming (h : w.SameButReport w') (now : UInt64) (msg : Option Msg) :
    Agree (w.handleIncoming now msg) (w'.handleIncoming now msg) := by
  cases msg with
  | none => exact h.reply _
  | some msg =>
    simp only [World.handleIncoming, h.tm_eq]
    split
    · exact h.reply _
    · exact h.incomingResponse _ _ _ _
    · exact h.incomingRequest _ _ _ _

theorem perform (h : w.SameButReport w') (c : Call) : Agree (w.perform c) (w'.perform c) := by
  cases c with
  | run now report => exact .some (h.pushSame _)
  | handleIncoming now msg => exact h.handleIncoming now msg
  | newUacTr | newUasTr | newInDialogTransaction | dialogUacCtor | dialogUasCtor | dialogEnd =>
    exact h.answerIndex _
  | _ => exact h.answerUnit _

/-! ## A turn -/

theorem mapped {o o' : Option RunOut} (ho : o' = none → o = none) (f : RunOut → RunOut) :
    o'.map f = none → o.map f = none := by
  rw [Option.map_eq_none_iff, Option.map_eq_none_iff]
  exact ho

theorem next (h : w.SameButReport w') (now : UInt64) (i : Nat) {o o' : Option RunOut}
    (ho : o' = none → o = none) : Agree (w.next now i o) (w'.next now i o') :=
  .some (h.push (.run _ _ _ _ ho))

theorem finish (h : w.SameButReport w') (r : Except TmError Unit) (o o' : Option RunOut) :
    Agree (w.finish r o) (w'.finish r o') := by
  refine .some (h.emit ?_)
  cases r with
  | error e => exact .refl _
  | ok u => exact .run _ _

theorem send (h : w.SameButReport w') (i : Nat) (rval : Int) :
    (w.send i rval).SameButReport (w'.send i rval) := by
  simp only [World.send, h.tm_eq]
  exact h.emitSame _

theorem uacTimeoutDone (h : w.SameButReport w') (now : UInt64) (i index : Nat) (rest : TimeoutRest)
    {o o' : Option RunOut} (ho : o' = none → o = none) :
    Agree (w.uacTimeoutDone now i index rest o) (w'.uacTimeoutDone now i index rest o') := by
  refine h.after fun r s _ => ?_
  cases r with
  | error e => exact (h.withSys s).finish _ _ _
  | ok u =>
    refine (h.withSys s).next _ _ ?_
    split
    · exact ho
    · exact mapped ho _

theorem uacVisit (h : w.SameButReport w') (now : UInt64) (i : Nat) {o o' : Option RunOut}
    (ho : o' = none → o = none) (rval : Int) :
    Agree (w.uacVisit now i o rval) (w'.uacVisit now i o' rval) := by
  refine h.after fun r s _ => ?_
  have hs := h.withSys s
  cases r with
  | error e => exact hs.finish _ _ _
  | ok turn =>
    cases turn with
    | «over» => exact hs.next _ _ ho
    | idle => exact hs.next _ _ (mapped ho _)
    | timeout rest told timeout_id =>
      have hCounted : ∀ f : RunOut → RunOut, (if rest = .expired then o'.map f else o') = none →
          (if rest = .expired then o.map f else o) = none := by
        intro f
        split
        · exact mapped ho f
        · exact ho
      simp only
      split
      · exact .some (((hs.emitSame _).push (.run _ _ _ _ (hCounted _))).pushSame _)
      · exact hs.uacTimeoutDone _ _ _ _ (hCounted _)
    | send =>
      simp only
      split
      · exact (hs.send i rval).finish _ _ _
      · refine (hs.send i rval).after fun r s' _ => ?_
        cases r with
        | error e => exact ((hs.send i rval).withSys s').finish _ _ _
        | ok bye => exact ((hs.send i rval).withSys s').next _ _ (mapped ho _)

theorem dialogGiveUp (h : w.SameButReport w') (d : Nat) (handler : Bool) {k : World → Option World}
    (hk : ∀ u u', SameButReport u u' → Agree (k u) (k u')) :
    Agree (w.dialogGiveUp d handler k) (w'.dialogGiveUp d handler k) := by
  refine h.afterSame fun r u u' hu => ?_
  cases handler with
  | true => exact .some ((hu.emitSame _).pushSame _)
  | false => exact hk _ _ hu

theorem countTimeout (h : w.SameButReport w') : Agree w.countTimeout w'.countTimeout := by
  rcases w with ⟨s, stack, log⟩
  rcases w' with ⟨s', stack', log'⟩
  obtain ⟨hSys, hStack, hLog⟩ := h
  cases hStack with
  | nil => exact .none
  | @cons f f' stack stack' hf hRest =>
    cases hf with
    | run now i o o' ho => exact .some ⟨hSys, .cons (.run _ _ _ _ (mapped ho _)) hRest, hLog⟩
    | refl =>
      cases f with
      | run now i o => exact .some ⟨hSys, .cons (.refl _) hRest, hLog⟩
      | _ => exact .none

theorem dialogTimeout (h : w.SameButReport w') (d : Nat) :
    Agree (w.dialogTimeout d) (w'.dialogTimeout d) := by
  simp only [World.dialogTimeout, h.sys]
  split
  · exact .none
  · refine h.afterSame fun r u u' hu => ?_
    rcases r with e | told
    · exact .some hu
    · rcases told with _ | told
      · exact .some hu
      · cases told with
        | true => exact .some ((hu.emitSame _).pushSame _)
        | false => exact hu.dialogGiveUp _ _ fun _ _ => countTimeout

end SameButReport

/-! ## The report of a final response -/

theorem uasSentReport_eq_none {method : Method} {c : Ctl} {o : Option RunOut} :
    uasSentReport method c o = none ↔ o = none ∧ c.uasReportsFinal method = true := by
  simp only [uasSentReport, Ctl.uasReportsFinal]
  split
  · rename_i hAccepted
    simp [hAccepted]
  · rename_i hOther
    split
    · rename_i hNon2xx
      simp [hOther, hNon2xx]
    · rename_i hNot
      split
      · rename_i hFinal
        simp [hOther, hNot, hFinal]
      · rename_i hQuiet
        simp [hOther, hNot]
        intro _ hLast
        simpa [hLast] using hQuiet

theorem uasSentReport_isNone {method : Method} {c : Ctl} {o p : Option RunOut}
    (h : uasSentReport method c o = some p) : p = none ↔ o = none := by
  simp only [uasSentReport] at h
  split at h
  · obtain rfl := Option.some.inj h
    exact Option.map_eq_none_iff
  · split at h
    · obtain ⟨q, rfl, rfl⟩ := Option.map_eq_some_iff.mp h
      exact iff_of_false (Option.some_ne_none _) (Option.some_ne_none _)
    · split at h
      · obtain ⟨q, rfl, rfl⟩ := Option.map_eq_some_iff.mp h
        exact iff_of_false (Option.some_ne_none _) (Option.some_ne_none _)
      · obtain rfl := Option.some.inj h
        exact Iff.rfl

theorem uasReportsFinal_startTimerL (method : Method) (now : UInt64) (c : Ctl) :
    (c.startTimerL now).uasReportsFinal method = c.uasReportsFinal method := by
  rw [Ctl.startTimerL]
  split <;> rfl

/-- What the sending of a response leaves of what its report depends on. -/
structure AnswersAlike (c c' : Ctl) : Prop where
  reliable : c'.reliable = c.reliable
  last_status_code : c'.last_status_code = c.last_status_code
  accepted : c'.state = .ACCEPTED ↔ c.state = .ACCEPTED

theorem AnswersAlike.reports {c c' : Ctl} (h : AnswersAlike c c') (method : Method) :
    c'.uasReportsFinal method = c.uasReportsFinal method := by
  have hState : (c'.state != .ACCEPTED) = (c.state != .ACCEPTED) := by
    rw [Bool.eq_iff_iff, bne_iff_ne, bne_iff_ne, Ne, Ne, h.accepted]
  simp only [Ctl.uasReportsFinal, Ctl.uasIsInviteNon2xxFinal, hState, h.reliable, h.last_status_code]

theorem answersAlike_postSendInviteFinal {p : TimerPolicy} {now : UInt64} {c c' : Ctl}
    (h : c.uasPostSendInviteFinal p now = some c') : AnswersAlike c c' := by
  simp only [Ctl.uasPostSendInviteFinal] at h
  split at h
  all_goals
    split at h
    · obtain rfl := Option.some.inj h
      exact ⟨rfl, rfl, Iff.rfl⟩
    · obtain ⟨ms, -, rfl⟩ := Option.map_eq_some_iff.mp h
      exact ⟨rfl, rfl, Iff.rfl⟩

theorem answersAlike_postSendFinal {p : TimerPolicy} {now : UInt64} {c c' : Ctl}
    (hOther : c.state ≠ .ACCEPTED) (h : c.uasPostSendFinal p now = some c') : AnswersAlike c c' := by
  rw [Ctl.uasPostSendFinal] at h
  split at h
  · obtain rfl := Option.some.inj h
    exact ⟨rfl, rfl, fun hIs => TxState.noConfusion hIs, fun hIs => absurd hIs hOther⟩
  · obtain ⟨ms, -, rfl⟩ := Option.map_eq_some_iff.mp h
    exact ⟨rfl, rfl, Iff.rfl⟩

theorem answersAlike_uasSent {p : TimerPolicy} {method : Method} {now : UInt64} {c c' : Ctl}
    (h : c.uasSent p method now = some c') : AnswersAlike c c' := by
  simp only [Ctl.uasSent] at h
  split at h
  · obtain rfl := Option.some.inj h
    exact ⟨rfl, rfl, Iff.rfl⟩
  · rename_i hOther
    split at h
    · obtain ⟨hReliable, hLast, hState⟩ := answersAlike_postSendInviteFinal h
      exact ⟨hReliable, hLast, hState⟩
    · split at h
      · obtain ⟨hReliable, hLast, hState⟩ := answersAlike_postSendFinal (by exact hOther) h
        exact ⟨hReliable, hLast, hState⟩
      · obtain rfl := Option.some.inj h
        exact ⟨rfl, rfl, Iff.rfl⟩

theorem uasSent_ok {i : Nat} {now : UInt64} {owner : Option Nat} {tm tm' : Tm}
    (h : (uasSent i now).run tm = some (.ok owner, tm')) :
    AnswersAlike (tm.tx i).toCtl (tm'.tx i).toCtl ∧ (tm'.tx i).cache = (tm.tx i).cache ∧
      owner = if (tm.tx i).state = .ACCEPTED then (tm.tx i).uas_owner else none := by
  obtain ⟨c, hNew, rfl, hOwner⟩ := uasSent_some h
  rw [Tm.set_same]
  exact ⟨answersAlike_uasSent hNew, rfl, Except.ok.inj hOwner⟩

/-- Every slot as it was, but for when it sends. -/
def Tm.Reschedules (tm tm' : Tm) : Prop :=
  ∀ j, ∃ at_ms, (tm'.tx j).toCtl = { (tm.tx j).toCtl with next_send_at_ms := at_ms }

instance : IsPreorder Tm Tm.Reschedules where
  refl tm j := ⟨(tm.tx j).next_send_at_ms, rfl⟩
  trans tm tm' tm'' h h' j := by
    obtain ⟨t, ht⟩ := h j
    obtain ⟨t', ht'⟩ := h' j
    exact ⟨t', by rw [ht', ht]⟩

def Sys.Reschedules (s s' : Sys) : Prop := Tm.Reschedules s.tm s'.tm

instance : IsPreorder Sys Sys.Reschedules where
  refl s := Std.Refl.refl (r := Tm.Reschedules) s.tm
  trans _ _ _ h h' := IsTrans.trans (r := Tm.Reschedules) _ _ _ h h'

theorem reschedules_uasSendAt (index owner : Nat) (at_ms : UInt64) :
    Op.Keeps Tm.Reschedules (uasSendAt index owner at_ms) := by
  refine .bind .get fun _ => .bind (.require _ _) fun _ => ?_
  intro tm r tm' hRun j
  obtain ⟨-, rfl⟩ := Prod.mk.inj (Option.some.inj hRun)
  by_cases hj : j = index
  · subst hj
    exact ⟨at_ms, by rw [Tm.set_same]⟩
  · exact ⟨(tm.tx j).next_send_at_ms, by rw [Tm.set_other _ _ hj]⟩

theorem reschedules_onTm {α : Type} {x : TmM α} (hx : Op.Keeps Tm.Reschedules x) :
    Op.Keeps Sys.Reschedules (onTm x) := by
  intro s r s' hRun
  obtain ⟨tm, hPart, rfl⟩ := Op.zoom_some.mp hRun
  exact hx _ _ _ hPart

theorem reschedules_dialogUasSent (d : Nat) (now : UInt64) :
    Op.Keeps Sys.Reschedules (dialogUasSent d now) := by
  refine .bind (.bind .get fun _ => .demand _) fun _ => .bind (.demand _) fun _ => .ite (fun _ => .pure _)
    fun _ => .bind (.attempt (reschedules_onTm (reschedules_uasSendAt _ _ _))) fun r => ?_
  cases r with
  | error e => exact .pure _
  | ok u => exact .bind (.bind .get fun _ => .demand _) fun _ => .modify fun s =>
      Std.Refl.refl (r := Tm.Reschedules) s.tm

/-- A turn that comes to a report: the transaction it leaves. -/
theorem reports_at_end {i : Nat} {now : UInt64} {owner : Option Nat} {tm tm₁ tm₂ : Tm} {s₃ : Sys}
    {s₂ : Sys} {r : Except TmError Unit} (hTurn : (uasRun i now).run tm = some (.ok .send, tm₁))
    (hSent : (uasSent i now).run tm₁ = some (.ok owner, tm₂)) (hs : s₂.tm = tm₂)
    (hTold : (match owner with
      | some d => dialogUasSent d now
      | none => (pure () : SysM Unit)).run s₂ = some (r, s₃)) :
    (s₃.tm.tx i).uasReportsFinal (s₃.tm.tx i).cache.method_type =
      (tm.tx i).uasReportsFinal (tm.tx i).cache.method_type := by
  obtain ⟨-, -, -, rfl⟩ := uasRun_send hTurn
  obtain ⟨hAlike, hCache, hOwner⟩ := uasSent_ok hSent
  rw [Tm.set_same] at hAlike hCache hOwner
  have hEnd : (tm₂.tx i).uasReportsFinal (tm₂.tx i).cache.method_type =
      (tm.tx i).uasReportsFinal (tm.tx i).cache.method_type := by
    rw [hAlike.reports, hCache]
    exact uasReportsFinal_startTimerL _ _ _
  cases hOwnerIs : owner with
  | none =>
    rw [hOwnerIs] at hTold
    obtain ⟨-, rfl⟩ := Prod.mk.inj (Option.some.inj hTold)
    rw [hs, hEnd]
  | some d =>
    rw [hOwnerIs] at hTold
    -- only an accepted INVITE's owner is told, and it reports nothing without a place for it
    have hAccepted : ((tm.tx i).startTimerL now).state = .ACCEPTED := by
      by_contra hOther
      rw [if_neg hOther] at hOwner
      rw [hOwner] at hOwnerIs
      cases hOwnerIs
    obtain ⟨at_ms, hIs⟩ := reschedules_dialogUasSent d now _ _ _ hTold i
    have hState : (s₃.tm.tx i).state = (tm₂.tx i).state := by rw [hIs, hs]
    have hLast : (s₃.tm.tx i).state = .ACCEPTED := hState.trans (hAlike.accepted.mpr hAccepted)
    rw [← hEnd, Ctl.uasReportsFinal, Ctl.uasReportsFinal, hLast, hAlike.accepted.mpr hAccepted]
    rfl

namespace SameButReport

variable {w w' : World}

theorem uasVisit (h : w.SameButReport w') {now : UInt64} {i : Nat} {o o' : Option RunOut} {rval : Int}
    (ho : o' = none → o = none) (hIn : i < w.tm.max_transactions) (hActive : (w.tm.tx i).active)
    (hRole : (w.tm.tx i).role = .UAS) (hAsked : (o = none ↔ o' = none) ∨ ¬ w.tm.ReportsUnasked now i rval) :
    Agree (w.uasVisit now i o rval) (w'.uasVisit now i o' rval) := by
  refine h.after fun r s hTurn => ?_
  have hs := h.withSys s
  cases r with
  | error e => exact hs.finish _ _ _
  | ok turn =>
    cases turn with
    | idle => exact hs.next _ _ (mapped ho _)
    | timeout timer told owner =>
      have hNext := hs.push (.run now (i + 1) o o' ho)
      cases timer with
      | H =>
        simp only
        split
        · exact .some ((hNext.emitSame _).pushSame _)
        · exact hNext.countTimeout
      | L =>
        cases owner with
        | none => exact hs.next _ _ ho
        | some d => exact hNext.dialogTimeout d
      | _ => exact hs.next _ _ ho
    | send =>
      have hTm := (Op.zoom_ok.mp hTurn)
      obtain ⟨tm₁, hRun, rfl⟩ := hTm
      simp only
      split
      · exact (hs.send i rval).finish _ _ _
      · rename_i hZero
        refine (hs.send i rval).after fun r s₂ hSent => ?_
        have hs₂ := (hs.send i rval).withSys s₂
        cases r with
        | error e => exact hs₂.finish _ _ _
        | ok owner =>
          obtain ⟨tm₂, hSentRun, rfl⟩ := Op.zoom_ok.mp hSent
          refine hs₂.after fun r s₃ hTold => ?_
          have hs₃ := hs₂.withSys s₃
          have hEnd := reports_at_end hRun hSentRun rfl hTold
          obtain ⟨hEarly, hLive, hSending, -⟩ := uasRun_send hRun
          have hSame : ∀ f : RunOut → RunOut,
              (uasSentReport (s₃.tm.tx i).cache.method_type (s₃.tm.tx i).toCtl (o.map f) = none ↔
                uasSentReport (s₃.tm.tx i).cache.method_type (s₃.tm.tx i).toCtl (o'.map f) = none) := by
            intro f
            rw [uasSentReport_eq_none, uasSentReport_eq_none, hEnd, Option.map_eq_none_iff,
              Option.map_eq_none_iff]
            rcases hAsked with hBoth | hQuiet
            · rw [hBoth]
            · refine and_congr_left fun hFinal => ?_
              exact absurd ⟨hIn, hActive, hRole, hEarly, hLive, hSending, not_not.mp hZero, hFinal⟩ hQuiet
          simp only
          split
          · rename_i hNone
            rw [(hSame _).mp hNone]
            exact .none
          · rename_i outp hSome
            cases hOther : uasSentReport (s₃.tm.tx i).cache.method_type (s₃.tm.tx i).toCtl
                (o'.map fun o => { o with nsent := o.nsent + 1 }) with
            | none =>
              rw [(hSame _).mpr hOther] at hSome
              cases hSome
            | some outp' =>
              refine hs₃.next _ _ fun hNone => ?_
              rw [uasSentReport_isNone hOther] at hNone
              exact (uasSentReport_isNone hSome).mpr (mapped ho _ hNone)

end SameButReport

/-- The sending of a response has no error to return. -/
theorem uasSent_not_error {i : Nat} {now : UInt64} {e : TmError} {tm tm' : Tm} :
    (uasSent i now).run tm ≠ some (.error e, tm') := by
  intro h
  obtain ⟨c, -, -, hr⟩ := uasSent_some h
  cases hr

/-- Without a place for its report such a turn fails the assertion. -/
theorem uasVisit_unasked {w : World} {now : UInt64} {i : Nat} {rval : Int}
    (h : w.tm.ReportsUnasked now i rval) : w.uasVisit now i none rval = none := by
  obtain ⟨-, -, -, hEarly, hLive, hSending, rfl, hFinal⟩ := h
  have hRun := uasRun_of_sending hEarly hLive hSending
  have hTurn : (onTm (uasRun i now)).run w.toSys = some (.ok .send, { w.toSys with
      tm := w.tm.set i { w.tm.tx i with toCtl := (w.tm.tx i).startTimerL now } }) :=
    Op.zoom_ok.mpr ⟨_, hRun, rfl⟩
  simp only [uasVisit, after, hTurn, ne_eq, not_true, if_false]
  split
  · rfl
  · rename_i r s₂ hSent
    cases r with
    | error e =>
      obtain ⟨tm₂, hSentRun, -⟩ := Op.zoom_some.mp hSent
      exact absurd hSentRun uasSent_not_error
    | ok owner =>
      obtain ⟨tm₂, hSentRun, rfl⟩ := Op.zoom_ok.mp hSent
      simp only
      split
      · rfl
      · rename_i r s₃ hTold
        have hEnd := reports_at_end hRun hSentRun rfl hTold
        have hNone : uasSentReport (s₃.tm.tx i).cache.method_type (s₃.tm.tx i).toCtl none = none :=
          uasSentReport_eq_none.mpr ⟨rfl, hEnd.trans hFinal⟩
        simp only [Option.map_none, hNone]

namespace SameButReport

variable {w w' : World}

theorem visit (h : w.SameButReport w') {now : UInt64} {i : Nat} {o o' : Option RunOut} {rval : Int}
    (ho : o' = none → o = none) (hAsked : (o = none ↔ o' = none) ∨ ¬ w.tm.ReportsUnasked now i rval) :
    Agree (w.visit now i o rval) (w'.visit now i o' rval) := by
  simp only [World.visit, ← h.tm_eq]
  split
  · exact h.finish _ _ _
  · rename_i hIn
    split
    · exact h.next _ _ ho
    · rename_i hActive
      rw [Bool.not_eq_true, Bool.not_eq_false'] at hActive
      cases hRole : (w.tm.tx i).role with
      | UAC => exact h.uacVisit _ _ ho _
      | UAS => exact h.uasVisit ho (Nat.lt_of_not_le hIn) hActive hRole hAsked

theorem resume (h : w.SameButReport w') (rval : Int) {f f' : Frame} (hf : f.SameButReport f') :
    Agree (w.resume rval f) (w'.resume rval f') := by
  cases hf with
  | run now i o o' _ => exact .none
  | refl =>
    cases f with
    | run now i o => exact .none
    | uacTimeout index rest born =>
      rcases w with ⟨s, stack, log⟩
      rcases w' with ⟨s', stack', log'⟩
      obtain ⟨hSys, hStack, hLog⟩ := h
      cases hStack with
      | nil => exact .none
      | @cons f f' stack stack' hf hRest =>
        have hSame : SameButReport ⟨s, stack, log⟩ ⟨s', stack', log'⟩ := ⟨hSys, hRest, hLog⟩
        cases hf with
        | run now i o o' ho => exact hSame.uacTimeoutDone _ _ _ _ ho
        | refl =>
          cases f with
          | run now i o => exact hSame.uacTimeoutDone _ _ _ _ id
          | _ => exact .none
    | noAck => exact h.countTimeout
    | dialogNoAck d handler =>
      simp only [World.resume]
      split
      · exact h.countTimeout
      · exact h.dialogGiveUp _ _ fun _ _ => countTimeout
    | dialogHandler => exact h.countTimeout
    | response index code born => exact h.responseDone _ _
    | uasCancel index => exact h.reply _
    | incomingRequest tid =>
      simp only [World.resume, World.requestDone, h.tm_eq]
      exact h.reply _

theorem appTurn_eq (h : w.SameButReport w') : w.appTurn = w'.appTurn := by
  rcases w with ⟨s, stack, log⟩
  rcases w' with ⟨s', stack', log'⟩
  obtain ⟨-, hStack, -⟩ := h
  cases hStack with
  | nil => rfl
  | @cons f f' stack stack' hf _ =>
    cases hf with
    | run now i o o' _ => rfl
    | refl => cases f <;> rfl

/-- A step of two courses, unless it is a turn that needs a report and has none. -/
theorem step (h : w.SameButReport w') {l : Label}
    (hAsked : ∀ now i stack rval, w.stack = .run now i none :: stack → l = .turn rval →
      ¬ w.tm.ReportsUnasked now i rval) :
    Agree (w.step l) (w'.step l) := by
  cases l with
  | call c =>
    simp only [World.step, ← h.appTurn_eq]
    split
    · exact h.perform c
    · exact .none
  | turn rval =>
    rcases w with ⟨s, stack, log⟩
    rcases w' with ⟨s', stack', log'⟩
    obtain ⟨hSys, hStack, hLog⟩ := h
    cases hStack with
    | nil => exact .none
    | @cons f f' stack stack' hf hRest =>
      have hSame : SameButReport ⟨s, stack, log⟩ ⟨s', stack', log'⟩ := ⟨hSys, hRest, hLog⟩
      cases hf with
      | run now i o o' ho =>
        refine hSame.visit ho ?_
        cases o with
        | none => exact Or.inr (hAsked _ _ _ _ rfl rfl)
        | some p =>
          exact Or.inl (iff_of_false (Option.some_ne_none _) fun hNone => Option.some_ne_none _ (ho hNone))
      | refl =>
        cases f with
        | run now i o => exact hSame.visit id (Or.inl Iff.rfl)
        | _ => exact .none
  | ret rval =>
    rcases w with ⟨s, stack, log⟩
    rcases w' with ⟨s', stack', log'⟩
    obtain ⟨hSys, hStack, hLog⟩ := h
    cases hStack with
    | nil => exact .none
    | @cons f f' stack stack' hf hRest =>
      have hSame : SameButReport ⟨s, stack, log⟩ ⟨s', stack', log'⟩ := ⟨hSys, hRest, hLog⟩
      exact hSame.resume rval hf

end SameButReport

/-! ## A course -/

theorem step_unasked {w : World} {now : UInt64} {i : Nat} {stack : List Frame} {rval : Int}
    (hStack : w.stack = .run now i none :: stack) (h : w.tm.ReportsUnasked now i rval) :
    w.step (.turn rval) = none := by
  simp only [step, hStack, visit, if_neg (Nat.not_le_of_lt h.inTable), h.active, h.role]
  exact uasVisit_unasked h

/-- The course without a report goes where the one with a report goes, up to a turn that needs it. -/
theorem exec_without {w w' u' : World} {ls : List Label} (h : w.SameButReport w')
    (hExec : Transition.exec step w' ls = some u') (hQuiet : ¬ w.Unasked ls) :
    ∃ u, Transition.exec step w ls = some u ∧ u.SameButReport u' := by
  induction ls generalizing w w' with
  | nil =>
    obtain rfl := Option.some.inj hExec
    exact ⟨w, rfl, h⟩
  | cons l ls ih =>
    obtain ⟨t', hStep', hRest⟩ := Option.bind_eq_some_iff.mp hExec
    have hAgree := h.step (l := l) fun now i stack rval hStack hTurn hNeeds =>
      hQuiet (Or.inl ⟨now, i, stack, rval, hStack, hTurn, hNeeds⟩)
    rw [hStep'] at hAgree
    cases hStep : w.step l with
    | none =>
      rw [hStep] at hAgree
      cases hAgree
    | some t =>
      rw [hStep] at hAgree
      cases hAgree with
      | some ht =>
        obtain ⟨u, hGo, hu⟩ := ih ht hRest fun hLater => hQuiet (Or.inr ⟨t, hStep, hLater⟩)
        exact ⟨u, by rw [Transition.exec, hStep]; exact hGo, hu⟩

theorem not_unasked_of_exec {w u : World} {ls : List Label}
    (hExec : Transition.exec step w ls = some u) : ¬ w.Unasked ls := by
  induction ls generalizing w with
  | nil => exact id
  | cons l ls ih =>
    obtain ⟨t, hStep, hRest⟩ := Option.bind_eq_some_iff.mp hExec
    rintro (⟨now, i, stack, rval, hStack, rfl, hNeeds⟩ | ⟨t', hStep', hLater⟩)
    · rw [step_unasked hStack hNeeds] at hStep
      cases hStep
    · obtain rfl := Option.some.inj (hStep.symm.trans hStep')
      exact ih hRest hLater

/-- Wherever the course without a report goes, the one with a report goes too. -/
theorem exec_with {w w' u : World} {ls : List Label} (h : w.SameButReport w')
    (hExec : Transition.exec step w ls = some u) :
    ∃ u', Transition.exec step w' ls = some u' ∧ u.SameButReport u' := by
  induction ls generalizing w w' with
  | nil =>
    obtain rfl := Option.some.inj hExec
    exact ⟨w', rfl, h⟩
  | cons l ls ih =>
    obtain ⟨t, hStep, hRest⟩ := Option.bind_eq_some_iff.mp hExec
    have hAgree := h.step (l := l) fun now i stack rval hStack hTurn hNeeds =>
      not_unasked_of_exec hExec (Or.inl ⟨now, i, stack, rval, hStack, hTurn, hNeeds⟩)
    rw [hStep] at hAgree
    cases hStep' : w'.step l with
    | none =>
      rw [hStep'] at hAgree
      cases hAgree
    | some t' =>
      rw [hStep'] at hAgree
      cases hAgree with
      | some ht =>
        obtain ⟨u', hGo, hu⟩ := ih ht hRest
        exact ⟨u', by rw [Transition.exec, hStep']; exact hGo, hu⟩

/-- A course of a run with a report is one of the run without, as long as it has no final response to
report that is reported unasked, and every course of the run without is one of the run with a report. -/
theorem report_courses (w : World) (now : UInt64) (ls : List Label) :
    (∀ u', Transition.exec step w (.call (.run now true) :: ls) = some u' →
      ((∃ u, Transition.exec step w (.call (.run now false) :: ls) = some u ∧ u.SameButReport u') ↔
        ¬ w.Unasked (.call (.run now false) :: ls))) ∧
    ∀ u, Transition.exec step w (.call (.run now false) :: ls) = some u →
      ∃ u', Transition.exec step w (.call (.run now true) :: ls) = some u' ∧ u.SameButReport u' := by
  have hStart : ∀ report t, w.step (.call (.run now report)) = some t →
      t = w.push (.run now 0 (if report then some {} else none)) ∧ w.appTurn = true := by
    intro report t hStep
    rw [step] at hStep
    split at hStep
    · rename_i hTurn
      exact ⟨(Option.some.inj hStep).symm, hTurn⟩
    · cases hStep
  have hSame : (w.push (.run now 0 none)).SameButReport (w.push (.run now 0 (some {}))) :=
    (SameButReport.refl w).push (.run _ _ _ _ fun hNone => by cases hNone)
  constructor
  · intro u' hExec
    obtain ⟨t', hStep', hRest⟩ := Option.bind_eq_some_iff.mp hExec
    obtain ⟨rfl, hTurn⟩ := hStart _ _ hStep'
    have hStep : w.step (.call (.run now false)) = some (w.push (.run now 0 none)) := by
      rw [step, if_pos hTurn]
      rfl
    constructor
    · rintro ⟨u, hSilent, -⟩
      exact not_unasked_of_exec hSilent
    · intro hQuiet
      obtain ⟨u, hGo, hu⟩ := exec_without hSame hRest fun hLater => hQuiet (Or.inr ⟨_, hStep, hLater⟩)
      exact ⟨u, by rw [Transition.exec, hStep]; exact hGo, hu⟩
  · intro u hExec
    obtain ⟨t, hStep, hRest⟩ := Option.bind_eq_some_iff.mp hExec
    obtain ⟨rfl, hTurn⟩ := hStart _ _ hStep
    obtain ⟨u', hGo, hu⟩ := exec_with hSame hRest
    have hStep' : w.step (.call (.run now true)) = some (w.push (.run now 0 (some {}))) := by
      rw [step, if_pos hTurn]
      rfl
    exact ⟨u', by rw [Transition.exec, hStep']; exact hGo, hu⟩

end World

/-- An OPTIONS request answered with a 200. -/
def answeredOptions : List Label :=
  [.call (.newUasTr (receivedFrom (optionsTo "<sip:b@h>"))),
    .call (.sendUasResponse 0 { status := resOk })]

end Microsippy
