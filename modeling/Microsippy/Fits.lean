import Microsippy.Fit
import Microsippy.StepKeeps

/-! # What every step leaves fit

The functions of the manager on a table of fit slots.
-/

namespace Microsippy

set_option autoImplicit false

variable {filling : Prop}

/-! ## Control parts -/

namespace Ctl

variable {p : TimerPolicy} {now : UInt64} {c c' : Ctl}

theorem stays_onInvite (f : UacInvite → UacInvite) (c : Ctl) : c.Stays (c.onInvite f) :=
  ⟨⟨rfl, rfl, rfl, rfl, Option.isSome_map⟩, rfl⟩

theorem stays_markTerminated (c : Ctl) : c.Stays c.markTerminated := ⟨⟨rfl, rfl, rfl, rfl, rfl⟩, rfl⟩

theorem stays_clearInviteTimeout (c : Ctl) : c.Stays c.clearInviteTimeout := stays_onInvite _ c

theorem stays_abandon (c : Ctl) : c.Stays c.abandon := by
  have hFirst : c.Stays { c with callbacks := {}, abandoned := true } := ⟨⟨rfl, rfl, rfl, rfl, rfl⟩, rfl⟩
  exact IsTrans.trans _ _ _ hFirst (stays_clearInviteTimeout _)

theorem stays_armCleanup (h : c.armCleanup p now = some c') : c.Stays c' := by
  rw [armCleanup] at h
  split at h
  · obtain ⟨ms, -, rfl⟩ := Option.map_eq_some_iff.mp h
    exact stays_onInvite _ c
  · obtain rfl := Option.some.inj h
    exact Std.Refl.refl _

theorem stays_scheduleResend {done : Bool} (h : c.scheduleResend p now done = some c') : c.Stays c' := by
  rw [scheduleResend] at h
  split at h
  · obtain rfl := Option.some.inj h
    exact ⟨⟨rfl, rfl, rfl, rfl, rfl⟩, rfl⟩
  · obtain ⟨ms, -, rfl⟩ := Option.map_eq_some_iff.mp h
    exact ⟨⟨rfl, rfl, rfl, rfl, rfl⟩, rfl⟩

theorem stays_postSendInvite (h : c.postSendInvite p now = some c') : c.Stays c' := by
  rw [postSendInvite] at h
  split at h
  · obtain rfl := Option.some.inj h
    exact ⟨⟨rfl, rfl, rfl, rfl, rfl⟩, rfl⟩
  · simp only [Option.bind_eq_bind, Option.bind_eq_some_iff] at h
    obtain ⟨iv, hIs, iv', -, h⟩ := h
    have hFirst : c.Stays { c with invite := some iv' } :=
      ⟨⟨rfl, rfl, rfl, rfl, by rw [hIs]; rfl⟩, rfl⟩
    exact IsTrans.trans _ _ _ hFirst (stays_scheduleResend h)

theorem stays_postSendNoninvite (h : c.postSendNoninvite p now = some c') : c.Stays c' := by
  simp only [postSendNoninvite, Option.bind_eq_bind] at h
  split at h
  · obtain ⟨c₁, hFirst, h⟩ := Option.bind_eq_some_iff.mp h
    obtain ⟨ms, -, rfl⟩ := Option.map_eq_some_iff.mp hFirst
    have hArmed : c.Stays (c.arm .F ms now) := ⟨⟨rfl, rfl, rfl, rfl, rfl⟩, rfl⟩
    exact IsTrans.trans _ _ _ hArmed (stays_scheduleResend h)
  · exact stays_scheduleResend h

theorem stays_uacSent (h : c.uacSent p now = some c') : c.Stays c' := by
  have hNoted : c.Stays (c.noteSend now) := ⟨⟨rfl, rfl, rfl, rfl, rfl⟩, rfl⟩
  refine IsTrans.trans _ _ _ hNoted ?_
  simp only [uacSent] at h
  split at h
  · obtain rfl := Option.some.inj h
    exact ⟨⟨rfl, rfl, rfl, rfl, rfl⟩, rfl⟩
  · split at h
    · exact stays_postSendInvite h
    · exact stays_postSendNoninvite h

theorem stays_responded (now : UInt64) (code : Nat) (c : Ctl) : c.Stays (c.responded now code) :=
  ⟨⟨rfl, rfl, rfl, rfl, rfl⟩, rfl⟩

theorem stays_inviteFinal {sclass : Nat} (h : c.inviteFinal p now sclass = some c') : c.Stays c' := by
  have hCleared := stays_clearInviteTimeout c
  simp only [inviteFinal] at h
  split at h
  · obtain ⟨ms, -, rfl⟩ := Option.map_eq_some_iff.mp h
    exact ⟨⟨rfl, rfl, rfl, rfl, hCleared.invite⟩, rfl⟩
  · obtain rfl := Option.some.inj h
    exact ⟨⟨rfl, rfl, rfl, rfl, hCleared.invite⟩, rfl⟩

theorem stays_noninviteFinal (h : c.noninviteFinal p now = some c') : c.Stays c' := by
  obtain ⟨ms, -, rfl⟩ := Option.map_eq_some_iff.mp h
  exact ⟨⟨rfl, rfl, rfl, rfl, (stays_clearInviteTimeout c).invite⟩, rfl⟩

theorem stays_provisional (invite_expires : UInt32) (c : Ctl) : c.Stays (c.provisional invite_expires) := by
  have hFirst : c.Stays { c with state := .PROCEEDING } := ⟨⟨rfl, rfl, rfl, rfl, rfl⟩, rfl⟩
  exact IsTrans.trans _ _ _ hFirst (stays_onInvite _ _)

theorem stays_uasAnswered {method : Method} {code : Nat} {no_ack : Bool}
    (h : c.uasAnswered p method code no_ack = some c') : c.Stays c' := by
  simp only [uasAnswered] at h
  split at h
  · obtain rfl := Option.some.inj h
    exact ⟨⟨rfl, rfl, rfl, rfl, rfl⟩, rfl⟩
  · split at h
    · obtain ⟨ms, -, rfl⟩ := Option.map_eq_some_iff.mp h
      exact ⟨⟨rfl, rfl, rfl, rfl, rfl⟩, rfl⟩
    · split at h
      · obtain ⟨ms, -, rfl⟩ := Option.map_eq_some_iff.mp h
        exact ⟨⟨rfl, rfl, rfl, rfl, rfl⟩, rfl⟩
      · obtain rfl := Option.some.inj h
        exact ⟨⟨rfl, rfl, rfl, rfl, rfl⟩, rfl⟩

theorem stays_uasHandleAck (h : c.uasHandleAck p now = some c') : c.Stays c' := by
  simp only [uasHandleAck] at h
  split at h
  · obtain rfl := Option.some.inj h
    exact ⟨⟨rfl, rfl, rfl, rfl, rfl⟩, rfl⟩
  · obtain ⟨ms, -, rfl⟩ := Option.map_eq_some_iff.mp h
    exact ⟨⟨rfl, rfl, rfl, rfl, rfl⟩, rfl⟩

theorem stays_startTimerL (now : UInt64) (c : Ctl) : c.Stays (c.startTimerL now) := by
  rw [startTimerL]
  split
  · exact ⟨⟨rfl, rfl, rfl, rfl, rfl⟩, rfl⟩
  · exact Std.Refl.refl _

theorem stays_uasPostSendInviteFinal (h : c.uasPostSendInviteFinal p now = some c') : c.Stays c' := by
  simp only [uasPostSendInviteFinal] at h
  split at h
  all_goals
    split at h
    · obtain rfl := Option.some.inj h
      exact ⟨⟨rfl, rfl, rfl, rfl, rfl⟩, rfl⟩
    · obtain ⟨ms, -, rfl⟩ := Option.map_eq_some_iff.mp h
      exact ⟨⟨rfl, rfl, rfl, rfl, rfl⟩, rfl⟩

theorem stays_uasPostSendFinal (h : c.uasPostSendFinal p now = some c') : c.Stays c' := by
  rw [uasPostSendFinal] at h
  split at h
  · obtain rfl := Option.some.inj h
    exact ⟨⟨rfl, rfl, rfl, rfl, rfl⟩, rfl⟩
  · obtain ⟨ms, -, rfl⟩ := Option.map_eq_some_iff.mp h
    exact ⟨⟨rfl, rfl, rfl, rfl, rfl⟩, rfl⟩

theorem stays_uasSent {method : Method} (h : c.uasSent p method now = some c') : c.Stays c' := by
  have hNoted : c.Stays { c.noteSend now with next_send_at_ms := TIME_NONE } :=
    ⟨⟨rfl, rfl, rfl, rfl, rfl⟩, rfl⟩
  refine IsTrans.trans _ _ _ hNoted ?_
  simp only [uasSent] at h
  split at h
  · obtain rfl := Option.some.inj h
    exact Std.Refl.refl _
  · split at h
    · exact stays_uasPostSendInviteFinal h
    · split at h
      · exact stays_uasPostSendFinal h
      · obtain rfl := Option.some.inj h
        exact Std.Refl.refl _

end Ctl

theorem fit_modCtl {i : Nat} {f : Ctl → Ctl} (h : ∀ c : Ctl, c.Stays (f c)) :
    Op.Keeps (Op.Implies Tm.Fit) (onSlot i fun _ => modCtl f) := fit_onSlot fun _ => steady_modCtl h

/-! ## CANCEL -/

theorem fit_sendCancel (parent_index : Nat) : Op.Keeps (Op.Implies Tm.Fit) (sendCancel parent_index) := by
  refine .bind (fit_cloneUacInvite _ (by decide)) fun i =>
    .bind (fit_modCtl fun _ => ⟨⟨rfl, rfl, rfl, rfl, rfl⟩, rfl⟩)
    fun _ => .bind (.cleanup (.failWith (fit_buildRequest _ _) _) fun _ h => h.cleared rfl rfl) fun _ => ?_
  refine .bind (fit_modCtl fun c => ?_) fun _ => fit_modCtl fun _ => ⟨⟨rfl, rfl, rfl, rfl, rfl⟩, rfl⟩
  exact IsTrans.trans _ _ _ (Ctl.stays_onInvite _ c) (Ctl.stays_clearInviteTimeout _)

theorem fit_uacStartCancel (parent_index : Nat) :
    Op.Keeps (Op.Implies Tm.Fit) (uacStartCancel parent_index) :=
  .bind .get fun _ => .bind (.demand _) fun _ => .ite (fun _ => .pure _) fun _ =>
    .ite (fun _ => fit_modCtl (Ctl.stays_onInvite _)) fun _ => fit_sendCancel _

theorem steady_uacFinishAbandoned : Op.Keeps (Txi.Steady filling) uacFinishAbandoned :=
  .bind (steady_modCtl fun c => IsTrans.trans _ _ _ (Ctl.stays_markTerminated c)
    (Ctl.stays_clearInviteTimeout _))
    fun _ => steady_releaseOutbound

theorem fit_startCancelOrFinish (index : Nat) :
    Op.Keeps (Op.Implies Tm.Fit) (startCancelOrFinish index) := by
  refine .bind (.attempt (fit_uacStartCancel _)) fun r => ?_
  cases r with
  | ok u => exact .pure _
  | error e => exact fit_onSlot fun _ => steady_uacFinishAbandoned

theorem fit_uacAbandon (index : Nat) : Op.Keeps (Op.Implies Tm.Fit) (uacAbandon index) :=
  .bind .get fun _ => .bind (.assert _) fun _ => .bind (fit_modCtl Ctl.stays_abandon) fun _ =>
    .ite (fun _ => fit_onSlot fun _ => steady_uacFinishAbandoned) fun _ => fit_startCancelOrFinish _

theorem steady_uacArmCleanup (now : UInt64) : Op.Keeps (Txi.Steady filling) (uacArmCleanup now) :=
  steady_setCtl fun _ _ _ => Ctl.stays_armCleanup

theorem fit_cancel (index : Nat) : Op.Keeps (Op.Implies Tm.Fit) (cancel index) :=
  .bind .get fun _ => .bind (.require _ _) fun _ => .bind (.require _ _) fun _ => .bind (.assert _) fun _ =>
    .bind (.require _ _) fun _ => .bind (.require _ _) fun _ => .bind (.demand _) fun _ =>
      .bind (.assert _) fun _ =>
      .bind (fit_modCtl (Ctl.stays_onInvite _)) fun _ => .ite (fun _ => .pure _) fun _ => fit_uacAbandon _

/-! ## A turn of a client transaction -/

theorem fit_txTerminateChild (fuel p : Nat) : Op.Keeps (Op.Implies Tm.Fit) (txTerminateChild fuel p) := by
  induction fuel generalizing p with
  | zero => exact .assert _
  | succ fuel ih =>
    have hUnlink : Op.Keeps (Op.Implies Tm.Fit)
        (onSlot p fun _ => modCtl fun c => { c with child_index := none }) := by
      intro tm r tm' hRun hFit
      obtain ⟨tp, hPart, rfl⟩ := onSlot_some hRun
      obtain ⟨-, rfl⟩ := Prod.mk.inj (Option.some.inj hPart)
      exact hFit.relink rfl rfl rfl rfl (hFit.parent p) (hFit.invite p) fun _ h => by cases h
    rw [txTerminateChild]
    refine .bind .get fun tm => ?_
    cases (tm.tx p).child_index with
    | none => exact .pure _
    | some c =>
      refine .bind (.assert _) fun _ => .bind (.ite (fun _ => .bind (ih c) fun _ => ?_) fun _ =>
        .pure _) fun _ => hUnlink
      intro tm r tm' hRun hFit
      obtain ⟨tp, hPart, rfl⟩ := onSlot_some hRun
      rw [Op.run_bind, modCtl, Op.run_modify, Op.andThen_ok] at hPart
      have hEnded := Ctl.stays_clearInviteTimeout (tm.tx c).markTerminated.clearTimer
      have hCut : (tm.set c { tm.tx c with
          toCtl := { (tm.tx c).markTerminated.clearTimer.clearInviteTimeout with
            parent_index := none, child_index := none } }).Fit :=
        hFit.relink rfl rfl rfl hEnded.invite (fun h => by cases h) (fun _ => rfl) fun _ h => by cases h
      have hRest : Txi.Steady False _ tp := steady_releaseOutbound _ _ _ hPart
      rw [← Tm.set_set]
      refine hCut.steady ?_
      rw [Tm.set_same]
      exact hRest

theorem fit_uacExpireInvite (index : Nat) (now : UInt64) :
    Op.Keeps (Op.Implies Tm.Fit) (uacExpireInvite index now) := by
  refine .bind .get fun _ => .bind (.demand _) fun _ => .ite (fun _ => ?_) fun _ => ?_
  · exact .bind (fit_uacAbandon _) fun _ => .bind
      (fit_onSlot fun _ => steady_uacArmCleanup _) fun _ => .pure _
  · exact .bind (fit_modCtl fun c => IsTrans.trans _ _ _ (Ctl.stays_markTerminated c)
      (Ctl.stays_clearInviteTimeout _)) fun _ => .pure _

theorem fit_uacTimerFired (index : Nat) : Op.Keeps (Op.Implies Tm.Fit) (uacTimerFired index) :=
  .bind (fit_modCtl fun _ => ⟨⟨rfl, rfl, rfl, rfl, rfl⟩, rfl⟩) fun _ => .bind .get fun _ =>
    .bind (fit_txTerminateChild _ _) fun _ => .bind .get fun _ => .pure _

theorem fit_uacRun (index : Nat) (now : UInt64) : Op.Keeps (Op.Implies Tm.Fit) (uacRun index now) := by
  refine .bind .get fun _ => .ite (fun _ => .pure _) fun _ =>
    .bind (fit_onSlot fun _ => steady_uacArmCleanup _)
    fun _ => .bind .get fun _ => .ite (fun _ => fit_uacExpireInvite _ _) fun _ =>
      .ite (fun _ => fit_uacTimerFired _) fun _ => .ite (fun _ => .pure _) fun _ => .bind ?_ fun _ => .pure _
  exact .ite (fun _ => fit_buildRequest _ _) fun _ => .pure _

theorem fit_uacTimedOut (index : Nat) (rest : TimeoutRest) :
    Op.Keeps (Op.Implies Tm.Fit) (uacTimedOut index rest) := by
  refine .bind .get fun tm => ?_
  cases rest with
  | expired => exact .pure _
  | cleaned => exact fit_onSlot fun _ => steady_releaseOutbound
  | timer => exact .ite (fun _ => fit_onSlot fun _ => steady_releaseOutbound) fun _ => .pure _

theorem Tm.Fit.armBye {tm : Tm} (h : tm.Fit) (index bye_index : Nat) (now : UInt64) :
    (tm.armBye index bye_index now).Fit := by
  have hFree : (tm.set bye_index
      { tm.tx bye_index with parent_index := none, next_send_at_ms := now }).Fit :=
    h.relink rfl rfl rfl rfl (fun h => by cases h) (fun _ => rfl) (h.child bye_index)
  exact hFree.relink rfl rfl rfl rfl (hFree.parent index) (hFree.invite index) fun _ h => by cases h

theorem fit_uacSent (index : Nat) (now : UInt64) : Op.Keeps (Op.Implies Tm.Fit) (uacSent index now) := by
  refine .bind (fit_onSlot fun _ => steady_setCtl fun _ _ _ => Ctl.stays_uacSent) fun _ =>
    .bind .get fun tm => ?_
  split
  · exact .bind (.modify fun _ h => h.armBye _ _ _) fun _ => .pure _
  · exact .pure _

/-! ## Retries -/

theorem fit_nextTransaction (index : Nat) (payload : Option RequestPayload) (ehp : List ExtraHeader) :
    Op.Keeps (Op.Implies Tm.Fit) (nextTransaction index payload ehp) := by
  have hDetach : Op.Keeps (Op.Implies Tm.Fit) (detachAck index) := by
    refine .bind .get fun tm => ?_
    cases (tm.tx index).child_index with
    | none => exact .pure _
    | some c =>
      refine .bind (.assert _) fun _ => .bind (.require _ _) fun _ => ?_
      intro tm r tm' hRun hFit
      obtain ⟨tp, hPart, rfl⟩ := onSlot_some hRun
      obtain ⟨-, rfl⟩ := Prod.mk.inj (Option.some.inj hPart)
      exact hFit.relink rfl rfl rfl rfl (hFit.parent index) (hFit.invite index) fun _ h => by cases h
  refine .bind (.bind .get fun _ => .bind (.require _ _) fun _ => .bind (.require _ _) fun _ =>
    .require _ _) fun _ => ?_
  refine .bind hDetach fun _ => .bind .get fun _ => .bind (.assert _) fun _ =>
    .bind (.require _ _) fun _ => ?_
  refine fit_onSlot fun tm => .bind (.modify fun tp => ?_) fun _ => .bind (steady_prepareIds _ _) fun _ =>
    steady_buildRequest _ _ _
  exact ⟨⟨rfl, rfl, rfl, rfl, Option.isSome_map⟩, rfl, rfl, Std.Refl.refl _, Or.inr ⟨Or.inl rfl, rfl, rfl⟩⟩

theorem fit_setTimerPolicy (index : Nat) (policy : TimerPolicy) :
    Op.Keeps (Op.Implies Tm.Fit) (setTimerPolicy index policy) := by
  refine .bind .get fun _ => .bind (.require _ _) fun _ => .bind (.require _ _) fun _ => ?_
  intro tm r tm' hRun hFit
  obtain ⟨tp, hPart, rfl⟩ := onSlot_some hRun
  obtain ⟨-, rfl⟩ := Prod.mk.inj (Option.some.inj hPart)
  have hSlot := hFit.slots index
  exact hFit.put rfl rfl ⟨⟨hSlot.room, hSlot.last⟩, hSlot.method,
    fun _ => ⟨TimerPolicy.resolve_t1 _, TimerPolicy.resolve_t2 _⟩, hSlot.client, hSlot.record, hSlot.idle⟩
    (hFit.parent index) (hFit.invite index) (hFit.child index)

/-! ## Responses -/

theorem marked_dialogCopyAddr (m : Mem) (srcp : Addr) : Op.Keeps Heap.Marked (dialogCopyAddr m srcp) :=
  .bind (.ite (fun _ => .pure _) fun _ => .failWith (Heap.marked_append _ _) _) fun _ => .pure _

theorem marked_parseTargetUri (m : Mem) (s : Str) : Op.Keeps Heap.Marked (parseTargetUri m s) :=
  .bind (.failWith (Heap.marked_uriParse _ _) _) fun _ => .bind (.require _ _) fun _ => .pure _

theorem marked_dialogResolveTarget (m : Mem) (basep : Addr) (remote_targetp : Str) (route_src : List Str)
    (reverse : Bool) : Op.Keeps Heap.Marked (dialogResolveTarget m basep remote_targetp
    route_src reverse) := by
  refine .bind (.failWith (Heap.marked_append _ _) _) fun remote => .bind ?_ fun parts => ?_
  · cases route_src with
    | nil => exact .pure _
    | cons s srcs =>
      refine .bind (.failWith (Heap.marked_alloc _) _) fun _ =>
        .bind (.failWith (Heap.marked_appendAll _ _) _)
        fun routes => .bind (marked_parseTargetUri _ _) fun _ => .bind .get fun _ => ?_
      exact .ite (fun _ => .pure _) fun _ => .pure _
  · exact .bind (marked_parseTargetUri _ _) fun _ => .pure _

theorem marked_initUacDialogRequestParams (tm : Tm) (anchor_index : Nat) (msg : Msg) (method_type : UInt8) :
    Op.Keeps Heap.Marked (initUacDialogRequestParams tm anchor_index msg method_type) := by
  have hDup : ∀ m s, Op.Keeps Heap.Marked (heapStrDup m s) := fun _ _ => .failWith (Heap.marked_append _ _) _
  refine .bind (.assert _) fun _ => .bind (.require _ _) fun _ => .bind (.assert _) fun _ =>
    .bind (.require _ _) fun _ => .bind (.orElse _ _) fun hdrs => .bind (.orElse _ _) fun _ =>
      .bind (.orElse _ _) fun _ => .bind .get fun _ => .bind (.orElse _ _) fun _ =>
        .bind (.require _ _) fun _ => ?_
  refine .bind (marked_dialogResolveTarget _ _ _ _ _) fun target => ?_
  exact .bind (hDup _ _) fun _ => .bind (hDup _ _) fun _ => .bind (hDup _ _) fun _ =>
    .bind (hDup _ _) fun _ =>
    .bind (hDup _ _) fun _ => .bind (hDup _ _) fun _ => .bind (hDup _ _) fun _ =>
      .bind (marked_dialogCopyAddr _ _) fun _ => .pure _

/-- Work on the slot of an ACK, which may lose its URI. -/
structure Txi.Acked (tp tp' : Txi) : Prop where
  ctl : tp.toCtl.Stays tp'.toCtl
  timers : tp'.timers = tp.timers
  checkpoint : tp'.checkpoint = tp.checkpoint
  heap : tp.scratch.Marked tp'.scratch
  cached : tp'.cache.method_type = tp.cache.method_type

instance : IsPreorder Txi Txi.Acked where
  refl _ := ⟨Std.Refl.refl _, rfl, rfl, Std.Refl.refl _, rfl⟩
  trans _ _ _ h h' := ⟨IsTrans.trans _ _ _ h.ctl h'.ctl, h'.timers.trans h.timers,
    h'.checkpoint.trans h.checkpoint, IsTrans.trans _ _ _ h.heap h'.heap, h'.cached.trans h.cached⟩

theorem Txi.Fit.acked {tp tp' : Txi} (h : tp.Fit) (hAcked : tp.Acked tp') (hActive : tp.active = true)
    (hAck : tp.isAck = true) : tp'.Fit := by
  have hMethod : tp.method_type = .ACK := beq_iff_eq.mp hAck
  have hOn : tp'.active = true := hAcked.ctl.active.trans hActive
  have hSteady : tp.Steady True tp' :=
    ⟨hAcked.ctl.toSteady, hAcked.timers, hAcked.checkpoint, hAcked.heap, Or.inl trivial⟩
  refine ⟨h.toRolls.steady hSteady, hAcked.cached.trans (h.method.trans hAcked.ctl.method.symm),
    fun _ => hAcked.timers ▸ h.policy hActive, fun _ hRole => ⟨?_, fun hIs => ?_⟩,
    fun hHas => ?_, fun hFree => ?_⟩
  · exact hAcked.checkpoint ▸ (h.client hActive (hAcked.ctl.role ▸ hRole)).1
  · rw [hAcked.ctl.method, hMethod] at hIs
    cases hIs
  · obtain ⟨hIs, -⟩ := h.record (hAcked.ctl.invite.symm.trans hHas)
    cases hMethod.symm.trans hIs
  · rw [hOn] at hFree
    cases hFree

theorem acked_modCache {f : Cache → Cache} (h : ∀ c, (f c).method_type = c.method_type) :
    Op.Keeps Txi.Acked (modCache f) :=
  .modify fun tp => ⟨Std.Refl.refl _, rfl, rfl, Std.Refl.refl _, h tp.cache⟩

theorem acked_onScratch {α : Type} {x : HeapM α} (hx : Op.Keeps Heap.Marked x) (e : TmError) :
    Op.Keeps Txi.Acked (onScratch e x) := by
  refine .failWith (fun tp r tp' hRun => ?_) e
  obtain ⟨hp, hPart, rfl⟩ := Op.zoom_some.mp hRun
  exact ⟨Std.Refl.refl _, rfl, rfl, hx _ _ _ hPart, rfl⟩

theorem acked_applyUac2xxAckDialog (anchor_index : Nat) (msg : Msg) (tm : Tm) :
    Op.Keeps Txi.Acked (applyUac2xxAckDialog anchor_index msg tm) := by
  refine .bind (fun tp r tp' hRun => ?_) fun tpp => ?_
  · obtain ⟨hp, hPart, rfl⟩ := Op.zoom_some.mp hRun
    exact ⟨Std.Refl.refl _, rfl, rfl, marked_initUacDialogRequestParams _ _ _ _ _ _ _ hPart, rfl⟩
  refine .bind (.attempt (acked_onScratch (Heap.marked_uriParse _ _) _)) fun _ =>
    .bind (acked_modCache fun _ => rfl) fun _ => .bind (.require _ _) fun _ =>
      .bind (acked_modCache fun _ => rfl) fun _ => .bind (acked_modCache fun _ => rfl)
        fun _ => .modify fun _ => ?_
  exact ⟨Std.Refl.refl _, rfl, rfl, Std.Refl.refl _, rfl⟩

theorem acked_applyNon2xxAck (tpBranch : Str) (msg : Msg) (tm : Tm) :
    Op.Keeps Txi.Acked (applyNon2xxAck tpBranch msg tm) := by
  refine .bind (.orElse _ _) fun _ => .bind .get fun _ => .bind ?_ fun _ =>
    .bind (acked_modCache fun _ => rfl)
    fun _ => .bind (acked_onScratch (Heap.marked_append _ _) _) fun _ => acked_modCache fun _ => rfl
  exact .ite (fun _ => acked_onScratch (Heap.marked_append _ _) _) fun _ => .pure _

/-- A slot that has its clone. -/
theorem cloneUacInvite_ok {tm tm' : Tm} {parent_index i : Nat} {method : Method}
    (hRun : (cloneUacInvite parent_index method).run tm = some (.ok i, tm')) :
    i < tm'.max_transactions ∧ (tm'.tx i).active = true ∧ (tm'.tx i).method_type = method := by
  simp only [cloneUacInvite, cloneInto, filling, leaking, Op.bind_ok, Op.pure_ok, Op.get_ok, Op.modify_ok,
    Op.cleanup_ok, onSlot_ok] at hRun
  obtain ⟨_, t, hAlloc, _, _, ⟨_, _, ⟨rfl, rfl⟩, _, _, ⟨tp, hFill, rfl⟩, _, _, rfl, tp', hRest,
    rfl⟩, rfl, rfl⟩ := hRun
  obtain ⟨tp₁, id, hSteady, rfl⟩ := cloneRest_ok hRest
  have hRequests : tp₁.Requests method := by
    refine Txi.Requests.steady ?_ hSteady
    rw [Tm.activate, Tm.set_same, Tm.set_same]
    exact (cloneCache_ok hFill).2
  refine ⟨(allocSlot_cleared hAlloc).1, ?_, ?_⟩
  · rw [Tm.set_same]
    refine hSteady.ctl.active.trans ?_
    rw [Tm.activate, Tm.set_same]
    rfl
  · rw [Tm.set_same]
    exact hRequests.1

/-- The slot of an ACK. -/
def Tm.HasAck (i : Nat) (tm : Tm) : Prop := (tm.tx i).active = true ∧ (tm.tx i).isAck = true

theorem ackOf_ok {tm tm' : Tm} {index i : Nat} (hRun : (ackOf index).run tm = some (.ok i, tm')) :
    tm'.HasAck i := by
  rw [ackOf, Op.run_bind, Op.run_get, Op.andThen_ok] at hRun
  cases hLink : (tm.tx index).child_index with
  | none =>
    simp only [hLink, Op.bind_ok, Op.pure_ok, onSlot_ok] at hRun
    obtain ⟨k, t, hClone, _, _, ⟨tp, hPart, rfl⟩, rfl, rfl⟩ := hRun
    obtain ⟨-, hActive, hMethod⟩ := cloneUacInvite_ok hClone
    obtain rfl := Op.modify_ok.mp hPart
    have hAck : (t.tx k).isAck = true := beq_iff_eq.mpr hMethod
    by_cases hk : k = index
    · subst hk
      rw [Tm.HasAck, Tm.set_same]
      exact ⟨hActive, hAck⟩
    · rw [Tm.HasAck, Tm.set_other _ _ hk]
      exact ⟨hActive, hAck⟩
  | some c =>
    simp only [hLink, Op.bind_ok, Op.pure_ok, Op.assert_ok] at hRun
    obtain ⟨_, _, ⟨hAck, rfl⟩, rfl, rfl⟩ := hRun
    exact hAck

theorem fit_ackOf (index : Nat) : Op.Keeps (Op.Implies Tm.Fit) (ackOf index) := by
  refine .bind .get fun tm => ?_
  cases (tm.tx index).child_index with
  | some c => exact .bind (.assert _) fun _ => .pure _
  | none =>
    refine Op.KeepsFrom.always (.seq (fun i tm => i < tm.max_transactions)
      (fit_cloneUacInvite _ (by decide)).from
      (fun _ _ _ _ hRun => (cloneUacInvite_ok hRun).1) fun i => ?_)
    refine .seq (fun _ _ => True) ?_ (fun _ _ _ _ _ => trivial) fun _ => (Op.Keeps.pure _).from
    intro t r t' hIn hRun hFit
    obtain ⟨tp, hPart, rfl⟩ := onSlot_some hRun
    obtain ⟨-, rfl⟩ := Prod.mk.inj (Option.some.inj hPart)
    refine hFit.relink rfl rfl rfl rfl (hFit.parent index) (hFit.invite index) fun k hIs => ?_
    exact Option.some.inj hIs ▸ hIn

theorem fit_acked {α : Type} {i : Nat} {x : Tm → TxM α} (hx : ∀ tm, Op.Keeps Txi.Acked (x tm)) :
    Op.KeepsFrom (Tm.HasAck i) (Op.Implies Tm.Fit) (onSlot i x) := by
  intro tm r tm' hAck hRun hFit
  obtain ⟨tp, hPart, rfl⟩ := onSlot_some hRun
  have hAcked := hx tm _ _ _ hPart
  refine hFit.put rfl rfl ((hFit.slots i).acked hAcked hAck.1 hAck.2) ?_ ?_ fun c hLink => ?_
  · rw [hAcked.ctl.parent]
    exact hFit.parent i
  · rw [hAcked.ctl.parent, hAcked.ctl.method]
    exact hFit.invite i
  · exact hFit.child i c (hAcked.ctl.child.symm.trans hLink)

theorem Txi.Fit.marked {tp : Txi} (h : tp.Fit) : tp.marked.Fit :=
  ⟨Txi.marked_rolls h.room, h.method, h.policy, fun hActive hRole =>
    ⟨rfl, (h.client hActive hRole).2⟩, h.record, h.idle⟩

theorem fit_takeCheckpoint (i : Nat) : Op.Keeps (Op.Implies Tm.Fit) (onSlot i fun _ => takeCheckpoint) := by
  intro tm r tm' hRun hFit
  obtain ⟨tp, hPart, rfl⟩ := onSlot_some hRun
  obtain ⟨-, rfl⟩ := takeCheckpoint_some hPart
  exact hFit.put rfl rfl (hFit.slots i).marked (hFit.parent i) (hFit.invite i) (hFit.child i)

theorem fit_prepareAck (index ack_index : Nat) (msg : Msg) (sclass : Nat) :
    Op.KeepsFrom (Tm.HasAck ack_index) (Op.Implies Tm.Fit) (prepareAck index ack_index msg sclass) := by
  refine .getBind fun tm hAck => .ite (fun _ => (Op.Keeps.pure _).from) fun _ =>
    .mono ?_ fun t hIs => hIs ▸ hAck
  refine .seq (fun _ _ => True) (fit_acked fun t => .ite (fun _ => acked_applyUac2xxAckDialog _ _ _)
    fun _ => acked_applyNon2xxAck _ _ _) (fun _ _ _ _ _ => trivial) fun _ => Op.Keeps.from ?_
  exact .bind (fit_takeCheckpoint ack_index) fun _ => .failWith (fit_buildRequest _ _) _

theorem lookupUacMethod_inDialog {σ : Type} {method_type : UInt8} {s t : σ} {mdp : Method}
    (hRun : (lookupUacMethod method_type true).run s = some (.ok mdp, t)) : mdp ≠ .INVITE := by
  simp only [lookupUacMethod, Op.bind_ok, Op.pure_ok, Op.require_ok] at hRun
  obtain ⟨m, _, -, _, _, ⟨hNot, rfl⟩, _, _, -, rfl, rfl⟩ := hRun
  exact fun hIs => hNot ⟨trivial, Or.inl hIs⟩

/-- A slot that has an in-dialog request made. -/
theorem newInDialogTransaction_ok {tpp : NewInDialogParams} {tm tm' : Tm} {i : Nat}
    (hRun : (newInDialogTransaction tpp).run tm = some (.ok i, tm')) :
    i < tm'.max_transactions ∧ (tm'.tx i).child_index = none ∧ (tm'.tx i).method_type ≠ .INVITE := by
  simp only [newInDialogTransaction, activateUacSlot, filling, leaking, Op.bind_ok, Op.pure_ok, Op.modify_ok,
    Op.cleanup_ok, Op.failWith_ok, onSlot_ok] at hRun
  obtain ⟨_, _, -, _, _, -, mdp, _, hMethod, _, t, hAlloc, _, _, ⟨tp, hFill, rfl⟩, _, _,
    ⟨_, _, rfl, tp', hAct, rfl⟩,
    _, _, ⟨tp'', hIds, rfl⟩, rfl, rfl⟩ := hRun
  have hCleared := allocSlot_cleared hAlloc
  obtain ⟨tp₁, hSteady, hRequests, rfl⟩ := fillInDialog_ok hFill
  have hIdsOn : Txi.Steady False _ tp'' := steady_prepareIds _ _ _ _ _ hIds
  have hOther := lookupUacMethod_inDialog hMethod
  rw [Tm.set_same, ← hAct, Tm.activate, Tm.set_same, Tm.set_same] at hIdsOn
  refine ⟨hCleared.1, ?_, ?_⟩
  · rw [Tm.set_same]
    exact hIdsOn.ctl.child.trans (hCleared.filled hSteady).2.2.1
  · rw [Tm.set_same]
    exact fun hIs => hOther (hRequests.1.symm.trans
      ((hIdsOn.request.resolve_left id).method.elim hIs.symm.trans hIs.symm.trans).symm)

theorem fit_onLocalHeap {α : Type} (len : Nat) (x : ParamsM α) :
    Op.Keeps (Op.Implies Tm.Fit) (onLocalHeap len x) := keeps_onLocalHeap _ _

theorem Tm.Fit.queueBye {tm : Tm} (h : tm.Fit) (index ack_index : Nat) {bye_index : Nat}
    (hIn : bye_index < tm.max_transactions) (hDiffer : bye_index ≠ index)
    (hOther : (tm.tx bye_index).method_type ≠ .INVITE) : (tm.queueBye index ack_index bye_index).Fit := by
  have hBye : (tm.set bye_index { tm.tx bye_index with
      next_send_at_ms := TIME_NONE, parent_index := some index, created_for := (tm.tx index).born }).Fit :=
    h.relink rfl rfl rfl rfl (fun hOwn => hDiffer (Option.some.inj hOwn).symm) (fun hIs => absurd hIs hOther)
      (h.child bye_index)
  refine hBye.relink rfl rfl rfl rfl (hBye.parent ack_index) (hBye.invite ack_index) fun k hIs => ?_
  exact Option.some.inj hIs ▸ hIn

theorem fit_abandonedUac (index : Nat) (msg : Msg) (sclass : Nat) :
    Op.Keeps (Op.Implies Tm.Fit) (abandonedUac index msg sclass) := by
  refine .bind .get fun tm => .bind (.demand _) fun iv => .ite (fun _ => .pure _) fun _ =>
    .bind (fit_onLocalHeap _ _) fun dialog => Op.KeepsFrom.always ?_
  refine .seq (fun i tm => i < tm.max_transactions ∧ (tm.tx i).child_index = none ∧
    (tm.tx i).method_type ≠ .INVITE)
    (fit_newInDialogTransaction _).from (fun _ _ _ _ => newInDialogTransaction_ok) fun bye_index => ?_
  intro t r t' hNew hRun hFit
  rw [Op.run_bind, Op.run_get, Op.andThen_ok, Op.run_bind] at hRun
  cases hLink : (t.tx index).child_index with
  | none =>
    rw [hLink] at hRun
    cases hRun
  | some ack_index =>
    rw [hLink, Op.run_demand_some, Op.andThen_ok, Op.run_bind, Op.run_modify, Op.andThen_ok] at hRun
    have hDiffer : bye_index ≠ index := by
      rintro rfl
      rw [hNew.2.1] at hLink
      cases hLink
    exact (fit_modCtl (Ctl.stays_onInvite _)).holds
      (hFit.queueBye index ack_index hNew.1 hDiffer hNew.2.2) hRun

theorem fit_uacAckFinal (index : Nat) (msg : Msg) (sclass : Nat) (now : UInt64) :
    Op.Keeps (Op.Implies Tm.Fit) (uacAckFinal index msg sclass now) := by
  refine Op.KeepsFrom.always (.seq (fun i => Tm.HasAck i) (fit_ackOf index).from
    (fun _ _ _ _ => ackOf_ok) fun i => ?_)
  refine .seq (fun _ _ => True) (fit_prepareAck _ _ _ _) (fun _ _ _ _ _ => trivial) fun _ => Op.Keeps.from ?_
  refine .bind .get fun _ => .bind (.ite (fun _ => fit_abandonedUac _ _ _) fun _ => .pure _) fun _ => ?_
  exact .bind (fit_modCtl fun _ => ⟨⟨rfl, rfl, rfl, rfl, rfl⟩, rfl⟩) fun _ =>
    fit_modCtl fun _ => ⟨⟨rfl, rfl, rfl, rfl, rfl⟩, rfl⟩

theorem steady_unsent (f : Ctl → Ctl) (h : ∀ c : Ctl, c.Stays (f c)) :
    Op.Keeps (Txi.Steady filling)
      (Op.modify (ε := TmError) fun tp : Txi => { tp with toCtl := f tp.toCtl, raw := Str.null }) :=
  .modify fun tp => ⟨(h tp.toCtl).toSteady, rfl, rfl, Std.Refl.refl _,
    Or.inr ⟨Or.inl (h tp.toCtl).method, rfl, rfl⟩⟩

theorem fit_uacResponded (i : Nat) (now : UInt64) (msg : Msg) (code : StatusCode) :
    Op.Keeps (Op.Implies Tm.Fit) (uacResponded i now msg code) := by
  have hClear : Op.Keeps (Txi.Steady False) (Op.modify (ε := TmError) fun tp : Txi =>
    { tp with raw := Str.null }) :=
    steady_unsent id fun _ => Std.Refl.refl _
  refine .bind .get fun tm => .ite (fun _ => .ite (fun _ => .pure _) fun _ => ?_) fun _ =>
    .ite (fun _ => ?_) fun _ =>
    .ite (fun _ => ?_) fun _ => ?_
  · refine .bind (fit_onSlot fun _ => steady_unsent
      (fun c => (c.responded now code.1).provisional _) fun c => ?_)
      fun _ => .bind (.demand _) fun _ => .bind (.ite (fun _ => ?_) fun _ => .pure _) fun _ => .pure _
    · exact IsTrans.trans _ _ _ (Ctl.stays_responded _ _ c) (Ctl.stays_provisional _ _)
    · exact .bind (fit_startCancelOrFinish _) fun _ => fit_onSlot fun _ => steady_uacArmCleanup _
  · refine .bind (fit_onSlot fun _ => .bind (steady_setCtl fun p c c' h => ?_) fun _ => hClear) fun _ =>
      .bind (fit_uacAckFinal _ _ _ _) fun _ => .pure _
    exact IsTrans.trans _ _ _ (Ctl.stays_responded _ _ c) (Ctl.stays_inviteFinal h)
  · exact .bind (fit_onSlot fun _ => steady_unsent (fun c => c.responded now code.1)
      (Ctl.stays_responded _ _))
      fun _ => .pure _
  · refine .bind (fit_onSlot fun _ => .bind (steady_setCtl fun p c c' h => ?_) fun _ =>
      hClear) fun _ => .pure _
    exact IsTrans.trans _ _ _ (Ctl.stays_responded _ _ c) (Ctl.stays_noninviteFinal h)

theorem fit_handleIncomingResponse (now : UInt64) (msg : Msg) (code : StatusCode) (tid : Tid) :
    Op.Keeps (Op.Implies Tm.Fit) (handleIncomingResponse now msg code tid) :=
  .bind .get fun _ => .bind (.orElse _ _) fun _ => .bind (fit_uacResponded _ _ _ _) fun _ =>
    .bind .get fun _ => .pure _

theorem fit_uacResponseDone (i : Nat) (code : StatusCode) :
    Op.Keeps (Op.Implies Tm.Fit) (uacResponseDone i code) :=
  .bind .get fun _ => .ite (fun _ => fit_onSlot fun _ => steady_releaseOutbound) fun _ => .pure _

/-! ## Server transactions -/

theorem fit_activateUasSlot {tm tm' : Tm} {i : Nat} {tp tp₁ : Txi} {tid : Tid}
    {timers : Tm → Option TimerPolicy}
    {r : Except TmError Unit} (hFit : tm.Fit) (hCleared : tm.Cleared i) (hSteady : (tm.tx i).Steady True tp₁)
    (hMarked : tp = tp₁.marked) (hRun : (activateUasSlot i tid timers).run (tm.set i tp) = some (r, tm')) :
    tm'.Fit := by
  obtain ⟨hRoom, hParent, hChild, hPlain⟩ := hCleared.filled hSteady
  subst hMarked
  rw [activateUasSlot, Op.run_bind, Op.run_modify, Op.andThen_ok] at hRun
  obtain ⟨tp, hPart, rfl⟩ := onSlot_some hRun
  rw [Op.run_bind, Op.run_modify, Op.andThen_ok] at hPart
  obtain ⟨-, rfl⟩ := Prod.mk.inj (Option.some.inj hPart)
  have hEntered : (Tm.activate i 0 (tm.set i tp₁.marked)).tx i =
      { tp₁.marked with active := true, born := tm.serial, created_for := 0 } := by
    rw [Tm.activate, Tm.set_same, Tm.set_same, Tm.set_serial]
  rw [Tm.activate_set, hEntered]
  refine hFit.put (i := i) (Tm.set_enter _ _ _ _) rfl
    (Txi.fit_begun hRoom rfl rfl rfl rfl ⟨TimerPolicy.resolve_t1 _, TimerPolicy.resolve_t2 _⟩
      (fun h => by cases h) fun hHas => ?_)
    (fun h => ?_) (fun _ => hParent) fun c hLink => ?_
  · cases hPlain.symm.trans hHas
  · cases hParent.symm.trans h
  · cases hChild.symm.trans hLink

theorem fit_newUasTr (tpp : NewUasTrParams) : Op.Keeps (Op.Implies Tm.Fit) (newUasTr tpp) := by
  refine .bind .get fun _ => .bind (.demand _) fun line => .bind (.require _ _) fun _ =>
    .bind (.orElse _ _) fun tid =>
    .bind (.require _ _) fun _ => Op.KeepsFrom.always ?_
  refine .seq (fun i => Tm.Cleared i) fit_allocSlot.from (fun _ _ _ _ => allocSlot_cleared) fun i => ?_
  have hBegins : Begins i (fun tm (_ : Unit) tp => ∃ tp₁, (tm.tx i).Steady True tp₁ ∧ tp = tp₁.marked)
      (filling i (fillUasTr tpp line.1 line.2 tid i)) := begins_filling fun tm a tp => fillUasTr_ok
  refine fit_begin hBegins ?_
  rintro t a tp r t' hFit hCleared ⟨tp₁, hSteady, hMarked⟩ hRun
  exact Op.holds_bind hRun (fun _ _ => fit_activateUasSlot hFit hCleared hSteady hMarked) fun _ => .pure _

theorem steady_uasStoreResponse (rpp : UasResponseParams) (tm : Tm) :
    Op.Keeps (Txi.Steady filling) (uasStoreResponse rpp tm) :=
  .bind .get fun _ => .bind (steady_rollbackTo _) fun _ =>
    .bind (steady_onScratch (Heap.marked_build _ _) _) fun _ =>
    .modify fun _ => ⟨Std.Refl.refl _, rfl, rfl, Std.Refl.refl _, Or.inr ⟨Or.inl rfl, rfl, rfl⟩⟩

theorem fit_sendUasResponse (index : Nat) (rpp : UasResponseParams) :
    Op.Keeps (Op.Implies Tm.Fit) (sendUasResponse index rpp) := by
  refine .bind (.bind .get fun _ => .bind (.assert _) fun _ => .bind (.require _ _) fun _ =>
    .bind (.assert _) fun _ =>
    .bind (.require _ _) fun _ => .bind (.require _ _) fun _ => .assert _) fun _ => ?_
  refine fit_onSlot fun tm => .bind (steady_uasStoreResponse _ _) fun _ => .bind .get fun _ =>
    .bind (steady_setCtl fun _ _ _ => Ctl.stays_uasAnswered) fun _ => .modify fun _ => ?_
  exact ⟨Std.Refl.refl _, rfl, rfl, Std.Refl.refl _, Or.inr ⟨Or.inl rfl, rfl, rfl⟩⟩

theorem fit_uasCancelOk (cancelp : Msg) (index : Nat) :
    Op.Keeps (Op.Implies Tm.Fit) (uasCancelOk cancelp index) :=
  .bind .get fun _ => .bind (.assert _) fun _ => .bind (.require _ _) fun _ => .bind (.assert _) fun _ =>
    .bind (.require _ _) fun _ => .bind (fit_newUasTr _) fun _ => fit_sendUasResponse _ _

theorem fit_uasTrCancelled (cancelp : Msg) (index : Nat) (rpp : Option UasResponseParams) :
    Op.Keeps (Op.Implies Tm.Fit) (uasTrCancelled cancelp index rpp) :=
  .bind (fit_uasCancelOk _ _) fun _ => fit_sendUasResponse _ _

theorem fit_handleIncomingRequest (now : UInt64) (msg : Msg) (method : Method) (tid : Tid) :
    Op.Keeps (Op.Implies Tm.Fit) (handleIncomingRequest now msg method tid) := by
  refine .bind .get fun tm => ?_
  simp only
  split
  · refine .ite (fun _ => .bind (fit_modCtl fun _ => ⟨⟨rfl, rfl, rfl, rfl, rfl⟩, rfl⟩)
      fun _ => .pure _) fun _ => ?_
    exact .bind (fit_onSlot fun _ => steady_setCtl fun _ _ _ => Ctl.stays_uasHandleAck) fun _ => .pure _
  · exact .pure _
  · refine .bind (fit_onSlot fun _ => .modify fun tp => ?_) fun _ => .pure _
    exact Txi.steady_ctl ⟨⟨rfl, rfl, rfl, rfl, rfl⟩, rfl⟩
  · exact .bind (.require _ _) fun _ => .pure _

theorem fit_uasRun (index : Nat) (now : UInt64) : Op.Keeps (Op.Implies Tm.Fit) (uasRun index now) := by
  refine .bind .get fun _ => .ite (fun _ => ?_) fun _ => .ite (fun _ => .pure _) fun _ => ?_
  · exact .bind (fit_modCtl fun _ => ⟨⟨rfl, rfl, rfl, rfl, rfl⟩, rfl⟩) fun _ => .pure _
  · exact .bind (fit_modCtl (Ctl.stays_startTimerL now)) fun _ => .pure _

theorem fit_uasSent (index : Nat) (now : UInt64) : Op.Keeps (Op.Implies Tm.Fit) (uasSent index now) :=
  .bind .get fun _ => .bind (fit_onSlot fun _ => steady_setCtl fun _ _ _ =>
    Ctl.stays_uasSent) fun _ => .pure _

theorem fit_onUas (index : Nat) (owner : Option Nat) {f : Ctl → Ctl} (h : ∀ c : Ctl, c.Stays (f c)) :
    Op.Keeps (Op.Implies Tm.Fit) (onUas index owner f) :=
  .bind .get fun _ => .bind (.require _ _) fun _ => fit_modCtl h

/-! ## Every step -/

theorem fit_keeps : TmKeeps (Op.Implies Tm.Fit) where
  newUacTr := fit_newUacTr
  newUasTr := fit_newUasTr
  newInDialogTransaction := fit_newInDialogTransaction
  nextTransaction := fit_nextTransaction
  cancel := fit_cancel
  sendUasResponse := fit_sendUasResponse
  uasCancelOk := fit_uasCancelOk
  uasTrCancelled := fit_uasTrCancelled
  dropTransaction := fit_dropTransaction
  setTimerPolicy := fit_setTimerPolicy
  handleIncomingResponse := fit_handleIncomingResponse
  uacResponseDone := fit_uacResponseDone
  handleIncomingRequest := fit_handleIncomingRequest
  uacRun := fit_uacRun
  uacTimedOut := fit_uacTimedOut
  uacSent := fit_uacSent
  uasRun := fit_uasRun
  uasSent := fit_uasSent
  uasSetOwner _ _ := fit_onUas _ _ fun _ => ⟨⟨rfl, rfl, rfl, rfl, rfl⟩, rfl⟩
  uasClearOwner _ _ := fit_onUas _ _ fun _ => ⟨⟨rfl, rfl, rfl, rfl, rfl⟩, rfl⟩
  uasSendAt _ _ _ := fit_onUas _ _ fun _ => ⟨⟨rfl, rfl, rfl, rfl, rfl⟩, rfl⟩

theorem World.step_fit {w v : World} {l : Label} (hFit : w.tm.Fit) (hStep : w.step l = some v) : v.tm.Fit :=
  World.step_stays fit_keeps hStep hFit

/-- The table is fit in every reachable state. -/
theorem World.ReachableBy.fit {ok : World → Label → Prop} {w : World}
    (h : World.ReachableBy ok w) : w.tm.Fit := by
  obtain ⟨p, tm, hCtor, hRun⟩ := h
  induction hRun with
  | refl =>
    have hFresh := (Tm.ctor_fresh hCtor).1
    refine ⟨fun j => ?_, fun j => ?_, fun j => ?_, fun j c => ?_⟩
    all_goals
      simp only [World.start]
      rw [hFresh]
    · exact ⟨⟨rfl, fun _ h => by cases h⟩, rfl, fun h => (by cases h), fun h => (by cases h),
        fun h => (by cases h), fun _ => rfl⟩
    · exact fun h => by cases h
    · exact fun _ => rfl
    · exact fun h => by cases h
  | snoc _ _ hStep ih => exact World.step_fit ih hStep

end Microsippy
