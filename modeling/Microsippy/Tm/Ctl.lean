import Microsippy.Tm.Types

/-! # Control

What the state machines of `usipy_sip_tm_uac.c` and `usipy_sip_tm_uas.c` do to the control part of a
slot. A function that asserts something of the timers is `none` where the assertion fails.
-/

namespace Microsippy

set_option autoImplicit false

/-! ## Timer values -/

namespace TimerPolicy

def nonzero (ms : UInt32) : Option UInt32 := if ms ≠ 0 then some ms else none

/-- A timer's own value, or the one derived from the base timers. -/
def ownOr (own : UInt32) (derived : Option UInt32) : Option UInt32 :=
  if own ≠ 0 then some own else derived

/-- 64 times T1 in 64 bits, asserted to fit in 32. -/
def t1x64 (p : TimerPolicy) : Option UInt32 :=
  let ms := p.t1_ms.toUInt64 * 64
  if ms ≤ 0xffffffff then some ms.toUInt32 else none

/-- 64 times a T1 asserted not to be 0, in 32 bits. -/
def t1x64u32 (p : TimerPolicy) : Option UInt32 := (nonzero p.t1_ms).map (· * 64)

/-- `usipy_sip_tm_timer_b_ms`. -/
def bMs (p : TimerPolicy) : Option UInt32 := ownOr p.timer_b_ms p.t1x64

/-- `usipy_sip_tm_timer_d_ms`. -/
def dMs (p : TimerPolicy) : Option UInt32 := ownOr p.timer_d_ms (nonzero p.t4_ms)

/-- `usipy_sip_tm_timer_f_ms`. -/
def fMs (p : TimerPolicy) : Option UInt32 := ownOr p.timer_f_ms p.t1x64

/-- `usipy_sip_tm_timer_h_ms`. -/
def hMs (p : TimerPolicy) : Option UInt32 := p.t1x64u32

/-- `usipy_sip_tm_timer_i_ms`. -/
def iMs (p : TimerPolicy) : Option UInt32 := nonzero p.t4_ms

/-- `usipy_sip_tm_timer_j_ms`. -/
def jMs (p : TimerPolicy) : Option UInt32 := ownOr p.timer_j_ms p.t1x64u32

/-- `usipy_sip_tm_timer_k_ms`. -/
def kMs (p : TimerPolicy) : Option UInt32 := ownOr p.timer_k_ms (nonzero p.t4_ms)

/-- `usipy_sip_tm_timer_l_ms`. -/
def lMs (p : TimerPolicy) : Option UInt32 := ownOr p.timer_l_ms p.t1x64u32

/-- `usipy_sip_tm_uac_cleanup_ms`. -/
def cleanupMs (p : TimerPolicy) : Option UInt32 := p.t1x64

end TimerPolicy

namespace Ctl

/-- A timer set to run from now on. -/
def arm (type : TimerKind) (ms : UInt32) (now : UInt64) (c : Ctl) : Ctl :=
  { c with timer := { type, value_ms := ms, due_at_ms := now + ms.toUInt64 } }

/-- `usipy_sip_tm_tx_clear_timer`. -/
def clearTimer (c : Ctl) : Ctl := { c with timer := {} }

def onInvite (f : UacInvite → UacInvite) (c : Ctl) : Ctl := { c with invite := c.invite.map f }

/-- `usipy_sip_tm_tx_clear_invite_timeout`. -/
def clearInviteTimeout (c : Ctl) : Ctl :=
  c.onInvite fun iv => { iv with timeout_at_ms := TIME_NONE, timeout_id := .NONE }

/-- `usipy_sip_tm_tx_mark_terminated`. -/
def markTerminated (c : Ctl) : Ctl :=
  { c with state := .TERMINATED, terminated := true, next_send_at_ms := TIME_NONE }

/-- `usipy_sip_tm_uas_mark_terminated`. -/
def uasMarkTerminated (c : Ctl) : Ctl :=
  { c with
    state := .TERMINATED
    terminated := true
    timer := { c.timer with type := .NONE }
    next_send_at_ms := TIME_NONE }

/-- `usipy_sip_tm_tx_is_invite`. -/
def isInvite (c : Ctl) : Bool := c.method_type == .INVITE

/-- `usipy_sip_tm_tx_is_ack`. -/
def isAck (c : Ctl) : Bool := c.method_type == .ACK

/-- `usipy_sip_tm_tx_waits_for_invite_ack`. -/
def waitsForInviteAck (c : Ctl) : Bool :=
  c.isInvite && c.child_index.isSome && c.timer.type == .D

/-- Whether a timer is armed and due. -/
def timerDue (now : UInt64) (c : Ctl) : Bool :=
  c.timer.type != .NONE && decide (c.timer.due_at_ms ≤ now)

/-- Whether there is nothing to send by now. -/
def notSending (now : UInt64) (c : Ctl) : Bool :=
  c.next_send_at_ms == TIME_NONE || decide (now < c.next_send_at_ms)

/-! ## Eviction -/

/-- `usipy_sip_tm_uac_evictable`. -/
def uacEvictable (c : Ctl) : Bool :=
  c.state == .COMPLETED && c.final_reported && (c.timer.type == .D || c.timer.type == .K)

/-- `usipy_sip_tm_uas_evictable`. -/
def uasEvictable (c : Ctl) : Bool :=
  match c.state with
  | .COMPLETED => c.timer.type == .J
  | .CONFIRMED => c.timer.type == .I
  | .ACCEPTED => c.acked
  | _ => false

/-- `usipy_sip_tm_tx_evictable`. -/
def evictable (c : Ctl) : Bool :=
  if !c.active || c.parent_index.isSome then false
  else if c.state = .TERMINATED then true
  else if c.abandoned then false
  else
    match c.role with
    | .UAC => c.uacEvictable
    | .UAS => c.uasEvictable

/-- When an evictable transaction would go anyway. -/
def evictionDue (c : Ctl) : UInt64 := if c.state = .TERMINATED then 0 else c.timer.due_at_ms

/-! ## UAC -/

/-- `usipy_sip_tm_transition_allowed`, to CALLING. -/
def transitionAllowed (c : Ctl) : Bool := c.state == .TERMINATED || c.state == .COMPLETED

/-- `usipy_sip_tm_transition` to CALLING, once allowed. -/
def transition (c : Ctl) : Ctl := { c with state := .CALLING, terminated := false }

/-- The control part of `usipy_sip_tm_tx_reset_uac_runtime`. -/
def resetUacRuntime (c : Ctl) : Ctl :=
  { c with
    terminated := false
    retransmit_count := 0
    created_at_ms := 0
    updated_at_ms := 0
    timer := {}
    last_status_code := 0
    response_class := 0
    next_send_at_ms := 0
    invite := c.invite.map fun _ => {}
    final_reported := false
    unsent := true }

/-- What every matched response but a late provisional one does first. -/
def responded (now : UInt64) (code : Nat) (c : Ctl) : Ctl :=
  { c with
    updated_at_ms := now
    next_send_at_ms := TIME_NONE
    last_status_code := UInt16.ofNat code
    response_class := UInt8.ofNat (code / 100) }

/-- A provisional response to an INVITE, but for a CANCEL that waits for it. -/
def provisional (invite_expires : UInt32) (c : Ctl) : Ctl :=
  { c with state := .PROCEEDING }.onInvite fun iv =>
    { iv with
      timeout_at_ms :=
        if !iv.provisional_seen && iv.timeout_at_ms != TIME_NONE then
          c.created_at_ms + invite_expires.toUInt64 * 1000
        else iv.timeout_at_ms
      provisional_seen := true
      timeout_id := if c.abandoned then iv.timeout_id else .FR }

/-- How long Timer D runs after a final response of a class. -/
def finalMs (p : TimerPolicy) (sclass : Nat) (c : Ctl) : Option UInt32 :=
  p.dMs.bind fun ms => if sclass = 2 && c.abandoned then p.cleanupMs else some ms

/-- The first part of `usipy_sip_tm_uac_handle_invite_final`. -/
def inviteFinal (p : TimerPolicy) (now : UInt64) (sclass : Nat) (c : Ctl) : Option Ctl :=
  let c := c.clearInviteTimeout
  if !c.final_reported || !c.abandoned then
    (c.finalMs p sclass).map fun ms => { c.arm .D ms now with state := .COMPLETED }
  else some { c with state := .COMPLETED }

/-- A final response to a request other than an INVITE. -/
def noninviteFinal (p : TimerPolicy) (now : UInt64) (c : Ctl) : Option Ctl :=
  p.kMs.map fun ms =>
    { c.clearInviteTimeout.arm .K ms now with state := .COMPLETED, final_reported := true }

/-- Whether `usipy_sip_tm_uac_arm_cleanup` has a guard to arm. -/
def cleanupDue (c : Ctl) : Bool :=
  c.abandoned &&
    match c.state, c.invite with
    | .CALLING, some iv => iv.cancel_state == .SCHEDULED && iv.timeout_at_ms == TIME_NONE
    | .PROCEEDING, some iv => iv.cancel_state == .ONWIRE && iv.timeout_at_ms == TIME_NONE
    | _, _ => false

/-- `usipy_sip_tm_uac_arm_cleanup`. -/
def armCleanup (p : TimerPolicy) (now : UInt64) (c : Ctl) : Option Ctl :=
  if c.cleanupDue then
    p.cleanupMs.map fun ms => c.onInvite fun iv => { iv with timeout_at_ms := now + ms.toUInt64 }
  else some c

/-- What `usipy_sip_tm_uac_abandon` does first. -/
def abandon (c : Ctl) : Ctl := { c with callbacks := {}, abandoned := true }.clearInviteTimeout

/-- Whether an INVITE's deadline has passed. -/
def inviteExpired (now : UInt64) (c : Ctl) : Bool :=
  match c.invite with
  | some iv => iv.timeout_at_ms != TIME_NONE && decide (iv.timeout_at_ms ≤ now)
  | none => false

def setCancelState (cs : CancelState) (c : Ctl) : Ctl :=
  c.onInvite fun iv => { iv with cancel_state := cs }

/-- A delay doubled for every send after the first. -/
def doubled (n : Nat) (delay : UInt64) : UInt64 := Nat.repeat (· <<< 1) n delay

/-- The loop of `usipy_sip_tm_uac_next_send_delay_ms` for a request other than an INVITE. -/
def doubledUpTo (t2 : UInt64) : Nat → UInt64 → UInt64
  | 0, delay => delay
  | n + 1, delay => if delay <<< 1 ≥ t2 then t2 else doubledUpTo t2 n (delay <<< 1)

/-- `usipy_sip_tm_uac_next_send_delay_ms`. -/
def nextSendDelayMs (p : TimerPolicy) (c : Ctl) : Option UInt64 :=
  let turns := c.retransmit_count.toNat - 1
  let delay :=
    if c.isInvite then doubled turns (if p.timer_a_ms ≠ 0 then p.timer_a_ms else p.t1_ms).toUInt64
    else doubledUpTo p.t2_ms.toUInt64 turns
      (if p.timer_e_ms ≠ 0 then p.timer_e_ms else p.t1_ms).toUInt64
  if delay ≤ 0xffffffff then some delay else none

/-- `usipy_sip_tm_uac_note_send`. -/
def noteSend (now : UInt64) (c : Ctl) : Ctl :=
  { c with
    created_at_ms := if c.created_at_ms = 0 ∧ c.retransmit_count = 0 then now else c.created_at_ms
    updated_at_ms := now
    retransmit_count := c.retransmit_count + 1
    unsent := false }

/-- `usipy_sip_tm_uac_post_send_ack`. -/
def postSendAck (c : Ctl) : Ctl := { c with next_send_at_ms := TIME_NONE }

/-- The next try of a request, unless there is none. -/
def scheduleResend (p : TimerPolicy) (now : UInt64) (done : Bool) (c : Ctl) : Option Ctl :=
  if done then some { c with next_send_at_ms := TIME_NONE }
  else (c.nextSendDelayMs p).map fun delay => { c with next_send_at_ms := now + delay }

/-- Timer B, unless a deadline is set. -/
def armTimerB (p : TimerPolicy) (now : UInt64) (iv : UacInvite) : Option UacInvite :=
  if iv.timeout_at_ms = TIME_NONE then
    p.bMs.map fun ms => { iv with timeout_at_ms := now + ms.toUInt64, timeout_id := .PR }
  else some iv

/-- `usipy_sip_tm_uac_post_send_invite`. -/
def postSendInvite (p : TimerPolicy) (now : UInt64) (c : Ctl) : Option Ctl :=
  if c.waitsForInviteAck then some { c with next_send_at_ms := TIME_NONE }
  else do
    let iv ← c.invite
    let iv ← armTimerB p now iv
    { c with invite := some iv }.scheduleResend p now (iv.provisional_seen || c.reliable)

/-- `usipy_sip_tm_uac_post_send_noninvite`. -/
def postSendNoninvite (p : TimerPolicy) (now : UInt64) (c : Ctl) : Option Ctl := do
  let c ← if c.timer.type = .NONE then p.fMs.map fun ms => c.arm .F ms now else some c
  c.scheduleResend p now c.reliable

/-- A request sent, by its method. -/
def uacSent (p : TimerPolicy) (now : UInt64) (c : Ctl) : Option Ctl :=
  let c := c.noteSend now
  if c.isAck then some c.postSendAck
  else if c.isInvite then c.postSendInvite p now
  else c.postSendNoninvite p now

/-! ## UAS -/

/-- A response taken by `usipy_sip_tm_send_uas_response`. -/
def uasAnswered (p : TimerPolicy) (method : Method) (code : Nat) (no_ack : Bool) (c : Ctl) :
    Option Ctl :=
  let c := { c with next_send_at_ms := 0, last_status_code := UInt16.ofNat code, unsent := true }
  if code < 200 then
    some { c with state := .PROCEEDING, timer := { c.timer with type := .NONE } }
  else if method = .INVITE ∧ code < 300 then
    p.lMs.map fun ms =>
      { c with
        state := .ACCEPTED
        timer := { type := .L, value_ms := ms, due_at_ms := TIME_NONE }
        uas_callbacks := { c.uas_callbacks with no_ack := false } }
  else if method = .INVITE then
    p.hMs.map fun ms =>
      { c with
        state := .COMPLETED
        timer := { type := .H, value_ms := ms, due_at_ms := TIME_NONE }
        uas_callbacks := { c.uas_callbacks with no_ack } }
  else
    some { c with
      state := .COMPLETED
      timer := { c.timer with type := .NONE }
      uas_callbacks := { c.uas_callbacks with no_ack := false } }

/-- `usipy_sip_tm_uas_handle_ack`. -/
def uasHandleAck (p : TimerPolicy) (now : UInt64) (c : Ctl) : Option Ctl :=
  let c := { c with next_send_at_ms := TIME_NONE }
  if c.reliable then some c.uasMarkTerminated
  else p.iMs.map fun ms => { c.arm .I ms now with state := .CONFIRMED }

/-- A request that comes again. -/
def requestRetransmitted (now : UInt64) (hasRaw : Bool) (c : Ctl) : Ctl :=
  { c with
    request_retransmits := c.request_retransmits + 1
    next_send_at_ms :=
      if c.state ≠ .CONFIRMED ∧ c.state ≠ .ACCEPTED ∧ hasRaw then now else c.next_send_at_ms }

/-- Timer L started at the first try of a 2xx. -/
def startTimerL (now : UInt64) (c : Ctl) : Ctl :=
  if c.state = .ACCEPTED ∧ c.timer.due_at_ms = TIME_NONE then
    { c with timer := { c.timer with due_at_ms := now + c.timer.value_ms.toUInt64 } }
  else c

/-- `usipy_sip_tm_uas_is_invite_non2xx_final`. -/
def uasIsInviteNon2xxFinal (method : Method) (c : Ctl) : Bool :=
  method == .INVITE && decide (300 ≤ c.last_status_code)

/-- `usipy_sip_tm_uas_invite_next_send_delay_ms`. -/
def uasInviteNextSendDelayMs (p : TimerPolicy) (c : Ctl) : Option UInt64 := do
  let t1 ← TimerPolicy.nonzero p.t1_ms
  let t2 ← TimerPolicy.nonzero p.t2_ms
  let shift := if 0 < c.retransmit_count then c.retransmit_count - 1 else 0
  if 31 ≤ shift then some t2.toUInt64
  else
    let delay := t1.toUInt64 <<< shift.toUInt64
    some (if t2.toUInt64 < delay then t2.toUInt64 else delay)

/-- `usipy_sip_tm_uas_post_send_invite_final`. -/
def uasPostSendInviteFinal (p : TimerPolicy) (now : UInt64) (c : Ctl) : Option Ctl :=
  let c :=
    if c.timer.due_at_ms = TIME_NONE then
      { c with timer := { c.timer with due_at_ms := now + c.timer.value_ms.toUInt64 } }
    else c
  if c.reliable then some c
  else (c.uasInviteNextSendDelayMs p).map fun delay => { c with next_send_at_ms := now + delay }

/-- `usipy_sip_tm_uas_post_send_final`. -/
def uasPostSendFinal (p : TimerPolicy) (now : UInt64) (c : Ctl) : Option Ctl :=
  if c.reliable then some c.uasMarkTerminated
  else p.jMs.map fun ms => c.arm .J ms now

/-- A response sent, up to where an accepted INVITE's owner is told. -/
def uasSent (p : TimerPolicy) (method : Method) (now : UInt64) (c : Ctl) : Option Ctl :=
  let c := { c.noteSend now with next_send_at_ms := TIME_NONE }
  if c.state = .ACCEPTED then some c
  else if 200 ≤ c.last_status_code && c.uasIsInviteNon2xxFinal method then
    c.uasPostSendInviteFinal p now
  else if 200 ≤ c.last_status_code then c.uasPostSendFinal p now
  else some c

end Ctl

/-- A change to a slot's control part, an assertion failing where there is none. -/
def setCtl (f : TimerPolicy → Ctl → Option Ctl) : TxM Unit := do
  let tp ← Op.get
  let c ← Op.demand (f tp.timers tp.toCtl)
  Op.modify fun tp => { tp with toCtl := c }

/-- A change to a slot's control part. -/
def modCtl (f : Ctl → Ctl) : TxM Unit := Op.modify fun tp => { tp with toCtl := f tp.toCtl }

end Microsippy
