import Microsippy.Unstopped
import Microsippy.Turns

/-! # The assertions of a turn

A turn of a slot gets through from a table of fit slots, but for a timer value that does not fit, a request
without a URI, and links from child to child that do not end.
-/

namespace Microsippy

set_option autoImplicit false

/-! ## A turn of a client transaction -/

/-- 64 times T1 does not fit in 32 bits. -/
def TimerPolicy.Long (p : TimerPolicy) : Prop := 2 ^ 32 ≤ 64 * p.t1_ms.toNat

theorem TimerPolicy.t1x64_isSome {p : TimerPolicy} (h : ¬ p.Long) : p.t1x64.isSome := by
  obtain ⟨ms, hIs, -⟩ := TimerPolicy.t1x64_iff.mpr (Nat.not_le.mp h)
  rw [hIs]
  rfl

namespace Ctl

variable {p : TimerPolicy} {now : UInt64} {c : Ctl}

theorem armCleanup_isSome (h : c.cleanupDue = true → ¬ p.Long) : (c.armCleanup p now).isSome := by
  rw [armCleanup]
  split
  · rw [Option.isSome_map]
    exact TimerPolicy.t1x64_isSome (h ‹_›)
  · rfl

/-- A turn arms the guard of an INVITE that is given up, or gives up one that was sent. -/
def Guards (now : UInt64) (c : Ctl) : Prop :=
  c.cleanupDue = true ∨ c.Expires now ∧ c.retransmit_count ≠ 0

end Ctl

theorem defined_setCtl {f : TimerPolicy → Ctl → Option Ctl} :
    Op.Defined (fun tp : Txi => (f tp.timers tp.toCtl).isSome) (setCtl f) := by
  refine .getBind fun tp hSome => .seq (fun _ _ => True) (.demand fun _ _ => hSome) (fun _ _ _ _ _ => trivial)
    fun _ => (Op.Total.modify _).defined

theorem defined_uacArmCleanup (i : Nat) (now : UInt64) :
    Op.Defined (fun tm => (tm.tx i).cleanupDue = true → ¬ (tm.tx i).timers.Long)
    (onSlot i fun _ => uacArmCleanup now) := by
  refine Op.Defined.weaken (P := fun tm => ((tm.tx i).armCleanup (tm.tx i).timers now).isSome) ?_ fun tm h =>
    Ctl.armCleanup_isSome h
  exact defined_onSlot (P := fun tp => (tp.armCleanup tp.timers now).isSome) fun _ =>
    defined_setCtl (f := fun p c => c.armCleanup p now)

theorem defined_uacExpireInvite (i : Nat) (now : UInt64) :
    Op.Defined (fun tm => tm.Fit ∧ (tm.tx i).active = true ∧ (tm.tx i).state ≠ .TERMINATED ∧
    (tm.tx i).invite.isSome ∧
      ((tm.tx i).abandoned = false → (tm.tx i).retransmit_count ≠ 0 → ¬ (tm.tx i).timers.Long))
      (uacExpireInvite i now) := by
  refine .getBind fun tm h => ?_
  obtain ⟨hFit, hActive, hLive, hRecord, hShort⟩ := h
  refine .seq (fun _ t => t = tm) (.demand fun _ _ => hRecord)
    (fun _ _ _ hIs hRun => (Op.demand_ok.mp hRun).2.symm.trans hIs) fun iv =>
    .ite (fun hKept => ?_) fun _ => ?_
  · have hOpen : (tm.tx i).Open := ⟨hActive, hLive, Bool.not_eq_true' _ ▸ hKept, hRecord⟩
    refine .seq (fun _ t => (t.tx i).cleanupDue = true → ¬ (t.tx i).timers.Long)
      ((defined_uacAbandon i).weaken ?_) ?_
      fun _ => .seq (fun _ _ => True) (defined_uacArmCleanup i now) (fun _ _ _ _ _ => trivial) fun _ =>
      (Op.Total.pure _).defined
    · rintro _ rfl
      exact ⟨hFit, hOpen⟩
    · rintro _ u t rfl hRun hDue
      obtain ⟨hTimers, hEnded⟩ := uacAbandon_leaves hFit hOpen hRun
      rw [hTimers]
      refine hShort hOpen.kept fun hNever => ?_
      rw [Ctl.cleanupDue, hEnded hNever, Bool.and_false] at hDue
      cases hDue
  · exact (Op.Total.bind (total_onSlot fun _ => .modify _) fun _ => .pure _).defined

namespace Ctl

variable {p : TimerPolicy} {now : UInt64} {c c' : Ctl}

/-- The first try arms Timer B or Timer F, with no value of its own. -/
def ArmsDeadline (p : TimerPolicy) (c : Ctl) : Prop :=
  (c.isInvite = true ∧ c.waitsForInviteAck = false ∧ p.timer_b_ms = 0 ∧
    ∃ iv, c.invite = some iv ∧ iv.timeout_at_ms = TIME_NONE) ∨
  (c.isInvite = false ∧ c.isAck = false ∧ c.timer.type = .NONE ∧ p.timer_f_ms = 0)

/-- The delay of an INVITE's next try, doubled once too often. -/
def Outgrows (p : TimerPolicy) (c : Ctl) : Prop :=
  c.isInvite = true ∧ c.waitsForInviteAck = false ∧ c.reliable = false ∧
    (∃ iv, c.invite = some iv ∧ iv.provisional_seen = false) ∧
    0xffffffff < doubled ((c.retransmit_count + 1).toNat - 1) p.inviteBase.toUInt64

theorem ownOr_isSome {own : UInt32} {derived : Option UInt32} (h : own = 0 → derived.isSome) :
    (TimerPolicy.ownOr own derived).isSome := by
  rw [TimerPolicy.ownOr]
  split
  · rfl
  · exact h (not_not.mp ‹_›)

theorem scheduleResend_isSome {done : Bool} (h : done = false → (c.nextSendDelayMs p).isSome) :
    (c.scheduleResend p now done).isSome := by
  rw [scheduleResend]
  split
  · rfl
  · rw [Option.isSome_map]
    exact h (Bool.eq_false_iff.mpr ‹_›)

theorem nextSendDelayMs_isSome (h : c.isInvite = true →
    doubled (c.retransmit_count.toNat - 1) p.inviteBase.toUInt64 ≤ 0xffffffff) :
    (c.nextSendDelayMs p).isSome := by
  cases hIs : c.isInvite with
  | true =>
    have hWithin := h hIs
    simp only [TimerPolicy.inviteBase] at hWithin
    simp only [nextSendDelayMs, hIs, if_true, if_pos hWithin]
    rfl
  | false =>
    obtain ⟨delay, hDelay, -⟩ := other_delay (p := p) hIs
    rw [hDelay]
    rfl

theorem postSendInvite_isSome (hIs : c.isInvite = true) (hRecord : c.invite.isSome)
    (hDeadline : c.ArmsDeadline p → ¬ p.Long) (hGrowth : ¬ c.Outgrows p) :
    ((c.noteSend now).postSendInvite p now).isSome := by
  rw [postSendInvite]
  split
  · rfl
  rename_i hFree
  have hFree : c.waitsForInviteAck = false := Bool.eq_false_iff.mpr hFree
  obtain ⟨iv, hIv⟩ := Option.isSome_iff_exists.mp hRecord
  have hArmed : ∃ iv', armTimerB p now iv = some iv' ∧ iv'.provisional_seen = iv.provisional_seen := by
    rw [armTimerB]
    split
    · have hMs : p.bMs.isSome := ownOr_isSome fun hOwn => TimerPolicy.t1x64_isSome
        (hDeadline (Or.inl ⟨hIs, hFree, hOwn, iv, hIv, ‹_›⟩))
      obtain ⟨ms, hMs⟩ := Option.isSome_iff_exists.mp hMs
      rw [hMs]
      exact ⟨_, rfl, rfl⟩
    · exact ⟨iv, rfl, rfl⟩
  obtain ⟨iv', hIv', hSeen⟩ := hArmed
  have hNoted : (c.noteSend now).invite = some iv := hIv
  simp only [Option.bind_eq_bind, hNoted, Option.bind_some, hIv']
  refine scheduleResend_isSome fun hGoesOn => nextSendDelayMs_isSome fun _ => ?_
  obtain ⟨hUnseen, hPlain⟩ := Bool.or_eq_false_iff.mp hGoesOn
  have hFirst : iv.provisional_seen = false := hSeen.symm.trans hUnseen
  exact UInt64.not_lt.mp fun hMore => hGrowth ⟨hIs, hFree, hPlain, ⟨iv, hIv, hFirst⟩, hMore⟩

theorem postSendNoninvite_isSome (hNot : c.isInvite = false) (hOther : c.isAck = false)
    (hDeadline : c.ArmsDeadline p → ¬ p.Long) : ((c.noteSend now).postSendNoninvite p now).isSome := by
  have hResend : ∀ d : Ctl, d.isInvite = false → (d.scheduleResend p now d.reliable).isSome := fun d hd =>
    scheduleResend_isSome fun _ => nextSendDelayMs_isSome fun hIs => Bool.noConfusion (hd.symm.trans hIs)
  simp only [postSendNoninvite, Option.bind_eq_bind]
  split
  · rename_i hNone
    have hMs : p.fMs.isSome := ownOr_isSome fun hOwn => TimerPolicy.t1x64_isSome
      (hDeadline (Or.inr ⟨hNot, hOther, hNone, hOwn⟩))
    obtain ⟨ms, hMs⟩ := Option.isSome_iff_exists.mp hMs
    rw [hMs]
    exact hResend _ hNot
  · exact hResend _ hNot

theorem uacSent_isSome (hRecord : c.isInvite = true → c.invite.isSome)
    (hDeadline : c.ArmsDeadline p → ¬ p.Long)
    (hGrowth : ¬ c.Outgrows p) : (c.uacSent p now).isSome := by
  simp only [uacSent]
  split
  · rfl
  · rename_i hOther
    split
    · rename_i hIs
      exact postSendInvite_isSome hIs (hRecord hIs) hDeadline hGrowth
    · rename_i hNot
      exact postSendNoninvite_isSome (Bool.eq_false_iff.mpr hNot) (Bool.eq_false_iff.mpr hOther) hDeadline

end Ctl

/-- A live client transaction's turn that its deadline does not end. -/
structure Tm.UacGoesOn (now : UInt64) (i : Nat) (tm : Tm) : Prop where
  live : ¬ ((tm.tx i).state = .TERMINATED ∨ (tm.tx i).terminated = true)
  pending : ∀ c, (tm.tx i).armCleanup (tm.tx i).timers now = some c → c.inviteExpired now = false

/-- A turn that is to send the request. -/
structure Tm.UacSends (now : UInt64) (i : Nat) (tm : Tm) : Prop extends Tm.UacGoesOn now i tm where
  early : (tm.tx i).timerDue now = false
  sending : (tm.tx i).notSending now = false

/-- The turn of a client transaction violates an assertion before anything is sent. -/
inductive Tm.UacStops (now : UInt64) (i : Nat) (tm : Tm) : Prop
  /-- The guard of an INVITE that is given up is 64 times T1. -/
  | guard (hLive : ¬ ((tm.tx i).state = .TERMINATED ∨ (tm.tx i).terminated = true))
      (hGuards : (tm.tx i).Guards now) (hLong : (tm.tx i).timers.Long)
  /-- A timer fires, and the links from child to child do not end. -/
  | circle (h : tm.UacGoesOn now i) (hDue : (tm.tx i).timerDue now = true)
      (hEndless : ¬ tm.EndsIn (tm.max_transactions + 1) i)
  /-- A request is to be built, and has no URI. -/
  | unbuilt (h : tm.UacSends now i) (hRaw : (tm.tx i).raw.l = 0)
      (hUri : (tm.tx i).cache.uac.request_uri = none)

/-- The turn of a client transaction violates an assertion. -/
inductive Tm.UacAsserts (now : UInt64) (i : Nat) (rval : Int) (tm : Tm) : Prop
  | stops (h : tm.UacStops now i)
  /-- Timer B or Timer F is 64 times T1. -/
  | deadline (h : tm.UacSends now i) (hBuilds : ¬ tm.Unbuildable now i) (hSent : rval = 0)
      (hArms : (tm.tx i).ArmsDeadline (tm.tx i).timers) (hLong : (tm.tx i).timers.Long)
  /-- The delay of the next try does not fit. -/
  | resend (h : tm.UacSends now i) (hBuilds : ¬ tm.Unbuildable now i) (hSent : rval = 0)
      (hGrowth : (tm.tx i).Outgrows (tm.tx i).timers)

section

variable {tm tm' : Tm} {now : UInt64} {i : Nat} {rval : Int}

theorem Tm.EndsIn.set {fuel : Nat} {c : Ctl} (hChild : c.child_index = (tm.tx i).child_index)
    (hActive : c.active = (tm.tx i).active) {p : Nat} (h : tm.EndsIn fuel p) :
    (tm.set i { tm.tx i with toCtl := c }).EndsIn fuel p := by
  have hSame : ∀ j, ((tm.set i { tm.tx i with toCtl := c }).tx j).child_index = (tm.tx j).child_index ∧
      ((tm.set i { tm.tx i with toCtl := c }).tx j).active = (tm.tx j).active := by
    intro j
    by_cases hj : j = i
    · subst hj
      rw [Tm.set_same]
      exact ⟨hChild, hActive⟩
    · rw [Tm.set_other _ _ hj]
      exact ⟨rfl, rfl⟩
  induction fuel generalizing p with
  | zero => exact h
  | succ fuel ih =>
    intro k hLink hOn
    rw [(hSame p).1] at hLink
    rw [(hSame k).2] at hOn
    exact ih (h k hLink hOn)

theorem uacTimerFired_ne_none (hFit : tm.Fit) (hEnds : tm.EndsIn (tm.max_transactions + 1) i) :
    (uacTimerFired i).run tm ≠ none := by
  have hEnded : (tm.set i { tm.tx i with toCtl := (tm.tx i).markTerminated.clearTimer }).Fit :=
    hFit.steady (Txi.steady_ctl ⟨⟨rfl, rfl, rfl, rfl, rfl⟩, rfl⟩)
  refine Op.Defined.seq (P := (· = tm)) (fun _ t => t.Fit ∧ t.EndsIn (tm.max_transactions + 1) i ∧
    t.max_transactions = tm.max_transactions) (total_onSlot fun _ => .modify _).defined
    ?_ (fun _ => ?_) tm rfl
  · rintro _ u t rfl hRun
    obtain ⟨tp, hPart, rfl⟩ := onSlot_ok.mp hRun
    obtain rfl := Op.modify_ok.mp hPart
    exact ⟨hEnded, hEnds.set (c := Ctl.clearTimer (Ctl.markTerminated _)) rfl rfl, rfl⟩
  · refine .getBind fun t h => ?_
    refine .seq (fun _ _ => True) ((defined_txTerminateChild _ i).weaken ?_) (fun _ _ _ _ _ => trivial)
      fun _ => (Op.Total.bind .get fun _ => .pure _).defined
    rintro _ rfl
    rw [h.2.2]
    exact ⟨h.1, h.2.1⟩

/-- The slot with its guard armed, if it needs one. -/
theorem uacArmCleanup_run {c : Ctl} (hArm : (tm.tx i).armCleanup (tm.tx i).timers now = some c) :
    (onSlot i fun _ => uacArmCleanup now).run tm = some (.ok (), tm.set i { tm.tx i with toCtl := c }) := by
  refine onSlot_ok.mpr ⟨_, ?_, rfl⟩
  simp only [uacArmCleanup, setCtl, Op.run_bind, Op.run_get, Op.andThen_ok, hArm, Op.run_demand_some,
    Op.run_modify]

theorem Tm.Fit.armed {c : Ctl} (hFit : tm.Fit) (hArm : (tm.tx i).armCleanup (tm.tx i).timers now = some c) :
    (tm.set i { tm.tx i with toCtl := c }).Fit :=
  hFit.steady (Txi.steady_ctl (Ctl.stays_armCleanup hArm))

section

variable {c : Ctl}

theorem Tm.UacGoesOn.armed (hLive : ¬ ((tm.tx i).state = .TERMINATED ∨ (tm.tx i).terminated = true))
    (hArm : (tm.tx i).armCleanup (tm.tx i).timers now = some c) (hNone : ¬ c.inviteExpired now = true) :
    tm.UacGoesOn now i := by
  refine ⟨hLive, fun d hd => ?_⟩
  obtain rfl := Option.some.inj (hArm.symm.trans hd)
  exact Bool.eq_false_iff.mpr hNone

theorem Tm.UacGoesOn.sends (h : tm.UacGoesOn now i)
    (hArm : (tm.tx i).armCleanup (tm.tx i).timers now = some c)
    (hEarly : ¬ c.timerDue now = true) (hSending : ¬ c.notSending now = true) : tm.UacSends now i := by
  obtain ⟨invite, rfl⟩ := Ctl.armCleanup_some hArm
  exact ⟨h, Bool.eq_false_iff.mpr hEarly, Bool.eq_false_iff.mpr hSending⟩

theorem Ctl.invite_of_expired (h : c.inviteExpired now = true) : c.invite.isSome := by
  rw [Ctl.inviteExpired] at h
  split at h
  · rename_i iv hIv
    rw [hIv]
    rfl
  · cases h

/-- An INVITE given up in time for its guard. -/
theorem uacExpireInvite_ne_none (hFit : tm.Fit) (hActive : (tm.tx i).active = true)
    (hLive : ¬ ((tm.tx i).state = .TERMINATED ∨ (tm.tx i).terminated = true))
    (hShort : (tm.tx i).Guards now → ¬ (tm.tx i).timers.Long)
    (hArm : (tm.tx i).armCleanup (tm.tx i).timers now = some c) (hExpired : c.inviteExpired now = true) :
    (uacExpireInvite i now).run (tm.set i { tm.tx i with toCtl := c }) ≠ none := by
  have hGoesOn := Ctl.armCleanup_goesOn hArm
  refine defined_uacExpireInvite i now _ ⟨hFit.armed hArm, ?_⟩
  rw [Tm.set_same]
  refine ⟨hGoesOn.active.trans hActive, fun hEnded => hLive (Or.inl (hGoesOn.state.symm.trans hEnded)),
    Ctl.invite_of_expired hExpired, fun hKept hSent => ?_⟩
  have hOpen : (tm.tx i).abandoned = false := by
    obtain ⟨invite, rfl⟩ := Ctl.armCleanup_some hArm
    exact hKept
  obtain rfl := Ctl.armCleanup_open hOpen hArm
  exact hShort (Or.inr ⟨⟨hOpen, hExpired⟩, hSent⟩)

theorem uacBuild_ne_none (hFit : tm.Fit) (hActive : (tm.tx i).active = true) (hRole : (tm.tx i).role = .UAC)
    (hUri : (tm.tx i).cache.uac.request_uri.isSome)
    (hArm : (tm.tx i).armCleanup (tm.tx i).timers now = some c) :
    (onSlot i fun tm => buildRequest tm i {}).run (tm.set i { tm.tx i with toCtl := c }) ≠ none := by
  have hGoesOn := Ctl.armCleanup_goesOn hArm
  have hSlot := (hFit.armed hArm).slots i
  rw [Tm.set_same] at hSlot
  have hClient := hSlot.client (hGoesOn.active.trans hActive) (hGoesOn.role.trans hRole)
  have hBuilds : ((tm.set i { tm.tx i with toCtl := c }).tx i).Builds := by
    rw [Tm.set_same]
    exact ⟨hSlot.toRolls, hClient.1, hUri⟩
  exact defined_onSlot (fun t => defined_buildRequest t i {}) _ hBuilds

end

theorem uacRun_ne_none (hFit : tm.Fit) (hActive : (tm.tx i).active = true) (hRole : (tm.tx i).role = .UAC)
    (hNot : ¬ tm.UacStops now i) : (uacRun i now).run tm ≠ none := by
  rw [uacRun, Op.run_bind, Op.run_get, Op.andThen_ok]
  split
  · exact Option.some_ne_none _
  rename_i hLive
  have hShort : (tm.tx i).Guards now → ¬ (tm.tx i).timers.Long :=
    fun hGuards hLong => hNot (.guard hLive hGuards hLong)
  have hArms : ((tm.tx i).armCleanup (tm.tx i).timers now).isSome :=
    Ctl.armCleanup_isSome fun hDue => hShort (Or.inl hDue)
  obtain ⟨c, hArm⟩ := Option.isSome_iff_exists.mp hArms
  rw [Op.run_bind, uacArmCleanup_run hArm, Op.andThen_ok, Op.run_bind, Op.run_get, Op.andThen_ok]
  simp only [Tm.set_same]
  split
  · rename_i hExpired
    exact uacExpireInvite_ne_none hFit hActive hLive hShort hArm hExpired
  rename_i hNone
  have hOn : tm.UacGoesOn now i := .armed hLive hArm hNone
  split
  · rename_i hDue
    have hGoesOn := Ctl.armCleanup_goesOn hArm
    have hDueOld : (tm.tx i).timerDue now = true := by
      obtain ⟨invite, rfl⟩ := Ctl.armCleanup_some hArm
      exact hDue
    refine uacTimerFired_ne_none (hFit.armed hArm) (Tm.EndsIn.set hGoesOn.child hGoesOn.active ?_)
    by_contra hEndless
    exact hNot (.circle hOn hDueOld hEndless)
  rename_i hEarly
  split
  · exact Option.some_ne_none _
  rename_i hSending
  split
  · rename_i hRaw
    have hUri : (tm.tx i).cache.uac.request_uri.isSome := by
      rw [Option.isSome_iff_ne_none]
      exact fun hUri => hNot (.unbuilt (hOn.sends hArm hEarly hSending) hRaw hUri)
    exact Op.Defined.seq (P := (· = tm.set i { tm.tx i with toCtl := c })) (fun _ _ => True)
      (fun _ hIs => hIs ▸ uacBuild_ne_none hFit hActive hRole hUri hArm) (fun _ _ _ _ _ => trivial)
      (fun _ => (Op.Total.pure _).defined) _ rfl
  · exact Option.some_ne_none _

/-- A turn that sends: the slot as it was but for the guard, with its message. -/
theorem uacRun_sent (hFit : tm.Fit) (hRun : (uacRun i now).run tm = some (.ok .send, tm')) :
    tm.UacSends now i ∧ ¬ tm.Unbuildable now i ∧ ∃ tp, tm' = tm.set i tp ∧
      (tm.tx i).armCleanup (tm.tx i).timers now = some tp.toCtl ∧ tp.timers = (tm.tx i).timers := by
  rw [uacRun, Op.run_bind, Op.run_get, Op.andThen_ok] at hRun
  split at hRun
  · cases hRun
  rename_i hLive
  obtain ⟨u, tm₁, hFirst, hRun⟩ := Op.bind_ok.mp hRun
  obtain ⟨tp₁, hPart, rfl⟩ := onSlot_ok.mp hFirst
  obtain ⟨c, hArm, -, rfl⟩ := setCtl_some hPart
  rw [Op.run_bind, Op.run_get, Op.andThen_ok] at hRun
  simp only [Tm.set_same] at hRun
  split at hRun
  · have hSame : ((tm.set i { tm.tx i with toCtl := c }).tx i).abandoned = (tm.tx i).abandoned := by
      obtain ⟨invite, rfl⟩ := Ctl.armCleanup_some hArm
      rw [Tm.set_same]
    cases hOpen : (tm.tx i).abandoned with
    | false =>
      obtain ⟨told, id, hOther⟩ := uacExpireInvite_turns (hSame.trans hOpen) hRun
      cases hOther
    | true =>
      obtain ⟨told, id, hOther, -⟩ := uacExpireInvite_abandoned (hSame.trans hOpen) hRun
      cases hOther
  rename_i hNone
  split at hRun
  · obtain ⟨told, hOther, -⟩ := uacTimerFired_turns hRun
    cases hOther
  rename_i hEarly
  split at hRun
  · cases hRun
  rename_i hSending
  have hOn : tm.UacGoesOn now i := .armed hLive hArm hNone
  refine ⟨hOn.sends hArm hEarly hSending, ?_⟩
  split at hRun
  · obtain ⟨u, tm₂, hBuild, hRun⟩ := Op.bind_ok.mp hRun
    obtain ⟨tp, hBuilt, rfl⟩ := onSlot_ok.mp hBuild
    obtain ⟨-, rfl⟩ := Op.pure_ok.mp hRun
    rw [Tm.set_same] at hBuilt
    have hSteady : Txi.Steady False _ tp := steady_buildRequest _ i {} _ _ _ hBuilt
    have hQuiet := quiet_buildRequest _ _ _ _ _ _ hBuilt
    have hSlot := (hFit.armed hArm).slots i
    rw [Tm.set_same] at hSlot
    refine ⟨?_, tp, Tm.set_set _ _ _ _, ?_, hSteady.timers⟩
    · rintro ⟨-, -, d, e, tq, hd, hFails⟩
      obtain rfl := Option.some.inj (hArm.symm.trans hd)
      cases hBuilt.symm.trans hFails
    · rw [hArm, hQuiet.ctl, hSlot.method_eq hSteady]
  · rename_i hRaw
    obtain ⟨-, rfl⟩ := Op.pure_ok.mp hRun
    exact ⟨fun h => hRaw h.2.1, _, rfl, hArm, rfl⟩

theorem Ctl.armCleanup_cases {p : TimerPolicy} {c c' : Ctl} (h : c.armCleanup p now = some c') :
    c' = c ∨ c.cleanupDue = true ∧ ∃ f : UacInvite → UacInvite, c' = c.onInvite f ∧
      ∀ iv, (f iv).provisional_seen = iv.provisional_seen := by
  rw [Ctl.armCleanup] at h
  split at h
  · obtain ⟨ms, -, rfl⟩ := Option.map_eq_some_iff.mp h
    exact Or.inr ⟨‹_›, _, rfl, fun _ => rfl⟩
  · exact Or.inl (Option.some.inj h).symm

theorem Ctl.Outgrows.of_armCleanup {p : TimerPolicy} {c c' : Ctl} (hArm : c.armCleanup p now = some c')
    (h : c'.Outgrows p) : c.Outgrows p := by
  obtain rfl | ⟨-, f, rfl, hSeen⟩ := Ctl.armCleanup_cases hArm
  · exact h
  · obtain ⟨hIs, hFree, hPlain, ⟨iv, hIv, hUnseen⟩, hMore⟩ := h
    obtain ⟨iv', hIv', rfl⟩ := Option.map_eq_some_iff.mp hIv
    exact ⟨hIs, hFree, hPlain, ⟨iv', hIv', (hSeen iv').symm.trans hUnseen⟩, hMore⟩

theorem uacSent_ne_none (hFit : tm.Fit) (hActive : (tm.tx i).active = true) (hRole : (tm.tx i).role = .UAC)
    (hNot : ¬ tm.UacAsserts now i 0) (hRun : (uacRun i now).run tm = some (.ok .send, tm')) :
    (uacSent i now).run tm' ≠ none := by
  obtain ⟨hSends, hBuilds, tp, rfl, hArm, hTimers⟩ := uacRun_sent hFit hRun
  have hSlot := hFit.slots i
  have hStays := Ctl.stays_armCleanup hArm
  have hSome : (tp.uacSent tp.timers now).isSome := by
    rw [hTimers]
    refine Ctl.uacSent_isSome (fun hIs => ?_) (fun hArms => ?_) fun hGrowth => ?_
    · rw [hStays.invite]
      have hInvite : (tm.tx i).method_type = .INVITE := hStays.method.symm.trans (beq_iff_eq.mp hIs)
      exact (hSlot.client hActive hRole).2 hInvite
    · obtain hSame | ⟨hDue, -⟩ := Ctl.armCleanup_cases hArm
      · rw [hSame] at hArms
        exact fun hLong => hNot (.deadline hSends hBuilds rfl hArms hLong)
      · exact fun hLong => hNot (.stops (.guard hSends.live (Or.inl hDue) hLong))
    · exact hNot (.resend hSends hBuilds rfl (hGrowth.of_armCleanup hArm))
  refine Op.Defined.seq (P := fun t => ((t.tx i).uacSent (t.tx i).timers now).isSome) (fun _ _ => True)
    (defined_onSlot (P := fun tp => (tp.uacSent tp.timers now).isSome) fun _ =>
      defined_setCtl (f := fun p c => c.uacSent p now)) (fun _ _ _ _ _ => trivial)
        (fun _ => Op.Total.defined ?_) _ ?_
  · refine .bind .get fun t => ?_
    split
    · exact .bind (.modify _) fun _ => .pure _
    · exact .pure _
  · simp only [Tm.set_same]
    exact hSome

theorem uacTimedOut_ne_none (hFit : tm.Fit) (rest : TimeoutRest) : (uacTimedOut i rest).run tm ≠ none := by
  have hRelease : Op.Defined Tm.Fit (onSlot i fun _ => releaseOutbound) :=
    (defined_onSlot fun _ => defined_releaseOutbound).weaken fun t h => (h.slots i).toRolls
  refine Op.Defined.getBind (P := Tm.Fit) (fun t h => ?_) tm hFit
  cases rest with
  | expired => exact (Op.Total.pure _).defined
  | cleaned => exact hRelease.weaken fun _ hIs => hIs ▸ h
  | timer => exact .ite (fun _ => hRelease.weaken fun _ hIs => hIs ▸ h) fun _ => (Op.Total.pure _).defined

theorem uacResponseDone_ne_none (hFit : tm.Fit) (code : StatusCode) :
    (uacResponseDone i code).run tm ≠ none := by
  refine Op.Defined.getBind (P := Tm.Fit) (fun t h => .ite (fun _ => ?_) fun _ =>
    (Op.Total.pure _).defined) tm hFit
  exact (defined_onSlot fun _ => defined_releaseOutbound).weaken fun _ hIs => hIs ▸ (h.slots i).toRolls

/-! ## A turn of a server transaction -/

theorem uasRun_ne_none : (uasRun i now).run tm ≠ none := by
  refine Op.Total.bind .get (fun t => .ite ?_ (.ite (.pure _) ?_)) tm
  · exact .bind (total_onSlot fun _ => .modify _) fun _ => .pure _
  · exact .bind (total_onSlot fun _ => .modify _) fun _ => .pure _

theorem Ctl.uasSent_isSome {p : TimerPolicy} {method : Method} {c : Ctl} (hFirst : p.t1_ms ≠ 0)
    (hLast : p.t2_ms ≠ 0) : (c.uasSent p method now).isSome := by
  have hDelay : ∀ d : Ctl, (d.uasInviteNextSendDelayMs p).isSome := by
    intro d
    simp only [uasInviteNextSendDelayMs, TimerPolicy.nonzero, if_pos hFirst,
      if_pos hLast, Option.bind_eq_bind,
      Option.bind_some]
    generalize (if 0 < d.retransmit_count then d.retransmit_count - 1 else 0) = shift
    split
    · rfl
    · rfl
  have hInvite : ∀ d : Ctl, (d.uasPostSendInviteFinal p now).isSome := by
    intro d
    simp only [uasPostSendInviteFinal]
    split
    all_goals
      split
      · rfl
      · rw [Option.isSome_map]
        exact hDelay _
  have hOther : ∀ d : Ctl, (d.uasPostSendFinal p now).isSome := by
    intro d
    rw [uasPostSendFinal]
    split
    · rfl
    · rw [Option.isSome_map]
      refine ownOr_isSome fun _ => ?_
      rw [TimerPolicy.t1x64u32, TimerPolicy.nonzero, if_pos hFirst]
      rfl
  simp only [uasSent]
  split
  · rfl
  · split
    · exact hInvite _
    · split
      · exact hOther _
      · rfl

theorem uasSent_ne_none (hFit : tm.Fit) (hActive : (tm.tx i).active = true) :
    (uasSent i now).run tm ≠ none := by
  obtain ⟨hFirst, hLast⟩ := (hFit.slots i).policy hActive
  refine Op.Defined.getBind (P := (· = tm)) (fun t hIs => ?_) tm rfl
  subst hIs
  refine .seq (fun _ _ => True) (Op.Defined.weaken (P := fun s => ((s.tx i).uasSent (s.tx i).timers
    (t.tx i).cache.method_type now).isSome) ?_ fun s hs => ?_) (fun _ _ _ _ _ => trivial) fun _ =>
    (Op.Total.pure _).defined
  · exact defined_onSlot (P := fun tp => (tp.uasSent tp.timers
      (t.tx i).cache.method_type now).isSome) fun _ =>
      defined_setCtl (f := fun p c => c.uasSent p (t.tx i).cache.method_type now)
  · rw [hs]
    exact Ctl.uasSent_isSome hFirst hLast

end

end Microsippy
