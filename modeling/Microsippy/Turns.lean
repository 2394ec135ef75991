import Microsippy.DueTimes

/-! # Turns

What the turn of a slot in `usipy_sip_tm_run` comes to, before anybody is told and anything is sent.
-/

namespace Microsippy

set_option autoImplicit false

/-! ## A client's turn -/

/-- The deadline of an INVITE that is not abandoned has passed. -/
def Ctl.Expires (now : UInt64) (c : Ctl) : Prop := c.abandoned = false ∧ c.inviteExpired now = true

/-- Something is to be done for a transaction that a run does not pass over. -/
def Ctl.Due (now : UInt64) (c : Ctl) : Prop :=
  (c.role = .UAC ∧ c.inviteExpired now = true) ∨ c.timerDue now = true ∨ c.notSending now = false

theorem Ctl.WaitsFor.isDue {c : Ctl} {now t : UInt64} (h : c.WaitsFor t) (hPast : t ≤ now) : c.Due now := by
  obtain ⟨-, -, hSet, rfl | ⟨hRuns, rfl⟩ | ⟨hRole, iv, hInvite, rfl⟩⟩ := h
  · refine Or.inr (Or.inr ?_)
    rw [notSending, Bool.or_eq_false_iff, beq_eq_false_iff_ne, decide_eq_false_iff_not, UInt64.not_lt]
    exact ⟨hSet, hPast⟩
  · refine Or.inr (Or.inl ?_)
    rw [timerDue, Bool.and_eq_true, bne_iff_ne, decide_eq_true_eq]
    exact ⟨hRuns, hPast⟩
  · refine Or.inl ⟨hRole, ?_⟩
    rw [inviteExpired, hInvite]
    simp only [Bool.and_eq_true, bne_iff_ne, decide_eq_true_eq]
    exact ⟨hSet, hPast⟩

/-- The guard of an abandoned INVITE is armed only where no deadline is set. -/
theorem Ctl.WaitsFor.armCleanup {p : TimerPolicy} {now t : UInt64} {c c' : Ctl} (h : c.WaitsFor t)
    (hArm : c.armCleanup p now = some c') : c'.WaitsFor t := by
  rw [Ctl.armCleanup] at hArm
  split at hArm
  · rename_i hDue
    obtain ⟨ms, -, rfl⟩ := Option.map_eq_some_iff.mp hArm
    refine ⟨h.active, h.live, h.set, h.due.imp_right (Or.imp_right ?_)⟩
    rintro ⟨-, iv, hInvite, rfl⟩
    rw [cleanupDue, hInvite] at hDue
    refine absurd ?_ h.set
    cases hState : c.state <;> simp_all
  · obtain rfl := Option.some.inj hArm
    exact h

/-- The request of a slot is to be sent and cannot be built. -/
def Tm.Unbuildable (now : UInt64) (i : Nat) (tm : Tm) : Prop :=
  (tm.tx i).notSending now = false ∧ (tm.tx i).raw.l = 0 ∧
    ∃ c e tp, (tm.tx i).armCleanup (tm.tx i).timers now = some c ∧
      (buildRequest (tm.set i { tm.tx i with toCtl := c }) i {}).run { tm.tx i with toCtl := c } =
        some (.error e, tp)

/-- What a client's turn comes to before anybody is told. -/
inductive UacTurns (now : UInt64) (i : Nat) (tm : Tm) : Except TmError UacTurn → Tm → Prop
  | failed (e : TmError) (tm' : Tm) (h : tm.Unbuildable now i) : UacTurns now i tm (.error e) tm'
  | retired (h : (tm.tx i).state = .TERMINATED ∨ (tm.tx i).terminated = true) :
      UacTurns now i tm (.ok .over) tm
  | expired (told : Bool) (timeout_id : TimeoutId) (tm' : Tm)
      (hLive : ¬ ((tm.tx i).state = .TERMINATED ∨ (tm.tx i).terminated = true))
      (h : (tm.tx i).Expires now) : UacTurns now i tm (.ok (.timeout .expired told timeout_id)) tm'
  | ended (rest : TimeoutRest) (told : Bool) (timeout_id : TimeoutId) (tp : Txi) (hRest : rest ≠ .expired)
      (hState : tp.state = .TERMINATED) :
      UacTurns now i tm (.ok (.timeout rest told timeout_id)) (tm.set i tp)
  | orphaned (told : Bool) (c : Ctl) (tm' : Tm)
      (hLive : ¬ ((tm.tx i).state = .TERMINATED ∨ (tm.tx i).terminated = true))
      (hDue : (tm.tx i).timerDue now = true) (hGoesOn : (tm.tx i).GoesOn c)
      (hFired : (uacTimerFired i).run (tm.set i { tm.tx i with toCtl := c }) =
        some (.ok (.timeout .timer told .NONE), tm')) :
      UacTurns now i tm (.ok (.timeout .timer told .NONE)) tm'
  | idle (c : Ctl) (hLive : ¬ ((tm.tx i).state = .TERMINATED ∨ (tm.tx i).terminated = true))
      (hArm : (tm.tx i).armCleanup (tm.tx i).timers now = some c) (hRests : ¬ c.Due now) :
      UacTurns now i tm (.ok .idle) (tm.set i { tm.tx i with toCtl := c })
  | send (tp : Txi) (hLive : ¬ ((tm.tx i).state = .TERMINATED ∨ (tm.tx i).terminated = true))
      (hEarly : (tm.tx i).timerDue now = false) (hSending : (tm.tx i).notSending now = false)
      (hPending : ∀ c, (tm.tx i).armCleanup (tm.tx i).timers now = some c → c.inviteExpired now = false)
      (hGoesOn : (tm.tx i).GoesOn tp.toCtl) :
      UacTurns now i tm (.ok .send) (tm.set i tp)

theorem txTerminateChild_none {tm : Tm} {i : Nat} (fuel : Nat) (h : (tm.tx i).child_index = none) :
    (txTerminateChild (fuel + 1) i).run tm = some (.ok (), tm) := by
  rw [txTerminateChild, Op.run_bind, Op.run_get, Op.andThen_ok]
  simp only [h]
  rfl

theorem uacExpireInvite_abandoned {tm tm' : Tm} {i : Nat} {now : UInt64} {r : Except TmError UacTurn}
    (hAbandoned : (tm.tx i).abandoned = true) (hRun : (uacExpireInvite i now).run tm = some (r, tm')) :
    ∃ told timeout_id, r = .ok (.timeout .cleaned told timeout_id) ∧
      tm' = tm.set i { tm.tx i with toCtl := (tm.tx i).markTerminated.clearInviteTimeout } := by
  rw [uacExpireInvite, Op.run_bind, Op.run_get, Op.andThen_ok, Op.run_bind] at hRun
  cases hInvite : (tm.tx i).invite with
  | none =>
    rw [hInvite] at hRun
    cases hRun
  | some iv =>
    rw [hInvite, Op.run_demand_some, Op.andThen_ok] at hRun
    simp only [hAbandoned, Bool.not_true, Bool.false_eq_true, if_false] at hRun
    obtain ⟨rfl, rfl⟩ := Prod.mk.inj (Option.some.inj hRun)
    exact ⟨_, _, rfl, rfl⟩

/-! ### No turn but one that builds fails -/

theorem answers_onSlot {α : Type} {i : Nat} {x : Tm → TxM α} (hx : ∀ tm, Op.Answers (x tm)) :
    Op.Answers (onSlot i x) := by
  intro tm e tm' hRun
  obtain ⟨tp, hPart, -⟩ := onSlot_some hRun
  exact hx tm _ _ _ hPart

theorem answers_setCtl (f : TimerPolicy → Ctl → Option Ctl) : Op.Answers (setCtl f) := by
  intro tp e tp' hRun
  obtain ⟨c, -, hOk, -⟩ := setCtl_some hRun
  cases hOk

theorem answers_releaseOutbound : Op.Answers releaseOutbound := by
  intro tp e tp' hRun
  rw [releaseOutbound, Op.run_bind, Op.run_get, Op.andThen_ok, Op.run_bind] at hRun
  cases hBack : (rollbackTo tp.checkpoint).run tp with
  | none =>
    rw [hBack] at hRun
    cases hRun
  | some out =>
    obtain ⟨r, t⟩ := out
    obtain ⟨rfl, -⟩ := rollbackTo_some hBack
    rw [hBack] at hRun
    cases hRun

theorem answers_uacFinishAbandoned : Op.Answers uacFinishAbandoned :=
  .bind (.modify _) fun _ => answers_releaseOutbound

theorem answers_txTerminateChild (fuel i : Nat) : Op.Answers (txTerminateChild fuel i) := by
  induction fuel generalizing i with
  | zero => exact .assert _
  | succ fuel ih =>
    refine .bind .get fun tm => ?_
    cases (tm.tx i).child_index with
    | none => exact .pure _
    | some c =>
      refine .bind (.assert _) fun _ => .bind (.ite ?_ (.pure _)) fun _ => answers_onSlot fun _ => .modify _
      exact .bind (ih c) fun _ => answers_onSlot fun _ => .bind (.modify _) fun _ => answers_releaseOutbound

theorem answers_uacAbandon (i : Nat) : Op.Answers (uacAbandon i) := by
  refine .bind .get fun tm => .bind (.assert _) fun _ => .bind (answers_onSlot fun _ => .modify _) fun _ =>
    .ite (answers_onSlot fun _ => answers_uacFinishAbandoned) (.bind (.attempt _) fun r => ?_)
  cases r with
  | ok _ => exact .pure _
  | error _ => exact answers_onSlot fun _ => answers_uacFinishAbandoned

theorem answers_uacExpireInvite (i : Nat) (now : UInt64) : Op.Answers (uacExpireInvite i now) := by
  refine .bind .get fun tm => .bind (.demand _) fun iv => .ite ?_ ?_
  · exact .bind (answers_uacAbandon i) fun _ => .bind (answers_onSlot fun _ => answers_setCtl _) fun _ => .pure _
  · exact .bind (answers_onSlot fun _ => .modify _) fun _ => .pure _

/-! ### Turns -/

theorem uacExpireInvite_turns {tm tm' : Tm} {i : Nat} {now : UInt64} {r : Except TmError UacTurn}
    (hOpen : (tm.tx i).abandoned = false) (hRun : (uacExpireInvite i now).run tm = some (r, tm')) :
    ∃ told timeout_id, r = .ok (.timeout .expired told timeout_id) := by
  cases r with
  | error e => exact absurd hRun (answers_uacExpireInvite i now tm e tm')
  | ok turn =>
    obtain ⟨tm₁, _, hGet, hRun⟩ := Op.bind_ok.mp hRun
    obtain ⟨rfl, rfl⟩ := Op.get_ok.mp hGet
    obtain ⟨iv, _, -, hRun⟩ := Op.bind_ok.mp hRun
    simp only [hOpen, Bool.not_false, if_true] at hRun
    obtain ⟨_, _, -, hRun⟩ := Op.bind_ok.mp hRun
    obtain ⟨_, _, -, hRun⟩ := Op.bind_ok.mp hRun
    obtain ⟨rfl, -⟩ := Op.pure_ok.mp hRun
    exact ⟨_, _, rfl⟩

theorem uacTimerFired_turns {tm tm' : Tm} {i : Nat} {r : Except TmError UacTurn}
    (hRun : (uacTimerFired i).run tm = some (r, tm')) :
    ∃ told, r = .ok (.timeout .timer told .NONE) ∧
      ((tm.tx i).child_index = none →
        tm' = tm.set i { tm.tx i with toCtl := (tm.tx i).markTerminated.clearTimer }) := by
  rw [uacTimerFired, Op.run_bind] at hRun
  have hEnd : (onSlot i fun _ => modCtl fun c => c.markTerminated.clearTimer).run tm =
      some (.ok (), tm.set i { tm.tx i with toCtl := (tm.tx i).markTerminated.clearTimer }) := rfl
  rw [hEnd, Op.andThen_ok, Op.run_bind, Op.run_get, Op.andThen_ok, Op.run_bind] at hRun
  cases hChild : (tm.tx i).child_index with
  | none =>
    rw [txTerminateChild_none _ (by rw [Tm.set_same]; exact hChild), Op.andThen_ok] at hRun
    obtain ⟨rfl, rfl⟩ := Prod.mk.inj (Option.some.inj hRun)
    exact ⟨_, rfl, fun _ => rfl⟩
  | some c =>
    cases hRest : (txTerminateChild ((tm.set i { tm.tx i with
        toCtl := (tm.tx i).markTerminated.clearTimer }).max_transactions + 1) i).run
          (tm.set i { tm.tx i with toCtl := (tm.tx i).markTerminated.clearTimer }) with
    | none =>
      rw [hRest] at hRun
      cases hRun
    | some out =>
      obtain ⟨r₁, tm₁⟩ := out
      rw [hRest] at hRun
      cases r₁ with
      | error e => exact absurd hRest (answers_txTerminateChild _ i _ e tm₁)
      | ok u =>
        obtain ⟨rfl, rfl⟩ := Prod.mk.inj (Option.some.inj hRun)
        exact ⟨_, rfl, fun h => by cases h⟩

theorem Ctl.armCleanup_open {p : TimerPolicy} {now : UInt64} {c c' : Ctl} (hOpen : c.abandoned = false)
    (h : c.armCleanup p now = some c') : c' = c := by
  rw [armCleanup, cleanupDue, hOpen, Bool.false_and, if_neg Bool.false_ne_true] at h
  exact (Option.some.inj h).symm

theorem uacRun_turns {tm tm' : Tm} {now : UInt64} {i : Nat} {r : Except TmError UacTurn}
    (hRun : (uacRun i now).run tm = some (r, tm')) : UacTurns now i tm r tm' := by
  rw [uacRun, Op.run_bind, Op.run_get, Op.andThen_ok] at hRun
  split at hRun
  · rename_i hRetired
    obtain ⟨rfl, rfl⟩ := Prod.mk.inj (Option.some.inj hRun)
    exact .retired hRetired
  rename_i hLive
  rw [Op.run_bind] at hRun
  cases hArm : (onSlot i fun _ => uacArmCleanup now).run tm with
  | none =>
    rw [hArm] at hRun
    cases hRun
  | some out =>
    obtain ⟨r₁, tm₁⟩ := out
    rw [hArm] at hRun
    obtain ⟨tp, hPart, rfl⟩ := onSlot_some hArm
    obtain ⟨c, hc, rfl, rfl⟩ := setCtl_some hPart
    obtain ⟨invite, hIs⟩ := Ctl.armCleanup_some hc
    have hGoesOn := Ctl.armCleanup_goesOn hc
    rw [Op.andThen_ok, Op.run_bind, Op.run_get, Op.andThen_ok] at hRun
    simp only [Tm.set_same] at hRun
    split at hRun
    · rename_i hExpired
      cases hOpen : (tm.tx i).abandoned with
      | false =>
        obtain ⟨told, timeout_id, rfl⟩ :=
          uacExpireInvite_turns (by rw [Tm.set_same, hIs]; exact hOpen) hRun
        rw [Ctl.armCleanup_open hOpen hc] at hExpired
        exact .expired told timeout_id tm' hLive ⟨hOpen, hExpired⟩
      | true =>
        obtain ⟨told, timeout_id, rfl, rfl⟩ :=
          uacExpireInvite_abandoned (by rw [Tm.set_same, hIs]; exact hOpen) hRun
        rw [Tm.set_set, Tm.set_same]
        exact .ended _ _ _ _ (by decide) rfl
    · rename_i hPending
      have hPending : ∀ d, (tm.tx i).armCleanup (tm.tx i).timers now = some d → d.inviteExpired now = false := by
        intro d hd
        obtain rfl := Option.some.inj (hc.symm.trans hd)
        exact Bool.eq_false_iff.mpr hPending
      split at hRun
      · rename_i hDue
        have hDueOld : (tm.tx i).timerDue now = true := by rwa [hIs] at hDue
        obtain ⟨told, rfl, hAlone⟩ := uacTimerFired_turns hRun
        cases hChild : (tm.tx i).child_index with
        | none =>
          rw [hAlone (by rw [Tm.set_same]; exact hGoesOn.child.trans hChild), Tm.set_set]
          exact .ended _ _ _ _ (by decide) rfl
        | some b => exact .orphaned told c tm' hLive hDueOld hGoesOn hRun
      · rename_i hEarly
        split at hRun
        · rename_i hNothing
          obtain ⟨rfl, rfl⟩ := Prod.mk.inj (Option.some.inj hRun)
          refine .idle c hLive hc ?_
          rintro (⟨-, hExpired⟩ | hDue | hSending)
          · exact Bool.noConfusion ((hPending c hc).symm.trans hExpired)
          · exact hEarly hDue
          · exact Bool.noConfusion (hSending.symm.trans hNothing)
        · rename_i hSending
          have hEarlyOld : (tm.tx i).timerDue now = false := by
            rw [hIs] at hEarly
            exact Bool.eq_false_iff.mpr hEarly
          have hSendingOld : (tm.tx i).notSending now = false := by
            rw [hIs] at hSending
            exact Bool.eq_false_iff.mpr hSending
          split at hRun
          · rename_i hRaw
            rw [Op.run_bind] at hRun
            cases hBuild : (onSlot i fun tm => buildRequest tm i {}).run
                (tm.set i { tm.tx i with toCtl := c }) with
            | none =>
              rw [hBuild] at hRun
              cases hRun
            | some out =>
              obtain ⟨r₂, tm₂⟩ := out
              rw [hBuild] at hRun
              obtain ⟨tp₂, hPart₂, rfl⟩ := onSlot_some hBuild
              rw [Tm.set_same] at hPart₂
              have hBuilt := (quiet_buildRequest _ _ _ _ _ _ hPart₂).goesOn
              cases r₂ with
              | error e =>
                obtain ⟨rfl, rfl⟩ := Prod.mk.inj (Option.some.inj hRun)
                exact .failed e _ ⟨hSendingOld, hRaw, c, e, tp₂, hc, hPart₂⟩
              | ok u =>
                obtain ⟨rfl, rfl⟩ := Prod.mk.inj (Option.some.inj hRun)
                rw [Tm.set_set]
                exact .send tp₂ hLive hEarlyOld hSendingOld hPending (IsTrans.trans _ _ _ hGoesOn hBuilt)
          · obtain ⟨rfl, rfl⟩ := Prod.mk.inj (Option.some.inj hRun)
            exact .send { tm.tx i with toCtl := c } hLive hEarlyOld hSendingOld hPending hGoesOn

theorem Ctl.GoesOn.live {c c' : Ctl} (h : c.GoesOn c')
    (hLive : ¬ (c.state = .TERMINATED ∨ c.terminated = true)) : ¬ c'.Retired := by
  rintro (hState | ⟨-, hStopped⟩)
  · exact hLive (Or.inl (h.state.symm.trans hState))
  · exact hLive (Or.inr (h.terminated.symm.trans hStopped))

theorem uacTimedOut_some {tm tm' : Tm} {i : Nat} {rest : TimeoutRest} {r : Except TmError Unit}
    (hRun : (uacTimedOut i rest).run tm = some (r, tm')) :
    ∃ tp, tm' = tm.set i tp ∧ tp.state = (tm.tx i).state := by
  have hSame : ∃ tp, tm = tm.set i tp ∧ tp.state = (tm.tx i).state := ⟨_, (Tm.set_self tm i).symm, rfl⟩
  have hReleased : (onSlot i fun _ => releaseOutbound).run tm = some (r, tm') →
      ∃ tp, tm' = tm.set i tp ∧ tp.state = (tm.tx i).state := by
    intro hRun
    obtain ⟨tp, hPart, rfl⟩ := onSlot_some hRun
    refine ⟨tp, rfl, ?_⟩
    have hKeeps : Op.Keeps (fun tp tp' : Txi => tp'.state = tp.state) releaseOutbound := by
      have : IsPreorder Txi fun tp tp' : Txi => tp'.state = tp.state :=
        { refl := fun _ => rfl, trans := fun _ _ _ h h' => h'.trans h }
      refine .bind .get fun _ => .bind ?_ fun _ => .modify fun _ => rfl
      exact (quiet_rollbackTo _).mono fun _ _ h => h.goesOn.state
    exact hKeeps _ _ _ hPart
  rw [uacTimedOut, Op.run_bind, Op.run_get, Op.andThen_ok] at hRun
  cases rest with
  | expired =>
    obtain ⟨-, rfl⟩ := Prod.mk.inj (Option.some.inj hRun)
    exact hSame
  | cleaned => exact hReleased hRun
  | timer =>
    simp only at hRun
    split at hRun
    · exact hReleased hRun
    · obtain ⟨-, rfl⟩ := Prod.mk.inj (Option.some.inj hRun)
      exact hSame

/-! ## A server's turn -/

theorem uasRun_turns {tm tm' : Tm} {now : UInt64} {i : Nat} {r : Except TmError UasTurn}
    (hRun : (uasRun i now).run tm = some (r, tm')) :
    ((tm.tx i).timerDue now = true ∧ r = .ok (.timeout (tm.tx i).timer.type
        (tm.tx i).uas_callbacks.no_ack (tm.tx i).uas_owner) ∧
      tm' = tm.set i { tm.tx i with toCtl := (tm.tx i).uasMarkTerminated }) ∨
    ((tm.tx i).timerDue now = false ∧
        ((tm.tx i).state = .TERMINATED ∨ (tm.tx i).notSending now = true) ∧ r = .ok .idle ∧ tm' = tm) ∨
    ((tm.tx i).state ≠ .TERMINATED ∧ r = .ok .send ∧
      tm' = tm.set i { tm.tx i with toCtl := (tm.tx i).startTimerL now }) := by
  rw [uasRun, Op.run_bind, Op.run_get, Op.andThen_ok] at hRun
  simp only at hRun
  split at hRun
  · rename_i hDue
    obtain ⟨rfl, rfl⟩ := Prod.mk.inj (Option.some.inj hRun)
    exact Or.inl ⟨hDue, rfl, rfl⟩
  · rename_i hEarly
    split at hRun
    · rename_i hRests
      obtain ⟨rfl, rfl⟩ := Prod.mk.inj (Option.some.inj hRun)
      exact Or.inr (Or.inl ⟨Bool.eq_false_iff.mpr hEarly, hRests, rfl, rfl⟩)
    · rename_i hLive
      obtain ⟨rfl, rfl⟩ := Prod.mk.inj (Option.some.inj hRun)
      exact Or.inr (Or.inr ⟨(not_or.mp hLive).1, rfl, rfl⟩)

end Microsippy
