import Microsippy.WorldMoves

/-! # What a client transaction's callbacks are told

A final response or a timeout ends a client transaction for the application. Over a run it is told of one
at most, but for three kinds of step.
-/

namespace Microsippy

set_option autoImplicit false

/-- A callback of transaction `b` in slot `i`. -/
def Event.isAbout (i b : Nat) : Event → Bool
  | .response index born _ => index == i && born == b
  | .timeout index born _ => index == i && born == b
  | _ => false

/-- A callback that ends it: a final response or a timeout. -/
def Event.ends (i b : Nat) : Event → Bool
  | .response index born code => index == i && born == b && decide (200 ≤ code.1)
  | .timeout index born _ => index == i && born == b
  | _ => false

theorem Event.isNotice_of_isAbout {i b : Nat} {e : Event} (h : e.isAbout i b = true) :
    e.isNotice = true := by
  cases e with
  | response index born code => rfl
  | timeout index born timeout_id => rfl
  | _ => cases h

theorem Event.isAbout_of_ends {i b : Nat} {e : Event} (h : e.ends i b = true) :
    e.isAbout i b = true := by
  cases e with
  | response index born code =>
    rw [Event.ends, Bool.and_eq_true] at h
    exact h.1
  | timeout index born timeout_id => exact h
  | _ => cases h

/-- A client transaction that has nothing final to tell any more. -/
def Txi.Told (tp : Txi) : Prop :=
  tp.callbacks = {} ∨ tp.final_reported = true ∨ (tp.terminated = true ∧ tp.callbacks.timeout = true)

theorem Txi.SameLife.told {late : Prop} {tp tp' : Txi} (h : tp.SameLife ⟨False, late⟩ tp')
    (hActive : tp.active = true) (hTold : tp.Told) : tp'.Told := by
  obtain ⟨hReported, hStopped⟩ := h.done.resolve_left id
  rcases h.callbacks hActive with ⟨hSame, -⟩ | hNone
  · rw [Txi.Told, hSame]
    exact hTold.imp_right (Or.imp hReported fun hBoth => ⟨hStopped hBoth.1, hBoth.2⟩)
  · exact Or.inl hNone

/-! ## Responses -/

theorem uacAckFinal_reported {index : Nat} {msg : Msg} {sclass : Nat} {now : UInt64} {tm tm' : Tm}
    {u : Unit} (hRun : (uacAckFinal index msg sclass now).run tm = some (.ok u, tm')) :
    (tm'.tx index).final_reported = true := by
  obtain ⟨ack_index, _, -, hRun⟩ := Op.bind_ok.mp hRun
  obtain ⟨_, _, -, hRun⟩ := Op.bind_ok.mp hRun
  obtain ⟨_, _, -, hRun⟩ := Op.bind_ok.mp hRun
  obtain ⟨_, _, -, hRun⟩ := Op.bind_ok.mp hRun
  obtain ⟨_, _, -, hRun⟩ := Op.bind_ok.mp hRun
  obtain ⟨tp, hPart, rfl⟩ := onSlot_ok.mp hRun
  obtain rfl := Op.modify_ok.mp hPart
  rw [Tm.set_same]

/-- A final response that is delivered is the first, and it is reported. -/
theorem uacResponded_final {i : Nat} {now : UInt64} {msg : Msg} {code : StatusCode} {tm tm' : Tm}
    (hFinal : 200 ≤ code.1) (hRun : (uacResponded i now msg code).run tm = some (.ok true, tm')) :
    (tm.tx i).final_reported = false ∧ (tm'.tx i).final_reported = true := by
  have hClass : code.1 / 100 ≠ 1 := by omega
  rw [uacResponded, Op.run_bind, Op.run_get, Op.andThen_ok] at hRun
  simp only [hClass, and_false, if_false] at hRun
  split at hRun
  · obtain ⟨_, _, -, hRun⟩ := Op.bind_ok.mp hRun
    obtain ⟨_, _, hAck, hRun⟩ := Op.bind_ok.mp hRun
    obtain ⟨hNew, rfl⟩ := Op.pure_ok.mp hRun
    exact ⟨by simpa using hNew, uacAckFinal_reported hAck⟩
  · obtain ⟨_, _, hHeard, hRun⟩ := Op.bind_ok.mp hRun
    obtain ⟨hNew, rfl⟩ := Op.pure_ok.mp hRun
    refine ⟨by simpa using hNew, ?_⟩
    obtain ⟨tp, hPart, rfl⟩ := onSlot_ok.mp hHeard
    obtain ⟨_, tp₁, hSet, hPart⟩ := Op.bind_ok.mp hPart
    obtain ⟨c, hc, -, rfl⟩ := setCtl_some hSet
    obtain ⟨ms, -, rfl⟩ := Option.map_eq_some_iff.mp hc
    obtain rfl := Op.modify_ok.mp hPart
    rw [Tm.set_same]

theorem handleIncomingResponse_told {now : UInt64} {msg : Msg} {code : StatusCode} {tid : Tid}
    {tm tm' : Tm} {i : Nat} {told : Bool}
    (hRun : (handleIncomingResponse now msg code tid).run tm = some (.ok (i, told), tm')) :
    tm.findUac tid = some i ∧ ∃ deliver, (uacResponded i now msg code).run tm = some (.ok deliver, tm') ∧
      told = (deliver && (tm'.tx i).callbacks.response) := by
  obtain ⟨_, _, hGet, hRun⟩ := Op.bind_ok.mp hRun
  obtain ⟨rfl, rfl⟩ := Op.get_ok.mp hGet
  obtain ⟨j, _, hMatch, hRun⟩ := Op.bind_ok.mp hRun
  obtain ⟨hFound, rfl⟩ := Op.orElse_ok.mp hMatch
  obtain ⟨deliver, _, hDone, hRun⟩ := Op.bind_ok.mp hRun
  obtain ⟨_, _, hGet, hRun⟩ := Op.bind_ok.mp hRun
  obtain ⟨rfl, rfl⟩ := Op.get_ok.mp hGet
  obtain ⟨hIs, rfl⟩ := Op.pure_ok.mp hRun
  obtain ⟨rfl, rfl⟩ := Prod.mk.inj hIs
  exact ⟨hFound, deliver, hDone, rfl⟩

/-! ## Timeouts -/

/-- An abandoned INVITE has no callbacks, whatever becomes of it. -/
theorem uacAbandon_silent {index : Nat} {tm tm' : Tm} {u : Unit} (hUac : tm.Uac index)
    (hRun : (uacAbandon index).run tm = some (.ok u, tm')) :
    ∃ tm₁, Acts {} tm₁ tm' ∧ tm₁.Uac index ∧ (tm₁.tx index).callbacks = {} ∧ tm₁.serial = tm.serial ∧
      (tm₁.tx index).active = (tm.tx index).active := by
  obtain ⟨_, _, hGet, hRun⟩ := Op.bind_ok.mp hRun
  obtain ⟨rfl, rfl⟩ := Op.get_ok.mp hGet
  obtain ⟨_, _, hOpen, hRun⟩ := Op.bind_ok.mp hRun
  obtain ⟨-, rfl⟩ := Op.assert_ok.mp hOpen
  obtain ⟨_, tm₁, hFirst, hRun⟩ := Op.bind_ok.mp hRun
  have hUac₁ : tm₁.Uac index := by
    have hActs : Acts {} tm tm₁ := acts_work (fun _ => life_abandon.from) _ _ _ hUac hFirst
    exact hActs.uac hUac
  obtain ⟨tp, hPart, rfl⟩ := onSlot_ok.mp hFirst
  obtain rfl := Op.modify_ok.mp hPart
  refine ⟨_, ?_, hUac₁, by rw [Tm.set_same]; rfl, rfl, by rw [Tm.set_same]; rfl⟩
  exact Op.KeepsFrom.ite (fun _ => acts_work fun _ => life_uacFinishAbandoned.from)
    (fun _ => acts_startCancelOrFinish index) _ _ _ hUac₁ hRun

/-- A turn that comes to a timeout: the deadline of an INVITE, or the transaction timer. -/
theorem uacRun_timeout {index : Nat} {now : UInt64} {rest : TimeoutRest} {told : Bool}
    {timeout_id : TimeoutId} {tm tm' : Tm}
    (hRun : (uacRun index now).run tm = some (.ok (.timeout rest told timeout_id), tm')) :
    (tm.tx index).terminated = false ∧
      ∃ c, (tm.tx index).armCleanup (tm.tx index).timers now = some c ∧
        ((c.inviteExpired now = true ∧ (uacExpireInvite index now).run
            (tm.set index { tm.tx index with toCtl := c }) =
              some (.ok (.timeout rest told timeout_id), tm')) ∨
          (uacTimerFired index).run (tm.set index { tm.tx index with toCtl := c }) =
            some (.ok (.timeout rest told timeout_id), tm')) := by
  rw [uacRun, Op.run_bind, Op.run_get, Op.andThen_ok] at hRun
  split at hRun
  · obtain ⟨hTurn, -⟩ := Op.pure_ok.mp hRun
    cases hTurn
  · rename_i hLive
    rw [not_or] at hLive
    refine ⟨Bool.eq_false_iff.mpr hLive.2, ?_⟩
    obtain ⟨_, tm₁, hArm, hRun⟩ := Op.bind_ok.mp hRun
    obtain ⟨tp, hPart, rfl⟩ := onSlot_ok.mp hArm
    obtain ⟨c, hc, -, rfl⟩ := setCtl_some hPart
    refine ⟨c, hc, ?_⟩
    rw [Op.run_bind, Op.run_get, Op.andThen_ok] at hRun
    simp only [Tm.set_same] at hRun
    split at hRun
    · rename_i hExpired
      exact Or.inl ⟨hExpired, hRun⟩
    · split at hRun
      · exact Or.inr hRun
      · split at hRun
        · obtain ⟨hTurn, -⟩ := Op.pure_ok.mp hRun
          cases hTurn
        · obtain ⟨_, _, -, hRun⟩ := Op.bind_ok.mp hRun
          obtain ⟨hTurn, -⟩ := Op.pure_ok.mp hRun
          cases hTurn

/-- A client transaction that a timeout leaves as it was before the turn, but for what the timeout does. -/
def Tm.Stays (i : Nat) (tm tm' : Tm) : Prop :=
  (tm'.tx i).active = true ∧ (tm'.tx i).role = .UAC ∧ (tm'.tx i).born < tm.serial

theorem uacExpireInvite_told {index : Nat} {now : UInt64} {rest : TimeoutRest} {told : Bool}
    {timeout_id : TimeoutId} {tm tm' : Tm} (hUac : tm.Uac index) (hStays : tm.Stays index tm')
    (hRun : (uacExpireInvite index now).run tm = some (.ok (.timeout rest told timeout_id), tm')) :
    told = (tm.tx index).callbacks.timeout ∧ (told = true → (tm'.tx index).Told) := by
  obtain ⟨_, _, hGet, hRun⟩ := Op.bind_ok.mp hRun
  obtain ⟨rfl, rfl⟩ := Op.get_ok.mp hGet
  obtain ⟨iv, _, hDemand, hRun⟩ := Op.bind_ok.mp hRun
  obtain ⟨-, rfl⟩ := Op.demand_ok.mp hDemand
  split at hRun
  · obtain ⟨_, tm₁, hAbandon, hRun⟩ := Op.bind_ok.mp hRun
    obtain ⟨_, tm₂, hArm, hRun⟩ := Op.bind_ok.mp hRun
    obtain ⟨hTurn, rfl⟩ := Op.pure_ok.mp hRun
    obtain ⟨-, rfl, -⟩ := UacTurn.timeout.inj hTurn
    refine ⟨rfl, fun _ => Or.inl ?_⟩
    obtain ⟨tm₀, hActs, hUac₀, hSilent, hSerial, hActive⟩ := uacAbandon_silent hUac hAbandon
    have hLast : Acts {} tm₁ tm₂ := acts_work (fun _ => (life_uacArmCleanup now).from) _ _ _
      (hActs.uac hUac₀) hArm
    have hLife := Moves.client (Acts.moves (hActs.trans hLast)) hStays.1 (hSerial ▸ hStays.2.2) hStays.2.1
    rcases hLife.callbacks (hLife.life.active.symm.trans hStays.1) with ⟨hSame, -⟩ | hNone
    · exact hSame.trans hSilent
    · exact hNone
  · obtain ⟨_, tm₁, hEnd, hRun⟩ := Op.bind_ok.mp hRun
    obtain ⟨hTurn, rfl⟩ := Op.pure_ok.mp hRun
    obtain ⟨-, rfl, -⟩ := UacTurn.timeout.inj hTurn
    refine ⟨rfl, fun hTold => Or.inr (Or.inr ?_)⟩
    obtain ⟨tp, hPart, rfl⟩ := onSlot_ok.mp hEnd
    obtain rfl := Op.modify_ok.mp hPart
    rw [Tm.set_same]
    exact ⟨rfl, hTold⟩

theorem uacTimerFired_told {index : Nat} {rest : TimeoutRest} {told : Bool}
    {timeout_id : TimeoutId} {tm tm' : Tm} (hStays : tm.Stays index tm')
    (hRun : (uacTimerFired index).run tm = some (.ok (.timeout rest told timeout_id), tm')) :
    told = (!(tm'.tx index).final_reported && (tm'.tx index).callbacks.timeout) ∧
      (told = true → (tm'.tx index).Told) := by
  obtain ⟨_, tm₁, hEnd, hRun⟩ := Op.bind_ok.mp hRun
  obtain ⟨_, _, hGet, hRun⟩ := Op.bind_ok.mp hRun
  obtain ⟨rfl, rfl⟩ := Op.get_ok.mp hGet
  obtain ⟨_, tm₂, hChild, hRun⟩ := Op.bind_ok.mp hRun
  obtain ⟨_, _, hGet, hRun⟩ := Op.bind_ok.mp hRun
  obtain ⟨rfl, rfl⟩ := Op.get_ok.mp hGet
  obtain ⟨hTurn, rfl⟩ := Op.pure_ok.mp hRun
  obtain ⟨-, rfl, -⟩ := UacTurn.timeout.inj hTurn
  refine ⟨rfl, fun hTold => Or.inr (Or.inr ⟨?_, ((Bool.and_eq_true _ _).mp hTold).2⟩)⟩
  obtain ⟨tp, hPart, rfl⟩ := onSlot_ok.mp hEnd
  obtain rfl := Op.modify_ok.mp hPart
  have hActs : Acts {} (tm.set index _) tm₂ := acts_txTerminateChild _ _ _ _ _ hChild
  have hLife := hActs.moves.client hStays.1 hStays.2.2 hStays.2.1
  refine (hLife.done.resolve_left id).2 ?_
  rw [Tm.set_same]
  rfl

/-- A turn that tells the application of a timeout. -/
theorem uacRun_told {index : Nat} {now : UInt64} {rest : TimeoutRest} {timeout_id : TimeoutId} {tm tm' : Tm}
    (hUac : tm.Uac index) (hStays : tm.Stays index tm')
    (hRun : (uacRun index now).run tm = some (.ok (.timeout rest true timeout_id), tm')) :
    (tm.tx index).terminated = false ∧ (tm'.tx index).Told ∧
      (((tm.tx index).callbacks.timeout = true ∧
        ∃ c, (tm.tx index).armCleanup (tm.tx index).timers now = some c ∧ c.inviteExpired now = true) ∨
          ((tm'.tx index).final_reported = false ∧ (tm'.tx index).callbacks.timeout = true)) := by
  obtain ⟨hLive, c, hc, hTurn⟩ := uacRun_timeout hRun
  obtain ⟨invite, hIs⟩ := Ctl.armCleanup_some hc
  have hUac₁ : (tm.set index { tm.tx index with toCtl := c }).Uac index := by
    have hAct : Acts {} tm (tm.set index { tm.tx index with toCtl := c }) :=
      .single (.work index _ hUac.2 (.of_done (Ctl.works_armCleanup hc).1 rfl (Ctl.works_armCleanup hc).2))
    exact hAct.uac hUac
  refine ⟨hLive, ?_⟩
  cases hTurn with
  | inl hExpired =>
    obtain ⟨hWas, hTold⟩ := uacExpireInvite_told hUac₁ hStays hExpired.2
    rw [Tm.set_same] at hWas
    refine ⟨hTold rfl, Or.inl ⟨?_, c, hc, hExpired.1⟩⟩
    rw [hWas, hIs]
  | inr hFired =>
    obtain ⟨hNew, hTold⟩ :=
      uacTimerFired_told (show (tm.set index _).Stays index tm' from hStays) hFired
    obtain ⟨hOpen, hHas⟩ := (Bool.and_eq_true _ _).mp hNew.symm
    exact ⟨hTold rfl, Or.inr ⟨by simpa using hOpen, hHas⟩⟩

namespace World

/-! ## One step -/

/-- A final response taken for a transaction whose timeout was told. -/
def HearsEnded (w : World) (l : Label) (i : Nat) : Prop :=
  ∃ now msg code tid, l = .call (.handleIncoming now (some msg)) ∧ msg.sline = .res code ∧
    msg.getTid w.tm.mem = some tid ∧ w.tm.findUac tid = some i ∧ 200 ≤ code.1 ∧
      (w.tm.tx i).terminated = true ∧ (w.tm.tx i).final_reported = false ∧
        (w.tm.tx i).callbacks.response = true ∧ (w.tm.tx i).callbacks.timeout = true

/-- A turn at which the deadline of an INVITE passes whose final response was reported. -/
def ExpiresReported (w : World) (l : Label) (i : Nat) : Prop :=
  ∃ now outp stack rval, w.stack = .run now i outp :: stack ∧ l = .turn rval ∧
    (w.tm.tx i).final_reported = true ∧ (w.tm.tx i).callbacks.timeout = true ∧
      ∃ c, (w.tm.tx i).armCleanup (w.tm.tx i).timers now = some c ∧ c.inviteExpired now = true

/-- The steps after which one notice that ends transaction `i` may follow another. -/
def Repeats (w : World) (l : Label) (i : Nat) : Prop :=
  w.Renews l i ∨ w.HearsEnded l i ∨ w.ExpiresReported l i

variable {w w' : World} {l : Label} {e : Event} {i b : Nat}

theorem tells_role (hOk : w.tm.UasOk) (hTells : w.Tells l e w'.tm) (hAbout : e.isAbout i b = true) :
    (w'.tm.tx i).role = .UAC ∧ (w'.tm.tx i).born = b := by
  generalize hTm : w'.tm = tm at hTells
  cases hTells with
  | response now msg code tid j tm hl hLine hTid hRun =>
    simp only [Event.isAbout, Bool.and_eq_true, beq_iff_eq] at hAbout
    obtain ⟨rfl, rfl⟩ := hAbout
    exact ⟨handleIncomingResponse_role hOk hRun, rfl⟩
  | timeout now rval j outp stack rest timeout_id tm hStack hl hRole hRun =>
    simp only [Event.isAbout, Bool.and_eq_true, beq_iff_eq] at hAbout
    obtain ⟨rfl, rfl⟩ := hAbout
    have hActs : Acts {} w.tm tm := acts_uacRun j now _ _ _ ⟨hOk, hRole⟩ hRun
    exact ⟨(hActs.uac ⟨hOk, hRole⟩).2, rfl⟩

/-- What is told is told of a transaction that was there before. -/
theorem tells_stays (hOk : w.tm.UasOk) (hSound : w'.tm.Sound) (hTells : w.Tells l e w'.tm)
    (hAbout : e.isAbout i b = true) (hZero : b ≠ 0) (hBorn : b < w.tm.serial) :
    w.tm.Stays i w'.tm := by
  obtain ⟨hRole, hSame⟩ := tells_role hOk hTells hAbout
  exact ⟨(hSound i).born.mpr (hSame ▸ hZero), hRole, hSame ▸ hBorn⟩

/-- A transaction without callbacks is told nothing. -/
theorem tells_callbacks (hOk : w.tm.UasOk) (hStep : w.step l = some w') (hStays : w.tm.Stays i w'.tm)
    (hTells : w.Tells l e w'.tm) (hAbout : e.isAbout i b = true) : (w.tm.tx i).callbacks ≠ {} := by
  have hLife := (step_moves hOk hStep).client hStays.1 hStays.2.2 hStays.2.1
  have hBack : (w'.tm.tx i).callbacks ≠ {} → (w.tm.tx i).callbacks ≠ {} := by
    intro hSome
    rcases hLife.callbacks (hLife.life.active.symm.trans hStays.1) with ⟨hSame, -⟩ | hNone
    · rwa [← hSame]
    · exact absurd hNone hSome
  generalize hTm : w'.tm = tm at hTells hStays hBack
  cases hTells with
  | response now msg code tid j tm hl hLine hTid hRun =>
    simp only [Event.isAbout, Bool.and_eq_true, beq_iff_eq] at hAbout
    obtain ⟨rfl, rfl⟩ := hAbout
    obtain ⟨-, deliver, -, hTold⟩ := handleIncomingResponse_told hRun
    refine hBack fun hNone => ?_
    rw [hNone, Bool.and_false] at hTold
    cases hTold
  | timeout now rval j outp stack rest timeout_id tm hStack hl hRole hRun =>
    simp only [Event.isAbout, Bool.and_eq_true, beq_iff_eq] at hAbout
    obtain ⟨rfl, rfl⟩ := hAbout
    obtain ⟨-, -, ⟨hHas, -⟩ | ⟨-, hHas⟩⟩ := uacRun_told ⟨hOk, hRole⟩ hStays hRun
    · exact fun hNone => by
        rw [hNone] at hHas
        cases hHas
    · exact hBack fun hNone => by
        rw [hNone] at hHas
        cases hHas

/-- What ends a transaction for the application is told once. -/
theorem tells_ends (hOk : w.tm.UasOk) (hStep : w.step l = some w') (hStays : w.tm.Stays i w'.tm)
    (hTells : w.Tells l e w'.tm) (hEnds : e.ends i b = true) (hOnce : ¬ w.Repeats l i) :
    ¬ (w.tm.tx i).Told ∧ (w'.tm.tx i).Told := by
  have hLife := (step_moves hOk hStep).client hStays.1 hStays.2.2 hStays.2.1
  have hSome := tells_callbacks hOk hStep hStays hTells (Event.isAbout_of_ends hEnds)
  simp only [Repeats, not_or] at hOnce
  obtain ⟨hNotNew, hNotEnded, hNotExpired⟩ := hOnce
  have hReported : (w.tm.tx i).final_reported = true → (w'.tm.tx i).final_reported = true :=
    (hLife.done.resolve_left hNotNew).1
  have hCalls := hLife.callbacks (hLife.life.active.symm.trans hStays.1)
  generalize hTm : w'.tm = tm at hTells hStays hReported hCalls ⊢
  cases hTells with
  | response now msg code tid j tm hl hLine hTid hRun =>
    simp only [Event.ends, Bool.and_eq_true, beq_iff_eq, decide_eq_true_eq] at hEnds
    obtain ⟨⟨rfl, rfl⟩, hFinal⟩ := hEnds
    obtain ⟨hFound, deliver, hDone, hTold⟩ := handleIncomingResponse_told hRun
    obtain ⟨rfl, hHas⟩ := (Bool.and_eq_true _ _).mp hTold.symm
    obtain ⟨hNew, hNow⟩ := uacResponded_final hFinal hDone
    refine ⟨?_, Or.inr (Or.inl hNow)⟩
    rintro (hNone | hWas | ⟨hStopped, hTimed⟩)
    · exact hSome hNone
    · rw [hNew] at hWas
      cases hWas
    · refine hNotEnded ⟨now, msg, code, tid, hl, hLine, hTid, hFound, hFinal, hStopped, hNew, ?_, hTimed⟩
      rcases hCalls with ⟨hSame, -⟩ | hNone
      · rwa [← hSame]
      · rw [hNone] at hHas
        cases hHas
  | timeout now rval j outp stack rest timeout_id tm hStack hl hRole hRun =>
    simp only [Event.ends, Bool.and_eq_true, beq_iff_eq] at hEnds
    obtain ⟨rfl, rfl⟩ := hEnds
    obtain ⟨hLive, hTold, hWhich⟩ := uacRun_told ⟨hOk, hRole⟩ hStays hRun
    refine ⟨?_, hTold⟩
    rintro (hNone | hWas | ⟨hStopped, -⟩)
    · exact hSome hNone
    · rcases hWhich with ⟨hHas, hExpired⟩ | ⟨hOpen, -⟩
      · exact hNotExpired ⟨now, outp, stack, rval, hStack, hl, hWas, hHas, hExpired⟩
      · rw [hReported hWas] at hOpen
        cases hOpen
    · rw [hLive] at hStopped
      cases hStopped

/-! ## Runs -/

/-- How often the application was told the end of transaction `b` in slot `i`. -/
def endings (w : World) (i b : Nat) : Nat := w.log.countP (Event.ends i b)

/-- How often it was told anything of it. -/
def abouts (w : World) (i b : Nat) : Nat := w.log.countP (Event.isAbout i b)

theorem countP_notices {p : Event → Bool} (h : ∀ e, p e = true → e.isNotice = true) (w : World) :
    w.log.countP p = w.notices.countP p := by
  rw [notices, List.countP_filter]
  refine List.countP_congr fun e _ => ?_
  simp only [Bool.and_eq_true, iff_self_and]
  exact h e

/-- What a step adds to a count of notices. -/
theorem step_counts {p : Event → Bool} (h : ∀ e, p e = true → e.isNotice = true) (hOk : w.tm.UasOk)
    (hStep : w.step l = some w') :
    w'.log.countP p = w.log.countP p ∨
      ∃ e, w.Tells l e w'.tm ∧ p e = true ∧ w'.log.countP p = w.log.countP p + 1 := by
  rw [countP_notices h, countP_notices h]
  rcases (step_went hOk hStep).notices with hNone | ⟨e, hTells, hOne⟩
  · exact Or.inl (by rw [hNone])
  · rw [hOne, List.countP_append, List.countP_singleton]
    cases hp : p e with
    | false => exact Or.inl (by simp)
    | true => exact Or.inr ⟨e, hTells, hp, by simp⟩

theorem Reachable.run {ok : World → Label → Prop} (h : w.Reachable) (hRun : Transition.Run step ok w w') :
    w'.Reachable := by
  obtain ⟨p, tm, hCtor, hFirst⟩ := h
  exact ⟨p, tm, hCtor, hFirst.trans (hRun.mono fun _ _ _ => trivial)⟩

theorem run_endings (hReachable : w.Reachable) (hZero : b ≠ 0) (hBorn : b < w.tm.serial)
    (hRun : Transition.Run step (fun w l => ¬ w.Repeats l i) w w') :
    w.endings i b ≤ w'.endings i b ∧ w'.endings i b ≤ w.endings i b + 1 ∧
      (w.endings i b < w'.endings i b → (w'.tm.tx i).active = true → (w'.tm.tx i).role = .UAC →
        (w'.tm.tx i).born = b → (w'.tm.tx i).Told) := by
  induction hRun with
  | refl => exact ⟨Nat.le_refl _, Nat.le_succ _, fun h => absurd h (Nat.lt_irrefl _)⟩
  | @snoc t u l hFirst hOnce hStep ih =>
    obtain ⟨hLow, hHigh, hTold⟩ := ih
    obtain ⟨hSerial, hOk⟩ := run_serial_le hReachable.slots.1 hFirst
    have hBornT : b < t.tm.serial := Nat.lt_of_lt_of_le hBorn hSerial
    have hLife : (u.tm.tx i).active = true → (u.tm.tx i).role = .UAC → (u.tm.tx i).born = b →
        (t.tm.tx i).SameLife ⟨False, t.HearsLate l i⟩ (u.tm.tx i) := fun hActive hRole hSame =>
      .mono (u := (t.grants l).undone i) (fun h => hOnce (Or.inl h)) id
        ((step_moves hOk hStep).client hActive (hSame ▸ hBornT) hRole)
    rcases step_counts (fun e he => Event.isNotice_of_isAbout (Event.isAbout_of_ends he)) hOk hStep with
      hSame | ⟨e, hTells, hEnds, hOne⟩
    · rw [← endings, ← endings] at hSame
      rw [hSame]
      refine ⟨hLow, hHigh, fun hLt hActive hRole hIs => ?_⟩
      have hStill := hLife hActive hRole hIs
      have hActiveT := hStill.life.active.symm.trans hActive
      exact hStill.told hActiveT
        (hTold hLt hActiveT (hStill.life.role.symm.trans hRole) (hStill.life.born.symm.trans hIs))
    · have hSound : u.tm.Sound := (hReachable.run (.snoc hFirst hOnce hStep)).sound
      have hAbout := Event.isAbout_of_ends hEnds
      have hStays := tells_stays hOk hSound hTells hAbout hZero hBornT
      obtain ⟨hNot, hNow⟩ := tells_ends hOk hStep hStays hTells hEnds hOnce
      have hStill := hLife hStays.1 hStays.2.1 (tells_role hOk hTells hAbout).2
      rw [← endings, ← endings] at hOne
      rw [hOne]
      have hNotYet : ¬ w.endings i b < t.endings i b := fun hLt =>
        hNot (hTold hLt (hStill.life.active.symm.trans hStays.1)
          (hStill.life.role.symm.trans hStays.2.1)
          (hStill.life.born.symm.trans (tells_role hOk hTells hAbout).2))
      exact ⟨by omega, by omega, fun _ _ _ _ => hNow⟩

/-- A transaction without callbacks is told nothing in any run. -/
theorem run_silent (hReachable : w.Reachable) (hZero : b ≠ 0) (hBorn : b < w.tm.serial)
    (hSilent : (w.tm.tx i).born = b → (w.tm.tx i).callbacks = {})
    (hRun : Transition.Run step (fun _ _ => True) w w') : w'.abouts i b = w.abouts i b := by
  induction hRun with
  | refl => rfl
  | @snoc t u l hFirst _ hStep ih =>
    obtain ⟨hSerial, hOk⟩ := run_serial_le hReachable.slots.1 hFirst
    rcases step_counts (fun e => Event.isNotice_of_isAbout (i := i) (b := b)) hOk hStep with
      hSame | ⟨e, hTells, hAbout, -⟩
    · exact hSame.trans ih
    · have hBornT : b < t.tm.serial := Nat.lt_of_lt_of_le hBorn hSerial
      have hSound : u.tm.Sound := (hReachable.run (.snoc hFirst trivial hStep)).sound
      have hStays := tells_stays hOk hSound hTells hAbout hZero hBornT
      have hStill := (step_moves hOk hStep).client hStays.1 hStays.2.2 hStays.2.1
      have hIs := hStill.life.born.symm.trans (tells_role hOk hTells hAbout).2
      have hWas : (w.tm.tx i).SameLife ⟨True, True⟩ (t.tm.tx i) :=
        run_client (fun _ _ _ => ⟨fun _ => trivial, fun _ => trivial⟩) hReachable.slots.1 hFirst
          (hIs ▸ hBorn) (hStill.life.role.symm.trans hStays.2.1) (hStill.life.active.symm.trans hStays.1)
      refine absurd ?_ (tells_callbacks hOk hStep hStays hTells hAbout)
      have hActive := hWas.life.active.symm.trans (hStill.life.active.symm.trans hStays.1)
      have hNone := hSilent (hWas.life.born.symm.trans hIs)
      rcases hWas.callbacks hActive with ⟨hSame, -⟩ | hGone
      · exact hSame.trans hNone
      · exact hGone

/-! ## Cancelling -/

theorem afterReply_some {α : Type} {x : SysM α} {f : Except TmError α → Except TmError Answer}
    (h : w.after x (fun r w => w.reply (f r)) = some w') :
    ∃ r s, x.run w.toSys = some (r, s) ∧ w' = World.emit (.reply (f r)) { w with toSys := s } := by
  rw [World.after] at h
  cases hRun : x.run w.toSys with
  | none =>
    rw [hRun] at h
    cases h
  | some out =>
    rw [hRun] at h
    exact ⟨out.1, out.2, rfl, (Option.some.inj h).symm⟩

theorem answerUnit_some {x : SysM Unit} (h : w.answerUnit x = some w') :
    ∃ r s, x.run w.toSys = some (r, s) ∧
      w' = World.emit (.reply (r.map fun _ => .ok)) { w with toSys := s } := afterReply_some h

theorem cancel_silent {tm tm' : Tm} {u : Unit} (hOk : tm.UasOk) (hSound : tm.Sound)
    (hNumbered : tm.Numbered) (hRun : (cancel i).run tm = some (.ok u, tm')) :
    (tm.tx i).active = true ∧
      ((tm'.tx i).born = (tm.tx i).born → (tm'.tx i).callbacks = {}) := by
  obtain ⟨_, _, hGet, hRun⟩ := Op.bind_ok.mp hRun
  obtain ⟨rfl, rfl⟩ := Op.get_ok.mp hGet
  obtain ⟨_, _, hIn, hRun⟩ := Op.bind_ok.mp hRun
  obtain ⟨-, rfl⟩ := Op.require_ok.mp hIn
  obtain ⟨_, _, hThere, hRun⟩ := Op.bind_ok.mp hRun
  obtain ⟨hActive, rfl⟩ := Op.require_ok.mp hThere
  obtain ⟨_, _, hUac, hRun⟩ := Op.bind_ok.mp hRun
  obtain ⟨hRole, rfl⟩ := Op.assert_ok.mp hUac
  obtain ⟨_, _, hMay, hRun⟩ := Op.bind_ok.mp hRun
  obtain ⟨-, rfl⟩ := Op.require_ok.mp hMay
  obtain ⟨_, _, hNew, hRun⟩ := Op.bind_ok.mp hRun
  obtain ⟨-, rfl⟩ := Op.require_ok.mp hNew
  obtain ⟨iv, _, hDemand, hRun⟩ := Op.bind_ok.mp hRun
  obtain ⟨-, rfl⟩ := Op.demand_ok.mp hDemand
  obtain ⟨_, _, hOnce, hRun⟩ := Op.bind_ok.mp hRun
  obtain ⟨-, rfl⟩ := Op.assert_ok.mp hOnce
  obtain ⟨_, tm₁, hNote, hRun⟩ := Op.bind_ok.mp hRun
  have hFirst : Acts {} tm tm₁ :=
    acts_work (fun _ => (life_onInvite _).from) _ _ _ ⟨hOk, hRole⟩ hNote
  obtain ⟨tp, hPart, rfl⟩ := onSlot_ok.mp hNote
  obtain rfl := Op.modify_ok.mp hPart
  refine ⟨hActive, fun hSame => ?_⟩
  split at hRun
  · rename_i hAbandoned
    obtain ⟨-, rfl⟩ := Op.pure_ok.mp hRun
    rw [Tm.set_same]
    exact (hSound i).abandoned hRole hActive hAbandoned
  · obtain ⟨tm₀, hRest, hUac₀, hSilent, hSerial, -⟩ := uacAbandon_silent (hFirst.uac ⟨hOk, hRole⟩) hRun
    have hWhole : Acts {} tm tm' :=
      hFirst.trans (acts_uacAbandon i _ _ _ (hFirst.uac ⟨hOk, hRole⟩) hRun)
    have hActive' : (tm'.tx i).active = true :=
      ((Acts.moves hWhole).sound hSound hNumbered i).born.mpr (hSame ▸ (hSound i).born.mp hActive)
    have hLater : (tm'.tx i).born < tm₀.serial := hSame ▸ hSerial ▸ hNumbered i
    have hLife := Moves.client (Acts.moves hRest) hActive' hLater (hRest.uac hUac₀).2
    rcases hLife.callbacks (hLife.life.active.symm.trans hActive') with ⟨hKept, -⟩ | hNone
    · exact hKept.trans hSilent
    · exact hNone

end World

/-! ## One request, two answers -/

/-- An OPTIONS request of an application that wants to be told. -/
def toldOptions : List Label :=
  [.call (.newUacTr { Sample.request .OPTIONS with callbacks := some ⟨true, true⟩ })]

/-- A 200 to the request of slot 0 with some branch and number. -/
def optionsOk (branch : String) (val : UInt32) : Msg :=
  { sline := .res resOk.code
    hdrs := [
      ⟨.VIA, Str.null, some (.via { params := [⟨Sample.str "branch", Sample.str branch⟩] })⟩,
      ⟨.FROM, Str.null, some (.nameaddr { params := [⟨Sample.str "tag", Sample.str "t0"⟩] })⟩,
      ⟨.TO, Str.null, some (.nameaddr { params := [⟨Sample.str "tag", Sample.str "x"⟩] })⟩,
      ⟨.CALLID, Sample.str "c0", some (.generic (Sample.str "c0"))⟩,
      ⟨.CSEQ, Str.null, some (.cseq { val, method := .OPTIONS })⟩] }

/-- The request sent, and answered. -/
def optionsAnswered (now : UInt64) (branch : String) (val : UInt32) : List Label :=
  [.call (.run now true), .turn 0, .turn 0,
    .call (.handleIncoming now (some (optionsOk branch val))), .ret 0]

/-- A next request that is given a body but no type for it. -/
def untypedBody : Label := .call (.nextTransaction 0 (some { body := some (Sample.str "x") }) [])

/-- Whether a step is taken while nothing final has come of slot 0, and is no next request. -/
def staysOpen (w : World) : Label → Bool
  | .call (.nextTransaction _ _ _) => false
  | _ => !(w.tm.tx 0).final_reported && !(w.tm.tx 0).terminated

theorem not_repeats_of_staysOpen {w : World} {l : Label} (h : staysOpen w l = true) :
    ¬ w.Repeats l 0 := by
  rintro (⟨⟨payload, ehp, rfl⟩, -⟩ | ⟨now, msg, code, tid, rfl, -, -, -, -, hStopped, -⟩ |
    ⟨now, outp, stack, rval, -, rfl, hReported, -⟩)
  · cases h
  · simp [staysOpen, hStopped] at h
  · simp [staysOpen, hReported] at h

/-- A call refused. -/
def Event.isRefusal : Event → Bool
  | .reply (.error _) => true
  | _ => false

end Microsippy
