import Microsippy.FailedSend

/-! # Due times

What the transactions wait for, and the least time at which something is due, which the report of
`usipy_sip_tm_run` accumulates.
-/

namespace Microsippy

set_option autoImplicit false

/-! ## Waiting -/

/-- A transaction a run has no more to do for. -/
def Ctl.Retired (c : Ctl) : Prop := c.state = .TERMINATED ∨ c.role = .UAC ∧ c.terminated = true

/-- Something the transaction waits for is due at a time: a send, its timer or its INVITE's deadline. -/
structure Ctl.WaitsFor (c : Ctl) (t : UInt64) : Prop where
  active : c.active = true
  live : ¬ c.Retired
  set : t ≠ TIME_NONE
  due : t = c.next_send_at_ms ∨ (c.timer.type ≠ .NONE ∧ t = c.timer.due_at_ms) ∨
    c.role = .UAC ∧ ∃ iv, c.invite = some iv ∧ t = iv.timeout_at_ms

/-- Something is due in one of the first `i` slots. -/
def Tm.DueBefore (i : Nat) (tm : Tm) (t : UInt64) : Prop := ∃ j < i, (tm.tx j).WaitsFor t

/-- The least of some due times, NONE where there are none. -/
structure LeastDue (due : UInt64 → Prop) (t : UInt64) : Prop where
  least : ∀ u, due u → t ≤ u
  attained : t = TIME_NONE ∨ due t

theorem LeastDue.congr {due due' : UInt64 → Prop} {t : UInt64} (h : ∀ u, due' u ↔ due u)
    (hLeast : LeastDue due t) : LeastDue due' t where
  least u hDue := hLeast.least u ((h u).mp hDue)
  attained := hLeast.attained.imp_right (h t).mpr

namespace LeastDue

variable {due : UInt64 → Prop} {o : RunOut}

theorem consider (when_ms : UInt64) (h : LeastDue due o.next_run_at_ms) :
    LeastDue (fun u => due u ∨ u ≠ TIME_NONE ∧ u = when_ms) (o.consider when_ms).next_run_at_ms := by
  rw [RunOut.consider]
  split
  · rename_i hNone
    refine h.congr fun u => ⟨?_, Or.inl⟩
    rintro (hDue | ⟨hSet, rfl⟩)
    · exact hDue
    · exact absurd hNone hSet
  · rename_i hSet
    split
    · rename_i hSooner
      refine ⟨?_, Or.inr (Or.inr ⟨hSet, rfl⟩)⟩
      rintro u (hDue | ⟨-, rfl⟩)
      · cases hSooner with
        | inl hNone => exact UInt64.le_trans (le_TIME_NONE _) (hNone ▸ h.least u hDue)
        | inr hLt => exact UInt64.le_trans (UInt64.le_of_lt hLt) (h.least u hDue)
      · exact UInt64.le_refl _
    · rename_i hLater
      rw [not_or] at hLater
      refine ⟨?_, Or.inr (Or.inl (h.attained.resolve_left hLater.1))⟩
      rintro u (hDue | ⟨-, rfl⟩)
      · exact h.least u hDue
      · exact UInt64.not_lt.mp hLater.2

theorem considerTimer (t : Timer) (h : LeastDue due o.next_run_at_ms) :
    LeastDue (fun u => due u ∨ u ≠ TIME_NONE ∧ t.type ≠ .NONE ∧ u = t.due_at_ms)
      (o.considerTimer t).next_run_at_ms := by
  rw [RunOut.considerTimer]
  split
  · rename_i hNone
    refine h.congr fun u => ⟨?_, Or.inl⟩
    rintro (hDue | ⟨-, hRuns, -⟩)
    · exact hDue
    · exact absurd hNone hRuns
  · rename_i hRuns
    exact (h.consider _).congr fun u => by simp only [hRuns, ne_eq, not_false_eq_true, true_and]

theorem considerInvite (invite : Option UacInvite) (h : LeastDue due o.next_run_at_ms) :
    LeastDue (fun u => due u ∨ u ≠ TIME_NONE ∧ ∃ iv, invite = some iv ∧ u = iv.timeout_at_ms)
      (o.considerInvite invite).next_run_at_ms := by
  cases invite with
  | none => exact h.congr fun u => by simp
  | some iv => exact (h.consider _).congr fun u => by simp

/-- What a client transaction waits for, taken into account. -/
theorem considerUac {c : Ctl} (hActive : c.active = true) (hLive : ¬ c.Retired) (hRole : c.role = .UAC)
    (h : LeastDue due o.next_run_at_ms) :
    LeastDue (fun u => due u ∨ c.WaitsFor u) (o.considerUac c).next_run_at_ms := by
  refine (((h.consider _).considerInvite _).considerTimer _).congr fun u => ?_
  constructor
  · rintro (hDue | ⟨-, -, hSet, hNext | hTimer | ⟨-, hInvite⟩⟩)
    · exact Or.inl (Or.inl (Or.inl hDue))
    · exact Or.inl (Or.inl (Or.inr ⟨hSet, hNext⟩))
    · exact Or.inr ⟨hSet, hTimer⟩
    · exact Or.inl (Or.inr ⟨hSet, hInvite⟩)
  · rintro (((hDue | ⟨hSet, hNext⟩) | ⟨hSet, hInvite⟩) | ⟨hSet, hTimer⟩)
    · exact Or.inl hDue
    · exact Or.inr ⟨hActive, hLive, hSet, Or.inl hNext⟩
    · exact Or.inr ⟨hActive, hLive, hSet, Or.inr (Or.inr ⟨hRole, hInvite⟩)⟩
    · exact Or.inr ⟨hActive, hLive, hSet, Or.inr (Or.inl hTimer)⟩

/-- What a server transaction waits for, taken into account: its next send and its timer. -/
theorem considerUas {c : Ctl} (hActive : c.active = true) (hLive : ¬ c.Retired) (hRole : c.role = .UAS)
    (h : LeastDue due o.next_run_at_ms) :
    LeastDue (fun u => due u ∨ c.WaitsFor u) (o.considerUas c).next_run_at_ms := by
  refine ((h.consider _).considerTimer _).congr fun u => ?_
  constructor
  · rintro (hDue | ⟨-, -, hSet, hNext | hTimer | ⟨hUac, -⟩⟩)
    · exact Or.inl (Or.inl hDue)
    · exact Or.inl (Or.inr ⟨hSet, hNext⟩)
    · exact Or.inr ⟨hSet, hTimer⟩
    · rw [hRole] at hUac
      cases hUac
  · rintro ((hDue | ⟨hSet, hNext⟩) | ⟨hSet, hTimer⟩)
    · exact Or.inl hDue
    · exact Or.inr ⟨hActive, hLive, hSet, Or.inl hNext⟩
    · exact Or.inr ⟨hActive, hLive, hSet, Or.inr (Or.inl hTimer)⟩

end LeastDue

namespace Tm

variable {tm tm' : Tm} {i : Nat} {t : UInt64}

theorem dueBefore_succ : tm.DueBefore (i + 1) t ↔ tm.DueBefore i t ∨ (tm.tx i).WaitsFor t := by
  constructor
  · rintro ⟨j, hj, hWaits⟩
    cases Nat.lt_succ_iff_lt_or_eq.mp hj with
    | inl hLt => exact Or.inl ⟨j, hLt, hWaits⟩
    | inr hEq => exact Or.inr (hEq ▸ hWaits)
  · rintro (⟨j, hj, hWaits⟩ | hWaits)
    · exact ⟨j, Nat.lt_succ_of_lt hj, hWaits⟩
    · exact ⟨i, Nat.lt_succ_self i, hWaits⟩

theorem dueBefore_congr (h : ∀ j < i, tm'.tx j = tm.tx j) : tm'.DueBefore i t ↔ tm.DueBefore i t := by
  constructor
  · rintro ⟨j, hj, hWaits⟩
    exact ⟨j, hj, h j hj ▸ hWaits⟩
  · rintro ⟨j, hj, hWaits⟩
    exact ⟨j, hj, (h j hj).symm ▸ hWaits⟩

end Tm

variable {tm tm' : Tm} {i : Nat}

/-- The slots before a slot, and the slot itself as it is now. -/
theorem LeastDue.passed {n : UInt64} (h : ∀ j < i, tm'.tx j = tm.tx j)
    (hLeast : LeastDue (fun u => tm.DueBefore i u ∨ (tm'.tx i).WaitsFor u) n) :
    LeastDue (tm'.DueBefore (i + 1)) n :=
  hLeast.congr fun _ => by rw [Tm.dueBefore_succ, Tm.dueBefore_congr h]

/-- A slot that waits for nothing. -/
theorem LeastDue.passed_idle {n : UInt64} (h : ∀ j < i, tm'.tx j = tm.tx j)
    (hIdle : ∀ u, ¬ (tm'.tx i).WaitsFor u) (hLeast : LeastDue (tm.DueBefore i) n) :
    LeastDue (tm'.DueBefore (i + 1)) n :=
  hLeast.congr fun u => by rw [Tm.dueBefore_succ, Tm.dueBefore_congr h, or_iff_left (hIdle u)]

/-! ## A server's response sent -/

theorem Ctl.retired_uas {c : Ctl} (hRole : c.role = .UAS) : c.Retired ↔ c.state = .TERMINATED := by
  rw [Retired, hRole]
  simp

theorem RunOut.considerUas_nothing {c : Ctl} {o : RunOut} (hNext : c.next_send_at_ms = TIME_NONE)
    (hTimer : c.timer.type = .NONE) : o.considerUas c = o := by
  rw [considerUas, hNext, consider, if_pos rfl, considerTimer, if_pos hTimer]

theorem Ctl.waitsFor_uas {c : Ctl} (hActive : c.active = true) (hRole : c.role = .UAS)
    (hLive : c.state ≠ .TERMINATED) (t : UInt64) :
    c.WaitsFor t ↔ t ≠ TIME_NONE ∧ t = c.next_send_at_ms ∨
      t ≠ TIME_NONE ∧ c.timer.type ≠ .NONE ∧ t = c.timer.due_at_ms := by
  constructor
  · rintro ⟨-, -, hSet, hNext | hTimer | ⟨hUac, -⟩⟩
    · exact Or.inl ⟨hSet, hNext⟩
    · exact Or.inr ⟨hSet, hTimer⟩
    · rw [hRole] at hUac
      cases hUac
  · have hLive : ¬ c.Retired := fun h => hLive ((Ctl.retired_uas hRole).mp h)
    rintro (⟨hSet, hNext⟩ | ⟨hSet, hTimer⟩)
    · exact ⟨hActive, hLive, hSet, Or.inl hNext⟩
    · exact ⟨hActive, hLive, hSet, Or.inr (Or.inl hTimer)⟩

namespace LeastDue

variable {due : UInt64 → Prop} {o : RunOut} {outp : Option RunOut} {method : Method} {c : Ctl}

/-- The next send and the timer of a server transaction, taken into account. -/
theorem both (hActive : c.active = true) (hRole : c.role = .UAS) (hLive : c.state ≠ .TERMINATED)
    (hTimer : c.timer.type ≠ .NONE) (hLeast : LeastDue due o.next_run_at_ms) :
    LeastDue (fun u => due u ∨ c.WaitsFor u)
      ((o.consider c.next_send_at_ms).consider c.timer.due_at_ms).next_run_at_ms := by
  refine ((hLeast.consider _).consider _).congr fun u => ?_
  rw [c.waitsFor_uas hActive hRole hLive, or_assoc]
  simp only [ne_eq, hTimer, not_false_eq_true, true_and]

/-- The timer of a server transaction with nothing to send, taken into account. -/
theorem timer (hActive : c.active = true) (hRole : c.role = .UAS) (hLive : c.state ≠ .TERMINATED)
    (hTimer : c.timer.type ≠ .NONE) (hNext : c.next_send_at_ms = TIME_NONE)
    (hLeast : LeastDue due o.next_run_at_ms) :
    LeastDue (fun u => due u ∨ c.WaitsFor u) (o.consider c.timer.due_at_ms).next_run_at_ms := by
  refine (hLeast.consider _).congr fun u => ?_
  rw [c.waitsFor_uas hActive hRole hLive, hNext]
  simp only [ne_eq, hTimer, not_false_eq_true, true_and]
  exact or_congr_right ⟨fun h => h.resolve_left fun hBoth => hBoth.1 hBoth.2, Or.inr⟩

/-- A transaction that waits for nothing. -/
theorem idle (hIdle : ∀ u, ¬ c.WaitsFor u) (hLeast : LeastDue due o.next_run_at_ms) :
    LeastDue (fun u => due u ∨ c.WaitsFor u) o.next_run_at_ms :=
  hLeast.congr fun u => or_iff_left (hIdle u)

theorem uasAccepted (hActive : c.active = true) (hRole : c.role = .UAS) (hTimed : c.UasTimed)
    (hState : c.state = .ACCEPTED) (hLeast : LeastDue due o.next_run_at_ms)
    (hReport : uasSentReport method c (some o) = some outp) :
    ∃ o', outp = some o' ∧ LeastDue (fun u => due u ∨ c.WaitsFor u) o'.next_run_at_ms := by
  rw [uasSentReport, if_pos hState] at hReport
  refine ⟨_, (Option.some.inj hReport).symm, hLeast.both hActive hRole ?_ ?_⟩
  · rw [hState]
    decide
  · rw [Ctl.UasTimed, hState] at hTimed
    rw [hTimed.1]
    decide

/-- What follows the sending of a response, but for a 2xx to an INVITE. -/
theorem uasPostSend {p : TimerPolicy} {now : UInt64} {d : Ctl} (hActive : d.active = true)
    (hRole : d.role = .UAS) (hTimed : d.UasTimed) (hLive : d.state ≠ .TERMINATED)
    (hOther : d.state ≠ .ACCEPTED) (hNext : d.next_send_at_ms = TIME_NONE)
    (hSent : (if (200 ≤ d.last_status_code && d.uasIsInviteNon2xxFinal d.method_type) = true then
        d.uasPostSendInviteFinal p now
      else if 200 ≤ d.last_status_code then d.uasPostSendFinal p now else some d) = some c)
    (hLeast : LeastDue due o.next_run_at_ms)
    (hReport : uasSentReport d.method_type c (some o) = some outp) :
    ∃ o', outp = some o' ∧ LeastDue (fun u => due u ∨ c.WaitsFor u) o'.next_run_at_ms := by
  rw [Ctl.UasTimed] at hTimed
  split at hSent
  · rename_i hBoth
    obtain ⟨hFinal, hRefusal⟩ := Bool.and_eq_true_iff.mp hBoth
    have hRuns : d.timer.type ≠ .NONE := by
      obtain ⟨hInvite, hLast⟩ := Bool.and_eq_true_iff.mp hRefusal
      have hInvite := beq_iff_eq.mp hInvite
      have hLast := of_decide_eq_true hLast
      have hNot : ¬ d.last_status_code < 200 := UInt16.not_lt.mpr (of_decide_eq_true hFinal)
      cases hState : d.state <;> simp_all
    have hKept : ∃ at_ms, (d.reliable = true ∧ c = { d with timer.due_at_ms := at_ms }) ∨
        d.reliable = false ∧
          ∃ next_send_at_ms, c = { d with timer.due_at_ms := at_ms, next_send_at_ms } := by
      obtain ⟨at_ms, hAt⟩ : ∃ at_ms, (if d.timer.due_at_ms = TIME_NONE then
          { d with timer.due_at_ms := now + d.timer.value_ms.toUInt64 } else d) =
            { d with timer.due_at_ms := at_ms } := by
        split
        · exact ⟨_, rfl⟩
        · exact ⟨d.timer.due_at_ms, rfl⟩
      simp only [Ctl.uasPostSendInviteFinal, hAt] at hSent
      refine ⟨at_ms, ?_⟩
      split at hSent
      · rename_i hReliable
        exact Or.inl ⟨hReliable, (Option.some.inj hSent).symm⟩
      · rename_i hNot
        obtain ⟨delay, -, rfl⟩ := Option.map_eq_some_iff.mp hSent
        exact Or.inr ⟨Bool.eq_false_iff.mpr hNot, _, rfl⟩
    obtain ⟨at_ms, ⟨hReliable, rfl⟩ | ⟨hReliable, next_send_at_ms, rfl⟩⟩ := hKept
    · simp only [Microsippy.uasSentReport, if_neg hOther, Ctl.uasIsInviteNon2xxFinal] at hReport
      rw [Ctl.uasIsInviteNon2xxFinal] at hRefusal
      simp only [hRefusal, hReliable, if_true, Option.map_some, Option.some.injEq] at hReport
      exact ⟨_, hReport.symm, hLeast.timer hActive hRole hLive hRuns hNext⟩
    · simp only [Microsippy.uasSentReport, if_neg hOther, Ctl.uasIsInviteNon2xxFinal] at hReport
      rw [Ctl.uasIsInviteNon2xxFinal] at hRefusal
      simp only [hRefusal, hReliable, if_true, Bool.false_eq_true, if_false, Option.map_some,
        Option.some.injEq] at hReport
      exact ⟨_, hReport.symm, hLeast.both hActive hRole hLive hRuns⟩
  · rename_i hNotBoth
    split at hSent
    · rename_i hFinal
      have hAnswer : d.uasIsInviteNon2xxFinal d.method_type = false := by
        rw [decide_eq_true hFinal, Bool.true_and] at hNotBoth
        exact Bool.eq_false_iff.mpr hNotBoth
      rw [Ctl.uasIsInviteNon2xxFinal] at hAnswer
      rw [Ctl.uasPostSendFinal] at hSent
      split at hSent
      · rename_i hReliable
        obtain rfl := Option.some.inj hSent
        have hEnded : d.uasMarkTerminated.state = .TERMINATED := rfl
        have hNot : d.uasMarkTerminated.state ≠ .ACCEPTED := by
          rw [hEnded]
          decide
        rw [Microsippy.uasSentReport, if_neg hNot] at hReport
        simp only [Ctl.uasIsInviteNon2xxFinal, Ctl.uasMarkTerminated, hAnswer, hReliable, Bool.false_eq_true,
          if_false, Bool.not_true, and_false, Option.some.injEq] at hReport
        exact ⟨o, hReport.symm, hLeast.idle fun u hWaits => hWaits.live (Or.inl hEnded)⟩
      · rename_i hReliable
        obtain ⟨ms, -, rfl⟩ := Option.map_eq_some_iff.mp hSent
        have hNot : (d.arm .J ms now).state ≠ .ACCEPTED := hOther
        rw [Microsippy.uasSentReport, if_neg hNot] at hReport
        simp only [Ctl.uasIsInviteNon2xxFinal, Ctl.arm, hAnswer, hFinal, hReliable, Bool.false_eq_true,
          if_false, Bool.not_false, and_true, if_true, Option.map_some, Option.some.injEq] at hReport
        refine ⟨_, hReport.symm, ?_⟩
        exact LeastDue.timer (c := d.arm .J ms now) hActive hRole hLive (fun h => by cases h) hNext hLeast
    · rename_i hEarly
      obtain rfl := Option.some.inj hSent
      have hNone : d.timer.type = .NONE := by
        have hFew : ¬ 300 ≤ d.last_status_code := fun h => hEarly (UInt16.le_trans (by decide) h)
        cases hState : d.state <;> simp_all
      have hAnswer : d.uasIsInviteNon2xxFinal d.method_type = false := by
        rw [Ctl.uasIsInviteNon2xxFinal, decide_eq_false, Bool.and_false]
        exact fun h => hEarly (UInt16.le_trans (by decide) h)
      rw [Microsippy.uasSentReport, if_neg hOther, hAnswer] at hReport
      simp only [Bool.false_eq_true, if_false, hEarly, false_and, Option.some.injEq] at hReport
      refine ⟨o, hReport.symm, hLeast.idle fun u hWaits => ?_⟩
      rw [d.waitsFor_uas hActive hRole hLive, hNext] at hWaits
      rcases hWaits with ⟨hSet, hIs⟩ | ⟨-, hTimer, -⟩
      · exact hSet hIs
      · exact hTimer hNone

theorem uasSent {p : TimerPolicy} {now : UInt64} {c₀ : Ctl} (hActive : c₀.active = true)
    (hRole : c₀.role = .UAS) (hTimed : c₀.UasTimed) (hLive : c₀.state ≠ .TERMINATED)
    (hOther : c₀.state ≠ .ACCEPTED) (hSent : c₀.uasSent p c₀.method_type now = some c)
    (hLeast : LeastDue due o.next_run_at_ms)
    (hReport : uasSentReport c₀.method_type c (some o) = some outp) :
    ∃ o', outp = some o' ∧ LeastDue (fun u => due u ∨ c.WaitsFor u) o'.next_run_at_ms := by
  simp only [Ctl.uasSent] at hSent
  split at hSent
  · rename_i hIs
    exact absurd hIs hOther
  · exact uasPostSend (d := { c₀.noteSend now with next_send_at_ms := TIME_NONE }) hActive hRole hTimed
      hLive hOther rfl hSent hLeast hReport

end LeastDue

/-! ## A BYE behind its ACK -/

/-- A request that waits behind another, nothing of its own being due. -/
structure Ctl.Queued (c : Ctl) : Prop where
  active : c.active = true
  live : ¬ c.Retired
  idle : c.next_send_at_ms = TIME_NONE

theorem Ctl.Queued.waitsFor_armed {c : Ctl} (h : c.Queued) (now t : UInt64) :
    { c with parent_index := none, next_send_at_ms := now }.WaitsFor t ↔
      c.WaitsFor t ∨ t ≠ TIME_NONE ∧ t = now := by
  constructor
  · rintro ⟨-, -, hSet, hNext | hRest⟩
    · exact Or.inr ⟨hSet, hNext⟩
    · exact Or.inl ⟨h.active, h.live, hSet, Or.inr hRest⟩
  · rintro (⟨-, -, hSet, hNext | hRest⟩ | ⟨hSet, hNext⟩)
    · exact absurd (hNext.trans h.idle) hSet
    · exact ⟨h.active, h.live, hSet, Or.inr hRest⟩
    · exact ⟨h.active, h.live, hSet, Or.inl hNext⟩

/-- A BYE in a slot that was passed, armed: it is due now. -/
theorem Tm.dueBefore_armBye {tm : Tm} {i b : Nat} {now t : UInt64} (hb : b < i) (h : (tm.tx b).Queued) :
    (tm.armBye i b now).DueBefore i t ↔ tm.DueBefore i t ∨ t ≠ TIME_NONE ∧ t = now := by
  have hBye : ((tm.armBye i b now).tx b).toCtl =
      { tm.tx b with parent_index := none, next_send_at_ms := now }.toCtl := by
    rw [Tm.armBye, Tm.set_other _ _ (Nat.ne_of_lt hb), Tm.set_same]
  constructor
  · rintro ⟨j, hj, hWaits⟩
    by_cases hIs : j = b
    · subst hIs
      rw [hBye] at hWaits
      exact ((h.waitsFor_armed now t).mp hWaits).imp_left fun hOld => ⟨j, hj, hOld⟩
    · rw [Tm.armBye_other now (Nat.ne_of_lt hj) hIs] at hWaits
      exact Or.inl ⟨j, hj, hWaits⟩
  · rintro (⟨j, hj, hWaits⟩ | hNow)
    · refine ⟨j, hj, ?_⟩
      by_cases hIs : j = b
      · subst hIs
        rw [hBye]
        exact (h.waitsFor_armed now t).mpr (Or.inl hWaits)
      · rwa [Tm.armBye_other now (Nat.ne_of_lt hj) hIs]
    · refine ⟨b, hb, ?_⟩
      rw [hBye]
      exact (h.waitsFor_armed now t).mpr (Or.inr hNow)

end Microsippy
