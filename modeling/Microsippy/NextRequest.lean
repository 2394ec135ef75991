import Microsippy.Notices

/-! # A next request that fails

What `usipy_sip_tm_next_transaction` leaves of a transaction when it fails.
-/

namespace Microsippy

set_option autoImplicit false

/-- A slot's next request gets past the checks: from there on, whatever fails leaves its mark. -/
structure Tm.PastChecks (index : Nat) (tm : Tm) : Prop where
  inTable : index < tm.max_transactions
  active : (tm.tx index).active = true
  kept : (tm.tx index).abandoned = false
  child : ∀ c, (tm.tx index).child_index = some c → (tm.tx c).active = true ∧ (tm.tx c).isAck = true
  begins : (tm.tx index).transitionAllowed = true ∨ (tm.tx index).child_index.isSome = true

/-- A transaction with the state, the number, the links, the timers and the identity it had. -/
structure Txi.Untouched (tp tp' : Txi) : Prop where
  state : tp'.state = tp.state
  cseq : tp'.cache.cseq = tp.cache.cseq
  child : tp'.child_index = tp.child_index
  timer : tp'.timer = tp.timer
  invite : tp'.invite = tp.invite
  next_send_at_ms : tp'.next_send_at_ms = tp.next_send_at_ms
  id : tp'.id = tp.id

section

variable {tm tm' : Tm} {index : Nat} {e : TmError}

theorem nextAllowed_error (hRun : (nextAllowed index).run tm = some (.error e, tm')) :
    tm' = tm ∧ ¬ tm.PastChecks index := by
  rw [nextAllowed, Op.run_bind, Op.run_get, Op.andThen_ok, Op.run_bind, Op.run_require] at hRun
  split at hRun
  · rw [Op.andThen_ok, Op.run_bind, Op.run_require] at hRun
    split at hRun
    · rw [Op.andThen_ok, Op.run_require] at hRun
      split at hRun
      · cases hRun
      · rename_i hAbandoned
        obtain ⟨-, rfl⟩ := Prod.mk.inj (Option.some.inj hRun)
        exact ⟨rfl, fun h => hAbandoned (by rw [h.kept]; decide)⟩
    · rename_i hFree
      obtain ⟨-, rfl⟩ := Prod.mk.inj (Option.some.inj hRun)
      exact ⟨rfl, fun h => hFree h.active⟩
  · rename_i hOutside
    obtain ⟨-, rfl⟩ := Prod.mk.inj (Option.some.inj hRun)
    exact ⟨rfl, fun h => hOutside h.inTable⟩

theorem nextAllowed_inTable {u : Unit} (hRun : (nextAllowed index).run tm = some (.ok u, tm')) :
    index < tm.max_transactions := by
  obtain ⟨_, _, hDone, hRun⟩ := Op.bind_ok.mp hRun
  obtain ⟨rfl, rfl⟩ := Op.get_ok.mp hDone
  obtain ⟨_, _, hDone, -⟩ := Op.bind_ok.mp hRun
  exact (Op.require_ok.mp hDone).1

theorem detachAck_error (hRun : (detachAck index).run tm = some (.error e, tm')) :
    tm' = tm ∧ ¬ tm.PastChecks index := by
  rw [detachAck, Op.run_bind, Op.run_get, Op.andThen_ok] at hRun
  cases hChild : (tm.tx index).child_index with
  | none =>
    simp only [hChild] at hRun
    cases hRun
  | some c =>
    simp only [hChild, Op.run_bind, Op.run_assert] at hRun
    split at hRun
    · rw [Op.andThen_ok, Op.run_require] at hRun
      split at hRun
      · cases hRun
      · rename_i hOther
        obtain ⟨-, rfl⟩ := Prod.mk.inj (Option.some.inj hRun)
        exact ⟨rfl, fun h => hOther (h.child c hChild)⟩
    · cases hRun

/-- The child left behind, and nothing else changed. -/
theorem detachAck_tx {u : Unit} (hRun : (detachAck index).run tm = some (.ok u, tm')) :
    tm' = tm.set index { tm.tx index with child_index := none } := by
  rw [detachAck, Op.run_bind, Op.run_get, Op.andThen_ok] at hRun
  cases hChild : (tm.tx index).child_index with
  | none =>
    simp only [hChild] at hRun
    obtain ⟨-, rfl⟩ := Op.pure_ok.mp hRun
    have hSame : { tm.tx index with child_index := none } = tm.tx index := by rw [← hChild]
    rw [hSame, Tm.set_self]
  | some c =>
    simp only [hChild] at hRun
    obtain ⟨_, _, hDone, hRun⟩ := Op.bind_ok.mp hRun
    obtain ⟨-, rfl⟩ := Op.assert_ok.mp hDone
    obtain ⟨_, _, hDone, hRun⟩ := Op.bind_ok.mp hRun
    obtain ⟨-, rfl⟩ := Op.require_ok.mp hDone
    obtain ⟨tp, hPart, rfl⟩ := onSlot_ok.mp hRun
    obtain ⟨-, rfl⟩ := Prod.mk.inj (Option.some.inj hPart)
    rfl

/-- A transaction that is made ready for its next request is CALLING, whatever comes then. -/
theorem renewed_state {tp' : Txi} {payload : Option RequestPayload} {ehp : List ExtraHeader}
    {r : Except TmError Unit} (m : Tm) {tp : Txi}
    (hRun : (do
      Op.modify renewed
      prepareIds m index
      buildRequest m index { payload, extra_headers := ehp } : TxM Unit).run tp = some (r, tp')) :
    tp'.state = .CALLING := by
  have hQuiet : Op.Keeps Txi.Quiet (do
      prepareIds m index
      buildRequest m index { payload, extra_headers := ehp } : TxM Unit) :=
    .bind (quiet_prepareIds _ _) fun _ => quiet_buildRequest _ _ _
  rw [Op.run_bind, Op.run_modify, Op.andThen_ok] at hRun
  rw [(hQuiet _ _ _ hRun).ctl]
  rfl

end

/-- A request sent from a slot. -/
def Event.isSend (i : Nat) : Event → Bool
  | .send index _ _ _ _ => index == i
  | _ => false

end Microsippy
