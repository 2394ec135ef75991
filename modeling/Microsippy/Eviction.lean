import Microsippy.World
import Microsippy.Tm.Drop

/-! # What an eviction may take

`usipy_sip_tm_alloc_slot` makes room by dropping a transaction that only waits for retransmissions.
-/

namespace Microsippy

set_option autoImplicit false

/-- Whether a slot has a message that has never been sent and still is to be: one that is scheduled,
or a request queued behind another. -/
def Ctl.toSend (c : Ctl) : Bool :=
  c.active && c.unsent && c.state != .TERMINATED &&
    (c.next_send_at_ms != TIME_NONE || c.parent_index.isSome && !c.isAck)

/-- A slot that has nothing left to do but to absorb retransmissions, its children included. -/
def Tm.Absorbing (tm : Tm) (v : Nat) : Prop :=
  (tm.tx v).toSend = false ∧ ∀ j, tm.ChildOf v j → (tm.tx j).toSend = false

/-- What is asked of an allocation on behalf of the transaction in a slot, if of any: a free slot is
taken where there is one, or else a transaction that only absorbs retransmissions goes with its
children, one due first and not the one the slot is for; and where no slot is had nothing changes. -/
def SafeAlloc (tm : Tm) (caller : Option Nat) : Prop :=
  ∀ r tm', allocSlot.run tm = some (r, tm') →
    match r with
    | .error _ => tm' = tm
    | .ok i =>
      i < tm.max_transactions ∧
      ((∃ j < tm.max_transactions, ¬ (tm.tx j).active) →
        ¬ (tm.tx i).active ∧ tm' = tm.set i (tm.tx i).reset) ∧
      ((∀ j < tm.max_transactions, (tm.tx j).active) →
        tm.Absorbing i ∧ caller ≠ some i ∧
        (∀ j < tm.max_transactions, (tm.tx j).evictable →
          (tm.tx i).evictionDue ≤ (tm.tx j).evictionDue) ∧
        tm'.tx i = (tm.tx i).fini ∧
        ∀ j ≠ i, tm'.tx j = if tm.ChildOf i j then (tm.tx j).fini else tm.tx j)

/-- All slots are taken, and the first of the evictable ones due first has something to send, or is
what the slot is for. -/
def Tm.EvictsBusy (tm : Tm) (caller : Option Nat) : Prop :=
  (∀ j < tm.max_transactions, (tm.tx j).active) ∧
    ∃ v, tm.Victim tm.max_transactions v ∧ (¬ tm.Absorbing v ∨ caller = some v)

theorem safeAlloc_of_free {tm : Tm} {caller : Option Nat} {k : Nat} (hk : k < tm.max_transactions)
    (hFree : ¬ (tm.tx k).active)
    (hRun : allocSlot.run tm = some (.ok k, tm.set k (tm.tx k).reset)) : SafeAlloc tm caller := by
  intro r tm' hAlloc
  obtain ⟨rfl, rfl⟩ : Except.ok k = r ∧ tm.set k (tm.tx k).reset = tm' := by
    simpa [hRun] using hAlloc
  exact ⟨hk, fun _ => ⟨hFree, rfl⟩, fun hFull => absurd (hFull k hk) hFree⟩

theorem safeAlloc_of_none {tm : Tm} {caller : Option Nat}
    (hRun : allocSlot.run tm = some (.error .NOSPC, tm)) : SafeAlloc tm caller := by
  intro r tm' hAlloc
  obtain ⟨rfl, rfl⟩ : Except.error TmError.NOSPC = r ∧ tm = tm' := by simpa [hRun] using hAlloc
  rfl

/-- The slots after an eviction. -/
theorem evicted_tx {tm : Tm} {v : Nat} (h : (tm.tx v).evictable) (j : Nat) :
    ((tm.drop v).set v ((tm.drop v).tx v).reset).tx j =
      if j = v ∨ tm.ChildOf v j then (tm.tx j).fini else tm.tx j := by
  by_cases hj : j = v
  · subst hj
    rw [Tm.set_same, drop_tx_of_evictable h, if_pos (Or.inl rfl)]
    rfl
  · rw [Tm.set_other _ _ hj, drop_tx_of_evictable h]

theorem safeAlloc_of_victim {tm : Tm} {caller : Option Nat} {v : Nat}
    (hFull : ∀ j < tm.max_transactions, (tm.tx j).active)
    (hVictim : tm.Victim tm.max_transactions v)
    (hRun : allocSlot.run tm = some (.ok v, (tm.drop v).set v ((tm.drop v).tx v).reset))
    (hAbsorbing : tm.Absorbing v) (hOther : caller ≠ some v) : SafeAlloc tm caller := by
  intro r tm' hAlloc
  obtain ⟨rfl, rfl⟩ : Except.ok v = r ∧ (tm.drop v).set v ((tm.drop v).tx v).reset = tm' := by
    simpa [hRun] using hAlloc
  refine ⟨hVictim.1, fun ⟨j, hj, hFree⟩ => absurd (hFull j hj) hFree, fun _ => ?_⟩
  refine ⟨hAbsorbing, hOther, fun j hj hEvictable => hVictim.le_due hj hEvictable, ?_, ?_⟩
  · rw [evicted_tx hVictim.2.1, if_pos (Or.inl rfl)]
  · intro j hj
    rw [evicted_tx hVictim.2.1]
    simp [hj]

/-- Evicting something busy is not safe. -/
theorem not_safeAlloc_of_evictsBusy {tm : Tm} {caller : Option Nat} (h : tm.EvictsBusy caller) :
    ¬ SafeAlloc tm caller := by
  obtain ⟨hFull, v, hVictim, hBusy⟩ := h
  intro hSafe
  rcases allocSlot_cases tm with ⟨k, hk, hFree, -⟩ | ⟨-, ⟨w, hw, hRun⟩ | ⟨hNone, -⟩⟩
  · exact hFree (hFull k hk)
  · obtain rfl := hVictim.unique hw
    obtain ⟨-, -, hEvicted⟩ := hSafe _ _ hRun
    obtain ⟨hAbsorbing, hOther, -⟩ := hEvicted hFull
    rcases hBusy with hBusy | hCaller
    · exact hBusy hAbsorbing
    · exact hOther hCaller
  · exact hNone v hVictim.1 hVictim.2.1

/-- An allocation is safe unless it evicts something busy. -/
theorem safeAlloc_iff (tm : Tm) (caller : Option Nat) :
    SafeAlloc tm caller ↔ ¬ tm.EvictsBusy caller := by
  refine ⟨fun hSafe hBusy => not_safeAlloc_of_evictsBusy hBusy hSafe, fun hQuiet => ?_⟩
  rcases allocSlot_cases tm with ⟨k, hk, hFree, hRun⟩ | ⟨hFull, ⟨v, hVictim, hRun⟩ | ⟨-, hRun⟩⟩
  · exact safeAlloc_of_free hk hFree hRun
  · have hAbsorbing : tm.Absorbing v := by
      by_contra hBusy
      exact hQuiet ⟨hFull, v, hVictim, Or.inl hBusy⟩
    have hOther : caller ≠ some v := fun hCaller =>
      hQuiet ⟨hFull, v, hVictim, Or.inr hCaller⟩
    exact safeAlloc_of_victim hFull hVictim hRun hAbsorbing hOther
  · exact safeAlloc_of_none hRun

/-- An INVITE sent and answered with a 2xx, in a table of two slots: slot 1 holds the ACK, which the
next run is to send. -/
def answeredInvite : List Label :=
  [.call (.newUacTr (Sample.request .INVITE)), .call (.run 0 true), .turn 0, .turn 0, .turn 0,
    .call (.handleIncoming 1 (some (Sample.response resOk.code .INVITE)))]

/-- An ACK that is still to be sent goes with its INVITE. -/
theorem allocSlot_drops_unsent_ack : ∃ w : World, w.Reachable ∧ ¬ SafeAlloc w.tm none := by
  have hRun : (Sample.after 2 answeredInvite).any (fun w =>
      w.tm.max_transactions == 2 && (w.tm.tx 0).active && (w.tm.tx 0).evictable &&
        (w.tm.tx 1).parent_index == some 0 && (w.tm.tx 1).toSend) = true := by
    decide +kernel
  obtain ⟨w, hReachable, hTest⟩ := Sample.exists_of_after hRun
  simp only [Bool.and_eq_true, beq_iff_eq] at hTest
  obtain ⟨⟨⟨⟨hMax, hActive⟩, hEvictable⟩, hParent⟩, hUnsent⟩ := hTest
  have hAck : (w.tm.tx 1).active := by
    simp only [Ctl.toSend, Bool.and_eq_true] at hUnsent
    exact hUnsent.1.1.1
  have hAckStays : ¬ (w.tm.tx 1).evictable := fun h =>
    Option.some_ne_none 0 (hParent.symm.trans (evictable_parent h))
  refine ⟨w, hReachable, not_safeAlloc_of_evictsBusy ⟨?_, 0, ⟨by omega, hEvictable, ?_⟩, Or.inl ?_⟩⟩
  · intro j hj
    obtain rfl | rfl : j = 0 ∨ j = 1 := by omega
    · exact hActive
    · exact hAck
  · intro j hj hOther
    obtain rfl | rfl : j = 0 ∨ j = 1 := by omega
    · exact Or.inr ⟨rfl, Nat.le_refl 0⟩
    · exact absurd hOther hAckStays
  · rintro ⟨-, hChildren⟩
    have hSent := hChildren 1 ⟨by omega, hAck, hParent⟩
    exact Bool.noConfusion (hUnsent.symm.trans hSent)

end Microsippy
