import Microsippy.TimerValues

/-! # Timer G

When a final response to an INVITE is sent again. The delay comes from the counter of all sends of the
transaction, which goes on from the provisional responses.
-/

namespace Microsippy

set_option autoImplicit false

namespace Ctl

/-! ## Before the final response -/

variable {p : TimerPolicy} {n : Nat} {c c' : Ctl}

theorem uasAnswered_sent {method : Method} {code : Nat} {no_ack : Bool} (h : Sent n c)
    (hAnswered : c.uasAnswered p method code no_ack = some c') : Sent n c' := by
  refine .other h ?_
  simp only [uasAnswered] at hAnswered
  split at hAnswered
  · obtain rfl := Option.some.inj hAnswered
    rfl
  · split at hAnswered
    · obtain ⟨ms, -, rfl⟩ := Option.map_eq_some_iff.mp hAnswered
      rfl
    · split at hAnswered
      · obtain ⟨ms, -, rfl⟩ := Option.map_eq_some_iff.mp hAnswered
        rfl
      · obtain rfl := Option.some.inj hAnswered
        rfl

theorem requestRetransmitted_sent (now : UInt64) (hasRaw : Bool) (h : Sent n c) :
    Sent n (c.requestRetransmitted now hasRaw) := .other h rfl

/-- What the sending of such a response leaves, and when it is sent again. -/
theorem uasPostSendInviteFinal_some {now : UInt64} (h : c.uasPostSendInviteFinal p now = some c') :
    (c'.retransmit_count = c.retransmit_count ∧ c'.state = c.state ∧
      c'.last_status_code = c.last_status_code ∧ c'.reliable = c.reliable) ∧
      (c.reliable = false → ∃ delay, c.uasInviteNextSendDelayMs p = some delay ∧
        c'.next_send_at_ms = now + delay) := by
  simp only [uasPostSendInviteFinal] at h
  split at h <;> split at h
  · rename_i hReliable
    obtain rfl := Option.some.inj h
    exact ⟨⟨rfl, rfl, rfl, rfl⟩, fun hNot => absurd (hNot.symm.trans hReliable) (by decide)⟩
  · obtain ⟨delay, hDelay, rfl⟩ := Option.map_eq_some_iff.mp h
    exact ⟨⟨rfl, rfl, rfl, rfl⟩, fun _ => ⟨delay, hDelay, rfl⟩⟩
  · rename_i hReliable
    obtain rfl := Option.some.inj h
    exact ⟨⟨rfl, rfl, rfl, rfl⟩, fun hNot => absurd (hNot.symm.trans hReliable) (by decide)⟩
  · obtain ⟨delay, hDelay, rfl⟩ := Option.map_eq_some_iff.mp h
    exact ⟨⟨rfl, rfl, rfl, rfl⟩, fun _ => ⟨delay, hDelay, rfl⟩⟩

theorem uasSent_sent {method : Method} {now : UInt64} (h : Sent n c)
    (hSent : c.uasSent p method now = some c') : Sent (n + 1) c' := by
  refine .other (h.send now) ?_
  simp only [uasSent] at hSent
  split at hSent
  · obtain rfl := Option.some.inj hSent
    rfl
  · split at hSent
    · exact (uasPostSendInviteFinal_some hSent).1.1
    · split at hSent
      · rw [uasPostSendFinal] at hSent
        split at hSent
        · obtain rfl := Option.some.inj hSent
          rfl
        · obtain ⟨ms, -, rfl⟩ := Option.map_eq_some_iff.mp hSent
          rfl
      · obtain rfl := Option.some.inj hSent
        rfl

/-! ## After it -/

/-- An INVITE just answered with a final response that is no 2xx, and the transaction after some
sends of it: turns made when something is to be sent and Timer H is not due. -/
inductive FinalSends (p : TimerPolicy) (c₀ : Ctl) : Nat → Ctl → Prop
  | answered : FinalSends p c₀ 0 c₀
  | send {k : Nat} {c c' : Ctl} {now : UInt64} (h : FinalSends p c₀ k c) (hTimer : c.timerDue now = false)
      (hDue : c.notSending now = false) (hSent : c.uasSent p .INVITE now = some c') :
      FinalSends p c₀ (k + 1) c'

/-- An INVITE whose final response is no 2xx, over a transport that is not reliable. -/
structure Refused (c : Ctl) : Prop where
  state : c.state = .COMPLETED
  last : 300 ≤ c.last_status_code
  unreliable : c.reliable = false

theorem refused_answered {code : StatusCode} {no_ack : Bool} (hCode : 300 ≤ code.1)
    (hReliable : c.reliable = false) (h : c.uasAnswered p .INVITE code.1 no_ack = some c') : c'.Refused := by
  have hUpper := code.2.2
  have hWord : (300 : UInt16) ≤ UInt16.ofNat code.1 := by
    rw [UInt16.le_iff_toNat_le, UInt16.toNat_ofNat', show (300 : UInt16).toNat = 300 from rfl]
    omega
  simp only [uasAnswered, if_neg (show ¬ code.1 < 200 by omega),
    if_neg (show ¬ (True ∧ code.1 < 300) by omega), if_true] at h
  obtain ⟨ms, -, rfl⟩ := Option.map_eq_some_iff.mp h
  exact ⟨rfl, hWord, hReliable⟩

/-- How often the delay is doubled, by the counter of sends after a send. -/
def timerGShift (n : Nat) : Nat := n % 256 - 1

/-- The delay the code comes to. -/
theorem uasInviteNextSendDelayMs_eq (hT1 : p.t1_ms ≠ 0) (hT2 : p.t2_ms ≠ 0)
    (hCount : c.retransmit_count.toNat = n % 256) :
    c.uasInviteNextSendDelayMs p = some (UInt64.ofNat
      (if 31 ≤ timerGShift n then p.t2_ms.toNat else min (p.t1_ms.toNat * 2 ^ timerGShift n) p.t2_ms.toNat)) := by
  have hShift : (if 0 < c.retransmit_count then c.retransmit_count - 1 else 0).toNat = timerGShift n := by
    rw [timerGShift, ← hCount]
    split
    · rename_i hSome
      rw [UInt8.toNat_sub_of_le _ _ (by
        rw [UInt8.le_iff_toNat_le]
        rw [UInt8.lt_iff_toNat_lt] at hSome
        exact hSome)]
      rfl
    · rename_i hNone
      rw [UInt8.lt_iff_toNat_lt, show (0 : UInt8).toNat = 0 from rfl] at hNone
      rw [show (0 : UInt8).toNat = 0 from rfl]
      omega
  have hT1Lt := p.t1_ms.toNat_lt
  have hT2Lt := p.t2_ms.toNat_lt
  rw [uasInviteNextSendDelayMs, TimerPolicy.nonzero, TimerPolicy.nonzero, if_pos hT1, if_pos hT2]
  simp only [Option.bind_eq_bind, Option.bind_some]
  generalize hIs : (if 0 < c.retransmit_count then c.retransmit_count - 1 else 0) = shift at hShift ⊢
  have hLong : 31 ≤ shift ↔ 31 ≤ timerGShift n := by
    rw [UInt8.le_iff_toNat_le, hShift]
    rfl
  have hWord : p.t2_ms.toUInt64 = UInt64.ofNat p.t2_ms.toNat := by
    rw [← UInt64.toNat_inj, UInt32.toNat_toUInt64, UInt64.toNat_ofNat', Nat.mod_eq_of_lt (by omega)]
  simp only [hLong]
  split
  · rw [hWord]
  · rename_i hShort
    have hPow : 2 ^ timerGShift n ≤ 2 ^ 30 := Nat.pow_le_pow_right (by decide) (by omega)
    have hProduct : p.t1_ms.toNat * 2 ^ timerGShift n < 2 ^ 32 * 2 ^ 30 :=
      Nat.mul_lt_mul_of_lt_of_le hT1Lt hPow (by decide)
    have hDelay : (p.t1_ms.toUInt64 <<< shift.toUInt64).toNat = p.t1_ms.toNat * 2 ^ timerGShift n := by
      rw [UInt64.toNat_shiftLeft, UInt8.toNat_toUInt64, hShift, UInt32.toNat_toUInt64, Nat.shiftLeft_eq,
        Nat.mod_eq_of_lt (by omega : timerGShift n < 64), Nat.mod_eq_of_lt (by omega)]
    rw [Option.some.injEq, ← UInt64.toNat_inj, UInt64.toNat_ofNat', Nat.mod_eq_of_lt (by omega),
      apply_ite UInt64.toNat, hDelay]
    simp only [UInt64.lt_iff_toNat_lt, hDelay, UInt32.toNat_toUInt64]
    split <;> omega

theorem Refused.uasSent_eq {now : UInt64} (h : c.Refused) :
    c.uasSent p .INVITE now = { c.noteSend now with next_send_at_ms := TIME_NONE }.uasPostSendInviteFinal p now := by
  have hLast : (200 : UInt16) ≤ c.last_status_code := by
    have hFinal := UInt16.le_iff_toNat_le.mp h.last
    rw [UInt16.le_iff_toNat_le]
    exact Nat.le_trans (by decide) hFinal
  have hState : ¬ c.state = .ACCEPTED := by
    rw [h.state]
    decide
  simp only [uasSent, uasIsInviteNon2xxFinal, noteSend, if_neg hState, hLast, h.last, decide_true,
    Bool.and_true, beq_self_eq_true, if_true]

/-- A final response stays one over its sends, and each of them is counted. -/
theorem FinalSends.refused {c₀ : Ctl} {k : Nat} (h : FinalSends p c₀ k c) (hSent : Sent n c₀)
    (hRefused : c₀.Refused) : c.Refused ∧ Sent (n + k) c := by
  induction h with
  | answered => exact ⟨hRefused, hSent⟩
  | @send k c c' now _ _ _ hSend ih =>
    obtain ⟨hRefused, hSent⟩ := ih
    have hNext := uasSent_sent hSent hSend
    rw [hRefused.uasSent_eq] at hSend
    obtain ⟨⟨-, hState, hLast, hReliable⟩, -⟩ := uasPostSendInviteFinal_some hSend
    exact ⟨⟨hState.trans hRefused.state, hLast ▸ hRefused.last, hReliable.trans hRefused.unreliable⟩, hNext⟩

/-- The delay of the code is the one of Timer G just when both have come to T2, or the counter has
counted the sends of the final response alone. -/
theorem timerG_delay_iff {t1 t2 s k : Nat} (hT1 : 0 < t1) :
    (if 31 ≤ s then t2 else min (t1 * 2 ^ s) t2) = min (t1 * 2 ^ k) t2 ↔
      (t2 ≤ t1 * 2 ^ k ∧ (31 ≤ s ∨ t2 ≤ t1 * 2 ^ s)) ∨ (s = k ∧ s < 31) := by
  have hSame : s = k ↔ t1 * 2 ^ s = t1 * 2 ^ k := by
    constructor
    · rintro rfl
      rfl
    · intro h
      exact Nat.pow_right_injective (Nat.le_refl 2) (Nat.eq_of_mul_eq_mul_left hT1 h)
  rw [hSame]
  split
  · omega
  · omega

end Ctl

/-- After a send of a final response to an INVITE that is no 2xx, made when the final response was sent
`k` times before, the next one is scheduled T1 doubled `k` times later, or T2 later when that is less,
just when both that and the delay by the counter have come to T2, or the counter has counted the sends
of the final response alone. -/
theorem timer_g_schedule {src : Option TimerPolicy} {n k : Nat} {c c₀ c₁ : Ctl} {code : StatusCode}
    {no_ack : Bool} {now : UInt64} (hHistory : c.Sent n) (hReliable : c.reliable = false)
    (hCode : 300 ≤ code.1)
    (hAnswered : c.uasAnswered (TimerPolicy.resolve src) .INVITE code.1 no_ack = some c₀)
    (hSends : Ctl.FinalSends (TimerPolicy.resolve src) c₀ k c₁) :
    let t1 := (TimerPolicy.resolve src).t1_ms.toNat
    let t2 := (TimerPolicy.resolve src).t2_ms.toNat
    let shift := Ctl.timerGShift (n + k + 1)
    ∃ c', c₁.uasSent (TimerPolicy.resolve src) .INVITE now = some c' ∧
      (c'.next_send_at_ms = now + UInt64.ofNat (min (t1 * 2 ^ k) t2) ↔
        (t2 ≤ t1 * 2 ^ k ∧ (31 ≤ shift ∨ t2 ≤ t1 * 2 ^ shift)) ∨ (shift = k ∧ shift < 31)) := by
  intro t1 t2 shift
  have hT1 := TimerPolicy.resolve_t1 src
  have hT2 := TimerPolicy.resolve_t2 src
  obtain ⟨hRefused, hSent⟩ := hSends.refused (Ctl.uasAnswered_sent hHistory hAnswered)
    (Ctl.refused_answered hCode hReliable hAnswered)
  have hCount : (c₁.noteSend now).retransmit_count.toNat = (n + k + 1) % 256 := (hSent.send now).count
  have hDelay := @Ctl.uasInviteNextSendDelayMs_eq _ _ { c₁.noteSend now with next_send_at_ms := TIME_NONE }
    hT1 hT2 hCount
  have hSome : (c₁.uasSent (TimerPolicy.resolve src) .INVITE now).isSome = true := by
    rw [hRefused.uasSent_eq, Ctl.uasPostSendInviteFinal]
    split
    · rw [if_neg (by simp [Ctl.noteSend, hRefused.unreliable]), Option.isSome_map]
      exact Option.isSome_iff_exists.mpr ⟨_, hDelay⟩
    · rw [if_neg (by simp [Ctl.noteSend, hRefused.unreliable]), Option.isSome_map]
      exact Option.isSome_iff_exists.mpr ⟨_, hDelay⟩
  obtain ⟨c', hSend⟩ := Option.isSome_iff_exists.mp hSome
  refine ⟨c', hSend, ?_⟩
  rw [hRefused.uasSent_eq] at hSend
  obtain ⟨delay, hIs, hNext⟩ := (Ctl.uasPostSendInviteFinal_some hSend).2 hRefused.unreliable
  obtain rfl := Option.some.inj (hDelay.symm.trans hIs)
  have hPos : 0 < t1 := by
    rw [Nat.pos_iff_ne_zero]
    exact fun hZero => hT1 (UInt32.toNat_inj.mp (hZero.trans UInt32.toNat_zero.symm))
  have hT2Lt : t2 < 2 ^ 32 := (TimerPolicy.resolve src).t2_ms.toNat_lt
  have hLow : (if 31 ≤ shift then t2 else min (t1 * 2 ^ shift) t2) < 2 ^ 64 := by
    split <;> omega
  rw [hNext, ← Ctl.timerG_delay_iff hPos, UInt64.add_right_inj, ← UInt64.toNat_inj, UInt64.toNat_ofNat',
    UInt64.toNat_ofNat', Nat.mod_eq_of_lt hLow, Nat.mod_eq_of_lt (by omega)]

/-- A refusal after a 180, sent three times before: both delays have come to T2. -/
theorem timer_g_schedule_rung : ∃ c₀ c₁ c₂ c₅ c', ({} : Ctl).uasAnswered .rfc3261 .INVITE 180 false = some c₀ ∧
    c₀.uasSent .rfc3261 .INVITE 1 = some c₁ ∧ c₁.uasAnswered .rfc3261 .INVITE 486 false = some c₂ ∧
    Ctl.FinalSends .rfc3261 c₂ 3 c₅ ∧ c₅.uasSent .rfc3261 .INVITE 7002 = some c' ∧
    c'.next_send_at_ms = 7002 + UInt64.ofNat (min (500 * 2 ^ 3) 4000) := by
  have hSends : ∃ c₀ c₁ c₂ c₅, ({} : Ctl).uasAnswered .rfc3261 .INVITE 180 false = some c₀ ∧
      c₀.uasSent .rfc3261 .INVITE 1 = some c₁ ∧ c₁.reliable = false ∧
      c₁.uasAnswered .rfc3261 .INVITE 486 false = some c₂ ∧ Ctl.FinalSends .rfc3261 c₂ 3 c₅ :=
    ⟨_, _, _, _, rfl, rfl, rfl, rfl, @Ctl.FinalSends.send _ _ _ _ _ 3002
      (@Ctl.FinalSends.send _ _ _ _ _ 1002 (@Ctl.FinalSends.send _ _ _ _ _ 2 .answered rfl rfl rfl) rfl rfl rfl) rfl rfl rfl⟩
  obtain ⟨c₀, c₁, c₂, c₅, hRung, hSent, hReliable, hRefused, hSends⟩ := hSends
  have hHistory := Ctl.uasSent_sent (Ctl.uasAnswered_sent (.fresh rfl) hRung) hSent
  obtain ⟨c', hSend, hIff⟩ := @timer_g_schedule none 1 3 _ _ _ ⟨486, by decide⟩ false 7002 hHistory hReliable
    (by decide) hRefused hSends
  exact ⟨_, _, _, _, c', hRung, hSent, hRefused, hSends, hSend, hIff.mpr (Or.inl ⟨by decide, Or.inr (by decide)⟩)⟩

/-- An INVITE whose 180 was sent before: the refusal is sent again after a second, not half of one. -/
theorem timer_g_after_ringing : ∃ c₀ c₁ c₂ c', ({} : Ctl).uasAnswered .rfc3261 .INVITE 180 false = some c₀ ∧
    c₀.uasSent .rfc3261 .INVITE 1 = some c₁ ∧ c₁.Sent 1 ∧
    c₁.uasAnswered .rfc3261 .INVITE 486 false = some c₂ ∧ c₂.timerDue 2 = false ∧
    c₂.notSending 2 = false ∧ c₂.uasSent .rfc3261 .INVITE 2 = some c' ∧ c'.next_send_at_ms = 2 + 1000 ∧
    c'.next_send_at_ms ≠ 2 + UInt64.ofNat (min (500 * 2 ^ 0) 4000) := by
  refine ⟨_, _, _, _, rfl, rfl, ?_, rfl, rfl, rfl, rfl, by decide, by decide⟩
  exact @Ctl.uasSent_sent .rfc3261 0 _ _ .INVITE 1
    (@Ctl.uasAnswered_sent .rfc3261 0 {} _ .INVITE 180 false (.fresh rfl) rfl) rfl

end Microsippy
