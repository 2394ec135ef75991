import Microsippy.Tm.Ctl

/-! # Timer values

What the timers of a resolved policy come to in the 32-bit and 64-bit arithmetic they are computed in,
and how long a request waits before it is sent again.
-/

namespace Microsippy

set_option autoImplicit false

namespace TimerPolicy

/-- A timer value is there and is a number. -/
def Gives (ms : Option UInt32) (n : Nat) : Prop := ∃ v, ms = some v ∧ v.toNat = n

/-- A timer's own value, or 64 times T1. -/
def exactMs (own : UInt32) (p : TimerPolicy) : Nat := if own ≠ 0 then own.toNat else 64 * p.t1_ms.toNat

/-- Timers B, F, H, J and L and the cleanup guard are their own values or 64 times T1. -/
structure TimersExact (p : TimerPolicy) : Prop where
  b : Gives p.bMs (exactMs p.timer_b_ms p)
  f : Gives p.fMs (exactMs p.timer_f_ms p)
  h : Gives p.hMs (64 * p.t1_ms.toNat)
  j : Gives p.jMs (exactMs p.timer_j_ms p)
  l : Gives p.lMs (exactMs p.timer_l_ms p)
  cleanup : Gives p.cleanupMs (64 * p.t1_ms.toNat)

theorem resolve_t1 (src : Option TimerPolicy) : (resolve src).t1_ms ≠ 0 := by
  simp only [resolve]
  split
  · decide
  · assumption

theorem resolve_t2 (src : Option TimerPolicy) : (resolve src).t2_ms ≠ 0 := by
  simp only [resolve]
  split
  · decide
  · assumption

variable {p : TimerPolicy}

theorem gives_some {v : UInt32} {n : Nat} : Gives (some v) n ↔ v.toNat = n := by
  simp [Gives]

theorem gives_ownOr {own : UInt32} {derived : Option UInt32}
    (h : Gives derived (64 * p.t1_ms.toNat)) : Gives (ownOr own derived) (exactMs own p) := by
  rw [ownOr, exactMs]
  split
  · exact gives_some.mpr rfl
  · exact h

/-- 64 times T1 in 64 bits is exact, and fails its assertion where it does not fit in 32. -/
theorem t1x64_iff : Gives p.t1x64 (64 * p.t1_ms.toNat) ↔ 64 * p.t1_ms.toNat < 2 ^ 32 := by
  have hLt := p.t1_ms.toNat_lt
  have hMs : (p.t1_ms.toUInt64 * 64).toNat = 64 * p.t1_ms.toNat := by
    rw [UInt64.toNat_mul, UInt32.toNat_toUInt64, show (64 : UInt64).toNat = 64 from rfl,
      Nat.mod_eq_of_lt (by omega), Nat.mul_comm]
  have hLe : p.t1_ms.toUInt64 * 64 ≤ 0xffffffff ↔ 64 * p.t1_ms.toNat < 2 ^ 32 := by
    rw [UInt64.le_iff_toNat_le, hMs, show (0xffffffff : UInt64).toNat = 2 ^ 32 - 1 from rfl]
    omega
  simp only [t1x64, hLe]
  split
  · rename_i hFits
    rw [gives_some, UInt64.toNat_toUInt32, hMs, Nat.mod_eq_of_lt hFits]
    exact iff_of_true rfl hFits
  · rename_i hNot
    exact iff_of_false (fun ⟨_, hNone, _⟩ => nomatch hNone) hNot

/-- 64 times T1 in 32 bits is exact where it does not wrap. -/
theorem t1x64u32_iff (hSet : p.t1_ms ≠ 0) :
    Gives p.t1x64u32 (64 * p.t1_ms.toNat) ↔ 64 * p.t1_ms.toNat < 2 ^ 32 := by
  have hMs : (p.t1_ms * 64).toNat = 64 * p.t1_ms.toNat % 2 ^ 32 := by
    rw [UInt32.toNat_mul, show (64 : UInt32).toNat = 64 from rfl, Nat.mul_comm]
  rw [t1x64u32, nonzero, if_pos hSet, Option.map_some, gives_some, hMs]
  constructor
  · intro h
    have hLt := Nat.mod_lt (64 * p.t1_ms.toNat) (Nat.two_pow_pos 32)
    rwa [h] at hLt
  · exact Nat.mod_eq_of_lt

theorem timersExact_iff (hSet : p.t1_ms ≠ 0) : p.TimersExact ↔ 64 * p.t1_ms.toNat < 2 ^ 32 := by
  constructor
  · exact fun h => (t1x64u32_iff hSet).mp h.h
  · intro h
    have hWide := t1x64_iff.mpr h
    have hNarrow := (t1x64u32_iff hSet).mpr h
    exact ⟨gives_ownOr hWide, gives_ownOr hWide, hNarrow, gives_ownOr hNarrow, gives_ownOr hNarrow, hWide⟩

/-- What an INVITE waits first: Timer A, or T1. -/
def inviteBase (p : TimerPolicy) : UInt32 := if p.timer_a_ms ≠ 0 then p.timer_a_ms else p.t1_ms

/-- What another request waits first: Timer E, or T1. -/
def otherBase (p : TimerPolicy) : UInt32 := if p.timer_e_ms ≠ 0 then p.timer_e_ms else p.t1_ms

theorem base_pos {own : UInt32} (hSet : p.t1_ms ≠ 0) : 0 < (if own ≠ 0 then own else p.t1_ms).toNat := by
  rw [Nat.pos_iff_ne_zero]
  intro hZero
  have hIs := UInt32.toNat_inj.mp (hZero.trans (UInt32.toNat_zero).symm)
  split at hIs
  · contradiction
  · exact hSet hIs

end TimerPolicy

/-! ## Sends -/

namespace Ctl

/-- A client transaction after some sends, and whatever else happened to it but a fresh start. -/
inductive Sent : Nat → Ctl → Prop
  | fresh {c : Ctl} (hNone : c.retransmit_count = 0) : Sent 0 c
  | other {n : Nat} {c c' : Ctl} (h : Sent n c) (hSame : c'.retransmit_count = c.retransmit_count) :
      Sent n c'
  | send {n : Nat} {c : Ctl} (h : Sent n c) (now : UInt64) : Sent (n + 1) (c.noteSend now)

/-- The counter of sends has 8 bits. -/
theorem Sent.count {n : Nat} {c : Ctl} (h : Sent n c) : c.retransmit_count.toNat = n % 256 := by
  induction h with
  | fresh hNone =>
    rw [hNone]
    rfl
  | other _ hSame ih => rw [hSame, ih]
  | @send n c _ now ih =>
    have hOne : (1 : UInt8).toNat = 1 := rfl
    simp only [noteSend]
    rw [UInt8.toNat_add, ih, hOne]
    omega

/-- Some transaction was sent any number of times. -/
theorem exists_sent (n : Nat) (method : Method) : ∃ c : Ctl, Sent n c ∧ c.method_type = method := by
  induction n with
  | zero => exact ⟨{ method_type := method }, .fresh rfl, rfl⟩
  | succ n ih =>
    obtain ⟨c, hSent, hMethod⟩ := ih
    exact ⟨c.noteSend 0, hSent.send 0, hMethod⟩

/-- What the transmission of a request does counts as one more send. -/
theorem uacSent_sent {n : Nat} {p : TimerPolicy} {now : UInt64} {c c' : Ctl} (h : Sent n c)
    (hSent : c.uacSent p now = some c') : Sent (n + 1) c' := by
  have hScheduled : ∀ {done : Bool} {d d' : Ctl}, d.scheduleResend p now done = some d' →
      d'.retransmit_count = d.retransmit_count := by
    intro done d d' hRun
    rw [scheduleResend] at hRun
    split at hRun
    · obtain rfl := Option.some.inj hRun
      rfl
    · obtain ⟨ms, -, rfl⟩ := Option.map_eq_some_iff.mp hRun
      rfl
  refine .other (h.send now) ?_
  simp only [uacSent] at hSent
  split at hSent
  · obtain rfl := Option.some.inj hSent
    rfl
  · split at hSent
    · rw [postSendInvite] at hSent
      split at hSent
      · obtain rfl := Option.some.inj hSent
        rfl
      · obtain ⟨iv, -, hSent⟩ := Option.bind_eq_some_iff.mp hSent
        obtain ⟨iv', -, hSent⟩ := Option.bind_eq_some_iff.mp hSent
        exact (hScheduled hSent).trans rfl
    · rw [postSendNoninvite] at hSent
      split at hSent
      · obtain ⟨d, hArmed, hSent⟩ := Option.bind_eq_some_iff.mp hSent
        obtain ⟨ms, -, rfl⟩ := Option.map_eq_some_iff.mp hArmed
        exact (hScheduled hSent).trans rfl
      · exact (hScheduled hSent).trans rfl

/-! ## Delays -/

theorem toNat_doubled (n : Nat) (d : UInt64) : (doubled n d).toNat = d.toNat * 2 ^ n % 2 ^ 64 := by
  induction n with
  | zero =>
    rw [Nat.pow_zero, Nat.mul_one, Nat.mod_eq_of_lt d.toNat_lt]
    rfl
  | succ n ih =>
    have hStep : doubled (n + 1) d = doubled n d <<< 1 := rfl
    have hPow : 2 ^ (n + 1) = 2 ^ n * 2 := by rw [Nat.pow_succ]
    rw [hStep, UInt64.toNat_shiftLeft, ih, show (1 : UInt64).toNat % 64 = 1 from rfl,
      Nat.shiftLeft_eq, Nat.mod_mul_mod, Nat.pow_one, hPow, Nat.mul_assoc]

theorem toNat_doubledUpTo {n : Nat} {t2 : UInt64} (hT2 : t2.toNat < 2 ^ 32) {d : UInt64}
    (hd : d.toNat < 2 ^ 32) :
    (doubledUpTo t2 (n + 1) d).toNat = min (d.toNat * 2 ^ (n + 1)) t2.toNat := by
  have hTwice : ∀ d : UInt64, d.toNat < 2 ^ 32 → (d <<< 1).toNat = d.toNat * 2 := by
    intro d hd
    rw [UInt64.toNat_shiftLeft, show (1 : UInt64).toNat % 64 = 1 from rfl, Nat.shiftLeft_eq,
      Nat.mod_eq_of_lt (by omega)]
  induction n generalizing d with
  | zero =>
    rw [doubledUpTo]
    split
    · rename_i hOver
      rw [ge_iff_le, UInt64.le_iff_toNat_le, hTwice d hd] at hOver
      omega
    · rename_i hUnder
      rw [ge_iff_le, UInt64.le_iff_toNat_le, hTwice d hd] at hUnder
      rw [doubledUpTo, hTwice d hd]
      omega
  | succ n ih =>
    have hGrows : d.toNat * 2 ≤ d.toNat * 2 ^ (n + 1 + 1) :=
      Nat.mul_le_mul_left _ (Nat.le_self_pow (by omega) 2)
    rw [doubledUpTo]
    split
    · rename_i hOver
      rw [ge_iff_le, UInt64.le_iff_toNat_le, hTwice d hd] at hOver
      omega
    · rename_i hUnder
      rw [ge_iff_le, UInt64.le_iff_toNat_le, hTwice d hd] at hUnder
      rw [ih (by rw [hTwice d hd]; omega), hTwice d hd, Nat.mul_assoc, ← Nat.pow_succ']

/-- A wait is given and is a number. -/
def Waits (delay : Option UInt64) (n : Nat) : Prop := ∃ v, delay = some v ∧ v.toNat = n

/-- After send `k + 1` an INVITE waits its base doubled `k` times. -/
def InviteWaits (p : TimerPolicy) (k : Nat) : Prop :=
  ∀ c, Sent (k + 1) c → c.isInvite = true → Waits (c.nextSendDelayMs p) (p.inviteBase.toNat * 2 ^ k)

/-- After send `k + 1` another request waits its base doubled `k` times, but no more than T2. -/
def OtherWaits (p : TimerPolicy) (k : Nat) : Prop :=
  ∀ c, Sent (k + 1) c → c.isInvite = false →
    Waits (c.nextSendDelayMs p) (min (p.otherBase.toNat * 2 ^ k) p.t2_ms.toNat)

theorem le_word_iff {d : UInt64} : d ≤ 0xffffffff ↔ d.toNat < 2 ^ 32 := by
  rw [UInt64.le_iff_toNat_le, show (0xffffffff : UInt64).toNat = 2 ^ 32 - 1 from rfl]
  omega

theorem inviteWaits_iff {p : TimerPolicy} (hSet : p.t1_ms ≠ 0) (k : Nat) :
    InviteWaits p k ↔ p.inviteBase.toNat * 2 ^ k < 2 ^ 32 := by
  have hDelay : ∀ {c : Ctl}, c.isInvite = true → c.nextSendDelayMs p =
      if doubled (c.retransmit_count.toNat - 1) p.inviteBase.toUInt64 ≤ 0xffffffff then
        some (doubled (c.retransmit_count.toNat - 1) p.inviteBase.toUInt64) else none := by
    intro c hInvite
    simp only [nextSendDelayMs, hInvite, if_true]
    rfl
  constructor
  · intro h
    obtain ⟨c, hSent, hMethod⟩ := exists_sent (k + 1) .INVITE
    have hInvite : c.isInvite = true := by
      rw [isInvite, hMethod]
      rfl
    obtain ⟨v, hGiven, hValue⟩ := h c hSent hInvite
    rw [hDelay hInvite, Option.ite_none_right_eq_some] at hGiven
    obtain ⟨hFits, hIs⟩ := hGiven
    obtain rfl := Option.some.inj hIs
    rw [← hValue]
    exact le_word_iff.mp hFits
  · intro hFits c hSent hInvite
    have hPos : 0 < p.inviteBase.toNat := TimerPolicy.base_pos hSet
    have hPow : 2 ^ k < 2 ^ 32 := Nat.lt_of_le_of_lt (Nat.le_mul_of_pos_left _ hPos) hFits
    have hLess : k < 32 := (Nat.pow_lt_pow_iff_right (by decide)).mp hPow
    have hTurns : c.retransmit_count.toNat - 1 = k := by
      rw [hSent.count]
      omega
    have hValue : (doubled k p.inviteBase.toUInt64).toNat = p.inviteBase.toNat * 2 ^ k := by
      rw [toNat_doubled, UInt32.toNat_toUInt64]
      exact Nat.mod_eq_of_lt (Nat.lt_trans hFits (by decide))
    refine ⟨_, ?_, hValue⟩
    rw [hDelay hInvite, hTurns, if_pos (le_word_iff.mpr (hValue ▸ hFits))]

/-- What another request waits by what its counter says. -/
theorem other_delay {p : TimerPolicy} {c : Ctl} (hOther : c.isInvite = false) :
    Waits (c.nextSendDelayMs p)
      (if c.retransmit_count.toNat ≤ 1 then p.otherBase.toNat
      else min (p.otherBase.toNat * 2 ^ (c.retransmit_count.toNat - 1)) p.t2_ms.toNat) := by
  have hT2 : p.t2_ms.toUInt64.toNat < 2 ^ 32 := by
    rw [UInt32.toNat_toUInt64]
    exact p.t2_ms.toNat_lt
  have hBase : p.otherBase.toUInt64.toNat < 2 ^ 32 := by
    rw [UInt32.toNat_toUInt64]
    exact p.otherBase.toNat_lt
  have hDelay : c.nextSendDelayMs p =
      if doubledUpTo p.t2_ms.toUInt64 (c.retransmit_count.toNat - 1) p.otherBase.toUInt64 ≤ 0xffffffff then
        some (doubledUpTo p.t2_ms.toUInt64 (c.retransmit_count.toNat - 1) p.otherBase.toUInt64)
      else none := by
    simp only [nextSendDelayMs, hOther, Bool.false_eq_true, if_false]
    rfl
  rw [hDelay]
  cases hTurns : c.retransmit_count.toNat - 1 with
  | zero =>
    rw [doubledUpTo, if_pos (le_word_iff.mpr hBase), if_pos (by omega)]
    exact ⟨_, rfl, UInt32.toNat_toUInt64 _⟩
  | succ n =>
    have hValue := @toNat_doubledUpTo n _ hT2 _ hBase
    rw [UInt32.toNat_toUInt64, UInt32.toNat_toUInt64] at hValue
    have hFits : (doubledUpTo p.t2_ms.toUInt64 (n + 1) p.otherBase.toUInt64).toNat < 2 ^ 32 := by
      have hLt := p.t2_ms.toNat_lt
      omega
    rw [if_pos (le_word_iff.mpr hFits), if_neg (by omega)]
    exact ⟨_, rfl, hValue⟩

theorem Waits.unique {delay : Option UInt64} {n m : Nat} (h : Waits delay n) (h' : Waits delay m) : n = m := by
  obtain ⟨v, rfl, rfl⟩ := h
  obtain ⟨u, hIs, rfl⟩ := h'
  rw [Option.some.inj hIs]

theorem otherWaits_iff {p : TimerPolicy} (hSet : p.t1_ms ≠ 0) (k : Nat) :
    OtherWaits p k ↔ (k = 0 → p.otherBase.toNat ≤ p.t2_ms.toNat) ∧ (255 ≤ k →
      if (k + 1) % 256 ≤ 1 then p.otherBase = p.t2_ms
      else p.t2_ms.toNat ≤ p.otherBase.toNat * 2 ^ ((k + 1) % 256 - 1)) := by
  have hPos : 0 < p.otherBase.toNat := TimerPolicy.base_pos hSet
  have hLt := p.t2_ms.toNat_lt
  have hIff : OtherWaits p k ↔ (if (k + 1) % 256 ≤ 1 then p.otherBase.toNat
      else min (p.otherBase.toNat * 2 ^ ((k + 1) % 256 - 1)) p.t2_ms.toNat) =
        min (p.otherBase.toNat * 2 ^ k) p.t2_ms.toNat := by
    constructor
    · intro h
      obtain ⟨c, hSent, hMethod⟩ := exists_sent (k + 1) .BYE
      have hOther : c.isInvite = false := by
        rw [isInvite, hMethod]
        rfl
      have hDelay := @other_delay p c hOther
      rw [hSent.count] at hDelay
      exact hDelay.unique (h c hSent hOther)
    · intro h c hSent hOther
      have hDelay := @other_delay p c hOther
      rw [hSent.count, h] at hDelay
      exact hDelay
  have hWide : 255 ≤ k → p.t2_ms.toNat ≤ p.otherBase.toNat * 2 ^ k := by
    intro hLong
    have hPow : 2 ^ 32 ≤ 2 ^ k := Nat.pow_le_pow_right (by decide) (by omega)
    exact Nat.le_trans (Nat.le_of_lt (Nat.lt_of_lt_of_le hLt hPow)) (Nat.le_mul_of_pos_left _ hPos)
  rw [hIff, ← UInt32.toNat_inj]
  cases Nat.lt_or_ge k 255 with
  | inl hShort =>
    have hMod : (k + 1) % 256 = k + 1 := Nat.mod_eq_of_lt (by omega)
    rw [hMod]
    cases k with
    | zero =>
      rw [if_pos (by decide), Nat.pow_zero, Nat.mul_one]
      exact ⟨fun h => ⟨fun _ => by omega, fun hLong => by omega⟩, fun h => by have hLe := h.1 rfl; omega⟩
    | succ k =>
      rw [if_neg (by omega), Nat.add_sub_cancel]
      exact iff_of_true rfl ⟨fun hZero => by omega, fun hLong => by omega⟩
  | inr hLong =>
    have hCap := hWide hLong
    rw [Nat.min_eq_right hCap]
    split
    · exact ⟨fun h => ⟨fun hZero => by omega, fun _ => h⟩, fun h => h.2 hLong⟩
    · constructor
      · exact fun h => ⟨fun hZero => by omega, fun _ => by omega⟩
      · exact fun h => Nat.min_eq_right (h.2 hLong)

end Ctl

/-! ## Resolved policies -/

/-- The derived timers are exact where 64 times T1 fits in 32 bits; an INVITE's waits where the doubled
base does; another request's where its base does not pass T2 and, once the counter of its sends has
wrapped, the base doubled by what the counter says has reached T2. -/
theorem timer_arithmetic (src : Option TimerPolicy) :
    let p := TimerPolicy.resolve src
    (p.TimersExact ↔ 64 * p.t1_ms.toNat < 2 ^ 32) ∧ ∀ k : Nat,
      (Ctl.InviteWaits p k ↔ p.inviteBase.toNat * 2 ^ k < 2 ^ 32) ∧
      (Ctl.OtherWaits p k ↔ (k = 0 → p.otherBase.toNat ≤ p.t2_ms.toNat) ∧ (255 ≤ k →
        if (k + 1) % 256 ≤ 1 then p.otherBase = p.t2_ms
        else p.t2_ms.toNat ≤ p.otherBase.toNat * 2 ^ ((k + 1) % 256 - 1))) := by
  have hSet := TimerPolicy.resolve_t1 src
  exact ⟨TimerPolicy.timersExact_iff hSet, fun k =>
    ⟨Ctl.inviteWaits_iff hSet k, Ctl.otherWaits_iff hSet k⟩⟩

/-- With a T1 of 2^26 ms Timer H is 0, and the thirty-third send of an INVITE has no wait at all. -/
theorem timer_arithmetic_fails :
    ¬ (TimerPolicy.resolve (some { t1_ms := 67108864 })).TimersExact ∧
      ¬ Ctl.InviteWaits (TimerPolicy.resolve none) 32 := by
  constructor
  · rw [TimerPolicy.timersExact_iff (TimerPolicy.resolve_t1 _)]
    decide
  · rw [Ctl.inviteWaits_iff (TimerPolicy.resolve_t1 _)]
    decide +kernel

end Microsippy
