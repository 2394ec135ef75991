import Mathlib.Data.Nat.Bitwise
import Mathlib.Tactic.Ring

/-! # Machine words made of bytes

A word of `n` bytes is a bit vector of `8 * n` bits whose byte `j` holds the bits from `8 * j` on.
-/

namespace Word

set_option autoImplicit false

/-- The value of `n` bytes, the least first. -/
def ofLe : Nat → (Nat → UInt8) → Nat
  | 0, _ => 0
  | n + 1, f => (f 0).toNat + 256 * ofLe n (fun j => f (j + 1))

theorem ofLe_lt (n : Nat) (f : Nat → UInt8) : ofLe n f < 2 ^ (8 * n) := by
  induction n generalizing f with
  | zero => exact Nat.one_pos
  | succ n ih =>
    have hByte := (f 0).toNat_lt
    have hRest := ih (fun j => f (j + 1))
    have hPow : 2 ^ (8 * (n + 1)) = 256 * 2 ^ (8 * n) := by ring
    rw [ofLe, hPow]
    omega

theorem testBit_ofLe (n : Nat) (f : Nat → UInt8) (i : Nat) :
    (ofLe n f).testBit i = (decide (i < 8 * n) && (f (i / 8)).toNat.testBit (i % 8)) := by
  induction n generalizing f i with
  | zero => simp [ofLe]
  | succ n ih =>
    have hSplit : ofLe (n + 1) f = 2 ^ 8 * ofLe n (fun j => f (j + 1)) + (f 0).toNat :=
      Nat.add_comm _ _
    rw [hSplit, Nat.testBit_two_pow_mul_add _ (f 0).toNat_lt]
    split
    · rename_i hLow
      have hDiv : i / 8 = 0 := by omega
      have hMod : i % 8 = i := by omega
      have hIn : i < 8 * (n + 1) := by omega
      simp [hDiv, hMod, hIn]
    · rename_i hHigh
      have hDiv : (i - 8) / 8 + 1 = i / 8 := by omega
      have hMod : (i - 8) % 8 = i % 8 := by omega
      have hIn : i - 8 < 8 * n ↔ i < 8 * (n + 1) := by omega
      simp only [ih, hDiv, hMod, hIn]

/-- A word with the bytes of `f`. -/
def load (n : Nat) (f : Nat → UInt8) : BitVec (8 * n) := BitVec.ofNat (8 * n) (ofLe n f)

@[simp] theorem toNat_load (n : Nat) (f : Nat → UInt8) : (load n f).toNat = ofLe n f := by
  rw [load, BitVec.toNat_ofNat, Nat.mod_eq_of_lt (ofLe_lt n f)]

theorem getLsbD_load (n : Nat) (f : Nat → UInt8) (i : Nat) :
    (load n f).getLsbD i = (decide (i < 8 * n) && (f (i / 8)).toNat.testBit (i % 8)) := by
  rw [← BitVec.testBit_toNat, toNat_load, testBit_ofLe]

/-- Two words with the same bytes. -/
theorem load_congr {n : Nat} {f g : Nat → UInt8} (h : ∀ j < n, f j = g j) : load n f = load n g := by
  apply BitVec.eq_of_getLsbD_eq
  intro i hi
  rw [getLsbD_load, getLsbD_load, h _ (by omega)]

theorem load_xor (n : Nat) (f g : Nat → UInt8) :
    load n f ^^^ load n g = load n (fun j => f j ^^^ g j) := by
  apply BitVec.eq_of_getLsbD_eq
  intro i hi
  rw [BitVec.getLsbD_xor, getLsbD_load, getLsbD_load, getLsbD_load, UInt8.toNat_xor,
    Nat.testBit_xor]
  simp [hi]

theorem load_or (n : Nat) (f g : Nat → UInt8) :
    load n f ||| load n g = load n (fun j => f j ||| g j) := by
  apply BitVec.eq_of_getLsbD_eq
  intro i hi
  rw [BitVec.getLsbD_or, getLsbD_load, getLsbD_load, getLsbD_load, UInt8.toNat_or, Nat.testBit_or]
  simp [hi]

theorem load_and (n : Nat) (f g : Nat → UInt8) :
    load n f &&& load n g = load n (fun j => f j &&& g j) := by
  apply BitVec.eq_of_getLsbD_eq
  intro i hi
  rw [BitVec.getLsbD_and, getLsbD_load, getLsbD_load, getLsbD_load, UInt8.toNat_and, Nat.testBit_and]
  simp [hi]

theorem load_not (n : Nat) (f : Nat → UInt8) : ~~~(load n f) = load n (fun j => ~~~(f j)) := by
  apply BitVec.eq_of_getLsbD_eq
  intro i hi
  have hBit : (~~~(f (i / 8))).toNat.testBit (i % 8) = !(f (i / 8)).toNat.testBit (i % 8) := by
    have hLow : i % 8 < 8 := Nat.mod_lt i (by decide)
    rw [← UInt8.toNat_toBitVec, ← UInt8.toNat_toBitVec, BitVec.testBit_toNat, BitVec.testBit_toNat,
      UInt8.toBitVec_not, BitVec.getLsbD_not, decide_eq_true hLow, Bool.true_and]
  rw [BitVec.getLsbD_not, getLsbD_load, getLsbD_load, hBit, decide_eq_true hi, Bool.true_and,
    Bool.true_and, Bool.true_and]

/-- A word moved up by a byte, with a bit put into the byte that comes free. -/
theorem load_shift (n : Nat) (f : Nat → UInt8) (c : Bool) :
    load n f <<< 8 ||| BitVec.ofNat (8 * n) c.toNat =
      load n (fun j => if j = 0 then UInt8.ofNat c.toNat else f (j - 1)) := by
  apply BitVec.eq_of_getLsbD_eq
  intro i hi
  simp only [BitVec.getLsbD_or, BitVec.getLsbD_shiftLeft, getLsbD_load, BitVec.getLsbD_ofNat, hi,
    decide_true, Bool.true_and]
  by_cases hLow : i < 8
  · have hDiv : i / 8 = 0 := by omega
    have hMod : i % 8 = i := by omega
    cases c <;> simp [hLow, hDiv, hMod]
  · have hDiv : (i - 8) / 8 = i / 8 - 1 := by omega
    have hMod : (i - 8) % 8 = i % 8 := by omega
    have hByte : i / 8 ≠ 0 := by omega
    have hIn : i - 8 < 8 * n := by omega
    have hHigh : c.toNat.testBit i = false := by
      refine Nat.testBit_lt_two_pow (Nat.lt_of_le_of_lt c.toNat_le ?_)
      exact Nat.one_lt_two_pow (by omega)
    simp [hLow, hDiv, hMod, hByte, hIn, hHigh]

/-- Subtraction byte by byte, by the borrow into each byte. -/
theorem ofLe_sub {n : Nat} {f g h : Nat → UInt8} {borrow : Nat → Nat}
    (hByte : ∀ j < n, (f j).toNat + 256 * borrow (j + 1) = (g j).toNat + (h j).toNat + borrow j) :
    ofLe n f + 2 ^ (8 * n) * borrow n = ofLe n g + ofLe n h + borrow 0 := by
  induction n generalizing f g h borrow with
  | zero => simp [ofLe]
  | succ n ih =>
    have hFirst := hByte 0 (Nat.zero_lt_succ n)
    have hRest := @ih (fun j => f (j + 1)) (fun j => g (j + 1)) (fun j => h (j + 1))
      (fun j => borrow (j + 1)) (fun j hj => hByte (j + 1) (Nat.succ_lt_succ hj))
    have hPow : 2 ^ (8 * (n + 1)) = 256 * 2 ^ (8 * n) := by ring
    simp only [Nat.zero_add] at hFirst hRest
    rw [ofLe, ofLe, ofLe, hPow, Nat.mul_assoc]
    omega

theorem load_sub {n : Nat} {f g h : Nat → UInt8} {borrow : Nat → Nat} (hNone : borrow 0 = 0)
    (hByte : ∀ j < n, (f j).toNat + 256 * borrow (j + 1) = (g j).toNat + (h j).toNat + borrow j) :
    load n f - load n h = load n g := by
  apply BitVec.eq_of_toNat_eq
  have hSub := ofLe_sub hByte
  have hG := ofLe_lt n g
  have hH := ofLe_lt n h
  rw [BitVec.toNat_sub, toNat_load, toNat_load, toNat_load]
  have hSum : 2 ^ (8 * n) - ofLe n h + ofLe n f + 2 ^ (8 * n) * borrow n =
      ofLe n g + 2 ^ (8 * n) := by omega
  rw [← Nat.add_mul_mod_self_left _ (2 ^ (8 * n)) (borrow n), hSum, Nat.add_mod_right,
    Nat.mod_eq_of_lt hG]

/-- Addition byte by byte where nothing is carried. -/
theorem load_add {n : Nat} {f g h : Nat → UInt8}
    (hByte : ∀ j < n, (f j).toNat = (g j).toNat + (h j).toNat) : load n g + load n h = load n f := by
  have hSum := @ofLe_sub n f g h (fun _ => 0) hByte
  have hFits := ofLe_lt n f
  rw [Nat.mul_zero, Nat.add_zero, Nat.add_zero] at hSum
  apply BitVec.eq_of_toNat_eq
  rw [BitVec.toNat_add, toNat_load, toNat_load, toNat_load, ← hSum, Nat.mod_eq_of_lt hFits]

theorem ofLe_mul {n c : Nat} {f g : Nat → UInt8} (h : ∀ j, (f j).toNat = c * (g j).toNat) :
    ofLe n f = c * ofLe n g := by
  induction n generalizing f g with
  | zero => rfl
  | succ n ih =>
    rw [ofLe, ofLe, h 0, ih fun j => h (j + 1)]
    ring

/-- A word moved down by bits that are zero in every byte. -/
theorem load_shiftRight {n r : Nat} {f g : Nat → UInt8} (h : ∀ j, (f j).toNat = 2 ^ r * (g j).toNat) :
    load n f >>> r = load n g := by
  apply BitVec.eq_of_toNat_eq
  rw [BitVec.toNat_ushiftRight, toNat_load, toNat_load, ofLe_mul h, Nat.shiftRight_eq_div_pow,
    Nat.mul_div_cancel_left _ (Nat.two_pow_pos r)]

theorem ofLe_inj {n : Nat} {f g : Nat → UInt8} (h : ofLe n f = ofLe n g) : ∀ j < n, f j = g j := by
  induction n generalizing f g with
  | zero =>
    intro j hj
    exact absurd hj (Nat.not_lt_zero j)
  | succ n ih =>
    have hF := (f 0).toNat_lt
    have hG := (g 0).toNat_lt
    rw [ofLe, ofLe] at h
    have hRest := @ih (fun j => f (j + 1)) (fun j => g (j + 1)) (by omega)
    intro j hj
    cases j with
    | zero => exact UInt8.toNat_inj.mp (by omega)
    | succ j => exact hRest j (Nat.lt_of_succ_lt_succ hj)

/-- Words are equal when all their bytes are. -/
theorem load_eq_iff {n : Nat} {f g : Nat → UInt8} : load n f = load n g ↔ ∀ j < n, f j = g j := by
  constructor
  · intro h
    have hNat := congrArg BitVec.toNat h
    rw [toNat_load, toNat_load] at hNat
    exact ofLe_inj hNat
  · exact load_congr

theorem ofLe_const (n : Nat) (c : UInt8) :
    ofLe n (fun _ => c) = c.toNat * ofLe n (fun _ => 1) := by
  induction n with
  | zero => rfl
  | succ n ih =>
    have hOne : (1 : UInt8).toNat = 1 := rfl
    rw [ofLe, ofLe, ih, hOne]
    ring

theorem ofLe_one (n : Nat) : 255 * ofLe n (fun _ => 1) = 2 ^ (8 * n) - 1 := by
  induction n with
  | zero => rfl
  | succ n ih =>
    have hOne : (1 : UInt8).toNat = 1 := rfl
    have hPow : 2 ^ (8 * (n + 1)) = 256 * 2 ^ (8 * n) := by ring
    have hPos := Nat.two_pow_pos (8 * n)
    rw [ofLe, hOne, hPow]
    omega

/-- All ones divided by 255 and multiplied by a byte is that byte at every place. -/
theorem load_const {n : Nat} (hn : 0 < n) (c : UInt8) :
    BitVec.allOnes (8 * n) / BitVec.ofNat (8 * n) 255 * BitVec.ofNat (8 * n) c.toNat =
      load n (fun _ => c) := by
  apply BitVec.eq_of_toNat_eq
  have hSmall : 2 ^ 8 ≤ 2 ^ (8 * n) := Nat.pow_le_pow_right (by decide) (by omega)
  have hByte := c.toNat_lt
  have hOnes := ofLe_one n
  have hDiv : (2 ^ (8 * n) - 1) / 255 = ofLe n (fun _ => 1) := by omega
  have h255 : 255 % 2 ^ (8 * n) = 255 := Nat.mod_eq_of_lt (by omega)
  have hc : c.toNat % 2 ^ (8 * n) = c.toNat := Nat.mod_eq_of_lt (by omega)
  have hFits := ofLe_lt n (fun _ => c)
  rw [BitVec.toNat_mul, BitVec.toNat_udiv, BitVec.toNat_allOnes, BitVec.toNat_ofNat,
    BitVec.toNat_ofNat, h255, hc, hDiv, toNat_load, Nat.mul_comm, ← ofLe_const,
    Nat.mod_eq_of_lt hFits]

/-- The test for zero bytes: the top bit of a byte is set just when the byte is zero, provided no
byte after a zero byte is one. -/
theorem getLsbD_zeroBytes {n : Nat} {f : Nat → UInt8} (hNext : ∀ j, f j = 0 → 2 ≤ (f (j + 1)).toNat)
    (i : Nat) :
    ((load n f - load n (fun _ => 1)) &&& ~~~(load n f) &&& load n (fun _ => 0x80)).getLsbD i =
      (decide (i < 8 * n) && decide (i % 8 = 7) && decide (f (i / 8) = 0)) := by
  let borrow : Nat → Nat := fun j => if 0 < j ∧ f (j - 1) = 0 then 1 else 0
  let diff : Nat → UInt8 := fun j => UInt8.ofNat ((f j).toNat + 255 - borrow j)
  have hBorrow (j : Nat) : borrow j ≤ 1 ∧ (borrow j = 1 → 2 ≤ (f j).toNat) := by
    simp only [borrow]
    split
    · rename_i hPrev
      refine ⟨Nat.le_refl 1, fun _ => ?_⟩
      have hStep := hNext (j - 1) hPrev.2
      rwa [Nat.sub_add_cancel hPrev.1] at hStep
    · exact ⟨Nat.zero_le 1, fun h => absurd h (by decide)⟩
  have hCarry (j : Nat) : borrow (j + 1) = if (f j).toNat = 0 then 1 else 0 := by
    have hZero : f j = 0 ↔ (f j).toNat = 0 := ⟨fun h => h ▸ rfl, fun h => UInt8.toNat_inj.mp h⟩
    simp [borrow, hZero]
  have hDiff (j : Nat) : (diff j).toNat = ((f j).toNat + 255 - borrow j) % 256 := by
    simp only [diff, UInt8.toNat_ofNat']
  have hSub : load n f - load n (fun _ => 1) = load n diff := by
    refine load_sub (by simp [borrow] : borrow 0 = 0) (fun j _ => ?_)
    have hOne : (1 : UInt8).toNat = 1 := rfl
    obtain ⟨hLe, hTwo⟩ := hBorrow j
    have hByte := (f j).toNat_lt
    rw [hCarry, hDiff, hOne]
    split <;> omega
  have hZero : f (i / 8) = 0 ↔ (f (i / 8)).toNat = 0 :=
    ⟨fun h => h ▸ rfl, fun h => UInt8.toNat_inj.mp h⟩
  have hTop : (0x80 : UInt8).toNat = 2 ^ 7 := rfl
  rw [hSub]
  simp only [BitVec.getLsbD_and, BitVec.getLsbD_not, getLsbD_load, hTop, Nat.testBit_two_pow, hZero]
  by_cases hIn : i < 8 * n
  · by_cases hSeven : i % 8 = 7
    · obtain ⟨hLe, hTwo⟩ := hBorrow (i / 8)
      have hByte := (f (i / 8)).toNat_lt
      rw [hSeven]
      simp only [hIn, decide_true, Bool.true_and, Bool.and_true, Nat.testBit_eq_decide_div_mod_eq,
        hDiff]
      rw [← decide_not, ← Bool.decide_and, decide_eq_decide]
      omega
    · have hOther : ¬ 7 = i % 8 := fun h => hSeven h.symm
      simp [hSeven, hOther]
  · simp [hIn]

/-! ## The lowest set bit -/

/-- The place of the lowest set bit, counted from one, or zero. -/
def ffs {w : Nat} (x : BitVec w) : Nat := if x = 0 then 0 else x.ctz.toNat + 1

theorem ffs_pos {w : Nat} {x : BitVec w} (h : x ≠ 0) :
    ∃ p, ffs x = p + 1 ∧ x.getLsbD p = true ∧ ∀ i < p, x.getLsbD i = false :=
  ⟨x.ctz.toNat, if_neg h, BitVec.getLsbD_true_ctz_of_ne_zero h,
    fun _ hi => BitVec.getLsbD_false_of_lt_ctz hi⟩

theorem eq_zero_iff {w : Nat} {x : BitVec w} : x = 0 ↔ ∀ i, x.getLsbD i = false := by
  constructor
  · rintro rfl i
    simp
  · intro h
    apply BitVec.eq_of_getLsbD_eq
    intro i hi
    simp [h i]

/-- A set bit taken out. -/
theorem getLsbD_clear {w : Nat} {x : BitVec w} {p : Nat} (h : x.getLsbD p = true) (i : Nat) :
    (x ^^^ 1#w <<< p).getLsbD i = (x.getLsbD i && decide (i ≠ p)) := by
  have hp : p < w := BitVec.lt_of_getLsbD h
  rw [BitVec.getLsbD_xor, ← BitVec.twoPow_eq, BitVec.getLsbD_twoPow]
  by_cases hIs : i = p
  · subst hIs
    simp [h, hp]
  · have hNot : ¬ p = i := fun e => hIs e.symm
    simp [hIs, hNot, hp]

end Word
