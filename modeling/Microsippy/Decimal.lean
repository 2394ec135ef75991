import Microsippy.Str
import Microsippy.Lib.Radix

/-! # Reading decimal numbers

What `usipy_str_atoui_range` computes of any string.
-/

namespace Microsippy

set_option autoImplicit false

/-- An ASCII digit. -/
def IsDigit (c : UInt8) : Prop := ch '0' ≤ c ∧ c ≤ ch '9'

instance (c : UInt8) : Decidable (IsDigit c) := inferInstanceAs (Decidable (_ ∧ _))

/-- The value of a digit. -/
def digitVal (c : UInt8) : Nat := (c - ch '0').toNat

/-- The value of a string of digits. -/
def decimal (b : Bytes) : Nat := Nat.ofDigits 10 (b.map digitVal).reverse

theorem digitVal_le {c : UInt8} (h : IsDigit c) : digitVal c ≤ 9 := by
  have hHigh := UInt8.le_iff_toNat_le.mp h.2
  have hNine : (ch '9').toNat = 57 := by decide
  have hZero : (ch '0').toNat = 48 := by decide
  rw [digitVal, UInt8.toNat_sub_of_le _ _ h.1]
  omega

theorem not_isDigit_iff {c : UInt8} : c > ch '9' ∨ c < ch '0' ↔ ¬ IsDigit c := by
  rw [IsDigit, not_and_or, UInt8.not_le, UInt8.not_le, or_comm]

namespace Str

/-- The loop over digits is their reading with a bound, in the base 10. -/
theorem atouiLoop_eq {b : Bytes} (hDigits : ∀ c ∈ b, IsDigit c) (r : UInt32) :
    (atouiLoop r b).map UInt32.toNat =
      Radix.read 10 (2 ^ 32 - 1) r.toNat (b.map digitVal) := by
  induction b generalizing r with
  | nil =>
    rw [List.map_nil, Radix.read]
    exact Option.map_some ..
  | cons c b ih =>
    obtain ⟨hDigit, hRest⟩ := List.forall_mem_cons.mp hDigits
    have hd : (c - ch '0').toUInt32.toNat = digitVal c := rfl
    have hSmall := digitVal_le hDigit
    have hMax : (0xffffffff : UInt32).toNat = 2 ^ 32 - 1 := rfl
    have hTen : (10 : UInt32).toNat = 10 := rfl
    have hRoom : r > (0xffffffff - (c - ch '0').toUInt32) / 10 ↔
        r.toNat > (2 ^ 32 - 1 - digitVal c) / 10 := by
      rw [gt_iff_lt, UInt32.lt_iff_toNat_lt, UInt32.toNat_div, UInt32.toNat_sub_of_le, hd, hMax, hTen]
      rw [UInt32.le_iff_toNat_le, hd, hMax]
      omega
    rw [atouiLoop, if_neg fun hNot => not_isDigit_iff.mp hNot hDigit, List.map_cons, Radix.read]
    simp only [hRoom]
    split
    · rfl
    · rename_i hFits
      have hStep : (r * 10 + (c - ch '0').toUInt32).toNat = 10 * r.toNat + digitVal c := by
        rw [Radix.div_lt_iff (by decide) (by omega)] at hFits
        rw [UInt32.toNat_add, UInt32.toNat_mul, hd, hTen]
        omega
      rw [ih hRest, hStep]

theorem isDigit_of_atouiLoop {b : Bytes} {r v : UInt32} (h : atouiLoop r b = some v) :
    ∀ c ∈ b, IsDigit c := by
  induction b generalizing r with
  | nil => exact fun c hc => absurd hc List.not_mem_nil
  | cons c b ih =>
    rw [atouiLoop] at h
    split at h
    · cases h
    · rename_i hDigit
      rw [not_isDigit_iff, Decidable.not_not] at hDigit
      dsimp only at h
      split at h
      · cases h
      · exact List.forall_mem_cons.mpr ⟨hDigit, ih h⟩

theorem atouiLoop_iff {b : Bytes} {r v : UInt32} : atouiLoop r b = some v ↔
    (∀ c ∈ b, IsDigit c) ∧ v.toNat = Radix.value 10 r.toNat (b.map digitVal) := by
  rw [← and_iff_right_of_imp (isDigit_of_atouiLoop (b := b) (r := r) (v := v))]
  refine and_congr_right fun hDigits => ?_
  have hToNat : atouiLoop r b = some v ↔ (atouiLoop r b).map UInt32.toNat = some v.toNat := by
    rw [← Option.map_some (f := UInt32.toNat)]
    exact (Option.map_injective fun _ _ => UInt32.toNat_inj.mp).eq_iff.symm
  have hSmall : ∀ d ∈ b.map digitVal, d ≤ 2 ^ 32 - 1 := by
    intro d hd
    obtain ⟨c, hc, rfl⟩ := List.mem_map.mp hd
    exact (digitVal_le (hDigits c hc)).trans (by decide)
  have hBelow := v.toNat_lt
  rw [hToNat, atouiLoop_eq hDigits, Radix.read_eq (by decide) hSmall (Nat.le_pred_of_lt r.toNat_lt),
    Option.ite_none_right_eq_some, Option.some_inj, eq_comm (a := v.toNat)]
  constructor
  · exact And.right
  · intro hIs
    exact ⟨hIs ▸ Nat.le_pred_of_lt hBelow, hIs⟩

/-- What is read is the value of a string of digits, the empty one included. -/
theorem atouiRange_iff {m : Mem} {x : Str} {min max v : UInt32} (h : min ≤ max) :
    x.atouiRange m min max = some v ↔
      (∀ c ∈ m.read x, IsDigit c) ∧ v.toNat = decimal (m.read x) ∧ min ≤ v ∧ v ≤ max := by
  have hValue : Radix.value 10 (0 : UInt32).toNat ((m.read x).map digitVal) = decimal (m.read x) := by
    rw [Radix.value_eq_ofDigits, decimal, UInt32.toNat_zero, Nat.mul_zero, Nat.zero_add]
  rw [atouiRange, Option.bind_eq_some_iff]
  simp only [atouiLoop_iff, hValue, Option.ite_none_left_eq_some, Option.some_inj]
  constructor
  · rintro ⟨r, ⟨hDigits, hIs⟩, hIn, rfl⟩
    rw [not_or, not_and, UInt32.not_lt, gt_iff_lt, UInt32.not_lt] at hIn
    exact ⟨hDigits, hIs, hIn.1, hIn.2 h⟩
  · rintro ⟨hDigits, hIs, hLow, hHigh⟩
    refine ⟨v, ⟨hDigits, hIs⟩, ?_, rfl⟩
    rw [not_or, not_and, UInt32.not_lt, gt_iff_lt, UInt32.not_lt]
    exact ⟨hLow, fun _ => hHigh⟩

end Str

/-! ## Numbers as they are printed -/

theorem digitVal_ch {c : Char} (h : c.isDigit) :
    IsDigit (ch c) ∧ digitVal (ch c) = c.toNat - '0'.toNat := by
  simp only [Char.isDigit, Bool.and_eq_true, decide_eq_true_eq, UInt32.le_iff_toNat_le] at h
  have hLow : 48 ≤ c.toNat := h.1
  have hHigh : c.toNat ≤ 57 := h.2
  have hVal : (ch c).toNat = c.toNat := by
    rw [ch, UInt8.toNat_ofNat']
    omega
  have hDigit : IsDigit (ch c) := by
    rw [IsDigit, UInt8.le_iff_toNat_le, UInt8.le_iff_toNat_le, hVal]
    exact h
  refine ⟨hDigit, ?_⟩
  rw [digitVal, UInt8.toNat_sub_of_le _ _ hDigit.1, hVal]
  rfl

theorem mem_dec {n : Nat} {b : UInt8} (h : b ∈ dec n) : IsDigit b := by
  obtain ⟨c, hc, rfl⟩ := List.mem_map.mp h
  exact (digitVal_ch (Nat.isDigit_of_mem_toDigits (by decide) (by decide) hc)).1

theorem not_mem_dec {n : Nat} {b : UInt8} (h : b < ch '0' ∨ ch '9' < b) : b ∉ dec n :=
  fun hMem => not_isDigit_iff.mp h.symm (mem_dec hMem)

/-- The value of a number in decimal. -/
theorem decimal_dec (n : Nat) : decimal (dec n) = n := by
  have hValue : ∀ (ds : List Char) (r : Nat), (∀ c ∈ ds, c.isDigit) →
      Radix.value 10 r ((ds.map ch).map digitVal) = Nat.ofDigitChars 10 ds r := by
    intro ds
    induction ds with
    | nil => exact fun r _ => rfl
    | cons c ds ih =>
      intro r hDigits
      rw [List.forall_mem_cons] at hDigits
      rw [List.map_cons, List.map_cons, Radix.value_cons, ih _ hDigits.2, (digitVal_ch hDigits.1).2,
        Nat.ofDigitChars_cons]
  have hRead := hValue (Nat.toDigits 10 n) 0
    fun c hc => Nat.isDigit_of_mem_toDigits (by decide) (by decide) hc
  rw [Radix.value_eq_ofDigits, Nat.mul_zero, Nat.zero_add, Nat.ofDigitChars_ten_toDigits] at hRead
  exact hRead

/-- A number in decimal is read back. -/
theorem atouiRange_dec {m : Mem} {x : Str} {n : Nat} {min max : UInt32} (hRead : m.read x = dec n)
    (hMin : min.toNat ≤ n) (hMax : n ≤ max.toNat) :
    ∃ v, x.atouiRange m min max = some v ∧ v.toNat = n := by
  have hIs : (UInt32.ofNat n).toNat = n :=
    UInt32.toNat_ofNat_of_lt' (Nat.lt_of_le_of_lt hMax max.toNat_lt)
  refine ⟨UInt32.ofNat n, ?_, hIs⟩
  rw [Str.atouiRange_iff (UInt32.le_iff_toNat_le.mpr (hMin.trans hMax)), hRead, decimal_dec, hIs,
    UInt32.le_iff_toNat_le, UInt32.le_iff_toNat_le, hIs]
  exact ⟨fun c hc => mem_dec hc, rfl, hMin, hMax⟩

end Microsippy
