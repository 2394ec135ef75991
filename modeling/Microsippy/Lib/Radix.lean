import Mathlib.Data.Nat.Digits.Defs
import Mathlib.Tactic.Ring

/-! # Reading numbers digit by digit

The value of digits in a base, the highest first, and its computation with an accumulator that is
tested by a division before it would pass a bound.
-/

namespace Radix

set_option autoImplicit false

variable {base max r d : Nat} {ds : List Nat}

/-- The value of digits after what was read before them. -/
def value (base r : Nat) (ds : List Nat) : Nat := ds.foldl (fun r d => base * r + d) r

@[simp] theorem value_nil : value base r [] = r := rfl

@[simp] theorem value_cons : value base r (d :: ds) = value base (base * r + d) ds := rfl

theorem value_eq_ofDigits :
    value base r ds = base ^ ds.length * r + Nat.ofDigits base ds.reverse := by
  induction ds generalizing r with
  | nil => simp
  | cons d ds ih =>
    rw [value_cons, ih, Nat.ofDigits_reverse_cons, List.length_cons, pow_succ]
    ring

theorem le_value (hBase : 0 < base) : r ≤ value base r ds := by
  induction ds generalizing r with
  | nil => exact Nat.le_refl r
  | cons d ds ih =>
    have hGrows : r ≤ base * r + d := Nat.le_add_right_of_le (Nat.le_mul_of_pos_left r hBase)
    exact hGrows.trans ih

/-- The computation, which ends as soon as the next value would pass the bound. -/
def read (base max : Nat) : Nat → List Nat → Option Nat
  | r, [] => some r
  | r, d :: ds => if r > (max - d) / base then none else read base max (base * r + d) ds

/-- The test by a division is exact. -/
theorem div_lt_iff (hBase : 0 < base) (hDigit : d ≤ max) :
    r > (max - d) / base ↔ max < base * r + d := by
  rw [gt_iff_lt, Nat.div_lt_iff_lt_mul hBase, Nat.mul_comm]
  omega

/-- However many digits there are, the value is computed when it is within the bound and nothing
else is. -/
theorem read_eq (hBase : 0 < base) (hDigits : ∀ d ∈ ds, d ≤ max) (hStart : r ≤ max) :
    read base max r ds = if value base r ds ≤ max then some (value base r ds) else none := by
  induction ds generalizing r with
  | nil => rw [read, value_nil, if_pos hStart]
  | cons d ds ih =>
    rw [List.forall_mem_cons] at hDigits
    rw [read, value_cons]
    split
    · rename_i hPast
      rw [div_lt_iff hBase hDigits.1] at hPast
      rw [if_neg (Nat.not_le.mpr (Nat.lt_of_lt_of_le hPast (le_value hBase)))]
    · rename_i hRoom
      rw [div_lt_iff hBase hDigits.1, Nat.not_lt] at hRoom
      exact ih hDigits.2 hRoom

end Radix
