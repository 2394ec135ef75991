import Mathlib.Data.List.Basic

/-! # Counting an initial segment

How many numbers below a bound meet a test, where two tests differ at one number.
-/

set_option autoImplicit false

namespace Count

variable {p q : Nat → Bool} {n j : Nat}

/-- How many numbers below `n` meet a test. -/
def below (p : Nat → Bool) (n : Nat) : Nat := (List.range n).countP p

theorem below_succ (p : Nat → Bool) (n : Nat) : below p (n + 1) = below p n + (p n).toNat := by
  rw [below, below, List.range_succ, List.countP_append]
  cases h : p n <;> simp [h]

theorem below_congr (h : ∀ k < n, q k = p k) : below q n = below p n := by
  induction n with
  | zero => rfl
  | succ n ih =>
    rw [below_succ, below_succ, ih fun k hk => h k (Nat.lt_succ_of_lt hk), h n (Nat.lt_succ_self n)]

theorem below_none (n : Nat) : below (fun _ => false) n = 0 := by
  induction n with
  | zero => rfl
  | succ n ih => rw [below_succ, ih, Bool.toNat_false]

/-- Two tests that differ at `j` alone. -/
theorem below_update (hj : j < n) (hOther : ∀ k, k ≠ j → q k = p k) :
    below q n + (p j).toNat = below p n + (q j).toNat := by
  induction n with
  | zero => cases hj
  | succ n ih =>
    rw [below_succ, below_succ]
    rcases Nat.lt_succ_iff_lt_or_eq.mp hj with hBefore | rfl
    · have hLast := hOther n (Nat.ne_of_gt hBefore)
      have hRest := ih hBefore
      rw [hLast]
      omega
    · rw [below_congr fun k hk => hOther k (Nat.ne_of_lt hk)]
      omega

theorem below_gain (hj : j < n) (hOther : ∀ k, k ≠ j → q k = p k) (hWas : p j = false)
    (hIs : q j = true) : below q n = below p n + 1 := by
  have hBoth := below_update hj hOther
  rwa [hWas, hIs] at hBoth

theorem below_loss (hj : j < n) (hOther : ∀ k, k ≠ j → q k = p k) (hWas : p j = true)
    (hIs : q j = false) : below q n + 1 = below p n := by
  have hBoth := below_update hj hOther
  rwa [hWas, hIs] at hBoth

end Count
