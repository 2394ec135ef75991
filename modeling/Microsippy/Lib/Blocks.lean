import Mathlib.Data.List.Basic

/-! # Streams taken in blocks

The state that blocks of one size are put into, what a stream leaves over, and that two pieces of it
make no difference to one.
-/

namespace Blocks

set_option autoImplicit false

variable {σ α : Type} {f : σ → List α → σ} {n j k : Nat} {s : σ} {b c : List α}

/-- The state after some blocks from the beginning of a list. -/
def fold (f : σ → List α → σ) (n : Nat) : Nat → σ → List α → σ
  | 0, s, _ => s
  | k + 1, s, b => fold f n k (f s (b.take n)) (b.drop n)

theorem fold_add : fold f n (j + k) s b = fold f n k (fold f n j s b) (b.drop (n * j)) := by
  induction j generalizing s b with
  | zero => rw [Nat.zero_add, Nat.mul_zero, List.drop_zero, fold]
  | succ j ih =>
    rw [Nat.succ_add, fold, fold, ih, List.drop_drop, Nat.mul_succ, Nat.add_comm n]

theorem fold_append (h : n * k ≤ b.length) : fold f n k s (b ++ c) = fold f n k s b := by
  induction k generalizing s b with
  | zero => rfl
  | succ k ih =>
    rw [Nat.mul_succ] at h
    have hFirst : n ≤ b.length := by omega
    have hRest : n * k ≤ (b.drop n).length := by
      rw [List.length_drop]
      omega
    rw [fold, fold, List.take_append_of_le_length hFirst, List.drop_append_of_le_length hFirst,
      ih hRest]

/-- A stream so far: the state, and what is left over. -/
@[ext] structure Stream (σ α : Type) where
  state : σ
  rest : List α

variable {x : Stream σ α}

def feed (f : σ → List α → σ) (n : Nat) (x : Stream σ α) (c : List α) : Stream σ α where
  state := fold f n ((x.rest ++ c).length / n) x.state (x.rest ++ c)
  rest := (x.rest ++ c).drop (n * ((x.rest ++ c).length / n))

theorem feed_eq (k : Nat) (hLow : n * k ≤ (x.rest ++ c).length)
    (hHigh : (x.rest ++ c).length < n * (k + 1)) :
    feed f n x c = ⟨fold f n k x.state (x.rest ++ c), (x.rest ++ c).drop (n * k)⟩ := by
  have hDiv : (x.rest ++ c).length / n = k := by
    rw [Nat.mul_comm] at hLow hHigh
    exact Nat.div_eq_of_lt_le hLow hHigh
  rw [feed, hDiv]

theorem length_rest : (feed f n x c).rest.length = (x.rest ++ c).length % n := by
  rw [feed, List.length_drop, Nat.mod_eq_sub]

theorem length_rest_feed (hn : 0 < n) : (feed f n x c).rest.length < n := by
  rw [length_rest]
  exact Nat.mod_lt _ hn

theorem feed_nil (hRest : x.rest.length < n) : feed f n x [] = x := by
  rw [feed_eq 0 (Nat.zero_le _)]
  · rw [List.append_nil, Nat.mul_zero, List.drop_zero, fold]
  · rw [List.append_nil, Nat.mul_one]
    exact hRest

theorem feed_short (h : (x.rest ++ c).length < n) : feed f n x c = ⟨x.state, x.rest ++ c⟩ := by
  rw [feed_eq 0 (Nat.zero_le _), Nat.mul_zero, List.drop_zero, fold]
  rwa [Nat.mul_one]

theorem feed_block (hn : 0 < n) (h : (x.rest ++ c).length = n) :
    feed f n x c = ⟨f x.state (x.rest ++ c), []⟩ := by
  have hOne : n * 1 = (x.rest ++ c).length := by rw [Nat.mul_one, h]
  rw [feed_eq 1 (Nat.le_of_eq hOne), fold, fold, List.take_of_length_le (Nat.le_of_eq h),
    hOne, List.drop_length]
  omega

/-- A stream fed in two pieces. -/
theorem feed_append (hn : 0 < n) : feed f n (feed f n x b) c = feed f n x (b ++ c) := by
  have hWhole : n * ((x.rest ++ b).length / n) ≤ (x.rest ++ b).length := Nat.mul_div_le _ _
  have hDrop : (x.rest ++ (b ++ c)).drop (n * ((x.rest ++ b).length / n)) =
      (feed f n x b).rest ++ c := by
    rw [← List.append_assoc, List.drop_append_of_le_length hWhole, feed]
  have hCount : (x.rest ++ (b ++ c)).length / n =
      (x.rest ++ b).length / n + ((feed f n x b).rest ++ c).length / n := by
    have hLength : (x.rest ++ (b ++ c)).length =
        n * ((x.rest ++ b).length / n) + ((feed f n x b).rest ++ c).length := by
      rw [← hDrop, List.length_drop, ← List.append_assoc, List.length_append]
      omega
    rw [hLength, Nat.mul_add_div hn]
  have hState : (feed f n x b).state =
      fold f n ((x.rest ++ b).length / n) x.state (x.rest ++ (b ++ c)) := by
    rw [← List.append_assoc, fold_append hWhole, feed]
  apply Stream.ext
  · change fold f n _ (feed f n x b).state _ = fold f n _ x.state _
    rw [hCount, fold_add, hDrop, hState]
  · change List.drop _ ((feed f n x b).rest ++ c) = List.drop _ (x.rest ++ (b ++ c))
    rw [hCount, Nat.mul_add, ← List.drop_drop, hDrop]

end Blocks
