import Mathlib.Algebra.Ring.Nat
import Mathlib.Data.List.Basic

/-! # Byte strings and byte arenas

A byte string is a list of bytes. An arena is a block of storage, by its offsets.
-/

namespace Microsippy

set_option autoImplicit false

abbrev Bytes := List UInt8

/-- The bytes of a string literal. -/
def bytes (s : String) : Bytes := s.toByteArray.data.toList

/-- What holds of every number below 256 as a byte holds of every byte. -/
theorem forall_byte {P : UInt8 → Prop} (h : ∀ n < 256, P (UInt8.ofNat n)) (b : UInt8) : P b := by
  have hByte := h b.toNat b.toNat_lt
  rwa [UInt8.ofNat_toNat] at hByte

abbrev Arena := Nat → UInt8

namespace Arena

/-- Fresh storage. -/
def zero : Arena := fun _ => 0

/-- A byte string as storage. -/
def ofBytes (b : Bytes) : Arena := fun k => b.getD k 0

/-- `l` bytes from an offset on. -/
def readAt (a : Arena) (off : Nat) : Nat → Bytes
  | 0 => []
  | l + 1 => a off :: readAt a (off + 1) l

def writeAt (a : Arena) (off : Nat) (bs : Bytes) : Arena := fun k =>
  if off ≤ k ∧ k < off + bs.length then bs.getD (k - off) 0 else a k

@[simp] theorem length_readAt (a : Arena) (off l : Nat) : (a.readAt off l).length = l := by
  induction l generalizing off with
  | zero => rfl
  | succ l ih => simp [readAt, ih]

theorem getElem?_readAt (a : Arena) (off l k : Nat) :
    (a.readAt off l)[k]? = if k < l then some (a (off + k)) else none := by
  induction l generalizing off k with
  | zero => simp [readAt]
  | succ l ih =>
    cases k with
    | zero => simp [readAt]
    | succ k =>
      simp only [readAt, List.getElem?_cons_succ, ih, Nat.succ_lt_succ_iff]
      rw [Nat.add_right_comm, Nat.add_assoc]

/-- Two stretches of storage read the same when they agree at every offset. -/
theorem readAt_congr {a b : Arena} {off off' l : Nat}
    (hBytes : ∀ k < l, a (off + k) = b (off' + k)) : a.readAt off l = b.readAt off' l := by
  apply List.ext_getElem?
  intro k
  rw [getElem?_readAt, getElem?_readAt]
  split
  · rw [hBytes k ‹_›]
  · rfl

/-- What a byte string put in storage is read back as. -/
theorem readAt_writeAt_same (a : Arena) (off : Nat) (bs : Bytes) :
    (a.writeAt off bs).readAt off bs.length = bs := by
  apply List.ext_getElem?
  intro k
  rw [getElem?_readAt]
  split
  · rename_i hk
    simp [writeAt, hk]
  · rename_i hk
    rw [List.getElem?_eq_none (Nat.not_lt.mp hk)]

/-- A part of a byte string put in storage. -/
theorem readAt_writeAt_sub (a : Arena) (off : Nat) (bs : Bytes) {k l : Nat}
    (hWithin : k + l ≤ bs.length) :
    (a.writeAt off bs).readAt (off + k) l = (bs.drop k).take l := by
  apply List.ext_getElem?
  intro j
  rw [getElem?_readAt, List.getElem?_take, List.getElem?_drop]
  split
  · have hInside : off ≤ off + k + j ∧ off + k + j < off + bs.length := by omega
    have hAt : off + k + j - off = k + j := by omega
    rw [writeAt, if_pos hInside, hAt, List.getD_eq_getElem?_getD,
      List.getElem?_eq_getElem (by omega), Option.getD_some]
  · rfl

theorem readAt_add (a : Arena) (off l l' : Nat) :
    a.readAt off (l + l') = a.readAt off l ++ a.readAt (off + l) l' := by
  induction l generalizing off with
  | zero => simp [readAt]
  | succ l ih =>
    rw [Nat.succ_add, readAt, readAt, ih, Nat.add_assoc, Nat.add_comm 1 l, List.cons_append]

/-- Two byte strings put in storage one after the other. -/
theorem writeAt_append (a : Arena) (off : Nat) (xs ys : Bytes) :
    (a.writeAt off xs).writeAt (off + xs.length) ys = a.writeAt off (xs ++ ys) := by
  funext k
  simp only [writeAt, List.length_append, List.getD_eq_getElem?_getD, List.getElem?_append]
  by_cases hFirst : off ≤ k ∧ k < off + xs.length
  · have hNot : ¬ (off + xs.length ≤ k ∧ k < off + xs.length + ys.length) := by omega
    have hIn : off ≤ k ∧ k < off + (xs.length + ys.length) := by omega
    have hPlace : k - off < xs.length := by omega
    rw [if_neg hNot, if_pos hFirst, if_pos hIn, if_pos hPlace]
  · by_cases hSecond : off + xs.length ≤ k ∧ k < off + xs.length + ys.length
    · have hIn : off ≤ k ∧ k < off + (xs.length + ys.length) := by omega
      have hPlace : ¬ k - off < xs.length := by omega
      rw [if_pos hSecond, if_pos hIn, if_neg hPlace, Nat.sub_sub]
    · have hOut : ¬ (off ≤ k ∧ k < off + (xs.length + ys.length)) := by omega
      rw [if_neg hSecond, if_neg hFirst, if_neg hOut]

/-- A part of a stretch of storage. -/
theorem readAt_sub (a : Arena) {off k l n : Nat} (hWithin : k + l ≤ n) :
    a.readAt (off + k) l = ((a.readAt off n).drop k).take l := by
  apply List.ext_getElem?
  intro j
  rw [getElem?_readAt, List.getElem?_take, List.getElem?_drop, getElem?_readAt, Nat.add_assoc]
  split
  · rw [if_pos (by omega)]
  · rfl

/-- Bytes put in storage behind a stretch of it. -/
theorem readAt_writeAt_after (a : Arena) (off k : Nat) (bs : Bytes) :
    (a.writeAt (off + k) bs).readAt off (k + bs.length) = a.readAt off k ++ bs := by
  rw [readAt_add, readAt_writeAt_same]
  congr 1
  apply readAt_congr
  intro j hj
  rw [writeAt, if_neg (by omega)]

@[simp] theorem readAt_ofBytes (b : Bytes) : (ofBytes b).readAt 0 b.length = b := by
  apply List.ext_getElem?
  intro k
  rw [getElem?_readAt]
  split
  · rename_i hk
    simp [ofBytes, hk]
  · rename_i hk
    rw [List.getElem?_eq_none (Nat.not_lt.mp hk)]

end Arena

end Microsippy
