import Microsippy.Lib.Bytes

/-! # Strings as views

`struct usipy_str` is a pointer and a length. The bytes it points at lie in immutable storage (a
literal, a received message) or in the scratch arena of a transaction slot, where they may change
under the view. `usipy_str.c` works on such views without copying.
-/

namespace Microsippy

set_option autoImplicit false

/-- The storage a string points into. -/
inductive Src where
  | lit (b : Bytes)
  | scratch (i : Nat)
  deriving DecidableEq, Repr

/-- `struct usipy_str`. -/
structure Str where
  src : Src
  off : Nat
  l : Nat
  deriving DecidableEq, Repr

/-- The scratch arenas, by slot. -/
abbrev Mem := Nat → Arena

def Mem.source (m : Mem) : Src → Arena
  | .lit b => .ofBytes b
  | .scratch i => m i

/-- The bytes a view denotes. -/
def Mem.read (m : Mem) (s : Str) : Bytes := (m.source s.src).readAt s.off s.l

/-- The arenas with the one of a slot replaced. -/
def Mem.put (m : Mem) (i : Nat) (b : Arena) : Mem := fun j => if j = i then b else m j

/-- A character as a byte. -/
def ch (c : Char) : UInt8 := UInt8.ofNat c.toNat

/-- `n` in decimal, as `%u` prints it. -/
def dec (n : Nat) : Bytes := (Nat.toDigits 10 n).map ch

/-- What `%.*s` prints of a string: nothing past its first NUL. -/
def cstr (b : Bytes) : Bytes := b.takeWhile (· ≠ 0)

namespace Str

/-- `USIPY_STR_NULL`. -/
def null : Str := ⟨.lit [], 0, 0⟩

/-- `USIPY_2STR` of a literal. -/
def lit (b : Bytes) : Str := ⟨.lit b, 0, b.length⟩

instance : Inhabited Str := ⟨null⟩

/-- A part of a view, `USIPY_STR_NULL` when it is empty. -/
def sub (s : Str) (k l : Nat) : Str := if l = 0 then null else ⟨s.src, s.off + k, l⟩

/-- `USIPY_ISLWS`. -/
def isLws (b : UInt8) : Bool := b == ch ' ' || b == ch '\t' || b == ch '\r' || b == ch '\n'

/-- `usipy_str_ltrm_e`. -/
def ltrmE (m : Mem) (s : Str) : Str :=
  { s with l := s.l - ((m.read s).reverse.takeWhile isLws).length }

/-- `usipy_str_ltrm_b`. -/
def ltrmB (m : Mem) (s : Str) : Str :=
  let n := ((m.read s).takeWhile isLws).length
  { s with off := s.off + n, l := s.l - n }

/-- `memchr` over a view. -/
def chr (m : Mem) (s : Str) (dlm : UInt8) : Option Nat := (m.read s).findIdx? (· == dlm)

/-- `usipy_str_split`: what is before the first delimiter and what is after it. -/
def split (m : Mem) (x : Str) (dlm : UInt8) : Option (Str × Str) :=
  (x.chr m dlm).map fun r => (x.sub 0 r, x.sub (r + 1) (x.l - r - 1))

/-- `usipy_str_split_elem_nlws`: the element before the delimiter and the iterator after it. -/
def splitElemNlws (m : Mem) (iter : Str) (dlm : UInt8) : Option (Str × Str) := iter.split m dlm

/-- `usipy_str_split_elem`: the same with the white space around the delimiter dropped. -/
def splitElem (m : Mem) (iter : Str) (dlm : UInt8) : Option (Str × Str) :=
  (iter.chr m dlm).map fun r =>
    let left := ltrmE m ⟨iter.src, iter.off, r⟩
    let right := ltrmB m ⟨iter.src, iter.off + r + 1, iter.l - r - 1⟩
    (if left.l = 0 then null else left, if right.l = 0 then null else right)

/-- The loop of `usipy_str_atoui_range` over the digits. -/
def atouiLoop (r : UInt32) : Bytes → Option UInt32
  | [] => some r
  | c :: cs =>
    if c > ch '9' ∨ c < ch '0' then none
    else
      let d := (c - ch '0').toUInt32
      if r > (0xffffffff - d) / 10 then none else atouiLoop (r * 10 + d) cs

/-- `usipy_str_atoui_range`. -/
def atouiRange (m : Mem) (x : Str) (min max : UInt32) : Option UInt32 :=
  (atouiLoop 0 (m.read x)).bind fun r =>
    if r < min ∨ (max ≥ min ∧ r > max) then none else some r

/-- `usipy_str_eq`. -/
def eq (m : Mem) (a b : Str) : Bool := a.l == b.l && m.read a == m.read b

end Str

@[simp] theorem Mem.read_null (m : Mem) : m.read Str.null = [] := rfl

@[simp] theorem Mem.length_read (m : Mem) (s : Str) : (m.read s).length = s.l :=
  Arena.length_readAt _ _ _

theorem Mem.read_of_empty {m : Mem} {s : Str} (h : s.l = 0) : m.read s = [] := by
  rw [← List.length_eq_zero_iff, Mem.read, Arena.length_readAt, h]

@[simp] theorem Mem.put_same (m : Mem) (i : Nat) (b : Arena) : m.put i b i = b := by
  simp [Mem.put]

theorem Mem.put_other (m : Mem) {i j : Nat} (b : Arena) (h : j ≠ i) : m.put i b j = m j := by
  simp [Mem.put, h]

@[simp] theorem Mem.put_self (m : Mem) (i : Nat) : m.put i (m i) = m := by
  funext j
  by_cases h : j = i
  · rw [h, Mem.put_same]
  · rw [Mem.put_other m _ h]

@[simp] theorem Mem.read_lit (m : Mem) (b : Bytes) : m.read (Str.lit b) = b := by
  simp [Mem.read, Mem.source, Str.lit]

/-- What is read of a literal does not depend on the arenas. -/
theorem Mem.read_of_lit {s : Str} {b : Bytes} (h : s.src = .lit b) (m m' : Mem) :
    m.read s = m'.read s := by
  simp [Mem.read, Mem.source, h]

theorem Mem.read_part (m : Mem) (s : Str) {k l : Nat} (h : k + l ≤ s.l) :
    m.read ⟨s.src, s.off + k, l⟩ = ((m.read s).drop k).take l :=
  Arena.readAt_sub _ h

theorem Mem.read_sub (m : Mem) (s : Str) {k l : Nat} (hWithin : k + l ≤ s.l) :
    m.read (s.sub k l) = ((m.read s).drop k).take l := by
  simp only [Str.sub]
  split
  · rename_i hEmpty
    rw [hEmpty, Mem.read_null, List.take_zero]
  · exact Arena.readAt_sub _ hWithin

namespace Str

/-- A view without the delimiter is not split. -/
theorem split_eq_none_iff {m : Mem} {x : Str} {dlm : UInt8} :
    x.split m dlm = none ↔ dlm ∉ m.read x := by
  rw [split, Option.map_eq_none_iff, chr, List.findIdx?_eq_none_iff]
  constructor
  · intro hAll hIn
    simpa using hAll dlm hIn
  · intro hNot b hb
    have hNe : b ≠ dlm := fun hIs => hNot (hIs ▸ hb)
    simpa using hNe

theorem split_eq_none {m : Mem} {x : Str} {dlm : UInt8} (h : dlm ∉ m.read x) :
    x.split m dlm = none := split_eq_none_iff.mpr h

/-- A view split at its first delimiter. -/
theorem split_of_append {m : Mem} {x : Str} {dlm : UInt8} {a b : Bytes}
    (hRead : m.read x = a ++ dlm :: b) (hFirst : dlm ∉ a) :
    ∃ y z, x.split m dlm = some (y, z) ∧ m.read y = a ∧ m.read z = b := by
  have hAt : x.chr m dlm = some a.length := by
    rw [chr, hRead, List.findIdx?_append, List.findIdx?_eq_none_iff.mpr]
    · simp [List.findIdx?_cons]
    · intro c hc
      have hNe : c ≠ dlm := fun hIs => hFirst (hIs ▸ hc)
      simpa using hNe
  have hLength : x.l = a.length + (b.length + 1) := by
    rw [← Mem.length_read m x, hRead, List.length_append, List.length_cons]
  refine ⟨x.sub 0 a.length, x.sub (a.length + 1) (x.l - a.length - 1), ?_, ?_, ?_⟩
  · rw [split, hAt]
    rfl
  · rw [Mem.read_sub m x (by omega), hRead]
    simp
  · have hRest : x.l - a.length - 1 = b.length := by omega
    have hDrop : (a ++ dlm :: b).drop (a.length + 1) = b := by
      rw [Nat.add_comm, ← List.drop_drop]
      simp
    rw [hRest, Mem.read_sub m x (by omega), hRead, hDrop, List.take_length]

/-- What is before the delimiter a view is split at does not have it. -/
theorem not_mem_of_split {m : Mem} {x y z : Str} {dlm : UInt8} (h : x.split m dlm = some (y, z)) :
    dlm ∉ m.read y := by
  simp only [split, Option.map_eq_some_iff, Prod.mk.injEq] at h
  obtain ⟨r, hAt, rfl, -⟩ := h
  obtain ⟨hLt, -, hBefore⟩ := List.findIdx?_eq_some_iff_getElem.mp hAt
  rw [Mem.length_read] at hLt
  rw [Mem.read_sub m x (by omega), List.drop_zero]
  intro hMem
  obtain ⟨j, hj, hIs⟩ := List.mem_iff_getElem.mp hMem
  rw [List.length_take] at hj
  rw [List.getElem_take] at hIs
  have hNot := hBefore j (by omega)
  simp [hIs] at hNot

/-- What a view is split into. -/
theorem read_split {m : Mem} {x y z : Str} {dlm : UInt8} (h : x.split m dlm = some (y, z)) :
    m.read x = m.read y ++ dlm :: m.read z ∧ dlm ∉ m.read y ∧ z.l < x.l := by
  have hNot := not_mem_of_split h
  simp only [split, Option.map_eq_some_iff, Prod.mk.injEq] at h
  obtain ⟨r, hAt, rfl, rfl⟩ := h
  obtain ⟨hLt, hIs, -⟩ := List.findIdx?_eq_some_iff_getElem.mp hAt
  have hLength : (m.read x).length = x.l := Mem.length_read m x
  refine ⟨?_, hNot, ?_⟩
  · rw [Mem.read_sub m x (by omega), Mem.read_sub m x (by omega), List.drop_zero, ← hLength]
    have hRest : (m.read x).length - r - 1 = ((m.read x).drop (r + 1)).length := by
      rw [List.length_drop]
      omega
    rw [hRest, List.take_length]
    have hHead : dlm :: (m.read x).drop (r + 1) = (m.read x).drop r := by
      rw [List.drop_eq_getElem_cons hLt]
      rw [beq_iff_eq.mp hIs]
    rw [hHead, List.take_append_drop]
  · rw [sub]
    split
    · exact Nat.lt_of_le_of_lt (Nat.zero_le _) (hLength ▸ hLt)
    · simp only
      omega

end Str

end Microsippy
