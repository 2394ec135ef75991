import Microsippy.Str
import Microsippy.Lib.Op

/-! # The message heap

`usipy_msg_heap.c`: a bump allocator over one block of storage with checkpoints to roll back to. The
scratch heap of a transaction slot hands out views into the slot's arena, which later rollbacks and
writes may change; what the other heaps (a dialog's, a local one) hold is never rewritten, so their
strings are literals. Structures placed on a heap take up its space, while their fields are kept in
the model's own records.
-/

namespace Microsippy

set_option autoImplicit false

/-- `struct usipy_msg_heap` with its storage. -/
structure Heap where
  /-- The slot whose scratch heap this is. -/
  slot : Option Nat := none
  tsize : Nat := 0
  alen : Nat := 0
  ncheckpoints : Nat := 0
  /-- `checkpoints[0 .. checkpoint_top)`. -/
  checkpoints : List Nat := []
  /-- The storage from `first` on. -/
  first : Arena := .zero

/-- A heap operation; failure is the `NULL` or `-1` of the source. -/
abbrev HeapM := Op Unit Heap

/-- What a builder writes, piece by piece. -/
inductive Chunk where
  /-- The check that `n` bytes are left. -/
  | need (n : Nat)
  /-- A string copied, if it fits with `keep` bytes to spare. -/
  | put (keep : Nat) (s : Str)
  /-- `snprintf` of the strings into all but `keep` bytes. -/
  | print (keep : Nat) (parts : List Str)
  /-- An early `return (-1)`. -/
  | fail
  deriving DecidableEq, Repr

namespace Chunk

/-- A literal copied. -/
def text (s : String) : Chunk := put 0 (Str.lit (bytes s))

/-- The builder's run over `cap` bytes of storage at `base`: what is written, and how much unless it
returned -1. The strings are read as the storage is at that point. -/
def run (rd : Arena → Str → Bytes) (base cap : Nat) : List Chunk → Arena → Nat → Option Nat × Arena
  | [], b, off => (some off, b)
  | need n :: cs, b, off => if off + n ≤ cap then run rd base cap cs b off else (none, b)
  | put keep s :: cs, b, off =>
    if off + s.l + keep ≤ cap then
      run rd base cap cs (b.writeAt (base + off) (rd b s)) (off + s.l)
    else (none, b)
  | print keep parts :: cs, b, off =>
    let text := (parts.map fun s => cstr (rd b s)).flatten
    let room := cap - off - keep
    if text.length < room then
      run rd base cap cs (b.writeAt (base + off) (text ++ [0])) (off + text.length)
    else (none, if room = 0 then b else b.writeAt (base + off) (text.take (room - 1) ++ [0]))
  | fail :: _, b, _ => (none, b)

end Chunk

namespace Heap

/-- `USIPY_ALIGNED_SIZE`. -/
def alignedSize (v : Nat) : Nat := v / 8 * 8 + if v % 8 ≠ 0 then 8 else 0

/-- `usipy_msg_heap_init` over fresh or reused storage. -/
def init (slot : Option Nat) (first : Arena) (len ncheckpoints : Nat) : Heap :=
  { slot, tsize := len / 8 * 8, ncheckpoints, first }

def remaining (hp : Heap) : Nat := hp.tsize - hp.alen

/-- The storage as the heap has it now, among the other arenas. -/
def mem (hp : Heap) (m : Mem) : Mem :=
  match hp.slot with
  | some i => m.put i hp.first
  | none => m

/-- The view of `l` bytes of storage at `off`. -/
def view (hp : Heap) (off l : Nat) : Str :=
  match hp.slot with
  | some i => ⟨.scratch i, off, l⟩
  | none => Str.lit (hp.first.readAt off l)

/-- `usipy_msg_heap_reserve`, by the offset of what it returns. -/
def reserve (len : Nat) (align_start : Bool) : HeapM Nat := fun hp =>
  let off := if align_start then alignedSize hp.alen else hp.alen
  let total := off - hp.alen + len
  if hp.remaining < total then some (.error (), hp)
  else some (.ok off, { hp with alen := off + len })

/-- `usipy_msg_heap_alloc`. -/
def alloc (len : Nat) : HeapM Nat := reserve (alignedSize len) true

/-- `usipy_msg_heap_checkpoint`. -/
def checkpoint : HeapM Nat := do
  let hp ← Op.get
  Op.assert (hp.checkpoints.length < hp.ncheckpoints)
  Op.modify fun hp => { hp with checkpoints := hp.checkpoints ++ [hp.alen] }
  return hp.checkpoints.length

/-- `usipy_msg_heap_rollback`. The checkpoint stays. -/
def rollback (checkpoint_index : Nat) : HeapM Unit := do
  let hp ← Op.get
  Op.assert (0 < hp.checkpoints.length)
  Op.assert (checkpoint_index = hp.checkpoints.length - 1)
  let alen := hp.checkpoints.getD checkpoint_index 0
  Op.assert (alen ≤ hp.alen)
  Op.modify fun hp =>
    { hp with first := hp.first.writeAt alen (List.replicate (hp.alen - alen) 0), alen }

/-- `usipy_msg_heap_append`. -/
def append (m : Mem) (src : Str) : HeapM Str := do
  if src.l = 0 then return Str.null
  else
    let off ← reserve src.l false
    Op.modify fun hp => { hp with first := hp.first.writeAt off ((hp.mem m).read src) }
    let hp ← Op.get
    return hp.view off src.l

/-- `usipy_msg_heap_build`. -/
def build (m : Mem) (cb : List Chunk) : HeapM Str := do
  let hp ← Op.get
  let off := alignedSize hp.alen
  let currfree := hp.tsize - off
  Op.require (currfree ≠ 0) ()
  let (blen, first) := Chunk.run (fun b s => ({ hp with first := b }.mem m).read s) off currfree cb
    hp.first 0
  Op.modify fun hp => { hp with first }
  let blen ← Op.orElse blen ()
  let bp ← reserve (alignedSize blen) true
  let hp ← Op.get
  return hp.view bp blen

/-- `usipy_msg_heap_sprintf` of an already formatted text. -/
def sprintf (text : Bytes) : HeapM Str := do
  let hp ← Op.get
  let currfree := hp.remaining
  Op.require (currfree ≠ 0) ()
  Op.modify fun hp =>
    { hp with first := hp.first.writeAt hp.alen (text.take (currfree - 1) ++ [0]) }
  Op.require (text.length < currfree) ()
  let bp ← reserve (text.length + 1) false
  let hp ← Op.get
  return hp.view bp text.length

/-! ## What the operations leave -/

/-- A heap with room for `n` more bytes from its next aligned offset on. -/
def Room (hp : Heap) (n : Nat) : Prop :=
  hp.alen ≤ hp.tsize ∧ alignedSize hp.alen + alignedSize n ≤ hp.tsize

theorem le_alignedSize (v : Nat) : v ≤ alignedSize v := by
  simp only [alignedSize]
  split <;> omega

theorem run_reserve (len : Nat) (align_start : Bool) (hp : Heap) :
    (reserve len align_start).run hp =
      let off := if align_start then alignedSize hp.alen else hp.alen
      if hp.remaining < off - hp.alen + len then some (.error (), hp)
      else some (.ok off, { hp with alen := off + len }) := rfl

theorem reserve_ok {len : Nat} {align_start : Bool} {hp hp' : Heap} {off : Nat} :
    (reserve len align_start).run hp = some (.ok off, hp') ↔
      off = (if align_start then alignedSize hp.alen else hp.alen) ∧
        off - hp.alen + len ≤ hp.remaining ∧ { hp with alen := off + len } = hp' := by
  rw [run_reserve]
  generalize (if align_start then alignedSize hp.alen else hp.alen) = start
  by_cases hFull : hp.remaining < start - hp.alen + len
  · simp only [if_pos hFull]
    constructor
    · intro h
      simp at h
    · rintro ⟨rfl, hFits, -⟩
      omega
  · simp only [if_neg hFull, Option.some.injEq, Prod.mk.injEq, Except.ok.injEq]
    constructor
    · rintro ⟨rfl, rfl⟩
      exact ⟨rfl, by omega, rfl⟩
    · rintro ⟨rfl, -, rfl⟩
      exact ⟨rfl, rfl⟩

theorem alloc_run {hp : Heap} {len : Nat} (hRoom : hp.Room len) :
    (alloc len).run hp =
      some (.ok (alignedSize hp.alen), { hp with alen := alignedSize hp.alen + alignedSize len }) := by
  have hLe := le_alignedSize hp.alen
  have hFits : ¬ hp.remaining < alignedSize hp.alen - hp.alen + alignedSize len := by
    obtain ⟨-, hFits⟩ := hRoom
    simp only [remaining]
    omega
  simp [alloc, run_reserve, hFits]

/-- A printed text: what is left of it is where it starts and how far it goes. -/
theorem sprintf_ok {t : Bytes} {hp hp' : Heap} {s : Str}
    (hRun : (sprintf t).run hp = some (.ok s, hp')) :
    hp' = { hp with
      alen := hp.alen + (t.length + 1), first := hp.first.writeAt hp.alen (t ++ [0]) } ∧
    s = hp'.view hp.alen t.length := by
  by_cases hSome : hp.remaining ≠ 0
  · by_cases hFits : t.length < hp.remaining
    · have hTake : t.take (hp.remaining - 1) = t := List.take_of_length_le (by omega)
      have hRoom : ¬ hp.tsize - hp.alen < t.length + 1 := by
        simp only [remaining] at hFits
        omega
      simp only [sprintf, Op.run_bind, Op.run_get, Op.andThen_ok, Op.run_require, if_pos hSome,
        Op.run_modify, if_pos hFits, run_reserve, Bool.false_eq_true, if_false, hTake] at hRun
      simp only [remaining, Nat.sub_self, Nat.zero_add, if_neg hRoom, Op.andThen_ok,
        Op.run_pure, Option.some.injEq, Prod.mk.injEq, Except.ok.injEq] at hRun
      obtain ⟨rfl, rfl⟩ := hRun
      exact ⟨rfl, rfl⟩
    · simp only [sprintf, Op.run_bind, Op.run_get, Op.andThen_ok, Op.run_require, if_pos hSome,
        Op.run_modify, if_neg hFits, Op.andThen_error] at hRun
      simp at hRun
  · simp only [sprintf, Op.run_bind, Op.run_get, Op.andThen_ok, Op.run_require, if_neg hSome,
      Op.andThen_error] at hRun
    simp at hRun

/-- What is printed on a heap is read back from it. -/
theorem sprintf_read {t : Bytes} {hp hp' : Heap} {s : Str} (m : Mem)
    (hRun : (sprintf t).run hp = some (.ok s, hp')) : (hp'.mem m).read s = t ∧ s.l = t.length := by
  have hText : (hp.first.writeAt hp.alen (t ++ [0])).readAt hp.alen t.length = t := by
    have hSub := Arena.readAt_writeAt_sub hp.first hp.alen (t ++ [0])
      (show 0 + t.length ≤ (t ++ [0]).length by simp)
    simpa using hSub
  obtain ⟨rfl, rfl⟩ := sprintf_ok hRun
  cases hp.slot with
  | none => exact ⟨by simp [view, mem, hText], by simp [view, hText, Str.lit]⟩
  | some i => simp [view, mem, Mem.read, Mem.source, hText]

end Heap

end Microsippy
