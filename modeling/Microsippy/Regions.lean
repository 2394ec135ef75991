import Microsippy.Uri
import Microsippy.Lib.Run
import Mathlib.Logic.Function.Basic

/-! # The regions of a message heap

`usipy_msg_heap.c` and `usipy_msg_heap_inl.h` in `size_t` arithmetic, over every sequence of their
calls: what is handed out is kept apart and is not written to.
-/

namespace Microsippy

set_option autoImplicit false

/-! ## `size_t` arithmetic -/

namespace SizeT

def add (a b : Nat) : Nat := (a + b) % 2 ^ 64

def sub (a b : Nat) : Nat := (a + (2 ^ 64 - b)) % 2 ^ 64

/-- `USIPY_ALIGNED_SIZE` of a `size_t`. -/
def alignedSize (v : Nat) : Nat := add (v / 8 * 8) (if v % 8 ≠ 0 then 8 else 0)

theorem add_eq {a b : Nat} (h : a + b < 2 ^ 64) : add a b = a + b := Nat.mod_eq_of_lt h

theorem sub_eq {a b : Nat} (hLe : b ≤ a) (hWord : a < 2 ^ 64) : sub a b = a - b := by
  rw [sub]
  omega

theorem alignedSize_eq {v : Nat} (h : Heap.alignedSize v < 2 ^ 64) :
    alignedSize v = Heap.alignedSize v := add_eq h

end SizeT

theorem Heap.alignedSize_mod (v : Nat) : Heap.alignedSize v % 8 = 0 := by
  rw [Heap.alignedSize]
  split <;> omega

theorem Heap.alignedSize_lt (v : Nat) : Heap.alignedSize v < v + 8 := by
  rw [Heap.alignedSize]
  split <;> omega

/-- A multiple of the alignment that is no less is no less than the aligned size. -/
theorem Heap.alignedSize_le {v n : Nat} (hAligned : n % 8 = 0) (hLe : v ≤ n) :
    Heap.alignedSize v ≤ n := by
  rw [Heap.alignedSize]
  split <;> omega

theorem Heap.alignedSize_of_mod {v : Nat} (h : v % 8 = 0) : Heap.alignedSize v = v := by
  rw [Heap.alignedSize, if_neg (by omega)]
  omega

/-! ## The operations -/

/-- `struct usipy_msg_heap_cnt`. -/
structure HeapCnt where
  alen : Nat
  lastalen : Nat
  deriving DecidableEq, Repr

/-- A builder: the storage it reads, where its buffer starts and how long it is, to the length it
returns, `none` where that is negative, and the bytes it puts at the start of the buffer. -/
structure BuildCb where
  run : Arena → Nat → Nat → Option Nat × Bytes
  inside : ∀ first bp len, (run first bp len).2.length ≤ len
  int : ∀ first bp len, ∀ n ∈ (run first bp len).1, n < 2 ^ 31

/-- `vsnprintf` into `size` bytes, of a text or of what is left of one that fails to print. -/
def vsnprintf (size : Nat) : Except Bytes Bytes → Option Nat × Bytes
  | .ok text => (some text.length, text.take (size - 1) ++ [0])
  | .error junk => (none, junk.take size)

namespace MsgHeap

/-- `usipy_msg_heap_remaining`. -/
def remaining (hp : Heap) : Nat := SizeT.sub hp.tsize hp.alen

/-- `usipy_msg_heap_reserve`, by the offset of what it returns. -/
def reserve (len : Nat) (align_start : Bool) : HeapM Nat := do
  let hp ← Op.get
  let off := if align_start then SizeT.alignedSize hp.alen else hp.alen
  let total := SizeT.add (SizeT.sub off hp.alen) len
  Op.require (total ≤ remaining hp) ()
  Op.modify fun hp => { hp with alen := SizeT.add off len }
  return off

/-- `usipy_msg_heap_alloc`. -/
def alloc (len : Nat) : HeapM Nat := reserve (SizeT.alignedSize len) true

/-- `usipy_msg_heap_append`, `none` for the `USIPY_STR_NULL` of an empty string. -/
def append (src : Bytes) : HeapM (Option Nat) := do
  if src.length = 0 then return none
  else
    let bp ← reserve src.length false
    Op.modify fun hp => { hp with first := hp.first.writeAt bp src }
    return some bp

/-- `usipy_msg_heap_build`: the start of what is built and its length. -/
def build (cb : BuildCb) : HeapM (Nat × Nat) := do
  let hp ← Op.get
  let off := SizeT.alignedSize hp.alen
  let currfree := SizeT.sub hp.tsize off
  Op.require (currfree ≠ 0) ()
  let out := cb.run hp.first off currfree
  Op.modify fun hp => { hp with first := hp.first.writeAt off out.2 }
  let blen ← Op.orElse out.1 ()
  let bp ← reserve (SizeT.alignedSize blen) true
  return (bp, blen)

/-- `usipy_msg_heap_sprintf`: the start of the text and its length. -/
def sprintf (text : Except Bytes Bytes) : HeapM (Nat × Nat) := do
  let hp ← Op.get
  let currfree := remaining hp
  Op.require (currfree ≠ 0) ()
  let out := vsnprintf currfree text
  Op.modify fun hp => { hp with first := hp.first.writeAt hp.alen out.2 }
  let plen ← Op.orElse out.1 ()
  Op.require (plen < currfree) ()
  let bp ← reserve (SizeT.add plen 1) false
  return (bp, plen)

/-- `usipy_msg_heap_alloc_cnt`. -/
def allocCnt (len : Nat) : HeapM (Nat × HeapCnt) := do
  let rp ← alloc len
  let hp ← Op.get
  return (rp, ⟨SizeT.alignedSize len, hp.alen⟩)

/-- `usipy_msg_heap_aextend`. -/
def aextend (nlen : Nat) (cnt : HeapCnt) : HeapM HeapCnt := do
  let hp ← Op.get
  Op.assert (cnt.lastalen = hp.alen)
  let alen := SizeT.alignedSize nlen
  Op.assert (cnt.alen ≤ alen)
  let elen := SizeT.sub alen cnt.alen
  if elen = 0 then return cnt
  else
    Op.require (elen ≤ remaining hp) ()
    Op.modify fun hp => { hp with alen := SizeT.add hp.alen elen }
    let hp ← Op.get
    return ⟨alen, hp.alen⟩

/-- `usipy_msg_heap_cnt_reclaim`. -/
def cntReclaim (cnt : HeapCnt) (nlen : Nat) : HeapM HeapCnt := do
  let hp ← Op.get
  Op.assert (cnt.lastalen = hp.alen)
  let alen := SizeT.alignedSize nlen
  Op.assert (alen ≤ cnt.alen)
  if alen = cnt.alen then return cnt
  else
    let rlen := SizeT.sub cnt.alen alen
    let top := SizeT.sub hp.alen rlen
    Op.modify fun hp =>
      { hp with alen := top, first := hp.first.writeAt top (List.replicate rlen 0) }
    return ⟨alen, top⟩

/-- `usipy_msg_heap_cnt_rollback`. -/
def cntRollback (cnt : HeapCnt) : HeapM Unit := do
  let hp ← Op.get
  Op.assert (cnt.lastalen = hp.alen)
  Op.assert (cnt.alen ≤ hp.alen)
  let top := SizeT.sub hp.alen cnt.alen
  Op.modify fun hp =>
    { hp with alen := top, first := hp.first.writeAt top (List.replicate cnt.alen 0) }

end MsgHeap

/-! ## What one operation does -/

/-- A heap between two calls. -/
structure Heap.Fits (hp : Heap) : Prop where
  aligned : hp.tsize % 8 = 0
  word : hp.tsize < 2 ^ 64
  within : hp.alen ≤ hp.tsize

/-- A heap with the same storage up to `n`. -/
structure Heap.Same (n : Nat) (hp hp' : Heap) : Prop where
  tsize : hp'.tsize = hp.tsize
  below : ∀ k < n, hp'.first k = hp.first k

/-- `len` bytes at `off` handed out. -/
structure Heap.Reserved (off len : Nat) (hp hp' : Heap) : Prop extends hp.Same hp.alen hp' where
  start : hp.alen ≤ off
  top : hp'.alen = off + len
  fits : hp'.alen ≤ hp.tsize

/-- A call that hands out a region, or fails. -/
def Heap.Hands (hp : Heap) : Except Unit (Nat × Nat) → Heap → Prop
  | .ok (off, len), hp' => hp.Reserved off len hp'
  | .error _, hp' => hp'.alen = hp.alen ∧ hp.Same hp.alen hp'

namespace Heap

theorem Same.refl (n : Nat) (hp : Heap) : hp.Same n hp := ⟨rfl, fun _ _ => rfl⟩

theorem Same.write {n at_ : Nat} (hp : Heap) (bs : Bytes) (hPast : n ≤ at_) :
    hp.Same n { hp with first := hp.first.writeAt at_ bs } := by
  constructor
  · rfl
  · intro k hk
    simp only [Arena.writeAt]
    rw [if_neg (by omega)]

theorem Same.trans {n : Nat} {hp hp₁ hp₂ : Heap} (h : hp.Same n hp₁) (h' : hp₁.Same n hp₂) :
    hp.Same n hp₂ :=
  ⟨h'.tsize.trans h.tsize, fun k hk => (h'.below k hk).trans (h.below k hk)⟩

theorem Same.mono {n n' : Nat} {hp hp' : Heap} (h : hp.Same n hp') (hLe : n' ≤ n) :
    hp.Same n' hp' := ⟨h.tsize, fun k hk => h.below k (by omega)⟩

theorem Fits.aligned_le {hp : Heap} (h : hp.Fits) : alignedSize hp.alen ≤ hp.tsize :=
  alignedSize_le h.aligned h.within

theorem Fits.aligned_eq {hp : Heap} (h : hp.Fits) :
    SizeT.alignedSize hp.alen = alignedSize hp.alen :=
  SizeT.alignedSize_eq (Nat.lt_of_le_of_lt h.aligned_le h.word)

theorem Fits.remaining_eq {hp : Heap} (h : hp.Fits) : MsgHeap.remaining hp = hp.remaining :=
  SizeT.sub_eq h.within h.word

theorem Fits.of_same {hp hp' : Heap} {n : Nat} (h : hp.Fits) (hSame : hp.Same n hp')
    (hWithin : hp'.alen ≤ hp.tsize) : hp'.Fits := by
  obtain ⟨hSize, -⟩ := hSame
  constructor
  · rw [hSize]
    exact h.aligned
  · rw [hSize]
    exact h.word
  · rw [hSize]
    exact hWithin

end Heap

namespace MsgHeap

open Heap (Fits Reserved Same Hands)

/-- No length of an existing object makes a reservation wrap. -/
theorem reserve_eq {hp : Heap} (h : hp.Fits) {len : Nat} (align_start : Bool)
    (hLen : len + 7 < 2 ^ 64) : (reserve len align_start).run hp = (Heap.reserve len align_start).run hp := by
  have hAligned := h.aligned_le
  have hWord := h.word
  have hWithin := h.within
  have hLt := Heap.alignedSize_lt hp.alen
  have hLe := Heap.le_alignedSize hp.alen
  rw [Heap.run_reserve]
  simp only [reserve, Op.run_bind, Op.run_get, Op.andThen_ok, Op.run_require, h.aligned_eq,
    h.remaining_eq]
  generalize hStart : (if align_start then Heap.alignedSize hp.alen else hp.alen) = off
  have hBounds : hp.alen ≤ off ∧ off ≤ hp.tsize ∧ off < hp.alen + 8 := by
    cases align_start <;> simp only [Bool.false_eq_true, if_false, if_true] at hStart <;> omega
  have hTotal : SizeT.add (SizeT.sub off hp.alen) len = off - hp.alen + len := by
    rw [SizeT.sub_eq hBounds.1 (by omega), SizeT.add_eq (by omega)]
  rw [hTotal]
  by_cases hFull : hp.remaining < off - hp.alen + len
  · rw [if_neg (by omega), if_pos hFull]
    rfl
  · have hTop : SizeT.add off len = off + len := by
      simp only [Heap.remaining] at hFull
      exact SizeT.add_eq (by omega)
    rw [if_pos (by omega), if_neg hFull, hTop]
    rfl

theorem reserve_hands {hp hp' : Heap} (h : hp.Fits) {len : Nat} {align_start : Bool}
    {r : Except Unit Nat} (hLen : len + 7 < 2 ^ 64)
    (hRun : (reserve len align_start).run hp = some (r, hp')) :
    hp.Hands (r.map fun off => (off, len)) hp' ∧ hp'.first = hp.first := by
  rw [reserve_eq h align_start hLen] at hRun
  cases r with
  | ok off =>
    obtain ⟨hOff, hRoom, rfl⟩ := Heap.reserve_ok.mp hRun
    have hLe := Heap.le_alignedSize hp.alen
    have hStart : hp.alen ≤ off := by
      cases align_start <;> simp only [Bool.false_eq_true, if_false, if_true] at hOff <;> omega
    simp only [Heap.remaining] at hRoom
    have hWithin := h.within
    have hFits : off + len ≤ hp.tsize := by omega
    exact ⟨{ Same.refl _ _ with start := hStart, top := rfl, fits := hFits }, rfl⟩
  | error e =>
    simp only [Heap.run_reserve] at hRun
    generalize (if align_start then Heap.alignedSize hp.alen else hp.alen) = off at hRun
    split at hRun
    · obtain ⟨-, rfl⟩ := Prod.mk.inj (Option.some.inj hRun)
      exact ⟨⟨rfl, Same.refl _ _⟩, rfl⟩
    · cases (Prod.mk.inj (Option.some.inj hRun)).1

theorem alloc_hands {hp hp' : Heap} (h : hp.Fits) {len : Nat} {r : Except Unit Nat}
    (hLen : Heap.alignedSize len < 2 ^ 64) (hRun : (alloc len).run hp = some (r, hp')) :
    hp.Hands (r.map fun off => (off, Heap.alignedSize len)) hp' := by
  have hMod := Heap.alignedSize_mod len
  rw [alloc, SizeT.alignedSize_eq hLen] at hRun
  exact (reserve_hands h (by omega) hRun).1

/-- A call after storage past the top was written to. -/
theorem Hands.after {hp hp₁ hp' : Heap} {r : Except Unit (Nat × Nat)} (hSame : hp.Same hp.alen hp₁)
    (hTop : hp₁.alen = hp.alen) (hHands : hp₁.Hands r hp') : hp.Hands r hp' := by
  cases r with
  | ok x =>
    obtain ⟨off, len⟩ := x
    have hFits := hHands.fits
    rw [hSame.tsize] at hFits
    exact { hSame.trans (hTop ▸ hHands.toSame) with
      start := hTop ▸ hHands.start, top := hHands.top, fits := hFits }
  | error e =>
    obtain ⟨hAlen, hBelow⟩ := hHands
    exact ⟨hAlen.trans hTop, hSame.trans (hTop ▸ hBelow)⟩

theorem append_hands {hp hp' : Heap} (h : hp.Fits) {src : Bytes} {r : Except Unit (Option Nat)}
    (hLen : src.length + 7 < 2 ^ 64) (hRun : (append src).run hp = some (r, hp')) :
    (src = [] ∧ r = .ok none ∧ hp' = hp) ∨
      ∃ r' : Except Unit Nat, r = r'.map some ∧ hp.Hands (r'.map fun off => (off, src.length)) hp' := by
  rw [append] at hRun
  split at hRun
  · rename_i hEmpty
    obtain ⟨rfl, rfl⟩ := Prod.mk.inj (Option.some.inj hRun)
    exact .inl ⟨List.length_eq_zero_iff.mp hEmpty, rfl, rfl⟩
  · right
    rw [Op.run_bind] at hRun
    cases hReserve : (reserve src.length false).run hp with
    | none =>
      rw [hReserve] at hRun
      cases hRun
    | some out =>
      obtain ⟨r', hp₁⟩ := out
      obtain ⟨hHands, -⟩ := reserve_hands h hLen hReserve
      rw [hReserve] at hRun
      cases r' with
      | error e =>
        obtain ⟨rfl, rfl⟩ := Prod.mk.inj (Option.some.inj hRun)
        exact ⟨.error e, rfl, hHands⟩
      | ok off =>
        obtain ⟨rfl, rfl⟩ := Prod.mk.inj (Option.some.inj hRun)
        have hReserved : hp.Reserved off src.length hp₁ := hHands
        have hWrite := Same.write hp₁ src hReserved.start
        exact ⟨.ok off, rfl, { hReserved.toSame.trans hWrite with
          start := hReserved.start, top := hReserved.top, fits := hReserved.fits }⟩

theorem sprintf_hands {hp hp' : Heap} (h : hp.Fits) {text : Except Bytes Bytes}
    {r : Except Unit (Nat × Nat)} (hRun : (sprintf text).run hp = some (r, hp')) :
    hp.Hands (r.map fun x => (x.1, x.2 + 1)) hp' := by
  have hWord := h.word
  have hRemaining := h.remaining_eq
  have hLe : hp.remaining ≤ hp.tsize := Nat.sub_le _ _
  simp only [sprintf, Op.run_bind, Op.run_get, Op.andThen_ok, Op.run_require] at hRun
  split at hRun
  · rename_i hSome
    simp only [Op.andThen_ok, Op.run_modify] at hRun
    generalize hOut : vsnprintf (remaining hp) text = out at hRun
    obtain ⟨plen, bs⟩ := out
    have hSame := Same.write hp bs (Nat.le_refl hp.alen)
    cases plen with
    | none =>
      obtain ⟨rfl, rfl⟩ := Prod.mk.inj (Option.some.inj hRun)
      exact ⟨rfl, hSame⟩
    | some n =>
      rw [Op.run_orElse_some, Op.andThen_ok] at hRun
      split at hRun
      · rename_i hShort
        rw [hRemaining] at hShort
        have hNext : SizeT.add n 1 = n + 1 := SizeT.add_eq (by omega)
        rw [hNext, Op.andThen_ok, ← Op.run_bind, Op.bind_pure_some] at hRun
        obtain ⟨r', hReserve, rfl⟩ := hRun
        have hAligned := h.aligned
        have hHands := (reserve_hands (h.of_same hSame h.within) (by omega) hReserve).1
        cases r' <;> exact Hands.after hSame rfl hHands
      · obtain ⟨rfl, rfl⟩ := Prod.mk.inj (Option.some.inj hRun)
        exact ⟨rfl, hSame⟩
  · obtain ⟨rfl, rfl⟩ := Prod.mk.inj (Option.some.inj hRun)
    exact ⟨rfl, Same.refl _ _⟩

theorem build_hands {hp hp' : Heap} (h : hp.Fits) {cb : BuildCb} {r : Except Unit (Nat × Nat)}
    (hRun : (build cb).run hp = some (r, hp')) :
    hp.Hands (r.map fun x => (x.1, Heap.alignedSize x.2)) hp' := by
  have hLe := Heap.le_alignedSize hp.alen
  rw [build, Op.run_bind, Op.run_get, Op.andThen_ok, h.aligned_eq] at hRun
  simp only [Op.run_bind, Op.run_require] at hRun
  split at hRun
  · generalize hOut : cb.run hp.first (Heap.alignedSize hp.alen)
      (SizeT.sub hp.tsize (Heap.alignedSize hp.alen)) = out at hRun
    have hInt := cb.int hp.first (Heap.alignedSize hp.alen)
      (SizeT.sub hp.tsize (Heap.alignedSize hp.alen))
    rw [hOut] at hInt
    obtain ⟨blen, bs⟩ := out
    have hSame := Same.write hp bs hLe
    simp only [Op.andThen_ok, Op.run_modify] at hRun
    cases blen with
    | none =>
      obtain ⟨rfl, rfl⟩ := Prod.mk.inj (Option.some.inj hRun)
      exact ⟨rfl, hSame⟩
    | some n =>
      have hSmall : n < 2 ^ 31 := hInt n rfl
      have hLt := Heap.alignedSize_lt n
      have hWord : SizeT.alignedSize n = Heap.alignedSize n := SizeT.alignedSize_eq (by omega)
      rw [Op.run_orElse_some, Op.andThen_ok, hWord, ← Op.run_bind, Op.bind_pure_some] at hRun
      obtain ⟨r', hReserve, rfl⟩ := hRun
      have hHands := (reserve_hands (h.of_same hSame h.within) (by omega) hReserve).1
      cases r' <;> exact Hands.after hSame rfl hHands
  · obtain ⟨rfl, rfl⟩ := Prod.mk.inj (Option.some.inj hRun)
    exact ⟨rfl, Same.refl _ _⟩

theorem allocCnt_hands {hp hp' : Heap} (h : hp.Fits) {len : Nat}
    {r : Except Unit (Nat × HeapCnt)} (hLen : Heap.alignedSize len < 2 ^ 64)
    (hRun : (allocCnt len).run hp = some (r, hp')) :
    hp.Hands (r.map fun x => (x.1, x.2.alen)) hp' ∧ ∀ x ∈ r.toOption, x.2.lastalen = hp'.alen := by
  rw [allocCnt, Op.run_bind] at hRun
  cases hAlloc : (alloc len).run hp with
  | none =>
    rw [hAlloc] at hRun
    cases hRun
  | some out =>
    obtain ⟨r', hp₁⟩ := out
    have hHands := alloc_hands h hLen hAlloc
    rw [hAlloc] at hRun
    cases r' with
    | error e =>
      obtain ⟨rfl, rfl⟩ := Prod.mk.inj (Option.some.inj hRun)
      exact ⟨hHands, fun x hx => by cases hx⟩
    | ok off =>
      obtain ⟨rfl, rfl⟩ := Prod.mk.inj (Option.some.inj hRun)
      rw [SizeT.alignedSize_eq hLen]
      refine ⟨hHands, fun x hx => ?_⟩
      obtain rfl := Option.some.inj hx
      rfl

/-- The counter of a block at the top is the distance from its start. -/
theorem aextend_start {hp : Heap} (h : hp.Fits) {nlen start : Nat} {cnt : HeapCnt}
    (hAlen : start + cnt.alen = hp.alen) (hLast : cnt.lastalen = hp.alen)
    (hLen : Heap.alignedSize nlen < 2 ^ 64) (hGrow : cnt.alen ≤ Heap.alignedSize nlen) :
    (aextend nlen cnt).run hp = Op.andThen ((Heap.aextend nlen start).run hp) fun _ hp' =>
      some (.ok ⟨hp'.alen - start, hp'.alen⟩, hp') := by
  have hWord := h.word
  have hWithin := h.within
  obtain ⟨alen, lastalen⟩ := cnt
  dsimp only at hAlen hLast hGrow
  have hElen : start + Heap.alignedSize nlen - hp.alen = Heap.alignedSize nlen - alen := by omega
  have hStart : (Heap.aextend nlen start).run hp =
      Op.andThen ((Op.require (Heap.alignedSize nlen - alen ≤ hp.remaining) ()).run hp) fun _ hp =>
        some (.ok (), { hp with alen := hp.alen + (Heap.alignedSize nlen - alen) }) := by
    rw [← hElen]
    rfl
  rw [aextend, Op.run_bind, Op.run_get, Op.andThen_ok, Op.run_bind, Op.run_assert, if_pos hLast,
    Op.andThen_ok, SizeT.alignedSize_eq hLen, hStart, Op.run_require]
  dsimp only
  rw [Op.run_bind, Op.run_assert, if_pos hGrow, Op.andThen_ok, SizeT.sub_eq hGrow hLen, h.remaining_eq]
  split
  · rename_i hNone
    have hWas : hp.alen - start = alen := by omega
    rw [hNone, if_pos (Nat.zero_le _), Op.andThen_ok, Op.andThen_ok, hLast]
    dsimp only
    rw [Nat.add_zero, hWas]
    rfl
  · rw [Op.run_bind, Op.run_require]
    split
    · rename_i hRoom
      simp only [Heap.remaining] at hRoom
      have hTop : hp.alen + (Heap.alignedSize nlen - alen) - start = Heap.alignedSize nlen := by omega
      rw [Op.andThen_ok, Op.andThen_ok, Op.andThen_ok, Op.run_bind, Op.run_modify, SizeT.add_eq (by omega)]
      dsimp only
      rw [hTop]
      rfl
    · rfl

theorem aextend_guards {hp : Heap} {nlen : Nat} {cnt : HeapCnt} {out : Except Unit HeapCnt × Heap}
    (hLen : Heap.alignedSize nlen < 2 ^ 64) (hRun : (aextend nlen cnt).run hp = some out) :
    cnt.lastalen = hp.alen ∧ cnt.alen ≤ Heap.alignedSize nlen := by
  rw [aextend, Op.run_bind, Op.run_get, Op.andThen_ok, Op.run_bind, Op.run_assert,
    SizeT.alignedSize_eq hLen] at hRun
  split at hRun
  · rw [Op.andThen_ok, Op.run_bind, Op.run_assert] at hRun
    split at hRun
    · exact ⟨‹_›, ‹_›⟩
    · cases hRun
  · cases hRun

/-- An extension hands out what follows the block. -/
theorem aextend_hands {hp hp' : Heap} (h : hp.Fits) {nlen : Nat} {cnt : HeapCnt}
    {r : Except Unit HeapCnt} (hLen : Heap.alignedSize nlen < 2 ^ 64) (hBlock : cnt.alen ≤ hp.alen)
    (hRun : (aextend nlen cnt).run hp = some (r, hp')) :
    hp.Hands (r.map fun x => (hp.alen, x.alen - cnt.alen)) hp' ∧
      ∀ x ∈ r.toOption, cnt.alen ≤ x.alen ∧ x.lastalen = hp'.alen ∧ cnt.lastalen = hp.alen := by
  obtain ⟨hLast, hGrow⟩ := aextend_guards hLen hRun
  have hWithin := h.within
  rw [aextend_start h (Nat.sub_add_cancel hBlock) hLast hLen hGrow, Heap.aextend, Op.run_bind, Op.run_get,
    Op.andThen_ok, Op.run_bind, Op.run_require] at hRun
  split at hRun
  · rename_i hRoom
    obtain ⟨rfl, rfl⟩ := Prod.mk.inj (Option.some.inj hRun)
    simp only [Heap.remaining] at hRoom
    refine ⟨⟨⟨rfl, fun _ _ => rfl⟩, Nat.le_refl _, ?_, ?_⟩, fun x hx => ?_⟩
    · show hp.alen + _ = hp.alen + (hp.alen + _ - _ - cnt.alen)
      omega
    · show hp.alen + _ ≤ hp.tsize
      omega
    · obtain rfl := Option.some.inj hx
      refine ⟨?_, rfl, hLast⟩
      show cnt.alen ≤ hp.alen + _ - _
      omega
  · obtain ⟨rfl, rfl⟩ := Prod.mk.inj (Option.some.inj hRun)
    exact ⟨⟨rfl, Same.refl _ _⟩, fun x hx => by cases hx⟩

/-- A block cut short, which never fails. -/
theorem cntReclaim_ok {hp hp' : Heap} (h : hp.Fits) {nlen : Nat} {cnt : HeapCnt}
    {r : Except Unit HeapCnt} (hLen : Heap.alignedSize nlen < 2 ^ 64) (hBlock : cnt.alen ≤ hp.alen)
    (hRun : (cntReclaim cnt nlen).run hp = some (r, hp')) :
    ∃ cnt', r = .ok cnt' ∧ cnt'.alen ≤ cnt.alen ∧ cnt'.lastalen = hp'.alen ∧
      cnt.lastalen = hp.alen ∧ hp'.alen + (cnt.alen - cnt'.alen) = hp.alen ∧
        hp.Same hp'.alen hp' := by
  have hWord := h.word
  have hWithin := h.within
  rw [cntReclaim, Op.run_bind, Op.run_get, Op.andThen_ok, Op.run_bind, Op.run_assert,
    SizeT.alignedSize_eq hLen] at hRun
  split at hRun
  · rename_i hLast
    rw [Op.andThen_ok, Op.run_bind, Op.run_assert] at hRun
    split at hRun
    · rename_i hCut
      rw [Op.andThen_ok, SizeT.sub_eq hCut (by omega)] at hRun
      dsimp only at hRun
      rw [SizeT.sub_eq (by omega) (by omega)] at hRun
      split at hRun
      · obtain ⟨rfl, rfl⟩ := Prod.mk.inj (Option.some.inj hRun)
        exact ⟨cnt, rfl, Nat.le_refl _, hLast, hLast, by omega, Same.refl _ _⟩
      · obtain ⟨rfl, rfl⟩ := Prod.mk.inj (Option.some.inj hRun)
        refine ⟨_, rfl, hCut, rfl, hLast, ?_, ?_⟩
        · show hp.alen - (cnt.alen - Heap.alignedSize nlen) + (cnt.alen - Heap.alignedSize nlen) = _
          omega
        · have hWrite := Same.write hp
            (List.replicate (cnt.alen - Heap.alignedSize nlen) 0)
            (Nat.le_refl (hp.alen - (cnt.alen - Heap.alignedSize nlen)))
          exact ⟨rfl, hWrite.below⟩
    · cases hRun
  · cases hRun

theorem cntRollback_start {hp : Heap} (h : hp.Fits) {start : Nat} {cnt : HeapCnt}
    (hAlen : start + cnt.alen = hp.alen) (hLast : cnt.lastalen = hp.alen) :
    (cntRollback cnt).run hp = some (.ok (), Heap.cntRollback start hp) := by
  have hWord := h.word
  have hWithin := h.within
  have hTop : hp.alen - cnt.alen = start := by omega
  have hSize : cnt.alen = hp.alen - start := by omega
  rw [cntRollback, Op.run_bind, Op.run_get, Op.andThen_ok, Op.run_bind, Op.run_assert, if_pos hLast,
    Op.andThen_ok, Op.run_bind, Op.run_assert,
    if_pos (show cnt.alen ≤ hp.alen by omega), Op.andThen_ok,
    SizeT.sub_eq (by omega) (by omega), hTop, hSize]
  rfl

theorem cntRollback_ok {hp hp' : Heap} (h : hp.Fits) {cnt : HeapCnt} {r : Except Unit Unit}
    (hRun : (cntRollback cnt).run hp = some (r, hp')) :
    r = .ok () ∧ cnt.lastalen = hp.alen ∧ hp'.alen + cnt.alen = hp.alen ∧
      hp.Same hp'.alen hp' := by
  have hGuards : cnt.lastalen = hp.alen ∧ cnt.alen ≤ hp.alen := by
    rw [cntRollback, Op.run_bind, Op.run_get, Op.andThen_ok, Op.run_bind, Op.run_assert] at hRun
    split at hRun
    · rw [Op.andThen_ok, Op.run_bind, Op.run_assert] at hRun
      split at hRun
      · exact ⟨‹_›, ‹_›⟩
      · cases hRun
    · cases hRun
  obtain ⟨hLast, hBlock⟩ := hGuards
  rw [cntRollback_start h (Nat.sub_add_cancel hBlock) hLast] at hRun
  obtain ⟨rfl, rfl⟩ := Prod.mk.inj (Option.some.inj hRun)
  exact ⟨rfl, hLast, Nat.sub_add_cancel hBlock, rfl, (Same.write hp _ (Nat.le_refl _)).below⟩

end MsgHeap

/-! ## Sequences of calls -/

structure Region where
  off : Nat
  len : Nat
  deriving DecidableEq, Repr

/-- Without a common byte. -/
def Region.Apart (x y : Region) : Prop :=
  x.len = 0 ∨ y.len = 0 ∨ x.off + x.len ≤ y.off ∨ y.off + y.len ≤ x.off

/-- A heap with the regions its callers hold and the counters of the counted ones, by the order they
were handed out in. The counters are the callers' and stay when their blocks go. -/
structure HeapRun where
  hp : Heap
  live : Nat → Option Region := fun _ => none
  cnt : Nat → Option HeapCnt := fun _ => none
  next : Nat := 0

/-- A call, or the holder of a region writing in it. -/
inductive HeapCall where
  | alloc (len : Nat)
  | append (src : Bytes)
  | sprintf (text : Except Bytes Bytes)
  | build (cb : BuildCb)
  | allocCnt (len : Nat)
  | aextend (k nlen : Nat)
  | cntReclaim (k nlen : Nat)
  | cntRollback (k : Nat)
  | checkpoint
  | rollback (checkpoint_index : Nat)
  | store (k at_ : Nat) (bs : Bytes)

namespace HeapRun

def handOut (off len : Nat) (cnt : Option HeapCnt) (s : HeapRun) : HeapRun :=
  { s with
    live := Function.update s.live s.next (some ⟨off, len⟩)
    cnt := Function.update s.cnt s.next cnt
    next := s.next + 1 }

/-- A counted block with another length. -/
def resize (k : Nat) (cnt : HeapCnt) (s : HeapRun) : HeapRun :=
  { s with
    live := Function.update s.live k ((s.live k).map fun x => { x with len := cnt.alen })
    cnt := Function.update s.cnt k (some cnt) }

def release (k : Nat) (s : HeapRun) : HeapRun := { s with live := Function.update s.live k none }

/-- The regions a rollback leaves. -/
def trim (s : HeapRun) : HeapRun :=
  { s with live := fun k => (s.live k).filter fun x => x.len = 0 ∨ x.off + x.len ≤ s.hp.alen }

def onHeap {α : Type} (x : HeapM α) : Op Unit HeapRun α :=
  Op.zoom HeapRun.hp (fun hp s => { s with hp }) x

def perform : HeapCall → Op Unit HeapRun Unit
  | .alloc len => do
    let off ← onHeap (MsgHeap.alloc len)
    Op.modify (handOut off (Heap.alignedSize len) none)
  | .append src => do
    let bp ← onHeap (MsgHeap.append src)
    match bp with
    | none => pure ()
    | some off => Op.modify (handOut off src.length none)
  | .sprintf text => do
    let x ← onHeap (MsgHeap.sprintf text)
    Op.modify (handOut x.1 (x.2 + 1) none)
  | .build cb => do
    let x ← onHeap (MsgHeap.build cb)
    Op.modify (handOut x.1 (Heap.alignedSize x.2) none)
  | .allocCnt len => do
    let x ← onHeap (MsgHeap.allocCnt len)
    Op.modify (handOut x.1 x.2.alen (some x.2))
  | .aextend k nlen => do
    let s ← Op.get
    let cnt ← Op.demand (s.cnt k)
    let cnt ← onHeap (MsgHeap.aextend nlen cnt)
    Op.modify (resize k cnt)
  | .cntReclaim k nlen => do
    let s ← Op.get
    let cnt ← Op.demand (s.cnt k)
    let cnt ← onHeap (MsgHeap.cntReclaim cnt nlen)
    Op.modify (resize k cnt)
  | .cntRollback k => do
    let s ← Op.get
    let cnt ← Op.demand (s.cnt k)
    onHeap (MsgHeap.cntRollback cnt)
    Op.modify (release k)
  | .checkpoint => do
    let _ ← onHeap Heap.checkpoint
  | .rollback i => do
    onHeap (Heap.rollback i)
    Op.modify trim
  | .store k at_ bs => do
    let s ← Op.get
    let x ← Op.demand (s.live k)
    Op.assert (at_ + bs.length ≤ x.len)
    Op.modify fun s => { s with hp := { s.hp with first := s.hp.first.writeAt (x.off + at_) bs } }

def step (s : HeapRun) (c : HeapCall) : Option HeapRun := ((perform c).run s).map (·.2)

end HeapRun

/-- The region a call is about. -/
def HeapCall.block : HeapCall → Option Nat
  | .aextend k _ | .cntReclaim k _ | .cntRollback k | .store k _ _ => some k
  | _ => none

/-- A call whose lengths do not wrap. -/
def HeapCall.Sized : HeapCall → Prop
  | .alloc len | .allocCnt len | .aextend _ len | .cntReclaim _ len => Heap.alignedSize len < 2 ^ 64
  | .append src => Heap.alignedSize src.length < 2 ^ 64
  | _ => True

namespace HeapRun

/-- A call about a block that is still held. -/
def Held (s : HeapRun) (c : HeapCall) : Prop := c.Sized ∧ ∀ k ∈ c.block, (s.live k).isSome

/-- A call about any block handed out. -/
def Sized (_ : HeapRun) (c : HeapCall) : Prop := c.Sized

/-- Regions apart from each other and within the heap. -/
structure Sound (s : HeapRun) : Prop where
  fits : s.hp.Fits
  inside : ∀ k x, s.live k = some x → x.off + x.len ≤ s.hp.tsize
  below : ∀ k x, s.live k = some x → x.len ≠ 0 → x.off + x.len ≤ s.hp.alen
  apart : ∀ k l x y, k ≠ l → s.live k = some x → s.live l = some y → x.Apart y
  counted : ∀ k x cnt, s.live k = some x → s.cnt k = some cnt →
    cnt.alen = x.len ∧ cnt.lastalen = x.off + x.len
  fresh : ∀ k, s.next ≤ k → s.live k = none

/-- What a call about a held block does. -/
inductive Did (s : HeapRun) (c : HeapCall) : Except Unit Unit → HeapRun → Prop where
  | handed {off len : Nat} {cnt : Option HeapCnt} {hp' : Heap} (hReserved : s.hp.Reserved off len hp')
      (hCnt : ∀ x ∈ cnt, x.alen = len ∧ x.lastalen = hp'.alen) :
      Did s c (.ok ()) (handOut off len cnt { s with hp := hp' })
  | idle {r : Except Unit Unit} {hp' : Heap} (hTop : hp'.alen = s.hp.alen)
      (hSame : s.hp.Same s.hp.alen hp') : Did s c r { s with hp := hp' }
  | resized {k : Nat} {x : Region} {cnt : HeapCnt} {hp' : Heap} (hBlock : c.block = some k)
      (hLive : s.live k = some x) (hLast : x.off + x.len = s.hp.alen)
      (hSame : s.hp.Same (min s.hp.alen hp'.alen) hp') (hTop : hp'.alen = x.off + cnt.alen)
      (hFits : hp'.alen ≤ s.hp.tsize) (hCnt : cnt.lastalen = hp'.alen) :
      Did s c (.ok ()) (resize k cnt { s with hp := hp' })
  | released {k : Nat} {x : Region} {hp' : Heap} (hBlock : c.block = some k)
      (hLive : s.live k = some x) (hLast : x.off + x.len = s.hp.alen) (hTop : hp'.alen = x.off)
      (hSame : s.hp.Same hp'.alen hp') : Did s c (.ok ()) (release k { s with hp := hp' })
  | trimmed {i : Nat} {hp' : Heap} (hCall : c = .rollback i) (hTop : hp'.alen ≤ s.hp.alen)
      (hSame : s.hp.Same hp'.alen hp') : Did s c (.ok ()) (trim { s with hp := hp' })
  | stored {k at_ : Nat} {x : Region} {bs : Bytes} (hBlock : c.block = some k)
      (hLive : s.live k = some x) (hInside : at_ + bs.length ≤ x.len) :
      Did s c (.ok ())
        { s with hp := { s.hp with first := s.hp.first.writeAt (x.off + at_) bs } }

/-- A heap operation whose result changes what is held. -/
theorem onHeap_modify {α : Type} {x : HeapM α} {g : α → HeapRun → HeapRun} {s s' : HeapRun}
    {r : Except Unit Unit} (hRun : (onHeap x >>= fun a => Op.modify (g a)).run s = some (r, s')) :
    ∃ hp', (∃ a, x.run s.hp = some (.ok a, hp') ∧ r = .ok () ∧ s' = g a { s with hp := hp' }) ∨
      ∃ e, x.run s.hp = some (.error e, hp') ∧ s' = { s with hp := hp' } := by
  rw [Op.run_bind] at hRun
  cases hHeap : (onHeap x).run s with
  | none =>
    rw [hHeap] at hRun
    cases hRun
  | some out =>
    obtain ⟨r', s₁⟩ := out
    obtain ⟨hp', hx, rfl⟩ := Op.zoom_some.mp hHeap
    rw [hHeap] at hRun
    cases r' with
    | ok a =>
      obtain ⟨rfl, rfl⟩ := Prod.mk.inj (Option.some.inj hRun)
      exact ⟨hp', .inl ⟨a, hx, rfl, rfl⟩⟩
    | error e =>
      obtain ⟨rfl, rfl⟩ := Prod.mk.inj (Option.some.inj hRun)
      exact ⟨hp', .inr ⟨e, hx, rfl⟩⟩

/-- A call that hands out what an operation returns. -/
theorem handed_of {α : Type} (x : HeapM α) (at_ : α → Nat × Nat) (cnt : α → Option HeapCnt)
    {s s' : HeapRun} {c : HeapCall} {r : Except Unit Unit}
    (hHands : ∀ r' hp', x.run s.hp = some (r', hp') → s.hp.Hands (r'.map at_) hp' ∧
      ∀ a, r' = .ok a → ∀ y ∈ cnt a, y.alen = (at_ a).2 ∧ y.lastalen = hp'.alen)
    (hRun : (onHeap x >>= fun a => Op.modify (handOut (at_ a).1 (at_ a).2 (cnt a))).run s =
      some (r, s')) : Did s c r s' := by
  obtain ⟨hp', ⟨a, hx, rfl, rfl⟩ | ⟨e, hx, rfl⟩⟩ := onHeap_modify hRun
  · obtain ⟨hReserved, hCnt⟩ := hHands _ _ hx
    exact .handed hReserved (hCnt a rfl)
  · obtain ⟨hTop, hSame⟩ := (hHands _ _ hx).1
    exact .idle hTop hSame

/-- A call about a block, by its counter. -/
theorem counted_some {α : Type} {k : Nat} {f : HeapCnt → Op Unit HeapRun α} {s s' : HeapRun}
    {r : Except Unit α}
    (hRun : (do let s ← Op.get; let cnt ← Op.demand (s.cnt k); f cnt : Op Unit HeapRun α).run s =
      some (r, s')) : ∃ cnt, s.cnt k = some cnt ∧ (f cnt).run s = some (r, s') := by
  rw [Op.run_bind, Op.run_get, Op.andThen_ok, Op.run_bind] at hRun
  cases hCnt : s.cnt k with
  | none =>
    rw [hCnt] at hRun
    cases hRun
  | some cnt =>
    rw [hCnt, Op.run_demand_some, Op.andThen_ok] at hRun
    exact ⟨cnt, rfl, hRun⟩

/-- What a rollback does to the heap. -/
theorem rollback_ok {hp hp' : Heap} {i : Nat} {r : Except Unit Unit}
    (hRun : (Heap.rollback i).run hp = some (r, hp')) :
    r = .ok () ∧ hp'.alen ≤ hp.alen ∧ hp.Same hp'.alen hp' := by
  simp only [Heap.rollback, Op.run_bind, Op.run_get, Op.andThen_ok, Op.run_assert] at hRun
  split at hRun
  · rw [Op.andThen_ok] at hRun
    split at hRun
    · rw [Op.andThen_ok] at hRun
      split at hRun
      · rename_i hLe
        obtain ⟨rfl, rfl⟩ := Prod.mk.inj (Option.some.inj hRun)
        have hWrite := Heap.Same.write hp
          (List.replicate (hp.alen - hp.checkpoints.getD i 0) 0)
          (Nat.le_refl (hp.checkpoints.getD i 0))
        exact ⟨rfl, hLe, rfl, hWrite.below⟩
      · cases hRun
    · cases hRun
  · cases hRun

theorem checkpoint_some {hp hp' : Heap} {r : Except Unit Nat}
    (hRun : Heap.checkpoint.run hp = some (r, hp')) :
    hp'.alen = hp.alen ∧ hp.Same hp.alen hp' := by
  rw [Heap.checkpoint, Op.run_bind, Op.run_get, Op.andThen_ok, Op.run_bind, Op.run_assert] at hRun
  split at hRun
  · obtain ⟨-, rfl⟩ := Prod.mk.inj (Option.some.inj hRun)
    exact ⟨rfl, rfl, fun _ _ => rfl⟩
  · cases hRun

theorem Sound.counter {s : HeapRun} (h : s.Sound) {k : Nat} {c : HeapCall} {cnt : HeapCnt}
    (hHeld : s.Held c) (hBlock : c.block = some k) (hCnt : s.cnt k = some cnt) :
    ∃ x, s.live k = some x ∧ cnt.alen = x.len ∧ cnt.lastalen = x.off + x.len := by
  obtain ⟨x, hLive⟩ := Option.isSome_iff_exists.mp (hHeld.2 k hBlock)
  exact ⟨x, hLive, h.counted k x cnt hLive hCnt⟩

/-- What a call does, by its kind. -/
theorem perform_did {s s' : HeapRun} (h : s.Sound) {c : HeapCall} (hHeld : s.Held c)
    {r : Except Unit Unit} (hRun : (perform c).run s = some (r, s')) : Did s c r s' := by
  have hSized := hHeld.1
  have hWithin := h.fits.within
  cases c with
  | alloc len =>
    refine handed_of (MsgHeap.alloc len) (fun off => (off, Heap.alignedSize len)) (fun _ => none) ?_
      hRun
    intro r' hp' hx
    exact ⟨MsgHeap.alloc_hands h.fits hSized hx, fun a ha y hy => by cases hy⟩
  | append src =>
    have hMod := Heap.alignedSize_mod src.length
    have hLe := Heap.le_alignedSize src.length
    have hLen : src.length + 7 < 2 ^ 64 := by
      simp only [HeapCall.Sized] at hSized
      omega
    rw [perform, Op.run_bind] at hRun
    cases hHeap : (onHeap (MsgHeap.append src)).run s with
    | none =>
      rw [hHeap] at hRun
      cases hRun
    | some out =>
      obtain ⟨r', s₁⟩ := out
      obtain ⟨hp', hx, rfl⟩ := Op.zoom_some.mp hHeap
      rw [hHeap] at hRun
      obtain ⟨-, rfl, rfl⟩ | ⟨r₁, rfl, hHands⟩ := MsgHeap.append_hands h.fits hLen hx
      · obtain ⟨rfl, rfl⟩ := Prod.mk.inj (Option.some.inj hRun)
        exact .idle rfl (Heap.Same.refl _ _)
      · cases r₁ with
        | ok off =>
          obtain ⟨rfl, rfl⟩ := Prod.mk.inj (Option.some.inj hRun)
          exact .handed hHands fun y hy => by cases hy
        | error e =>
          obtain ⟨rfl, rfl⟩ := Prod.mk.inj (Option.some.inj hRun)
          exact .idle hHands.1 hHands.2
  | sprintf text =>
    refine handed_of (MsgHeap.sprintf text) (fun x => (x.1, x.2 + 1)) (fun _ => none) ?_ hRun
    intro r' hp' hx
    exact ⟨MsgHeap.sprintf_hands h.fits hx, fun a ha y hy => by cases hy⟩
  | build cb =>
    refine handed_of (MsgHeap.build cb) (fun x => (x.1, Heap.alignedSize x.2)) (fun _ => none) ?_
      hRun
    intro r' hp' hx
    exact ⟨MsgHeap.build_hands h.fits hx, fun a ha y hy => by cases hy⟩
  | allocCnt len =>
    refine handed_of (MsgHeap.allocCnt len) (fun x => (x.1, x.2.alen)) (fun x => some x.2) ?_ hRun
    intro r' hp' hx
    obtain ⟨hHands, hLast⟩ := MsgHeap.allocCnt_hands h.fits hSized hx
    refine ⟨hHands, fun a ha y hy => ?_⟩
    obtain rfl := Option.some.inj hy
    exact ⟨rfl, hLast a (ha ▸ rfl)⟩
  | aextend k nlen =>
    obtain ⟨cnt, hCnt, hExtend⟩ := counted_some hRun
    obtain ⟨x, hLive, hAlen, hLast⟩ := h.counter hHeld rfl hCnt
    have hBelow := h.below k x hLive
    obtain ⟨hp', ⟨cnt', hx, rfl, rfl⟩ | ⟨e, hx, rfl⟩⟩ := onHeap_modify hExtend
    · obtain ⟨hReserved, hEnd⟩ := MsgHeap.aextend_hands h.fits hSized (by omega) hx
      obtain ⟨hLe, hLast', hAt⟩ := hEnd cnt' rfl
      have hTop : hp'.alen = s.hp.alen + (cnt'.alen - cnt.alen) := hReserved.top
      exact .resized rfl hLive (by omega) (hReserved.toSame.mono (Nat.min_le_left _ _)) (by omega)
        hReserved.fits hLast'
    · obtain ⟨hTop, hSame⟩ := (MsgHeap.aextend_hands h.fits hSized (by omega) hx).1
      exact .idle hTop hSame
  | cntReclaim k nlen =>
    obtain ⟨cnt, hCnt, hReclaim⟩ := counted_some hRun
    obtain ⟨x, hLive, hAlen, hLast⟩ := h.counter hHeld rfl hCnt
    have hBelow := h.below k x hLive
    obtain ⟨hp', ⟨cnt', hx, rfl, rfl⟩ | ⟨e, hx, rfl⟩⟩ := onHeap_modify hReclaim
    · obtain ⟨_, hOk, hCut, hLast', hAt, hTop, hSame⟩ :=
        MsgHeap.cntReclaim_ok h.fits hSized (by omega) hx
      obtain rfl := Except.ok.inj hOk
      exact .resized rfl hLive (by omega) (hSame.mono (Nat.min_le_right _ _)) (by omega) (by omega)
        hLast'
    · obtain ⟨_, hOk, -⟩ := MsgHeap.cntReclaim_ok h.fits hSized (by omega) hx
      cases hOk
  | cntRollback k =>
    obtain ⟨cnt, hCnt, hRollback⟩ := counted_some hRun
    obtain ⟨x, hLive, hAlen, hLast⟩ := h.counter hHeld rfl hCnt
    obtain ⟨hp', ⟨a, hx, rfl, rfl⟩ | ⟨e, hx, rfl⟩⟩ := onHeap_modify hRollback
    · obtain ⟨-, hAt, hTop, hSame⟩ := MsgHeap.cntRollback_ok h.fits hx
      exact .released rfl hLive (by omega) (by omega) hSame
    · cases (MsgHeap.cntRollback_ok h.fits hx).1
  | checkpoint =>
    rw [perform, Op.bind_pure_some] at hRun
    obtain ⟨r', hHeap, rfl⟩ := hRun
    obtain ⟨hp', hx, rfl⟩ := Op.zoom_some.mp hHeap
    obtain ⟨hTop, hSame⟩ := checkpoint_some hx
    exact .idle hTop hSame
  | rollback i =>
    obtain ⟨hp', ⟨a, hx, rfl, rfl⟩ | ⟨e, hx, rfl⟩⟩ := onHeap_modify hRun
    · obtain ⟨-, hTop, hSame⟩ := rollback_ok hx
      exact .trimmed rfl hTop hSame
    · cases (rollback_ok hx).1
  | store k at_ bs =>
    rw [perform, Op.run_bind, Op.run_get, Op.andThen_ok, Op.run_bind] at hRun
    cases hLive : s.live k with
    | none =>
      rw [hLive] at hRun
      cases hRun
    | some x =>
      rw [hLive, Op.run_demand_some, Op.andThen_ok, Op.run_bind, Op.run_assert] at hRun
      split at hRun
      · rename_i hInside
        obtain ⟨rfl, rfl⟩ := Prod.mk.inj (Option.some.inj hRun)
        exact .stored rfl hLive hInside
      · cases hRun

theorem Apart.symm {x y : Region} (h : x.Apart y) : y.Apart x := by
  simp only [Region.Apart] at h ⊢
  omega

/-- What else is held ends before the block at the top. -/
theorem Sound.before {s : HeapRun} (h : s.Sound) {k l : Nat} {x y : Region}
    (hx : s.live k = some x) (hLast : x.off + x.len = s.hp.alen) (hNe : l ≠ k)
    (hy : s.live l = some y) : y.len = 0 ∨ y.off + y.len ≤ x.off := by
  have hBelow := h.below l y hy
  have hApart := h.apart l k y x hNe hy hx
  simp only [Region.Apart] at hApart
  omega

theorem Sound.did {s s' : HeapRun} (h : s.Sound) {c : HeapCall} {r : Except Unit Unit}
    (hDid : Did s c r s') : s'.Sound := by
  have hWithin := h.fits.within
  cases hDid with
  | @handed off len cnt hp' hReserved hCnt =>
    have hStart := hReserved.start
    have hTop := hReserved.top
    have hFits := hReserved.fits
    have hSize := hReserved.tsize
    have hApart : ∀ k x, s.live k = some x → x.Apart ⟨off, len⟩ := by
      intro k x hLive
      have hBelow := h.below k x hLive
      simp only [Region.Apart]
      omega
    have hAt : ∀ k x, Function.update s.live s.next (some ⟨off, len⟩) k = some x →
        (k = s.next ∧ x = ⟨off, len⟩) ∨ (k ≠ s.next ∧ s.live k = some x) := by
      intro k x hLive
      by_cases hNew : k = s.next
      · subst hNew
        rw [Function.update_self] at hLive
        exact .inl ⟨rfl, (Option.some.inj hLive).symm⟩
      · rw [Function.update_of_ne hNew] at hLive
        exact .inr ⟨hNew, hLive⟩
    constructor
    · exact h.fits.of_same hReserved.toSame hReserved.fits
    · intro k x hLive
      obtain ⟨-, rfl⟩ | ⟨-, hOld⟩ := hAt k x hLive
      · show off + len ≤ hp'.tsize
        omega
      · have hIn := h.inside k x hOld
        show x.off + x.len ≤ hp'.tsize
        omega
    · intro k x hLive hSome
      obtain ⟨-, rfl⟩ | ⟨-, hOld⟩ := hAt k x hLive
      · exact Nat.le_of_eq hTop.symm
      · have hIn := h.below k x hOld hSome
        show x.off + x.len ≤ hp'.alen
        omega
    · intro k l x y hNe hx hy
      obtain ⟨rfl, rfl⟩ | ⟨-, hx⟩ := hAt k x hx
      · obtain ⟨rfl, -⟩ | ⟨-, hy⟩ := hAt l y hy
        · exact absurd rfl hNe
        · exact Apart.symm (hApart l y hy)
      · obtain ⟨-, rfl⟩ | ⟨-, hy⟩ := hAt l y hy
        · exact hApart k x hx
        · exact h.apart k l x y hNe hx hy
    · intro k x y hLive hCounter
      obtain ⟨rfl, rfl⟩ | ⟨hOther, hOld⟩ := hAt k x hLive
      · obtain ⟨hLen, hLast⟩ := hCnt y (by simpa [handOut] using hCounter)
        exact ⟨hLen, hLast.trans hTop⟩
      · refine h.counted k x y hOld ?_
        simpa [handOut, Function.update_of_ne hOther] using hCounter
    · intro k hk
      have hk : s.next + 1 ≤ k := hk
      have hNew : k ≠ s.next := by omega
      simpa [handOut, Function.update_of_ne hNew] using h.fresh k (by omega)
  | idle hTop hSame =>
    have hSize := hSame.tsize
    refine ⟨h.fits.of_same hSame (Nat.le_trans (Nat.le_of_eq hTop) hWithin), ?_, ?_, h.apart, h.counted,
      h.fresh⟩
    · intro k x hLive
      exact hSize ▸ h.inside k x hLive
    · intro k x hLive hSome
      exact hTop ▸ h.below k x hLive hSome
  | @resized k x cnt hp' hBlock hLive hLast hSame hTop hFits hCnt =>
    have hSize := hSame.tsize
    have hAt : ∀ l y, Function.update s.live k ((s.live k).map fun x => { x with len := cnt.alen }) l =
        some y → (l = k ∧ y = ⟨x.off, cnt.alen⟩) ∨ (l ≠ k ∧ s.live l = some y) := by
      intro l y hy
      by_cases hSelf : l = k
      · subst hSelf
        rw [Function.update_self, hLive, Option.map_some] at hy
        exact .inl ⟨rfl, (Option.some.inj hy).symm⟩
      · rw [Function.update_of_ne hSelf] at hy
        exact .inr ⟨hSelf, hy⟩
    constructor
    · exact h.fits.of_same hSame hFits
    · intro l y hy
      obtain ⟨-, rfl⟩ | ⟨hNe, hy⟩ := hAt l y hy
      · show x.off + cnt.alen ≤ hp'.tsize
        omega
      · have hIn := h.inside l y hy
        show y.off + y.len ≤ hp'.tsize
        omega
    · intro l y hy hSome
      obtain ⟨-, rfl⟩ | ⟨hNe, hy⟩ := hAt l y hy
      · exact Nat.le_of_eq hTop.symm
      · have hBefore := h.before hLive hLast hNe hy
        show y.off + y.len ≤ hp'.alen
        omega
    · intro i j y z hNe hy hz
      obtain ⟨rfl, rfl⟩ | ⟨hOther, hy⟩ := hAt i y hy
      · obtain ⟨rfl, -⟩ | ⟨hOther, hz⟩ := hAt j z hz
        · exact absurd rfl hNe
        · have hBefore := h.before hLive hLast hOther hz
          simp only [Region.Apart]
          omega
      · obtain ⟨-, rfl⟩ | ⟨-, hz⟩ := hAt j z hz
        · have hBefore := h.before hLive hLast hOther hy
          simp only [Region.Apart]
          omega
        · exact h.apart i j y z hNe hy hz
    · intro l y z hy hCounter
      obtain ⟨rfl, rfl⟩ | ⟨hNe, hy⟩ := hAt l y hy
      · have hz : cnt = z := by simpa [resize] using hCounter
        subst hz
        exact ⟨rfl, hCnt.trans hTop⟩
      · refine h.counted l y z hy ?_
        simpa [resize, Function.update_of_ne hNe] using hCounter
    · intro l hl
      have hNe : l ≠ k := by
        rintro rfl
        rw [h.fresh l hl] at hLive
        cases hLive
      simpa [resize, Function.update_of_ne hNe] using h.fresh l hl
  | @released k x hp' hBlock hLive hLast hTop hSame =>
    have hSize := hSame.tsize
    have hAt : ∀ l y, Function.update s.live k none l = some y → l ≠ k ∧ s.live l = some y := by
      intro l y hy
      by_cases hSelf : l = k
      · subst hSelf
        rw [Function.update_self] at hy
        cases hy
      · rw [Function.update_of_ne hSelf] at hy
        exact ⟨hSelf, hy⟩
    have hFits : hp'.alen ≤ s.hp.tsize := by omega
    constructor
    · exact h.fits.of_same hSame hFits
    · intro l y hy
      have hIn := h.inside l y (hAt l y hy).2
      show y.off + y.len ≤ hp'.tsize
      omega
    · intro l y hy hSome
      obtain ⟨hNe, hy⟩ := hAt l y hy
      have hBefore := h.before hLive hLast hNe hy
      show y.off + y.len ≤ hp'.alen
      omega
    · intro i j y z hNe hy hz
      exact h.apart i j y z hNe (hAt i y hy).2 (hAt j z hz).2
    · intro l y z hy hCounter
      exact h.counted l y z (hAt l y hy).2 hCounter
    · intro l hl
      have hOld := h.fresh l hl
      by_cases hSelf : l = k
      · simp [release, hSelf]
      · simpa [release, Function.update_of_ne hSelf] using hOld
  | @trimmed i hp' hCall hTop hSame =>
    have hSize := hSame.tsize
    have hAt : ∀ l y, (s.live l).filter (fun x => x.len = 0 ∨ x.off + x.len ≤ hp'.alen) = some y →
        s.live l = some y ∧ (y.len = 0 ∨ y.off + y.len ≤ hp'.alen) := by
      intro l y hy
      obtain ⟨hLive, hIn⟩ := Option.filter_eq_some_iff.mp hy
      exact ⟨hLive, of_decide_eq_true hIn⟩
    constructor
    · exact h.fits.of_same hSame (Nat.le_trans hTop hWithin)
    · intro l y hy
      have hIn := h.inside l y (hAt l y hy).1
      show y.off + y.len ≤ hp'.tsize
      omega
    · intro l y hy hSome
      have hIn := (hAt l y hy).2
      show y.off + y.len ≤ hp'.alen
      omega
    · intro i j y z hNe hy hz
      exact h.apart i j y z hNe (hAt i y hy).1 (hAt j z hz).1
    · intro l y z hy hCounter
      exact h.counted l y z (hAt l y hy).1 hCounter
    · intro l hl
      have hOld : s.live l = none := h.fresh l hl
      show (s.live l).filter _ = none
      rw [hOld]
      rfl
  | stored hBlock hLive hInside =>
    exact ⟨⟨h.fits.aligned, h.fits.word, hWithin⟩, h.inside, h.below, h.apart, h.counted,
      h.fresh⟩

theorem Sound.init {hp : Heap} (hFits : hp.Fits) : Sound { hp } := by
  constructor
  · exact hFits
  · intro k x hLive
    cases hLive
  · intro k x hLive
    cases hLive
  · intro k l x y _ hLive
    cases hLive
  · intro k x cnt hLive
    cases hLive
  · intro k _
    rfl

theorem Sound.next {s s' : HeapRun} (h : s.Sound) {c : HeapCall} (hHeld : s.Held c)
    (hStep : step s c = some s') : s'.Sound := by
  obtain ⟨⟨r, s₁⟩, hRun, rfl⟩ := Option.map_eq_some_iff.mp hStep
  exact h.did (perform_did h hHeld hRun)

theorem Sound.run {hp : Heap} (hFits : hp.Fits) {s : HeapRun}
    (hRun : Transition.Run step Held { hp } s) : s.Sound :=
  hRun.invariant (fun _ _ _ h hHeld hStep => h.next hHeld hStep) (Sound.init hFits)

/-- Regions within the heap and apart from each other. -/
def Separate (s : HeapRun) : Prop :=
  s.hp.alen ≤ s.hp.tsize ∧ (∀ k x, s.live k = some x → x.off + x.len ≤ s.hp.tsize) ∧
    ∀ k l x y, k ≠ l → s.live k = some x → s.live l = some y → x.Apart y

/-- A region held on to with the same bytes. -/
def Intact (s s' : HeapRun) (k : Nat) (x : Region) : Prop :=
  s'.live k = some x ∧ ∀ j, x.off ≤ j → j < x.off + x.len → s'.hp.first j = s.hp.first j

/-- A call leaves the regions it is not about as they are, or is a rollback to before their end. -/
def Spares (c : HeapCall) (s s' : HeapRun) : Prop :=
  ∀ k x, s.live k = some x → c.block ≠ some k →
    s.Intact s' k x ∨ ((∃ i, c = .rollback i) ∧ x.len ≠ 0 ∧ s'.hp.alen < x.off + x.len)

/-- A heap of which a failed call changed nothing. -/
def Unchanged (s s' : HeapRun) : Prop :=
  s'.hp.alen = s.hp.alen ∧ s'.live = s.live ∧ ∀ k x, s.live k = some x → s.Intact s' k x

theorem Intact.of_same {s s' : HeapRun} {k : Nat} {x : Region} {n : Nat}
    (hSame : s.hp.Same n s'.hp) (hKept : s'.live k = some x) (hBefore : x.len = 0 ∨ x.off + x.len ≤ n) : s.Intact s' k x := by
  refine ⟨hKept, fun j hj hLt => hSame.below j ?_⟩
  omega

theorem Sound.spares {s s' : HeapRun} (h : s.Sound) {c : HeapCall} {r : Except Unit Unit}
    (hDid : Did s c r s') : Spares c s s' := by
  intro k x hLive hOther
  have hBelow := h.below k x hLive
  have hTopped : x.len = 0 ∨ x.off + x.len ≤ s.hp.alen := by omega
  cases hDid with
  | handed hReserved hCnt =>
    have hNew : k ≠ s.next := by
      rintro rfl
      rw [h.fresh _ (Nat.le_refl _)] at hLive
      cases hLive
    exact .inl (Intact.of_same hReserved.toSame
      (by simpa [handOut, Function.update_of_ne hNew] using hLive) hTopped)
  | idle hTop hSame => exact .inl (Intact.of_same hSame hLive hTopped)
  | @resized l y cnt hp' hBlock hOwn hLast hSame hTop =>
    have hNe : k ≠ l := by
      rintro rfl
      exact hOther hBlock
    have hBefore := h.before hOwn hLast hNe hLive
    exact .inl (Intact.of_same hSame
      (by simpa [resize, Function.update_of_ne hNe] using hLive) (by omega))
  | @released l y hp' hBlock hOwn hLast hTop hSame =>
    have hNe : k ≠ l := by
      rintro rfl
      exact hOther hBlock
    have hBefore := h.before hOwn hLast hNe hLive
    exact .inl (Intact.of_same hSame
      (by simpa [release, Function.update_of_ne hNe] using hLive) (by omega))
  | @trimmed i hp' hCall hTop hSame =>
    by_cases hIn : x.len = 0 ∨ x.off + x.len ≤ hp'.alen
    · have hKept : (s.live k).filter (fun x => x.len = 0 ∨ x.off + x.len ≤ hp'.alen) = some x :=
        Option.filter_eq_some_iff.mpr ⟨hLive, decide_eq_true hIn⟩
      exact .inl (Intact.of_same hSame hKept hIn)
    · refine .inr ⟨⟨i, hCall⟩, ?_, ?_⟩
      · exact fun hNone => hIn (.inl hNone)
      · exact Nat.lt_of_not_le fun hLe => hIn (.inr hLe)
  | @stored l at_ y bs hBlock hOwn hInside =>
    have hNe : k ≠ l := by
      rintro rfl
      exact hOther hBlock
    have hApart := h.apart k l x y hNe hLive hOwn
    simp only [Region.Apart] at hApart
    refine .inl ⟨hLive, fun j hj hLt => ?_⟩
    simp only [Arena.writeAt]
    rw [if_neg (by omega)]

theorem Sound.unchanged {s s' : HeapRun} (h : s.Sound) {c : HeapCall}
    (hDid : Did s c (.error ()) s') : s.Unchanged s' := by
  cases hDid with
  | idle hTop hSame =>
    refine ⟨hTop, rfl, fun k x hLive => Intact.of_same hSame hLive ?_⟩
    have hBelow := h.below k x hLive
    omega

/-- What every sequence of calls that meet `ok` keeps to, from a heap on. -/
def Guarded (ok : HeapRun → HeapCall → Prop) (hp : Heap) : Prop :=
  ∀ s, Transition.Run step ok { hp } s → s.Separate ∧
    ∀ c r s', ok s c → (perform c).run s = some (r, s') →
      Spares c s s' ∧ (r = .error () → s.Unchanged s')

/-- Regions stay apart and keep their bytes as long as counted blocks are not used any more once
they are rolled back. -/
theorem heap_guarded {hp : Heap} (hFits : hp.Fits) : Guarded Held hp := by
  intro s hRun
  have h := Sound.run hFits hRun
  refine ⟨⟨h.fits.within, h.inside, h.apart⟩, fun c r s' hHeld hPerform => ?_⟩
  have hDid := perform_did h hHeld hPerform
  constructor
  · exact h.spares hDid
  · rintro rfl
    exact h.unchanged hDid

theorem heap_guarded_init : Guarded Held (Heap.init none .zero 67 4) :=
  heap_guarded ⟨by decide, by decide, by decide⟩

/-- A counted block rolled back, its place handed out again and written to. -/
def takenAgain : List HeapCall := [.allocCnt 16, .cntRollback 0, .alloc 16, .store 1 0 [1]]

/-- A second rollback of a counted block frees what took its place: its assertions only compare the
top of the heap. -/
theorem rolled_back_twice : ¬ ∀ hp : Heap, hp.Fits → hp.alen = 0 → Guarded Sized hp := by
  intro hAll
  have hTest : (Transition.exec step { hp := Heap.init none .zero 64 0 } takenAgain).any (fun s =>
      s.live 1 == some ⟨0, 16⟩ && s.hp.first 0 == 1 &&
        ((perform (.cntRollback 0)).run s).any (fun out => out.2.hp.first 0 == 0)) = true := by
    decide +kernel
  obtain ⟨s, hExec, hTest⟩ := (Option.any_eq_true _ _).mp hTest
  simp only [Bool.and_eq_true, Option.any_eq_true, beq_iff_eq] at hTest
  obtain ⟨⟨hLive, hOne⟩, ⟨r, s'⟩, hRun, hZero⟩ := hTest
  have hSized : ∀ s, ∀ c ∈ takenAgain, Sized s c := by
    intro s c hc
    simp only [takenAgain, List.mem_cons, List.not_mem_nil, or_false] at hc
    obtain rfl | rfl | rfl | rfl := hc
    · exact (by decide : Heap.alignedSize 16 < 2 ^ 64)
    · trivial
    · exact (by decide : Heap.alignedSize 16 < 2 ^ 64)
    · trivial
  have hReached := Transition.exec_run_of hSized hExec
  obtain ⟨-, hCalls⟩ := hAll _ ⟨by decide, by decide, by decide⟩ rfl s hReached
  obtain ⟨hSpares, -⟩ := hCalls (.cntRollback 0) r s' trivial hRun
  obtain ⟨-, hBytes⟩ | ⟨⟨i, hCall⟩, -⟩ := hSpares 1 ⟨0, 16⟩ hLive (by decide)
  · have hSame := hBytes 0 (Nat.le_refl _) (by decide)
    rw [hZero, hOne] at hSame
    cases hSame
  · cases hCall

end HeapRun

end Microsippy
