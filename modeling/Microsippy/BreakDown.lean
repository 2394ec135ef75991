import Mathlib.Data.List.Range
import Microsippy.Str
import Microsippy.Lib.Word

/-! # Finding line ends, a word at a time

`usipy_sip_msg_break_down` copies a buffer word by word, marks the line feeds that follow a carriage
return in one bit a byte and gives the offsets out one a call, for words of four and of eight bytes.
-/

namespace Microsippy

set_option autoImplicit false

inductive WordSize
  | ilp32
  | lp64
  deriving DecidableEq, Repr

/-- `sizeof(uintptr_t)` -/
def WordSize.sizeof : WordSize → Nat
  | .ilp32 => 4
  | .lp64 => 8

/-- `BFILL` -/
def bfill (n : Nat) (c : UInt8) : BitVec (8 * n) :=
  BitVec.allOnes (8 * n) / BitVec.ofNat (8 * n) 255 * BitVec.ofNat (8 * n) c.toNat

structure CrlfRes where
  v : BitVec 8
  carry : Bool

/-- The loop of `crlfcompr` over the bytes found. -/
def crlfcomprLoop {w : Nat} : Nat → BitVec w → BitVec 8 → BitVec 8
  | 0, _, v => v
  | i + 1, mvalA, v =>
    let nbit := Word.ffs mvalA
    if nbit = 0 then v
    else crlfcomprLoop i (mvalA ^^^ 1#w <<< (nbit - 1)) (v ||| 1#8 <<< (nbit / 8 - 1))

/-- `crlfcompr` -/
def crlfcompr (n : Nat) (cval : BitVec (8 * n)) (carry : Bool) : CrlfRes :=
  let mvalA := cval ^^^ bfill n (ch '\r')
  let mvalB := cval ^^^ bfill n (ch '\n')
  let both := mvalA <<< 8 ||| BitVec.ofNat (8 * n) (!carry).toNat ||| mvalB
  { v := crlfcomprLoop (n / 2) ((both - bfill n 1) &&& ~~~both &&& bfill n 0x80) 0
    carry := mvalA >>> ((n - 1) * 8) = 0 }

/-- `struct usipy_sip_msg_iterator` -/
structure MsgIterator (n : Nat) where
  msg_onwire : Bytes
  msg_copy : Arena
  i : BitVec 32 := 0
  carry : Bool := false
  oword : BitVec (8 * n) := 0
  cshift : Nat := 0

namespace MsgIterator

variable {n : Nat}

/-- `mip->i` as a `size_t` -/
def offset (mip : MsgIterator n) : Nat := (mip.i.signExtend (8 * n)).toNat

/-- The part of `usipy_sip_msg_break_down` from `gotresult` on. -/
def gotresult (mip : MsgIterator n) : Int × MsgIterator n :=
  let boff := Word.ffs mip.oword - 1
  ((mip.i - BitVec.ofNat 32 (n * 8) + BitVec.ofNat 32 boff - 1).toInt,
    { mip with oword := mip.oword ^^^ 1#(8 * n) <<< boff })

/-- The loop of `usipy_sip_msg_break_down`, which goes to `gotresult` or falls through. -/
def breakDownLoop : Nat → Bool → MsgIterator n → Option (Bool × MsgIterator n)
  | 0, _, _ => none
  | fuel + 1, carry, mip =>
    if mip.offset < mip.msg_onwire.length then
      let remain := mip.msg_onwire.length - mip.offset
      let val := (mip.msg_onwire.drop mip.offset).take (if remain < n then remain else n)
      let ms := crlfcompr n (Word.load n (Arena.ofBytes val)) carry
      let oword := if ms.v = 0 then mip.oword
        else mip.oword ||| ms.v.setWidth (8 * n) <<< mip.cshift
      let msg_copy := mip.msg_copy.writeAt mip.offset val
      let i := mip.i + BitVec.ofNat 32 n
      if mip.cshift = n * 7 then
        if oword ≠ 0 then
          some (true, { mip with msg_copy, oword, i, cshift := 0, carry := ms.carry })
        else breakDownLoop fuel ms.carry { mip with msg_copy, oword, i, cshift := 0 }
      else breakDownLoop fuel ms.carry { mip with msg_copy, oword, i, cshift := mip.cshift + n }
    else some (false, mip)

/-- `usipy_sip_msg_break_down` -/
def breakDown (mip : MsgIterator n) : Option (Int × MsgIterator n) :=
  if mip.cshift = 0 ∧ mip.oword ≠ 0 then some (gotresult mip)
  else do
    let (found, mip) ← breakDownLoop (mip.msg_onwire.length + 1) mip.carry mip
    if found then some (gotresult mip)
    else if mip.cshift ≠ 0 ∧ mip.oword ≠ 0 then
      some (gotresult { mip with i := mip.i + BitVec.ofNat 32 (n * 8 - mip.cshift), cshift := 0 })
    else some (-1, mip)

/-- What successive calls return. -/
def calls : Nat → MsgIterator n → Option (List Int × MsgIterator n)
  | 0, mip => some ([], mip)
  | k + 1, mip => do
    let (off, mip) ← mip.breakDown
    let (offs, mip) ← calls k mip
    some (off :: offs, mip)

end MsgIterator

/-! ## Byte by byte -/

/-- Whether a carriage return and a line feed stand at an offset. -/
def crlfAt (b : Bytes) (o : Nat) : Bool := b.getD o 0 = ch '\r' ∧ b.getD (o + 1) 0 = ch '\n'

/-- The offsets of the CRLF pairs from an offset on. -/
def crlfFrom (b : Bytes) (r : Nat) : List Nat :=
  (List.range' r (b.length - r)).filter (crlfAt b)

/-- The calls on a fresh iterator return the offsets of the CRLF pairs and then -1. When it returns
-1, the buffer has been copied and nothing else has changed. -/
def ScansAs (ws : WordSize) (b : Bytes) (copy : Arena) : Prop :=
  ∀ k, ∃ mip : MsgIterator ws.sizeof,
    ({ msg_onwire := b, msg_copy := copy } : MsgIterator ws.sizeof).calls k =
        some (((crlfFrom b 0).map Int.ofNat ++ List.replicate k (-1)).take k, mip) ∧
      (∀ j, b.length ≤ j → mip.msg_copy j = copy j) ∧
      ((crlfFrom b 0).length < k → ∀ j < b.length, mip.msg_copy j = b.getD j 0)

theorem crlfAt_lt {b : Bytes} {o : Nat} (h : crlfAt b o = true) : o + 1 < b.length := by
  by_contra hEnd
  have hNone : b.getD (o + 1) 0 = 0 := by
    rw [List.getD_eq_getElem?_getD, List.getElem?_eq_none (by omega)]
    rfl
  simp only [crlfAt, hNone, decide_eq_true_eq] at h
  exact absurd h.2 (by decide)

theorem crlfFrom_nil {b : Bytes} {r : Nat} (h : ∀ o, r ≤ o → crlfAt b o = false) :
    crlfFrom b r = [] := by
  refine List.filter_eq_nil_iff.mpr ?_
  intro o ho
  rw [h o (List.left_le_of_mem_range' ho)]
  decide

/-- The first pair, and the pairs after it. -/
theorem crlfFrom_cons {b : Bytes} {r o : Nat} (hFrom : r ≤ o) (hAt : crlfAt b o = true)
    (hFirst : ∀ o', r ≤ o' → o' < o → crlfAt b o' = false) :
    crlfFrom b r = o :: crlfFrom b (o + 1) := by
  have hLen := crlfAt_lt hAt
  have hRange : List.range' r (b.length - r) =
      List.range' r (o - r) ++ o :: List.range' (o + 1) (b.length - (o + 1)) := by
    have hSplit : b.length - r = (o - r) + ((b.length - (o + 1)) + 1) := by omega
    have hNext : r + (o - r) = o := by omega
    rw [hSplit, ← List.range'_append_1, hNext, List.range'_succ]
  have hNone : (List.range' r (o - r)).filter (crlfAt b) = [] := by
    refine List.filter_eq_nil_iff.mpr ?_
    intro o' ho'
    obtain ⟨hLow, hHigh⟩ := List.mem_range'_1.mp ho'
    rw [hFirst o' hLow (by omega)]
    decide
  rw [crlfFrom, hRange, List.filter_append, hNone, List.nil_append, List.filter_cons_of_pos hAt,
    crlfFrom]

/-! ## One word -/

/-- The loop of `crlfcompr` collects every mark: marks never stand in adjacent bytes, so half as many
passes as there are bytes are enough. -/
theorem getLsbD_crlfcomprLoop {n k : Nat} {x : BitVec (8 * n)} {v : BitVec 8}
    (hTop : ∀ i, x.getLsbD i = true → i % 8 = 7)
    (hApart : ∀ i, x.getLsbD i = true → x.getLsbD (i + 8) = false)
    (hLeft : ∀ i, x.getLsbD i = true → 8 * n ≤ i + 16 * k) {j : Nat} (hj : j < 8) :
    (crlfcomprLoop k x v).getLsbD j = (v.getLsbD j || x.getLsbD (8 * j + 7)) := by
  induction k generalizing x v with
  | zero =>
    have hNone : x.getLsbD (8 * j + 7) = false := by
      by_contra hSet
      have hBit : x.getLsbD (8 * j + 7) = true := by simpa using hSet
      have hEnd := hLeft _ hBit
      have hIn := BitVec.lt_of_getLsbD hBit
      omega
    rw [crlfcomprLoop, hNone, Bool.or_false]
  | succ k ih =>
    rw [crlfcomprLoop]
    by_cases hZero : x = 0
    · subst hZero
      simp [Word.ffs]
    · obtain ⟨p, hFfs, hSet, hLowest⟩ := Word.ffs_pos hZero
      have hp := hTop p hSet
      have hStep := @ih (x ^^^ 1#(8 * n) <<< p) (v ||| 1#8 <<< ((p + 1) / 8 - 1)) ?_ ?_ ?_
      · have hByte : (1#8 <<< ((p + 1) / 8 - 1)).getLsbD j = decide (8 * j + 7 = p) := by
          rw [← BitVec.twoPow_eq, BitVec.getLsbD_twoPow]
          by_cases hIs : 8 * j + 7 = p
          · have hPlace : (p + 1) / 8 - 1 = j := by omega
            simp [hIs, hPlace, hj]
          · have hPlace : ¬ (p + 1) / 8 - 1 = j := by omega
            simp [hIs, hPlace]
        have hNe : ¬ p + 1 = 0 := Nat.succ_ne_zero p
        simp only [hFfs, if_neg hNe, Nat.add_sub_cancel]
        rw [hStep, Word.getLsbD_clear hSet, BitVec.getLsbD_or, hByte]
        by_cases hIs : 8 * j + 7 = p
        · simp [hIs, hSet]
        · simp [hIs]
      · intro i hi
        rw [Word.getLsbD_clear hSet] at hi
        exact hTop i (Bool.and_eq_true _ _ ▸ hi).1
      · intro i hi
        rw [Word.getLsbD_clear hSet] at hi ⊢
        rw [hApart i (Bool.and_eq_true _ _ ▸ hi).1, Bool.false_and]
      · intro i hi
        rw [Word.getLsbD_clear hSet, Bool.and_eq_true, decide_eq_true_eq] at hi
        have hAbove : p < i := by
          by_contra hBelow
          have hClear := hLowest i (by omega)
          rw [hi.1] at hClear
          contradiction
        have hTopI := hTop i hi.1
        have hGap : i ≠ p + 8 := by
          rintro rfl
          have hClear := hApart p hSet
          rw [hi.1] at hClear
          contradiction
        have hEnd := hLeft p hSet
        omega

/-- The bytes that `crlfcompr` looks for zeros in. -/
def crlfByte (f : Nat → UInt8) (carry : Bool) (j : Nat) : UInt8 :=
  (if j = 0 then UInt8.ofNat (!carry).toNat else f (j - 1) ^^^ ch '\r') ||| (f j ^^^ ch '\n')

theorem crlfByte_eq_zero {f : Nat → UInt8} {carry : Bool} {j : Nat} :
    crlfByte f carry j = 0 ↔
      (if j = 0 then carry = true else f (j - 1) = ch '\r') ∧ f j = ch '\n' := by
  have hOr (x y : UInt8) : x ||| y = 0 ↔ x = 0 ∧ y = 0 := by
    constructor
    · intro h
      have hNat : x.toNat ||| y.toNat = 0 := by
        rw [← UInt8.toNat_or, h]
        rfl
      rw [Nat.or_eq_zero_iff] at hNat
      exact ⟨UInt8.toNat_inj.mp hNat.1, UInt8.toNat_inj.mp hNat.2⟩
    · rintro ⟨rfl, rfl⟩
      rfl
  rw [crlfByte, hOr, UInt8.xor_eq_zero_iff]
  split
  · cases carry <;> simp
  · rw [UInt8.xor_eq_zero_iff]

/-- After a line feed, the byte looked at has a bit of `'\n' ^ '\r'` set. -/
theorem two_le_crlfByte {f : Nat → UInt8} {carry : Bool} {j : Nat} (h : crlfByte f carry j = 0) :
    2 ≤ (crlfByte f carry (j + 1)).toNat := by
  obtain ⟨-, hLf⟩ := crlfByte_eq_zero.mp h
  have hSeven : (ch '\n' ^^^ ch '\r').toNat = 7 := by decide
  have hLe : (ch '\n' ^^^ ch '\r').toNat ≤
      ((ch '\n' ^^^ ch '\r').toNat ||| (f (j + 1) ^^^ ch '\n').toNat) := Nat.left_le_or
  rw [crlfByte, if_neg (Nat.succ_ne_zero j), Nat.add_sub_cancel, hLf, UInt8.toNat_or]
  omega

theorem bfill_eq {n : Nat} (hn : 0 < n) (c : UInt8) : bfill n c = Word.load n (fun _ => c) :=
  Word.load_const hn c

/-- The words `crlfcompr` is right for. -/
structure GoodSize (n : Nat) : Prop where
  pos : 0 < n
  le : n ≤ 8
  even : n % 2 = 0
  dvd : 2 ^ 31 % n = 0
  wide : 32 ≤ 8 * n

theorem WordSize.good (ws : WordSize) : GoodSize ws.sizeof := by
  cases ws <;> exact ⟨by decide, by decide, by decide, by decide, by decide⟩

/-- What `crlfcompr` finds in a word. -/
theorem crlfcompr_spec {n : Nat} (hSize : GoodSize n) (f : Nat → UInt8) (carry : Bool) {j : Nat}
    (hj : j < 8) :
    (crlfcompr n (Word.load n f) carry).v.getLsbD j =
      (decide (j < n) && decide ((if j = 0 then carry = true else f (j - 1) = ch '\r') ∧
        f j = ch '\n')) := by
  have hBoth : (Word.load n f ^^^ bfill n (ch '\r')) <<< 8 |||
      BitVec.ofNat (8 * n) (!carry).toNat ||| (Word.load n f ^^^ bfill n (ch '\n')) =
      Word.load n (crlfByte f carry) := by
    rw [bfill_eq hSize.pos, bfill_eq hSize.pos, Word.load_xor, Word.load_xor, Word.load_shift,
      Word.load_or]
    rfl
  have hMark := Word.getLsbD_zeroBytes (n := n) (fun j => @two_le_crlfByte f carry j)
  simp only [crlfcompr, hBoth]
  rw [bfill_eq hSize.pos, bfill_eq hSize.pos, getLsbD_crlfcomprLoop _ _ _ hj]
  · have hDiv : (8 * j + 7) / 8 = j := by omega
    have hMod : (8 * j + 7) % 8 = 7 := by omega
    have hIn : 8 * j + 7 < 8 * n ↔ j < n := by omega
    rw [hMark, hDiv, hMod]
    simp [hIn, crlfByte_eq_zero]
  · intro i hi
    rw [hMark] at hi
    simp only [Bool.and_eq_true, decide_eq_true_eq] at hi
    exact hi.1.2
  · intro i hi
    rw [hMark] at hi ⊢
    simp only [Bool.and_eq_true, decide_eq_true_eq] at hi
    have hDiv : (i + 8) / 8 = i / 8 + 1 := by omega
    have hNext := two_le_crlfByte hi.2
    have hNot : ¬ crlfByte f carry (i / 8 + 1) = 0 := by
      intro hZero
      rw [hZero] at hNext
      exact absurd hNext (by decide)
    rw [hDiv]
    simp [hNot]
  · intro i hi
    have hEven := hSize.even
    omega

theorem crlfcompr_carry {n : Nat} (hSize : GoodSize n) (f : Nat → UInt8) (carry : Bool) :
    (crlfcompr n (Word.load n f) carry).carry = decide (f (n - 1) = ch '\r') := by
  have hPos := hSize.pos
  simp only [crlfcompr]
  rw [decide_eq_decide, bfill_eq hPos, Word.load_xor, Word.eq_zero_iff]
  constructor
  · intro h
    rw [← UInt8.xor_eq_zero_iff]
    apply UInt8.toNat_inj.mp
    apply Nat.eq_of_testBit_eq
    intro k
    by_cases hk : k < 8
    · have hBit := h k
      have hDiv : ((n - 1) * 8 + k) / 8 = n - 1 := by omega
      have hMod : ((n - 1) * 8 + k) % 8 = k := by omega
      have hIn : (n - 1) * 8 + k < 8 * n := by omega
      rw [BitVec.getLsbD_ushiftRight, Word.getLsbD_load, hDiv, hMod] at hBit
      simpa [hIn] using hBit
    · have hBig : (f (n - 1) ^^^ ch '\r').toNat < 2 ^ k :=
        Nat.lt_of_lt_of_le (UInt8.toNat_lt _) (Nat.pow_le_pow_right (by decide) (by omega))
      rw [Nat.testBit_lt_two_pow hBig]
      simp
  · intro h k
    rw [BitVec.getLsbD_ushiftRight, Word.getLsbD_load]
    by_cases hk : k < 8
    · have hDiv : ((n - 1) * 8 + k) / 8 = n - 1 := by omega
      rw [hDiv, h]
      simp
    · have hOut : ¬ (n - 1) * 8 + k < 8 * n := by omega
      simp [hOut]

/-! ## A run over the buffer -/

/-- Whether a line feed after a carriage return stands at a place. -/
def lfAt (b : Bytes) (p : Nat) : Bool := decide (0 < p) && crlfAt b (p - 1)

theorem lfAt_succ (b : Bytes) (o : Nat) : lfAt b (o + 1) = crlfAt b o := by
  simp [lfAt]

theorem take_word {b : Bytes} {s n : Nat} :
    (b.drop s).take (if b.length - s < n then b.length - s else n) = (b.drop s).take n := by
  split
  · rw [List.take_of_length_le (by simp), List.take_of_length_le (by simp; omega)]
  · rfl

theorem ofBytes_word {b : Bytes} {s n j : Nat} (hj : j < n) :
    Arena.ofBytes ((b.drop s).take n) j = b.getD (s + j) 0 := by
  rw [Arena.ofBytes, List.getD_eq_getElem?_getD, List.getD_eq_getElem?_getD, List.getElem?_take,
    if_pos hj, List.getElem?_drop]

namespace MsgIterator

variable {n : Nat} {b : Bytes} {copy : Arena} {r s g : Nat} {carry : Bool} {mip : MsgIterator n}

theorem offset_of_i (hSize : GoodSize n) (hi : mip.i = BitVec.ofNat 32 s) (hs : s < 2 ^ 32) :
    (s < 2 ^ 31 ∧ mip.offset = s) ∨ (2 ^ 31 ≤ s ∧ mip.offset = s + (2 ^ (8 * n) - 2 ^ 32)) := by
  have hWide := hSize.wide
  have hPow : 2 ^ 32 ≤ 2 ^ (8 * n) := Nat.pow_le_pow_right (by decide) hWide
  have hNat : mip.i.toNat = s := by rw [hi, BitVec.toNat_ofNat, Nat.mod_eq_of_lt hs]
  have hOffset : mip.offset =
      s + if mip.i.msb = true then 2 ^ (8 * n) - 2 ^ 32 else 0 := by
    rw [offset, BitVec.toNat_signExtend, BitVec.toNat_setWidth, hNat, Nat.mod_eq_of_lt (by omega)]
  have hMsb : mip.i.msb = decide (2 ^ 31 ≤ s) := by rw [BitVec.msb_eq_decide, hNat]
  rcases Nat.lt_or_ge s (2 ^ 31) with hLow | hHigh
  · have hPositive : ¬ mip.i.msb = true := by simpa [hMsb] using hLow
    rw [hOffset, if_neg hPositive]
    exact Or.inl ⟨hLow, rfl⟩
  · have hNegative : mip.i.msb = true := by simpa [hMsb] using hHigh
    rw [hOffset, if_pos hNegative]
    exact Or.inr ⟨hHigh, rfl⟩

/-- The state of the loop: `s` bytes have been looked at, those from `g` on are in the word of
marks. -/
structure Scanned (b : Bytes) (copy : Arena) (g s : Nat) (carry : Bool) (mip : MsgIterator n) :
    Prop where
  onwire : mip.msg_onwire = b
  idx : mip.i = BitVec.ofNat 32 s
  group : g + mip.cshift = s
  room : mip.cshift + n ≤ 8 * n
  shift : mip.cshift % n = 0
  words : s % n = 0
  near : s ≤ b.length + 8 * n
  start : mip.cshift = 0 ∨ g ≤ b.length
  bits : ∀ k, mip.oword.getLsbD k = (decide (k < mip.cshift) && lfAt b (g + k))
  prev : s < b.length → carry = decide (0 < s ∧ b.getD (s - 1) 0 = ch '\r')
  copied : mip.msg_copy = copy.writeAt 0 (b.take s)

/-- The state between two calls: of the `8 * n` bytes before `s`, those still to be returned are in
the word of marks. Offsets below `r` have been returned. -/
structure Window (b : Bytes) (copy : Arena) (r s : Nat) (mip : MsgIterator n) : Prop where
  onwire : mip.msg_onwire = b
  idx : mip.i = BitVec.ofNat 32 s
  noShift : mip.cshift = 0
  words : s % n = 0
  near : s ≤ b.length + 8 * n
  ahead : r = 0 ∨ r < s
  bits : ∀ k, mip.oword.getLsbD k =
    (decide (k < 8 * n) && decide (r + 1 + 8 * n ≤ s + k) && lfAt b (s + k - 8 * n))
  earlier : ∀ o, r ≤ o → crlfAt b o = true → s ≤ o + 1 + 8 * n
  prev : s < b.length → mip.carry = decide (0 < s ∧ b.getD (s - 1) 0 = ch '\r')
  copied : mip.msg_copy = copy.writeAt 0 (b.take s)

/-- Nothing is left to do. -/
structure Finished (b : Bytes) (copy : Arena) (mip : MsgIterator n) : Prop where
  onwire : mip.msg_onwire = b
  atEnd : b.length ≤ mip.offset
  noMarks : mip.oword = 0
  copied : mip.msg_copy = copy.writeAt 0 b

theorem window_fresh : Window b copy 0 0 ({ msg_onwire := b, msg_copy := copy } : MsgIterator n) where
  onwire := rfl
  idx := rfl
  noShift := rfl
  words := Nat.zero_mod n
  near := Nat.zero_le _
  ahead := Or.inl rfl
  bits := by
    intro k
    by_cases hk : k < 8 * n
    · have hNot : ¬ 1 + 8 * n ≤ k := by omega
      simp [hNot]
    · simp [hk]
  earlier := fun _ _ _ => Nat.zero_le _
  prev := fun _ => by simp
  copied := by
    funext k
    simp [Arena.writeAt]

/-- One result is taken out of the word of marks. -/
theorem gotresult_spec (hSize : GoodSize n) (hLen : b.length ≤ 2 ^ 31)
    (hWin : Window b copy r s mip) (hMarks : mip.oword ≠ 0) :
    ∃ o : Nat, crlfFrom b r = o :: crlfFrom b (o + 1) ∧ mip.gotresult.1 = Int.ofNat o ∧
      Window b copy (o + 1) s mip.gotresult.2 := by
  obtain ⟨p, hFfs, hSet, hLowest⟩ := Word.ffs_pos hMarks
  have hBit := hWin.bits p
  rw [hSet] at hBit
  obtain ⟨⟨hIn, hFrom⟩, hLf⟩ : (p < 8 * n ∧ r + 1 + 8 * n ≤ s + p) ∧ lfAt b (s + p - 8 * n) = true := by
    simpa using hBit.symm
  obtain ⟨o, ho⟩ : ∃ o, s + p = o + 1 + 8 * n := ⟨s + p - 8 * n - 1, by omega⟩
  have hAt : crlfAt b o = true := by
    have hPlace : s + p - 8 * n = o + 1 := by omega
    rwa [hPlace, lfAt_succ] at hLf
  have hEnd := crlfAt_lt hAt
  have hFirst : ∀ o', r ≤ o' → o' < o → crlfAt b o' = false := by
    intro o' hr hLess
    by_contra hOther
    have hAt' : crlfAt b o' = true := by simpa using hOther
    have hWithin := hWin.earlier o' hr hAt'
    have hClear := hLowest (o' + 1 + 8 * n - s) (by omega)
    have hPlace : s + (o' + 1 + 8 * n - s) - 8 * n = o' + 1 := by omega
    have hLow : o' + 1 + 8 * n - s < 8 * n := by omega
    have hHigh : r + 1 + 8 * n ≤ s + (o' + 1 + 8 * n - s) := by omega
    rw [hWin.bits, hPlace, lfAt_succ, hAt'] at hClear
    simp [hLow, hHigh] at hClear
  have hValue : mip.i - BitVec.ofNat 32 (n * 8) + BitVec.ofNat 32 (Word.ffs mip.oword - 1) - 1 =
      BitVec.ofNat 32 o := by
    have hSmall := hSize.le
    have hNear := hWin.near
    have hOne : (1 : BitVec 32).toNat = 1 := rfl
    apply BitVec.eq_of_toNat_eq
    rw [hFfs, hWin.idx]
    simp only [BitVec.toNat_sub, BitVec.toNat_add, BitVec.toNat_ofNat, Nat.add_sub_cancel, hOne]
    omega
  refine ⟨o, crlfFrom_cons (by omega) hAt hFirst, ?_, ?_⟩
  · rw [gotresult]
    simp only [hValue]
    have hNat : (BitVec.ofNat 32 o).toNat = o := by
      rw [BitVec.toNat_ofNat, Nat.mod_eq_of_lt (by omega)]
    rw [BitVec.toInt_eq_toNat_of_lt (by omega), hNat]
    rfl
  · refine ⟨hWin.onwire, hWin.idx, hWin.noShift, hWin.words, hWin.near, Or.inr (by omega), ?_, ?_,
      hWin.prev, hWin.copied⟩
    · intro k
      simp only [gotresult, hFfs, Nat.add_sub_cancel]
      rw [Word.getLsbD_clear hSet, hWin.bits]
      by_cases hk : k < 8 * n
      · by_cases hIs : k = p
        · subst hIs
          have hNot : ¬ o + 1 + 1 + 8 * n ≤ s + k := by omega
          simp [hNot]
        · by_cases hHigh : o + 1 + 1 + 8 * n ≤ s + k
          · have hOld : r + 1 + 8 * n ≤ s + k := by omega
            simp [hIs, hHigh, hOld]
          · have hBelow : mip.oword.getLsbD k = false := hLowest k (by omega)
            rw [hWin.bits] at hBelow
            simp only [hk, decide_true, Bool.true_and] at hBelow ⊢
            simp [hBelow, hHigh]
      · simp [hk]
    · intro o' hr hAt'
      exact hWin.earlier o' (by omega) hAt'

/-- The marks of one word. -/
theorem getLsbD_word (hSize : GoodSize n) (hPrev : carry = decide (0 < s ∧ b.getD (s - 1) 0 = ch '\r'))
    {j : Nat} :
    (crlfcompr n (Word.load n (Arena.ofBytes ((b.drop s).take n))) carry).v.getLsbD j =
      (decide (j < n) && lfAt b (s + j)) := by
  by_cases hj : j < n
  · have hSmall := hSize.le
    rw [crlfcompr_spec hSize _ _ (by omega), ofBytes_word hj, hPrev, lfAt, crlfAt]
    cases j with
    | zero =>
      by_cases hs : 0 < s
      · have hBack : s - 1 + 1 = s := by omega
        simp [hj, hs, hBack]
      · simp [hs]
    | succ j =>
      have hBack : s + (j + 1) - 1 = s + j := by omega
      rw [Nat.add_sub_cancel, ofBytes_word (by omega), hBack]
      simp [hj, Nat.add_assoc]
  · by_cases h8 : j < 8
    · rw [crlfcompr_spec hSize _ _ h8]
      simp [hj]
    · rw [BitVec.getLsbD_of_ge _ _ (by omega)]
      simp [hj]

/-- The word of marks after one more word. -/
theorem getLsbD_oword {x : BitVec (8 * n)} {v : BitVec 8} {c k : Nat} :
    (if v = 0 then x else x ||| v.setWidth (8 * n) <<< c).getLsbD k =
      (x.getLsbD k || (decide (k < 8 * n) && decide (c ≤ k) && v.getLsbD (k - c))) := by
  split
  · rename_i hZero
    subst hZero
    simp
  · rw [BitVec.getLsbD_or, BitVec.getLsbD_shiftLeft, BitVec.getLsbD_setWidth]
    by_cases hk : k < 8 * n
    · by_cases hc : c ≤ k
      · have hNot : ¬ k < c := by omega
        have hIn : k - c < 8 * n := by omega
        simp [hk, hc, hNot, hIn]
      · have hBelow : k < c := by omega
        simp [hc, hBelow]
    · simp [hk]

/-- One pass of the loop. -/
theorem Scanned.step (hSize : GoodSize n) (hScan : Scanned b copy g s carry mip) (hs : s < b.length)
    (k : Nat) :
    (let ms := crlfcompr n (Word.load n (Arena.ofBytes ((b.drop s).take n))) carry
     (if ms.v = 0 then mip.oword else mip.oword ||| ms.v.setWidth (8 * n) <<< mip.cshift).getLsbD k =
      (decide (k < mip.cshift + n) && lfAt b (g + k)) ∧
     ms.carry = decide (0 < s + n ∧ b.getD (s + n - 1) 0 = ch '\r') ∧
     mip.msg_copy.writeAt s ((b.drop s).take n) = copy.writeAt 0 (b.take (s + n))) := by
  have hRoom := hScan.room
  have hGroup := hScan.group
  have hPos := hSize.pos
  refine ⟨?_, ?_, ?_⟩
  · rw [getLsbD_oword, hScan.bits, getLsbD_word hSize (hScan.prev hs)]
    by_cases hOld : k < mip.cshift
    · have hNot : ¬ mip.cshift ≤ k := by omega
      have hNew : k < mip.cshift + n := by omega
      simp [hOld, hNot, hNew]
    · have hAfter : mip.cshift ≤ k := by omega
      have hPlace : s + (k - mip.cshift) = g + k := by omega
      by_cases hNew : k < mip.cshift + n
      · have hIn : k < 8 * n := by omega
        have hWord : k - mip.cshift < n := by omega
        simp [hOld, hAfter, hPlace, hNew, hIn, hWord]
      · have hWord : ¬ k - mip.cshift < n := by omega
        simp [hOld, hNew, hWord]
  · have hPlace : s + n - 1 = s + (n - 1) := by omega
    have hSum : 0 < s + n := by omega
    rw [crlfcompr_carry hSize, ofBytes_word (by omega), hPlace]
    simp [hSum]
  · have hSplit : b.take (s + n) = b.take s ++ (b.drop s).take n := List.take_add
    have hStart : s = 0 + (b.take s).length := by
      rw [List.length_take]
      omega
    rw [hScan.copied, hSplit, ← Arena.writeAt_append, ← hStart]

/-- The loop goes on until a group of words has marks or the buffer ends. -/
theorem breakDownLoop_spec (hSize : GoodSize n) (hLen : b.length ≤ 2 ^ 31) {fuel : Nat}
    (hFuel : b.length - s < fuel) (hScan : Scanned b copy g s carry mip)
    (hEarlier : ∀ o, r ≤ o → crlfAt b o = true → g ≤ o + 1) (hAhead : r = 0 ∨ r < g) :
    (∃ s' mip', breakDownLoop fuel carry mip = some (true, mip') ∧ Window b copy r s' mip' ∧
        mip'.oword ≠ 0) ∨
      ∃ g' s' carry' mip', breakDownLoop fuel carry mip = some (false, mip') ∧
        Scanned b copy g' s' carry' mip' ∧ b.length ≤ s' ∧
        (∀ o, r ≤ o → crlfAt b o = true → g' ≤ o + 1) ∧ (r = 0 ∨ r < g') := by
  induction fuel generalizing g s carry mip with
  | zero => omega
  | succ fuel ih =>
    have hSmall := hSize.le
    have hPos := hSize.pos
    have hNear := hScan.near
    have hOffset := offset_of_i hSize hScan.idx (by omega)
    rw [breakDownLoop]
    rcases Nat.lt_or_ge s b.length with hs | hs
    · have hAt : mip.offset = s := by omega
      have hIn : mip.offset < mip.msg_onwire.length := by rw [hAt, hScan.onwire]; exact hs
      have hGroup := hScan.group
      have hRoom := hScan.room
      have hIdx : mip.i + BitVec.ofNat 32 n = BitVec.ofNat 32 (s + n) := by
        rw [hScan.idx, BitVec.ofNat_add]
      have hWords : (s + n) % n = 0 := by rw [Nat.add_mod_right, hScan.words]
      rw [if_pos hIn]
      simp only [hAt, hScan.onwire, take_word]
      obtain ⟨-, hCarry, hCopy⟩ := hScan.step hSize hs 0
      have hBits := fun k => (hScan.step hSize hs k).1
      generalize (if (crlfcompr n (Word.load n (Arena.ofBytes ((b.drop s).take n))) carry).v = 0 then
        mip.oword else mip.oword ||| (crlfcompr n (Word.load n (Arena.ofBytes ((b.drop s).take n)))
          carry).v.setWidth (8 * n) <<< mip.cshift) = oword at hBits ⊢
      split
      · rename_i hFull
        have hEnd : s + n = g + 8 * n := by omega
        split
        · rename_i hMarks
          refine Or.inl ⟨s + n, _, rfl, ?_, hMarks⟩
          refine ⟨rfl, hIdx, rfl, hWords, by omega, by omega, ?_, ?_, fun _ => hCarry, hCopy⟩
          · intro k
            have hPlace : s + n + k - 8 * n = g + k := by omega
            have hSame : mip.cshift + n = 8 * n := by omega
            rw [hBits, hPlace, hSame]
            by_cases hFrom : r + 1 + 8 * n ≤ s + n + k
            · simp [hFrom]
            · have hStart : lfAt b (g + k) = false := by
                have hZero : g + k = 0 := by omega
                rw [hZero]
                rfl
              simp [hStart]
          · intro o hr hAtO
            have hLow := hEarlier o hr hAtO
            omega
        · rename_i hMarks
          have hNone : ∀ k, k < 8 * n → lfAt b (g + k) = false := by
            intro k hk
            have hBit := hBits k
            rw [not_not.mp hMarks] at hBit
            have hSame : mip.cshift + n = 8 * n := by omega
            simpa [hSame, hk] using hBit.symm
          have hEmpty : 0 + n ≤ 8 * n := by omega
          refine ih (g := s + n) (s := s + n) (by omega) ⟨rfl, hIdx, rfl, hEmpty, Nat.zero_mod n, hWords, by omega,
            Or.inl rfl, ?_, fun _ => hCarry, hCopy⟩ ?_ (by omega)
          · intro k
            rw [not_not.mp hMarks]
            simp
          · intro o hr hAtO
            have hLow := hEarlier o hr hAtO
            by_contra hBefore
            have hClear := hNone (o + 1 - g) (by omega)
            have hPlace : g + (o + 1 - g) = o + 1 := by omega
            rw [hPlace, lfAt_succ, hAtO] at hClear
            contradiction
      · rename_i hFull
        have hMore : mip.cshift + n + n ≤ 8 * n := by
          obtain ⟨q, hq⟩ := Nat.dvd_of_mod_eq_zero hScan.shift
          have hLe : q + 1 ≤ 8 := by
            by_contra hBig
            have hMul : n * 8 ≤ n * q := Nat.mul_le_mul_left n (by omega)
            omega
          have hNe : q ≠ 7 := by
            rintro rfl
            exact hFull hq
          have hMul : n * q ≤ n * 6 := Nat.mul_le_mul_left n (by omega)
          omega
        have hShift : (mip.cshift + n) % n = 0 := by rw [Nat.add_mod_right, hScan.shift]
        have hShifted : g + (mip.cshift + n) = s + n := by omega
        exact ih (by omega) ⟨rfl, hIdx, hShifted, hMore, hShift, hWords, by omega,
          Or.inr (by omega), hBits, fun _ => hCarry, hCopy⟩ hEarlier hAhead
    · have hOut : ¬ mip.offset < mip.msg_onwire.length := by
        rw [hScan.onwire]
        omega
      rw [if_neg hOut]
      exact Or.inr ⟨g, s, carry, mip, rfl, hScan, hs, hEarlier, hAhead⟩

/-- The marks left at the end of the buffer are moved to where a whole group would have them. -/
theorem Scanned.flush (hSize : GoodSize n) (hScan : Scanned b copy g s carry mip)
    (hAll : b.length ≤ s) (hShift : mip.cshift ≠ 0)
    (hEarlier : ∀ o, r ≤ o → crlfAt b o = true → g ≤ o + 1) (hAhead : r = 0 ∨ r < g) :
    Window b copy r (g + 8 * n)
      { mip with i := mip.i + BitVec.ofNat 32 (n * 8 - mip.cshift), cshift := 0 } := by
  have hGroup := hScan.group
  have hRoom := hScan.room
  have hPos := hSize.pos
  have hStart := hScan.start
  have hPast : ∀ p, b.length ≤ p → lfAt b p = false := by
    intro p hp
    by_contra hOther
    have hLf : lfAt b p = true := by simpa using hOther
    obtain ⟨hSome, hAt⟩ : 0 < p ∧ crlfAt b (p - 1) = true := by simpa [lfAt] using hLf
    have hEnd := crlfAt_lt hAt
    omega
  refine ⟨hScan.onwire, ?_, rfl, ?_, by omega, by omega, ?_, ?_, by omega, ?_⟩
  · have hSum : s + (n * 8 - mip.cshift) = g + 8 * n := by omega
    rw [hScan.idx, ← BitVec.ofNat_add, hSum]
  · have hDvd : n ∣ g := by
      rw [← Nat.dvd_add_left (Nat.dvd_of_mod_eq_zero hScan.shift), hGroup]
      exact Nat.dvd_of_mod_eq_zero hScan.words
    rw [Nat.mul_comm, Nat.add_mul_mod_self_left, Nat.mod_eq_zero_of_dvd hDvd]
  · intro k
    have hPlace : g + 8 * n + k - 8 * n = g + k := by omega
    rw [hScan.bits, hPlace]
    by_cases hIn : k < mip.cshift
    · have hLow : k < 8 * n := by omega
      by_cases hFrom : r + 1 + 8 * n ≤ g + 8 * n + k
      · simp [hIn, hLow, hFrom]
      · have hZero : g + k = 0 := by omega
        rw [hZero]
        simp [lfAt]
    · rw [hPast (g + k) (by omega)]
      simp
  · intro o hr hAt
    have hLow := hEarlier o hr hAt
    omega
  · rw [hScan.copied, List.take_of_length_le hAll, List.take_of_length_le (by omega)]

theorem Scanned.noMarks (hScan : Scanned b copy g s carry mip)
    (hFlush : ¬ (mip.cshift ≠ 0 ∧ mip.oword ≠ 0)) : mip.oword = 0 := by
  by_contra hMarks
  have hShift : mip.cshift = 0 := by
    by_contra hNe
    exact hFlush ⟨hNe, hMarks⟩
  refine hMarks (Word.eq_zero_iff.mpr fun k => ?_)
  rw [hScan.bits, hShift]
  simp

theorem Scanned.finished (hSize : GoodSize n) (hLen : b.length ≤ 2 ^ 31)
    (hScan : Scanned b copy g s carry mip) (hAll : b.length ≤ s) (hNone : mip.oword = 0) :
    Finished b copy mip := by
  have hSmall := hSize.le
  have hNear := hScan.near
  have hOffset := offset_of_i hSize hScan.idx (by omega)
  refine ⟨hScan.onwire, by omega, hNone, ?_⟩
  rw [hScan.copied, List.take_of_length_le hAll]

/-- One call. -/
theorem breakDown_spec (hSize : GoodSize n) (hLen : b.length ≤ 2 ^ 31) (hWin : Window b copy r s mip) :
    (∃ o s' mip', crlfFrom b r = o :: crlfFrom b (o + 1) ∧ mip.breakDown = some (Int.ofNat o, mip') ∧
        Window b copy (o + 1) s' mip') ∨
      ∃ mip', crlfFrom b r = [] ∧ mip.breakDown = some (-1, mip') ∧ Finished b copy mip' := by
  have hSmall := hSize.le
  have hPos := hSize.pos
  by_cases hMarks : mip.oword = 0
  · have hTest : ¬ (mip.cshift = 0 ∧ mip.oword ≠ 0) := fun h => h.2 hMarks
    have hEarlier : ∀ o, r ≤ o → crlfAt b o = true → s ≤ o + 1 := by
      intro o hr hAt
      have hWithin := hWin.earlier o hr hAt
      by_contra hBefore
      have hBit := hWin.bits (o + 1 + 8 * n - s)
      have hPlace : s + (o + 1 + 8 * n - s) - 8 * n = o + 1 := by omega
      have hIn : o + 1 + 8 * n - s < 8 * n := by omega
      have hFrom : r + 1 + 8 * n ≤ s + (o + 1 + 8 * n - s) := by omega
      rw [hMarks, hPlace, lfAt_succ, hAt] at hBit
      simp [hIn, hFrom] at hBit
    have hScan : Scanned b copy s s mip.carry mip :=
      ⟨hWin.onwire, hWin.idx, by rw [hWin.noShift, Nat.add_zero], by rw [hWin.noShift]; omega,
        by rw [hWin.noShift, Nat.zero_mod], hWin.words, hWin.near, Or.inl hWin.noShift, by
          intro k
          simp [hMarks, hWin.noShift], hWin.prev, hWin.copied⟩
    rw [breakDown, if_neg hTest, hWin.onwire]
    rcases breakDownLoop_spec hSize hLen (Nat.lt_succ_of_le (Nat.sub_le _ s)) hScan hEarlier
      hWin.ahead with ⟨s', mip', hLoop, hNext, hSome⟩ | ⟨g', s', carry', mip', hLoop, hEnd, hAll, hLate,
        hAhead⟩
    · obtain ⟨o, hList, hValue, hLeft⟩ := gotresult_spec hSize hLen hNext hSome
      refine Or.inl ⟨o, s', mip'.gotresult.2, hList, ?_, hLeft⟩
      simp only [hLoop, Option.bind_eq_bind, Option.bind_some, if_true, ← hValue]
    · simp only [hLoop, Option.bind_eq_bind, Option.bind_some, Bool.false_eq_true, if_false]
      split
      · rename_i hFlush
        have hNext := hEnd.flush hSize hAll hFlush.1 hLate hAhead
        obtain ⟨o, hList, hValue, hLeft⟩ := gotresult_spec hSize hLen hNext hFlush.2
        refine Or.inl ⟨o, _, _, hList, ?_, hLeft⟩
        rw [← hValue]
      · rename_i hFlush
        have hNone := hEnd.noMarks hFlush
        refine Or.inr ⟨mip', crlfFrom_nil ?_, rfl, hEnd.finished hSize hLen hAll hNone⟩
        intro o hr
        by_contra hOther
        have hAt : crlfAt b o = true := by simpa using hOther
        have hLow := hLate o hr hAt
        have hHigh := crlfAt_lt hAt
        have hGroup := hEnd.group
        have hBit := hEnd.bits (o + 1 - g')
        have hPlace : g' + (o + 1 - g') = o + 1 := by omega
        have hIn : o + 1 - g' < mip'.cshift := by omega
        rw [hNone, hPlace, lfAt_succ, hAt] at hBit
        simp [hIn] at hBit
  · obtain ⟨o, hList, hValue, hNext⟩ := gotresult_spec hSize hLen hWin hMarks
    refine Or.inl ⟨o, s, mip.gotresult.2, hList, ?_, hNext⟩
    rw [breakDown, if_pos ⟨hWin.noShift, hMarks⟩, ← hValue]

theorem Finished.breakDown (hDone : Finished b copy mip) : mip.breakDown = some (-1, mip) := by
  have hTest : ¬ (mip.cshift = 0 ∧ mip.oword ≠ 0) := fun h => h.2 hDone.noMarks
  have hFlush : ¬ (mip.cshift ≠ 0 ∧ mip.oword ≠ 0) := fun h => h.2 hDone.noMarks
  have hOut : ¬ mip.offset < mip.msg_onwire.length := by
    rw [hDone.onwire]
    exact Nat.not_lt.mpr hDone.atEnd
  rw [MsgIterator.breakDown, if_neg hTest, breakDownLoop, if_neg hOut]
  simp only [Option.bind_eq_bind, Option.bind_some, Bool.false_eq_true, if_false, if_neg hFlush]

theorem Finished.calls (hDone : Finished b copy mip) (k : Nat) :
    mip.calls k = some (List.replicate k (-1), mip) := by
  induction k with
  | zero => rfl
  | succ k ih =>
    simp only [MsgIterator.calls, hDone.breakDown, ih, Option.bind_eq_bind, Option.bind_some,
      List.replicate_succ]

/-- A run of calls. -/
theorem calls_spec (hSize : GoodSize n) (hLen : b.length ≤ 2 ^ 31) (hWin : Window b copy r s mip)
    (k : Nat) :
    ∃ mip', mip.calls k =
        some (((crlfFrom b r).map Int.ofNat ++ List.replicate k (-1)).take k, mip') ∧
      ((∃ r' s', Window b copy r' s' mip') ∧ k ≤ (crlfFrom b r).length ∨
        Finished b copy mip' ∧ (crlfFrom b r).length < k) := by
  induction k generalizing r s mip with
  | zero => exact ⟨mip, rfl, Or.inl ⟨⟨r, s, hWin⟩, Nat.zero_le _⟩⟩
  | succ k ih =>
    rcases breakDown_spec hSize hLen hWin with ⟨o, s', mip', hList, hCall, hNext⟩ |
      ⟨mip', hList, hCall, hDone⟩
    · obtain ⟨mip'', hCalls, hState⟩ := ih hNext
      refine ⟨mip'', ?_, ?_⟩
      · have hTake : (((crlfFrom b (o + 1)).map Int.ofNat) ++ List.replicate (k + 1) (-1)).take k =
            (((crlfFrom b (o + 1)).map Int.ofNat) ++ List.replicate k (-1)).take k := by
          rw [List.replicate_succ', ← List.append_assoc, List.take_append_of_le_length (by simp)]
        simp only [calls, hCall, hCalls, Option.bind_eq_bind, Option.bind_some, hList, List.map_cons,
          List.cons_append, List.take_succ_cons, hTake]
      · rw [hList, List.length_cons]
        exact hState.imp (fun h => ⟨h.1, Nat.succ_le_succ h.2⟩) (fun h => ⟨h.1, Nat.succ_lt_succ h.2⟩)
    · refine ⟨mip', ?_, Or.inr ⟨hDone, by rw [hList]; exact Nat.succ_pos k⟩⟩
      simp only [calls, hCall, hDone.calls, Option.bind_eq_bind, Option.bind_some, hList, List.map_nil,
        List.nil_append, List.replicate_succ, List.take_succ_cons]
      simp

end MsgIterator

/-- A buffer whose offsets an `int` holds is scanned as if byte by byte. -/
theorem breakDown_scans (ws : WordSize) (b : Bytes) (copy : Arena) (hLen : b.length ≤ 2 ^ 31) :
    ScansAs ws b copy := by
  intro k
  obtain ⟨mip, hCalls, hState⟩ := MsgIterator.calls_spec ws.good hLen
    (MsgIterator.window_fresh (n := ws.sizeof) (b := b)) k
  refine ⟨mip, hCalls, ?_, ?_⟩
  · intro j hj
    obtain ⟨s, hCopied⟩ : ∃ s, mip.msg_copy = copy.writeAt 0 (b.take s) := by
      rcases hState with ⟨⟨r, s, hWin⟩, -⟩ | ⟨hDone, -⟩
      · exact ⟨s, hWin.copied⟩
      · exact ⟨b.length, by rw [hDone.copied, List.take_length]⟩
    rw [hCopied, Arena.writeAt, if_neg]
    rw [List.length_take]
    omega
  · intro hMany j hj
    rcases hState with ⟨-, hFew⟩ | ⟨hDone, -⟩
    · omega
    · rw [hDone.copied, Arena.writeAt, if_pos (by omega), Nat.sub_zero]

theorem breakDown_scans_line : ScansAs .lp64 (bytes "a\r\nb") .zero :=
  breakDown_scans .lp64 (bytes "a\r\nb") .zero (by decide)

/-- With an `int` index nothing past the first 2^31 bytes is copied. -/
theorem MsgIterator.breakDownLoop_stops {fuel s : Nat} {carry found : Bool} {mip mip' : MsgIterator 8}
    (hi : mip.i = BitVec.ofNat 32 s) (hWords : s % 8 = 0) (hs : s ≤ 2 ^ 31)
    (hLen : mip.msg_onwire.length = 2 ^ 31 + 1)
    (hLoop : breakDownLoop fuel carry mip = some (found, mip')) :
    mip'.msg_copy (2 ^ 31) = mip.msg_copy (2 ^ 31) := by
  induction fuel generalizing s carry mip with
  | zero => cases hLoop
  | succ fuel ih =>
    have hOffset := offset_of_i WordSize.lp64.good hi (by omega)
    simp only [WordSize.sizeof] at hOffset
    rw [breakDownLoop] at hLoop
    split at hLoop
    · rename_i hIn
      have hAt : mip.offset = s ∧ s < 2 ^ 31 := by omega
      have hNext : mip.i + BitVec.ofNat 32 8 = BitVec.ofNat 32 (s + 8) := by
        rw [hi, BitVec.ofNat_add]
      have hKept : (mip.msg_copy.writeAt mip.offset ((mip.msg_onwire.drop mip.offset).take 8))
          (2 ^ 31) = mip.msg_copy (2 ^ 31) := by
        rw [Arena.writeAt, if_neg]
        rw [hAt.1, List.length_take]
        omega
      simp only [take_word] at hLoop
      generalize crlfcompr 8 _ carry = ms at hLoop
      split at hLoop
      · generalize (if ms.v = 0 then mip.oword else _) = oword at hLoop
        split at hLoop
        · obtain ⟨-, rfl⟩ := Prod.mk.inj (Option.some.inj hLoop)
          exact hKept
        · exact (ih (by exact hNext) (by omega) (by omega) (by exact hLen) hLoop).trans hKept
      · exact (ih (by exact hNext) (by omega) (by omega) (by exact hLen) hLoop).trans hKept
    · cases hLoop
      rfl

theorem MsgIterator.breakDown_stops {s : Nat} {off : Int} {mip mip' : MsgIterator 8}
    (hi : mip.i = BitVec.ofNat 32 s) (hWords : s % 8 = 0) (hs : s ≤ 2 ^ 31)
    (hLen : mip.msg_onwire.length = 2 ^ 31 + 1) (hCall : mip.breakDown = some (off, mip')) :
    mip'.msg_copy (2 ^ 31) = mip.msg_copy (2 ^ 31) := by
  rw [breakDown] at hCall
  split at hCall
  · obtain ⟨-, rfl⟩ := Prod.mk.inj (Option.some.inj hCall)
    rfl
  · simp only [Option.bind_eq_bind, Option.bind_eq_some_iff] at hCall
    obtain ⟨⟨found, mip₁⟩, hLoop, hEnd⟩ := hCall
    have hStops := breakDownLoop_stops hi hWords hs hLen hLoop
    split at hEnd
    · obtain ⟨-, rfl⟩ := Prod.mk.inj (Option.some.inj hEnd)
      exact hStops
    · split at hEnd <;> obtain ⟨-, rfl⟩ := Prod.mk.inj (Option.some.inj hEnd) <;> exact hStops

/-- The last byte of 2^31 + 1 bytes of zeros is never copied. -/
theorem not_scansAs_long : ¬ ScansAs .lp64 (List.replicate (2 ^ 31 + 1) 0) (fun _ => 1) := by
  intro hScans
  obtain ⟨mip, hCalls, -, hCopied⟩ := hScans 1
  have hNone : crlfFrom (List.replicate (2 ^ 31 + 1) 0) 0 = [] := by
    refine crlfFrom_nil fun o _ => ?_
    have hZero : (List.replicate (2 ^ 31 + 1) (0 : UInt8)).getD o 0 = 0 := by
      rw [List.getD_eq_getElem?_getD, List.getElem?_replicate]
      split <;> rfl
    rw [crlfAt, hZero]
    simp only [decide_eq_false_iff_not, not_and]
    intro hCr
    exact absurd hCr (by decide)
  have hLast := hCopied (by rw [hNone]; exact Nat.one_pos) (2 ^ 31) (by rw [List.length_replicate]; omega)
  have hByte : (List.replicate (2 ^ 31 + 1) (0 : UInt8)).getD (2 ^ 31) 0 = 0 := by
    rw [List.getD_eq_getElem?_getD, List.getElem?_replicate]
    split <;> rfl
  have hKept : mip.msg_copy (2 ^ 31) = 1 := by
    simp only [MsgIterator.calls, Option.bind_eq_bind, Option.bind_eq_some_iff, Option.some.injEq,
      Prod.mk.injEq] at hCalls
    obtain ⟨⟨off, mip₁⟩, hCall, ⟨offs, mip₂⟩, ⟨-, rfl⟩, -, rfl⟩ := hCalls
    exact MsgIterator.breakDown_stops (s := 0) rfl rfl (Nat.zero_le _) List.length_replicate hCall
  rw [hByte, hKept] at hLast
  exact absurd hLast (by decide)

end Microsippy
