import Microsippy.HdrDb
import Microsippy.Lib.Word

/-! # Comparing without case

`turbo_casebcmp` compares words at a time, the last of them overlapping the one before, and is to agree
with a comparison byte by byte.
-/

namespace Microsippy

set_option autoImplicit false

namespace Turbo

/-! ## The bytes of a lowered word -/

/-- A byte, lowered when it is one of `A` to `Z`. -/
def lower (b : UInt8) : UInt8 := if 65 ≤ b ∧ b ≤ 90 then b + 32 else b

/-- The marked bytes of `markbetween`, one by one. -/
def markByte (b : UInt8) : UInt8 := (218 - (b &&& 127)) &&& ~~~b &&& ((b &&& 127) + 63) &&& 128

theorem byte_facts (b : UInt8) :
    (218 : UInt8).toNat = (218 - (b &&& 127)).toNat + (b &&& 127).toNat ∧
      ((b &&& 127) + 63).toNat = (b &&& 127).toNat + (63 : UInt8).toNat ∧
      (markByte b).toNat = 2 ^ 2 * (markByte b >>> 2).toNat ∧ b ||| markByte b >>> 2 = lower b := by
  revert b
  apply forall_byte
  decide +kernel

theorem load_eq (k : Nat) (s : Bytes) (off : Nat) :
    load k s off = Word.load k (fun j => Arena.ofBytes s (off + j)) := by
  have hFold : ∀ (n off : Nat), ((Arena.ofBytes s).readAt off n).foldr
      (fun b acc => b.toNat + 256 * acc) 0 = Word.ofLe n (fun j => Arena.ofBytes s (off + j)) := by
    intro n
    induction n with
    | zero => intro off; rfl
    | succ n ih =>
      intro off
      have hNext : (fun j => Arena.ofBytes s (off + (j + 1))) =
          fun j => Arena.ofBytes s (off + 1 + j) := by
        funext j
        rw [Nat.add_assoc, Nat.add_comm 1 j]
      rw [Arena.readAt, List.foldr_cons, ih, Word.ofLe, hNext]
      rfl
  rw [load, hFold, Word.load]

theorem tolower_load {k : Nat} (hk : 0 < k) (f : Nat → UInt8) :
    tolower k (Word.load k f) = Word.load k (fun j => lower (f j)) := by
  have h218 := Word.load_const hk 218
  have h127 := Word.load_const hk 127
  have h63 := Word.load_const hk 63
  have h128 := Word.load_const hk 128
  have hSub : Word.load k (fun _ => 218) - Word.load k (fun j => f j &&& 127) =
      Word.load k (fun j => 218 - (f j &&& 127)) :=
    @Word.load_sub k _ _ _ (fun _ => 0) rfl fun j _ => (byte_facts (f j)).1
  have hAdd : Word.load k (fun j => f j &&& 127) + Word.load k (fun _ => 63) =
      Word.load k (fun j => (f j &&& 127) + 63) :=
    Word.load_add fun j _ => (byte_facts (f j)).2.1
  have hMark : markbetween k (Word.load k f) (65 - 1) (90 + 1) = Word.load k (fun j => markByte (f j)) := by
    simp only [markbetween]
    erw [h127, h218, h63, h128]
    rw [Word.load_and, hSub, hAdd, Word.load_not, Word.load_and, Word.load_and, Word.load_and]
    rfl
  rw [tolower, hMark, Word.load_shiftRight fun j => (byte_facts (f j)).2.2.1, Word.load_or]
  exact Word.load_congr fun j _ => (byte_facts (f j)).2.2.2

/-- Lowered words are equal when their lowered bytes are. -/
theorem tolower_eq_iff {k : Nat} (hk : 0 < k) (s1 s2 : Bytes) (off : Nat) :
    tolower k (load k s1 off) = tolower k (load k s2 off) ↔
      ∀ j < k, lower (Arena.ofBytes s1 (off + j)) = lower (Arena.ofBytes s2 (off + j)) := by
  rw [load_eq, load_eq, tolower_load hk, tolower_load hk, Word.load_eq_iff]

/-! ## Reads inside the strings -/

/-- The word of `k` bytes at an offset of a string it is inside of. -/
def loadIn (k : Nat) (s : Bytes) (off : Nat) : Option (BitVec (8 * k)) :=
  if off + k ≤ s.length then some (load k s off) else none

/-- `FASTCASEBCMP_LOOP` again, `none` as soon as a read is not inside its string. -/
def loopIn (k : Nat) (s1 s2 : Bytes) : Nat → Nat → Nat → Option LoopEnd
  | 0, off, len => some (.next off len)
  | fuel + 1, off, len =>
    if len < k then some (.next off len)
    else do
      let wrd1 ← loadIn k s1 off
      let wrd2 ← loadIn k s2 off
      if tolower k wrd1 ≠ tolower k wrd2 then some (.done 1)
      else if len - k = 0 then some (.done 0)
      else if len - k < k then loopIn k s1 s2 fuel (off + k - (k - (len - k))) k
      else loopIn k s1 s2 fuel (off + k) (len - k)

/-- The loops still to run, `none` where a read is not inside its string. -/
def loopsIn (s1 s2 : Bytes) : List Nat → Nat → Nat → Option Nat
  | [], _, _ => some 0
  | k :: ks, off, len =>
    match loopIn k s1 s2 (len + 1) off len with
    | none => none
    | some (.done r) => some r
    | some (.next off len) => loopsIn s1 s2 ks off len

/-- `turbo_casebcmp` where `long` has that many bytes, `none` where it reads outside a string. -/
def casebcmpIn (long : Nat) (s1 s2 : Bytes) (len : Nat) : Option Nat :=
  loopsIn s1 s2 [long, 4, 2, 1] 0 len

/-- What does not read outside is what the code computes. -/
theorem loop_of_loopIn {k : Nat} {s1 s2 : Bytes} {fuel off len : Nat} {e : LoopEnd}
    (h : loopIn k s1 s2 fuel off len = some e) : loop k s1 s2 fuel off len = e := by
  induction fuel generalizing off len with
  | zero => exact Option.some.inj h
  | succ fuel ih =>
    rw [loopIn] at h
    rw [loop]
    split at h
    · rename_i hShort
      rw [if_pos hShort]
      exact Option.some.inj h
    · rename_i hLong
      rw [if_neg hLong]
      obtain ⟨wrd1, hFirst, h⟩ := Option.bind_eq_some_iff.mp h
      obtain ⟨wrd2, hSecond, h⟩ := Option.bind_eq_some_iff.mp h
      rw [loadIn, Option.ite_none_right_eq_some] at hFirst hSecond
      obtain ⟨-, hFirst⟩ := hFirst
      obtain ⟨-, hSecond⟩ := hSecond
      obtain rfl := Option.some.inj hFirst
      obtain rfl := Option.some.inj hSecond
      split at h
      · rename_i hDiffer
        rw [if_pos hDiffer]
        exact Option.some.inj h
      · rename_i hSame
        rw [if_neg hSame]
        split at h
        · rename_i hEnd
          rw [if_pos hEnd]
          exact Option.some.inj h
        · rename_i hMore
          rw [if_neg hMore]
          split at h
          · rename_i hTail
            rw [if_pos hTail]
            exact ih h
          · rename_i hWhole
            rw [if_neg hWhole]
            exact ih h

theorem loops_of_loopsIn {s1 s2 : Bytes} {ks : List Nat} {off len r : Nat}
    (h : loopsIn s1 s2 ks off len = some r) : loops s1 s2 ks off len = r := by
  induction ks generalizing off len with
  | nil => exact Option.some.inj h
  | cons k ks ih =>
    rw [loopsIn] at h
    rw [loops]
    cases hLoop : loopIn k s1 s2 (len + 1) off len with
    | none =>
      rw [hLoop] at h
      cases h
    | some e =>
      rw [hLoop] at h
      rw [loop_of_loopIn hLoop]
      cases e with
      | done r' => exact Option.some.inj h
      | next off' len' => exact ih h

/-! ## The comparison -/

section Compare

variable {s1 s2 : Bytes}

/-- The strings agree up to an offset, but for case. -/
def Agree (s1 s2 : Bytes) (n : Nat) : Prop :=
  ∀ j < n, lower (Arena.ofBytes s1 j) = lower (Arena.ofBytes s2 j)

instance (s1 s2 : Bytes) (n : Nat) : Decidable (Agree s1 s2 n) := Nat.decidableBallLT _ _

theorem agree_iff (hLength : s1.length = s2.length) :
    Agree s1 s2 s1.length ↔ s1.map lower = s2.map lower := by
  have hAt : ∀ (s : Bytes) (j : Nat), j < s.length → some (lower (Arena.ofBytes s j)) = (s.map lower)[j]? := by
    intro s j hj
    rw [List.getElem?_map, List.getElem?_eq_getElem hj, Arena.ofBytes, List.getD_eq_getElem?_getD,
      List.getElem?_eq_getElem hj]
    rfl
  constructor
  · intro h
    apply List.ext_getElem?
    intro j
    cases Nat.lt_or_ge j s1.length with
    | inl hj => rw [← hAt s1 j hj, ← hAt s2 j (hLength ▸ hj), h j hj]
    | inr hj =>
      rw [List.getElem?_eq_none (by simpa using hj), List.getElem?_eq_none (by simpa [← hLength] using hj)]
  · intro h j hj
    apply Option.some.inj
    rw [hAt s1 j hj, hAt s2 j (hLength ▸ hj), h]

/-- A loop that has a word to compare ends the comparison. -/
theorem loopIn_done {k fuel off len : Nat} (hk : 0 < k) (hFirst : off + len = s1.length)
    (hSecond : off + len = s2.length) (hWord : k ≤ len) (hFuel : len < fuel) (hBefore : Agree s1 s2 off) :
    loopIn k s1 s2 fuel off len = some (.done (if Agree s1 s2 s1.length then 0 else 1)) := by
  induction fuel generalizing off len with
  | zero => exact absurd hFuel (Nat.not_lt_zero _)
  | succ fuel ih =>
    have hIn1 : loadIn k s1 off = some (load k s1 off) := if_pos (by omega)
    have hIn2 : loadIn k s2 off = some (load k s2 off) := if_pos (by omega)
    rw [loopIn, if_neg (by omega), hIn1, hIn2]
    simp only [Option.bind_eq_bind, Option.bind_some, ne_eq, tolower_eq_iff hk]
    split
    · rename_i hDiffer
      have hNot : ¬ Agree s1 s2 s1.length := fun hAll => hDiffer fun j hj => hAll (off + j) (by omega)
      rw [if_neg hNot]
    · rename_i hSame
      have hWords := not_not.mp hSame
      have hNext : Agree s1 s2 (off + k) := by
        intro j hj
        cases Nat.lt_or_ge j off with
        | inl hOld => exact hBefore j hOld
        | inr hNew =>
          have hWithin := hWords (j - off) (by omega)
          rwa [Nat.add_sub_cancel' hNew] at hWithin
      split
      · have hEnd : off + k = s1.length := by omega
        rw [if_pos (hEnd ▸ hNext)]
      · split
        · exact ih (by omega) (by omega) (Nat.le_refl k) (by omega) fun j hj => hNext j (by omega)
        · exact ih (by omega) (by omega) (by omega) (by omega) hNext

theorem loopsIn_eq (hLength : s1.length = s2.length) {ks : List Nat} (hPos : ∀ k ∈ ks, 0 < k)
    (hOne : 0 < s1.length → 1 ∈ ks) :
    loopsIn s1 s2 ks 0 s1.length = some (if Agree s1 s2 s1.length then 0 else 1) := by
  induction ks with
  | nil =>
    have hEmpty : ¬ 0 < s1.length := fun h => List.not_mem_nil (hOne h)
    have hAll : Agree s1 s2 s1.length := fun j hj =>
      absurd (Nat.lt_of_le_of_lt (Nat.zero_le j) hj) hEmpty
    rw [loopsIn, if_pos hAll]
  | cons k ks ih =>
    rw [loopsIn]
    cases Nat.lt_or_ge s1.length k with
    | inl hShort =>
      have hNext : loopIn k s1 s2 (s1.length + 1) 0 s1.length = some (.next 0 s1.length) := if_pos hShort
      rw [hNext]
      refine ih (fun k hk => hPos k (List.mem_cons_of_mem _ hk)) fun hSome => ?_
      cases List.mem_cons.mp (hOne hSome) with
      | inl hIs => omega
      | inr hIn => exact hIn
    | inr hWord =>
      rw [loopIn_done (hPos k List.mem_cons_self) (Nat.zero_add _) ((Nat.zero_add _).trans hLength) hWord
        (Nat.lt_succ_self _) fun j hj => absurd hj (Nat.not_lt_zero j)]

/-- The comparison is done inside the strings, and finds them equal when they agree. -/
theorem casebcmpIn_eq {long : Nat} (hLong : long = 4 ∨ long = 8) (hLength : s1.length = s2.length) :
    casebcmpIn long s1 s2 s1.length = some (if Agree s1 s2 s1.length then 0 else 1) := by
  refine loopsIn_eq hLength ?_ fun _ => by simp
  simp only [List.mem_cons, List.not_mem_nil, or_false]
  omega

theorem casebcmp_eq_zero_iff (hLength : s1.length = s2.length) :
    casebcmp s1 s2 s1.length = 0 ↔ s1.map lower = s2.map lower := by
  rw [casebcmp, loops_of_loopsIn (casebcmpIn_eq (Or.inr rfl) hLength), ← agree_iff hLength]
  simp

end Compare

/-- The comparison by words is the comparison byte by byte, and stays inside the strings. -/
theorem casebcmp_exact (long : Nat) (hLong : long = 4 ∨ long = 8) (s1 s2 : Bytes)
    (hLength : s1.length = s2.length) :
    ∃ r, casebcmpIn long s1 s2 s1.length = some r ∧ loops s1 s2 [long, 4, 2, 1] 0 s1.length = r ∧
      (r = 0 ↔ s1.map lower = s2.map lower) := by
  have hIn := casebcmpIn_eq hLong hLength
  refine ⟨_, hIn, loops_of_loopsIn hIn, ?_⟩
  rw [← agree_iff hLength]
  simp

theorem casebcmp_exact_contact : ∃ r, casebcmpIn 8 (bytes "CONTACT-X") (bytes "contact-x") 9 = some r ∧
    loops (bytes "CONTACT-X") (bytes "contact-x") [8, 4, 2, 1] 0 9 = r ∧
    (r = 0 ↔ (bytes "CONTACT-X").map lower = (bytes "contact-x").map lower) :=
  casebcmp_exact 8 (Or.inr rfl) (bytes "CONTACT-X") (bytes "contact-x") rfl

end Turbo

end Microsippy
