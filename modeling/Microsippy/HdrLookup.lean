import Microsippy.HdrDb

/-! # What header-name lookup finds

The perfect hash sees the bytes of a name with bit 5 set and its length, so every spelling of a
known name in mixed case lands on that name's slot. The confirmation that follows changes nothing,
so any other string with the hash of a known name is taken for that header.
-/

namespace Microsippy

set_option autoImplicit false

/-- ASCII lower case, the other bytes kept. -/
def asciiLower (b : UInt8) : UInt8 := if 65 ≤ b ∧ b ≤ 90 then b + 32 else b

/-- Equality ignoring ASCII case. -/
def CiEq (s t : Bytes) : Prop := s.map asciiLower = t.map asciiLower

instance (s t : Bytes) : Decidable (CiEq s t) := inferInstanceAs (Decidable (_ = _))

theorem CiEq.length_eq {s t : Bytes} (h : CiEq s t) : s.length = t.length := by
  simpa using congrArg List.length h

namespace FastParser

/-- A byte with bit 5 set, as the hash sees it. -/
def fold (b : UInt8) : UInt8 := b ||| 0x20

theorem fold_asciiLower (b : UInt8) : fold (asciiLower b) = fold b := by
  revert b
  apply forall_byte
  decide +kernel

theorem fold_eq_of_ciEq {s t : Bytes} (h : CiEq s t) : s.map fold = t.map fold := by
  have hFold : ∀ u : Bytes, (u.map asciiLower).map fold = u.map fold := by
    intro u
    simp [fold_asciiLower]
  rw [← hFold s, ← hFold t, h]

theorem or_interleave (a b c d m n o p : UInt32) :
    a ||| m ||| (b ||| n) ||| (c ||| o) ||| (d ||| p) =
      a ||| b ||| c ||| d ||| (m ||| n ||| o ||| p) := by
  ac_rfl

theorem word_or (a b c d m : UInt8) :
    word (a ||| m) (b ||| m) (c ||| m) (d ||| m) = word a b c d ||| word m m m m := by
  simp only [word, UInt8.toUInt32_or, UInt32.shiftLeft_or]
  exact or_interleave ..

theorem word_fold (a b c d : UInt8) :
    word (fold a) (fold b) (fold c) (fold d) = word a b c d ||| 0x20202020 :=
  word_or a b c d 0x20

theorem mix_word (res : UInt32) {a b c d a' b' c' d' : UInt8} (ha : fold a = fold a')
    (hb : fold b = fold b') (hc : fold c = fold c') (hd : fold d = fold d') :
    mix res (word a b c d) = mix res (word a' b' c' d') := by
  simp only [mix, ← word_fold, ha, hb, hc, hd]

/-- The loop of the hash sees only the folded bytes. -/
theorem sum_eq_of_fold (res : UInt32) (s t : Bytes) (h : s.map fold = t.map fold) :
    sum res s = sum res t := by
  fun_induction sum res s generalizing t with
  | case1 res a b c d rest ih =>
    obtain ⟨a', b', c', d', rest', rfl, ha, hb, hc, hd, hRest⟩ :
        ∃ a' b' c' d' rest', t = a' :: b' :: c' :: d' :: rest' ∧ fold a = fold a' ∧
          fold b = fold b' ∧ fold c = fold c' ∧ fold d = fold d' ∧
          rest.map fold = rest'.map fold := by
      rcases t with _ | ⟨a', _ | ⟨b', _ | ⟨c', _ | ⟨d', rest'⟩⟩⟩⟩ <;> simp_all
    rw [sum, ← mix_word res ha hb hc hd]
    exact ih rest' hRest
  | case2 res a b c =>
    rcases t with _ | ⟨a', _ | ⟨b', _ | ⟨c', _ | ⟨d', rest'⟩⟩⟩⟩ <;> simp_all [sum]
    exact mix_word res h.1 h.2.1 h.2.2 rfl
  | case3 res a b =>
    rcases t with _ | ⟨a', _ | ⟨b', _ | ⟨c', rest'⟩⟩⟩ <;> simp_all [sum]
    exact mix_word res h.1 h.2 rfl rfl
  | case4 res a =>
    rcases t with _ | ⟨a', _ | ⟨b', rest'⟩⟩ <;> simp_all [sum]
    exact mix_word res h rfl rfl rfl
  | case5 res =>
    rcases t with _ | ⟨a', rest'⟩ <;> simp_all [sum]

theorem classify_eq_of_ciEq (T : Shift) {s t : Bytes} (h : CiEq s t) :
    classify T s = classify T t := by
  have hSum := sum_eq_of_fold (UInt32.ofNat t.length) s t (fold_eq_of_ciEq h)
  simp only [classify, h.length_eq, hSum]

/-- A shift that C defines. -/
def plainShift : Shift := ⟨fun x n => x >>> UInt32.ofNat n, fun _ _ _ => rfl⟩

/-- For names of up to 32 bytes the target has no say. -/
theorem classify_eq_plain (T : Shift) {s : Bytes} (hLength : s.length ≤ 32) :
    classify T s = classify plainShift s := by
  have hShr : T.shr (sum (UInt32.ofNat s.length) s) (s.length - 1) =
      plainShift.shr (sum (UInt32.ofNat s.length) s) (s.length - 1) :=
    T.shr_of_lt _ _ (by omega)
  simp only [classify, hShr]

theorem name_length_le (h : Hf) : (hdrDb h).name.length ≤ 32 := by
  have hAll : ∀ h ∈ Hf.all, (hdrDb h).name.length ≤ 32 := by decide +kernel
  exact hAll h (Hf.mem_all h)

/-- Each name of the database has a slot of its own. -/
theorem classify_name (T : Shift) (h : Hf) : classify T (hdrDb h).name = h := by
  have hAll : ∀ h ∈ Hf.all, classify plainShift (hdrDb h).name = h := by decide +kernel
  rw [classify_eq_plain T (name_length_le h)]
  exact hAll h (Hf.mem_all h)

/-- The slot of the table that `usipy_fp_classify` reads. -/
def hash (T : Shift) (sp : Bytes) : UInt8 :=
  let res := sum (UInt32.ofNat sp.length) sp
  let res := if sp.length > 1 then T.shr res (sp.length - 1) else res
  res.toUInt8

theorem classify_eq_toid (T : Shift) (s : Bytes) :
    classify T s = toid.getD (hash T s).toNat .generic := by
  simp only [classify, hash]
  congr 1
  split <;> simp [UInt32.toNat_and, Nat.and_two_pow_sub_one_eq_mod _ 8]

/-- A string with the hash of a name is taken for that name. -/
theorem classify_of_hash_eq {T : Shift} {s : Bytes} {h : Hf}
    (hHash : hash T (hdrDb h).name = hash T s) : classify T s = h := by
  rw [classify_eq_toid, ← hHash, ← classify_eq_toid, classify_name]

theorem hash_eq_plain (T : Shift) {s : Bytes} (hLength : s.length ≤ 32) :
    hash T s = hash plainShift s := by
  have hShr : T.shr (sum (UInt32.ofNat s.length) s) (s.length - 1) =
      plainShift.shr (sum (UInt32.ofNat s.length) s) (s.length - 1) :=
    T.shr_of_lt _ _ (by omega)
  simp only [hash, hShr]

/-- A used slot is the slot of the name it holds. -/
theorem hash_toid (b : UInt8) (hUsed : toid.getD b.toNat .generic ≠ .generic) :
    hash plainShift (hdrDb (toid.getD b.toNat .generic)).name = b := by
  revert b
  apply forall_byte
  decide +kernel

/-- What is taken for a name has its hash. -/
theorem hash_of_classify (T : Shift) {s : Bytes} (hSpecific : classify T s ≠ .generic) :
    hash T (hdrDb (classify T s)).name = hash T s := by
  rw [hash_eq_plain T (name_length_le _)]
  rw [classify_eq_toid] at hSpecific ⊢
  exact hash_toid _ hSpecific

theorem classify_of_ciEq_name (T : Shift) {s : Bytes} {h : Hf} (hName : CiEq s (hdrDb h).name) :
    classify T s = h := by
  rw [classify_eq_of_ciEq T hName, classify_name]

end FastParser

theorem hdrDbLookup_eq_classify (T : Shift) (s : Bytes) :
    hdrDbLookup T s = FastParser.classify T s := rfl

/-- `r` is the exact outcome of looking `s` up: a specific entry just when `s` is its name ignoring
ASCII case, and the generic one when it is none of the names. -/
def ExactLookup (s : Bytes) (r : Hf) : Prop :=
  (∀ h, h ≠ .generic → (r = h ↔ CiEq s (hdrDb h).name)) ∧
    ((∀ h, h ≠ .generic → ¬ CiEq s (hdrDb h).name) → r = .generic)

/-- Every name, full or compact, is found as itself in any mixture of cases. -/
theorem hdrDbLookup_name (T : Shift) {s : Bytes} {h : Hf} (hName : CiEq s (hdrDb h).name) :
    hdrDbLookup T s = h := by
  rw [hdrDbLookup_eq_classify]
  exact FastParser.classify_of_ciEq_name T hName

/-- The lookup is exact for just the strings whose hash is that of no known name but their own. -/
theorem hdrDbLookup_exact_iff (T : Shift) (s : Bytes) :
    ExactLookup s (hdrDbLookup T s) ↔
      ∀ h, h ≠ .generic → FastParser.hash T (hdrDb h).name = FastParser.hash T s →
        CiEq s (hdrDb h).name := by
  rw [hdrDbLookup_eq_classify]
  constructor
  · rintro ⟨hExact, -⟩ h hSpecific hHash
    exact (hExact h hSpecific).mp (FastParser.classify_of_hash_eq hHash)
  · intro hOwn
    have hIff : ∀ h, h ≠ .generic → (FastParser.classify T s = h ↔ CiEq s (hdrDb h).name) := by
      intro h hSpecific
      refine ⟨?_, FastParser.classify_of_ciEq_name T⟩
      rintro rfl
      exact hOwn _ hSpecific (FastParser.hash_of_classify T hSpecific)
    refine ⟨hIff, ?_⟩
    intro hNone
    by_contra hSpecific
    exact hNone _ hSpecific ((hIff _ hSpecific).mp rfl)

/-- A `Date` header is looked up as `Refer-To`. -/
theorem hdrDbLookup_date :
    hdrDbLookup FastParser.plainShift (bytes "Date") = .REFERTO ∧
      ¬ ExactLookup (bytes "Date") (hdrDbLookup FastParser.plainShift (bytes "Date")) := by
  have hFound : hdrDbLookup FastParser.plainShift (bytes "Date") = .REFERTO := by decide +kernel
  have hOther : ¬ CiEq (bytes "Date") (hdrDb .REFERTO).name := by decide +kernel
  refine ⟨hFound, ?_⟩
  rintro ⟨hExact, -⟩
  exact hOther ((hExact .REFERTO (by decide)).mp hFound)

end Microsippy
