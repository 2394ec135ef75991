import Microsippy.AuthText
import Microsippy.Decimal

/-! # Numbers within bounds

`usipy_str_atoui_range` is to accept the strings of digits whose value is within its bounds and no
others, so that `usipy_sip_hdr_cseq_parse` accepts no CSeq header without a number.
-/

namespace Microsippy

set_option autoImplicit false

/-- A string of digits, one at least, whose value is within bounds. -/
structure IsNumber (b : Bytes) (min max v : UInt32) : Prop where
  some : b ≠ []
  digits : ∀ c ∈ b, IsDigit c
  value : v.toNat = decimal b
  low : min.toNat ≤ decimal b
  high : decimal b ≤ max.toNat

/-- `usipy_str_atoui_range` accepts a string if and only if it is a number, and returns its value. -/
def Str.ReadsNumbers (m : Mem) (x : Str) (min max : UInt32) : Prop :=
  ∀ v, x.atouiRange m min max = some v ↔ IsNumber (m.read x) min max v

namespace Str

variable {m : Mem} {x : Str} {min max v : UInt32}

theorem atouiRange_iff_isNumber (h : min ≤ max) (hSome : m.read x ≠ []) :
    x.atouiRange m min max = some v ↔ IsNumber (m.read x) min max v := by
  rw [atouiRange_iff h, UInt32.le_iff_toNat_le, UInt32.le_iff_toNat_le]
  constructor
  · rintro ⟨hDigits, hValue, hLow, hHigh⟩
    exact ⟨hSome, hDigits, hValue, hValue ▸ hLow, hValue ▸ hHigh⟩
  · rintro ⟨-, hDigits, hValue, hLow, hHigh⟩
    exact ⟨hDigits, hValue, hValue ▸ hLow, hValue ▸ hHigh⟩

/-- The empty string is read as 0 where 0 is within the bounds. -/
theorem atouiRange_of_empty (h : min ≤ max) (hEmpty : m.read x = []) :
    x.atouiRange m min max = some v ↔ min = 0 ∧ v = 0 := by
  have hZero : decimal [] = 0 := rfl
  have hMin : min.toNat = 0 ↔ min = 0 := @UInt32.toNat_inj min 0
  have hv : v.toNat = 0 ↔ v = 0 := @UInt32.toNat_inj v 0
  rw [atouiRange_iff h, hEmpty, hZero, hv, UInt32.le_iff_toNat_le, UInt32.le_iff_toNat_le]
  constructor
  · rintro ⟨-, rfl, hLow, -⟩
    exact ⟨hMin.mp (Nat.le_zero.mp hLow), rfl⟩
  · rintro ⟨rfl, rfl⟩
    exact ⟨fun c hc => absurd hc List.not_mem_nil, rfl, Nat.le_refl _, Nat.zero_le _⟩

theorem readsNumbers_iff (h : min ≤ max) :
    x.ReadsNumbers m min max ↔ m.read x ≠ [] ∨ min ≠ 0 := by
  constructor
  · intro hReads
    cases Decidable.em (m.read x = []) with
    | inl hEmpty =>
      refine Or.inr fun hMin => ?_
      have hNumber := (hReads 0).mp ((atouiRange_of_empty h hEmpty).mpr ⟨hMin, rfl⟩)
      exact hNumber.some hEmpty
    | inr hSome => exact Or.inl hSome
  · intro hEither v
    cases Decidable.em (m.read x = []) with
    | inl hEmpty =>
      rw [atouiRange_of_empty h hEmpty]
      have hMin := hEither.resolve_left fun hSome => hSome hEmpty
      exact iff_of_false (fun hBoth => hMin hBoth.1) fun hNumber => hNumber.some hEmpty
    | inr hSome => exact atouiRange_iff_isNumber h hSome

end Str

/-! ## CSeq headers -/

namespace Cseq

variable {m : Mem} {hvp : Str}

/-- A header value that `usipy_sip_hdr_cseq_parse` accepts has a number before its first white space. -/
def NumbersOnly (m : Mem) (hvp : Str) : Prop :=
  ∀ (hp hp' : Heap) (cseq : Cseq), (parse m hvp).run hp = some (.ok cseq, hp') →
    ∃ digits c rest, m.read hvp = digits ++ c :: rest ∧ Str.isLws c = true ∧
      IsNumber digits 0 0xffffffff cseq.val

theorem parse_ok {hp hp' : Heap} {cseq : Cseq} :
    (parse m hvp).run hp = some (.ok cseq, hp') ↔
      ∃ s1 s2 val off, hvp.splitlws m = some (s1, s2) ∧ s1.atouiRange m 0 0xffffffff = some val ∧
        (Heap.alloc 32).run hp = some (.ok off, hp') ∧
        cseq = { onwire_method := s2, val, method := methodDbLookup (m.read s2) } := by
  rw [parse, Op.bind_ok]
  constructor
  · rintro ⟨⟨s1, s2⟩, hp₁, hFirst, hRun⟩
    obtain ⟨hSplit, rfl⟩ := Op.orElse_ok.mp hFirst
    obtain ⟨val, hp₂, hSecond, hRun⟩ := Op.bind_ok.mp hRun
    obtain ⟨hVal, rfl⟩ := Op.orElse_ok.mp hSecond
    obtain ⟨off, hp₃, hAlloc, hRun⟩ := Op.bind_ok.mp hRun
    obtain ⟨rfl, rfl⟩ := Op.pure_ok.mp hRun
    exact ⟨s1, s2, val, off, hSplit, hVal, hAlloc, rfl⟩
  · rintro ⟨s1, s2, val, off, hSplit, hVal, hAlloc, rfl⟩
    refine ⟨(s1, s2), hp, Op.orElse_ok.mpr ⟨hSplit, rfl⟩, Op.bind_ok.mpr ?_⟩
    refine ⟨val, hp, Op.orElse_ok.mpr ⟨hVal, rfl⟩, Op.bind_ok.mpr ?_⟩
    exact ⟨off, hp', hAlloc, Op.pure_ok.mpr ⟨rfl, rfl⟩⟩

/-- A value that begins with white space is accepted, as if its number were 0. -/
theorem not_numbersOnly {c : UInt8} {r : Bytes} (hRead : m.read hvp = c :: r)
    (hLws : Str.isLws c = true) : ¬ NumbersOnly m hvp := by
  intro hOnly
  have hSplit := Str.read_splitlws m hvp
  have hCut : cutLws (c :: r) = some ([], r.dropWhile Str.isLws) :=
    cutLws_append (t := []) (fun b hb => absurd hb List.not_mem_nil) hLws
  rw [hRead, hCut, Option.map_eq_some_iff] at hSplit
  obtain ⟨⟨s1, s2⟩, hSplit, hPair⟩ := hSplit
  have hEmpty : m.read s1 = [] := congrArg Prod.fst hPair
  have hVal : s1.atouiRange m 0 0xffffffff = some 0 :=
    (Str.atouiRange_of_empty (by decide) hEmpty).mpr ⟨rfl, rfl⟩
  have hAlloc : (Heap.alloc 32).run { tsize := 32 } = some (.ok 0, { tsize := 32, alen := 32 }) := rfl
  obtain ⟨digits, d, rest, hIs, -, hNumber⟩ :=
    hOnly _ _ _ (parse_ok.mpr ⟨s1, s2, 0, 0, hSplit, hVal, hAlloc, rfl⟩)
  rw [hRead] at hIs
  cases digits with
  | nil => exact hNumber.some rfl
  | cons b digits =>
    obtain rfl := (List.cons.inj hIs).1
    have hNot : ∀ c, IsDigit c → Str.isLws c = false := forall_byte (by decide +kernel)
    rw [hNot c (hNumber.digits c List.mem_cons_self)] at hLws
    cases hLws

theorem numbersOnly_of_head (hHead : ∀ c ∈ (m.read hvp).head?, Str.isLws c = false) :
    NumbersOnly m hvp := by
  intro hp hp' cseq hRun
  obtain ⟨s1, s2, val, -, hSplit, hVal, -, rfl⟩ := parse_ok.mp hRun
  have hCut := Str.read_splitlws m hvp
  rw [hSplit, Option.map_some] at hCut
  obtain ⟨-, hNone⟩ | ⟨t, d, r, hRead, -, hLws, hSome⟩ := cutLws_cases (m.read hvp)
  · rw [hNone] at hCut
    cases hCut
  · rw [hSome] at hCut
    have hFirst : m.read s1 = t := congrArg Prod.fst (Option.some.inj hCut)
    refine ⟨t, d, r, hRead, hLws, ?_⟩
    rw [← hFirst]
    refine (Str.atouiRange_iff_isNumber (by decide) ?_).mp hVal
    rintro hEmpty
    rw [hFirst] at hEmpty
    rw [hEmpty] at hRead
    rw [hHead d (by rw [hRead]; rfl)] at hLws
    cases hLws

theorem numbersOnly_iff :
    NumbersOnly m hvp ↔ ∀ c ∈ (m.read hvp).head?, Str.isLws c = false := by
  constructor
  · intro hOnly c hc
    obtain ⟨r, hRead⟩ := List.head?_eq_some_iff.mp hc
    cases hLws : Str.isLws c with
    | false => rfl
    | true => exact absurd hOnly (not_numbersOnly hRead hLws)
  · exact numbersOnly_of_head

/-- A header value without the white space around it begins with none. -/
theorem numbersOnly_ltrm (m : Mem) (s : Str) : NumbersOnly m (s.ltrm m) := by
  apply numbersOnly_of_head
  intro c hc
  obtain ⟨r, hRead⟩ := List.head?_eq_some_iff.mp hc
  rw [Str.ltrm, Str.read_ltrmE, Str.read_ltrmB] at hRead
  obtain ⟨t, hDrop⟩ := hRead ▸ List.rdropWhile_prefix Str.isLws ((m.read s).dropWhile Str.isLws)
  have hFirst := List.head?_dropWhile_not Str.isLws (m.read s)
  rw [← hDrop] at hFirst
  simpa using hFirst

end Cseq

/-! ## Headers from the wire -/

section

variable {m : Mem} {shp ehp : Nat}

theorem preparseList_ltrm {fuel : Nat} {csp : Str} {vs : List Str}
    (h : preparseList m ehp fuel shp csp = some vs) : ∀ v ∈ vs, ∃ s : Str, v = s.ltrm m := by
  induction fuel generalizing shp csp vs with
  | zero =>
    obtain rfl := Option.some.inj h
    exact fun v hv => ⟨csp, List.mem_singleton.mp hv⟩
  | succ fuel ih =>
    rw [preparseList] at h
    split at h
    · obtain rfl := Option.some.inj h
      exact fun v hv => ⟨csp, List.mem_singleton.mp hv⟩
    · split at h
      · obtain rfl := Option.some.inj h
        exact fun v hv => ⟨csp, List.mem_singleton.mp hv⟩
      · rename_i value rest _
        split at h
        · cases h
        · obtain ⟨vs, hRest, rfl⟩ := Option.map_eq_some_iff.mp h
          exact List.forall_mem_cons.mpr ⟨⟨value, rfl⟩, ih hRest⟩

/-- A header value from the wire has a number where it is parsed as that of a CSeq header. -/
theorem hdrPreparse_numbersOnly {T : Shift} {full : Str} {hs : List WireHdr}
    (h : hdrPreparse T m shp ehp full = some hs) : ∀ hd ∈ hs, Cseq.NumbersOnly m hd.value := by
  simp only [hdrPreparse, Option.bind_eq_bind, Option.bind_eq_some_iff] at h
  obtain ⟨⟨name, value⟩, -, values, hValues, hs, rfl⟩ := h
  have hTrimmed : ∀ v ∈ values, ∃ s : Str, v = s.ltrm m := by
    split at hValues
    · exact preparseList_ltrm hValues
    · obtain rfl := Option.some.inj hValues
      exact fun v hv => ⟨value, List.mem_singleton.mp hv⟩
  intro hd hIn
  obtain ⟨i, hi, rfl⟩ := List.mem_mapIdx.mp hIn
  obtain ⟨s, hs⟩ := hTrimmed _ (List.getElem_mem hi)
  simp only [hs]
  exact Cseq.numbersOnly_ltrm m s

end

/-- Numbers are read as they are unless an empty string is given and 0 is within the bounds; a CSeq
header has one unless its value begins with white space, as no value from the wire does. -/
theorem numbers_read_iff {m : Mem} {x hvp : Str} {min max : UInt32} (h : min ≤ max) :
    (x.ReadsNumbers m min max ↔ m.read x ≠ [] ∨ min ≠ 0) ∧
      (Cseq.NumbersOnly m hvp ↔ ∀ c ∈ (m.read hvp).head?, Str.isLws c = false) ∧
        ∀ (T : Shift) (shp ehp : Nat) (full : Str) (hs : List WireHdr),
          hdrPreparse T m shp ehp full = some hs → ∀ hd ∈ hs, Cseq.NumbersOnly m hd.value :=
  ⟨Str.readsNumbers_iff h, Cseq.numbersOnly_iff, fun _ _ _ _ _ hRun => hdrPreparse_numbersOnly hRun⟩

/-- Storage no string below is in. -/
def noStorage : Mem := fun _ => .zero

theorem numbers_read_zeros :
    ((Str.lit (bytes "0070")).ReadsNumbers noStorage 0 0xffffffff ↔
      noStorage.read (Str.lit (bytes "0070")) ≠ [] ∨ (0 : UInt32) ≠ 0) ∧
    (Cseq.NumbersOnly noStorage (Str.lit (bytes "70 INVITE")) ↔
      ∀ c ∈ (noStorage.read (Str.lit (bytes "70 INVITE"))).head?, Str.isLws c = false) ∧
    ∀ (T : Shift) (shp ehp : Nat) (full : Str) (hs : List WireHdr),
      hdrPreparse T noStorage shp ehp full = some hs → ∀ hd ∈ hs, Cseq.NumbersOnly noStorage hd.value :=
  numbers_read_iff (by decide)

/-- The empty string is read as 0, also in place of the number of a CSeq header. -/
theorem emptyNumber_read :
    (¬ ∀ (m : Mem) (x : Str) (min max : UInt32), min ≤ max → x.ReadsNumbers m min max) ∧
      ¬ ∀ (m : Mem) (hvp : Str), Cseq.NumbersOnly m hvp := by
  constructor
  · intro hAll
    have hEmpty : Str.null.atouiRange noStorage 0 0xffffffff = some 0 := rfl
    exact ((hAll _ Str.null 0 0xffffffff (by decide) 0).mp hEmpty).some rfl
  · intro hAll
    have hRead : noStorage.read (Str.lit (bytes " INVITE")) = ch ' ' :: bytes "INVITE" := by
      decide +kernel
    exact Cseq.not_numbersOnly hRead (by decide) (hAll _ _)

end Microsippy
