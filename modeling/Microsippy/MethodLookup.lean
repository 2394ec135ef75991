import Microsippy.CaseCompare
import Microsippy.FromWire
import Microsippy.HdrLookup

/-! # Looking methods up

`usipy_method_db_lookup` tries one method, found by a perfect hash of the length and the first byte, and
is to return what a search through all names returns.
-/

namespace Microsippy

set_option autoImplicit false

/-! ## Reads inside the tables -/

/-- `asso_values` of `method_hash` -/
def assoValues : List Nat :=
  [ 14, 14, 14, 14, 14, 14, 14, 14, 14, 14,
    14, 14, 14, 14, 14, 14, 14, 14, 14, 14,
    14, 14, 14, 14, 14, 14, 14, 14, 14, 14,
    14, 14, 14, 14, 14, 14, 14, 14, 14, 14,
    14, 14, 14, 14, 14, 14, 14, 14, 14, 14,
    14, 14, 14, 14, 14, 14, 14, 14, 14, 14,
    14, 14, 14, 14, 14, 10, 0, 5, 14, 14,
    14, 14, 14, 0, 14, 14, 14, 14, 14, 0,
    5, 14, 0, 0, 14, 14, 14, 14, 14, 14,
    14, 14, 14, 14, 14, 14, 14, 10, 0, 5,
    14, 14, 14, 14, 14, 0, 14, 14, 14, 14,
    14, 0, 5, 14, 0, 0, 14, 14, 14, 14,
    14, 14, 14, 14, 14, 14, 14, 14, 14, 14,
    14, 14, 14, 14, 14, 14, 14, 14, 14, 14,
    14, 14, 14, 14, 14, 14, 14, 14, 14, 14,
    14, 14, 14, 14, 14, 14, 14, 14, 14, 14,
    14, 14, 14, 14, 14, 14, 14, 14, 14, 14,
    14, 14, 14, 14, 14, 14, 14, 14, 14, 14,
    14, 14, 14, 14, 14, 14, 14, 14, 14, 14,
    14, 14, 14, 14, 14, 14, 14, 14, 14, 14,
    14, 14, 14, 14, 14, 14, 14, 14, 14, 14,
    14, 14, 14, 14, 14, 14, 14, 14, 14, 14,
    14, 14, 14, 14, 14, 14, 14, 14, 14, 14,
    14, 14, 14, 14, 14, 14, 14, 14, 14, 14,
    14, 14, 14, 14, 14, 14, 14, 14, 14, 14,
    14, 14, 14, 14, 14, 14]

theorem assoValues_getElem? (b : UInt8) : assoValues[b.toNat]? = some (assoValue b) := by
  revert b
  apply forall_byte
  decide +kernel

/-- `turbo_strcasematch` with lengths that are to be equal, `none` where it reads outside a string. -/
def Turbo.matchIn (long : Nat) (s name : Bytes) : Option Bool :=
  if name.length = s.length then (casebcmpIn long s name name.length).map (· == 0) else some false

/-- `method_hash`, `none` where the string has no first byte or the table no entry for it. -/
def methodHashIn (sp : Bytes) : Option Nat := do
  let b ← sp.head?
  let value ← assoValues[b.toNat]?
  return sp.length + value

/-- `usipy_method_db_lookup` where `long` has that many bytes, `none` where it reads outside a table or
a string. -/
def methodDbLookupIn (long : Nat) (tp : Bytes) : Option Method := do
  if ← Turbo.matchIn long tp (bytes "NOTIFY") then return .NOTIFY
  else if 3 ≤ tp.length ∧ tp.length ≤ 9 then
    let key ← methodHashIn tp
    if key ≤ 13 then
      let wp ← methodWordlist[key]?
      if ← Turbo.matchIn long tp wp.name then return wp else return .generic
    else return .generic
  else return .generic

/-! ## The search -/

namespace Method

/-- A method is named by a string that is its name but for case. -/
def Named (tp : Bytes) (m : Method) : Prop := CiEq m.name tp

instance (tp : Bytes) (m : Method) : Decidable (m.Named tp) :=
  inferInstanceAs (Decidable (CiEq _ _))

/-- The search through the table, from its first entry on. -/
def search (tp : Bytes) : Method := (all.find? fun m => decide (m.Named tp)).getD .generic

theorem mem_all (m : Method) : m ∈ all := by
  cases m <;> decide

/-- No two methods have one name, whatever its case. -/
theorem name_injective {m m' : Method} (h : CiEq m.name m'.name) : m = m' := by
  have hAll : ∀ m ∈ all, ∀ m' ∈ all, CiEq m.name m'.name → m = m' := by decide +kernel
  exact hAll m (mem_all m) m' (mem_all m') h

namespace Named

variable {tp : Bytes} {m m' : Method}

theorem unique (h : m.Named tp) (h' : m'.Named tp) : m = m' := name_injective (h.trans h'.symm)

theorem length (h : m.Named tp) : m.name.length = tp.length := CiEq.length_eq h

theorem head (h : m.Named tp) : asciiLower (m.name.headD 0) = asciiLower (tp.headD 0) := by
  have hHead : ∀ b : Bytes, asciiLower (b.headD 0) = (b.map asciiLower).headD 0 := by
    intro b
    cases b <;> rfl
  rw [hHead, hHead, h]

end Named

theorem search_of_named {tp : Bytes} {m : Method} (h : m.Named tp) : search tp = m := by
  rw [search]
  cases hFind : all.find? fun m => decide (m.Named tp) with
  | none => exact absurd (decide_eq_true h) (List.find?_eq_none.mp hFind m (mem_all m))
  | some m' =>
    have hFound := List.find?_some hFind
    exact Named.unique (of_decide_eq_true hFound) h

theorem search_of_unnamed {tp : Bytes} (h : ∀ m : Method, ¬ m.Named tp) : search tp = .generic := by
  have hNone : (all.find? fun m => decide (m.Named tp)) = none :=
    List.find?_eq_none.mpr fun m _ hIs => h m (of_decide_eq_true hIs)
  rw [search, hNone, Option.getD_none]

end Method

/-! ## The lookup -/

section

variable {tp : Bytes} {m : Method}

/-- Both cases of a letter have one value. -/
theorem assoValue_asciiLower (b : UInt8) : assoValue (asciiLower b) = assoValue b := by
  revert b
  apply forall_byte
  decide +kernel

/-- The hash is perfect: of the methods it is to find, each is in the list under its own. -/
theorem methodWordlist_name (hGeneric : m ≠ .generic) (hNotify : m ≠ .NOTIFY) :
    methodWordlist[m.name.length + assoValue (m.name.headD 0)]? = some m ∧
      3 ≤ m.name.length ∧ m.name.length ≤ 9 := by
  have hAll : ∀ m ∈ Method.all, m ≠ .generic → m ≠ .NOTIFY →
      methodWordlist[m.name.length + assoValue (m.name.headD 0)]? = some m ∧
        3 ≤ m.name.length ∧ m.name.length ≤ 9 := by
    decide +kernel
  exact hAll m (Method.mem_all m) hGeneric hNotify

theorem casebcmp_name : (m.name.length = tp.length ∧ Turbo.casebcmp tp m.name m.name.length = 0) ↔
    m.Named tp := by
  constructor
  · rintro ⟨hLength, hSame⟩
    rw [hLength] at hSame
    exact ((Turbo.casebcmp_eq_zero_iff hLength.symm).mp hSame).symm
  · intro h
    refine ⟨h.length, ?_⟩
    rw [h.length]
    exact (Turbo.casebcmp_eq_zero_iff h.length.symm).mpr (Eq.symm h)

theorem methodDbLookup_eq (tp : Bytes) : methodDbLookup tp =
    if Method.NOTIFY.Named tp then .NOTIFY
    else if 3 ≤ tp.length ∧ tp.length ≤ 9 then
      methodWordlist[tp.length + assoValue (tp.headD 0)]?.elim .generic fun wp =>
        if wp.Named tp then wp else .generic
    else .generic := by
  have hNotify : (tp.length = 6 ∧ Turbo.casebcmp tp (bytes "NOTIFY") 6 = 0) ↔
      Method.NOTIFY.Named tp := by
    rw [← casebcmp_name]
    exact and_congr_left fun _ => eq_comm
  simp only [methodDbLookup, hNotify, casebcmp_name]
  cases methodWordlist[tp.length + assoValue (tp.headD 0)]? <;> rfl

/-- What is found is what the string names. -/
theorem methodDbLookup_named (h : methodDbLookup tp ≠ .generic) : (methodDbLookup tp).Named tp := by
  rw [methodDbLookup_eq] at h ⊢
  split
  · assumption
  · rename_i hNotify
    rw [if_neg hNotify] at h
    split
    · rename_i hShort
      rw [if_pos hShort] at h
      cases hAt : methodWordlist[tp.length + assoValue (tp.headD 0)]? with
      | none =>
        rw [hAt] at h
        exact absurd rfl h
      | some wp =>
        rw [hAt, Option.elim_some] at h
        rw [Option.elim_some]
        split
        · assumption
        · rename_i hNot
          exact absurd (if_neg hNot) h
    · rename_i hLong
      exact absurd (if_neg hLong) h

/-- What the string names is found. -/
theorem methodDbLookup_of_named (h : m.Named tp) : methodDbLookup tp = m := by
  rw [methodDbLookup_eq]
  split
  · rename_i hNotify
    exact hNotify.unique h
  · rename_i hNotify
    have hOther : m ≠ .NOTIFY := by
      rintro rfl
      exact hNotify h
    cases Decidable.em (m = .generic) with
    | inl hGeneric =>
      subst hGeneric
      rw [if_neg]
      rw [← h.length]
      decide
    | inr hGeneric =>
      obtain ⟨hAt, hShort⟩ := methodWordlist_name hGeneric hOther
      rw [← assoValue_asciiLower, h.head, assoValue_asciiLower, h.length] at hAt
      rw [h.length] at hShort
      rw [if_pos hShort, hAt]
      exact if_pos h

end

namespace Turbo

theorem matchIn_eq {long : Nat} (hLong : long = 4 ∨ long = 8) (tp : Bytes) (m : Method) :
    matchIn long tp m.name = some (decide (m.Named tp)) := by
  rw [matchIn]
  split
  · rename_i hLength
    have hNamed : m.Named tp ↔ Agree tp m.name tp.length := by
      rw [agree_iff hLength.symm]
      exact eq_comm
    rw [hLength, casebcmpIn_eq hLong hLength.symm, Option.map_some, decide_eq_decide.mpr hNamed]
    split
    · rename_i hAgree
      rw [decide_eq_true hAgree]
      rfl
    · rename_i hDiffer
      rw [decide_eq_false hDiffer]
      rfl
  · rename_i hLength
    rw [decide_eq_false fun h => hLength (Method.Named.length h)]

end Turbo

theorem methodHashIn_eq {tp : Bytes} (h : 0 < tp.length) :
    methodHashIn tp = some (tp.length + assoValue (tp.headD 0)) := by
  cases tp with
  | nil => cases h
  | cons b tp =>
    rw [methodHashIn, List.head?_cons, Option.bind_eq_bind, Option.bind_some, assoValues_getElem?]
    rfl

/-- The lookup stays inside its tables and strings. -/
theorem methodDbLookupIn_eq {long : Nat} (hLong : long = 4 ∨ long = 8) (tp : Bytes) :
    methodDbLookupIn long tp = some (methodDbLookup tp) := by
  have hNotify : Turbo.matchIn long tp (bytes "NOTIFY") = some (decide (Method.NOTIFY.Named tp)) :=
    Turbo.matchIn_eq hLong tp .NOTIFY
  rw [methodDbLookupIn, methodDbLookup_eq, hNotify]
  simp only [Option.bind_eq_bind, Option.bind_some, decide_eq_true_eq, Option.pure_def]
  split
  · rfl
  · split
    · rename_i hShort
      rw [methodHashIn_eq (by omega), Option.bind_some]
      split
      · rename_i hKey
        have hIn : tp.length + assoValue (tp.headD 0) < methodWordlist.length :=
          Nat.lt_succ_of_le hKey
        rw [List.getElem?_eq_getElem hIn, Option.bind_some, Option.elim_some,
          Turbo.matchIn_eq hLong, Option.bind_some]
        simp only [decide_eq_true_eq]
        split <;> rfl
      · rename_i hKey
        have hOut : methodWordlist.length ≤ tp.length + assoValue (tp.headD 0) :=
          Nat.not_le.mp hKey
        rw [List.getElem?_eq_none hOut, Option.elim_none]
    · rfl

/-- The lookup returns what the string names whatever its case, as a search of the table does, and reads
nothing outside. -/
theorem methodDbLookup_exact (long : Nat) (hLong : long = 4 ∨ long = 8) (tp : Bytes) :
    methodDbLookupIn long tp = some (methodDbLookup tp) ∧ methodDbLookup tp = Method.search tp ∧
      (∀ m : Method, m.Named tp → methodDbLookup tp = m) ∧
      ((∀ m : Method, ¬ m.Named tp) → methodDbLookup tp = .generic) := by
  have hUnnamed : (∀ m : Method, ¬ m.Named tp) → methodDbLookup tp = .generic := by
    intro hNone
    cases Decidable.em (methodDbLookup tp = .generic) with
    | inl hIs => exact hIs
    | inr hNot => exact absurd (methodDbLookup_named hNot) (hNone _)
  refine ⟨methodDbLookupIn_eq hLong tp, ?_, fun m => methodDbLookup_of_named, hUnnamed⟩
  cases Classical.em (∃ m : Method, m.Named tp) with
  | inl hSome =>
    obtain ⟨m, h⟩ := hSome
    rw [methodDbLookup_of_named h, Method.search_of_named h]
  | inr hNone =>
    rw [not_exists] at hNone
    rw [hUnnamed hNone, Method.search_of_unnamed hNone]

theorem methodDbLookup_exact_register :
    methodDbLookupIn 8 (bytes "rEGISTER") = some (methodDbLookup (bytes "rEGISTER")) ∧
      methodDbLookup (bytes "rEGISTER") = Method.search (bytes "rEGISTER") ∧
      (∀ m : Method, m.Named (bytes "rEGISTER") → methodDbLookup (bytes "rEGISTER") = m) ∧
      ((∀ m : Method, ¬ m.Named (bytes "rEGISTER")) → methodDbLookup (bytes "rEGISTER") = .generic) :=
  methodDbLookup_exact 8 (Or.inr rfl) (bytes "rEGISTER")

end Microsippy
