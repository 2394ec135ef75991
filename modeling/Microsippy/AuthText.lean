import Microsippy.AuthHdr
import Microsippy.Lib.Trim
import Microsippy.WireSplit

/-! # Authentication headers as text

What `usipy_sip_hdr_auth_parse` makes of the bytes of a header.
-/

namespace Microsippy

set_option autoImplicit false

/-- What is before the first delimiter and what is after it. -/
def cut (dlm : UInt8) (b : Bytes) : Option (Bytes × Bytes) :=
  if dlm ∈ b then some (b.takeWhile (· != dlm), (b.dropWhile (· != dlm)).tail) else none

theorem cut_append {dlm : UInt8} {a b : Bytes} (h : dlm ∉ a) : cut dlm (a ++ dlm :: b) = some (a, b) := by
  have hAll : ∀ c ∈ a, (c != dlm) = true := fun c hc => bne_iff_ne.mpr fun hIs => h (hIs ▸ hc)
  rw [cut, if_pos (by simp), List.takeWhile_append_of_pos hAll, List.dropWhile_append_of_pos hAll]
  simp

theorem cut_none {dlm : UInt8} {b : Bytes} (h : dlm ∉ b) : cut dlm b = none := if_neg h

theorem cut_cases (dlm : UInt8) (b : Bytes) :
    (dlm ∉ b ∧ cut dlm b = none) ∨ ∃ a r, b = a ++ dlm :: r ∧ dlm ∉ a ∧ cut dlm b = some (a, r) := by
  cases Decidable.em (dlm ∈ b) with
  | inl h =>
    obtain ⟨a, r, rfl, hFirst⟩ := List.eq_append_cons_of_mem h
    exact .inr ⟨a, r, rfl, hFirst, cut_append hFirst⟩
  | inr h => exact .inl ⟨h, cut_none h⟩

/-- What is before the first white space and, after all that follows it, the rest. -/
def cutLws (b : Bytes) : Option (Bytes × Bytes) :=
  (b.findIdx? Str.isLws).map fun r => (b.take r, (b.drop (r + 1)).dropWhile Str.isLws)

theorem cutLws_append {t r : Bytes} {d : UInt8} (ht : ∀ c ∈ t, Str.isLws c = false)
    (hd : Str.isLws d = true) : cutLws (t ++ d :: r) = some (t, r.dropWhile Str.isLws) := by
  have hAt : (t ++ d :: r).findIdx? Str.isLws = some t.length := by
    rw [List.findIdx?_append, List.findIdx?_eq_none_iff.mpr ht]
    simp [List.findIdx?_cons, hd]
  have hDrop : (t ++ d :: r).drop (t.length + 1) = r := by
    rw [← List.drop_drop, List.drop_left]
    rfl
  rw [cutLws, hAt, Option.map_some, List.take_left, hDrop]

theorem cutLws_none {t : Bytes} (ht : ∀ c ∈ t, Str.isLws c = false) : cutLws t = none := by
  rw [cutLws, List.findIdx?_eq_none_iff.mpr ht]
  rfl

theorem cutLws_cases (b : Bytes) :
    ((∀ c ∈ b, Str.isLws c = false) ∧ cutLws b = none) ∨
      ∃ t d r, b = t ++ d :: r ∧ (∀ c ∈ t, Str.isLws c = false) ∧ Str.isLws d = true ∧
        cutLws b = some (t, r.dropWhile Str.isLws) := by
  obtain hAll | ⟨t, d, r, rfl, ht, hd⟩ := Trim.all_or_stop (fun c => !Str.isLws c) b
  · simp only [Bool.not_eq_true'] at hAll
    exact Or.inl ⟨hAll, cutLws_none hAll⟩
  · simp only [Bool.not_eq_true', Bool.not_eq_false'] at ht hd
    exact Or.inr ⟨t, d, r, rfl, ht, hd, cutLws_append ht hd⟩

/-- What a pair of views reads as. -/
def readPair (m : Mem) (x : Str × Str) : Bytes × Bytes := (m.read x.1, m.read x.2)

namespace Str

theorem read_split_cut (m : Mem) (x : Str) (dlm : UInt8) :
    (x.split m dlm).map (readPair m) = cut dlm (m.read x) := by
  obtain ⟨hNone, hCut⟩ | ⟨a, r, hRead, hFirst, hCut⟩ := cut_cases dlm (m.read x)
  · rw [hCut, split_eq_none hNone]
    rfl
  · obtain ⟨y, z, hSplit, hy, hz⟩ := split_of_append hRead hFirst
    rw [hCut, hSplit, Option.map_some, readPair, hy, hz]

theorem read_trmB (m : Mem) (s : Str) : m.read (s.trmB m) = (m.read s).dropWhile isWs :=
  read_advanced m s isWs

theorem read_tail {m : Mem} {s : Str} {c : UInt8} {t : Bytes} (h : m.read s = c :: t) :
    m.read s.tail = t := by
  have hLength : s.l = t.length + 1 := by rw [← Mem.length_read m s, h, List.length_cons]
  rw [tail, Mem.read_part m s (by omega), h, List.drop_one, List.tail_cons]
  exact List.take_of_length_le (by omega)

theorem read_nullIfEmpty (m : Mem) (s : Str) : m.read (if s.l = 0 then null else s) = m.read s := by
  split
  · rename_i h
    rw [Mem.read_null, List.eq_nil_of_length_eq_zero ((Mem.length_read m s).trans h)]
  · rfl

theorem read_ltrmE (m : Mem) (s : Str) : m.read (s.ltrmE m) = (m.read s).rdropWhile isLws :=
  read_trimmed m s isLws

/-- An element split off with the white space around the delimiter. -/
theorem read_splitElem (m : Mem) (x : Str) (dlm : UInt8) :
    (x.splitElem m dlm).map (readPair m) =
      (cut dlm (m.read x)).map fun (v, r) => (v.rdropWhile isLws, r.dropWhile isLws) := by
  rw [← read_split_cut, split, splitElem, Option.map_map, Option.map_map, Option.map_map]
  cases hAt : x.chr m dlm with
  | none => rfl
  | some r =>
    obtain ⟨hLt, -, -⟩ := List.findIdx?_eq_some_iff_getElem.mp hAt
    rw [Mem.length_read] at hLt
    have hLeft := Mem.read_part m x (k := 0) (l := r) (by omega)
    have hRight := Mem.read_part m x (k := r + 1) (l := x.l - r - 1) (by omega)
    rw [Nat.add_zero] at hLeft
    simp only [Option.map_some, Function.comp_apply, readPair, read_nullIfEmpty, read_ltrmE,
      read_ltrmB, Nat.add_assoc, hLeft, hRight]
    rw [Mem.read_sub m x (by omega), Mem.read_sub m x (by omega)]

theorem read_splitlws (m : Mem) (x : Str) :
    (x.splitlws m).map (readPair m) = cutLws (m.read x) := by
  rw [splitlws, cutLws, Option.map_map]
  cases hAt : (m.read x).findIdx? isLws with
  | none => rfl
  | some r =>
    obtain ⟨hLt, -, -⟩ := List.findIdx?_eq_some_iff_getElem.mp hAt
    rw [Mem.length_read] at hLt
    have hLeft := Mem.read_part m x (k := 0) (l := r) (by omega)
    have hRight := Mem.read_part m x (k := r + 1) (l := x.l - r - 1) (by omega)
    have hRest : ((m.read x).drop (r + 1)).take (x.l - r - 1) = (m.read x).drop (r + 1) := by
      apply List.take_of_length_le
      rw [List.length_drop, Mem.length_read]
      omega
    rw [Nat.add_zero, List.drop_zero] at hLeft
    simp only [Option.map_some, Function.comp_apply, readPair, read_ltrmB, hLeft, Nat.add_assoc, hRight,
      hRest]

theorem isWs_of_isLws {c : UInt8} (h : isLws c = false) : isWs c = false := by
  simp only [isLws, Bool.or_eq_false_iff] at h
  simp only [isWs, Bool.or_eq_false_iff]
  exact h.1.1

end Str

namespace Auth

/-- What is between two parameters. -/
def isDelim (b : UInt8) : Bool := b == ch ',' || Str.isWs b

/-- `usipy_sip_hdr_auth_parse_value` on bytes. -/
def valueText (b : Bytes) : Option (Bytes × Bytes) :=
  match b.dropWhile Str.isWs with
  | [] => none
  | c :: t =>
    if c = ch '"' then (cut (ch '"') t).map fun (v, r) => (v, r.dropWhile isDelim)
    else
      let (v, r) := ((cut (ch ',') (c :: t)).map fun (v, r) =>
        (v.rdropWhile Str.isLws, r.dropWhile Str.isLws)).getD (c :: t, [])
      some (v.rdropWhile Str.isWs, r.dropWhile isDelim)

/-- The parameters of a text, by names and values. -/
def pairTexts : Nat → Bytes → Option (List (Bytes × Bytes))
  | 0, _ => some []
  | fuel + 1, b =>
    match b.dropWhile isDelim with
    | [] => some []
    | c :: t => do
      let (name, b) ← cut (ch '=') (c :: t)
      let name := name.rdropWhile Str.isWs
      let (v, r) ← (if name = [] then none else valueText b)
      let more ← pairTexts fuel r
      return (name, v) :: more

theorem read_skipDelims (m : Mem) (s : Str) :
    m.read (skipDelims m s) = (m.read s).dropWhile isDelim :=
  Str.read_advanced m s isDelim

theorem read_parseValue (m : Mem) (s : Str) :
    (parseValue m s).map (readPair m) = valueText (m.read s) := by
  have hText := Str.read_trmB m s
  rw [valueText, ← hText, parseValue]
  simp only
  cases hRead : m.read (s.trmB m) with
  | nil =>
    have hEmpty : (s.trmB m).l = 0 := by rw [← Mem.length_read m, hRead, List.length_nil]
    rw [if_pos hEmpty]
    rfl
  | cons c t =>
    have hSome : ¬ (s.trmB m).l = 0 := by
      rw [← Mem.length_read m, hRead, List.length_cons]
      omega
    rw [if_neg hSome]
    simp only [List.head?_cons, Option.some.injEq]
    split
    · rw [Str.splitElemNlws, ← Str.read_tail hRead, ← Str.read_split_cut, Option.map_map,
        Option.map_map]
      congr 1
      funext x
      simp [readPair, read_skipDelims]
    · have hElem := Str.read_splitElem m (s.trmB m) (ch ',')
      rw [hRead] at hElem
      rw [← hElem]
      cases (s.trmB m).splitElem m (ch ',') with
      | none => simp [readPair, read_skipDelims, Str.read_trmE, hRead]
      | some x => simp [readPair, read_skipDelims, Str.read_trmE]

theorem read_pairs (m : Mem) (fuel : Nat) (s : Str) :
    (pairs m fuel s).map (List.map fun p => readPair m (p.token, p.value)) =
      pairTexts fuel (m.read s) := by
  induction fuel generalizing s with
  | zero => rfl
  | succ fuel ih =>
    have hSkip : m.read (if s.l = 0 then s else skipDelims m s) = (m.read s).dropWhile isDelim := by
      split
      · rename_i h
        rw [List.eq_nil_of_length_eq_zero ((Mem.length_read m s).trans h), List.dropWhile_nil]
      · exact read_skipDelims m s
    rw [pairs, pairTexts, ← hSkip]
    simp only
    generalize (if s.l = 0 then s else skipDelims m s) = x
    cases hRead : m.read x with
    | nil =>
      have hEmpty : x.l = 0 := by rw [← Mem.length_read m, hRead, List.length_nil]
      rw [if_pos hEmpty]
      rfl
    | cons c t =>
      have hSome : ¬ x.l = 0 := by
        rw [← Mem.length_read m, hRead, List.length_cons]
        omega
      rw [if_neg hSome]
      simp only
      rw [← hRead, ← Str.read_split_cut]
      cases x.split m (ch '=') with
      | none => rfl
      | some y =>
        obtain ⟨pname, pspace⟩ := y
        have hName : (pname.trmE m).l = 0 ↔ (m.read pname).rdropWhile Str.isWs = [] := by
          rw [← Str.read_trmE, ← List.length_eq_zero_iff, Mem.length_read]
        simp only [Option.map_some, readPair, Option.bind_eq_bind, Option.bind_some, hName]
        split
        · rfl
        · rw [← read_parseValue]
          cases parseValue m pspace with
          | none => rfl
          | some z =>
            simp only [Option.bind_some, Option.map_some, readPair, ← ih]
            cases pairs m fuel z.2 with
            | none => rfl
            | some more => simp [Str.read_trmE]

end Auth

/-! ## What a header says -/

/-- The bytes of a challenge or of credentials, the parameters by name and value. -/
structure AuthText where
  scheme : Bytes := []
  realm : Bytes := []
  nonce : Bytes := []
  qop : Bytes := []
  algorithm : Bytes := []
  opaque_ : Bytes := []
  params : List (Bytes × Bytes) := []
  deriving DecidableEq

namespace AuthText

/-- `usipy_sip_hdr_auth_assign_known` on bytes. -/
def assign (a : AuthText) (p : Bytes × Bytes) : AuthText :=
  if p.1 = bytes "realm" then { a with realm := p.2 }
  else if p.1 = bytes "nonce" then { a with nonce := p.2 }
  else if p.1 = bytes "qop" then { a with qop := p.2 }
  else if p.1 = bytes "algorithm" then { a with algorithm := p.2 }
  else if p.1 = bytes "opaque" then { a with opaque_ := p.2 }
  else { a with params := a.params ++ [p] }

def assignAll (a : AuthText) (ps : List (Bytes × Bytes)) : AuthText := ps.foldl assign a

@[simp] theorem assignAll_nil (a : AuthText) : a.assignAll [] = a := rfl

@[simp] theorem assignAll_cons (a : AuthText) (p : Bytes × Bytes) (ps : List (Bytes × Bytes)) :
    a.assignAll (p :: ps) = (a.assign p).assignAll ps := rfl

theorem scheme_assignAll (a : AuthText) (ps : List (Bytes × Bytes)) :
    (a.assignAll ps).scheme = a.scheme := by
  induction ps generalizing a with
  | nil => rfl
  | cons p ps ih =>
    rw [assignAll_cons, ih, assign]
    split_ifs <;> rfl

end AuthText

namespace Auth

def texts (m : Mem) (ap : Auth) : AuthText where
  scheme := m.read ap.scheme
  realm := m.read ap.realm
  nonce := m.read ap.nonce
  qop := m.read ap.qop
  algorithm := m.read ap.algorithm
  opaque_ := m.read ap.opaque_
  params := ap.params.map fun p => readPair m (p.token, p.value)

theorem texts_assignKnown (m : Mem) (ap : Auth) (p : TvPair) :
    (ap.assignKnown m p).texts m = (ap.texts m).assign (readPair m (p.token, p.value)) := by
  simp only [assignKnown, apply_ite (texts m)]
  simp only [texts, readPair, AuthText.assign, List.map_append, List.map_cons, List.map_nil]
  rfl

def assigned (m : Mem) (ap : Auth) (ps : List TvPair) : Auth := ps.foldl (assignKnown m) ap

theorem texts_assigned (m : Mem) (ap : Auth) (ps : List TvPair) :
    (assigned m ap ps).texts m =
      (ap.texts m).assignAll (ps.map fun p => readPair m (p.token, p.value)) := by
  induction ps generalizing ap with
  | nil => rfl
  | cons p ps ih => exact (ih _).trans (by rw [texts_assignKnown]; rfl)

theorem length_assignKnown (m : Mem) (ap : Auth) (p : TvPair) :
    ap.params.length ≤ (ap.assignKnown m p).params.length := by
  simp only [assignKnown]
  split_ifs <;> simp

theorem length_assigned (m : Mem) (ap : Auth) (ps : List TvPair) :
    ap.params.length ≤ (assigned m ap ps).params.length := by
  induction ps generalizing ap with
  | nil => exact Nat.le_refl _
  | cons p ps ih => exact Nat.le_trans (length_assignKnown m ap p) (ih _)

/-! ## The parser -/

theorem alignedSize_sizeof (n : Nat) : Heap.alignedSize (sizeof n) = sizeof n := by
  rw [Heap.alignedSize, if_neg (by simp only [sizeof, sizeofTvPair]; omega)]
  simp only [sizeof, sizeofTvPair]
  omega

/-- A fresh heap with just the room for `n` parameters. -/
theorem room_sizeof {k n : Nat} (h : k ≤ n) : Heap.Room { tsize := sizeof n } (sizeof k) := by
  have hZero : Heap.alignedSize 0 = 0 := by decide
  refine ⟨Nat.zero_le _, ?_⟩
  rw [alignedSize_sizeof]
  simp only [hZero, sizeof, sizeofTvPair]
  omega

theorem aextend_ok {nlen start : Nat} {hp hp' : Heap} {u : Unit}
    (hRun : (Heap.aextend nlen start).run hp = some (.ok u, hp')) : hp'.mem = hp.mem := by
  simp only [Heap.aextend, Op.bind_ok, Op.get_ok, Op.require_ok, Op.modify_ok] at hRun
  obtain ⟨_, _, ⟨rfl, rfl⟩, _, _, ⟨-, rfl⟩, rfl⟩ := hRun
  rfl

theorem assign_ok {m : Mem} {start : Nat} {ap ap' : Auth} {ps : List TvPair} {hp hp' : Heap}
    (hRun : (assign m start ap ps).run hp = some (.ok ap', hp')) :
    ap' = assigned m ap ps ∧ hp'.mem = hp.mem := by
  induction ps generalizing ap hp with
  | nil =>
    obtain ⟨rfl, rfl⟩ := Op.pure_ok.mp hRun
    exact ⟨rfl, rfl⟩
  | cons p ps ih =>
    obtain ⟨u, hp₁, hExtend, hRest⟩ := Op.bind_ok.mp hRun
    obtain ⟨rfl, hMem⟩ := ih hRest
    exact ⟨rfl, hMem.trans (aextend_ok hExtend)⟩

/-- A header is parsed into its parameters, one assigned after the other. -/
theorem parse_ok {m : Mem} {hvp : Str} {ap : Auth} {hp hp' : Heap}
    (hRun : (parse m hvp).run hp = some (.ok ap, hp')) :
    hp'.mem = hp.mem ∧ ∃ scheme ps, parseParts (hp.mem m) hvp = some (scheme, ps) ∧
      ap = assigned (hp.mem m) { scheme } ps := by
  obtain ⟨start, hp₁, hAlloc, hRun⟩ := Op.bind_ok.mp hRun
  obtain ⟨-, -, rfl⟩ := Heap.reserve_ok.mp hAlloc
  obtain ⟨_, _, hGet, hRun⟩ := Op.bind_ok.mp hRun
  obtain ⟨rfl, rfl⟩ := Op.get_ok.mp hGet
  obtain ⟨⟨scheme, ps⟩, hp₂, hElse, hRun⟩ := Op.bind_ok.mp (Op.cleanup_ok.mp hRun)
  obtain ⟨hParts, rfl⟩ := Op.orElse_ok.mp hElse
  obtain ⟨rfl, hMem⟩ := assign_ok hRun
  exact ⟨hMem, scheme, ps, hParts, rfl⟩

theorem assign_run {m : Mem} {start n : Nat} {ap : Auth} {ps : List TvPair} {hp : Heap}
    (hCount : (assigned m ap ps).params.length < n) (hRoom : start + sizeof n ≤ hp.tsize)
    (hTop : hp.alen ≤ hp.tsize) :
    ∃ hp', (assign m start ap ps).run hp = some (.ok (assigned m ap ps), hp') := by
  induction ps generalizing ap hp with
  | nil => exact ⟨hp, rfl⟩
  | cons p ps ih =>
    have hLess : (ap.assignKnown m p).params.length < n :=
      Nat.lt_of_le_of_lt (length_assigned m _ ps) hCount
    have hSize : Heap.alignedSize (sizeof (ap.params.length + 1)) ≤ sizeof n := by
      have hLe := length_assignKnown m ap p
      rw [alignedSize_sizeof]
      simp only [sizeof, sizeofTvPair]
      omega
    have hFits : start + Heap.alignedSize (sizeof (ap.params.length + 1)) - hp.alen ≤ hp.remaining := by
      simp only [Heap.remaining]
      omega
    obtain ⟨hp', hRun⟩ := @ih (ap.assignKnown m p) { hp with
      alen := hp.alen + (start + Heap.alignedSize (sizeof (ap.params.length + 1)) - hp.alen) }
      hCount hRoom (by simp only; omega)
    refine ⟨hp', ?_⟩
    rw [assign, Op.run_bind, Heap.aextend, Op.run_bind, Op.run_get, Op.andThen_ok, Op.run_bind,
      Op.run_require, if_pos hFits, Op.andThen_ok, Op.run_modify, Op.andThen_ok]
    exact hRun

/-- A heap with room for the parameters. -/
theorem parse_run {m : Mem} {hvp scheme : Str} {ps : List TvPair} {hp : Heap} {n : Nat}
    (hParts : parseParts (hp.mem m) hvp = some (scheme, ps))
    (hCount : (assigned (hp.mem m) { scheme } ps).params.length < n) (hRoom : hp.Room (sizeof n)) :
    ∃ hp', (parse m hvp).run hp = some (.ok (assigned (hp.mem m) { scheme } ps), hp') := by
  have hFits := hRoom.2
  have hLe : sizeof 0 ≤ sizeof n := by simp [sizeof]
  rw [alignedSize_sizeof] at hFits
  have hBare : hp.Room (sizeof 0) := ⟨hRoom.1, by rw [alignedSize_sizeof]; omega⟩
  obtain ⟨hp', hRun⟩ := @assign_run (hp.mem m) (Heap.alignedSize hp.alen) n { scheme } ps
    { hp with alen := Heap.alignedSize hp.alen + Heap.alignedSize (sizeof 0) } hCount
    hFits (by simp only [alignedSize_sizeof]; omega)
  refine ⟨hp', ?_⟩
  rw [parse, Op.run_bind, Heap.allocCnt, Heap.alloc_run hBare, Op.andThen_ok, Op.run_bind, Op.run_get,
    Op.andThen_ok]
  refine Op.cleanup_ok.mpr (Op.bind_ok.mpr ⟨(scheme, ps), _, Op.orElse_ok.mpr ⟨hParts, rfl⟩, hRun⟩)

/-! ## Headers as text -/

/-- `usipy_sip_hdr_auth_parse` on bytes: the scheme and the parameters. -/
def partsText (b : Bytes) : Option (Bytes × List (Bytes × Bytes)) := do
  let (scheme, b) ← cutLws b
  if scheme = [] then none else (pairTexts b.length b).map fun ps => (scheme, ps)

/-- The header made of the bytes of one. -/
def parseText (b : Bytes) : Option AuthText :=
  (partsText b).map fun x => AuthText.assignAll { scheme := x.1 } x.2

theorem parseText_append {scheme b : Bytes} (hScheme : ∀ c ∈ scheme, Str.isLws c = false) :
    parseText (scheme ++ ch ' ' :: b) = if scheme = [] then none else
      (pairTexts (b.dropWhile Str.isLws).length (b.dropWhile Str.isLws)).map
        (AuthText.assignAll { scheme }) := by
  rw [parseText, partsText, cutLws_append hScheme (by decide), Option.bind_eq_bind, Option.bind_some]
  dsimp only
  split
  · rfl
  · rw [Option.map_map]
    rfl

/-- A view without white space at its beginning. -/
theorem read_trmB_of_ltrmB {m : Mem} {s : Str} (h : (m.read s).dropWhile Str.isLws = m.read s) :
    m.read (s.trmB m) = m.read s := by
  rw [Str.read_trmB, ← h]
  cases hRest : (m.read s).dropWhile Str.isLws with
  | nil => rfl
  | cons c t =>
    have hHead := List.head?_dropWhile_not Str.isLws (m.read s)
    rw [hRest] at hHead
    rw [List.dropWhile_cons_of_neg (by simp [Str.isWs_of_isLws hHead])]

theorem read_parseParts (m : Mem) (hvp : Str) :
    (parseParts m hvp).map (fun x => (m.read x.1, x.2.map fun p => readPair m (p.token, p.value))) =
      partsText (m.read hvp) := by
  rw [parseParts, partsText]
  have hSplit := Str.read_splitlws m hvp
  obtain ⟨-, hNone⟩ | ⟨t, d, r, -, ht, -, hSome⟩ := cutLws_cases (m.read hvp)
  · rw [hNone, Option.map_eq_none_iff] at hSplit
    rw [hSplit, hNone]
    rfl
  · rw [hSome] at hSplit
    obtain ⟨⟨scheme, rest⟩, hAt, hRead⟩ := Option.map_eq_some_iff.mp hSplit
    obtain ⟨hScheme, hRest⟩ := Prod.mk.inj hRead
    have hEnds : m.read (scheme.trmE m) = t := by
      rw [Str.read_trmE, hScheme, List.rdropWhile_eq_self_iff]
      intro hSome
      exact Bool.eq_false_iff.mp (Str.isWs_of_isLws (ht _ (List.getLast_mem hSome)))
    have hBody : m.read (rest.trmB m) = r.dropWhile Str.isLws :=
      (read_trmB_of_ltrmB (by rw [hRest, List.dropWhile_idempotent])).trans hRest
    have hEmpty : (scheme.trmE m).l = 0 ↔ t = [] := by
      rw [← Mem.length_read m, hEnds, List.length_eq_zero_iff]
    have hLength : (rest.trmB m).l = (r.dropWhile Str.isLws).length := by
      rw [← Mem.length_read m, hBody]
    have hPairs := read_pairs m (rest.trmB m).l (rest.trmB m)
    rw [hBody, hLength] at hPairs
    rw [hAt, hSome]
    simp only [Option.bind_eq_bind, Option.bind_some, hEmpty, hLength]
    split
    · rfl
    · rw [← hPairs]
      cases pairs m (r.dropWhile Str.isLws).length (rest.trmB m) with
      | none => rfl
      | some ps => simp [hEnds]

/-- What a header that was parsed says. -/
theorem texts_parse {m : Mem} {hvp : Str} {ap : Auth} {hp hp' : Heap}
    (hRun : (parse m hvp).run hp = some (.ok ap, hp')) :
    parseText ((hp.mem m).read hvp) = some (ap.texts (hp'.mem m)) := by
  obtain ⟨hMem, scheme, ps, hParts, rfl⟩ := parse_ok hRun
  rw [parseText, ← read_parseParts, hParts, hMem, texts_assigned]
  rfl

/-- Whether a heap of any kind with the room for them has the parameters of a text parsed to `t`. -/
def ParsesTo (b : Bytes) (t : AuthText) : Prop :=
  ∀ (m : Mem) (hp : Heap), hp.Room (sizeof (t.params.length + 1)) →
    ∃ ap hp', (parse m (Str.lit b)).run hp = some (.ok ap, hp') ∧ ap.texts (hp'.mem m) = t

theorem parsesTo_iff {b : Bytes} {t : AuthText} : ParsesTo b t ↔ parseText b = some t := by
  constructor
  · intro h
    obtain ⟨ap, hp', hRun, rfl⟩ := h (fun _ => .zero) _ (room_sizeof (Nat.le_refl _))
    have hText := texts_parse hRun
    rwa [Mem.read_lit] at hText
  · intro h m hp hRoom
    obtain ⟨⟨s, qs⟩, hText, rfl⟩ := Option.map_eq_some_iff.mp h
    have hRead := read_parseParts (hp.mem m) (Str.lit b)
    rw [Mem.read_lit, hText] at hRead
    obtain ⟨⟨scheme, ps⟩, hParts, hPair⟩ := Option.map_eq_some_iff.mp hRead
    obtain ⟨rfl, rfl⟩ := Prod.mk.inj hPair
    have hIs := texts_assigned (hp.mem m) { scheme } ps
    have hCount := congrArg (fun a => a.params.length) hIs
    simp only [texts, List.length_map] at hCount
    obtain ⟨hp', hRun⟩ := parse_run hParts (Nat.lt_succ_of_le (Nat.le_of_eq hCount)) hRoom
    refine ⟨_, hp', hRun, ?_⟩
    rw [(parse_ok hRun).1, hIs]
    rfl

end Auth

end Microsippy
