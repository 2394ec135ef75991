import Microsippy.AuthHdr
import Microsippy.Lib.Run

/-! # Parsing the headers of a message

`usipy_sip_msg_parse_hdrs`: which headers of a message have a parsed value, over every sequence of
calls.
-/

namespace Microsippy

set_option autoImplicit false

/-! ## Masks of header types -/

namespace Hf

/-- `USIPY_HFT_MASK`. -/
def mask (t : Hf) : BitVec 64 := 1#64 <<< t.toNat

/-- `USIPY_HF_ISMSET`. -/
def isMSet (msk : BitVec 64) (t : Hf) : Bool := msk &&& t.mask != 0#64

theorem toNat_lt (t : Hf) : t.toNat < 64 := by
  cases t <;> decide

theorem toNat_inj {t u : Hf} (h : t.toNat = u.toNat) : t = u := by
  have hAt : ∀ t : Hf, all[t.toNat]? = some t := by
    intro t
    cases t <;> rfl
  have hSame := hAt t
  rw [h, hAt u] at hSame
  exact (Option.some.inj hSame).symm

theorem isMSet_eq (msk : BitVec 64) (t : Hf) : isMSet msk t = msk.getLsbD t.toNat := by
  have hMask : t.mask = BitVec.twoPow 64 t.toNat := by
    rw [mask, BitVec.twoPow]
  have hLt := t.toNat_lt
  rw [isMSet, hMask, BitVec.and_twoPow]
  split
  · rename_i hSet
    rw [hSet, bne_iff_ne]
    intro hZero
    have hBit := congrArg (·.getLsbD t.toNat) hZero
    simp [hLt] at hBit
  · rename_i hClear
    simpa using hClear

@[simp] theorem isMSet_zero (t : Hf) : isMSet 0#64 t = false := by simp [isMSet_eq]

@[simp] theorem isMSet_and (x y : BitVec 64) (t : Hf) :
    isMSet (x &&& y) t = (isMSet x t && isMSet y t) := by simp [isMSet_eq]

@[simp] theorem isMSet_or (x y : BitVec 64) (t : Hf) :
    isMSet (x ||| y) t = (isMSet x t || isMSet y t) := by simp [isMSet_eq]

@[simp] theorem isMSet_not (x : BitVec 64) (t : Hf) : isMSet (~~~x) t = !isMSet x t := by
  simp [isMSet_eq, t.toNat_lt]

@[simp] theorem isMSet_mask (t u : Hf) : isMSet t.mask u = decide (t = u) := by
  have hMask : t.mask = BitVec.twoPow 64 t.toNat := by
    rw [mask, BitVec.twoPow]
  have hLt := t.toNat_lt
  rw [isMSet_eq, hMask, BitVec.getLsbD_twoPow]
  by_cases hSame : t = u
  · simp [hSame, u.toNat_lt]
  · have hNe : t.toNat ≠ u.toNat := fun h => hSame (toNat_inj h)
    simp [hSame, hNe]

end Hf

open Hf (isMSet)

/-! ## The function -/

/-- `union usipy_sip_hdr_parsed` of any header. -/
inductive HdrVal where
  | hdr (p : ParsedHdr)
  | auth (a : Auth)
  deriving DecidableEq, Repr

/-- The `parse` member of a header's entry, those of `auth` included, called over the stack there is
when the heap is so far. -/
def HdrParse.value (stack : Heap → Str) (m : Mem) (hvp : Str) (parse : HdrParse) : HeapM HdrVal :=
  match parse with
  | .auth => do return .auth (← Auth.parse m hvp)
  | other => do
    let hp ← Op.get
    return .hdr (← other.run (stack hp) m hvp)

/-- `struct usipy_sip_hdr`. -/
structure SipHdr where
  hf_type : Hf
  value : Str
  parsed : Option HdrVal := none
  deriving DecidableEq, Repr

namespace SipHdr

def cantype (h : SipHdr) : Hf := (hdrDb h.hf_type).cantype

def parse (h : SipHdr) : Option HdrParse := (hdrDb h.hf_type).parse

end SipHdr

/-- `struct usipy_msg` with what parsing its headers reads and changes. -/
structure SipMsg where
  hdrs : List SipHdr
  heap : Heap
  present : BitVec 64
  parsed : BitVec 64 := 0#64

/-- The variables of the loop, with the positions of `hdrsp[0 .. nmatches)`. -/
structure ParseLoop where
  parsemask : BitVec 64
  seenmask : BitVec 64 := 0#64
  topparsed : BitVec 64 := 0#64
  hdrsp : List Nat := []
  deriving DecidableEq

/-- The arguments of a call, `hdrslen` none without a `matchp`, and what the stack has as the heap
fills. -/
structure ParseArgs where
  parsemask : BitVec 64
  toponly : Bool
  hdrslen : Option Nat := none
  stack : Heap → Str := fun _ => Str.null

namespace ParseLoop

variable (m : Mem) (args : ParseArgs)

/-- The header reported, if it is to be and there is room. -/
def report (i : Nat) (h : SipHdr) (s : ParseLoop) : Option ParseLoop :=
  match args.hdrslen with
  | none => some s
  | some hdrslen =>
    if isMSet args.parsemask h.cantype && (!args.toponly || !isMSet s.seenmask h.cantype) then
      if s.hdrsp.length ≥ hdrslen then none
      else some { s with hdrsp := s.hdrsp ++ [i], seenmask := s.seenmask ||| h.cantype.mask }
    else some s

/-- A turn of the loop: the variables, the header and the heap it leaves. -/
def turn (i : Nat) (h : SipHdr) (s : ParseLoop) (hp : Heap) :
    Option (Except Unit ParseLoop × SipHdr × Heap) :=
  match s.report args i h with
  | none => some (.error (), h, hp)
  | some s =>
    if isMSet s.parsemask h.cantype then
      match h.parse with
      | none => some (.error (), h, hp)
      | some parse =>
        match (parse.value args.stack m h.value).run hp with
        | none => none
        | some (.error _, hp) => some (.error (), { h with parsed := none }, hp)
        | some (.ok p, hp) =>
          let s := if args.toponly then
              { s with
                parsemask := s.parsemask &&& ~~~h.cantype.mask
                topparsed := s.topparsed ||| h.cantype.mask }
            else s
          some (.ok s, { h with parsed := some p }, hp)
    else
      let s := if args.toponly && isMSet s.topparsed h.cantype then
          { s with topparsed := s.topparsed &&& ~~~h.cantype.mask }
        else s
      some (.ok s, h, hp)

def loop : Nat → List SipHdr → ParseLoop → Heap →
    Option (Except Unit ParseLoop × List SipHdr × Heap)
  | _, [], s, hp => some (.ok s, [], hp)
  | i, h :: hs, s, hp =>
    match turn m args i h s hp with
    | none => none
    | some (.error e, h, hp) => some (.error e, h :: hs, hp)
    | some (.ok s, h, hp) => (loop (i + 1) hs s hp).map fun (r, hs, hp) => (r, h :: hs, hp)

end ParseLoop

/-- `usipy_sip_msg_parse_hdrs_impl`, to the positions of the headers it reports. -/
def parseHdrsImpl (m : Mem) (args : ParseArgs) : Op Unit SipMsg (List Nat) := fun mp =>
  if mp.present &&& args.parsemask ≠ args.parsemask then some (.error (), mp)
  else
    match ParseLoop.loop m args 0 mp.hdrs { parsemask := args.parsemask &&& ~~~mp.parsed } mp.heap with
    | none => none
    | some (.error e, hdrs, heap) => some (.error e, { mp with hdrs, heap })
    | some (.ok s, hdrs, heap) =>
      let more := if args.toponly then s.topparsed else s.parsemask
      some (.ok s.hdrsp, { mp with hdrs, heap, parsed := mp.parsed ||| more })

/-- A message as it is received, nothing parsed yet. -/
def SipMsg.received (hdrs : List (Hf × Str)) (heap : Heap) : SipMsg where
  hdrs := hdrs.map fun h => { hf_type := h.1, value := h.2 }
  heap
  present := hdrs.foldl (fun msk h => msk ||| (hdrDb h.1).cantype.mask) 0#64

/-! ## Which headers a call is about -/

section Picked

variable (toponly : Bool) (msk : BitVec 64)

/-- A header of a type in a mask, the first of its type where only those count. -/
def Picks (pre : List SipHdr) (h : SipHdr) : Prop :=
  isMSet msk h.cantype = true ∧ (toponly = true → ∀ g ∈ pre, g.cantype ≠ h.cantype)

instance (pre : List SipHdr) (h : SipHdr) : Decidable (Picks toponly msk pre h) :=
  inferInstanceAs (Decidable (_ ∧ _))

/-- The headers picked, with their positions, after those of `pre`. -/
def picked : List SipHdr → List SipHdr → List (Nat × SipHdr)
  | _, [] => []
  | pre, h :: hs =>
    (if Picks toponly msk pre h then [(pre.length, h)] else []) ++ picked (pre ++ [h]) hs

theorem picked_append (pre hs hs' : List SipHdr) :
    picked toponly msk pre (hs ++ hs') =
      picked toponly msk pre hs ++ picked toponly msk (pre ++ hs) hs' := by
  induction hs generalizing pre with
  | nil => simp [picked]
  | cons h hs ih => simp [picked, ih]

theorem picked_concat (pre : List SipHdr) (h : SipHdr) :
    picked toponly msk [] (pre ++ [h]) = picked toponly msk [] pre ++
      if Picks toponly msk pre h then [(pre.length, h)] else [] := by
  simp [picked_append, picked]

end Picked

/-- The headers of a list parsed one after the other. -/
def parseEach (stack : Heap → Str) (m : Mem) : List SipHdr → HeapM Unit
  | [] => pure ()
  | h :: hs => do
    let parse ← Op.orElse h.parse ()
    let _ ← parse.value stack m h.value
    parseEach stack m hs

theorem parseEach_append {stack : Heap → Str} {m : Mem} {hs hs' : List SipHdr} {hp hp' : Heap} :
    (parseEach stack m (hs ++ hs')).run hp = some (.ok (), hp') ↔
      ∃ hp₁, (parseEach stack m hs).run hp = some (.ok (), hp₁) ∧
        (parseEach stack m hs').run hp₁ = some (.ok (), hp') := by
  induction hs generalizing hp with
  | nil => simp [parseEach]
  | cons h hs ih =>
    simp only [List.cons_append, parseEach, Op.bind_ok, ih]
    constructor
    · rintro ⟨parse, t, hParse, v, u, hValue, hp₁, hFirst, hRest⟩
      exact ⟨hp₁, ⟨parse, t, hParse, v, u, hValue, hFirst⟩, hRest⟩
    · rintro ⟨hp₁, ⟨parse, t, hParse, v, u, hValue, hFirst⟩, hRest⟩
      exact ⟨parse, t, hParse, v, u, hValue, hp₁, hFirst, hRest⟩

theorem parseEach_one {stack : Heap → Str} {m : Mem} {h : SipHdr} {hp hp' : Heap} :
    (parseEach stack m [h]).run hp = some (.ok (), hp') ↔
      ∃ parse p, h.parse = some parse ∧ (parse.value stack m h.value).run hp = some (.ok p, hp') := by
  simp only [parseEach, Op.bind_ok, Op.orElse_ok, Op.pure_ok]
  constructor
  · rintro ⟨parse, t, ⟨hParse, rfl⟩, p, u, hValue, -, rfl⟩
    exact ⟨parse, p, hParse, hValue⟩
  · rintro ⟨parse, p, hParse, hValue⟩
    exact ⟨parse, _, ⟨hParse, rfl⟩, p, _, hValue, trivial, rfl⟩

namespace ParseArgs

variable (args : ParseArgs)

/-- The positions of the headers a call reports. -/
def reported (hdrs : List SipHdr) : List Nat :=
  (picked args.toponly args.parsemask [] hdrs).map (·.1)

/-- The report has room for what is in `hdrs`. -/
def Room (hdrs : List SipHdr) : Prop := ∀ l ∈ args.hdrslen, (args.reported hdrs).length ≤ l

/-- The headers that are parsed, by the types that are not marked as parsed. -/
def tried (marked : BitVec 64) (hdrs : List SipHdr) : List SipHdr :=
  (picked args.toponly (args.parsemask &&& ~~~marked) [] hdrs).map (·.2)

theorem reported_concat (pre : List SipHdr) (h : SipHdr) :
    args.reported (pre ++ [h]) = args.reported pre ++
      if Picks args.toponly args.parsemask pre h then [pre.length] else [] := by
  rw [reported, picked_concat, List.map_append, reported]
  split <;> rfl

theorem tried_concat (marked : BitVec 64) (pre : List SipHdr) (h : SipHdr) :
    args.tried marked (pre ++ [h]) = args.tried marked pre ++
      if Picks args.toponly (args.parsemask &&& ~~~marked) pre h then [h] else [] := by
  rw [tried, picked_concat, List.map_append, tried]
  split <;> rfl

theorem Room.of_append {args : ParseArgs} {pre hs : List SipHdr} (hRoom : args.Room (pre ++ hs)) :
    args.Room pre := by
  intro l hl
  have hLe := hRoom l hl
  rw [reported, picked_append, List.map_append, List.length_append] at hLe
  exact Nat.le_trans (Nat.le_add_right _ _) hLe

end ParseArgs

/-! ## The loop -/

section Loop

variable (m : Mem) (args : ParseArgs) (mp : SipMsg)

/-- The variables of the loop after the headers of `pre`, in a call on `mp`. -/
structure LoopAt (pre : List SipHdr) (s : ParseLoop) (hp : Heap) : Prop where
  parsemask : ∀ t, isMSet s.parsemask t = true ↔
    isMSet (args.parsemask &&& ~~~mp.parsed) t = true ∧
      (args.toponly = true → ∀ g ∈ pre, g.cantype ≠ t)
  seenmask : ∀ t, isMSet s.seenmask t = true ↔
    args.hdrslen.isSome = true ∧ isMSet args.parsemask t = true ∧ ∃ g ∈ pre, g.cantype = t
  topparsed : ∀ t, isMSet s.topparsed t = true ↔ args.toponly = true ∧
    isMSet (args.parsemask &&& ~~~mp.parsed) t = true ∧ pre.countP (·.cantype = t) = 1
  hdrsp : s.hdrsp = if args.hdrslen.isSome then args.reported pre else []
  heap : (parseEach args.stack m (args.tried mp.parsed pre)).run mp.heap = some (.ok (), hp)
  room : args.Room pre

/-- The call comes to a header after those of `pre` that is to be parsed and does not parse. -/
structure FailsAt (pre : List SipHdr) (h : SipHdr) : Prop where
  picks : Picks args.toponly (args.parsemask &&& ~~~mp.parsed) pre h
  room : args.Room (pre ++ [h])
  fails : ∃ parse hp hp', (parseEach args.stack m (args.tried mp.parsed pre)).run mp.heap = some (.ok (), hp) ∧
    h.parse = some parse ∧ (parse.value args.stack m h.value).run hp = some (.error (), hp')

/-- The call goes on past a header. -/
def Passes (pre : List SipHdr) : Prop :=
  args.Room pre ∧ ∃ hp, (parseEach args.stack m (args.tried mp.parsed pre)).run mp.heap = some (.ok (), hp)

variable {m args mp}

theorem LoopAt.start :
    LoopAt m args mp [] { parsemask := args.parsemask &&& ~~~mp.parsed } mp.heap := by
  constructor
  · intro t
    simp
  · intro t
    simp
  · intro t
    simp
  · simp [ParseArgs.reported, picked]
  · rfl
  · intro l hl
    exact Nat.zero_le l

theorem LoopAt.report {pre : List SipHdr} {s : ParseLoop} {hp : Heap}
    (hAt : LoopAt m args mp pre s hp) (h : SipHdr) :
    (s.report args pre.length h = none ∧ ¬ args.Room (pre ++ [h])) ∨
      ∃ seenmask hdrsp, s.report args pre.length h = some { s with seenmask, hdrsp } ∧
        args.Room (pre ++ [h]) ∧
        hdrsp = (if args.hdrslen.isSome then args.reported (pre ++ [h]) else []) ∧
        ∀ t, isMSet seenmask t = true ↔ args.hdrslen.isSome = true ∧
          isMSet args.parsemask t = true ∧ ∃ g ∈ pre ++ [h], g.cantype = t := by
  have hSeen := hAt.seenmask
  have hHdrsp := hAt.hdrsp
  have hRoom := hAt.room
  simp only [ParseLoop.report, ParseArgs.Room, args.reported_concat] at hRoom ⊢
  cases hLen : args.hdrslen with
  | none =>
    rw [hLen] at hHdrsp
    refine .inr ⟨s.seenmask, s.hdrsp, rfl, fun l hl => (by cases hl), hHdrsp, fun t => ?_⟩
    simp [hSeen, hLen]
  | some l =>
    rw [hLen] at hHdrsp hRoom hSeen
    simp only [Option.isSome_some, true_and, if_true] at hHdrsp hSeen ⊢
    have hFresh : (isMSet args.parsemask h.cantype &&
        (!args.toponly || !isMSet s.seenmask h.cantype)) = true ↔
          Picks args.toponly args.parsemask pre h := by
      have hNotSeen : isMSet s.seenmask h.cantype = false ↔
          ¬ (isMSet args.parsemask h.cantype = true ∧ ∃ g ∈ pre, g.cantype = h.cantype) := by
        rw [← hSeen, Bool.not_eq_true]
      simp only [Picks, Bool.and_eq_true, Bool.or_eq_true, Bool.not_eq_true', hNotSeen]
      constructor
      · rintro ⟨hSet, hTop | hNone⟩
        · exact ⟨hSet, fun hOnly => by rw [hTop] at hOnly; cases hOnly⟩
        · exact ⟨hSet, fun _ g hg hSame => hNone ⟨hSet, g, hg, hSame⟩⟩
      · rintro ⟨hSet, hFirst⟩
        refine ⟨hSet, ?_⟩
        cases hTop : args.toponly with
        | false => exact .inl rfl
        | true => exact .inr fun ⟨_, g, hg, hSame⟩ => hFirst hTop g hg hSame
    simp only [hFresh]
    by_cases hPicks : Picks args.toponly args.parsemask pre h
    · simp only [if_pos hPicks, List.length_append, List.length_singleton, hHdrsp]
      by_cases hFull : (args.reported pre).length ≥ l
      · refine .inl ⟨if_pos hFull, fun hAll => ?_⟩
        have hLe := hAll l rfl
        omega
      · refine .inr ⟨_, _, if_neg hFull, fun l' hl' => ?_, rfl, fun t => ?_⟩
        · obtain rfl := Option.some.inj hl'
          omega
        · simp only [Hf.isMSet_or, Bool.or_eq_true, hSeen, Hf.isMSet_mask, decide_eq_true_eq,
            List.mem_append, List.mem_singleton, or_and_right, exists_or, exists_eq_left]
          constructor
          · rintro (⟨hSet, hIn⟩ | rfl)
            · exact ⟨hSet, .inl hIn⟩
            · exact ⟨hPicks.1, .inr rfl⟩
          · rintro ⟨hSet, hIn | rfl⟩
            · exact .inl ⟨hSet, hIn⟩
            · exact .inr rfl
    · simp only [if_neg hPicks, List.append_nil]
      refine .inr ⟨_, _, rfl, hRoom, hHdrsp, fun t => ?_⟩
      rw [hSeen]
      simp only [List.mem_append, List.mem_singleton, or_and_right, exists_or, exists_eq_left]
      constructor
      · rintro ⟨hSet, hIn⟩
        exact ⟨hSet, .inl hIn⟩
      · rintro ⟨hSet, hIn | rfl⟩
        · exact ⟨hSet, hIn⟩
        · refine ⟨hSet, ?_⟩
          by_contra hNone
          exact hPicks ⟨hSet, fun _ g hg hSame => hNone ⟨g, hg, hSame⟩⟩

theorem LoopAt.picks_iff {pre : List SipHdr} {s : ParseLoop} {hp : Heap}
    (hAt : LoopAt m args mp pre s hp) (h : SipHdr) :
    isMSet s.parsemask h.cantype = true ↔
      Picks args.toponly (args.parsemask &&& ~~~mp.parsed) pre h := hAt.parsemask h.cantype

/-- A turn goes on, stops before the header is parsed, or stops because it does not parse. -/
theorem LoopAt.turn {pre : List SipHdr} {s : ParseLoop} {hp hp' : Heap} {h h' : SipHdr}
    {r : Except Unit ParseLoop} (hAt : LoopAt m args mp pre s hp)
    (hTurn : ParseLoop.turn m args pre.length h s hp = some (r, h', hp')) :
    (∃ s', r = .ok s' ∧ LoopAt m args mp (pre ++ [h]) s' hp' ∧
      ((¬ Picks args.toponly (args.parsemask &&& ~~~mp.parsed) pre h ∧ h' = h) ∨
        Picks args.toponly (args.parsemask &&& ~~~mp.parsed) pre h ∧
          ∃ p, h' = { h with parsed := some p })) ∨
      (r = .error () ∧ ¬ Passes m args mp (pre ++ [h]) ∧
        (h' = h ∧ ¬ FailsAt m args mp pre h ∨
          h' = { h with parsed := none } ∧ FailsAt m args mp pre h)) := by
  have hPicks := hAt.picks_iff h
  simp only [ParseLoop.turn] at hTurn
  obtain ⟨hReport, hFull⟩ | ⟨seenmask, hdrsp, hReport, hRoom, hHdrsp, hSeen⟩ := hAt.report h
  · rw [hReport] at hTurn
    obtain ⟨rfl, rfl, rfl⟩ : .error () = r ∧ h = h' ∧ hp = hp' := by simpa using hTurn
    exact .inr ⟨rfl, fun hPasses => hFull hPasses.1, .inl ⟨rfl, fun hFails => hFull hFails.room⟩⟩
  · rw [hReport] at hTurn
    dsimp only at hTurn
    by_cases hSet : isMSet s.parsemask h.cantype = true
    · rw [if_pos hSet] at hTurn
      have hPick := hPicks.mp hSet
      have hTried : args.tried mp.parsed (pre ++ [h]) = args.tried mp.parsed pre ++ [h] := by
        rw [args.tried_concat, if_pos hPick]
      have hOne : Passes m args mp (pre ++ [h]) → ∃ parse p hp', h.parse = some parse ∧
          (parse.value args.stack m h.value).run hp = some (.ok p, hp') := by
        rintro ⟨-, hp₂, hEach⟩
        rw [hTried, parseEach_append] at hEach
        obtain ⟨hp₁, hBefore, hLast⟩ := hEach
        obtain ⟨parse, p, hParse, hValue⟩ := parseEach_one.mp hLast
        rw [hAt.heap] at hBefore
        obtain ⟨-, rfl⟩ := Prod.mk.inj (Option.some.inj hBefore)
        exact ⟨parse, p, hp₂, hParse, hValue⟩
      cases hParse : h.parse with
      | none =>
        rw [hParse] at hTurn
        obtain ⟨rfl, rfl, rfl⟩ : .error () = r ∧ h = h' ∧ hp = hp' := by simpa using hTurn
        refine .inr ⟨rfl, fun hPasses => ?_, .inl ⟨rfl, fun hFails => ?_⟩⟩
        · obtain ⟨parse, p, hp', hSome, -⟩ := hOne hPasses
          rw [hParse] at hSome
          cases hSome
        · obtain ⟨parse, _, _, -, hSome, -⟩ := hFails.fails
          rw [hParse] at hSome
          cases hSome
      | some parse =>
        rw [hParse] at hTurn
        cases hValue : (parse.value args.stack m h.value).run hp with
        | none =>
          simp only [hValue] at hTurn
          cases hTurn
        | some out =>
          obtain ⟨q, hp₁⟩ := out
          simp only [hValue] at hTurn
          cases q with
          | error e =>
            obtain ⟨rfl, rfl, rfl⟩ : .error () = r ∧ { h with parsed := none } = h' ∧ hp₁ = hp' := by
              simpa using hTurn
            refine .inr ⟨rfl, fun hPasses => ?_, .inr ⟨rfl, hPick, hRoom, parse, hp, hp₁, hAt.heap,
              hParse, hValue⟩⟩
            obtain ⟨parse', p, hp', hSome, hOk⟩ := hOne hPasses
            rw [hParse] at hSome
            obtain rfl := Option.some.inj hSome
            rw [hValue] at hOk
            cases hOk
          | ok p =>
            simp only [Option.some.injEq, Prod.mk.injEq] at hTurn
            obtain ⟨rfl, rfl, rfl⟩ := hTurn
            have hHeap : (parseEach args.stack m (args.tried mp.parsed (pre ++ [h]))).run mp.heap =
                some (.ok (), hp₁) := by
              rw [hTried]
              exact parseEach_append.mpr ⟨hp, hAt.heap, parseEach_one.mpr ⟨parse, p, hParse, hValue⟩⟩
            refine .inl ⟨_, rfl, ?_, .inr ⟨hPick, p, rfl⟩⟩
            cases hTop : args.toponly with
            | true =>
              have hNone : pre.countP (·.cantype = h.cantype) = 0 := by
                rw [List.countP_eq_zero]
                intro g hg hSame
                exact hPick.2 hTop g hg (of_decide_eq_true hSame)
              refine ⟨fun t => ?_, hSeen, fun t => ?_, hHdrsp, hHeap, hRoom⟩
              · have hMask := hAt.parsemask t
                simp only [hTop, if_true, Hf.isMSet_and, Hf.isMSet_not, Hf.isMSet_mask,
                  Bool.and_eq_true, Bool.not_eq_true', decide_eq_false_iff_not, forall_const,
                  List.mem_append, List.mem_singleton, or_imp, forall_and, forall_eq] at hMask ⊢
                rw [hMask]
                tauto
              · have hMask := hAt.topparsed t
                simp only [hTop, if_true, Hf.isMSet_or, Hf.isMSet_mask, Bool.or_eq_true,
                  decide_eq_true_eq, true_and, List.countP_append, List.countP_singleton] at hMask ⊢
                rw [hMask]
                by_cases hSame : h.cantype = t
                · subst hSame
                  simp [hNone, hPick.1]
                · simp [hSame]
            | false =>
              refine ⟨fun t => ?_, hSeen, fun t => ?_, hHdrsp, hHeap, hRoom⟩
              · have hMask := hAt.parsemask t
                simpa [hTop] using hMask
              · have hMask := hAt.topparsed t
                simpa [hTop] using hMask
    · rw [if_neg hSet] at hTurn
      simp only [Option.some.injEq, Prod.mk.injEq] at hTurn
      obtain ⟨rfl, rfl, rfl⟩ := hTurn
      have hNot : ¬ Picks args.toponly (args.parsemask &&& ~~~mp.parsed) pre h := fun hPick =>
        hSet (hPicks.mpr hPick)
      have hHeap : (parseEach args.stack m (args.tried mp.parsed (pre ++ [h]))).run mp.heap =
          some (.ok (), hp) := by
        rw [args.tried_concat, if_neg hNot, List.append_nil]
        exact hAt.heap
      have hMask : ∀ t, isMSet s.parsemask t = true ↔
          isMSet (args.parsemask &&& ~~~mp.parsed) t = true ∧
            (args.toponly = true → ∀ g ∈ pre ++ [h], g.cantype ≠ t) := by
        intro t
        rw [hAt.parsemask]
        constructor
        · rintro ⟨hAsked, hFirst⟩
          refine ⟨hAsked, fun hTop g hg => ?_⟩
          obtain hg | hg := List.mem_append.mp hg
          · exact hFirst hTop g hg
          · obtain rfl := List.mem_singleton.mp hg
            rintro rfl
            exact hNot ⟨hAsked, hFirst⟩
        · rintro ⟨hAsked, hFirst⟩
          exact ⟨hAsked, fun hTop g hg => hFirst hTop g (List.mem_append_left _ hg)⟩
      have hOnce : args.toponly = true ∧
          isMSet (args.parsemask &&& ~~~mp.parsed) h.cantype = true ∧
            (pre ++ [h]).countP (·.cantype = h.cantype) = 1 → False := by
        rintro ⟨-, hAsked, hCount⟩
        refine hNot ⟨hAsked, fun _ g hg hSame => ?_⟩
        have hSome : 0 < pre.countP (·.cantype = h.cantype) :=
          List.countP_pos_iff.mpr ⟨g, hg, decide_eq_true hSame⟩
        rw [List.countP_append, List.countP_singleton] at hCount
        simp only [decide_true, if_true] at hCount
        omega
      have hOther : ∀ t, h.cantype ≠ t →
          (pre ++ [h]).countP (·.cantype = t) = pre.countP (·.cantype = t) := by
        intro t hNe
        simp [List.countP_append, hNe]
      refine .inl ⟨_, rfl, ?_, .inl ⟨hNot, rfl⟩⟩
      split
      · refine ⟨hMask, hSeen, fun t => ?_, hHdrsp, hHeap, hRoom⟩
        by_cases hSame : h.cantype = t
        · subst hSame
          constructor
          · intro hLeft
            simp at hLeft
          · intro hRight
            exact (hOnce hRight).elim
        · rw [hOther t hSame]
          have hTopped := hAt.topparsed t
          simpa [hSame] using hTopped
      · rename_i hClear
        refine ⟨hMask, hSeen, fun t => ?_, hHdrsp, hHeap, hRoom⟩
        by_cases hSame : h.cantype = t
        · subst hSame
          constructor
          · intro hLeft
            exact (hClear (by simp [((hAt.topparsed _).mp hLeft).1, hLeft])).elim
          · intro hRight
            exact (hOnce hRight).elim
        · rw [hOther t hSame]
          exact hAt.topparsed t

/-- How the headers of a list are left: parsed as far as the loop goes. -/
inductive Left (m : Mem) (args : ParseArgs) (mp : SipMsg) :
    List SipHdr → List SipHdr → List SipHdr → Bool → Prop where
  | done {pre : List SipHdr} : Left m args mp pre [] [] true
  | before {pre hs : List SipHdr} {h : SipHdr} : Left m args mp pre (h :: hs) (h :: hs) false
  | lost {pre hs : List SipHdr} {h : SipHdr} (hFails : FailsAt m args mp pre h) :
      Left m args mp pre (h :: hs) ({ h with parsed := none } :: hs) false
  | kept {pre hs hs' : List SipHdr} {h : SipHdr} {all : Bool}
      (hNot : ¬ Picks args.toponly (args.parsemask &&& ~~~mp.parsed) pre h)
      (hRest : Left m args mp (pre ++ [h]) hs hs' all) : Left m args mp pre (h :: hs) (h :: hs') all
  | parsed {pre hs hs' : List SipHdr} {h : SipHdr} {all : Bool} {p : HdrVal}
      (hPick : Picks args.toponly (args.parsemask &&& ~~~mp.parsed) pre h)
      (hRest : Left m args mp (pre ++ [h]) hs hs' all) :
      Left m args mp pre (h :: hs) ({ h with parsed := some p } :: hs') all

/-- The loop from one of its turns on. -/
theorem LoopAt.loop {pre hs hs' : List SipHdr} {s : ParseLoop} {hp hp' : Heap}
    {r : Except Unit ParseLoop} (hAt : LoopAt m args mp pre s hp)
    (hLoop : ParseLoop.loop m args pre.length hs s hp = some (r, hs', hp')) :
    (∃ s', r = .ok s' ∧ LoopAt m args mp (pre ++ hs) s' hp' ∧ Left m args mp pre hs hs' true) ∨
      (r = .error () ∧ Left m args mp pre hs hs' false) := by
  induction hs generalizing pre s hp hs' with
  | nil =>
    obtain ⟨rfl, rfl, rfl⟩ : .ok s = r ∧ [] = hs' ∧ hp = hp' := by
      simpa [ParseLoop.loop] using hLoop
    exact .inl ⟨s, rfl, by simpa using hAt, .done⟩
  | cons h hs ih =>
    rw [ParseLoop.loop] at hLoop
    cases hTurn : ParseLoop.turn m args pre.length h s hp with
    | none =>
      rw [hTurn] at hLoop
      cases hLoop
    | some out =>
      obtain ⟨q, h', hp₁⟩ := out
      rw [hTurn] at hLoop
      obtain ⟨s', rfl, hAt', hHdr⟩ | ⟨rfl, -, hHdr⟩ := hAt.turn hTurn
      · obtain ⟨⟨r₁, hs₁, hp₂⟩, hRest, hOut⟩ := Option.map_eq_some_iff.mp hLoop
        obtain ⟨rfl, rfl, rfl⟩ : r₁ = r ∧ h' :: hs₁ = hs' ∧ hp₂ = hp' := by simpa using hOut
        have hLength : (pre ++ [h]).length = pre.length + 1 := by simp
        have hJoin : ∀ all, Left m args mp (pre ++ [h]) hs hs₁ all →
            Left m args mp pre (h :: hs) (h' :: hs₁) all := by
          intro all hLeft
          obtain ⟨hNot, rfl⟩ | ⟨hPick, p, rfl⟩ := hHdr
          · exact .kept hNot hLeft
          · exact .parsed hPick hLeft
        rw [← hLength] at hRest
        obtain ⟨s'', rfl, hEnd, hLeft⟩ | ⟨rfl, hLeft⟩ := ih hAt' hRest
        · exact .inl ⟨s'', rfl, by simpa using hEnd, hJoin _ hLeft⟩
        · exact .inr ⟨rfl, hJoin _ hLeft⟩
      · obtain ⟨rfl, rfl, rfl⟩ : .error () = r ∧ h' :: hs = hs' ∧ hp₁ = hp' := by
          simpa using hLoop
        obtain ⟨rfl, -⟩ | ⟨rfl, hFails⟩ := hHdr
        · exact .inr ⟨rfl, .before⟩
        · exact .inr ⟨rfl, .lost hFails⟩

/-- What becomes of one header. -/
theorem Left.at {pre hs hs' : List SipHdr} {all : Bool} (hLeft : Left m args mp pre hs hs' all)
    {j : Nat} {h : SipHdr} (hGet : hs[j]? = some h) :
    ∃ h', hs'[j]? = some h' ∧ h'.hf_type = h.hf_type ∧
      ((h' = h ∧ (all = true →
          ¬ Picks args.toponly (args.parsemask &&& ~~~mp.parsed) (pre ++ hs.take j) h)) ∨
        (Picks args.toponly (args.parsemask &&& ~~~mp.parsed) (pre ++ hs.take j) h ∧
          h'.parsed.isSome) ∨
        (all = false ∧ h'.parsed = none ∧ FailsAt m args mp (pre ++ hs.take j) h)) := by
  induction hLeft generalizing j with
  | done => cases hGet
  | before => exact ⟨h, hGet, rfl, .inl ⟨rfl, fun hAll => by cases hAll⟩⟩
  | lost hFails =>
    cases j with
    | zero =>
      obtain rfl := Option.some.inj hGet
      exact ⟨_, rfl, rfl, .inr (.inr ⟨rfl, rfl, by simpa using hFails⟩)⟩
    | succ j => exact ⟨h, hGet, rfl, .inl ⟨rfl, fun hAll => by cases hAll⟩⟩
  | kept hNot hRest ih =>
    cases j with
    | zero =>
      obtain rfl := Option.some.inj hGet
      exact ⟨_, rfl, rfl, .inl ⟨rfl, fun _ => by simpa using hNot⟩⟩
    | succ j => simpa using ih hGet
  | parsed hPick hRest ih =>
    cases j with
    | zero =>
      obtain rfl := Option.some.inj hGet
      exact ⟨_, rfl, rfl, .inr (.inl ⟨by simpa using hPick, rfl⟩)⟩
    | succ j => simpa using ih hGet

theorem Left.types {pre hs hs' : List SipHdr} {all : Bool} (hLeft : Left m args mp pre hs hs' all) :
    hs'.map SipHdr.cantype = hs.map SipHdr.cantype := by
  induction hLeft with
  | done => rfl
  | before => rfl
  | lost => rfl
  | kept _ _ ih => rw [List.map_cons, List.map_cons, ih]
  | parsed _ _ ih => rw [List.map_cons, List.map_cons, ih]; rfl

theorem FailsAt.passes {pre mid : List SipHdr} {g h : SipHdr}
    (hFails : FailsAt m args mp (pre ++ g :: mid) h) : Passes m args mp (pre ++ [g]) := by
  obtain ⟨-, hRoom, parse, hp, hp', hEach, -⟩ := hFails
  have hSplit : pre ++ g :: mid = pre ++ [g] ++ mid := by simp
  rw [hSplit] at hRoom hEach
  constructor
  · rw [List.append_assoc] at hRoom
    exact hRoom.of_append
  · rw [ParseArgs.tried, picked_append, List.map_append, parseEach_append] at hEach
    obtain ⟨hp₁, hFirst, -⟩ := hEach
    exact ⟨hp₁, hFirst⟩

/-- A header that does not parse when the call comes to it loses its value. -/
theorem LoopAt.loses {pre mid post hs' : List SipHdr} {h : SipHdr} {s : ParseLoop} {hp hp' : Heap}
    {r : Except Unit ParseLoop} (hAt : LoopAt m args mp pre s hp)
    (hFails : FailsAt m args mp (pre ++ mid) h)
    (hLoop : ParseLoop.loop m args pre.length (mid ++ h :: post) s hp = some (r, hs', hp')) :
    hs'[mid.length]? = some { h with parsed := none } := by
  induction mid generalizing pre s hp hs' with
  | nil =>
    rw [List.append_nil] at hFails
    rw [List.nil_append, ParseLoop.loop] at hLoop
    cases hTurn : ParseLoop.turn m args pre.length h s hp with
    | none =>
      rw [hTurn] at hLoop
      cases hLoop
    | some out =>
      obtain ⟨q, h', hp₁⟩ := out
      rw [hTurn] at hLoop
      obtain ⟨s', rfl, hNext, ⟨hNot, -⟩ | ⟨hPick, -⟩⟩ | ⟨rfl, -, ⟨-, hNo⟩ | ⟨rfl, -⟩⟩ := hAt.turn hTurn
      · exact absurd hFails.picks hNot
      · obtain ⟨parse, hp₂, hp₃, hEach, hParse, hValue⟩ := hFails.fails
        have hBoth := hNext.heap
        rw [args.tried_concat, if_pos hPick, parseEach_append] at hBoth
        obtain ⟨hp₄, hBefore, hLast⟩ := hBoth
        obtain ⟨parse', p, hParse', hOk⟩ := parseEach_one.mp hLast
        rw [hEach] at hBefore
        obtain ⟨-, rfl⟩ := Prod.mk.inj (Option.some.inj hBefore)
        rw [hParse] at hParse'
        obtain rfl := Option.some.inj hParse'
        rw [hValue] at hOk
        cases hOk
      · exact absurd hFails hNo
      · obtain ⟨-, rfl, -⟩ : .error () = r ∧ { h with parsed := none } :: post = hs' ∧ hp₁ = hp' := by
          simpa using hLoop
        rfl
  | cons g mid ih =>
    rw [List.cons_append, ParseLoop.loop] at hLoop
    cases hTurn : ParseLoop.turn m args pre.length g s hp with
    | none =>
      rw [hTurn] at hLoop
      cases hLoop
    | some out =>
      obtain ⟨q, h', hp₁⟩ := out
      rw [hTurn] at hLoop
      obtain ⟨s', rfl, hNext, -⟩ | ⟨rfl, hStop, -⟩ := hAt.turn hTurn
      · obtain ⟨⟨r₁, hs₁, hp₂⟩, hRest, hOut⟩ := Option.map_eq_some_iff.mp hLoop
        obtain ⟨rfl, rfl, rfl⟩ : r₁ = r ∧ h' :: hs₁ = hs' ∧ hp₂ = hp' := by simpa using hOut
        have hLength : (pre ++ [g]).length = pre.length + 1 := by simp
        rw [← hLength] at hRest
        have hFails' : FailsAt m args mp ((pre ++ [g]) ++ mid) h := by simpa using hFails
        simpa using ih hNext hFails' hRest
      · exact absurd hFails.passes hStop

/-- Types that are all marked as parsed: nothing is parsed again. -/
theorem LoopAt.idle {pre hs : List SipHdr} {s : ParseLoop} {hp : Heap}
    (hAt : LoopAt m args mp pre s hp) (hMask : s.parsemask = 0#64) (hTop : s.topparsed = 0#64)
    (hRoom : args.Room (pre ++ hs)) :
    ∃ s', ParseLoop.loop m args pre.length hs s hp = some (.ok s', hs, hp) ∧
      LoopAt m args mp (pre ++ hs) s' hp ∧ s'.parsemask = 0#64 ∧ s'.topparsed = 0#64 := by
  induction hs generalizing pre s with
  | nil => exact ⟨s, rfl, by simpa using hAt, hMask, hTop⟩
  | cons h hs ih =>
    have hSplit : pre ++ h :: hs = pre ++ [h] ++ hs := by simp
    rw [hSplit] at hRoom
    obtain ⟨-, hFull⟩ | ⟨seenmask, hdrsp, hReport, -⟩ := hAt.report h
    · exact absurd hRoom.of_append hFull
    · have hTurn : ParseLoop.turn m args pre.length h s hp =
          some (.ok { s with seenmask, hdrsp }, h, hp) := by
        simp only [ParseLoop.turn, hReport, hMask, hTop, Hf.isMSet_zero, Bool.and_false,
          Bool.false_eq_true, if_false]
      obtain ⟨_, hOk, hNext, -⟩ | ⟨hFailed, -⟩ := hAt.turn hTurn
      · obtain rfl := Except.ok.inj hOk
        obtain ⟨s', hLoop, hEnd, hMask', hTop'⟩ := ih hNext hMask hTop hRoom
        have hLength : (pre ++ [h]).length = pre.length + 1 := by simp
        rw [hLength] at hLoop
        refine ⟨s', ?_, by simpa using hEnd, hMask', hTop'⟩
        simp only [ParseLoop.loop, hTurn, hLoop, Option.map_some]
      · cases hFailed

end Loop

/-! ## Calls -/

namespace SipMsg

variable {m : Mem} {args : ParseArgs}

/-- A type marked as parsed has all its headers parsed. -/
def Marked (mp : SipMsg) : Prop :=
  ∀ t, isMSet mp.parsed t = true → ∀ h ∈ mp.hdrs, h.cantype = t → h.parsed.isSome = true

/-- A header had a value and has none any more. -/
def Destroys (mp mp' : SipMsg) : Prop :=
  ∃ (j : Nat) (h h' : SipHdr), mp.hdrs[j]? = some h ∧ mp'.hdrs[j]? = some h' ∧ h.parsed.isSome = true ∧ h'.parsed = none

/-- The header whose parse fails, if the call comes to one, has no value yet. -/
def Spared (m : Mem) (args : ParseArgs) (mp : SipMsg) : Prop :=
  mp.present &&& args.parsemask = args.parsemask → ∀ j h, mp.hdrs[j]? = some h →
    FailsAt m args mp (mp.hdrs.take j) h → h.parsed = none

/-- Every type asked for is marked as parsed. -/
def AllMarked (args : ParseArgs) (mp : SipMsg) : Prop := args.parsemask &&& ~~~mp.parsed = 0#64

theorem split_at {α : Type} {xs : List α} {j : Nat} {x : α} (hGet : xs[j]? = some x) :
    xs = xs.take j ++ x :: xs.drop (j + 1) := by
  obtain ⟨hLt, rfl⟩ := List.getElem?_eq_some_iff.mp hGet
  rw [List.getElem_cons_drop, List.take_append_drop]

/-- What a call does. -/
theorem call_cases {mp mp' : SipMsg} {r : Except Unit (List Nat)}
    (hRun : (parseHdrsImpl m args).run mp = some (r, mp')) :
    (mp.present &&& args.parsemask ≠ args.parsemask ∧ r = .error () ∧ mp' = mp) ∨
      (mp.present &&& args.parsemask = args.parsemask ∧ mp'.present = mp.present ∧
        ((∃ s, r = .ok s.hdrsp ∧ LoopAt m args mp mp.hdrs s mp'.heap ∧
          Left m args mp [] mp.hdrs mp'.hdrs true ∧
            mp'.parsed = mp.parsed ||| if args.toponly then s.topparsed else s.parsemask) ∨
          (r = .error () ∧ Left m args mp [] mp.hdrs mp'.hdrs false ∧ mp'.parsed = mp.parsed)) ∧
        ∀ j h, mp.hdrs[j]? = some h → FailsAt m args mp (mp.hdrs.take j) h →
          mp'.hdrs[j]? = some { h with parsed := none }) := by
  simp only [Op.run, parseHdrsImpl] at hRun
  by_cases hPresent : mp.present &&& args.parsemask = args.parsemask
  · rw [if_neg (not_not_intro hPresent)] at hRun
    have hStart : LoopAt m args mp [] { parsemask := args.parsemask &&& ~~~mp.parsed } mp.heap :=
      .start
    have hLoses : ∀ r' hs' hp', ParseLoop.loop m args 0 mp.hdrs
        { parsemask := args.parsemask &&& ~~~mp.parsed } mp.heap = some (r', hs', hp') →
        ∀ j h, mp.hdrs[j]? = some h → FailsAt m args mp (mp.hdrs.take j) h →
          hs'[j]? = some { h with parsed := none } := by
      intro r' hs' hp' hLoop j h hGet hFails
      have hLt := (List.getElem?_eq_some_iff.mp hGet).1
      have hLength : (mp.hdrs.take j).length = j := List.length_take_of_le (Nat.le_of_lt hLt)
      rw [split_at hGet] at hLoop
      have hLost := hStart.loses hFails hLoop
      rwa [hLength] at hLost
    cases hLoop : ParseLoop.loop m args 0 mp.hdrs
        { parsemask := args.parsemask &&& ~~~mp.parsed } mp.heap with
    | none =>
      rw [hLoop] at hRun
      cases hRun
    | some out =>
      obtain ⟨r', hs', hp'⟩ := out
      rw [hLoop] at hRun
      obtain ⟨s', rfl, hEnd, hLeft⟩ | ⟨rfl, hLeft⟩ := hStart.loop hLoop
      · obtain ⟨rfl, rfl⟩ := Prod.mk.inj (Option.some.inj hRun)
        exact .inr ⟨hPresent, rfl, .inl ⟨s', rfl, hEnd, hLeft, rfl⟩, hLoses _ _ _ hLoop⟩
      · obtain ⟨rfl, rfl⟩ := Prod.mk.inj (Option.some.inj hRun)
        exact .inr ⟨hPresent, rfl, .inr ⟨rfl, hLeft, rfl⟩, hLoses _ _ _ hLoop⟩
  · rw [if_pos hPresent] at hRun
    obtain ⟨rfl, rfl⟩ := Prod.mk.inj (Option.some.inj hRun)
    exact .inl ⟨hPresent, rfl, rfl⟩

/-- Nothing of a type marked as parsed is parsed again. -/
theorem not_picks_of_marked {mp : SipMsg} {pre : List SipHdr} {h : SipHdr}
    (hMarked : isMSet mp.parsed h.cantype = true) :
    ¬ Picks args.toponly (args.parsemask &&& ~~~mp.parsed) pre h := by
  rintro ⟨hSet, -⟩
  simp [hMarked] at hSet

/-- The headers of a marked type keep their values. -/
theorem left_marked {mp : SipMsg} {hs' : List SipHdr} {all : Bool} (h : mp.Marked)
    (hLeft : Left m args mp [] mp.hdrs hs' all) {j : Nat} {g g' : SipHdr}
    (hGet : mp.hdrs[j]? = some g) (hGet' : hs'[j]? = some g')
    (hMarked : isMSet mp.parsed g.cantype = true) : g'.parsed.isSome = true := by
  obtain ⟨_, hSome, -, ⟨rfl, -⟩ | ⟨hPick, -⟩ | ⟨-, -, hFails⟩⟩ := hLeft.at hGet
  · obtain rfl := Option.some.inj (hGet'.symm.trans hSome)
    exact h _ hMarked _ (List.mem_of_getElem? hGet) rfl
  · exact absurd hPick (not_picks_of_marked hMarked)
  · exact absurd hFails.picks (not_picks_of_marked hMarked)

/-- The headers a call picks have values when it succeeds. -/
theorem left_picked {mp : SipMsg} {hs' : List SipHdr}
    (hLeft : Left m args mp [] mp.hdrs hs' true) {j : Nat} {g g' : SipHdr}
    (hGet : mp.hdrs[j]? = some g) (hGet' : hs'[j]? = some g')
    (hPick : Picks args.toponly (args.parsemask &&& ~~~mp.parsed) (mp.hdrs.take j) g) :
    g'.parsed.isSome = true := by
  obtain ⟨_, hSome, -, ⟨-, hNot⟩ | ⟨-, hIs⟩ | ⟨hNo, -⟩⟩ := hLeft.at hGet
  · exact absurd hPick (hNot rfl)
  · obtain rfl := Option.some.inj (hGet'.symm.trans hSome)
    exact hIs
  · cases hNo

/-- Every header left is one of those there were. -/
theorem left_get {mp : SipMsg} {hs' : List SipHdr} {all : Bool}
    (hLeft : Left m args mp [] mp.hdrs hs' all) {j : Nat} {g' : SipHdr} (hGet' : hs'[j]? = some g') :
    ∃ g, mp.hdrs[j]? = some g ∧ g'.cantype = g.cantype := by
  have hTypes := congrArg (·[j]?) hLeft.types
  simp only [List.getElem?_map, hGet', Option.map_some] at hTypes
  obtain ⟨g, hGet, hSame⟩ := Option.map_eq_some_iff.mp hTypes.symm
  exact ⟨g, hGet, hSame.symm⟩

/-- The only header of its type is the first one. -/
theorem first_of_count {hs : List SipHdr} {j : Nat} {g : SipHdr} (hGet : hs[j]? = some g)
    (hCount : hs.countP (·.cantype = g.cantype) = 1) : ∀ f ∈ hs.take j, f.cantype ≠ g.cantype := by
  intro f hf hSame
  rw [split_at hGet, List.countP_append, List.countP_cons_of_pos (by simp)] at hCount
  have hEarlier : 0 < (hs.take j).countP (·.cantype = g.cantype) :=
    List.countP_pos_iff.mpr ⟨f, hf, decide_eq_true hSame⟩
  omega

theorem Marked.call {mp mp' : SipMsg} (h : mp.Marked) {r : Except Unit (List Nat)}
    (hRun : (parseHdrsImpl m args).run mp = some (r, mp')) : mp'.Marked := by
  obtain ⟨-, -, rfl⟩ | ⟨-, -, ⟨s, -, hEnd, hLeft, hMask⟩ | ⟨-, hLeft, hMask⟩, -⟩ := call_cases hRun
  · exact h
  · intro t hSet g' hMem hType
    obtain ⟨j, hGet'⟩ := List.mem_iff_getElem?.mp hMem
    obtain ⟨g, hGet, hSame⟩ := left_get hLeft hGet'
    subst hType
    rw [hSame, hMask, Hf.isMSet_or, Bool.or_eq_true] at hSet
    obtain hOld | hNew := hSet
    · exact left_marked h hLeft hGet hGet' hOld
    · refine left_picked hLeft hGet hGet' ?_
      cases hTop : args.toponly with
      | true =>
        rw [hTop, if_pos rfl] at hNew
        obtain ⟨-, hAsked, hCount⟩ := (hEnd.topparsed _).mp hNew
        exact ⟨hAsked, fun _ => first_of_count hGet hCount⟩
      | false =>
        rw [hTop, if_neg (by simp)] at hNew
        exact ⟨((hEnd.parsemask _).mp hNew).1, fun hNo => by cases hNo⟩
  · intro t hSet g' hMem hType
    obtain ⟨j, hGet'⟩ := List.mem_iff_getElem?.mp hMem
    obtain ⟨g, hGet, hSame⟩ := left_get hLeft hGet'
    subst hType
    rw [hSame, hMask] at hSet
    exact left_marked h hLeft hGet hGet' hSet

theorem mem_picked {toponly : Bool} {msk : BitVec 64} {pre hs : List SipHdr} {j : Nat}
    (hMem : j ∈ (picked toponly msk pre hs).map (·.1)) :
    ∃ k g, j = pre.length + k ∧ hs[k]? = some g ∧ Picks toponly msk (pre ++ hs.take k) g := by
  induction hs generalizing pre with
  | nil => cases hMem
  | cons h hs ih =>
    rw [picked, List.map_append, List.mem_append] at hMem
    obtain hHere | hRest := hMem
    · split at hHere
      · rename_i hPick
        obtain rfl := List.mem_singleton.mp hHere
        exact ⟨0, h, rfl, rfl, by simpa using hPick⟩
      · cases hHere
    · obtain ⟨k, g, rfl, hGet, hPick⟩ := ih hRest
      refine ⟨k + 1, g, ?_, hGet, by simpa using hPick⟩
      simp only [List.length_append, List.length_singleton]
      omega

/-- What a successful call reports. -/
theorem reported_parsed {mp mp' : SipMsg} (h : mp.Marked) {hdrsp : List Nat}
    (hRun : (parseHdrsImpl m args).run mp = some (.ok hdrsp, mp')) :
    hdrsp = (if args.hdrslen.isSome then args.reported mp.hdrs else []) ∧
      ∀ j ∈ args.reported mp.hdrs, ∃ h', mp'.hdrs[j]? = some h' ∧ h'.parsed.isSome = true := by
  obtain ⟨-, hNo, -⟩ | ⟨-, -, ⟨s, hOk, hEnd, hLeft, -⟩ | ⟨hNo, -⟩, -⟩ := call_cases hRun
  · cases hNo
  · obtain rfl := Except.ok.inj hOk
    refine ⟨hEnd.hdrsp, fun j hj => ?_⟩
    obtain ⟨k, g, rfl, hGet, hPick⟩ := mem_picked hj
    simp only [List.length_nil, Nat.zero_add, List.nil_append] at hPick ⊢
    obtain ⟨h', hGet', -⟩ := hLeft.at hGet
    refine ⟨h', hGet', ?_⟩
    cases hSet : isMSet mp.parsed g.cantype with
    | true => exact left_marked h hLeft hGet hGet' hSet
    | false =>
      obtain ⟨hAsked, hFirst⟩ := hPick
      refine left_picked hLeft hGet hGet' ⟨?_, hFirst⟩
      simp [hAsked, hSet]
  · cases hNo

/-- A call takes no value from a header, unless the header has one and does not parse again. -/
theorem destroys_iff {mp mp' : SipMsg} {r : Except Unit (List Nat)}
    (hRun : (parseHdrsImpl m args).run mp = some (r, mp')) :
    ¬ mp.Destroys mp' ↔ Spared m args mp := by
  constructor
  · intro hKept hPresent j h hGet hFails
    obtain ⟨hAbsent, -⟩ | ⟨-, -, -, hLoses⟩ := call_cases hRun
    · exact absurd hPresent hAbsent
    · by_contra hSome
      have hIs : h.parsed.isSome = true := Option.isSome_iff_ne_none.mpr hSome
      exact hKept ⟨j, h, _, hGet, hLoses j h hGet hFails, hIs, rfl⟩
  · rintro hSpared ⟨j, h, h', hGet, hGet', hIs, hNone⟩
    have hAll : ∀ {all : Bool}, Left m args mp [] mp.hdrs mp'.hdrs all →
        mp.present &&& args.parsemask = args.parsemask → False := by
      intro all hLeft hPresent
      obtain ⟨_, hSame, -, ⟨rfl, -⟩ | ⟨-, hSome⟩ | ⟨-, -, hFails⟩⟩ := hLeft.at hGet
      · obtain rfl := Option.some.inj (hGet'.symm.trans hSame)
        rw [hNone] at hIs
        cases hIs
      · obtain rfl := Option.some.inj (hGet'.symm.trans hSame)
        rw [hNone] at hSome
        cases hSome
      · rw [hSpared hPresent j h hGet hFails] at hIs
        cases hIs
    obtain ⟨-, -, rfl⟩ | ⟨hPresent, -, ⟨s, -, -, hLeft, -⟩ | ⟨-, hLeft, -⟩, -⟩ := call_cases hRun
    · obtain rfl := Option.some.inj (hGet'.symm.trans hGet)
      rw [hNone] at hIs
      cases hIs
    · exact hAll hLeft hPresent
    · exact hAll hLeft hPresent

/-- Which positions are picked depends on the types alone. -/
theorem picked_congr {toponly : Bool} {msk : BitVec 64} {pre pre' hs hs' : List SipHdr}
    (hPre : pre'.map SipHdr.cantype = pre.map SipHdr.cantype)
    (hTypes : hs'.map SipHdr.cantype = hs.map SipHdr.cantype) :
    (picked toponly msk pre' hs').map (·.1) = (picked toponly msk pre hs).map (·.1) := by
  induction hs generalizing pre pre' hs' with
  | nil =>
    obtain rfl := List.map_eq_nil_iff.mp hTypes
    rfl
  | cons h hs ih =>
    obtain ⟨h', hs', rfl, hType, hRest⟩ := List.map_eq_cons_iff.mp hTypes
    have hIn : ∀ t, (∀ g ∈ pre', g.cantype ≠ t) ↔ ∀ g ∈ pre, g.cantype ≠ t := by
      intro t
      have hMem : t ∈ pre'.map SipHdr.cantype ↔ t ∈ pre.map SipHdr.cantype := by rw [hPre]
      simp only [List.mem_map] at hMem
      constructor
      · intro hNone g hg hSame
        obtain ⟨g', hg', hSame'⟩ := hMem.mpr ⟨g, hg, hSame⟩
        exact hNone g' hg' hSame'
      · intro hNone g hg hSame
        obtain ⟨g', hg', hSame'⟩ := hMem.mp ⟨g, hg, hSame⟩
        exact hNone g' hg' hSame'
    have hPicks : Picks toponly msk pre' h' ↔ Picks toponly msk pre h := by
      rw [Picks, Picks, hType, hIn]
    have hLength : pre'.length = pre.length := by simpa using congrArg List.length hPre
    have hNext : (pre' ++ [h']).map SipHdr.cantype = (pre ++ [h]).map SipHdr.cantype := by
      rw [List.map_append, List.map_append, hPre, List.map_singleton, List.map_singleton, hType]
    rw [picked, picked, List.map_append, List.map_append, ih hNext hRest]
    by_cases hPick : Picks toponly msk pre h
    · rw [if_pos hPick, if_pos (hPicks.mpr hPick), hLength]
      rfl
    · rw [if_neg hPick, if_neg fun h => hPick (hPicks.mp h)]

/-- A successful call made again, when the types are marked as parsed. -/
theorem call_again {mp mp' : SipMsg} {hdrsp : List Nat}
    (hRun : (parseHdrsImpl m args).run mp = some (.ok hdrsp, mp')) (hAll : mp'.AllMarked args) :
    (parseHdrsImpl m args).run mp' = some (.ok hdrsp, mp') := by
  obtain ⟨-, hNo, -⟩ | ⟨hPresent, hSame, ⟨s, hOk, hEnd, hLeft, -⟩ | ⟨hNo, -⟩, -⟩ := call_cases hRun
  · cases hNo
  · obtain rfl := Except.ok.inj hOk
    have hReported : args.reported mp'.hdrs = args.reported mp.hdrs := picked_congr rfl hLeft.types
    have hRoom : args.Room ([] ++ mp'.hdrs) := by
      intro l hl
      rw [List.nil_append, hReported]
      exact hEnd.room l hl
    have hStart : LoopAt m args mp' [] { parsemask := args.parsemask &&& ~~~mp'.parsed } mp'.heap :=
      .start
    obtain ⟨s', hLoop, hEnd', hMask, hTop⟩ := hStart.idle hAll rfl hRoom
    have hHdrsp : s'.hdrsp = s.hdrsp := by
      rw [hEnd'.hdrsp, hEnd.hdrsp, List.nil_append, hReported]
    have hMore : (if args.toponly then s'.topparsed else s'.parsemask) = 0#64 := by
      rw [hMask, hTop, ite_self]
    rw [List.length_nil] at hLoop
    simp only [Op.run, parseHdrsImpl, hSame, hPresent, ne_eq, not_true_eq_false, if_false, hLoop,
      hHdrsp, hMore, BitVec.or_zero]
    rw [← hSame]
  · cases hNo

/-! ## Every sequence of calls -/

def step (m : Mem) (mp : SipMsg) (args : ParseArgs) : Option SipMsg :=
  ((parseHdrsImpl m args).run mp).map (·.2)

theorem marked_received (hdrs : List (Hf × Str)) (heap : Heap) : (received hdrs heap).Marked := by
  intro t hSet
  simp [SipMsg.received] at hSet

theorem Marked.run {hdrs : List (Hf × Str)} {heap : Heap} {mp : SipMsg}
    (hRun : Transition.Run (step m) (fun _ _ => True) (received hdrs heap) mp) : mp.Marked := by
  refine hRun.invariant (fun mp args mp' h _ hStep => ?_) (marked_received hdrs heap)
  obtain ⟨⟨r, mp'⟩, hCall, rfl⟩ := Option.map_eq_some_iff.mp hStep
  exact h.call hCall

/-- What a successful call reports: the headers asked for, with their values. -/
def Reports (args : ParseArgs) (mp mp' : SipMsg) (hdrsp : List Nat) : Prop :=
  hdrsp = (if args.hdrslen.isSome then args.reported mp.hdrs else []) ∧
    ∀ j ∈ args.reported mp.hdrs, ∃ h', mp'.hdrs[j]? = some h' ∧ h'.parsed.isSome = true

/-- After any calls on a message the marks are right, a call that succeeds reports parsed headers,
and does so again; it takes no value away if and only if it comes to no header that has one and does
not parse again. -/
theorem parse_hdrs_bookkeeping {hdrs : List (Hf × Str)} {heap : Heap} {mp : SipMsg}
    (hRun : Transition.Run (step m) (fun _ _ => True) (received hdrs heap) mp) :
    mp.Marked ∧ ∀ args r mp', (parseHdrsImpl m args).run mp = some (r, mp') →
      (∀ hdrsp, r = .ok hdrsp → Reports args mp mp' hdrsp ∧
        (mp'.AllMarked args → (parseHdrsImpl m args).run mp' = some (.ok hdrsp, mp'))) ∧
      (¬ mp.Destroys mp' ↔ Spared m args mp) := by
  have hMarked := Marked.run hRun
  refine ⟨hMarked, fun args r mp' hCall => ⟨?_, destroys_iff hCall⟩⟩
  rintro hdrsp rfl
  exact ⟨reported_parsed hMarked hCall, call_again hCall⟩

/-- Two Contact headers, the first with 40 parameters, on the heap of a short message. -/
def twoContacts : SipMsg :=
  received
    [(.CONTACT, Str.lit (bytes "<sip:a@b>" ++ (List.replicate 40 (bytes ";p")).flatten)),
      (.CONTACT, Str.lit (bytes "<sip:c@d>"))]
    { Heap.init none .zero 2168 0 with alen := 144 }

def topContact : ParseArgs := { parsemask := Hf.CONTACT.mask, toponly := true }

theorem parse_hdrs_bookkeeping_contacts :
    ∃ mp : SipMsg, mp.hdrs.any (·.parsed.isSome) = true ∧ mp.Marked := by
  have hTest : (Transition.exec (step fun _ => .zero) twoContacts [topContact]).any (fun mp =>
      mp.hdrs.any (·.parsed.isSome)) = true := by
    decide +kernel
  obtain ⟨mp, hExec, hSome⟩ := (Option.any_eq_true _ _).mp hTest
  have hRun : Transition.Run (step _) (fun _ _ => True) twoContacts mp :=
    Transition.exec_run (fun _ _ => trivial) hExec
  exact ⟨mp, hSome, (parse_hdrs_bookkeeping hRun).1⟩

/-- The first of two headers is parsed by every call for the top one, and the second parse does not
fit: the failing call puts NULL over the value of the first. -/
theorem top_parsed_twice : ¬ ∀ (m : Mem) (hdrs : List (Hf × Str)) (heap : Heap) (mp : SipMsg),
    Transition.Run (step m) (fun _ _ => True) (received hdrs heap) mp →
      ∀ args mp', (parseHdrsImpl m args).run mp = some (.error (), mp') → ¬ mp.Destroys mp' := by
  intro hAll
  have hTest : (Transition.exec (step fun _ => .zero) twoContacts [topContact]).any (fun mp =>
      ((mp.hdrs[0]?.bind (·.parsed)).isSome && ((parseHdrsImpl (fun _ => .zero) topContact).run mp).any
        (fun out => out.1.toOption.isNone && out.2.hdrs[0]?.any (·.parsed.isNone)))) = true := by
    decide +kernel
  obtain ⟨mp, hExec, hTest⟩ := (Option.any_eq_true _ _).mp hTest
  simp only [Bool.and_eq_true, Option.any_eq_true] at hTest
  obtain ⟨hHad, ⟨r, mp'⟩, hCall, hFailed, h', hGet', hLost⟩ := hTest
  have hRun : Transition.Run (step _) (fun _ _ => True) twoContacts mp :=
    Transition.exec_run (fun _ _ => trivial) hExec
  obtain ⟨p, hBind⟩ := Option.isSome_iff_exists.mp hHad
  obtain ⟨h, hGet, hParsed⟩ := Option.bind_eq_some_iff.mp hBind
  cases r with
  | ok hdrsp => cases hFailed
  | error e =>
    exact hAll _ _ _ mp hRun topContact mp' hCall
      ⟨0, h, h', hGet, hGet', by rw [hParsed]; rfl, Option.isNone_iff_eq_none.mp hLost⟩

end SipMsg

end Microsippy
