import Microsippy.ListHdrs
import Microsippy.WireJoin

/-! # Messages that are accepted

The types of the headers of a message from the wire, and the buffers `usipy_sip_msg_ctor_fromwire`
takes: those whose start line parses and whose headers have a colon each, as long as there is room for
their table.
-/

namespace Microsippy

set_option autoImplicit false

variable {T : Shift} {m : Mem} {b : Bytes}

/-! ## Types -/

/-- The type of the headers of a name. -/
def hdrType (T : Shift) (name : Bytes) : Hf := (hdrDb (hdrDbLookup T name)).cantype

def WireHdr.typed (m : Mem) (h : WireHdr) : Hf × Bytes := (h.hf_type, m.read h.value)

/-- The headers of a message by their types. -/
def WireMsg.typed (m : Mem) (rp : WireMsg) : List (Hf × Bytes) := rp.hdrs.map (WireHdr.typed m)

/-- The values of the headers of a type. -/
def values (t : Hf) (ps : List (Hf × Bytes)) : List Bytes := (ps.filter (·.1 == t)).map Prod.snd

@[simp] theorem values_nil (t : Hf) : values t [] = [] := rfl

@[simp] theorem values_append (t : Hf) (ps qs : List (Hf × Bytes)) :
    values t (ps ++ qs) = values t ps ++ values t qs := by
  rw [values, List.filter_append, List.map_append]
  rfl

theorem values_cons_self (t : Hf) (v : Bytes) (ps : List (Hf × Bytes)) :
    values t ((t, v) :: ps) = v :: values t ps := by
  rw [values, List.filter_cons_of_pos (by simp)]
  rfl

theorem values_cons_ne {t : Hf} {p : Hf × Bytes} (h : p.1 ≠ t) (ps : List (Hf × Bytes)) :
    values t (p :: ps) = values t ps := by
  rw [values, List.filter_cons_of_neg (by simpa using h)]
  rfl

/-- A header has the type of its name. -/
def WireHdr.Typed (T : Shift) (m : Mem) (h : WireHdr) : Prop := h.hf_type = hdrType T (m.read h.name)

theorem hdrPreparse_typed {shp ehp : Nat} {full : Str} {hdrs : List WireHdr}
    (h : hdrPreparse T m shp ehp full = some hdrs) : ∀ x ∈ hdrs, x.Typed T m := by
  simp only [hdrPreparse, Option.bind_eq_bind, Option.bind_eq_some_iff] at h
  obtain ⟨_, -, values, -, hHdrs⟩ := h
  obtain rfl := Option.some.inj hHdrs
  intro x hx
  obtain ⟨i, hi, rfl⟩ := List.mem_mapIdx.mp hx
  exact ListHdr.cantype_eq _

/-- What a turn of the loop does to the message: it takes the start line, or puts typed headers to it. -/
inductive Puts (T : Shift) (m : Mem) (rp : WireMsg) : WireMsg → Prop
  | sline (x : Str) (sline : Sline) (heap : Heap)
      (hParse : Heap.did (slineParse m x) rp.heap = some (sline, heap)) :
      Puts T m rp { rp with slineOnwire := x, sline := some sline, heap }
  | hdrs (hdrs : List WireHdr) (hdrsAt : Nat) (heap : Heap) (hTyped : ∀ x ∈ hdrs, x.Typed T m) :
      Puts T m rp { rp with hdrs := rp.hdrs ++ hdrs, hdrsAt, heap }

theorem commit_rp {full : Str} {s s' : FromWire} (h : FromWire.commit T m full s = some s') :
    ∃ hdrs heap, (∀ x ∈ hdrs, x.Typed T m) ∧ s'.rp = { s.rp with hdrs := s.rp.hdrs ++ hdrs, heap } := by
  simp only [FromWire.commit, Option.bind_eq_bind, Option.bind_eq_some_iff] at h
  obtain ⟨hdrs, hHdrs, h⟩ := h
  split at h
  · obtain rfl := Option.some.inj h
    exact ⟨hdrs, s.rp.heap, hdrPreparse_typed hHdrs, rfl⟩
  · obtain ⟨⟨_, heap⟩, -, h⟩ := Option.bind_eq_some_iff.mp h
    obtain rfl := Option.some.inj h
    exact ⟨hdrs, heap, hdrPreparse_typed hHdrs, rfl⟩

theorem endOrBegin_rp {chp : Nat} {s s' : FromWire} {more : Bool}
    (h : s.endOrBegin chp = some (more, s')) : ∃ hdrsAt heap, s'.rp = { s.rp with hdrsAt, heap } := by
  rw [FromWire.endOrBegin] at h
  split at h
  · obtain ⟨-, rfl⟩ := Prod.mk.inj (Option.some.inj h)
    exact ⟨s.rp.hdrsAt, s.rp.heap, rfl⟩
  · simp only [Option.bind_eq_bind, Option.bind_eq_some_iff] at h
    obtain ⟨s₁, hBegin, h⟩ := h
    obtain ⟨-, rfl⟩ := Prod.mk.inj (Option.some.inj h)
    simp only [FromWire.beginHdr, Option.bind_eq_bind, Option.bind_eq_some_iff] at hBegin
    obtain ⟨rp, hRp, hBegin⟩ := hBegin
    obtain rfl := Option.some.inj hBegin
    split at hRp
    · obtain ⟨⟨hdrsAt, heap⟩, -, hRp⟩ := Option.bind_eq_some_iff.mp hRp
      obtain rfl := Option.some.inj hRp
      exact ⟨hdrsAt, heap, rfl⟩
    · obtain ⟨⟨_, heap⟩, -, hRp⟩ := Option.bind_eq_some_iff.mp hRp
      obtain rfl := Option.some.inj hRp
      exact ⟨s.rp.hdrsAt, heap, rfl⟩

theorem line_puts {chp : Nat} {s s' : FromWire} {more : Bool}
    (h : FromWire.line T m chp s = some (more, s')) : Puts T m s.rp s'.rp := by
  have hNothing : ∀ hdrsAt heap, Puts T m s.rp { s.rp with hdrsAt, heap } := by
    intro hdrsAt heap
    have hNone := @Puts.hdrs T m s.rp [] hdrsAt heap fun x hx => by cases hx
    rwa [List.append_nil] at hNone
  rw [FromWire.line] at h
  split at h
  · split at h
    · simp only [Option.bind_eq_bind, Option.bind_eq_some_iff] at h
      obtain ⟨⟨sline, heap⟩, hParse, h⟩ := h
      obtain ⟨-, rfl⟩ := Prod.mk.inj (Option.some.inj h)
      exact .sline _ sline heap hParse
    · obtain ⟨hdrsAt, heap, hIs⟩ := endOrBegin_rp h
      rw [hIs]
      exact hNothing hdrsAt heap
  · split at h
    · obtain ⟨-, rfl⟩ := Prod.mk.inj (Option.some.inj h)
      exact hNothing s.rp.hdrsAt s.rp.heap
    · simp only [Option.bind_eq_bind, Option.bind_eq_some_iff] at h
      obtain ⟨s₁, hCommit, h⟩ := h
      obtain ⟨hdrs, heap₁, hTyped, hIs₁⟩ := commit_rp hCommit
      obtain ⟨hdrsAt, heap, hIs⟩ := endOrBegin_rp h
      rw [hIs, hIs₁]
      exact .hdrs hdrs hdrsAt heap hTyped

/-- What every turn keeps of the message holds of it in the end. -/
theorem loop_keeps {P : WireMsg → Prop} (hKeeps : ∀ rp rp', Puts T m rp rp' → P rp → P rp') {fuel : Nat}
    {s s' : FromWire} (h : FromWire.loop T m fuel s = some s') (hs : P s.rp) : P s'.rp := by
  induction fuel generalizing s with
  | zero => cases h
  | succ fuel ih =>
    rw [FromWire.loop] at h
    split at h
    · obtain rfl := Option.some.inj h
      exact hs
    · simp only [Option.bind_eq_bind, Option.bind_eq_some_iff] at h
      obtain ⟨⟨crlf_off, mit⟩, -, h⟩ := h
      split at h
      · obtain rfl := Option.some.inj h
        exact hs
      · obtain ⟨⟨more, s₁⟩, hLine, h⟩ := Option.bind_eq_some_iff.mp h
        have hNext : P s₁.rp := hKeeps _ _ (line_puts hLine) hs
        dsimp only at h
        split at h
        · exact ih h hNext
        · obtain rfl := Option.some.inj h
          exact hNext

/-- A message has its start line parsed, if it has one, and headers of the types of their names. -/
structure WireMsg.WellTyped (T : Shift) (m : Mem) (rp : WireMsg) : Prop where
  sline : ∀ sline, rp.sline = some sline →
    ∃ hp hp', Heap.did (slineParse m rp.slineOnwire) hp = some (sline, hp')
  hdrs : ∀ x ∈ rp.hdrs, x.Typed T m

theorem Puts.wellTyped {rp rp' : WireMsg} (h : Puts T m rp rp') (hOld : rp.WellTyped T m) :
    rp'.WellTyped T m := by
  cases h with
  | sline x sline heap hParse =>
    refine ⟨fun sline' hIs => ?_, hOld.hdrs⟩
    obtain rfl := Option.some.inj hIs
    exact ⟨_, _, hParse⟩
  | hdrs hdrs hdrsAt heap hTyped =>
    refine ⟨hOld.sline, fun x hx => ?_⟩
    cases List.mem_append.mp hx with
    | inl hWas => exact hOld.hdrs x hWas
    | inr hNew => exact hTyped x hNew

theorem ctorFromwire_wellTyped {rp : WireMsg} (h : ctorFromwire T m b = some rp) :
    rp.WellTyped T m := by
  simp only [ctorFromwire, Option.bind_eq_bind, Option.bind_eq_some_iff] at h
  obtain ⟨s, hLoop, h⟩ := h
  have hStart : (FromWire.start b).rp.WellTyped T m := by
    constructor
    · intro sline hIs
      cases hIs
    · intro x hx
      cases hx
  have hDone : s.rp.WellTyped T m := loop_keeps (fun _ _ hPuts => hPuts.wellTyped) hLoop hStart
  split at h
  · cases h
  · split at h
    · obtain rfl := Option.some.inj h
      exact ⟨hDone.sline, hDone.hdrs⟩
    · obtain rfl := Option.some.inj h
      exact hDone

/-- The headers of a message from the wire by their types. -/
theorem ctorFromwire_typed {rp : WireMsg} (h : ctorFromwire T m b = some rp) :
    rp.typed m = (rp.entries m).map fun e => (hdrType T e.1, e.2) := by
  rw [WireMsg.typed, WireMsg.entries, List.map_map]
  apply List.map_congr_left
  intro x hx
  rw [Function.comp_apply, WireHdr.typed, (ctorFromwire_wellTyped h).hdrs x hx]

/-! ## Room -/

/-- A heap is not over its end. -/
def Heap.InRoom (n : Nat) (hp : Heap) : Prop := hp.tsize = n ∧ hp.alen ≤ n

theorem alignedSize_htSizeof (n : Nat) : Heap.alignedSize (htSizeof n) = htSizeof n := by
  rw [Heap.alignedSize, htSizeof, sizeofHdr, if_neg (by omega)]
  omega

theorem did_allocCnt_iff {hp : Heap} {n size : Nat} (hHeap : hp.InRoom size) :
    (∃ out, Heap.did (Heap.allocCnt (htSizeof n)) hp = some out) ↔
      Heap.alignedSize hp.alen + htSizeof n ≤ size := by
  obtain ⟨hSize, hIn⟩ := hHeap
  have hLe := Heap.le_alignedSize hp.alen
  rw [Heap.did, Heap.allocCnt, Heap.alloc, Heap.run_reserve, if_pos rfl, alignedSize_htSizeof, Heap.remaining]
  dsimp only
  split
  · rename_i hRun
    split at hRun
    · cases (Prod.mk.inj (Option.some.inj hRun)).1
    · exact iff_of_true ⟨_, rfl⟩ (by omega)
  · rename_i hNot
    refine iff_of_false (by rintro ⟨_, h⟩; cases h) fun hRoom => ?_
    rw [if_neg (by omega)] at hNot
    exact hNot _ _ rfl

theorem did_aextend_iff {hp : Heap} {n start size : Nat} (hHeap : hp.InRoom size) :
    (∃ hp', Heap.did (Heap.aextend (htSizeof n) start) hp = some ((), hp')) ↔
      start + htSizeof n ≤ size := by
  obtain ⟨hSize, hIn⟩ := hHeap
  have hFits : start + Heap.alignedSize (htSizeof n) - hp.alen ≤ hp.remaining ↔
      start + htSizeof n ≤ size := by
    rw [alignedSize_htSizeof, Heap.remaining]
    omega
  rw [← hFits]
  simp only [Heap.did, Heap.aextend, Op.run_bind, Op.run_get, Op.andThen_ok, Op.run_require]
  split
  · rename_i hRun
    split at hRun
    · rename_i hYes
      exact iff_of_true ⟨_, rfl⟩ hYes
    · cases (Prod.mk.inj (Option.some.inj hRun)).1
  · rename_i hNot
    refine iff_of_false (by rintro ⟨_, h⟩; cases h) fun hYes => ?_
    rw [if_pos hYes] at hNot
    exact hNot () _ rfl

/-- What is taken of a heap stays within it. -/
def Heap.StaysIn (hp hp' : Heap) : Prop := ∀ n, hp.InRoom n → hp'.InRoom n

instance : IsPreorder Heap Heap.StaysIn where
  refl _ _ := id
  trans _ _ _ h h' n := h' n ∘ h n

theorem staysIn_aextend (nlen start : Nat) : Op.Keeps Heap.StaysIn (Heap.aextend nlen start) := by
  intro hp r hp' hRun n hIn
  simp only [Heap.aextend, Op.run_bind, Op.run_get, Op.andThen_ok, Op.run_require] at hRun
  split at hRun
  · rename_i hFits
    obtain ⟨-, rfl⟩ := Prod.mk.inj (Option.some.inj hRun)
    obtain ⟨rfl, hTop⟩ := hIn
    rw [Heap.remaining] at hFits
    refine ⟨rfl, ?_⟩
    dsimp only
    omega
  · obtain ⟨-, rfl⟩ := Prod.mk.inj (Option.some.inj hRun)
    exact hIn

theorem did_some {α : Type} {x : HeapM α} {a : α} {hp hp' : Heap} :
    Heap.did x hp = some (a, hp') ↔ x.run hp = some (.ok a, hp') := by
  rw [Heap.did]
  split
  · rename_i hRun
    rw [hRun]
    simp only [Option.some.injEq, Prod.mk.injEq, Except.ok.injEq]
  · rename_i hNot
    constructor
    · rintro ⟨⟩
    · intro hRun
      exact absurd hRun (hNot a hp')

/-- The number of entries a header makes. -/
def entryCount (T : Shift) (hdr : Bytes) : Nat := (dbEntries T hdr).length

theorem entryCount_pos (T : Shift) (hdr : Bytes) : 0 < entryCount T hdr := by
  rw [entryCount, dbEntries, hdrEntries, List.length_map]
  split
  · exact List.length_pos_iff.mpr (List.splitOn_ne_nil _ _)
  · exact Nat.zero_lt_one

theorem sum_entryCount_pos {hdrs : List Bytes} (h : hdrs ≠ []) : 0 < (hdrs.map (entryCount T)).sum := by
  cases hdrs with
  | nil => exact absurd rfl h
  | cons hdr hdrs =>
    rw [List.map_cons, List.sum_cons]
    exact Nat.add_pos_left (entryCount_pos T hdr) _

/-- A header is taken apart where it has a colon and room for its entries. -/
theorem hdrPreparse_isSome_iff {shp ehp : Nat} {full : Str} (hBase : shp + sizeofHdr ≤ ehp) :
    (∃ hdrs, hdrPreparse T m shp ehp full = some hdrs) ↔
      ch ':' ∈ m.read full ∧ shp + sizeofHdr * entryCount T (m.read full) ≤ ehp := by
  cases hSplit : full.split m (ch ':') with
  | none =>
    refine iff_of_false ?_ fun h => Str.split_eq_none_iff.mp hSplit h.1
    rintro ⟨_, h⟩
    rw [hdrPreparse, hSplit] at h
    cases h
  | some x =>
    obtain ⟨name, value⟩ := x
    obtain ⟨hRead, hNot, -⟩ := Str.read_split hSplit
    obtain ⟨hName, hRest⟩ := hdrName_of_append (z := m.read value) hNot
    have hColon : ch ':' ∈ m.read full := by
      rw [hRead]
      exact List.mem_append_right _ List.mem_cons_self
    rw [and_iff_right hColon]
    rw [entryCount, dbEntries, hdrEntries, List.length_map, hRead, hName, hRest, ← Str.read_trmE]
    simp only [hdrPreparse, hSplit, Option.bind_eq_bind, Option.bind_some]
    split
    · rw [← @ListHdr.preparseList_isSome m ehp _ shp _ hBase le_rfl, Option.isSome_iff_exists]
      cases preparseList m ehp value.l shp value with
      | none => exact iff_of_false (by rintro ⟨_, h⟩; cases h) (by rintro ⟨_, h⟩; cases h)
      | some values => exact iff_of_true ⟨_, rfl⟩ ⟨_, rfl⟩
    · refine iff_of_true ⟨_, rfl⟩ ?_
      rwa [List.length_singleton, Nat.mul_one]

theorem length_hdrPreparse {shp ehp : Nat} {full : Str} {hdrs : List WireHdr}
    (h : hdrPreparse T m shp ehp full = some hdrs) : hdrs.length = entryCount T (m.read full) := by
  have hRead := congrArg List.length (hdrPreparse_read h)
  rwa [List.length_map] at hRead

/-! ## The loop -/

/-- The table of headers is at `start`, in a heap of a size. -/
structure FromWire.Table (start size : Nat) (s : FromWire) : Prop where
  hdrsAt : s.rp.hdrsAt = start
  heap : s.rp.heap.InRoom size

/-- What a header that is a list takes beyond its entries. -/
def spare (n : Nat) : Nat := if n ≤ 1 then 0 else 1

theorem spare_le (n : Nat) : spare n ≤ 1 := by
  rw [spare]
  split
  · exact Nat.zero_le 1
  · exact Nat.le_refl 1

/-- What a table takes beyond its entries: one where the last header is a list. -/
def spareLast (T : Shift) : List Bytes → Nat
  | [] => 0
  | [hdr] => spare (entryCount T hdr)
  | _ :: hdr :: hdrs => spareLast T (hdr :: hdrs)

theorem spareLast_cons {hdrs : List Bytes} (hSome : hdrs ≠ []) (hdr : Bytes) :
    spareLast T (hdr :: hdrs) = spareLast T hdrs := by
  cases hdrs with
  | nil => exact absurd rfl hSome
  | cons hdr' hdrs => rfl

theorem spareLast_of_single {hdrs : List Bytes} (hOne : ∀ hdr ∈ hdrs, entryCount T hdr = 1) :
    spareLast T hdrs = 0 := by
  induction hdrs with
  | nil => rfl
  | cons hdr hdrs ih =>
    by_cases hLast : hdrs = []
    · rw [hLast]
      exact if_pos (hOne hdr List.mem_cons_self).le
    · rw [spareLast_cons hLast]
      exact ih fun x hx => hOne x (List.mem_cons_of_mem _ hx)

/-- A header is put into the message where it has a colon and there is room. -/
theorem commit_isSome_iff {full : Str} {s : FromWire} {start size : Nat} (hTable : s.Table start size)
    (hBase : start + sizeofHdr * (s.rp.hdrs.length + 1) ≤ size) :
    (∃ s', FromWire.commit T m full s = some s') ↔ ch ':' ∈ m.read full ∧
      start + sizeofHdr * (s.rp.hdrs.length + entryCount T (m.read full) +
        spare (entryCount T (m.read full))) ≤ size := by
  have hTakes := @hdrPreparse_isSome_iff T m (start + sizeofHdr * s.rp.hdrs.length) size full (by
    simp only [sizeofHdr] at *
    omega)
  simp only [FromWire.commit, hTable.hdrsAt, hTable.heap.1, Option.bind_eq_bind]
  cases hHdrs : hdrPreparse T m (start + sizeofHdr * s.rp.hdrs.length) size full with
  | none =>
    refine iff_of_false (by rintro ⟨_, h⟩; cases h) fun h => ?_
    obtain ⟨_, hSome⟩ := hTakes.mpr ⟨h.1, by
      have hRoom := h.2
      simp only [sizeofHdr] at *
      omega⟩
    rw [hHdrs] at hSome
    cases hSome
  | some hdrs =>
    obtain ⟨hColon, hRoom⟩ := hTakes.mp ⟨hdrs, hHdrs⟩
    have hCount := length_hdrPreparse hHdrs
    rw [and_iff_right hColon, spare, ← hCount]
    rw [← hCount] at hRoom
    simp only [Option.bind_some]
    split
    · refine iff_of_true ⟨_, rfl⟩ ?_
      simp only [sizeofHdr] at *
      omega
    · have hExtend := @did_aextend_iff s.rp.heap (s.rp.hdrs ++ hdrs).length start size hTable.heap
      rw [List.length_append] at hExtend
      rw [Nat.add_assoc _ _ 1, ← Nat.add_assoc, ← htSizeof, ← hExtend, List.length_append]
      cases Heap.did (Heap.aextend (htSizeof (s.rp.hdrs.length + hdrs.length)) start) s.rp.heap with
      | none => exact iff_of_false (by rintro ⟨_, h⟩; cases h) (by rintro ⟨_, h⟩; cases h)
      | some out => exact iff_of_true ⟨_, rfl⟩ ⟨out.2, rfl⟩

/-- A header in the message. -/
theorem commit_table {full : Str} {s s' : FromWire} {start size : Nat} (hTable : s.Table start size)
    (h : FromWire.commit T m full s = some s') :
    s'.Table start size ∧ s'.shp = s.shp ∧ s'.rp.sline = s.rp.sline ∧
      s'.rp.hdrs.length = s.rp.hdrs.length + entryCount T (m.read full) := by
  simp only [FromWire.commit, Option.bind_eq_bind, Option.bind_eq_some_iff] at h
  obtain ⟨hdrs, hHdrs, h⟩ := h
  have hLength : (s.rp.hdrs ++ hdrs).length = s.rp.hdrs.length + entryCount T (m.read full) := by
    rw [List.length_append, length_hdrPreparse hHdrs]
  split at h
  · obtain rfl := Option.some.inj h
    exact ⟨⟨hTable.hdrsAt, hTable.heap⟩, rfl, rfl, hLength⟩
  · obtain ⟨⟨_, heap⟩, hDid, h⟩ := Option.bind_eq_some_iff.mp h
    obtain rfl := Option.some.inj h
    exact ⟨⟨hTable.hdrsAt, staysIn_aextend _ _ _ _ _ (did_some.mp hDid) _ hTable.heap⟩, rfl, rfl, hLength⟩

/-- A header is begun where there is room for it. -/
theorem beginHdr_isSome_iff {chp : Nat} {s : FromWire} {start size : Nat} (hTable : s.Table start size)
    (hBegun : s.shp.isSome = true) : (∃ s', s.beginHdr chp = some s') ↔
      start + sizeofHdr * (s.rp.hdrs.length + 1) ≤ size := by
  obtain ⟨full, hShp⟩ := Option.isSome_iff_exists.mp hBegun
  have hExtend := @did_aextend_iff s.rp.heap s.rp.hdrs.length start size hTable.heap
  rw [← htSizeof, ← hExtend]
  simp only [FromWire.beginHdr, hShp, hTable.hdrsAt, Option.bind_eq_bind]
  cases Heap.did (Heap.aextend (htSizeof s.rp.hdrs.length) start) s.rp.heap with
  | none => exact iff_of_false (by rintro ⟨_, h⟩; cases h) (by rintro ⟨_, h⟩; cases h)
  | some out => exact iff_of_true ⟨_, rfl⟩ ⟨out.2, rfl⟩

theorem beginHdr_table {chp : Nat} {s s' : FromWire} {start size : Nat} (hTable : s.Table start size)
    (hBegun : s.shp.isSome = true) (h : s.beginHdr chp = some s') :
    s'.Table start size ∧ s'.rp.sline = s.rp.sline := by
  obtain ⟨full, hShp⟩ := Option.isSome_iff_exists.mp hBegun
  simp only [FromWire.beginHdr, hShp, Option.bind_eq_bind, Option.bind_eq_some_iff] at h
  obtain ⟨rp, ⟨⟨_, heap⟩, hDid, hRp⟩, h⟩ := h
  obtain rfl := Option.some.inj hRp
  obtain rfl := Option.some.inj h
  exact ⟨⟨hTable.hdrsAt, staysIn_aextend _ _ _ _ _ (did_some.mp hDid) _ hTable.heap⟩, rfl⟩

/-- The first header is begun at the next aligned offset of the heap. -/
theorem beginHdr_first_iff {chp : Nat} {s : FromWire} {size : Nat} (hNone : s.shp = none)
    (hHeap : s.rp.heap.InRoom size) (hFirst : s.rp.hdrs = []) : (∃ s', s.beginHdr chp = some s') ↔
      Heap.alignedSize s.rp.heap.alen + sizeofHdr ≤ size := by
  have hAlloc := did_allocCnt_iff (n := 0) hHeap
  rw [htSizeof, Nat.zero_add, Nat.mul_one] at hAlloc
  rw [← hAlloc]
  simp only [FromWire.beginHdr, hNone, hFirst, List.length_nil, htSizeof, Nat.zero_add, Nat.mul_one,
    Option.bind_eq_bind]
  cases Heap.did (Heap.allocCnt sizeofHdr) s.rp.heap with
  | none => exact iff_of_false (by rintro ⟨_, h⟩; cases h) (by rintro ⟨_, h⟩; cases h)
  | some out => exact iff_of_true ⟨_, rfl⟩ ⟨out, rfl⟩

theorem beginHdr_first_table {chp : Nat} {s s' : FromWire} {size : Nat} (hNone : s.shp = none)
    (hHeap : s.rp.heap.InRoom size) (h : s.beginHdr chp = some s') :
    s'.Table (Heap.alignedSize s.rp.heap.alen) size ∧ s'.rp.sline = s.rp.sline := by
  simp only [FromWire.beginHdr, hNone, Option.bind_eq_bind, Option.bind_eq_some_iff] at h
  obtain ⟨rp, ⟨⟨hdrsAt, heap⟩, hDid, hRp⟩, h⟩ := h
  obtain rfl := Option.some.inj hRp
  obtain rfl := Option.some.inj h
  obtain ⟨rfl, hFits, rfl⟩ := Heap.reserve_ok.mp (did_some.mp hDid)
  obtain ⟨rfl, hIn⟩ := hHeap
  have hLe := Heap.le_alignedSize s.rp.heap.alen
  rw [Heap.remaining] at hFits
  refine ⟨⟨rfl, rfl, ?_⟩, rfl⟩
  dsimp only
  omega

/-- A turn of the loop. -/
theorem loop_turn {c o : Nat} {os : List Nat} {s : FromWire} {fuel : Nat} (hAt : At b c (o :: os) s)
    (hc : c < b.length) {mit : MsgIterator WordSize.lp64.sizeof}
    (hStep : s.mit.breakDown = some (Int.ofNat o, mit)) : FromWire.loop T m (fuel + 1) s =
      (FromWire.line T m o { s with mit }).bind fun out =>
        if out.1 then FromWire.loop T m fuel out.2 else some out.2 := by
  have hSome : ¬ s.cp.l = 0 := by
    rw [hAt.cp]
    simp only
    omega
  have hPos : ¬ Int.ofNat o < 0 := by simp
  rw [FromWire.loop, if_neg hSome, hStep]
  simp only [Option.bind_eq_bind, Option.bind_some, if_neg hPos]
  rfl

theorem line_folded {chp : Nat} {s : FromWire} {full : Str} (hShp : s.shp = some full)
    (hWs : Str.isWs ((m.read s.cp).headD 0) = true) : FromWire.line T m chp s =
      some (true, { s with shp := some { full with l := chp - full.off } }.nextLine chp) := by
  rw [FromWire.line]
  simp only [hShp, if_pos hWs]

theorem line_complete {chp : Nat} {s : FromWire} {full : Str} (hShp : s.shp = some full)
    (hNot : ¬ Str.isWs ((m.read s.cp).headD 0) = true) : FromWire.line T m chp s =
      (FromWire.commit T m full s).bind fun s => s.endOrBegin chp := by
  rw [FromWire.line]
  simp only [hShp, if_neg hNot]
  rfl

/-- What the loop makes of the headers `hdrs` from `s` on: it gets through them where they have a colon
each and there is room for their table. -/
structure FromWire.Takes (T : Shift) (start size : Nat) (s : FromWire) (hdrs : List Bytes)
    (out : Option FromWire) : Prop where
  iff : (∃ s', out = some s') ↔ (∀ hdr ∈ hdrs, ch ':' ∈ hdr) ∧
    start + sizeofHdr * (s.rp.hdrs.length + (hdrs.map (entryCount T)).sum + spareLast T hdrs) ≤ size
  some : ∀ s', out = some s' → s'.rp.hdrs ≠ [] ∧ s'.rp.sline = s.rp.sline

/-- Headers fail where the first of them does, or there is no room to begin another. -/
theorem FromWire.takes_none {start size : Nat} {s : FromWire} {hdrs : List Bytes}
    (hNot : ¬ ((∀ hdr ∈ hdrs, ch ':' ∈ hdr) ∧ start + sizeofHdr *
      (s.rp.hdrs.length + (hdrs.map (entryCount T)).sum + spareLast T hdrs) ≤ size)) :
    FromWire.Takes T start size s hdrs none where
  iff := iff_of_false (by rintro ⟨_, h⟩; cases h) hNot
  some _ h := by cases h

/-- The loop through the header lines. -/
theorem loop_takes (hLen : b.length ≤ 2 ^ 31) {os : List Nat} {c fuel e start size : Nat}
    {s : FromWire} {d : Span} {lines : List Span} (hAt : At b c os s)
    (hShp : s.shp = some ⟨.lit b, d.1, d.2 - d.1⟩) (hHdr : d.1 ≤ d.2) (hEnd : d.2 ≤ c)
    (hBlock : headerLines c os = some (lines, e)) (hTable : s.Table start size)
    (hBase : start + sizeofHdr * (s.rp.hdrs.length + 1) ≤ size) (hFuel : os.length ≤ fuel) :
    FromWire.Takes T start size s ((foldLines b d lines).map (slice b)) (FromWire.loop T m fuel s) := by
  induction os generalizing c fuel s d lines with
  | nil => cases hBlock
  | cons o os ih =>
    obtain ⟨mit, hStep, hCrlf, hc, hNext⟩ := hAt.next hLen
    have hIn := crlfAt_lt hCrlf
    obtain ⟨fuel, rfl⟩ : ∃ k, fuel = k + 1 :=
      Nat.exists_eq_add_one.mpr (Nat.lt_of_lt_of_le (Nat.succ_pos _) hFuel)
    rw [List.length_cons] at hFuel
    have hHead := head_read m (show c < b.length by omega)
    rw [← hAt.cp] at hHead
    rw [headerLines] at hBlock
    rw [loop_turn hAt (by omega) hStep]
    by_cases hWs : Str.isWs (b.getD c 0) = true
    · -- a continuation line
      have hNe : o ≠ c := by
        rintro rfl
        simp only [crlfAt, decide_eq_true_eq] at hCrlf
        rw [hCrlf.1] at hWs
        exact absurd hWs (by decide)
      rw [if_neg hNe, Option.map_eq_some_iff] at hBlock
      obtain ⟨⟨rest, e'⟩, hRest, hIs⟩ := hBlock
      obtain ⟨rfl, rfl⟩ := Prod.mk.inj hIs
      rw [foldLines, if_pos hWs]
      rw [← hHead] at hWs
      rw [@line_folded T m o { s with mit := mit } _ hShp hWs, Option.bind_some, if_pos rfl]
      have hHere : At b (o + 2) os (FromWire.nextLine o { s with
          mit := mit
          shp := some ⟨.lit b, d.1, o - d.1⟩ }) := by
        refine hNext _ rfl ?_
        simp only [FromWire.nextLine, hAt.cp, Str.mk.injEq, true_and]
        omega
      obtain ⟨hIff, hSome⟩ := @ih _ fuel _ (d.1, o) rest hHere rfl (by simp only; omega)
        (by simp only; omega) hRest ⟨hTable.hdrsAt, hTable.heap⟩ hBase (by omega)
      exact ⟨hIff, hSome⟩
    · -- the header begun before is complete
      rw [@line_complete T m o { s with mit := mit } _ hShp (by rwa [hHead])]
      have hNow : (o = c ∧ lines = []) ∨
          o ≠ c ∧ ∃ rest, headerLines (o + 2) os = some (rest, e) ∧ lines = (c, o) :: rest := by
        by_cases hLast : o = c
        · rw [if_pos hLast] at hBlock
          exact Or.inl ⟨hLast, (Prod.mk.inj (Option.some.inj hBlock)).1.symm⟩
        · rw [if_neg hLast, Option.map_eq_some_iff] at hBlock
          obtain ⟨⟨rest, e'⟩, hRest, hIs⟩ := hBlock
          obtain ⟨rfl, rfl⟩ := Prod.mk.inj hIs
          exact Or.inr ⟨hLast, rest, hRest, rfl⟩
      have hRead : m.read ⟨.lit b, d.1, d.2 - d.1⟩ = slice b d := read_slice m hHdr (by omega)
      have hTable' : FromWire.Table start size { s with mit := mit } := ⟨hTable.hdrsAt, hTable.heap⟩
      have hCommits := @commit_isSome_iff T m ⟨.lit b, d.1, d.2 - d.1⟩ _ start size hTable' hBase
      rw [hRead] at hCommits
      have hSpare := spare_le (entryCount T (slice b d))
      have hPos := entryCount_pos T (slice b d)
      obtain ⟨hLast, rfl⟩ | ⟨hNe, rest, hRest, rfl⟩ := hNow
      · -- and the last one
        have hIs : (foldLines b d []).map (slice b) = [slice b d] := rfl
        have hRoom : ((∀ hdr ∈ [slice b d], ch ':' ∈ hdr) ∧ start + sizeofHdr * (s.rp.hdrs.length +
            ([slice b d].map (entryCount T)).sum + spareLast T [slice b d]) ≤ size) ↔
            ∃ s', FromWire.commit T m ⟨.lit b, d.1, d.2 - d.1⟩ { s with mit := mit } = some s' := by
          rw [hCommits, List.forall_mem_singleton, List.map_singleton, List.sum_singleton]
          rfl
        rw [hIs]
        cases hCommit : FromWire.commit T m ⟨.lit b, d.1, d.2 - d.1⟩ { s with mit := mit } with
        | none =>
          refine FromWire.takes_none fun h => ?_
          obtain ⟨_, hSome⟩ := hRoom.mp h
          rw [hCommit] at hSome
          cases hSome
        | some s₂ =>
          obtain ⟨-, -, hSline₂, hCount⟩ := commit_table hTable' hCommit
          obtain ⟨hCp₂, -, -, -⟩ := commit_some hCommit
          rw [hRead] at hCount
          have hAt₂ : s₂.cp = ⟨.lit b, c, b.length - c⟩ := hCp₂.trans hAt.cp
          have hEnd₂ : s₂.endOrBegin o = some (false,
              { s₂ with cp := { s₂.cp with off := s₂.cp.off + 2, l := s₂.cp.l - 2 } }) := by
            rw [FromWire.endOrBegin, if_pos (by rw [hAt₂]; exact hLast)]
          rw [Option.bind_some, hEnd₂, Option.bind_some, if_neg Bool.false_ne_true]
          constructor
          · exact iff_of_true ⟨_, rfl⟩ (hRoom.mpr ⟨s₂, hCommit⟩)
          · rintro s' hs'
            obtain rfl := Option.some.inj hs'
            refine ⟨fun hNone => ?_, hSline₂⟩
            rw [show s₂.rp.hdrs = [] from hNone, List.length_nil] at hCount
            omega
      · -- and another one begins
        rw [foldLines, if_neg hWs, List.map_cons]
        have hMore := @sum_entryCount_pos T ((foldLines b (c, o) rest).map (slice b))
          fun hNil => foldLines_ne_nil b _ rest (List.map_eq_nil_iff.mp hNil)
        have hCons := @spareLast_cons T ((foldLines b (c, o) rest).map (slice b))
          (fun hNil => foldLines_ne_nil b _ rest (List.map_eq_nil_iff.mp hNil)) (slice b d)
        have hGoal : ((∀ hdr ∈ slice b d :: (foldLines b (c, o) rest).map (slice b), ch ':' ∈ hdr) ∧
            start + sizeofHdr * (s.rp.hdrs.length +
              ((slice b d :: (foldLines b (c, o) rest).map (slice b)).map (entryCount T)).sum +
                spareLast T (slice b d :: (foldLines b (c, o) rest).map (slice b))) ≤ size) ↔
            ch ':' ∈ slice b d ∧ (∀ hdr ∈ (foldLines b (c, o) rest).map (slice b), ch ':' ∈ hdr) ∧
              start + sizeofHdr * (s.rp.hdrs.length + entryCount T (slice b d) +
                (((foldLines b (c, o) rest).map (slice b)).map (entryCount T)).sum +
                  spareLast T ((foldLines b (c, o) rest).map (slice b))) ≤ size := by
          rw [List.forall_mem_cons, and_assoc, hCons, List.map_cons, List.sum_cons, ← Nat.add_assoc]
        cases hCommit : FromWire.commit T m ⟨.lit b, d.1, d.2 - d.1⟩ { s with mit := mit } with
        | none =>
          refine FromWire.takes_none fun h => ?_
          obtain ⟨hColon, -, hRoom⟩ := hGoal.mp h
          obtain ⟨_, hSome⟩ := hCommits.mpr ⟨hColon, by
            simp only [sizeofHdr] at *
            omega⟩
          rw [hCommit] at hSome
          cases hSome
        | some s₂ =>
          obtain ⟨hTable₂, hShp₂, hSline₂, hCount⟩ := commit_table hTable' hCommit
          obtain ⟨hCp₂, hMit₂, -, -⟩ := commit_some hCommit
          rw [hRead] at hCount
          have hAt₂ : s₂.cp = ⟨.lit b, c, b.length - c⟩ := hCp₂.trans hAt.cp
          have hBegun : s₂.shp.isSome = true := congrArg Option.isSome (hShp₂.trans hShp)
          have hBegins := @beginHdr_isSome_iff o s₂ start size hTable₂ hBegun
          rw [hCount] at hBegins
          rw [Option.bind_some, FromWire.endOrBegin, if_neg (by rw [hAt₂]; exact hNe)]
          cases hBegin : s₂.beginHdr o with
          | none =>
            refine FromWire.takes_none fun h => ?_
            obtain ⟨-, -, hRoom⟩ := hGoal.mp h
            obtain ⟨_, hSome⟩ := hBegins.mpr (by
              simp only [sizeofHdr] at *
              omega)
            rw [hBegin] at hSome
            cases hSome
          | some s₃ =>
            obtain ⟨hTable₃, hSline₃⟩ := beginHdr_table hTable₂ hBegun hBegin
            obtain ⟨hCp₃, hMit₃, -, hHdrs₃, hShp₃⟩ := beginHdr_some hBegin
            have hHere : At b (o + 2) os (s₃.nextLine o) := by
              refine hNext _ (hMit₃.trans hMit₂) ?_
              simp only [FromWire.nextLine, hCp₃, hAt₂, Str.mk.injEq, true_and]
              omega
            have hShp' : (s₃.nextLine o).shp = some ⟨.lit b, c, o - c⟩ := by
              rw [FromWire.nextLine, hShp₃, hAt₂]
            have hCount₃ : (s₃.nextLine o).rp.hdrs.length =
                s.rp.hdrs.length + entryCount T (slice b d) :=
              (congrArg List.length hHdrs₃).trans hCount
            have hDone := @ih (o + 2) fuel (s₃.nextLine o) (c, o) rest hHere hShp' hc (by simp only; omega)
              hRest ⟨hTable₃.hdrsAt, hTable₃.heap⟩ (by
                rw [hCount₃]
                exact hBegins.mp ⟨s₃, hBegin⟩) (by omega)
            obtain ⟨hIff, hSome⟩ := hDone
            rw [hCount₃] at hIff
            constructor
            · rw [hGoal, and_iff_right (hCommits.mp ⟨s₂, hCommit⟩).1]
              exact hIff
            · rintro s' hs'
              obtain ⟨hHdrs, hSline⟩ := hSome s' hs'
              exact ⟨hHdrs, hSline.trans (hSline₃.trans hSline₂)⟩

/-! ## The start line -/

theorem staysIn_extendPairs (size : Nat → Nat) (start n : Nat) (pps : List TvPair) :
    Op.Keeps Heap.StaysIn (extendPairs size start n pps) := by
  induction pps generalizing n with
  | nil => exact .pure ()
  | cons pp pps ih => exact .bind (staysIn_aextend _ _) fun _ => ih (n + 1)

theorem uriParse_inRoom {s : Str} {up : Uri} {hp hp' : Heap} {n : Nat}
    (hRun : (Uri.parse m s).run hp = some (.ok up, hp')) (hIn : hp.InRoom n) : hp'.InRoom n := by
  obtain ⟨start, hp₁, hAlloc, hRun⟩ := Op.bind_ok.mp hRun
  obtain ⟨-, hFits, rfl⟩ := Heap.reserve_ok.mp hAlloc
  obtain ⟨hp₂, _, hDone, hRun⟩ := Op.bind_ok.mp hRun
  obtain ⟨rfl, rfl⟩ := Op.get_ok.mp hDone
  have hBody : ∀ m : Mem, Op.Keeps Heap.StaysIn (do
      let up ← Op.orElse (Uri.parseParts m s) ()
      extendPairs Uri.sizeof start 0 up.parameters
      extendPairs Uri.sizeof start up.parameters.length up.headers
      return up : HeapM Uri) := fun _ =>
    .bind (.orElse _ _) fun _ => .bind (staysIn_extendPairs _ _ _ _) fun _ =>
      .bind (staysIn_extendPairs _ _ _ _) fun _ => .pure _
  apply hBody _ _ _ _ (Op.cleanup_ok.mp hRun) n
  obtain ⟨rfl, hTop⟩ := hIn
  have hLe := Heap.le_alignedSize hp.alen
  rw [Heap.remaining] at hFits
  refine ⟨rfl, ?_⟩
  dsimp only
  omega

theorem slineParse_inRoom {onwire : Str} {sline : Sline} {hp hp' : Heap} {n : Nat}
    (h : Heap.did (slineParse m onwire) hp = some (sline, hp')) (hIn : hp.InRoom n) : hp'.InRoom n := by
  have hRun := did_some.mp h
  obtain ⟨_, _, hDone, hRun⟩ := Op.bind_ok.mp hRun
  obtain ⟨-, rfl⟩ := Op.orElse_ok.mp hDone
  obtain ⟨_, _, hDone, hRun⟩ := Op.bind_ok.mp hRun
  obtain ⟨-, rfl⟩ := Op.require_ok.mp hDone
  obtain ⟨_, _, hDone, hRun⟩ := Op.bind_ok.mp hRun
  obtain ⟨-, rfl⟩ := Op.orElse_ok.mp hDone
  obtain ⟨_, _, hDone, hRun⟩ := Op.bind_ok.mp hRun
  obtain ⟨-, rfl⟩ := Op.require_ok.mp hDone
  split at hRun
  · obtain ⟨_, _, hDone, hRun⟩ := Op.bind_ok.mp hRun
    obtain ⟨-, rfl⟩ := Op.orElse_ok.mp hDone
    split at hRun
    · obtain ⟨-, rfl⟩ := Prod.mk.inj (Option.some.inj hRun)
      exact hIn
    · cases hRun
  · split at hRun
    · obtain ⟨up, _, hUri, hRun⟩ := Op.bind_ok.mp hRun
      obtain ⟨-, rfl⟩ := Prod.mk.inj (Option.some.inj hRun)
      exact uriParse_inRoom hUri hIn
    · cases hRun

theorem length_crlfFrom_le (b : Bytes) (r : Nat) : (crlfFrom b r).length ≤ b.length - r := by
  rw [crlfFrom]
  exact (List.length_filter_le _ _).trans (List.length_range' ..).le

/-- The loop's variables behind a start line that ends at `o`. -/
def FromWire.afterSline (b : Bytes) (o : Nat) (mit : MsgIterator WordSize.lp64.sizeof)
    (sline : Sline) (hp : Heap) : FromWire :=
  { FromWire.start b with
    mit
    rp := { (FromWire.start b).rp with
      slineOnwire := ⟨.lit b, 0, o⟩, sline := some sline, heap := hp } }.nextLine o

/-- The first turn takes the start line. -/
theorem loop_first (T : Shift) (m : Mem) {o : Nat} {os : List Nat} (hLen : b.length ≤ 2 ^ 31)
    (hOs : crlfFrom b 0 = o :: os) : ∃ mit, (∀ sline hp,
      At b (o + 2) os (FromWire.afterSline b o mit sline hp)) ∧
      FromWire.loop T m (b.length + 1) (.start b) =
        (Heap.did (slineParse m ⟨.lit b, 0, o⟩) (FromWire.start b).rp.heap).bind fun out =>
          FromWire.loop T m b.length (FromWire.afterSline b o mit out.1 out.2) := by
  have hStart : At b 0 (o :: os) (.start b) := by
    rw [← hOs]
    exact ⟨rfl, ⟨0, 0, rfl, MsgIterator.window_fresh⟩, fun o _ => Nat.zero_le o⟩
  obtain ⟨mit, hStep, hCrlf, -, hNext⟩ := hStart.next hLen
  have hIn := crlfAt_lt hCrlf
  refine ⟨mit, fun sline hp => hNext _ rfl rfl, ?_⟩
  rw [loop_turn hStart (by omega) hStep]
  have hLine : FromWire.line T m o { FromWire.start b with mit := mit } =
      (Heap.did (slineParse m ⟨.lit b, 0, o⟩) (FromWire.start b).rp.heap).bind fun out =>
        some (true, FromWire.afterSline b o mit out.1 out.2) := by
    rw [FromWire.line]
    rfl
  rw [hLine, Option.bind_assoc]
  rfl

/-- The headers behind a start line. -/
theorem loop_afterSline {o : Nat} {os : List Nat} {lines : List Span} {e : Nat} {sline : Sline} {hp : Heap}
    {mit : MsgIterator WordSize.lp64.sizeof} (hLen : b.length ≤ 2 ^ 31) (hSet : o ≠ 0)
    (hAt : At b (o + 2) os (FromWire.afterSline b o mit sline hp))
    (hHeap : hp.InRoom (msgHeapSize b.length)) (hBlock : headerLines (o + 2) os = some (lines, e))
    {hdrs : List Bytes} (hHdrs : hdrs = (match lines with
      | [] => []
      | l :: ls => foldLines b l ls).map (slice b)) (hFuel : os.length ≤ b.length) :
    ((∃ s', FromWire.loop T m b.length (FromWire.afterSline b o mit sline hp) = some s' ∧
        s'.rp.hdrs ≠ []) ↔
      hdrs ≠ [] ∧ (∀ hdr ∈ hdrs, ch ':' ∈ hdr) ∧ Heap.alignedSize hp.alen + sizeofHdr *
        ((hdrs.map (entryCount T)).sum + spareLast T hdrs) ≤ msgHeapSize b.length) ∧
      ∀ s', FromWire.loop T m b.length (FromWire.afterSline b o mit sline hp) = some s' →
        s'.rp.sline = some sline := by
  cases os with
  | nil => cases hBlock
  | cons o₁ os =>
    obtain ⟨mit₁, hStep₁, hCrlf₁, hc₁, hNext₁⟩ := hAt.next hLen
    have hIn₁ := crlfAt_lt hCrlf₁
    obtain ⟨n, hn⟩ : ∃ n, b.length = n + 1 := Nat.exists_eq_add_one.mpr (by omega)
    rw [List.length_cons] at hFuel
    have hEnds : FromWire.line T m o₁ { FromWire.afterSline b o mit sline hp with mit := mit₁ } =
        FromWire.endOrBegin o₁ { FromWire.afterSline b o mit sline hp with mit := mit₁ } := by
      rw [FromWire.line]
      exact if_neg hSet
    have hTurn : FromWire.loop T m b.length (FromWire.afterSline b o mit sline hp) = _ :=
      (congrArg (FromWire.loop T m · _) hn).trans (loop_turn hAt (by omega) hStep₁)
    rw [hTurn, hEnds, FromWire.endOrBegin]
    rw [headerLines] at hBlock
    split at hBlock
    · rename_i hLast
      obtain ⟨rfl, -⟩ := Prod.mk.inj (Option.some.inj hBlock)
      rw [if_pos (by rw [hAt.cp]; exact hLast), Option.bind_some, if_neg Bool.false_ne_true]
      constructor
      · refine iff_of_false ?_ fun h => h.1 hHdrs
        rintro ⟨s', hs', hSome⟩
        obtain rfl := Option.some.inj hs'
        exact hSome rfl
      · rintro s' hs'
        obtain rfl := Option.some.inj hs'
        rfl
    · rename_i hNe
      obtain ⟨⟨rest, e'⟩, hRest, hIs⟩ := Option.map_eq_some_iff.mp hBlock
      obtain ⟨rfl, rfl⟩ := Prod.mk.inj hIs
      have hSome : hdrs ≠ [] := by
        rw [hHdrs]
        exact fun hNil => foldLines_ne_nil b _ rest (List.map_eq_nil_iff.mp hNil)
      have hPos := @sum_entryCount_pos T hdrs hSome
      have hBegins := @beginHdr_first_iff o₁
        { FromWire.afterSline b o mit sline hp with mit := mit₁ } (msgHeapSize b.length) rfl hHeap rfl
      rw [if_neg (by rw [hAt.cp]; exact hNe)]
      cases hBegin : FromWire.beginHdr o₁ { FromWire.afterSline b o mit sline hp with mit := mit₁ } with
      | none =>
        constructor
        · refine iff_of_false (by rintro ⟨_, h, -⟩; cases h) fun h => ?_
          have hRoom := h.2.2
          obtain ⟨_, hYes⟩ := hBegins.mpr (by
            change Heap.alignedSize hp.alen + sizeofHdr ≤ _
            simp only [sizeofHdr] at *
            omega)
          rw [hBegin] at hYes
          cases hYes
        · rintro s' hs'
          cases hs'
      | some s₂ =>
        obtain ⟨hTable₂, hSline₂⟩ := @beginHdr_first_table o₁
          { FromWire.afterSline b o mit sline hp with mit := mit₁ } s₂ (msgHeapSize b.length) rfl hHeap
          hBegin
        obtain ⟨hCp₂, hMit₂, -, hHdrs₂, hShp₂⟩ := beginHdr_some hBegin
        have hCp : s₂.cp = ⟨.lit b, o + 2, b.length - (o + 2)⟩ := hCp₂.trans hAt.cp
        have hHere : At b (o₁ + 2) os (s₂.nextLine o₁) := by
          refine hNext₁ _ hMit₂ ?_
          simp only [FromWire.nextLine, hCp, Str.mk.injEq, true_and]
          omega
        have hCount : (s₂.nextLine o₁).rp.hdrs.length = 0 := congrArg List.length hHdrs₂
        have hFirst : (s₂.nextLine o₁).shp = some ⟨.lit b, o + 2, o₁ - (o + 2)⟩ := by
          rw [FromWire.nextLine, hShp₂]
          change some (⟨(FromWire.afterSline b o mit sline hp).cp.src,
            (FromWire.afterSline b o mit sline hp).cp.off,
            o₁ - (FromWire.afterSline b o mit sline hp).cp.off⟩ : Str) = _
          rw [hAt.cp]
        obtain ⟨hIff, hKept⟩ := @loop_takes T m b hLen os (o₁ + 2) n e'
          (Heap.alignedSize hp.alen) (msgHeapSize b.length) (s₂.nextLine o₁) (o + 2, o₁) rest hHere hFirst hc₁
          (by simp only; omega) hRest ⟨hTable₂.hdrsAt, hTable₂.heap⟩ (by
            rw [hCount, Nat.zero_add, Nat.mul_one]
            exact hBegins.mp ⟨s₂, hBegin⟩) (by omega)
        have hIs : (foldLines b (o + 2, o₁) rest).map (slice b) = hdrs := hHdrs.symm
        rw [hCount, Nat.zero_add, hIs] at hIff
        constructor
        · rw [and_iff_right hSome, ← hIff]
          constructor
          · rintro ⟨s', hs', -⟩
            exact ⟨s', hs'⟩
          · rintro ⟨s', hs'⟩
            exact ⟨s', hs', (hKept s' hs').1⟩
        · rintro s' hs'
          exact (hKept s' hs').2.trans hSline₂

/-- A message is made of what the loop leaves, if it has a header. -/
theorem ctorFromwire_loop {rp : WireMsg} (h : ctorFromwire T m b = some rp) :
    ∃ s', FromWire.loop T m (b.length + 1) (.start b) = some s' ∧ s'.rp.hdrs ≠ [] ∧
      rp.sline = s'.rp.sline := by
  simp only [ctorFromwire, Option.bind_eq_bind, Option.bind_eq_some_iff] at h
  obtain ⟨s', hLoop, h⟩ := h
  split at h
  · cases h
  · rename_i hSome
    refine ⟨s', hLoop, fun hNil => hSome (List.length_eq_zero_iff.mpr hNil), ?_⟩
    split at h
    · obtain rfl := Option.some.inj h
      rfl
    · obtain rfl := Option.some.inj h
      rfl

theorem loop_ctorFromwire {s' : FromWire} (hLoop : FromWire.loop T m (b.length + 1) (.start b) = some s')
    (hSome : s'.rp.hdrs ≠ []) : ∃ rp, ctorFromwire T m b = some rp ∧ rp.sline = s'.rp.sline := by
  rw [ctorFromwire, hLoop]
  simp only [Option.bind_eq_bind, Option.bind_some]
  rw [if_neg fun hZero => hSome (List.length_eq_zero_iff.mp hZero)]
  split
  · exact ⟨_, rfl, rfl⟩
  · exact ⟨_, rfl, rfl⟩

/-- A buffer whose headers end in an empty line is taken where its start line parses, there are headers
with a colon each, and the heap behind what the start line takes has room for their table, with one more
entry where the last of them is a list. -/
structure Accepted (T : Shift) (m : Mem) (b : Bytes) (sp : SplitMsg) (sline : Sline) (hp : Heap) :
    Prop where
  sline : Heap.did (slineParse m ⟨.lit b, 0, sp.sline.length⟩) (FromWire.start b).rp.heap = some (sline, hp)
  some : sp.hdrs ≠ []
  colon : ∀ hdr ∈ sp.hdrs, ch ':' ∈ hdr
  room : Heap.alignedSize hp.alen + sizeofHdr * ((sp.hdrs.map (entryCount T)).sum + spareLast T sp.hdrs) ≤
    msgHeapSize b.length

/-- What is accepted is taken, and nothing else. -/
theorem ctorFromwire_takes {sp : SplitMsg} (hLen : b.length ≤ 2 ^ 31) (hSplit : splitMsg b = some sp) :
    (∀ rp, ctorFromwire T m b = some rp →
      ∃ sline hp, rp.sline = some sline ∧ Accepted T m b sp sline hp) ∧
    ∀ sline hp, Accepted T m b sp sline hp →
      ∃ rp, ctorFromwire T m b = some rp ∧ rp.sline = some sline := by
  have hFuel := length_crlfFrom_le b 0
  rw [splitMsg] at hSplit
  cases hOs : crlfFrom b 0 with
  | nil =>
    rw [hOs] at hSplit
    cases hSplit
  | cons o os =>
    rw [hOs] at hSplit hFuel
    obtain ⟨⟨lines, e⟩, hBlock, rfl⟩ := Option.map_eq_some_iff.mp hSplit
    obtain ⟨mit, hAt, hFirst⟩ := loop_first T m hLen hOs
    have hTake : (b.take o).length = o := by
      have hIn := crlfAt_lt (mem_crlfFrom (hOs ▸ List.mem_cons_self)).2
      rw [List.length_take]
      omega
    have hStart : (FromWire.start b).rp.heap.InRoom (msgHeapSize b.length) := by
      refine ⟨?_, Nat.zero_le _⟩
      change msgHeapSize b.length / 8 * 8 = _
      rw [msgHeapSize]
      omega
    rw [List.length_cons] at hFuel
    have hRest := fun (sline : Sline) (hp : Heap) (hDid : Heap.did (slineParse m ⟨.lit b, 0, o⟩)
        (FromWire.start b).rp.heap = some (sline, hp)) =>
      @loop_afterSline T m b o os lines e sline hp mit hLen (slineParse_l_ne hDid) (hAt sline hp)
        (slineParse_inRoom hDid hStart) hBlock _ rfl (by omega)
    constructor
    · rintro rp hWire
      obtain ⟨s', hLoop, hSome, hIs⟩ := ctorFromwire_loop hWire
      rw [hFirst] at hLoop
      obtain ⟨⟨sline, hp⟩, hDid, hLoop⟩ := Option.bind_eq_some_iff.mp hLoop
      obtain ⟨hIff, hKept⟩ := hRest sline hp hDid
      obtain ⟨hHdrs, hColon, hRoom⟩ := hIff.mp ⟨s', hLoop, hSome⟩
      exact ⟨sline, hp, hIs.trans (hKept s' hLoop), ⟨by rw [hTake]; exact hDid, hHdrs, hColon, hRoom⟩⟩
    · rintro sline hp ⟨hDid, hHdrs, hColon, hRoom⟩
      dsimp only at hDid
      rw [hTake] at hDid
      obtain ⟨hIff, hKept⟩ := hRest sline hp hDid
      obtain ⟨s', hLoop, hSome⟩ := hIff.mpr ⟨hHdrs, hColon, hRoom⟩
      have hAll : FromWire.loop T m (b.length + 1) (.start b) = some s' := by
        rw [hFirst, hDid, Option.bind_some]
        exact hLoop
      obtain ⟨rp, hWire, hSline⟩ := loop_ctorFromwire hAll hSome
      exact ⟨rp, hWire, hSline.trans (hKept s' hLoop)⟩

end Microsippy
