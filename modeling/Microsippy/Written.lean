import Microsippy.HdrValues
import Microsippy.Regions

/-! # Messages as they are written

Headers written with a name in full, and that `usipy_sip_msg_ctor_fromwire` reads a message of such
headers back as it was put together.
-/

namespace Microsippy

set_option autoImplicit false

variable {T : Shift} {m : Mem} {ps : List (Hf × Bytes)}

/-! ## Lines -/

/-- A line end is not begun in a text without a carriage return. -/
theorem crlfAt_plain {pre x : Bytes} (hPlain : ∀ c ∈ pre, c ≠ 13) {k : Nat}
    (hAt : crlfAt (pre ++ x) k = true) : ∃ j, k = pre.length + j ∧ crlfAt x j = true := by
  obtain hIn | hOut := Nat.lt_or_ge k pre.length
  · rw [crlfAt, decide_eq_true_eq, getD_append_left hIn, List.getD_eq_getElem _ _ hIn] at hAt
    exact absurd hAt.1 (hPlain _ (List.getElem_mem hIn))
  · obtain ⟨j, rfl⟩ := Nat.exists_eq_add_of_le hOut
    rw [crlfAt_append_right] at hAt
    exact ⟨j, rfl, hAt⟩

theorem oneLine_of_plain {x : Bytes} (hPlain : ∀ c ∈ x, c ≠ 13) : OneLine x := by
  intro k
  by_contra hAt
  rw [← List.append_nil x, Bool.not_eq_false] at hAt
  obtain ⟨j, -, hHere⟩ := crlfAt_plain hPlain hAt
  exact absurd (crlfAt_lt hHere) (Nat.not_lt_zero _)

/-! ## Headers -/

/-- A header without its line end. -/
def hdrText (p : Hf × Bytes) : Bytes := (hdrDb p.1).name ++ (bytes ": " ++ p.2)

/-- Names have neither white space nor a colon. -/
theorem name_plain {t : Hf} (h : t ≠ .generic) : (hdrDb t).name ≠ [] ∧
    ∀ c ∈ (hdrDb t).name, c ≠ ch ':' ∧ c ≠ 13 ∧ Str.isWs c = false := by
  have hAll : ∀ t ∈ Hf.all, t ≠ .generic → (hdrDb t).name ≠ [] ∧
      ∀ c ∈ (hdrDb t).name, c ≠ ch ':' ∧ c ≠ 13 ∧ Str.isWs c = false := by decide +kernel
  exact hAll t (Hf.mem_all t) h

theorem folded_hdrText {p : Hf × Bytes} (hKnown : p.1 ≠ .generic) (h : Carried p.2) :
    Folded (hdrText p) := by
  obtain ⟨hSome, hPlain⟩ := name_plain hKnown
  obtain ⟨c, name, hName⟩ := List.exists_cons_of_ne_nil hSome
  obtain ⟨-, hCr, hWs⟩ := hPlain c (hName ▸ List.mem_cons_self)
  have hIs : hdrText p = ((hdrDb p.1).name ++ bytes ": ") ++ p.2 := (List.append_assoc ..).symm
  have hNone : ∀ d ∈ (hdrDb p.1).name ++ bytes ": ", d ≠ 13 := by
    intro d hd
    obtain hd | hd := List.mem_append.mp hd
    · exact (hPlain d hd).2.1
    · rintro rfl
      exact absurd hd (by decide)
  refine ⟨?_, ⟨?_, ?_⟩, fun k hAt => ?_⟩
  · rw [hdrText, hName]
    exact List.cons_ne_nil _ _
  · rw [hdrText, hName]
    exact hWs
  · rw [hdrText, hName, crlfAt, decide_eq_false_iff_not]
    exact fun hAt => hCr hAt.1
  · rw [hIs] at hAt ⊢
    obtain ⟨j, rfl, hHere⟩ := crlfAt_plain hNone hAt
    rw [Nat.add_assoc, getD_append_right]
    exact h.lines j hHere

/-- A header that is written makes one entry. -/
theorem dbEntries_hdrText {p : Hf × Bytes} (hKnown : p.1 ≠ .generic) (h : Carried p.2)
    (hComma : (hdrDb p.1).csl_allowed = true → ch ',' ∉ p.2) :
    dbEntries T (hdrText p) = [((hdrDb p.1).name, p.2)] := by
  obtain ⟨-, hPlain⟩ := name_plain hKnown
  obtain ⟨hName, hRest⟩ := @hdrName_of_append (hdrDb p.1).name (ch ' ' :: p.2) fun hIn =>
    (hPlain _ hIn).1 rfl
  have hKept : (hdrDb p.1).name.rdropWhile Str.isWs = (hdrDb p.1).name := by
    rw [List.rdropWhile_eq_self_iff]
    intro hSome
    exact Bool.eq_false_iff.mp (hPlain _ (List.getLast_mem hSome)).2.2
  have hTrim : trimLws (ch ' ' :: p.2) = p.2 := h.trim
  have hType : hdrDbLookup T (hdrDb p.1).name = p.1 := hdrDbLookup_name T rfl
  have hIs : hdrText p = (hdrDb p.1).name ++ ch ':' :: (ch ' ' :: p.2) := rfl
  rw [hKept] at hName
  rw [dbEntries, hdrEntries, hIs, hName, hRest, hType]
  split
  · rename_i hList
    have hNot : ch ',' ∉ ch ' ' :: p.2 := by
      intro hIn
      obtain hBad | hIn := List.mem_cons.mp hIn
      · exact absurd hBad (by decide)
      · exact hComma hList hIn
    rw [List.splitOn_eq_singleton hNot, List.map_singleton, hTrim]
  · rw [List.map_singleton, hTrim]

theorem carried_of_plain {v : Bytes} (hFirst : ∀ c ∈ v.head?, Str.isLws c = false)
    (hLast : ∀ c ∈ v.getLast?, Str.isLws c = false) (hPlain : ∀ c ∈ v, c ≠ 13) : Carried v := by
  refine ⟨hFirst, hLast, fun k hAt => ?_⟩
  rw [oneLine_of_plain hPlain k] at hAt
  cases hAt

/-! ## Written and read back -/

/-- A header that is read back as it is written. -/
structure Writable (p : Hf × Bytes) : Prop where
  known : p.1 ≠ .generic
  full : (hdrDb p.1).cantype = p.1
  value : Carried p.2
  comma : (hdrDb p.1).csl_allowed = true → ch ',' ∉ p.2

theorem typed_texts (hAll : ∀ p ∈ ps, Writable p) :
    (((ps.map hdrText).flatMap (dbEntries T)).map fun e => (hdrType T e.1, e.2)) = ps := by
  induction ps with
  | nil => rfl
  | cons p ps ih =>
    have hThis := hAll p List.mem_cons_self
    have hType : hdrType T (hdrDb p.1).name = p.1 := by
      rw [hdrType, hdrDbLookup_name T (h := p.1) rfl, hThis.full]
    rw [List.map_cons, List.flatMap_cons, dbEntries_hdrText hThis.known hThis.value hThis.comma,
      List.map_append, ih fun q hq => hAll q (List.mem_cons_of_mem _ hq), List.map_singleton, hType]
    rfl

theorem sum_entryCount_texts (hAll : ∀ p ∈ ps, Writable p) :
    ((ps.map hdrText).map (entryCount T)).sum = ps.length ∧
      ∀ hdr ∈ ps.map hdrText, entryCount T hdr = 1 := by
  have hOne : ∀ hdr ∈ ps.map hdrText, entryCount T hdr = 1 := by
    intro hdr hIn
    obtain ⟨p, hp, rfl⟩ := List.mem_map.mp hIn
    rw [entryCount, dbEntries_hdrText (hAll p hp).known (hAll p hp).value (hAll p hp).comma]
    rfl
  refine ⟨?_, hOne⟩
  rw [List.map_congr_left hOne, List.map_const', List.sum_replicate_nat, List.length_map, Nat.mul_one]

theorem le_msgExtraHeapSize (n : Nat) : sizeofHdr * 30 ≤ msgExtraHeapSize n := by
  rw [msgExtraHeapSize_eq]
  split
  · omega
  · exact le_trans (by omega) (Heap.le_alignedSize n)

/-- There is room for thirty headers in every message. -/
theorem le_msgHeapSize (n : Nat) : sizeofHdr * 30 ≤ msgHeapSize n := by
  have hLe := Heap.le_alignedSize n
  have hExtra := le_msgExtraHeapSize n
  have hMod := msgExtraHeapSize_mod n
  rw [msgHeapSize]
  omega

theorem read_begin (x rest : Bytes) : m.read ⟨.lit (x ++ rest), 0, x.length⟩ = x := by
  have hSlice := read_slice m (Nat.zero_le x.length) (show x.length ≤ (x ++ rest).length by
    rw [List.length_append]
    exact Nat.le_add_right _ _)
  rw [Nat.sub_zero] at hSlice
  rw [hSlice, slice, List.drop_zero, Nat.sub_zero, List.take_left]

/-- A message of headers that are written is read back, where its start line is and there is room for its
headers. -/
theorem ctorFromwire_written {b x body : Bytes} {sline : Sline} {hp : Heap}
    (hb : SplitMsg.join ⟨x, ps.map hdrText, body⟩ = b) (hOne : OneLine x)
    (hParse : Heap.did (slineParse m ⟨.lit b, 0, x.length⟩) (FromWire.start b).rp.heap = some (sline, hp))
    (hSome : ps ≠ []) (hAll : ∀ p ∈ ps, Writable p)
    (hRoom : Heap.alignedSize hp.alen + sizeofHdr * ps.length ≤ msgHeapSize b.length)
    (hLen : b.length ≤ 2 ^ 31) :
    ∃ rp, ctorFromwire T m b = some rp ∧ rp.sline = some sline ∧ m.read rp.slineOnwire = x ∧
      rp.typed m = ps ∧ m.read rp.body = body := by
  have hSplit := SplitMsg.splitMsg_join ⟨x, ps.map hdrText, body⟩ hOne (by
    intro hdr hIn
    obtain ⟨p, hp, rfl⟩ := List.mem_map.mp hIn
    exact folded_hdrText (hAll p hp).known (hAll p hp).value)
  rw [hb] at hSplit
  obtain ⟨hSum, hEach⟩ := @sum_entryCount_texts T ps hAll
  have hAccepted : Accepted T m b ⟨x, ps.map hdrText, body⟩ sline hp := by
    refine ⟨hParse, fun hNil => hSome (List.map_eq_nil_iff.mp hNil), ?_, ?_⟩
    · intro hdr hIn
      obtain ⟨p, -, rfl⟩ := List.mem_map.mp hIn
      exact List.mem_append_right _ (List.mem_append_left _ (by decide))
    · rw [hSum, spareLast_of_single hEach, Nat.add_zero]
      exact hRoom
  obtain ⟨rp, hWire, hSline⟩ := (ctorFromwire_takes hLen hSplit).2 sline hp hAccepted
  obtain ⟨-, hLine, hBody, -⟩ := ctorFromwire_split hLen hSplit hWire
  refine ⟨rp, hWire, hSline, hLine, ?_, hBody⟩
  rw [typed_of_split hLen hSplit hWire, typed_texts hAll]

/-- Thirty headers always have room behind a start line that takes none. -/
theorem ctorFromwire_thirty {x body : Bytes} {sline : Sline} (hOne : OneLine x)
    (hParse : ∀ y hp, m.read y = x → Heap.did (slineParse m y) hp = some (sline, hp))
    (hSome : ps ≠ []) (hAll : ∀ p ∈ ps, Writable p) (hCount : ps.length ≤ 30)
    (hLen : (SplitMsg.join ⟨x, ps.map hdrText, body⟩).length ≤ 2 ^ 31) :
    ∃ rp, ctorFromwire T m (SplitMsg.join ⟨x, ps.map hdrText, body⟩) = some rp ∧
      rp.sline = some sline ∧ m.read rp.slineOnwire = x ∧ rp.typed m = ps ∧ m.read rp.body = body := by
  refine ctorFromwire_written rfl hOne (hParse _ _ (read_begin x _)) hSome hAll ?_ hLen
  have hStart : Heap.alignedSize 0 = 0 := by decide
  change Heap.alignedSize 0 + _ ≤ _
  rw [hStart, Nat.zero_add]
  exact (Nat.mul_le_mul_left _ hCount).trans (le_msgHeapSize _)

end Microsippy
