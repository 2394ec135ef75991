import Mathlib.Algebra.Order.BigOperators.Group.List
import Microsippy.Accepts
import Microsippy.Lib.Trim

/-! # Values of headers

What the values of the headers of a message from the wire are: parts of it with nothing to trim, the
line ends in them before white space, and without a comma in the elements of a list.
-/

namespace Microsippy

set_option autoImplicit false

variable {T : Shift} {m : Mem} {b : Bytes}

/-! ## Elements of lists -/

theorem infix_of_mem_splitOn {α : Type} [BEq α] [LawfulBEq α] {a : α} {xs x : List α}
    (h : x ∈ xs.splitOn a) : x <:+: xs ∧ a ∉ x := by
  have hAll : (∃ y ys, xs.splitOn a = y :: ys ∧ y <+: xs) ∧
      ∀ x ∈ xs.splitOn a, x <:+: xs ∧ a ∉ x := by
    clear h
    induction xs with
    | nil =>
      rw [List.splitOn_nil]
      refine ⟨⟨[], [], rfl, List.nil_prefix⟩, fun x hx => ?_⟩
      obtain rfl := List.mem_singleton.mp hx
      exact ⟨List.nil_suffix.isInfix, List.not_mem_nil⟩
    | cons c xs ih =>
      obtain ⟨⟨y, ys, hSplit, hFirst⟩, hRest⟩ := ih
      rw [List.splitOn_cons_eq_if_modifyHead, hSplit]
      rw [hSplit] at hRest
      split
      · refine ⟨⟨[], y :: ys, rfl, List.nil_prefix⟩, fun x hx => ?_⟩
        obtain rfl | hx := List.mem_cons.mp hx
        · exact ⟨List.nil_suffix.isInfix, List.not_mem_nil⟩
        · obtain ⟨hIn, hNot⟩ := hRest x hx
          exact ⟨hIn.trans (List.suffix_cons c xs).isInfix, hNot⟩
      · rename_i hNe
        have hHead : c :: y <+: c :: xs := (List.prefix_cons_inj c).mpr hFirst
        refine ⟨⟨c :: y, ys, rfl, hHead⟩, fun x hx => ?_⟩
        obtain rfl | hx := List.mem_cons.mp hx
        · refine ⟨hHead.isInfix, fun hMem => ?_⟩
          obtain rfl | hMem := List.mem_cons.mp hMem
          · exact hNe (beq_self_eq_true _)
          · exact (hRest y List.mem_cons_self).2 hMem
        · obtain ⟨hIn, hNot⟩ := hRest x (List.mem_cons_of_mem _ hx)
          exact ⟨hIn.trans (List.suffix_cons c xs).isInfix, hNot⟩
  exact hAll.2 x h

theorem sum_length_splitOn {α : Type} [BEq α] (a : α) (xs : List α) :
    ((xs.splitOn a).map List.length).sum ≤ xs.length := by
  induction xs with
  | nil => exact Nat.le_refl 0
  | cons c xs ih =>
    rw [List.splitOn_cons_eq_if_modifyHead]
    split
    · rw [List.map_cons, List.sum_cons, List.length_nil, List.length_cons]
      omega
    · obtain ⟨y, ys, hSplit⟩ := List.exists_cons_of_ne_nil (List.splitOn_ne_nil a xs)
      rw [hSplit, List.map_cons, List.sum_cons] at ih
      rw [hSplit, List.modifyHead_cons, List.map_cons, List.sum_cons, List.length_cons, List.length_cons]
      omega

/-! ## Parts of headers -/

theorem trimLws_isInfix (v : Bytes) : trimLws v <:+: v := by
  have hLast := List.rdropWhile_prefix Str.isLws (v.dropWhile Str.isLws)
  exact hLast.isInfix.trans (List.dropWhile_suffix Str.isLws).isInfix

theorem hdrRest_isInfix (hdr : Bytes) : hdrRest hdr <:+: hdr :=
  ((List.tail_suffix _).trans (List.dropWhile_suffix _)).isInfix

/-- A value a header carries as it is: nothing to trim, and the line ends in it before white space. -/
structure Carried (v : Bytes) : Prop where
  first : ∀ c ∈ v.head?, Str.isLws c = false
  last : ∀ c ∈ v.getLast?, Str.isLws c = false
  lines : ∀ k, crlfAt v k = true → Str.isWs (v.getD (k + 2) 0) = true

theorem Carried.trim {v : Bytes} (h : Carried v) : trimLws v = v := Trim.trim_eq_self h.first h.last

/-- A line end is not at the end of what is carried. -/
theorem crlf_last {v : Bytes} {k : Nat} (hAt : crlfAt v k = true) (hEnd : k + 2 = v.length) :
    ∃ c ∈ v.getLast?, Str.isLws c = true := by
  have hIn := crlfAt_lt hAt
  rw [crlfAt, decide_eq_true_eq] at hAt
  refine ⟨10, ?_, rfl⟩
  rw [List.getLast?_eq_getElem?, ← hEnd, Option.mem_def, Nat.add_sub_assoc (by decide),
    List.getElem?_eq_getElem hIn, ← List.getD_eq_getElem v 0 hIn]
  exact congrArg some hAt.2

/-- A part of a header is carried once it is trimmed. -/
theorem carried_trimLws {hdr x : Bytes} (hIn : x <:+: hdr)
    (hLines : ∀ k, crlfAt hdr k = true → Str.isWs (hdr.getD (k + 2) 0) = true) :
    Carried (trimLws x) := by
  obtain ⟨hFirst, hLast⟩ := Trim.ends_trim Str.isLws x
  change (∀ c ∈ (trimLws x).head?, _) at hFirst
  change (∀ c ∈ (trimLws x).getLast?, _) at hLast
  refine ⟨hFirst, hLast, fun k hAt => ?_⟩
  obtain ⟨pre, post, hIs⟩ := (trimLws_isInfix x).trans hIn
  have hLt := crlfAt_lt hAt
  have hNext : k + 2 < (trimLws x).length := by
    by_contra hEnd
    obtain ⟨c, hc, hLws⟩ := crlf_last hAt (by omega)
    rw [hLast c hc] at hLws
    cases hLws
  have hThere : crlfAt hdr (pre.length + k) = true := by
    rw [← hIs, List.append_assoc, crlfAt_append_right, crlfAt,
      getD_append_left (by omega), getD_append_left hLt]
    exact hAt
  have hWs := hLines _ hThere
  rw [← hIs, List.append_assoc, Nat.add_assoc, getD_append_right, getD_append_left hNext] at hWs
  exact hWs

/-! ## Messages -/

theorem csl_cantype (t : Hf) : (hdrDb (hdrDb t).cantype).csl_allowed = (hdrDb t).csl_allowed := by
  cases t <;> rfl

theorem mem_dbEntries {hdr : Bytes} {e : Bytes × Bytes} (h : e ∈ dbEntries T hdr) :
    ∃ x, x <:+: hdr ∧ e = (hdrName hdr, trimLws x) ∧
      ((hdrDb (hdrType T e.1)).csl_allowed = true → ch ',' ∉ e.2) := by
  obtain ⟨x, hx, rfl⟩ := List.mem_map.mp h
  rw [hdrType, csl_cantype]
  split at hx
  · obtain ⟨hIn, hNot⟩ := infix_of_mem_splitOn hx
    exact ⟨x, hIn.trans (hdrRest_isInfix hdr), rfl, fun _ hComma =>
      hNot ((trimLws_isInfix x).subset hComma)⟩
  · rename_i hSingle
    obtain rfl := List.mem_singleton.mp hx
    exact ⟨_, hdrRest_isInfix hdr, rfl, fun hList => absurd hList hSingle⟩

theorem sum_dbEntries_le (hdr : Bytes) :
    ((dbEntries T hdr).map fun e => e.2.length).sum ≤ hdr.length := by
  have hTrim : ∀ xs : List Bytes,
      (xs.map fun x => (trimLws x).length).sum ≤ (xs.map List.length).sum := fun xs =>
    List.sum_le_sum fun x _ => (trimLws_isInfix x).length_le
  have hRest := (hdrRest_isInfix hdr).length_le
  rw [dbEntries, hdrEntries, List.map_map]
  apply (hTrim _).trans
  split
  · exact (sum_length_splitOn _ _).trans hRest
  · rw [List.map_singleton, List.sum_singleton]
    exact hRest

theorem typed_of_split {rp : WireMsg} {sp : SplitMsg} (hLen : b.length ≤ 2 ^ 31)
    (hSplit : splitMsg b = some sp) (h : ctorFromwire T m b = some rp) :
    rp.typed m = (sp.hdrs.flatMap (dbEntries T)).map fun e => (hdrType T e.1, e.2) := by
  rw [ctorFromwire_typed h, (ctorFromwire_split hLen hSplit h).2.2.2]

/-- The values of a message from the wire are carried, and those of lists have no comma. -/
theorem typed_carried {rp : WireMsg} {sp : SplitMsg} (hLen : b.length ≤ 2 ^ 31)
    (hSplit : splitMsg b = some sp) (h : ctorFromwire T m b = some rp) : ∀ p ∈ rp.typed m,
      Carried p.2 ∧ ((hdrDb p.1).csl_allowed = true → ch ',' ∉ p.2) := by
  intro p hp
  rw [typed_of_split hLen hSplit h] at hp
  obtain ⟨e, he, rfl⟩ := List.mem_map.mp hp
  obtain ⟨hdr, hHdr, he⟩ := List.mem_flatMap.mp he
  obtain ⟨x, hIn, rfl, hComma⟩ := mem_dbEntries he
  exact ⟨carried_trimLws hIn ((join_splitMsg hSplit).2.2 hdr hHdr), hComma⟩

theorem typed_canonical {rp : WireMsg} (h : ctorFromwire T m b = some rp) :
    ∀ p ∈ rp.typed m, (hdrDb p.1).cantype = p.1 := by
  intro p hp
  rw [ctorFromwire_typed h] at hp
  obtain ⟨e, -, rfl⟩ := List.mem_map.mp hp
  generalize hdrDbLookup T e.1 = t
  rw [hdrType]
  cases hdrDbLookup T e.1 <;> rfl

/-- The values of a message from the wire are not longer than the message. -/
theorem sum_typed_le {rp : WireMsg} {sp : SplitMsg} (hLen : b.length ≤ 2 ^ 31)
    (hSplit : splitMsg b = some sp) (h : ctorFromwire T m b = some rp) :
    ((rp.typed m).map fun p => p.2.length).sum ≤ b.length := by
  have hHdrs : ∀ hdrs : List Bytes, ((hdrs.flatMap (dbEntries T)).map fun e => e.2.length).sum ≤
      (hdrs.flatMap (· ++ [13, 10])).length := by
    intro hdrs
    induction hdrs with
    | nil => exact Nat.le_refl 0
    | cons hdr hdrs ih =>
      have hHere := sum_dbEntries_le (T := T) hdr
      rw [List.flatMap_cons, List.flatMap_cons, List.map_append, List.sum_append, List.length_append,
        List.length_append]
      omega
  have hJoin := congrArg List.length (join_splitMsg hSplit).1
  have hAll := hHdrs sp.hdrs
  rw [SplitMsg.join, List.length_append, List.length_append, List.length_append] at hJoin
  rw [typed_of_split hLen hSplit h, List.map_map]
  change ((sp.hdrs.flatMap (dbEntries T)).map fun e => e.2.length).sum ≤ _
  omega

end Microsippy
