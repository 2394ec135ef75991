import Microsippy.WireSplit

/-! # Messages put together

A start line, headers and a body joined by line ends, that the split of the whole is them again, and
that the parts a buffer is split into make it up.
-/

namespace Microsippy

set_option autoImplicit false

/-- A message of its parts. -/
def SplitMsg.join (sp : SplitMsg) : Bytes :=
  sp.sline ++ ([13, 10] ++ (sp.hdrs.flatMap (· ++ [13, 10]) ++ ([13, 10] ++ sp.body)))

/-- A header that goes on after a line end only with white space. -/
structure Folded (h : Bytes) : Prop where
  some : h ≠ []
  first : Str.isWs (h.getD 0 0) = false ∧ crlfAt h 0 = false
  lines : ∀ k, crlfAt h k = true → Str.isWs (h.getD (k + 2) 0) = true

/-- A text of one line. -/
def OneLine (x : Bytes) : Prop := ∀ k, crlfAt x k = false

/-! ## Line ends -/

theorem getD_append_right (pre x : Bytes) (k : Nat) :
    (pre ++ x).getD (pre.length + k) 0 = x.getD k 0 := by
  rw [List.getD_eq_getElem?_getD, List.getD_eq_getElem?_getD,
    List.getElem?_append_right (Nat.le_add_right ..), Nat.add_sub_cancel_left]

theorem getD_append_left {x : Bytes} {k : Nat} (hk : k < x.length) (post : Bytes) :
    (x ++ post).getD k 0 = x.getD k 0 := by
  rw [List.getD_eq_getElem?_getD, List.getD_eq_getElem?_getD, List.getElem?_append_left hk]

theorem crlfAt_append_right (pre x : Bytes) (k : Nat) :
    crlfAt (pre ++ x) (pre.length + k) = crlfAt x k := by
  rw [crlfAt, crlfAt, getD_append_right, Nat.add_assoc, getD_append_right]

/-- A line end does not begin in a text and end with the line end after it. -/
theorem crlfAt_before {x : Bytes} {k : Nat} (hk : k < x.length) (post : Bytes) :
    crlfAt (x ++ ([13, 10] ++ post)) k = crlfAt x k := by
  rw [crlfAt, crlfAt, getD_append_left hk]
  cases Nat.lt_or_ge (k + 1) x.length with
  | inl hIn => rw [getD_append_left hIn]
  | inr hOut =>
    have hNext : (x ++ ([13, 10] ++ post)).getD (k + 1) 0 = 13 := by
      have hEnd : k + 1 = x.length + 0 := by omega
      rw [hEnd, getD_append_right]
      rfl
    have hNone : x.getD (k + 1) 0 = 0 := by
      rw [List.getD_eq_getElem?_getD, List.getElem?_eq_none hOut]
      rfl
    rw [hNext, hNone]
    simp only [decide_eq_decide]
    constructor
    · rintro ⟨-, hBad⟩
      exact absurd hBad (by decide)
    · rintro ⟨-, hBad⟩
      exact absurd hBad (by decide)

theorem crlfAt_end (x post : Bytes) : crlfAt (x ++ ([13, 10] ++ post)) x.length = true := by
  have hHere := crlfAt_append_right x ([13, 10] ++ post) 0
  rw [Nat.add_zero] at hHere
  rw [hHere]
  rfl

/-- The next line end, and the ones after it. -/
theorem crlfFrom_next {b : Bytes} {r o : Nat} (hFrom : r ≤ o) (hAt : crlfAt b o = true)
    (hFirst : ∀ o', r ≤ o' → o' < o → crlfAt b o' = false) :
    crlfFrom b r = o :: crlfFrom b (o + 2) := by
  have hIn := crlfAt_lt hAt
  rw [crlfFrom_cons hFrom hAt hFirst, crlfFrom, crlfFrom]
  have hRange : b.length - (o + 1) = b.length - (o + 2) + 1 := by omega
  rw [hRange, List.range'_succ, List.filter_cons_of_neg]
  rw [not_crlfAt_succ hAt]
  exact Bool.false_ne_true

/-! ## Headers -/

variable {b pre h post : Bytes}

theorem crlfAt_within (hb : b = pre ++ (h ++ ([13, 10] ++ post))) {k : Nat} (hk : k < h.length) :
    crlfAt b (pre.length + k) = crlfAt h k := by
  rw [hb, crlfAt_append_right, crlfAt_before hk]

theorem crlfAt_after (hb : b = pre ++ (h ++ ([13, 10] ++ post))) :
    crlfAt b (pre.length + h.length) = true := by
  rw [hb, crlfAt_append_right, crlfAt_end]

/-- The line ends from a place in a text on: one in the text, or the one after it. -/
theorem crlfFrom_within (hb : b = pre ++ (h ++ ([13, 10] ++ post))) {j : Nat} (hj : j ≤ h.length) :
    (∃ k, j ≤ k ∧ k < h.length ∧ crlfAt h k = true ∧
      crlfFrom b (pre.length + j) = (pre.length + k) :: crlfFrom b (pre.length + k + 2)) ∨
    (∀ k, j ≤ k → crlfAt h k = false) ∧ crlfFrom b (pre.length + j) =
      (pre.length + h.length) :: crlfFrom b (pre.length + h.length + 2) := by
  by_cases hSome : ∃ k, j ≤ k ∧ crlfAt h k = true
  · left
    obtain ⟨hFrom, hAt⟩ := Nat.find_spec hSome
    have hLt := crlfAt_lt hAt
    refine ⟨Nat.find hSome, hFrom, by omega, hAt, ?_⟩
    apply crlfFrom_next (Nat.add_le_add_left hFrom _)
    · rwa [crlfAt_within hb (by omega)]
    · intro o' hLow hHigh
      obtain ⟨k, rfl⟩ := Nat.exists_eq_add_of_le (Nat.le_trans (Nat.le_add_right ..) hLow)
      have hNot := Nat.find_min hSome (m := k) (by omega)
      rw [crlfAt_within hb (by omega)]
      exact Bool.eq_false_iff.mpr fun hHere => hNot ⟨by omega, hHere⟩
  · right
    have hNone : ∀ k, j ≤ k → crlfAt h k = false := fun k hk =>
      Bool.eq_false_iff.mpr fun hAt => hSome ⟨k, hk, hAt⟩
    refine ⟨hNone, ?_⟩
    apply crlfFrom_next (Nat.add_le_add_left hj _) (crlfAt_after hb)
    intro o' hLow hHigh
    obtain ⟨k, rfl⟩ := Nat.exists_eq_add_of_le (Nat.le_trans (Nat.le_add_right ..) hLow)
    rw [crlfAt_within hb (by omega)]
    exact hNone k (by omega)

theorem not_crlfAt_of_ws {x : Bytes} {k : Nat} (h : Str.isWs (x.getD k 0) = true) :
    crlfAt x k = false := by
  rw [crlfAt, decide_eq_false_iff_not]
  rintro ⟨hCr, -⟩
  rw [hCr] at h
  exact absurd h (by decide)

theorem lt_of_ws {x : Bytes} {k : Nat} (h : Str.isWs (x.getD k 0) = true) : k < x.length := by
  by_contra hOut
  rw [List.getD_eq_getElem?_getD, List.getElem?_eq_none (Nat.not_lt.mp hOut)] at h
  exact absurd h (by decide)

/-- The lines of a header from one of them on. By induction on what is left of the header. -/
theorem headerLines_within (hb : b = pre ++ (h ++ ([13, 10] ++ post)))
    (hLines : ∀ k, crlfAt h k = true → Str.isWs (h.getD (k + 2) 0) = true) {j n : Nat}
    (hLeft : h.length - j = n) (hj : j < h.length) (hNot : crlfAt h j = false) :
    ∃ o segs, headerLines (pre.length + j) (crlfFrom b (pre.length + j)) =
        (headerLines (pre.length + h.length + 2) (crlfFrom b (pre.length + h.length + 2))).map
          (fun r => ((pre.length + j, o) :: (segs ++ r.1), r.2)) ∧
      ∀ s rest, foldLines b (s, o) (segs ++ rest) = foldLines b (s, pre.length + h.length) rest := by
  induction n using Nat.strong_induction_on generalizing j with
  | _ n ih =>
    obtain ⟨k, hFrom, hk, hAt, hNext⟩ | ⟨-, hNext⟩ := crlfFrom_within hb hj.le
    · have hWs := hLines k hAt
      have hIn := lt_of_ws hWs
      have hLater : k ≠ j := by
        rintro rfl
        rw [hNot] at hAt
        cases hAt
      obtain ⟨o, segs, hRest, hFold⟩ :=
        ih (h.length - (k + 2)) (by omega) rfl hIn (not_crlfAt_of_ws hWs)
      refine ⟨pre.length + k, (pre.length + (k + 2), o) :: segs, ?_, fun s rest => ?_⟩
      · rw [hNext, headerLines, if_neg (by omega), Nat.add_assoc, hRest, Option.map_map]
        rfl
      · have hHere : Str.isWs (b.getD (pre.length + (k + 2)) 0) = true := by
          rw [hb, getD_append_right, getD_append_left hIn]
          exact hWs
        rw [List.cons_append, foldLines, if_pos hHere]
        exact hFold s rest
    · refine ⟨pre.length + h.length, [], ?_, fun _ _ => rfl⟩
      rw [hNext, headerLines, if_neg (by omega)]
      rfl

/-- All headers from the first line on. -/
def foldAll (b : Bytes) : List Span → List Span
  | [] => []
  | l :: ls => foldLines b l ls

theorem headerLines_join {hs : List Bytes} {body : Bytes} (hFolded : ∀ h ∈ hs, Folded h)
    (hb : b = pre ++ (hs.flatMap (· ++ [13, 10]) ++ ([13, 10] ++ body))) :
    ∃ lines, headerLines pre.length (crlfFrom b pre.length) = some (lines, b.length - body.length) ∧
      (∀ d, foldLines b d lines = d :: foldAll b lines) ∧ (foldAll b lines).map (slice b) = hs := by
  induction hs generalizing pre with
  | nil =>
    have hEnd := crlfFrom_within (h := []) (j := 0) hb le_rfl
    obtain ⟨k, -, hk, -⟩ | ⟨-, hNext⟩ := hEnd
    · cases hk
    · refine ⟨[], ?_, fun _ => rfl, rfl⟩
      have hLength : b.length - body.length = pre.length + 2 := by
        rw [hb]
        simp only [List.length_append, List.flatMap_nil, List.length_nil, List.length_cons]
        omega
      rw [Nat.add_zero, List.length_nil, Nat.add_zero] at hNext
      rw [hNext, headerLines, if_pos rfl, hLength]
  | cons h hs ih =>
    have hHead := hFolded h List.mem_cons_self
    let post := hs.flatMap (· ++ [13, 10]) ++ ([13, 10] ++ body)
    have hSplit : b = pre ++ (h ++ ([13, 10] ++ post)) := by
      rw [hb, List.flatMap_cons]
      simp only [post, List.append_assoc]
    have hPre : (pre ++ (h ++ [13, 10])).length = pre.length + h.length + 2 := by
      rw [List.length_append, List.length_append, Nat.add_assoc]
      rfl
    obtain ⟨lines, hRest, hBegin, hSlices⟩ := @ih (pre ++ (h ++ [13, 10]))
      (fun h' hIn => hFolded h' (List.mem_cons_of_mem _ hIn)) (by
        rw [hSplit]
        simp only [post, List.append_assoc])
    rw [hPre] at hRest
    obtain ⟨o, segs, hHere, hFold⟩ := headerLines_within hSplit hHead.lines rfl
      (List.length_pos_of_ne_nil hHead.some) hHead.first.2
    rw [hRest, Nat.add_zero] at hHere
    have hHeader : foldLines b (pre.length, o) (segs ++ lines) =
        (pre.length, pre.length + h.length) :: foldAll b lines := by
      rw [hFold, hBegin]
    have hNotWs : ¬ Str.isWs (b.getD pre.length 0) = true := by
      have hFirst := getD_append_right pre (h ++ ([13, 10] ++ post)) 0
      rw [Nat.add_zero] at hFirst
      rw [hSplit, hFirst, getD_append_left (List.length_pos_of_ne_nil hHead.some), hHead.first.1]
      exact Bool.false_ne_true
    have hSlice : slice b (pre.length, pre.length + h.length) = h := by
      rw [slice, hSplit, List.drop_left, Nat.add_sub_cancel_left, List.take_left]
    refine ⟨(pre.length, o) :: (segs ++ lines), hHere, fun d => ?_, ?_⟩
    · rw [foldLines, if_neg hNotWs]
      rfl
    · rw [foldAll, hHeader, List.map_cons, hSlice, hSlices]

/-- The split of a message put together is its parts. -/
theorem SplitMsg.splitMsg_join (sp : SplitMsg) (hSline : OneLine sp.sline)
    (hFolded : ∀ h ∈ sp.hdrs, Folded h) : splitMsg sp.join = some sp := by
  have hFirst := @crlfFrom_within sp.join [] sp.sline _ rfl 0 (Nat.zero_le sp.sline.length)
  obtain ⟨k, -, -, hAt, -⟩ | ⟨-, hNext⟩ := hFirst
  · rw [hSline k] at hAt
    cases hAt
  · obtain ⟨lines, hLines, -, hSlices⟩ := @headerLines_join sp.join (sp.sline ++ [13, 10]) sp.hdrs sp.body
      hFolded (by rw [join, List.append_assoc])
    have hPre : (sp.sline ++ [13, 10]).length = sp.sline.length + 2 := by
      rw [List.length_append]
      rfl
    rw [hPre] at hLines
    simp only [List.length_nil, Nat.zero_add] at hNext
    have hBody : sp.join.drop (sp.join.length - sp.body.length) = sp.body := by
      rw [join]
      simp only [← List.append_assoc]
      rw [List.length_append, Nat.add_sub_cancel, List.drop_left]
    have hTake : sp.join.take sp.sline.length = sp.sline := by rw [join, List.take_left]
    rw [splitMsg, hNext]
    simp only [hLines, Option.map_some, Option.some.injEq, hTake, hBody]
    cases lines with
    | nil => exact congrArg (fun hdrs => { sp with hdrs := hdrs }) hSlices
    | cons l ls => exact congrArg (fun hdrs => { sp with hdrs := hdrs }) hSlices

/-! ## The parts of a buffer -/

theorem crlfFrom_eq_cons {b : Bytes} {r o : Nat} {os : List Nat} (h : crlfFrom b r = o :: os) :
    r ≤ o ∧ crlfAt b o = true ∧ (∀ k, r ≤ k → k < o → crlfAt b k = false) ∧
      os = crlfFrom b (o + 2) := by
  obtain ⟨hFrom, hAt⟩ := mem_crlfFrom (h ▸ List.mem_cons_self)
  have hIn := crlfAt_lt hAt
  have hFirst : ∀ k, r ≤ k → k < o → crlfAt b k = false := by
    intro k hk hBefore
    by_contra hHere
    have hMem : k ∈ crlfFrom b r := List.mem_filter.mpr
      ⟨List.mem_range'_1.mpr ⟨hk, by omega⟩, Bool.not_eq_false _ ▸ hHere⟩
    have hSorted : (crlfFrom b r).Pairwise (· < ·) := List.Pairwise.filter _ List.pairwise_lt_range'
    rw [h] at hMem hSorted
    obtain rfl | hLater := List.mem_cons.mp hMem
    · exact Nat.lt_irrefl _ hBefore
    · exact Nat.lt_asymm hBefore (List.rel_of_pairwise_cons hSorted hLater)
  exact ⟨hFrom, hAt, hFirst, (List.cons.inj (h.symm.trans (crlfFrom_next hFrom hAt hFirst))).2⟩

theorem drop_crlf {b : Bytes} {o : Nat} (h : crlfAt b o = true) : b.drop o = [13, 10] ++ b.drop (o + 2) := by
  have hIn := crlfAt_lt h
  rw [crlfAt, decide_eq_true_eq, List.getD_eq_getElem _ _ (by omega), List.getD_eq_getElem _ _ hIn] at h
  rw [List.drop_eq_getElem_cons (by omega), List.drop_eq_getElem_cons hIn, h.1, h.2]
  rfl

theorem slice_append (b : Bytes) {s e : Nat} (h : s ≤ e) : slice b (s, e) ++ b.drop e = b.drop s := by
  have hRest : (b.drop s).drop (e - s) = b.drop e := by
    rw [List.drop_drop, Nat.add_sub_cancel' h]
  rw [slice, ← hRest]
  exact List.take_append_drop _ _

theorem getD_slice (b : Bytes) {s : Span} {k : Nat} (h : k < s.2 - s.1) :
    (slice b s).getD k 0 = b.getD (s.1 + k) 0 := by
  rw [slice, List.getD_eq_getElem?_getD, List.getElem?_take_of_lt h, List.getElem?_drop,
    ← List.getD_eq_getElem?_getD]

/-- A part of a buffer up to a line end, and every line end in it before white space. -/
structure Continued (b : Bytes) (s : Span) : Prop where
  le : s.1 ≤ s.2
  stop : crlfAt b s.2 = true
  lines : ∀ k, s.1 ≤ k → k < s.2 → crlfAt b k = true → Str.isWs (b.getD (k + 2) 0) = true

theorem Continued.slice {b : Bytes} {s : Span} (h : Continued b s) (k : Nat)
    (hAt : crlfAt (slice b s) k = true) : Str.isWs ((Microsippy.slice b s).getD (k + 2) 0) = true := by
  have hIn := crlfAt_lt hAt
  have hLength : (Microsippy.slice b s).length ≤ s.2 - s.1 := by
    rw [Microsippy.slice, List.length_take]
    exact Nat.min_le_left _ _
  have hHere : crlfAt b (s.1 + k) = true := by
    rw [crlfAt, getD_slice b (by omega), getD_slice b (by omega)] at hAt
    exact hAt
  have hWs := h.lines (s.1 + k) (Nat.le_add_right _ _) (by omega) hHere
  by_cases hEnd : s.1 + k + 2 = s.2
  · -- the white space would be the line end
    rw [hEnd] at hWs
    have hNot := not_crlfAt_of_ws hWs
    rw [h.stop] at hNot
    cases hNot
  · rw [getD_slice b (by omega)]
    exact hWs

/-- A header begun and the lines after it are the headers they make, each with its line end, the empty
line and what comes after it. -/
theorem foldLines_parts {b : Bytes} {os : List Nat} {c e : Nat} {d : Span} {lines : List Span}
    (hOs : crlfFrom b c = os) (hBlock : headerLines c os = some (lines, e)) (hc : d.2 + 2 = c)
    (hd : Continued b d) :
    b.drop d.1 = ((foldLines b d lines).map (slice b)).flatMap (· ++ [13, 10]) ++
        ([13, 10] ++ b.drop e) ∧ ∀ s ∈ foldLines b d lines, Continued b s := by
  have hHead : b.drop d.1 = slice b d ++ ([13, 10] ++ b.drop c) := by
    rw [← hc, ← drop_crlf hd.stop]
    exact (slice_append b hd.le).symm
  induction os generalizing c d lines with
  | nil => cases hBlock
  | cons o os ih =>
    obtain ⟨hFrom, hAt, hNone, hRest⟩ := crlfFrom_eq_cons hOs
    rw [headerLines] at hBlock
    by_cases hEnd : o = c
    · rw [if_pos hEnd] at hBlock
      obtain ⟨rfl, rfl⟩ := Prod.mk.inj (Option.some.inj hBlock)
      rw [hEnd] at hAt
      refine ⟨?_, fun s hs => ?_⟩
      · rw [hHead, drop_crlf hAt, foldLines]
        simp only [List.map_cons, List.map_nil, List.flatMap_cons, List.flatMap_nil, List.append_assoc,
          List.append_nil]
      · obtain rfl := List.mem_singleton.mp hs
        exact hd
    · rw [if_neg hEnd, Option.map_eq_some_iff] at hBlock
      obtain ⟨⟨rest, e'⟩, hBlock, hIs⟩ := hBlock
      obtain ⟨rfl, rfl⟩ := Prod.mk.inj hIs
      rw [foldLines]
      split
      · -- a continuation line
        rename_i hWs
        have hd' : Continued b (d.1, o) := by
          refine ⟨by have hLe := hd.le; simp only; omega, hAt, fun k hLow hHigh hHere => ?_⟩
          simp only at hLow hHigh
          obtain hBefore | rfl | rfl | hAfter : k < d.2 ∨ k = d.2 ∨ k = d.2 + 1 ∨ c ≤ k := by omega
          · exact hd.lines k hLow hBefore hHere
          · rw [hc]
            exact hWs
          · rw [not_crlfAt_succ hd.stop] at hHere
            cases hHere
          · rw [hNone k hAfter hHigh] at hHere
            cases hHere
        exact ih hRest.symm hBlock rfl hd' (by
          rw [← drop_crlf hAt]
          exact (slice_append b hd'.le).symm)
      · have hd' : Continued b (c, o) := by
          refine ⟨hFrom, hAt, fun k hLow hHigh hHere => ?_⟩
          rw [hNone k hLow hHigh] at hHere
          cases hHere
        obtain ⟨hParts, hAll⟩ := ih hRest.symm hBlock rfl hd' (by
          rw [← drop_crlf hAt]
          exact (slice_append b hd'.le).symm)
        refine ⟨?_, fun s hs => ?_⟩
        · rw [hHead, hParts]
          simp only [List.map_cons, List.flatMap_cons, List.append_assoc]
        · obtain rfl | hLater := List.mem_cons.mp hs
          · exact hd
          · exact hAll s hLater

theorem headerLines_parts {b : Bytes} {c e : Nat} {lines : List Span}
    (hBlock : headerLines c (crlfFrom b c) = some (lines, e)) :
    b.drop c = ((foldAll b lines).map (slice b)).flatMap (· ++ [13, 10]) ++ ([13, 10] ++ b.drop e) ∧
      ∀ s ∈ foldAll b lines, Continued b s := by
  cases hOs : crlfFrom b c with
  | nil =>
    rw [hOs] at hBlock
    cases hBlock
  | cons o os =>
    obtain ⟨hFrom, hAt, hNone, hRest⟩ := crlfFrom_eq_cons hOs
    rw [hOs, headerLines] at hBlock
    split at hBlock
    · rename_i hEnd
      obtain ⟨rfl, rfl⟩ := Prod.mk.inj (Option.some.inj hBlock)
      rw [hEnd] at hAt
      exact ⟨drop_crlf hAt, fun s hs => by cases hs⟩
    · obtain ⟨⟨rest, e'⟩, hLines, hIs⟩ := Option.map_eq_some_iff.mp hBlock
      obtain ⟨rfl, rfl⟩ := Prod.mk.inj hIs
      have hFirst : Continued b (c, o) := by
        refine ⟨hFrom, hAt, fun k hLow hHigh hHere => ?_⟩
        rw [hNone k hLow hHigh] at hHere
        cases hHere
      exact foldLines_parts hRest.symm hLines rfl hFirst

/-- A buffer is its parts put together, and every line end in a header is before white space. -/
theorem join_splitMsg {b : Bytes} {sp : SplitMsg} (h : splitMsg b = some sp) :
    sp.join = b ∧ OneLine sp.sline ∧
      ∀ hdr ∈ sp.hdrs, ∀ k, crlfAt hdr k = true → Str.isWs (hdr.getD (k + 2) 0) = true := by
  rw [splitMsg] at h
  cases hOs : crlfFrom b 0 with
  | nil =>
    rw [hOs] at h
    cases h
  | cons o os =>
    obtain ⟨-, hAt, hNone, hRest⟩ := crlfFrom_eq_cons hOs
    rw [hOs] at h
    obtain ⟨⟨lines, e⟩, hBlock, hIs⟩ := Option.map_eq_some_iff.mp h
    rw [hRest] at hBlock
    obtain ⟨hParts, hAll⟩ := headerLines_parts hBlock
    obtain rfl : ⟨b.take o, (foldAll b lines).map (slice b), b.drop e⟩ = sp := by
      rw [← hIs]
      cases lines <;> rfl
    refine ⟨?_, fun k => ?_, fun hdr hMem k hHere => ?_⟩
    · rw [SplitMsg.join]
      dsimp only
      rw [← hParts, ← drop_crlf hAt, List.take_append_drop]
    · by_contra hHere
      have hOn : crlfAt (b.take o) k = true := Bool.not_eq_false _ ▸ hHere
      have hIn := crlfAt_lt hOn
      rw [List.length_take] at hIn
      have hThere : crlfAt (slice b (0, o)) k = true := by
        rw [slice, List.drop_zero]
        exact hOn
      rw [crlfAt, getD_slice b (by simp only; omega), getD_slice b (by simp only; omega), Nat.zero_add,
        Nat.zero_add] at hThere
      have hNot := hNone k (Nat.zero_le k) (by omega)
      rw [crlfAt, hThere] at hNot
      cases hNot
    · obtain ⟨s, hs, rfl⟩ := List.mem_map.mp hMem
      exact (hAll s hs).slice k hHere

end Microsippy
