import Microsippy.Decimal
import Microsippy.Res

/-! # Responses read back

What a response repeats of its request, when one is made at all, and that
`usipy_sip_msg_ctor_fromwire` finds in the bytes of a response what was put in.
-/

namespace Microsippy

set_option autoImplicit false

namespace Res

variable {T : Shift} {m : Mem} {b tag server : Bytes} {reqp rp : WireMsg} {slp : Status} {sp : SplitMsg}
  {first : List Hf} {ps : List (Hf × Bytes)}

/-! ## What is repeated -/

theorem lacking_eq_nil : lacking first ps = [] ↔ ∀ t ∈ first, values t ps ≠ [] := by
  rw [lacking, List.filter_eq_nil_iff]
  apply forall₂_congr
  intro t _
  rw [values, ne_eq, List.map_eq_nil_iff, List.filter_eq_nil_iff, Bool.not_eq_true', Bool.not_eq_false,
    List.any_eq_true]
  simp only [not_forall, not_not, exists_prop]

/-- The values a response repeats: the first one of some types, all of others. -/
theorem values_copied (t : Hf) (hApart : ∀ t ∈ first, t ∉ copyall) : values t (copied tag first ps) =
    if t ∈ first then ((values t ps).take 1).map (valueIn tag t)
    else if t ∈ copyall then values t ps else [] := by
  induction ps generalizing first with
  | nil => simp [copied]
  | cons p ps ih =>
    obtain ⟨u, v⟩ := p
    have hFewer : ∀ t ∈ first.filter (· ≠ u), t ∉ copyall := fun t ht =>
      hApart t (List.mem_of_mem_filter ht)
    rw [copied]
    dsimp only
    by_cases hIs : u = t
    · obtain rfl := hIs
      by_cases hFirst : u ∈ first
      · have hGone : u ∉ first.filter (· ≠ u) := by simp
        rw [if_pos hFirst, if_pos hFirst, values_cons_self, values_cons_self, ih hFewer, if_neg hGone,
          if_neg (hApart u hFirst)]
        rfl
      · rw [if_neg hFirst, if_neg hFirst]
        split
        · rename_i hAlso
          rw [values_cons_self, values_cons_self, ih hApart, if_neg hFirst, if_pos hAlso]
        · rename_i hNot
          rw [ih hApart, if_neg hFirst, if_neg hNot]
    · have hSame : t ∈ first.filter (· ≠ u) ↔ t ∈ first := by
        rw [List.mem_filter, decide_eq_true_eq]
        exact and_iff_left fun hSo => hIs hSo.symm
      rw [values_cons_ne (p := (u, v)) hIs]
      split
      · rw [values_cons_ne (p := (u, valueIn tag u v)) hIs, ih hFewer]
        simp only [hSame]
      · split
        · rw [values_cons_ne (p := (u, v)) hIs, ih hApart]
        · exact ih hApart

theorem length_filter_ne {u : Hf} (hOnce : first.Nodup) (hIn : u ∈ first) :
    (first.filter (· ≠ u)).length + 1 = first.length := by
  have hErase := List.length_erase_of_mem hIn
  have hPos := List.length_pos_of_mem hIn
  rw [hOnce.erase_eq_filter] at hErase
  have hSame : first.filter (· ≠ u) = first.filter (· != u) := by
    apply List.filter_congr
    intro t _
    rw [bne, Bool.eq_iff_iff, decide_eq_true_eq, Bool.not_eq_true', beq_eq_false_iff_ne]
  rw [hSame]
  omega

theorem length_copied (hOnce : first.Nodup) (hApart : ∀ t ∈ first, t ∉ copyall) :
    (copied tag first ps).length + (lacking first ps).length =
      first.length + (values .VIA ps).length + (values .RECORDROUTE ps).length := by
  induction ps generalizing first with
  | nil => simp [copied, lacking]
  | cons p ps ih =>
    obtain ⟨u, v⟩ := p
    have hNone : u ∉ copyall → values .VIA ((u, v) :: ps) = values .VIA ps ∧
        values .RECORDROUTE ((u, v) :: ps) = values .RECORDROUTE ps := by
      intro hNot
      simp only [copyall, List.mem_cons, List.not_mem_nil, or_false, not_or] at hNot
      exact ⟨values_cons_ne hNot.1 ps, values_cons_ne hNot.2 ps⟩
    rw [copied]
    dsimp only
    by_cases hFirst : u ∈ first
    · have hMore := @ih (first.filter (· ≠ u)) (hOnce.filter _) fun t ht =>
        hApart t (List.mem_of_mem_filter ht)
      have hCount := length_filter_ne hOnce hFirst
      obtain ⟨hVia, hRoute⟩ := hNone (hApart u hFirst)
      rw [if_pos hFirst, lacking_cons_mem, List.length_cons, hVia, hRoute]
      dsimp only
      omega
    · rw [if_neg hFirst, lacking_cons hFirst]
      have hMore := ih hOnce hApart
      split
      · rename_i hAlso
        rw [List.length_cons]
        simp only [copyall, List.mem_cons, List.not_mem_nil, or_false] at hAlso
        obtain rfl | rfl := hAlso
        · rw [values_cons_self, values_cons_ne (show Hf.VIA ≠ .RECORDROUTE by decide),
            List.length_cons]
          omega
        · rw [values_cons_self, values_cons_ne (show Hf.RECORDROUTE ≠ .VIA by decide),
            List.length_cons]
          omega
      · rename_i hNot
        obtain ⟨hVia, hRoute⟩ := hNone hNot
        rw [hVia, hRoute]
        exact hMore

theorem mem_copied {p : Hf × Bytes} (h : p ∈ copied tag first ps) :
    (p.1 ∈ first ∨ p.1 ∈ copyall) ∧ ∃ q ∈ ps, p = q ∨ p = (q.1, valueIn tag q.1 q.2) := by
  induction ps generalizing first with
  | nil => cases h
  | cons q ps ih =>
    rw [copied] at h
    split at h
    · rename_i hFirst
      obtain rfl | h := List.mem_cons.mp h
      · exact ⟨Or.inl hFirst, q, List.mem_cons_self, Or.inr rfl⟩
      · obtain ⟨hType, q', hq', hIs⟩ := ih h
        exact ⟨hType.imp_left List.mem_of_mem_filter, q', List.mem_cons_of_mem _ hq', hIs⟩
    · split at h
      · rename_i hAlso
        obtain rfl | h := List.mem_cons.mp h
        · exact ⟨Or.inr hAlso, p, List.mem_cons_self, Or.inl rfl⟩
        · obtain ⟨hType, q', hq', hIs⟩ := ih h
          exact ⟨hType, q', List.mem_cons_of_mem _ hq', hIs⟩
      · obtain ⟨hType, q', hq', hIs⟩ := ih h
        exact ⟨hType, q', List.mem_cons_of_mem _ hq', hIs⟩

theorem length_valueIn_le (t : Hf) (v : Bytes) :
    (valueIn tag t v).length ≤ v.length + if t = .TO then toTagExtra tag else 0 := by
  rw [valueIn]
  split
  · rename_i hTo
    have hSome : tag.length ≠ 0 := fun hNone => hTo.2 (List.eq_nil_of_length_eq_zero hNone)
    rw [if_pos hTo.1, toTagExtra, if_pos hSome, List.length_append, List.length_append]
  · exact Nat.le_add_right _ _

/-- All that is repeated is not longer than what the request has, but for the tag. -/
theorem sum_copied_le : ((copied tag first ps).map fun p => p.2.length).sum ≤
    (ps.map fun p => p.2.length).sum + if Hf.TO ∈ first then toTagExtra tag else 0 := by
  induction ps generalizing first with
  | nil => exact Nat.zero_le _
  | cons p ps ih =>
    rw [copied, List.map_cons, List.sum_cons]
    split
    · rename_i hFirst
      have hMore := @ih (first.filter (· ≠ p.1))
      have hHere := @length_valueIn_le tag p.1 p.2
      rw [List.map_cons, List.sum_cons]
      dsimp only
      by_cases hTo : p.1 = .TO
      · rw [hTo] at hMore hHere hFirst ⊢
        rw [if_neg (by simp)] at hMore
        rw [if_pos rfl] at hHere
        rw [if_pos hFirst]
        omega
      · have hSame : Hf.TO ∈ first.filter (· ≠ p.1) ↔ Hf.TO ∈ first := by
          rw [List.mem_filter, decide_eq_true_eq]
          exact and_iff_left fun hSo => hTo hSo.symm
        rw [if_neg hTo] at hHere
        simp only [hSame] at hMore
        omega
    · have hMore := @ih first
      split
      · rw [List.map_cons, List.sum_cons]
        omega
      · omega

/-! ## The request -/

theorem onwire_of_wire (h : ctorFromwire T m b = some reqp) : reqp.onwire = Str.lit b := by
  simp only [ctorFromwire, Option.bind_eq_bind, Option.bind_eq_some_iff] at h
  obtain ⟨s, hLoop, h⟩ := h
  have hDone : s.rp.onwire = Str.lit b := by
    refine loop_keeps (P := fun rp => rp.onwire = Str.lit b) (fun rp rp' hPuts hOld => ?_) hLoop rfl
    cases hPuts with
    | sline => exact hOld
    | hdrs => exact hOld
  split at h
  · cases h
  · split at h
    · obtain rfl := Option.some.inj h
      exact hDone
    · obtain rfl := Option.some.inj h
      exact hDone

/-- A version that is verified has seven bytes, none of them a space or part of a line end. -/
theorem verified {v : Bytes} (h : verifySipVersion v = true) :
    v.length = 7 ∧ ∀ c ∈ v, c ≠ ch ' ' ∧ c ≠ 13 := by
  unfold verifySipVersion at h
  split at h
  · simp only [chcasecmp, Bool.and_eq_true, Bool.or_eq_true, beq_iff_eq] at h
    obtain ⟨⟨⟨⟨⟨⟨hS, hI⟩, hP⟩, rfl⟩, rfl⟩, rfl⟩, rfl⟩ := h
    refine ⟨rfl, ?_⟩
    obtain rfl | rfl := hS
    all_goals
      obtain rfl | rfl := hI
      all_goals
        obtain rfl | rfl := hP
        all_goals decide +kernel
  · cases h

/-- The version of a request is verified. -/
theorem verified_version (hWire : ctorFromwire T m b = some reqp) {method : Method} {ruri : Str}
    (hReq : reqp.sline = some (.req method ruri)) : verifySipVersion (version m reqp) = true := by
  obtain ⟨hp, hp', hParse⟩ := (ctorFromwire_wellTyped hWire).sline _ hReq
  have hRun := did_some.mp hParse
  obtain ⟨⟨s1, s2⟩, _, hDone, hRun⟩ := Op.bind_ok.mp hRun
  obtain ⟨hSplit, rfl⟩ := Op.orElse_ok.mp hDone
  obtain ⟨_, _, hDone, hRun⟩ := Op.bind_ok.mp hRun
  obtain ⟨-, rfl⟩ := Op.require_ok.mp hDone
  obtain ⟨⟨s3, s4⟩, _, hDone, hRun⟩ := Op.bind_ok.mp hRun
  obtain ⟨hRest, rfl⟩ := Op.orElse_ok.mp hDone
  obtain ⟨_, _, hDone, hRun⟩ := Op.bind_ok.mp hRun
  obtain ⟨-, rfl⟩ := Op.require_ok.mp hDone
  have hIs : version m reqp = m.read s4 := by
    rw [version, Str.split3, hSplit]
    simp only [Option.bind_eq_bind, Option.bind_some, hRest]
    rfl
  rw [hIs]
  split at hRun
  · obtain ⟨_, _, -, hRun⟩ := Op.bind_ok.mp hRun
    split at hRun
    · cases hRun
    · cases hRun
  · split at hRun
    · rename_i hVersion
      exact hVersion.2
    · cases hRun

/-! ## The start line -/

theorem scode2str_eq (code : StatusCode) : scode2str code.1 = dec code.1 ++ bytes " " := by
  have hAll : ∀ n ∈ List.range' 100 900, scode2str n = dec n ++ bytes " " := by decide +kernel
  apply hAll
  obtain ⟨code, hLow, hHigh⟩ := code
  exact List.mem_range'_1.mpr ⟨hLow, Nat.lt_succ_of_le hHigh⟩

theorem slineOut_eq : slineOut m reqp slp =
    version m reqp ++ (ch ' ' :: (dec slp.code.1 ++ (ch ' ' :: m.read slp.reason_phrase))) := by
  rw [slineOut, scode2str_eq, List.append_assoc]
  rfl

theorem length_slineOut : (slineOut m reqp slp).length =
    (version m reqp).length + 1 + 4 + slp.reason_phrase.l := by
  rw [slineOut, List.length_append, List.length_append, List.length_append, Mem.length_read]
  change _ + (1 + (4 + _)) = _
  omega

/-- The start line of a response is read back, with nothing taken of the heap. -/
theorem slineParse_slineOut {x : Str} {hp : Heap} (hVersion : verifySipVersion (version m reqp) = true)
    (hRead : m.read x = slineOut m reqp slp) :
    Heap.did (slineParse m x) hp = some (.res slp.code, hp) := by
  obtain ⟨hSeven, hPlain⟩ := verified hVersion
  have hNoSpace : ch ' ' ∉ dec slp.code.1 := not_mem_dec (Or.inl (by decide))
  have hDigits : dec slp.code.1 ≠ [] := by
    rw [dec, ne_eq, List.map_eq_nil_iff]
    exact Nat.toDigits_ne_nil
  rw [slineOut_eq] at hRead
  obtain ⟨s1, s2, hSplit, h1, h2⟩ := Str.split_of_append hRead fun hIn => (hPlain _ hIn).1 rfl
  obtain ⟨s3, s4, hRest, h3, h4⟩ := Str.split_of_append h2 hNoSpace
  have hSome1 : s1.l ≠ 0 := by
    rw [← Mem.length_read m s1, h1]
    omega
  have hSome2 : s2.l ≠ 0 := by
    rw [← Mem.length_read m s2, h2]
    simp
  have hSome3 : s3.l ≠ 0 := by
    rw [← Mem.length_read m s3, h3]
    exact fun hNone => hDigits (List.eq_nil_of_length_eq_zero hNone)
  obtain ⟨v, hCode, hIs⟩ := @atouiRange_dec m s3 slp.code.1 100 999 h3 slp.code.2.1 slp.code.2.2
  have hRange : 100 ≤ v.toNat ∧ v.toNat ≤ 999 := hIs ▸ slp.code.2
  rw [← h1] at hVersion
  rw [did_some, slineParse, hSplit]
  simp only [Op.run_bind, Op.run_orElse_some, Op.andThen_ok, Op.run_require_of hp (And.intro hSome1 hSome2), hRest,
    Op.run_require_of hp hSome3, hVersion, if_true, hCode, dif_pos hRange, Op.run_pure]
  have hSame : (⟨v.toNat, hRange⟩ : StatusCode) = slp.code := Subtype.ext hIs
  rw [hSame]

/-! ## Lines -/

theorem oneLine_slineOut (hVersion : verifySipVersion (version m reqp) = true)
    (hReason : OneLine (m.read slp.reason_phrase)) : OneLine (slineOut m reqp slp) := by
  have hIs : slineOut m reqp slp = (version m reqp ++ (ch ' ' :: (dec slp.code.1 ++ [ch ' ']))) ++
      m.read slp.reason_phrase := by
    rw [slineOut_eq]
    simp only [List.append_assoc, List.cons_append, List.nil_append]
  have hPlain : ∀ c ∈ version m reqp ++ (ch ' ' :: (dec slp.code.1 ++ [ch ' '])), c ≠ 13 := by
    intro c hc
    simp only [List.mem_append, List.mem_cons, List.not_mem_nil, or_false] at hc
    obtain hc | rfl | hc | rfl := hc
    · exact ((verified hVersion).2 c hc).2
    · decide
    · rintro rfl
      exact not_mem_dec (Or.inl (by decide)) hc
    · decide
  intro k
  by_contra hAt
  rw [hIs, Bool.not_eq_false] at hAt
  obtain ⟨j, -, hHere⟩ := crlfAt_plain hPlain hAt
  rw [hReason j] at hHere
  cases hHere

theorem carried_valueIn {v : Bytes} (t : Hf) (hValue : Carried v) (hTag : Carried tag) :
    Carried (valueIn tag t v) := by
  rw [valueIn]
  split
  · rename_i hTo
    refine ⟨fun c hc => ?_, fun c hc => ?_, fun k hAt => ?_⟩
    · cases v with
      | nil =>
        obtain rfl := Option.some.inj hc
        rfl
      | cons d v => exact hValue.first c hc
    · rw [List.getLast?_append, List.getLast?_append, List.getLast?_eq_some_getLast hTo.2] at hc
      exact hTag.last c ((List.getLast?_eq_some_getLast hTo.2).trans hc)
    · obtain hIn | hOut := Nat.lt_or_ge k v.length
      · have hNext : k + 1 < v.length := by
          by_contra hEnd
          have hBoth := hAt
          rw [crlfAt, decide_eq_true_eq, show k + 1 = v.length + 0 by omega, getD_append_right] at hBoth
          exact absurd hBoth.2 (show ¬ ch ';' = ch '\n' by decide)
        have hHere : crlfAt v k = true := by
          rw [crlfAt, getD_append_left hIn, getD_append_left hNext] at hAt
          exact hAt
        have hWs := hValue.lines k hHere
        rw [getD_append_left (lt_of_ws hWs)]
        exact hWs
      · obtain ⟨j, rfl⟩ := Nat.exists_eq_add_of_le hOut
        rw [crlfAt_append_right] at hAt
        obtain ⟨i, rfl, hHere⟩ := crlfAt_plain (by decide +kernel) hAt
        rw [Nat.add_assoc, getD_append_right, Nat.add_assoc, getD_append_right]
        exact hTag.lines i hHere
  · exact hValue

/-! ## The whole response -/

theorem mem_hdrsOut {p : Hf × Bytes} (h : p ∈ hdrsOut m server reqp tag) :
    ((p.1 ∈ copyfirst ∨ p.1 ∈ copyall) ∧
      ∃ q ∈ reqp.typed m, p = q ∨ p = (q.1, valueIn tag q.1 q.2)) ∨
        p = (.SERVER, server) ∨ p = (.CONTENTLENGTH, bytes "0") := by
  rw [hdrsOut, List.mem_append] at h
  obtain h | h := h
  · exact Or.inl (mem_copied h)
  · right
    rw [initAppendHdrs, List.map_append, List.mem_append] at h
    obtain h | h := h
    · split at h
      · exact Or.inl (List.mem_singleton.mp h)
      · cases h
    · exact Or.inr (List.mem_singleton.mp h)

theorem writable_hdrsOut (hLen : b.length ≤ 2 ^ 31) (hSplit : splitMsg b = some sp)
    (hWire : ctorFromwire T m b = some reqp) (hServer : Carried server) (hTag : Carried tag) :
    ∀ p ∈ hdrsOut m server reqp tag, Writable p := by
  intro p hp
  obtain ⟨hType, q, hq, hIs⟩ | rfl | rfl := mem_hdrsOut hp
  · obtain ⟨hValue, hComma⟩ := typed_carried hLen hSplit hWire q hq
    have hFull := typed_canonical hWire q hq
    have hKnown : p.1 ≠ .generic := by
      rintro hBad
      rw [hBad] at hType
      revert hType
      decide
    obtain rfl | rfl := hIs
    · exact ⟨hKnown, hFull, hValue, hComma⟩
    · refine ⟨hKnown, hFull, carried_valueIn q.1 hValue hTag, fun hList => ?_⟩
      dsimp only at hList ⊢
      rw [valueIn, if_neg]
      · exact hComma hList
      · rintro ⟨hTo, -⟩
        rw [hTo] at hList
        cases hList
  · exact ⟨show Hf.SERVER ≠ .generic by decide, rfl, hServer, fun hList => by cases hList⟩
  · exact ⟨show Hf.CONTENTLENGTH ≠ .generic by decide, rfl, carried_of_plain (by decide +kernel)
      (by decide +kernel) (by decide +kernel), fun hList => by cases hList⟩

theorem toHdr_add (o : Out) (p : Hf × Bytes) (rest : Bytes) :
    ((o.add p).hdrs.map fun h => (h.toHdr ((o.add p).buf ++ rest)).typed m) =
      (o.hdrs.map fun h => (h.toHdr ((o.add p).buf ++ rest)).typed m) ++ [p] := by
  have hBuf : (o.add p).buf ++ rest =
      (o.buf ++ ((hdrDb p.1).name ++ bytes ": ")) ++ (p.2 ++ ([13, 10] ++ rest)) := by
    simp only [Out.add, hdrText, List.append_assoc]
  have hPre : (o.buf ++ ((hdrDb p.1).name ++ bytes ": ")).length =
      o.buf.length + (hdrDb p.1).name.length + 2 := by
    rw [List.length_append, List.length_append, Nat.add_assoc]
    rfl
  have hValue : m.read ⟨.lit ((o.add p).buf ++ rest), o.buf.length + (hdrDb p.1).name.length + 2,
      o.buf.length + (hdrDb p.1).name.length + 2 + p.2.length -
        (o.buf.length + (hdrDb p.1).name.length + 2)⟩ = p.2 := by
    rw [read_slice m (Nat.le_add_right _ _) (by
      rw [hBuf, List.length_append, hPre, List.length_append]
      omega), slice, hBuf, ← hPre, List.drop_left, Nat.add_sub_cancel_left, List.take_left]
  generalize (o.add p).buf ++ rest = full at hValue ⊢
  rw [Out.add, List.map_append, List.map_singleton, List.append_right_inj, List.cons.injEq]
  exact ⟨Prod.ext rfl hValue, rfl⟩

theorem typed_addAll (o : Out) (ps : List (Hf × Bytes)) (rest : Bytes) :
    ((o.addAll ps).hdrs.map fun h => (h.toHdr ((o.addAll ps).buf ++ rest)).typed m) =
      (o.hdrs.map fun h => (h.toHdr ((o.addAll ps).buf ++ rest)).typed m) ++ ps := by
  induction ps generalizing o with
  | nil => exact (List.append_nil _).symm
  | cons p ps ih =>
    have hNext : o.addAll (p :: ps) = (o.add p).addAll ps := rfl
    have hHere := @toHdr_add m o p ((ps.map hdrText).flatMap (· ++ [13, 10]) ++ rest)
    rw [← List.append_assoc, ← buf_addAll] at hHere
    rw [hNext, ih, hHere, List.append_assoc, List.singleton_append]

theorem typed_response :
    (response m server reqp slp tag).typed m = hdrsOut m server reqp tag := by
  have hAll := @typed_addAll m (begun m reqp slp) (hdrsOut m server reqp tag) [13, 10]
  have hBuf : ((begun m reqp slp).addAll (hdrsOut m server reqp tag)).buf ++ [13, 10] =
      (partsOut m server reqp slp tag).join := buf_done
  rw [hBuf] at hAll
  rw [WireMsg.typed, response, List.map_map]
  exact hAll

/-! ## A request -/

/-- An OPTIONS request with two of its names in short. -/
def options : Bytes := bytes
  "OPTIONS sip:a SIP/2.0\r\nVia:x, y\r\nf:<sip:b>\r\nTo:<sip:c>\r\ni:1\r\nCSeq:1 OPTIONS\r\n\r\n"

/-- It is answered. -/
theorem options_answered : ∃ reqp rp, ∃ sp : SplitMsg, ∃ method ruri,
    splitMsg options = some sp ∧
    ctorFromwire FastParser.plainShift (fun _ => .zero) options = some reqp ∧
    reqp.sline = some (.req method ruri) ∧
    ctorFromreqTagged (fun _ => .zero) (bytes "s") reqp resOk (bytes "t") = some rp ∧
    rp.onwire.l ≤ 2 ^ 31 := by
  obtain ⟨sp, hSplit⟩ := Option.isSome_iff_exists.mp (by decide +kernel : (splitMsg options).isSome = true)
  obtain ⟨reqp, hWire, hTest⟩ := (Option.any_eq_true _ _).mp (by decide +kernel :
    (ctorFromwire FastParser.plainShift (fun _ => .zero) options).any (fun reqp =>
      decide (reqp.sline = some (.req .OPTIONS ⟨.lit options, 8, 5⟩)) &&
      (ctorFromreqTagged (fun _ => .zero) (bytes "s") reqp resOk (bytes "t")).any fun rp =>
        decide (rp.onwire.l ≤ 2 ^ 31)) = true)
  obtain ⟨hReq, hMade⟩ := Bool.and_eq_true_iff.mp hTest
  obtain ⟨rp, hMade, hSize⟩ := (Option.any_eq_true _ _).mp hMade
  exact ⟨reqp, rp, sp, _, _, hSplit, hWire, of_decide_eq_true hReq, hMade, of_decide_eq_true hSize⟩

/-! ## Whether a response is made -/

theorem length_copied_le : (copied tag first ps).length ≤ ps.length := by
  induction ps generalizing first with
  | nil => exact le_rfl
  | cons p ps ih =>
    rw [copied, List.length_cons]
    split
    · exact Nat.succ_le_succ ih
    · split
      · exact Nat.succ_le_succ ih
      · exact ih.trans (Nat.le_succ _)

theorem length_texts_le : ((ps.map hdrText).flatMap (· ++ [13, 10])).length ≤
    36 * ps.length + (ps.map fun p => p.2.length).sum := by
  induction ps with
  | nil => exact le_rfl
  | cons p ps ih =>
    have hName := FastParser.name_length_le p.1
    have hText : (hdrText p).length = (hdrDb p.1).name.length + (2 + p.2.length) := by
      rw [hdrText, List.length_append, List.length_append]
      rfl
    have hEnd : ([13, 10] : Bytes).length = 2 := rfl
    rw [List.map_cons, List.flatMap_cons, List.length_append, List.length_append, hEnd, hText,
      List.map_cons, List.sum_cons, List.length_cons]
    omega

theorem appendRawSize_eq : appendRawSize server =
    ((((initAppendHdrs server).map fun a => (a.type, a.value)).map hdrText).flatMap
      (· ++ [13, 10])).length + 2 := by
  have hFold : ∀ (as : List AppendHdr) (n : Nat), as.foldl (fun raw_len ahp =>
      raw_len + ((hdrDb ahp.type).name.length + (bytes ": ").length + ahp.value.length + 2)) n =
        (((as.map fun a => (a.type, a.value)).map hdrText).flatMap (· ++ [13, 10])).length + n := by
    intro as
    induction as with
    | nil => exact fun n => (Nat.zero_add n).symm
    | cons a as ih =>
      intro n
      rw [List.foldl_cons, ih, List.map_cons, List.map_cons, List.flatMap_cons, List.length_append,
        List.length_append, hdrText, List.length_append, List.length_append]
      change _ + (n + (_ + 2 + _ + 2)) = _ + (2 + _) + 2 + _ + n
      dsimp only
      omega
  exact hFold _ 2

/-- A response is not longer than its request but for the names in full, what is appended and its
start line. -/
theorem length_partsOut_le (hLen : b.length ≤ 2 ^ 31) (hSplit : splitMsg b = some sp)
    (hWire : ctorFromwire T m b = some reqp) {method : Method} {ruri : Str}
    (hReq : reqp.sline = some (.req method ruri)) :
    (partsOut m server reqp slp tag).join.length ≤ rawLen server reqp tag +
      36 * (copied tag copyfirst (reqp.typed m)).length + slp.reason_phrase.l + 14 := by
  have hCopied := @length_texts_le (copied tag copyfirst (reqp.typed m))
  have hSum := @sum_copied_le tag copyfirst (reqp.typed m)
  have hTyped := sum_typed_le hLen hSplit hWire
  have hVersion := (verified (verified_version hWire hReq)).1
  have hOnwire : reqp.onwire.l = b.length := congrArg Str.l (onwire_of_wire hWire)
  rw [if_pos (by decide)] at hSum
  rw [SplitMsg.join, partsOut, rawLen, hdrsOut, appendRawSize_eq, hOnwire]
  simp only [List.length_append, length_slineOut, hVersion, List.map_append, List.flatMap_append,
    List.length_cons, List.length_nil]
  omega

theorem length_hdrsOut : (hdrsOut m server reqp tag).length =
    (copied tag copyfirst (reqp.typed m)).length + (initAppendHdrs server).length := by
  rw [hdrsOut, List.length_append, List.length_map]

theorem length_initAppendHdrs_le : (initAppendHdrs server).length ≤ 2 := by
  rw [initAppendHdrs]
  split
  · exact le_rfl
  · exact Nat.le_succ 1

theorem values_appended (t : Hf) : values t ((initAppendHdrs server).map fun a => (a.type, a.value)) =
    if t = .SERVER ∧ server ≠ [] then [server] else if t = .CONTENTLENGTH then [bytes "0"] else [] := by
  have hSingle : ∀ (u : Hf) (v : Bytes), values t [(u, v)] = if t = u then [v] else [] := by
    intro u v
    split
    · rename_i hIs
      rw [hIs, values_cons_self, values_nil]
    · rename_i hNot
      rw [values_cons_ne (show u ≠ t from Ne.symm hNot), values_nil]
  have hLast := hSingle .CONTENTLENGTH (bytes "0")
  have hFirst := hSingle .SERVER server
  rw [initAppendHdrs, List.map_append, values_append]
  by_cases hServer : server = []
  · rw [hServer, if_neg (by simp), if_neg (by simp)]
    exact hLast
  · rw [if_pos fun hNil => hServer (List.eq_nil_of_length_eq_zero hNil)]
    change values t [(Hf.SERVER, server)] ++ values t [(Hf.CONTENTLENGTH, bytes "0")] = _
    rw [hFirst, hLast]
    by_cases hIs : t = .SERVER
    · obtain rfl := hIs
      simp [hServer]
    · simp [hIs]

/-- A response has the first From, Call-ID, To and CSeq value of its request, the tag put to that of
To, all its Via and Record-Route values in their order, and nothing else but what is appended. -/
theorem ctorFromreqTagged_values (hWire : ctorFromwire T m b = some reqp)
    (hMade : ctorFromreqTagged m server reqp slp tag = some rp) :
    (∀ t ∈ copyfirst, ∃ v vs, values t (reqp.typed m) = v :: vs ∧
      values t (rp.typed m) = [valueIn tag t v]) ∧
    (∀ t ∈ copyall, values t (rp.typed m) = values t (reqp.typed m)) ∧
    ∀ t, t ∉ copyfirst → t ∉ copyall → values t (rp.typed m) =
      if t = .SERVER ∧ server ≠ [] then [server] else if t = .CONTENTLENGTH then [bytes "0"] else [] := by
  obtain ⟨hNone, -, -, rfl⟩ := (ctorFromreqTagged_some (typed_canonical hWire)).mp hMade
  have hAll : ∀ t, values t ((response m server reqp slp tag).typed m) = (if t ∈ copyfirst then
      ((values t (reqp.typed m)).take 1).map (valueIn tag t)
      else if t ∈ copyall then values t (reqp.typed m) else []) ++
        values t ((initAppendHdrs server).map fun a => (a.type, a.value)) := by
    intro t
    rw [typed_response, hdrsOut, values_append, values_copied t (by decide)]
  refine ⟨fun t ht => ?_, fun t ht => ?_, fun t hFirst hAlso => ?_⟩
  · obtain ⟨v, vs, hValues⟩ := List.exists_cons_of_ne_nil (lacking_eq_nil.mp hNone t ht)
    have hNot : t ≠ .SERVER ∧ t ≠ .CONTENTLENGTH := by
      revert ht
      cases t <;> decide
    refine ⟨v, vs, hValues, ?_⟩
    rw [hAll, if_pos ht, hValues, values_appended, if_neg fun hBoth => hNot.1 hBoth.1, if_neg hNot.2]
    rfl
  · have hNot : t ∉ copyfirst ∧ t ≠ .SERVER ∧ t ≠ .CONTENTLENGTH := by
      revert ht
      cases t <;> decide
    rw [hAll, if_neg hNot.1, if_pos ht, values_appended, if_neg fun hBoth => hNot.2.1 hBoth.1,
      if_neg hNot.2.2, List.append_nil]
  · rw [hAll, if_neg hFirst, if_neg hAlso, List.nil_append, values_appended]

theorem ctorFromreqTagged_values_options : ∃ reqp rp,
    ctorFromwire FastParser.plainShift (fun _ => .zero) options = some reqp ∧
      ctorFromreqTagged (fun _ => .zero) (bytes "s") reqp resOk (bytes "t") = some rp ∧
        values .VIA (rp.typed fun _ => .zero) = values .VIA (reqp.typed fun _ => .zero) := by
  obtain ⟨reqp, rp, -, -, -, -, hWire, -, hMade, -⟩ := options_answered
  exact ⟨reqp, rp, hWire, hMade, (ctorFromreqTagged_values hWire hMade).2.1 .VIA (by decide)⟩

/-- The bytes of a response are read back as the message that was made of them. -/
theorem ctorFromreqTagged_reads (hLen : b.length ≤ 2 ^ 31) (hSplit : splitMsg b = some sp)
    (hWire : ctorFromwire T m b = some reqp) {method : Method} {ruri : Str}
    (hReq : reqp.sline = some (.req method ruri)) (hServer : Carried server) (hTag : Carried tag)
    (hReason : OneLine (m.read slp.reason_phrase))
    (hMade : ctorFromreqTagged m server reqp slp tag = some rp)
    (hSize : rp.onwire.l ≤ 2 ^ 31) :
    ∃ rp', ctorFromwire T m (m.read rp.onwire) = some rp' ∧ rp'.sline = some (.res slp.code) ∧
      m.read rp'.slineOnwire = m.read rp.slineOnwire ∧ rp'.typed m = rp.typed m ∧
        m.read rp'.body = [] := by
  obtain ⟨hNone, hRoom, -, rfl⟩ := (ctorFromreqTagged_some (typed_canonical hWire)).mp hMade
  have hVersion := verified_version hWire hReq
  have hRead : m.read (response m server reqp slp tag).onwire = (partsOut m server reqp slp tag).join :=
    Mem.read_lit m _
  obtain ⟨rp', hBack, hSline, hLine, hTyped, hBody⟩ := @ctorFromwire_thirty T m
    (hdrsOut m server reqp tag) (slineOut m reqp slp) [] (.res slp.code)
    (oneLine_slineOut hVersion hReason) (fun y hp hy => slineParse_slineOut hVersion hy) (by
      intro hNil
      have hCount := @length_hdrsOut m tag server reqp
      rw [hNil, initAppendHdrs, List.length_append] at hCount
      exact absurd hCount (Nat.succ_ne_zero _).symm) (writable_hdrsOut hLen hSplit hWire hServer hTag)
    (hRoom.trans (Nat.min_le_right _ _)) hSize
  rw [hRead]
  refine ⟨rp', hBack, hSline, ?_, hTyped.trans typed_response.symm, hBody⟩
  have hFirst := @read_begin m (slineOut m reqp slp) ([13, 10] ++
    (((hdrsOut m server reqp tag).map hdrText).flatMap (· ++ [13, 10]) ++ ([13, 10] ++ [])))
  rw [length_slineOut] at hFirst
  exact hLine.trans hFirst.symm

theorem ctorFromreqTagged_reads_options : ∃ reqp rp rp',
    ctorFromwire FastParser.plainShift (fun _ => .zero) options = some reqp ∧
      ctorFromreqTagged (fun _ => .zero) (bytes "s") reqp resOk (bytes "t") = some rp ∧
        ctorFromwire FastParser.plainShift (fun _ => .zero) (Mem.read (fun _ => .zero) rp.onwire) =
          some rp' ∧ rp'.sline = some (.res resOk.code) ∧
            rp'.typed (fun _ => .zero) = rp.typed fun _ => .zero := by
  obtain ⟨reqp, rp, sp, method, ruri, hSplit, hWire, hReq, hMade, hSize⟩ := options_answered
  have hServer : Carried (bytes "s") :=
    carried_of_plain (by decide +kernel) (by decide +kernel) (by decide +kernel)
  have hTag : Carried (bytes "t") :=
    carried_of_plain (by decide +kernel) (by decide +kernel) (by decide +kernel)
  have hReason : OneLine (Mem.read (fun _ => .zero) resOk.reason_phrase) := by
    rw [show resOk.reason_phrase = Str.lit (bytes "OK") from rfl, Mem.read_lit]
    exact oneLine_of_plain (by decide +kernel)
  obtain ⟨rp', hBack, hSline, -, hTyped, -⟩ := ctorFromreqTagged_reads (by decide +kernel) hSplit hWire
    hReq hServer hTag hReason hMade hSize
  exact ⟨reqp, rp, rp', hWire, hMade, hBack, hSline, hTyped⟩

end Res

end Microsippy
