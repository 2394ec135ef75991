import Microsippy.Accepts
import Microsippy.UriText

/-! # Accepted messages as bytes

What `usipy_sip_sline_parse` takes and how much of the heap, and with it the buffers
`usipy_sip_msg_ctor_fromwire` takes, told from their bytes alone.
-/

namespace Microsippy

set_option autoImplicit false

variable {m : Mem} {b : Bytes}

/-! ## What a heap operation leaves -/

section

variable {α β : Type} {hp : Heap}

theorem did_bind (x : HeapM α) (f : α → HeapM β) :
    Heap.did (x >>= f) hp = (Heap.did x hp).bind fun out => Heap.did (f out.1) out.2 := by
  simp only [Heap.did, Op.run_bind]
  cases x.run hp with
  | none => rfl
  | some out =>
    obtain ⟨r, hp'⟩ := out
    cases r <;> rfl

theorem did_orElse (o : Option α) : Heap.did (Op.orElse o ()) hp = o.map fun a => (a, hp) := by
  cases o <;> rfl

theorem did_require (p : Prop) [Decidable p] :
    Heap.did (Op.require p ()) hp = if p then some ((), hp) else none := by
  rw [Heap.did, Op.run_require]
  by_cases h : p
  · rw [if_pos h, if_pos h]
  · rw [if_neg h, if_neg h]

end

/-! ## Room that is taken -/

section

variable {size : Nat → Nat}

theorem extendPairs_alen (hSize : Sized size) {start n : Nat} {ps : List TvPair} {u : Unit}
    {hp hp' : Heap} (hRun : (extendPairs size start n ps).run hp = some (.ok u, hp'))
    (hTop : hp.alen = start + size n) : hp'.alen = start + size (n + ps.length) := by
  induction ps generalizing n hp with
  | nil =>
    obtain ⟨-, rfl⟩ := Op.pure_ok.mp hRun
    exact hTop
  | cons p ps ih =>
    obtain ⟨_, hp₁, hExtend, hRest⟩ := Op.bind_ok.mp hRun
    have hLe : size n ≤ size (n + 1) := hSize.mono (Nat.le_succ n)
    have hNext : hp₁.alen = start + size (n + 1) := by
      simp only [Heap.aextend, Op.run_bind, Op.run_get, Op.andThen_ok, Op.run_require] at hExtend
      split at hExtend
      · obtain ⟨-, rfl⟩ := Prod.mk.inj (Option.some.inj hExtend)
        rw [hSize.aligned]
        dsimp only
        omega
      · cases (Prod.mk.inj (Option.some.inj hExtend)).1
    have hAll := ih hRest hNext
    rw [List.length_cons]
    rwa [Nat.add_assoc, Nat.add_comm 1] at hAll

/-- A parser takes its structure and its parameters. -/
theorem paramsParser_alen {α : Type} {parts : Mem → Str → Option α} {params : α → List TvPair}
    (hSize : Sized size) {m : Mem} {hvp : Str} {a : α} {hp hp' : Heap}
    (hRun : (paramsParser size parts params m hvp).run hp = some (.ok a, hp')) :
    hp'.alen = Heap.alignedSize hp.alen + size (params a).length := by
  obtain ⟨start, hp₁, hAlloc, hRun⟩ := Op.bind_ok.mp hRun
  obtain ⟨rfl, -, rfl⟩ := Heap.reserve_ok.mp hAlloc
  obtain ⟨_, _, hGet, hRun⟩ := Op.bind_ok.mp hRun
  obtain ⟨rfl, rfl⟩ := Op.get_ok.mp hGet
  obtain ⟨a', hp₂, hElse, hRun⟩ := Op.bind_ok.mp (Op.cleanup_ok.mp hRun)
  obtain ⟨-, rfl⟩ := Op.orElse_ok.mp hElse
  obtain ⟨u, hp₃, hExtend, hRun⟩ := Op.bind_ok.mp hRun
  obtain ⟨rfl, rfl⟩ := Op.pure_ok.mp hRun
  have hAll := extendPairs_alen hSize hExtend (by
    dsimp only
    rw [hSize.aligned])
  rwa [Nat.zero_add] at hAll

end

/-- What a URI takes of a heap. -/
def UriText.room (t : UriText) : Nat := Uri.sizeof (t.parameters.length + t.headers.length)

theorem room_texts (m : Mem) (up : Uri) :
    (up.texts m).room = Uri.sizeof (up.parameters ++ up.headers).length := by
  rw [UriText.room, List.length_append, Uri.texts, Params.texts, Params.texts, List.length_map,
    List.length_map]

theorem start_inRoom (b : Bytes) : (FromWire.start b).rp.heap.InRoom (msgHeapSize b.length) := by
  refine ⟨?_, Nat.zero_le _⟩
  change msgHeapSize b.length / 8 * 8 = _
  rw [msgHeapSize]
  omega

/-- A URI is parsed where its text is and there is room for it, which is then taken. -/
theorem did_uriParse (m : Mem) (b : Bytes) (s : Str) :
    (Heap.did (Uri.parse m s) (FromWire.start b).rp.heap).map (fun out => out.2.alen) =
      ((Uri.parseText (m.read s)).map UriText.room).filter fun n => decide (n ≤ msgHeapSize b.length) := by
  have hStart := start_inRoom b
  have hZero : Heap.alignedSize 0 = 0 := by decide
  rw [← Uri.read_parseParts]
  cases hParts : Uri.parseParts m s with
  | none =>
    cases hDid : Heap.did (Uri.parse m s) (FromWire.start b).rp.heap with
    | none => rfl
    | some out =>
      have hRun := did_some.mp hDid
      rw [Uri.parse_eq] at hRun
      have hSome : Uri.parseParts m s = some out.1 := (paramsParser_ok hRun).2
      rw [hParts] at hSome
      cases hSome
  | some up =>
    have hTaken : ∀ {up' : Uri} {hp : Heap},
        Heap.did (Uri.parse m s) (FromWire.start b).rp.heap = some (up', hp) →
          hp.alen = (up.texts m).room ∧ hp.InRoom (msgHeapSize b.length) := by
      intro up' hp hDid
      have hRun := did_some.mp hDid
      have hIn := uriParse_inRoom hRun hStart
      rw [Uri.parse_eq] at hRun
      have hSome : Uri.parseParts m s = some up' := (paramsParser_ok hRun).2
      obtain rfl := Option.some.inj (hParts.symm.trans hSome)
      refine ⟨?_, hIn⟩
      rw [paramsParser_alen Uri.sized hRun, room_texts]
      change Heap.alignedSize 0 + _ = _
      rw [hZero, Nat.zero_add]
    rw [Option.map_some, Option.map_some]
    by_cases hRoom : (up.texts m).room ≤ msgHeapSize b.length
    · have hFits : (FromWire.start b).rp.heap.Room (Uri.sizeof (up.parameters ++ up.headers).length) := by
        refine ⟨Nat.zero_le _, ?_⟩
        rw [hStart.1, Uri.sized.aligned, ← room_texts m]
        change Heap.alignedSize 0 + _ ≤ _
        rwa [hZero, Nat.zero_add]
      obtain ⟨hp, hRun⟩ := @paramsParser_run Uri.sizeof _ Uri.parseParts
        (fun up => up.parameters ++ up.headers) Uri.sized m s up (FromWire.start b).rp.heap hParts hFits
      rw [← Uri.parse_eq] at hRun
      rw [did_some.mpr hRun, Option.filter_some, if_pos (decide_eq_true hRoom), Option.map_some]
      exact congrArg some (hTaken (did_some.mpr hRun)).1
    · rw [Option.filter_some, if_neg (by rwa [decide_eq_true_eq])]
      cases hDid : Heap.did (Uri.parse m s) (FromWire.start b).rp.heap with
      | none => rfl
      | some out =>
        obtain ⟨hAlen, -, hIn⟩ := hTaken hDid
        rw [hAlen] at hIn
        exact absurd hIn hRoom

/-! ## Start lines -/

/-- A status code in digits. -/
def IsCode (x : Bytes) : Prop := (∀ c ∈ x, IsDigit c) ∧ 100 ≤ decimal x ∧ decimal x ≤ 999

instance (x : Bytes) : Decidable (IsCode x) := inferInstanceAs (Decidable (_ ∧ _))

/-- What a start line takes of the heap, none where it is no start line. -/
def slineRoom (x : Bytes) : Option Nat := do
  let (x1, x2) ← cut (ch ' ') x
  let (x3, x4) ← cut (ch ' ') x2
  if x1 = [] ∨ x3 = [] then none
  else if verifySipVersion x1 then if IsCode x3 then some 0 else none
  else if verifySipVersion x4 then (Uri.parseText x3).map UriText.room
  else none

theorem slineRoom_aligned {x : Bytes} {n : Nat} (h : slineRoom x = some n) : Heap.alignedSize n = n := by
  simp only [slineRoom, Option.bind_eq_bind, Option.bind_eq_some_iff] at h
  obtain ⟨⟨x1, x2⟩, -, ⟨x3, x4⟩, -, h⟩ := h
  dsimp only at h
  split at h
  · cases h
  · split at h
    · split at h
      · obtain rfl := Option.some.inj h
        decide
      · cases h
    · split at h
      · obtain ⟨t, -, rfl⟩ := Option.map_eq_some_iff.mp h
        exact Uri.sized.aligned _
      · cases h

theorem read_eq_nil_iff (m : Mem) (s : Str) : m.read s = [] ↔ s.l = 0 := by
  rw [← List.length_eq_zero_iff, Mem.length_read]

/-- What is parsed of a start line. -/
theorem did_slineParse_eq (m : Mem) (x : Str) (hp : Heap) : Heap.did (slineParse m x) hp =
    (x.split m (ch ' ')).bind fun p => if p.1.l ≠ 0 ∧ p.2.l ≠ 0 then
      (p.2.split m (ch ' ')).bind fun q => if q.1.l ≠ 0 then
        if verifySipVersion (m.read p.1) then
          (q.1.atouiRange m 100 999).bind fun code =>
            if h : 100 ≤ code.toNat ∧ code.toNat ≤ 999 then some (.res ⟨code.toNat, h⟩, hp) else none
        else if q.2.l ≠ 0 ∧ verifySipVersion (m.read q.2) then
          (Heap.did (Uri.parse m q.1) hp).map fun out =>
            (.req (methodDbLookup (m.read p.1)) q.1, out.2)
        else none
      else none
    else none := by
  rw [slineParse, did_bind, did_orElse, Option.bind_map]
  refine Option.bind_congr fun p _ => ?_
  obtain ⟨s1, s2⟩ := p
  simp only [Function.comp_apply, did_bind, did_require]
  split
  · rw [Option.bind_some, did_orElse, Option.bind_map]
    refine Option.bind_congr fun q _ => ?_
    obtain ⟨s3, s4⟩ := q
    simp only [Function.comp_apply]
    split
    · rw [Option.bind_some]
      split
      · rw [did_bind, did_orElse, Option.bind_map]
        refine Option.bind_congr fun code _ => ?_
        simp only [Function.comp_apply]
        split
        · rfl
        · rfl
      · split
        · rw [did_bind]
          exact (Option.map_eq_bind ..).symm
        · rfl
    · rfl
  · rfl

theorem code_map (m : Mem) (b : Bytes) (s : Str) :
    ((s.atouiRange m 100 999).bind fun code =>
      if h : 100 ≤ code.toNat ∧ code.toNat ≤ 999 then
        some (Sline.res ⟨code.toNat, h⟩, (FromWire.start b).rp.heap)
      else none).map (fun out => out.2.alen) =
      (if IsCode (m.read s) then some 0 else none).filter fun n => decide (n ≤ msgHeapSize b.length) := by
  have hRead := @Str.atouiRange_iff m s 100 999
  by_cases hCode : IsCode (m.read s)
  · obtain ⟨hDigits, hLow, hHigh⟩ := hCode
    have hVal : (UInt32.ofNat (decimal (m.read s))).toNat = decimal (m.read s) := by
      rw [UInt32.toNat_ofNat']
      omega
    have hSome := (@hRead (UInt32.ofNat (decimal (m.read s))) (by decide)).mpr ⟨hDigits, hVal, by
      rw [UInt32.le_iff_toNat_le, hVal]
      exact hLow, by
      rw [UInt32.le_iff_toNat_le, hVal]
      exact hHigh⟩
    have hRange : 100 ≤ (UInt32.ofNat (decimal (m.read s))).toNat ∧
        (UInt32.ofNat (decimal (m.read s))).toNat ≤ 999 := by
      rw [hVal]
      exact ⟨hLow, hHigh⟩
    rw [hSome, Option.bind_some, dif_pos hRange, if_pos ⟨hDigits, hLow, hHigh⟩]
    rfl
  · rw [if_neg hCode]
    cases hCase : s.atouiRange m 100 999 with
    | none => rfl
    | some v =>
      obtain ⟨hDigits, hVal, hLow, hHigh⟩ := (hRead (by decide)).mp hCase
      rw [UInt32.le_iff_toNat_le, hVal] at hLow hHigh
      exact absurd ⟨hDigits, hLow, hHigh⟩ hCode

/-- A start line is parsed where its bytes are one and there is room, which is then taken. -/
theorem did_slineParse (m : Mem) (b : Bytes) (x : Str) :
    (Heap.did (slineParse m x) (FromWire.start b).rp.heap).map (fun out => out.2.alen) =
      (slineRoom (m.read x)).filter fun n => decide (n ≤ msgHeapSize b.length) := by
  rw [did_slineParse_eq, slineRoom, ← Str.read_split_cut]
  cases x.split m (ch ' ') with
  | none => rfl
  | some p =>
    obtain ⟨s1, s2⟩ := p
    simp only [Option.bind_some, Option.map_some, Option.bind_eq_bind, readPair, ← Str.read_split_cut]
    by_cases hSome2 : s2.l = 0
    · have hNone : s2.split m (ch ' ') = none := by
        apply Str.split_eq_none
        rw [(read_eq_nil_iff m s2).mpr hSome2]
        exact List.not_mem_nil
      rw [if_neg fun h => h.2 hSome2, hNone]
      rfl
    · cases s2.split m (ch ' ') with
      | none =>
        simp only [Option.bind_none, ite_self]
        rfl
      | some q =>
        obtain ⟨s3, s4⟩ := q
        simp only [Option.bind_some, Option.map_some, readPair, read_eq_nil_iff]
        by_cases hSome : s1.l = 0 ∨ s3.l = 0
        · rw [if_pos hSome]
          obtain h1 | h3 := hSome
          · rw [if_neg fun h => h.1 h1]
            rfl
          · rw [if_neg (not_not.mpr h3), ite_self]
            rfl
        · rw [if_neg hSome]
          obtain ⟨hSome1, hSome3⟩ := not_or.mp hSome
          rw [if_pos ⟨hSome1, hSome2⟩, if_pos hSome3]
          split
          · -- a response
            exact code_map m b s3
          · have hVersion : (s4.l ≠ 0 ∧ verifySipVersion (m.read s4) = true) ↔
                verifySipVersion (m.read s4) = true := by
              refine and_iff_right_of_imp fun h hNone => ?_
              rw [(read_eq_nil_iff m s4).mpr hNone] at h
              cases h
            simp only [hVersion]
            split
            · rw [Option.map_map, ← did_uriParse m b s3]
              rfl
            · rfl

/-! ## Messages -/

theorem splitMsg_sline {sp : SplitMsg} (h : splitMsg b = some sp) : sp.sline = b.take sp.sline.length := by
  rw [splitMsg] at h
  split at h
  · cases h
  · obtain ⟨_, -, rfl⟩ := Option.map_eq_some_iff.mp h
    exact List.prefix_iff_eq_take.mp (List.take_prefix _ _)

/-- A buffer whose headers end in an empty line is taken exactly where its first line is a start line,
there are headers with a colon each, and the room behind its copy holds what the start line takes and the
table of the headers, with one more entry where the last header is a list. -/
theorem ctorFromwire_isSome_iff {T : Shift} {sp : SplitMsg} (hLen : b.length ≤ 2 ^ 31)
    (hSplit : splitMsg b = some sp) : (ctorFromwire T m b).isSome = true ↔
      ∃ n, slineRoom sp.sline = some n ∧ sp.hdrs ≠ [] ∧ (∀ hdr ∈ sp.hdrs, ch ':' ∈ hdr) ∧
        n + sizeofHdr * ((sp.hdrs.map (entryCount T)).sum + spareLast T sp.hdrs) ≤
          msgHeapSize b.length := by
  obtain ⟨hNeeds, hTakes⟩ := @ctorFromwire_takes T m b sp hLen hSplit
  have hRead : m.read ⟨.lit b, 0, sp.sline.length⟩ = sp.sline := by
    have hTake := splitMsg_sline hSplit
    have hSlice := @read_slice m b 0 sp.sline.length (Nat.zero_le _) (by
      rw [hTake]
      exact List.length_take_le' _ _)
    rw [Nat.sub_zero] at hSlice
    rw [hSlice, slice, List.drop_zero, Nat.sub_zero, ← hTake]
  have hDid := did_slineParse m b ⟨.lit b, 0, sp.sline.length⟩
  rw [hRead] at hDid
  rw [Option.isSome_iff_exists]
  constructor
  · rintro ⟨rp, hWire⟩
    obtain ⟨sline, hp, -, hAccepted⟩ := hNeeds rp hWire
    rw [hAccepted.sline, Option.map_some] at hDid
    obtain ⟨hRoom, -⟩ := Option.filter_eq_some_iff.mp hDid.symm
    have hFits := hAccepted.room
    rw [slineRoom_aligned hRoom] at hFits
    exact ⟨hp.alen, hRoom, hAccepted.some, hAccepted.colon, hFits⟩
  · rintro ⟨n, hRoom, hSome, hColon, hFits⟩
    rw [hRoom, Option.filter_some, if_pos (decide_eq_true (by omega)), Option.map_eq_some_iff] at hDid
    obtain ⟨⟨sline, hp⟩, hParse, rfl⟩ := hDid
    obtain ⟨rp, hWire, -⟩ := hTakes sline hp ⟨hParse, hSome, hColon, by
      rw [slineRoom_aligned hRoom]
      exact hFits⟩
    exact ⟨rp, hWire⟩

/-- A list of two at the end of a message is taken. -/
theorem ctorFromwire_isSome_iff_list : ∃ sp, splitMsg (bytes "BYE sip:a SIP/2.0\r\nVia: x, y\r\n\r\n") = some sp ∧
    ((ctorFromwire FastParser.plainShift (fun _ => .zero)
        (bytes "BYE sip:a SIP/2.0\r\nVia: x, y\r\n\r\n")).isSome = true ↔
      ∃ n, slineRoom sp.sline = some n ∧ sp.hdrs ≠ [] ∧ (∀ hdr ∈ sp.hdrs, ch ':' ∈ hdr) ∧
        n + sizeofHdr * ((sp.hdrs.map (entryCount FastParser.plainShift)).sum +
          spareLast FastParser.plainShift sp.hdrs) ≤
            msgHeapSize (bytes "BYE sip:a SIP/2.0\r\nVia: x, y\r\n\r\n").length) := by
  obtain ⟨sp, hSplit⟩ := Option.isSome_iff_exists.mp (by decide +kernel :
    (splitMsg (bytes "BYE sip:a SIP/2.0\r\nVia: x, y\r\n\r\n")).isSome = true)
  exact ⟨sp, hSplit, ctorFromwire_isSome_iff (by decide +kernel) hSplit⟩

end Microsippy
