import Mathlib.Data.List.DropRight
import Microsippy.FromWire
import Microsippy.HdrLookup

/-! # Splitting a message

The split of a buffer into its start line, its headers and its body at the CRLF pairs, and that it is
what `usipy_sip_msg_ctor_fromwire` finds where the headers end in an empty line.
-/

namespace Microsippy

set_option autoImplicit false

/-! ## The reference -/

/-- A part of a buffer: its offset and the offset of its end. -/
abbrev Span := Nat × Nat

def slice (b : Bytes) (s : Span) : Bytes := (b.drop s.1).take (s.2 - s.1)

/-- The lines from an offset up to an empty one, and what comes after it, given the offsets of the
CRLF pairs. -/
def headerLines : Nat → List Nat → Option (List Span × Nat)
  | _, [] => none
  | c, o :: os =>
    if o = c then some ([], c + 2)
    else (headerLines (o + 2) os).map fun r => ((c, o) :: r.1, r.2)

/-- A header begun and the lines after it, the continuation lines put to the headers before. -/
def foldLines (b : Bytes) (hdr : Span) : List Span → List Span
  | [] => [hdr]
  | l :: ls =>
    if Str.isWs (b.getD l.1 0) then foldLines b (hdr.1, l.2) ls else hdr :: foldLines b l ls

def trimLws (v : Bytes) : Bytes := (v.dropWhile Str.isLws).rdropWhile Str.isLws

/-- The name of a header, before its first colon. -/
def hdrName (hdr : Bytes) : Bytes := (hdr.takeWhile (· != ch ':')).rdropWhile Str.isWs

/-- What follows the first colon of a header. -/
def hdrRest (hdr : Bytes) : Bytes := (hdr.dropWhile (· != ch ':')).tail

/-- The entries of a header, one for each element of a list. -/
def hdrEntries (isList : Bytes → Bool) (hdr : Bytes) : List (Bytes × Bytes) :=
  (if isList (hdrName hdr) then (hdrRest hdr).splitOn (ch ',') else [hdrRest hdr]).map fun v =>
    (hdrName hdr, trimLws v)

/-- Whether a name is that of a header with a list of values. -/
def listName (name : Bytes) : Bool :=
  Hf.all.any fun h => (hdrDb h).csl_allowed && decide (CiEq name (hdrDb h).name)

/-- A message in parts. -/
structure SplitMsg where
  sline : Bytes
  /-- The headers with their continuation lines. -/
  hdrs : List Bytes
  body : Bytes
  deriving DecidableEq, Repr

/-- The parts of a buffer, none where no line is empty. -/
def splitMsg (b : Bytes) : Option SplitMsg :=
  match crlfFrom b 0 with
  | [] => none
  | o :: os =>
    (headerLines (o + 2) os).map fun (lines, e) => {
      sline := b.take o
      hdrs := (match lines with
        | [] => []
        | l :: ls => foldLines b l ls).map (slice b)
      body := b.drop e }

/-! ## Views as bytes -/

theorem dropWhile_eq_drop (p : UInt8 → Bool) (v : Bytes) :
    v.dropWhile p = v.drop (v.takeWhile p).length := by
  induction v with
  | nil => rfl
  | cons c cs ih =>
    rw [List.dropWhile_cons, List.takeWhile_cons]
    split
    · exact ih
    · rfl

theorem rdropWhile_eq_take (p : UInt8 → Bool) (v : Bytes) :
    v.rdropWhile p = v.take (v.length - (v.reverse.takeWhile p).length) := by
  rw [List.rdropWhile, dropWhile_eq_drop, List.drop_reverse, List.reverse_reverse]

namespace Str

theorem read_advanced (m : Mem) (s : Str) (p : UInt8 → Bool) :
    m.read { s with
      off := s.off + ((m.read s).takeWhile p).length
      l := s.l - ((m.read s).takeWhile p).length } = (m.read s).dropWhile p := by
  have hLe : ((m.read s).takeWhile p).length ≤ (m.read s).length :=
    (List.takeWhile_sublist _).length_le
  rw [Mem.length_read] at hLe
  rw [dropWhile_eq_drop, Mem.read_part m s (by omega), List.take_of_length_le]
  rw [List.length_drop, Mem.length_read]

theorem read_ltrmB (m : Mem) (s : Str) : m.read (s.ltrmB m) = (m.read s).dropWhile isLws :=
  read_advanced m s isLws

theorem read_trimmed (m : Mem) (s : Str) (p : UInt8 → Bool) :
    m.read { s with l := s.l - ((m.read s).reverse.takeWhile p).length } = (m.read s).rdropWhile p := by
  have hPart := Mem.read_part m s (k := 0) (l := s.l - ((m.read s).reverse.takeWhile p).length)
    (by omega)
  rw [Nat.add_zero, List.drop_zero] at hPart
  rw [hPart, rdropWhile_eq_take, Mem.length_read]

theorem read_ltrm (m : Mem) (s : Str) : m.read (s.ltrm m) = trimLws (m.read s) := by
  rw [ltrm, ltrmE, read_trimmed, read_ltrmB, trimLws]

theorem read_trmE (m : Mem) (s : Str) : m.read (s.trmE m) = (m.read s).rdropWhile isWs :=
  read_trimmed m s isWs

end Str

theorem hdrName_of_append {a z : Bytes} (h : ch ':' ∉ a) :
    hdrName (a ++ ch ':' :: z) = a.rdropWhile Str.isWs ∧ hdrRest (a ++ ch ':' :: z) = z := by
  have hAll : ∀ c ∈ a, (c != ch ':') = true := fun c hc => bne_iff_ne.mpr fun hIs => h (hIs ▸ hc)
  have hTake : (a ++ ch ':' :: z).takeWhile (· != ch ':') =
      a ++ (ch ':' :: z).takeWhile (· != ch ':') := List.takeWhile_append_of_pos hAll
  have hDrop : (a ++ ch ':' :: z).dropWhile (· != ch ':') =
      (ch ':' :: z).dropWhile (· != ch ':') := List.dropWhile_append_of_pos hAll
  rw [hdrName, hdrRest, hTake, hDrop]
  simp

/-- The entries of a list. -/
theorem preparseList_read {m : Mem} {ehp fuel shp : Nat} {csp : Str} {vs : List Str}
    (h : preparseList m ehp fuel shp csp = some vs) (hFuel : csp.l ≤ fuel) :
    vs.map m.read = ((m.read csp).splitOn (ch ',')).map trimLws := by
  induction fuel generalizing shp csp vs with
  | zero =>
    obtain rfl := Option.some.inj h
    have hNil : m.read csp = [] := by
      rw [← List.length_eq_zero_iff, Mem.length_read]
      omega
    rw [hNil]
    simp [Str.read_ltrm, hNil]
  | succ fuel ih =>
    rw [preparseList] at h
    split at h
    · obtain rfl := Option.some.inj h
      have hNil : m.read csp = [] := by
        rw [← List.length_eq_zero_iff, Mem.length_read]
        assumption
      rw [hNil]
      simp [Str.read_ltrm, hNil]
    · split at h
      · rename_i hNone
        obtain rfl := Option.some.inj h
        rw [List.splitOn_eq_singleton (Str.split_eq_none_iff.mp hNone)]
        simp [Str.read_ltrm]
      · rename_i value rest hSplit
        obtain ⟨hRead, hNot, hLt⟩ := Str.read_split hSplit
        split at h
        · cases h
        · obtain ⟨vs', hRest, rfl⟩ := Option.map_eq_some_iff.mp h
          have hNext := ih hRest (by omega)
          rw [hRead, List.splitOn_append_cons_self_of_not_mem hNot, List.map_cons, List.map_cons,
            hNext, Str.read_ltrm]

theorem map_mapIdx_eq {α β γ : Type} {f : Nat → α → β} {g : β → γ} {k : α → γ}
    (h : ∀ i a, g (f i a) = k a) (xs : List α) : (xs.mapIdx f).map g = xs.map k := by
  apply List.ext_getElem?
  intro j
  simp [Function.comp_def, h]

/-- The entries of a header. -/
theorem hdrPreparse_read {T : Shift} {m : Mem} {shp ehp : Nat} {full : Str} {hdrs : List WireHdr}
    (h : hdrPreparse T m shp ehp full = some hdrs) :
    hdrs.map (fun h => (m.read h.name, m.read h.value)) =
      hdrEntries (fun name => (hdrDb (hdrDbLookup T name)).csl_allowed) (m.read full) := by
  simp only [hdrPreparse, Option.bind_eq_bind, Option.bind_eq_some_iff] at h
  obtain ⟨⟨name, value⟩, hSplit, values, hValues, hHdrs⟩ := h
  obtain rfl := Option.some.inj hHdrs
  obtain ⟨hRead, hNot, -⟩ := Str.read_split hSplit
  obtain ⟨hName, hRest⟩ := hdrName_of_append (z := m.read value) hNot
  rw [hRead, hdrEntries, hName, hRest]
  simp only [Str.read_trmE] at hValues
  rw [map_mapIdx_eq (k := fun v => ((m.read name).rdropWhile Str.isWs, m.read v))
    (fun _ _ => by rw [Str.read_trmE])]
  have hMap : values.map m.read = (if (hdrDb (hdrDbLookup T ((m.read name).rdropWhile
      Str.isWs))).csl_allowed then (m.read value).splitOn (ch ',') else [m.read value]).map
        trimLws := by
    split at hValues
    · rw [if_pos ‹_›]
      exact preparseList_read hValues le_rfl
    · rw [if_neg ‹_›]
      obtain rfl := Option.some.inj hValues
      simp [Str.read_ltrm]
  have hPairs := congrArg (List.map fun v => ((m.read name).rdropWhile Str.isWs, v)) hMap
  simpa only [List.map_map, Function.comp_def] using hPairs

/-! ## The loop -/

/-- The entries of a message. -/
def WireMsg.entries (m : Mem) (rp : WireMsg) : List (Bytes × Bytes) :=
  rp.hdrs.map fun h => (m.read h.name, m.read h.value)

/-- The entries the header database makes of a header. -/
def dbEntries (T : Shift) (hdr : Bytes) : List (Bytes × Bytes) :=
  hdrEntries (fun name => (hdrDb (hdrDbLookup T name)).csl_allowed) hdr

theorem read_slice (m : Mem) {b : Bytes} {s e : Nat} (hs : s ≤ e) (he : e ≤ b.length) :
    m.read ⟨.lit b, s, e - s⟩ = slice b (s, e) := by
  have hPart := Mem.read_part m (Str.lit b) (k := s) (l := e - s)
    (show s + (e - s) ≤ b.length by omega)
  rw [Mem.read_lit] at hPart
  rw [slice, ← hPart, Str.lit, Nat.zero_add]

/-- The loop is at an offset, with some CRLF pairs still to come. -/
structure At (b : Bytes) (c : Nat) (os : List Nat) (s : FromWire) : Prop where
  cp : s.cp = ⟨.lit b, c, b.length - c⟩
  scan : ∃ r sc, crlfFrom b r = os ∧ MsgIterator.Window b (Arena.ofBytes b) r sc s.mit
  ahead : ∀ o ∈ os, c ≤ o

theorem mem_crlfFrom {b : Bytes} {r o : Nat} (h : o ∈ crlfFrom b r) : r ≤ o ∧ crlfAt b o = true := by
  obtain ⟨hRange, hAt⟩ := List.mem_filter.mp h
  exact ⟨List.left_le_of_mem_range' hRange, hAt⟩

theorem not_crlfAt_succ {b : Bytes} {o : Nat} (h : crlfAt b o = true) : crlfAt b (o + 1) = false := by
  simp only [crlfAt, decide_eq_true_eq] at h
  simp only [crlfAt, decide_eq_false_iff_not, h.2]
  exact fun hBoth => absurd hBoth.1 (by decide)

/-- The next line end. -/
theorem At.next {b : Bytes} {c o : Nat} {os : List Nat} {s : FromWire} (hLen : b.length ≤ 2 ^ 31)
    (hAt : At b c (o :: os) s) :
    ∃ mit, s.mit.breakDown = some (Int.ofNat o, mit) ∧ crlfAt b o = true ∧ c ≤ o ∧
      ∀ s' : FromWire, s'.mit = mit → s'.cp = ⟨.lit b, o + 2, b.length - (o + 2)⟩ →
        At b (o + 2) os s' := by
  obtain ⟨r, sc, hList, hWin⟩ := hAt.scan
  rcases MsgIterator.breakDown_spec WordSize.lp64.good hLen hWin with
    ⟨o', sc', mit, hFound, hStep, hNext⟩ | ⟨mit, hNone, -, -⟩
  · rw [hList] at hFound
    obtain ⟨rfl, hRest⟩ := List.cons.inj hFound
    have hHere : crlfAt b o = true := (mem_crlfFrom (hList ▸ List.mem_cons_self)).2
    refine ⟨mit, hStep, hHere, hAt.ahead o List.mem_cons_self, fun s' hMit hCp => ?_⟩
    refine ⟨hCp, ⟨o + 1, sc', hRest.symm, hMit ▸ hNext⟩, fun o'' hMem => ?_⟩
    obtain ⟨hLow, hCrlf⟩ := mem_crlfFrom (hRest ▸ hMem)
    have hNe : o'' ≠ o + 1 := by
      rintro rfl
      rw [not_crlfAt_succ hHere] at hCrlf
      cases hCrlf
    omega
  · rw [hList] at hNone
    cases hNone

/-- A turn of the loop. -/
theorem loop_line {T : Shift} {m : Mem} {b : Bytes} {c o : Nat} {os : List Nat} {s s' : FromWire}
    {fuel : Nat} (hAt : At b c (o :: os) s) (hc : c < b.length)
    {mit : MsgIterator WordSize.lp64.sizeof} (hStep : s.mit.breakDown = some (Int.ofNat o, mit))
    (hLoop : FromWire.loop T m fuel s = some s') :
    ∃ fuel' more s₁, FromWire.line T m o { s with mit } = some (more, s₁) ∧
      if more then FromWire.loop T m fuel' s₁ = some s' else s₁ = s' := by
  cases fuel with
  | zero => cases hLoop
  | succ fuel =>
    have hSome : ¬ s.cp.l = 0 := by
      rw [hAt.cp]
      simp only
      omega
    have hPos : ¬ Int.ofNat o < 0 := by simp
    rw [FromWire.loop, if_neg hSome, hStep] at hLoop
    simp only [Option.bind_eq_bind, Option.bind_some, if_neg hPos] at hLoop
    obtain ⟨⟨more, s₁⟩, hLine, hMore⟩ := Option.bind_eq_some_iff.mp hLoop
    refine ⟨fuel, more, s₁, hLine, ?_⟩
    simp only at hMore
    split at hMore
    · rwa [if_pos ‹_›]
    · rw [if_neg ‹_›]
      exact Option.some.inj hMore

/-- The start line and the body are as they were. -/
structure SameEnds (rp rp' : WireMsg) : Prop where
  sline : rp'.slineOnwire = rp.slineOnwire
  body : rp'.body = rp.body

theorem SameEnds.trans {rp₁ rp₂ rp₃ : WireMsg} (h : SameEnds rp₁ rp₂) (h' : SameEnds rp₂ rp₃) :
    SameEnds rp₁ rp₃ :=
  ⟨h'.sline.trans h.sline, h'.body.trans h.body⟩

theorem commit_some {T : Shift} {m : Mem} {full : Str} {s s' : FromWire}
    (h : FromWire.commit T m full s = some s') :
    s'.cp = s.cp ∧ s'.mit = s.mit ∧ SameEnds s.rp s'.rp ∧
      s'.rp.entries m = s.rp.entries m ++ dbEntries T (m.read full) := by
  simp only [FromWire.commit, Option.bind_eq_bind, Option.bind_eq_some_iff] at h
  obtain ⟨hdrs, hHdrs, h⟩ := h
  have hRead := hdrPreparse_read hHdrs
  split at h
  · obtain rfl := Option.some.inj h
    refine ⟨rfl, rfl, ⟨rfl, rfl⟩, ?_⟩
    rw [WireMsg.entries, List.map_append, hRead]
    rfl
  · obtain ⟨⟨u, heap⟩, -, h⟩ := Option.bind_eq_some_iff.mp h
    obtain rfl := Option.some.inj h
    refine ⟨rfl, rfl, ⟨rfl, rfl⟩, ?_⟩
    rw [WireMsg.entries, List.map_append, hRead]
    rfl

theorem beginHdr_some {chp : Nat} {s s' : FromWire} (h : s.beginHdr chp = some s') :
    s'.cp = s.cp ∧ s'.mit = s.mit ∧ SameEnds s.rp s'.rp ∧
      s'.rp.hdrs = s.rp.hdrs ∧ s'.shp = some { s.cp with l := chp - s.cp.off } := by
  simp only [FromWire.beginHdr, Option.bind_eq_bind, Option.bind_eq_some_iff] at h
  obtain ⟨rp, hRp, h⟩ := h
  obtain rfl := Option.some.inj h
  split at hRp
  · obtain ⟨_, -, hRp⟩ := Option.bind_eq_some_iff.mp hRp
    obtain rfl := Option.some.inj hRp
    exact ⟨rfl, rfl, ⟨rfl, rfl⟩, rfl, rfl⟩
  · obtain ⟨_, -, hRp⟩ := Option.bind_eq_some_iff.mp hRp
    obtain rfl := Option.some.inj hRp
    exact ⟨rfl, rfl, ⟨rfl, rfl⟩, rfl, rfl⟩

theorem head_read (m : Mem) {b : Bytes} {c : Nat} (hc : c < b.length) :
    (m.read ⟨.lit b, c, b.length - c⟩).headD 0 = b.getD c 0 := by
  rw [read_slice m (Nat.le_of_lt hc) le_rfl, slice, List.headD_eq_head?_getD, List.head?_take,
    if_neg (by simp only; omega), List.head?_drop, List.getD_eq_getElem?_getD]

/-- At the end of the headers, or past the beginning of the next one. -/
theorem endOrBegin_some {b : Bytes} {c o : Nat} {s s' : FromWire} {more : Bool}
    (hCp : s.cp = ⟨.lit b, c, b.length - c⟩) (hc : c ≤ o)
    (h : s.endOrBegin o = some (more, s')) :
    SameEnds s.rp s'.rp ∧ s'.rp.hdrs = s.rp.hdrs ∧ s'.mit = s.mit ∧
      s'.cp = ⟨.lit b, o + 2, b.length - (o + 2)⟩ ∧
      (more = false ∧ o = c ∨ more = true ∧ o ≠ c ∧ s'.shp = some ⟨.lit b, c, o - c⟩) := by
  rw [FromWire.endOrBegin, hCp] at h
  split at h
  · rename_i hEnd
    simp only at hEnd
    obtain ⟨rfl, rfl⟩ := Prod.mk.inj (Option.some.inj h)
    subst hEnd
    exact ⟨⟨rfl, rfl⟩, rfl, rfl, by simp [Nat.sub_sub], Or.inl ⟨rfl, rfl⟩⟩
  · rename_i hSome
    simp only at hSome
    simp only [Option.bind_eq_bind, Option.bind_eq_some_iff] at h
    obtain ⟨s₁, hBegin, h⟩ := h
    obtain ⟨rfl, rfl⟩ := Prod.mk.inj (Option.some.inj h)
    obtain ⟨hCp₁, hMit, hLine, hHdrs, hShp⟩ := beginHdr_some hBegin
    refine ⟨hLine, hHdrs, hMit, ?_, Or.inr ⟨rfl, hSome, ?_⟩⟩
    · simp only [FromWire.nextLine, hCp₁, hCp, Str.mk.injEq, true_and]
      omega
    · rw [FromWire.nextLine, hShp, hCp]

theorem foldLines_ne_nil (b : Bytes) (hdr : Span) (lines : List Span) :
    foldLines b hdr lines ≠ [] := by
  induction lines generalizing hdr with
  | nil => exact List.cons_ne_nil _ _
  | cons l ls ih =>
    rw [foldLines]
    split
    · exact ih _
    · exact List.cons_ne_nil _ _

/-- The loop over the header lines. -/
theorem loop_hdrs {T : Shift} {m : Mem} {b : Bytes} (hLen : b.length ≤ 2 ^ 31) {os : List Nat}
    {c fuel e : Nat} {s s' : FromWire} {d : Span} {lines : List Span} (hAt : At b c os s)
    (hShp : s.shp = some ⟨.lit b, d.1, d.2 - d.1⟩) (hHdr : d.1 ≤ d.2) (hEnd : d.2 ≤ c)
    (hBlock : headerLines c os = some (lines, e)) (hLoop : FromWire.loop T m fuel s = some s') :
    s'.cp = ⟨.lit b, e, b.length - e⟩ ∧ SameEnds s.rp s'.rp ∧
      s'.rp.entries m = s.rp.entries m ++
        ((foldLines b d lines).map (slice b)).flatMap (dbEntries T) := by
  induction os generalizing c fuel s d lines with
  | nil => cases hBlock
  | cons o os ih =>
    obtain ⟨mit, hStep, hCrlf, hc, hNext⟩ := hAt.next hLen
    have hIn := crlfAt_lt hCrlf
    obtain ⟨fuel', more, s₁, hLine, hMore⟩ := loop_line hAt (by omega) hStep hLoop
    have hHead := head_read m (show c < b.length by omega)
    rw [FromWire.line] at hLine
    simp only [hShp, hAt.cp, hHead] at hLine
    rw [headerLines] at hBlock
    by_cases hWs : Str.isWs (b.getD c 0) = true
    · -- a continuation line
      have hNe : o ≠ c := by
        rintro rfl
        simp only [crlfAt, decide_eq_true_eq] at hCrlf
        rw [hCrlf.1] at hWs
        exact absurd hWs (by decide)
      rw [if_neg hNe, Option.map_eq_some_iff] at hBlock
      obtain ⟨⟨rest, e'⟩, hRest, hIs⟩ := hBlock
      obtain ⟨rfl, rfl⟩ := Prod.mk.inj hIs
      rw [if_pos hWs] at hLine
      obtain ⟨rfl, hS₁⟩ := Prod.mk.inj (Option.some.inj hLine)
      have hHere : At b (o + 2) os s₁ := by
        refine hNext s₁ (by rw [← hS₁]; rfl) ?_
        rw [← hS₁]
        simp only [FromWire.nextLine, Str.mk.injEq, true_and]
        omega
      obtain ⟨hCp', hSline', hEntries'⟩ := ih (d := (d.1, o)) hHere (by rw [← hS₁]; rfl)
        (by simp only; omega) (by simp only; omega) hRest hMore
      rw [foldLines, if_pos hWs]
      rw [← hS₁] at hSline' hEntries'
      exact ⟨hCp', hSline', hEntries'⟩
    · -- the header begun before is complete
      rw [if_neg hWs] at hLine
      simp only [Option.bind_eq_bind, Option.bind_eq_some_iff] at hLine
      obtain ⟨s₂, hCommit, hLine⟩ := hLine
      obtain ⟨hCp₂, hMit₂, hSline₂, hEntries₂⟩ := commit_some hCommit
      rw [read_slice m hHdr (by omega)] at hEntries₂
      obtain ⟨hSline₁, hHdrs₁, hMit₁, hCp₁, hWhich⟩ := endOrBegin_some (by exact hCp₂) hc hLine
      have hEntries₁ : s₁.rp.entries m = s.rp.entries m ++ dbEntries T (slice b d) := by
        rw [WireMsg.entries, hHdrs₁]
        exact hEntries₂
      rcases hWhich with ⟨rfl, rfl⟩ | ⟨rfl, hNe, hShp₁⟩
      · rw [if_pos rfl] at hBlock
        obtain ⟨rfl, rfl⟩ := Prod.mk.inj (Option.some.inj hBlock)
        obtain rfl : s₁ = s' := hMore
        refine ⟨hCp₁, hSline₂.trans hSline₁, ?_⟩
        rw [hEntries₁, foldLines]
        simp
      · rw [if_neg hNe, Option.map_eq_some_iff] at hBlock
        obtain ⟨⟨rest, e'⟩, hRest, hIs⟩ := hBlock
        obtain ⟨rfl, rfl⟩ := Prod.mk.inj hIs
        have hHere : At b (o + 2) os s₁ := hNext s₁ (hMit₁.trans hMit₂) hCp₁
        obtain ⟨hCp', hSline', hEntries'⟩ := ih (d := (c, o)) hHere hShp₁ hc (by simp only; omega)
          hRest hMore
        refine ⟨hCp', (hSline₂.trans hSline₁).trans hSline', ?_⟩
        rw [foldLines, if_neg hWs, hEntries', hEntries₁, List.map_cons, List.flatMap_cons,
          List.append_assoc]

/-- A start line that parses is not empty. -/
theorem slineParse_l_ne {m : Mem} {onwire : Str} {hp : Heap} {r : Sline × Heap}
    (h : Heap.did (slineParse m onwire) hp = some r) : onwire.l ≠ 0 := by
  intro hEmpty
  have hNil : m.read onwire = [] := by rw [← List.length_eq_zero_iff, Mem.length_read, hEmpty]
  have hNone : onwire.split m (ch ' ') = none := Str.split_eq_none (by simp [hNil])
  rw [Heap.did, slineParse, hNone] at h
  cases h

/-- The first turn. -/
theorem loop_sline {T : Shift} {m : Mem} {b : Bytes} {o : Nat} {s s' : FromWire} {more : Bool}
    (hCp : s.cp = ⟨.lit b, 0, b.length⟩) (hShp : s.shp = none) (hNone : s.rp.slineOnwire.l = 0)
    (h : FromWire.line T m o s = some (more, s')) :
    o ≠ 0 ∧ more = true ∧ (s'.rp.slineOnwire = ⟨.lit b, 0, o⟩ ∧ s'.rp.body = s.rp.body) ∧
      s'.rp.hdrs = s.rp.hdrs ∧
      s'.mit = s.mit ∧ s'.cp = ⟨.lit b, o + 2, b.length - (o + 2)⟩ ∧ s'.shp = none := by
  rw [FromWire.line] at h
  simp only [hShp, hNone, if_true, hCp, Option.bind_eq_bind, Option.bind_eq_some_iff] at h
  obtain ⟨⟨sline, heap⟩, hDid, h⟩ := h
  obtain ⟨rfl, rfl⟩ := Prod.mk.inj (Option.some.inj h)
  exact ⟨slineParse_l_ne hDid, rfl, ⟨rfl, rfl⟩, rfl, rfl, rfl, rfl⟩

/-- A buffer taken from the wire that has an empty line is split as in the reference, with the
header database to tell the lists. -/
theorem ctorFromwire_split {T : Shift} {m : Mem} {b : Bytes} {rp : WireMsg} {sp : SplitMsg}
    (hLen : b.length ≤ 2 ^ 31) (hSplit : splitMsg b = some sp) (hWire : ctorFromwire T m b = some rp) :
    sp.hdrs ≠ [] ∧ m.read rp.slineOnwire = sp.sline ∧ m.read rp.body = sp.body ∧
      rp.entries m = sp.hdrs.flatMap (dbEntries T) := by
  simp only [ctorFromwire, Option.bind_eq_bind, Option.bind_eq_some_iff] at hWire
  obtain ⟨s', hLoop, hEnd⟩ := hWire
  have hStart : At b 0 (crlfFrom b 0) (.start b) :=
    ⟨rfl, ⟨0, 0, rfl, MsgIterator.window_fresh⟩, fun o _ => Nat.zero_le o⟩
  rw [splitMsg] at hSplit
  split at hSplit
  · cases hSplit
  · rename_i o os hList
    obtain ⟨⟨lines, e⟩, hBlock, rfl⟩ := Option.map_eq_some_iff.mp hSplit
    rw [hList] at hStart
    obtain ⟨mit, hStep, hCrlf, hc, hNext⟩ := hStart.next hLen
    have hIn := crlfAt_lt hCrlf
    obtain ⟨fuel₁, more₁, s₁, hLine, hMore⟩ := loop_line hStart (by omega) hStep hLoop
    obtain ⟨hNe, rfl, ⟨hSline₁, hBody₁⟩, hHdrs₁, hMit₁, hCp₁, hShp₁⟩ :=
      loop_sline rfl (by rfl) (by rfl) hLine
    rw [if_pos rfl] at hMore
    have hAt₁ : At b (o + 2) os s₁ := hNext s₁ hMit₁ hCp₁
    cases os with
    | nil => cases hBlock
    | cons o₁ os =>
      obtain ⟨mit₁, hStep₁, hCrlf₁, hc₁, hNext₁⟩ := hAt₁.next hLen
      have hIn₁ := crlfAt_lt hCrlf₁
      obtain ⟨fuel₂, more₂, s₂, hLine₂, hMore₂⟩ := loop_line hAt₁ (by omega) hStep₁ hMore
      have hSet : ¬ s₁.rp.slineOnwire.l = 0 := by rwa [hSline₁]
      rw [FromWire.line] at hLine₂
      simp only [hShp₁, if_neg hSet] at hLine₂
      obtain ⟨hSline₂, hHdrs₂, hMit₂, hCp₂, hWhich⟩ := endOrBegin_some (by exact hCp₁) hc₁ hLine₂
      rcases hWhich with ⟨rfl, -⟩ | ⟨rfl, hNe₁, hShp₂⟩
      · obtain rfl : s₂ = s' := hMore₂
        have hNoHdrs : s₂.rp.hdrs = [] := hHdrs₂.trans hHdrs₁
        rw [if_pos (by rw [hNoHdrs]; rfl)] at hEnd
        cases hEnd
      · rw [if_pos rfl] at hMore₂
        rw [headerLines, if_neg hNe₁, Option.map_eq_some_iff] at hBlock
        obtain ⟨⟨rest, e'⟩, hRest, hIs⟩ := hBlock
        obtain ⟨rfl, rfl⟩ := Prod.mk.inj hIs
        have hAt₂ : At b (o₁ + 2) os s₂ := hNext₁ s₂ hMit₂ hCp₂
        obtain ⟨hCp', hSline', hEntries'⟩ := loop_hdrs hLen (d := (o + 2, o₁)) hAt₂ hShp₂ hc₁
          (by simp only; omega) hRest hMore₂
        have hNone : s₂.rp.entries m = [] := by
          rw [WireMsg.entries, hHdrs₂, hHdrs₁]
          rfl
        rw [hNone, List.nil_append] at hEntries'
        split at hEnd
        · cases hEnd
        · have hLineRead : m.read s'.rp.slineOnwire = b.take o := by
            have hSlice := read_slice m (Nat.zero_le o) (show o ≤ b.length by omega)
            rw [hSline'.sline, hSline₂.sline, hSline₁]
            exact hSlice.trans (by rw [slice, List.drop_zero, Nat.sub_zero])
          refine ⟨fun hNil => foldLines_ne_nil b _ rest (List.map_eq_nil_iff.mp hNil), ?_⟩
          split at hEnd
          · rename_i hBody
            obtain rfl := Option.some.inj hEnd
            refine ⟨hLineRead, ?_, hEntries'⟩
            rw [hCp'] at hBody ⊢
            simp only at hBody
            rw [read_slice m (by omega) le_rfl, slice, ← List.length_drop, List.take_length]
          · rename_i hBody
            obtain rfl := Option.some.inj hEnd
            refine ⟨hLineRead, ?_, hEntries'⟩
            rw [hCp'] at hBody
            simp only at hBody
            have hNull : s'.rp.body = Str.null := hSline'.body.trans (hSline₂.body.trans hBody₁)
            rw [hNull, Mem.read_null]
            exact (List.drop_eq_nil_of_le (by omega)).symm

/-! ## Against the reference -/

/-- The message is the reference split of the buffer: none of its headers is missing, in the body or
made up. -/
def SplitsAs (m : Mem) (b : Bytes) (rp : WireMsg) : Prop :=
  ∃ sp, splitMsg b = some sp ∧ sp.hdrs ≠ [] ∧ m.read rp.slineOnwire = sp.sline ∧
    rp.entries m = sp.hdrs.flatMap (hdrEntries listName) ∧ m.read rp.body = sp.body

/-- A header with a comma that `usipy_hdr_db_lookup` takes for another one, whose value is a list. -/
def Misread (T : Shift) (hdr : Bytes) : Prop :=
  listName (hdrName hdr) = false ∧
    (hdrDb (hdrDbLookup T (hdrName hdr))).csl_allowed = true ∧ ch ',' ∈ hdrRest hdr

theorem csl_of_listName {T : Shift} {name : Bytes} (h : listName name = true) :
    (hdrDb (hdrDbLookup T name)).csl_allowed = true := by
  obtain ⟨hf, -, hBoth⟩ := List.any_eq_true.mp h
  rw [Bool.and_eq_true, decide_eq_true_eq] at hBoth
  rw [hdrDbLookup_name T hBoth.2]
  exact hBoth.1

theorem hdrEntries_congr {isList isList' : Bytes → Bool} {hdr : Bytes}
    (h : isList (hdrName hdr) = isList' (hdrName hdr)) :
    hdrEntries isList hdr = hdrEntries isList' hdr := by
  rw [hdrEntries, hdrEntries]
  simp only [h]

theorem hdrEntries_single (isList : Bytes → Bool) {hdr : Bytes} (h : ch ',' ∉ hdrRest hdr) :
    hdrEntries isList hdr = [(hdrName hdr, trimLws (hdrRest hdr))] := by
  rw [hdrEntries, List.splitOn_eq_singleton h, ite_self]
  rfl

theorem dbEntries_eq {T : Shift} {hdr : Bytes} (h : ¬ Misread T hdr) :
    dbEntries T hdr = hdrEntries listName hdr := by
  by_cases hComma : ch ',' ∈ hdrRest hdr
  · apply hdrEntries_congr
    cases hList : listName (hdrName hdr) with
    | true => exact csl_of_listName hList
    | false => exact Bool.eq_false_iff.mpr fun hCsl => h ⟨hList, hCsl, hComma⟩
  · rw [dbEntries, hdrEntries_single _ hComma, hdrEntries_single _ hComma]

theorem length_lt_of_misread {T : Shift} {hdr : Bytes} (h : Misread T hdr) :
    (hdrEntries listName hdr).length < (dbEntries T hdr).length := by
  obtain ⟨hList, hCsl, hComma⟩ := h
  obtain ⟨a, z, hRest⟩ := List.append_of_mem hComma
  have hTwo : 2 ≤ ((hdrRest hdr).splitOn (ch ',')).length := by
    rw [hRest, List.splitOn_append_cons_self, List.length_append]
    have ha := List.length_pos_iff.mpr (List.splitOn_ne_nil (ch ',') a)
    have hz := List.length_pos_iff.mpr (List.splitOn_ne_nil (ch ',') z)
    omega
  simp only [dbEntries, hdrEntries, hList, hCsl, List.length_map]
  exact hTwo

/-- Misread headers make more entries, and no header makes fewer. -/
theorem length_entries_lt {T : Shift} {hdrs : List Bytes} (h : ∃ hdr ∈ hdrs, Misread T hdr) :
    (hdrs.flatMap (hdrEntries listName)).length < (hdrs.flatMap (dbEntries T)).length := by
  have hLe (hdr : Bytes) : (hdrEntries listName hdr).length ≤ (dbEntries T hdr).length := by
    by_cases hMis : Misread T hdr
    · exact Nat.le_of_lt (length_lt_of_misread hMis)
    · rw [dbEntries_eq hMis]
  have hLeAll (hdrs : List Bytes) : (hdrs.flatMap (hdrEntries listName)).length ≤
      (hdrs.flatMap (dbEntries T)).length := by
    induction hdrs with
    | nil => exact le_rfl
    | cons hdr hdrs ih =>
      simp only [List.flatMap_cons, List.length_append]
      exact Nat.add_le_add (hLe hdr) ih
  induction hdrs with
  | nil => obtain ⟨_, hMem, -⟩ := h; cases hMem
  | cons hdr hdrs ih =>
    obtain ⟨other, hMem, hMis⟩ := h
    simp only [List.flatMap_cons, List.length_append]
    cases hMem with
    | head => exact Nat.add_lt_add_of_lt_of_le (length_lt_of_misread hMis) (hLeAll hdrs)
    | tail _ hMem => exact Nat.add_lt_add_of_le_of_lt (hLe hdr) (ih ⟨other, hMem, hMis⟩)

/-- A buffer taken from the wire is split as in the reference just when its headers end in an empty
line and none of them is misread. -/
theorem ctorFromwire_splits_iff {T : Shift} {m : Mem} {b : Bytes} {rp : WireMsg}
    (hLen : b.length ≤ 2 ^ 31) (hWire : ctorFromwire T m b = some rp) :
    SplitsAs m b rp ↔ ∃ sp, splitMsg b = some sp ∧ ∀ hdr ∈ sp.hdrs, ¬ Misread T hdr := by
  constructor
  · rintro ⟨sp, hSplit, -, -, hEntries, -⟩
    refine ⟨sp, hSplit, fun hdr hMem hMis => ?_⟩
    obtain ⟨-, -, -, hDb⟩ := ctorFromwire_split hLen hSplit hWire
    have hLt := length_entries_lt ⟨hdr, hMem, hMis⟩
    rw [← hDb, hEntries] at hLt
    exact Nat.lt_irrefl _ hLt
  · rintro ⟨sp, hSplit, hRead⟩
    obtain ⟨hSome, hSline, hBody, hDb⟩ := ctorFromwire_split hLen hSplit hWire
    refine ⟨sp, hSplit, hSome, hSline, hDb.trans ?_, hBody⟩
    exact List.flatMap_congr fun hdr hMem => dbEntries_eq (hRead hdr hMem)

/-- A BYE with two header lines and an end. -/
def shortBye (ending : String) : Bytes :=
  bytes "BYE sip:a SIP/2.0\r\nVia:x, y\r\nSubject: a,\r\n b\r\n" ++ bytes ending

theorem ctorFromwire_splits_bye : ∃ rp,
    ctorFromwire FastParser.plainShift (fun _ => .zero) (shortBye "\r\nbody") = some rp ∧
      SplitsAs (fun _ => .zero) (shortBye "\r\nbody") rp := by
  obtain ⟨rp, hWire⟩ := Option.isSome_iff_exists.mp (by decide +kernel :
    (ctorFromwire FastParser.plainShift (fun _ => .zero) (shortBye "\r\nbody")).isSome = true)
  obtain ⟨sp, hSplit, hTest⟩ := (Option.any_eq_true _ _).mp (by decide +kernel :
    (splitMsg (shortBye "\r\nbody")).any (fun sp => sp.hdrs.all fun hdr =>
      !(listName (hdrName hdr) == false &&
        (hdrDb (hdrDbLookup FastParser.plainShift (hdrName hdr))).csl_allowed &&
        (hdrRest hdr).contains (ch ','))) = true)
  refine ⟨rp, hWire, (ctorFromwire_splits_iff (by decide +kernel) hWire).mpr ⟨sp, hSplit, ?_⟩⟩
  rintro hdr hMem ⟨hList, hCsl, hComma⟩
  have hNot := List.all_eq_true.mp hTest hdr hMem
  rw [hList, hCsl, List.contains_iff_mem.mpr hComma] at hNot
  cases hNot

/-- Without the empty line the last header is left out. -/
theorem not_splitsAs_unfinished : ∃ rp,
    ctorFromwire FastParser.plainShift (fun _ => .zero) (shortBye "") = some rp ∧
      ¬ SplitsAs (fun _ => .zero) (shortBye "") rp := by
  obtain ⟨rp, hWire⟩ := Option.isSome_iff_exists.mp (by decide +kernel :
    (ctorFromwire FastParser.plainShift (fun _ => .zero) (shortBye "")).isSome = true)
  refine ⟨rp, hWire, ?_⟩
  rintro ⟨sp, hSplit, -⟩
  have hNone : splitMsg (shortBye "") = none := by decide +kernel
  rw [hNone] at hSplit
  cases hSplit

end Microsippy
