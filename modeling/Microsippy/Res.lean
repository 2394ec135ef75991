import Microsippy.Written
import Microsippy.Tm.Uas

/-! # Responses made from a request

`usipy_sip_res.c`: the response that repeats the headers of a request, and the storage it is given.
-/

namespace Microsippy

set_option autoImplicit false

namespace Res

/-- `scode2str` -/
def scode2str (scode : Nat) : Bytes :=
  [UInt8.ofNat (48 + scode / 100), UInt8.ofNat (48 + scode % 100 / 10), UInt8.ofNat (48 + scode % 10),
    ch ' ']

/-- `res_tmpl.copyfirst` -/
def copyfirst : List Hf := [.FROM, .CALLID, .TO, .CSEQ]

/-- `res_tmpl.copyall` -/
def copyall : List Hf := [.VIA, .RECORDROUTE]

/-- `struct append_hdr` -/
structure AppendHdr where
  type : Hf
  value : Bytes

/-- `usipy_sip_res_init_append_hdrs`, by what `get_server` answers. -/
def initAppendHdrs (server : Bytes) : List AppendHdr :=
  (if server.length ≠ 0 then [⟨.SERVER, server⟩] else []) ++ [⟨.CONTENTLENGTH, bytes "0"⟩]

/-! ## Sizes -/

/-- `usipy_sip_res_to_tag_extra`, without a tag where it is empty. -/
def toTagExtra (tag : Bytes) : Nat := if tag.length ≠ 0 then (bytes ";tag=").length + tag.length else 0

/-- `usipy_sip_res_append_raw_size` -/
def appendRawSize (server : Bytes) : Nat :=
  (initAppendHdrs server).foldl (fun raw_len ahp =>
    raw_len + ((hdrDb ahp.type).name.length + (bytes ": ").length + ahp.value.length + 2)) 2

/-- `usipy_sip_res_hdr_count` -/
def hdrCount (reqp : WireMsg) : Nat := min (reqp.hdrs.length + 2) 30

/-- `raw_len` of `usipy_sip_res_alloc_size_build` -/
def rawLen (server : Bytes) (reqp : WireMsg) (tag : Bytes) : Nat :=
  reqp.onwire.l + appendRawSize server + toTagExtra tag

/-- `usipy_sip_res_alloc_size_build` but for the `struct usipy_msg`. -/
def allocSizeBuild (server : Bytes) (reqp : WireMsg) (tag : Bytes) : Nat :=
  let raw_len := rawLen server reqp tag
  let hdr_space := sizeofHdr * hdrCount reqp
  Heap.alignedSize raw_len + Heap.alignedSize hdr_space + msgExtraHeapSize raw_len

/-! ## Building -/

/-- A header as it is built: what it is of, and where its name and its value are in the buffer. -/
structure OutHdr where
  hf_type : Hf
  full : Span
  name : Span
  value : Span

/-- The buffer up to `off`, and the header table. -/
structure Out where
  buf : Bytes := []
  hdrs : List OutHdr := []

def Out.put (b : Bytes) (o : Out) : Out := { o with buf := o.buf ++ b }

/-- `USIPY_APPEND_MEM_OR_RETURN` into `len` bytes. -/
def appendMem (len : Nat) (b : Bytes) (o : Out) : Option Out :=
  if o.buf.length + b.length > len then none else some (o.put b)

/-- `usipy_sip_res_append_hdr`, `ohp` put into the table. -/
def appendHdr (len : Nat) (hfp : Hf) (value extra_prefix extra : Bytes) (o : Out) : Option Out := do
  let full := o.buf.length
  let o ← appendMem len (hdrDb hfp).name o
  let name := (full, o.buf.length)
  let o ← appendMem len (bytes ": ") o
  let start := o.buf.length
  let o ← appendMem len value o
  let o ← (if extra_prefix.length ≠ 0 then appendMem len extra_prefix o else some o)
  let o ← (if extra.length ≠ 0 then appendMem len extra o else some o)
  let stop := o.buf.length
  let o ← appendMem len [13, 10] o
  return { o with hdrs := o.hdrs ++ [⟨hfp, (full, stop), name, (start, stop)⟩] }

/-- `usipy_sip_res_append_next_hdr` with room for `hdr_cap` headers. -/
def appendNextHdr (len hdr_cap : Nat) (hfp : Hf) (value extra_prefix extra : Bytes) (o : Out) :
    Option Out :=
  if o.hdrs.length ≥ hdr_cap then none else appendHdr len hfp value extra_prefix extra o

/-- The loop of `usipy_sip_res_build_fromreq_tagged_sz` over the headers of the request: what is left
of `copyfirst`. -/
def copyHdrs (m : Mem) (len hdr_cap : Nat) (tag : Bytes) :
    List Hf → List WireHdr → Out → Option (List Hf × Out)
  | first, [], o => some (first, o)
  | first, shp :: hdrs, o =>
    let cantype := (hdrDb shp.hf_type).cantype
    let value := m.read shp.value
    if cantype ∈ first then do
      let extra_prefix := if cantype = .TO ∧ tag.length ≠ 0 then bytes ";tag=" else []
      let extra := if cantype = .TO then tag else []
      let o ← appendNextHdr len hdr_cap shp.hf_type value extra_prefix extra o
      copyHdrs m len hdr_cap tag (first.filter (· ≠ cantype)) hdrs o
    else if cantype ∈ copyall then do
      let o ← appendNextHdr len hdr_cap shp.hf_type value [] [] o
      copyHdrs m len hdr_cap tag first hdrs o
    else copyHdrs m len hdr_cap tag first hdrs o

/-- The loop over the headers of `usipy_sip_res_init_append_hdrs`. -/
def appendHdrs (len hdr_cap : Nat) : List AppendHdr → Out → Option Out
  | [], o => some o
  | ahp :: ahdrs, o => do
    let o ← appendNextHdr len hdr_cap ahp.type ahp.value [] [] o
    appendHdrs len hdr_cap ahdrs o

/-- The start line. `scode2str` is not kept from writing past the end of the buffer. -/
def appendSline (len : Nat) (version reason_phrase : Bytes) (scode : Nat) (o : Out) : Option Out := do
  let o ← appendMem len version o
  let o ← appendMem len (bytes " ") o
  let o := o.put (scode2str scode)
  let o ← appendMem len reason_phrase o
  appendMem len [13, 10] o

/-- `version` of the request line -/
def version (m : Mem) (reqp : WireMsg) : Bytes :=
  ((reqp.slineOnwire.split3 m (ch ' ')).map fun s => m.read s.2.2).getD []

/-- `usipy_sip_res_build_fromreq_tagged_sz` -/
def buildFromreq (m : Mem) (server : Bytes) (reqp : WireMsg) (slp : Status) (tag : Bytes)
    (hdr_cap len : Nat) : Option Out := do
  let o ← appendSline len (version m reqp) (m.read slp.reason_phrase) slp.code.1 {}
  let (first, o) ← copyHdrs m len hdr_cap tag copyfirst reqp.hdrs o
  if first ≠ [] then none
  else
    let o ← appendHdrs len hdr_cap (initAppendHdrs server) o
    appendMem len [13, 10] o

/-- A header of the message. -/
def OutHdr.toHdr (buf : Bytes) (h : OutHdr) : WireHdr where
  full := ⟨.lit buf, h.full.1, h.full.2 - h.full.1⟩
  name := ⟨.lit buf, h.name.1, h.name.2 - h.name.1⟩
  value := ⟨.lit buf, h.value.1, h.value.2 - h.value.1⟩
  onwire_hf_type := h.hf_type
  hf_type := h.hf_type

/-- `usipy_sip_res_init_fromreq`, in `heap_size` bytes of storage. -/
def initFromreq (m : Mem) (heap_size : Nat) (server : Bytes) (reqp : WireMsg) (slp : Status)
    (tag : Bytes) : Option WireMsg := do
  let hp := Heap.init none .zero heap_size 0
  if hp.tsize = 0 then none
  else
    let o ← buildFromreq m server reqp slp tag (hdrCount reqp) hp.tsize
    let (_, hp) ← Heap.did (Heap.reserve (Heap.alignedSize o.buf.length) true) hp
    let (hdrsAt, heap) ← Heap.did (Heap.alloc (sizeofHdr * o.hdrs.length)) hp
    let version := version m reqp
    return { onwire := Str.lit o.buf
             slineOnwire := ⟨.lit o.buf, 0, version.length + 1 + 4 + slp.reason_phrase.l⟩
             sline := some (.res slp.code)
             hdrs := o.hdrs.map (OutHdr.toHdr o.buf)
             hdrsAt
             heap }

/-- `usipy_sip_res_ctor_fromreq_tagged` where `malloc` succeeds, with an empty tag for none. -/
def ctorFromreqTagged (m : Mem) (server : Bytes) (reqp : WireMsg) (slp : Status) (tag : Bytes) :
    Option WireMsg :=
  initFromreq m (allocSizeBuild server reqp tag) server reqp slp tag

/-! ## What is built -/

variable {m : Mem} {len cap : Nat} {tag server : Bytes} {o o' : Out} {t : Hf}

/-- A header with its line end put to the buffer. -/
def Out.add (o : Out) (p : Hf × Bytes) : Out where
  buf := o.buf ++ (hdrText p ++ [13, 10])
  hdrs :=
    let full := o.buf.length
    let start := full + (hdrDb p.1).name.length + 2
    o.hdrs ++ [⟨p.1, (full, start + p.2.length), (full, full + (hdrDb p.1).name.length),
      (start, start + p.2.length)⟩]

def Out.addAll (o : Out) (ps : List (Hf × Bytes)) : Out := ps.foldl Out.add o

/-- Within the buffer and the header table. -/
def Out.Fits (len cap : Nat) (o : Out) : Prop := o.buf.length ≤ len ∧ o.hdrs.length ≤ cap

@[simp] theorem hdrs_put (b : Bytes) (o : Out) : (o.put b).hdrs = o.hdrs := rfl

theorem length_put (b : Bytes) (o : Out) : (o.put b).buf.length = o.buf.length + b.length :=
  List.length_append

theorem length_add (o : Out) (p : Hf × Bytes) : (o.add p).buf.length =
    o.buf.length + (hdrDb p.1).name.length + 2 + p.2.length + 2 ∧
      (o.add p).hdrs.length = o.hdrs.length + 1 := by
  constructor
  · rw [Out.add, hdrText]
    simp only [List.length_append]
    change o.buf.length + ((hdrDb p.1).name.length + (2 + p.2.length) + 2) = _
    omega
  · rw [Out.add, List.length_append]
    rfl

theorem appendMem_some {b : Bytes} :
    appendMem len b o = some o' ↔ (o.put b).buf.length ≤ len ∧ o.put b = o' := by
  rw [appendMem, length_put]
  split_ifs with hFull
  · constructor
    · intro h
      cases h
    · rintro ⟨hFits, -⟩
      omega
  · rw [Option.some.injEq]
    exact ⟨fun h => ⟨Nat.not_lt.mp hFull, h⟩, And.right⟩

theorem appendSome_some {b : Bytes} (hFits : o.buf.length ≤ len) :
    (if b.length ≠ 0 then appendMem len b o else some o) = some o' ↔
      (o.put b).buf.length ≤ len ∧ o.put b = o' := by
  split_ifs with hSome
  · exact appendMem_some
  · rw [List.eq_nil_of_length_eq_zero (not_not.mp hSome), Out.put, List.append_nil, Option.some.injEq]
    exact ⟨fun h => ⟨hFits, h⟩, And.right⟩

theorem appendHdr_some {value extra_prefix extra : Bytes} :
    appendHdr len t value extra_prefix extra o = some o' ↔
      (o.add (t, value ++ ( extra_prefix ++ extra))).buf.length ≤ len ∧
        o.add (t, value ++ ( extra_prefix ++ extra)) = o' := by
  have hSep : (bytes ": ").length = 2 := rfl
  have hEnd : ([13, 10] : Bytes).length = 2 := rfl
  rw [(length_add _ _).1, List.length_append, List.length_append]
  dsimp only
  constructor
  · intro h
    simp only [appendHdr, Option.bind_eq_bind, Option.bind_eq_some_iff, appendMem_some] at h
    obtain ⟨_, ⟨-, rfl⟩, _, ⟨-, rfl⟩, _, ⟨hValue, rfl⟩, _, hPrefix, _, hExtra, _, ⟨hLast, rfl⟩, h⟩ := h
    obtain ⟨hFits, rfl⟩ := (appendSome_some hValue).mp hPrefix
    obtain ⟨-, rfl⟩ := (appendSome_some hFits).mp hExtra
    obtain rfl := Option.some.inj h
    simp only [length_put, hSep, hEnd] at hLast
    refine ⟨by omega, ?_⟩
    simp only [Out.add, Out.put, hdrText, List.append_assoc, List.length_append, hSep, Nat.add_assoc]
  · rintro ⟨hFits, rfl⟩
    simp only [appendHdr, Option.bind_eq_bind, Option.bind_eq_some_iff, appendMem_some]
    refine ⟨_, ⟨?_, rfl⟩, _, ⟨?_, rfl⟩, _, ⟨?_, rfl⟩, _, (appendSome_some ?_).mpr ⟨?_, rfl⟩,
      _, (appendSome_some ?_).mpr ⟨?_, rfl⟩, _, ⟨?_, rfl⟩, ?_⟩
    rotate_right
    · simp only [Out.add, Out.put, hdrText, List.append_assoc, List.length_append, hSep, Nat.add_assoc]
      rfl
    all_goals
      simp only [length_put, hSep, hEnd]
      omega

theorem appendNextHdr_some {value extra_prefix extra : Bytes} :
    appendNextHdr len cap t value extra_prefix extra o = some o' ↔
      (o.add (t, value ++ ( extra_prefix ++ extra))).Fits len cap ∧
        o.add (t, value ++ ( extra_prefix ++ extra)) = o' := by
  rw [appendNextHdr, Out.Fits, (length_add _ _).2]
  split_ifs with hFull
  · constructor
    · intro h
      cases h
    · rintro ⟨⟨-, hRoom⟩, -⟩
      omega
  · rw [appendHdr_some]
    exact ⟨fun h => ⟨⟨h.1, Nat.not_le.mp hFull⟩, h.2⟩, fun h => ⟨h.1.1, h.2⟩⟩

/-! ## The headers of a response -/

/-- The value a header has in a response. -/
def valueIn (tag : Bytes) (t : Hf) (value : Bytes) : Bytes :=
  if t = .TO ∧ tag ≠ [] then value ++ (bytes ";tag=" ++ tag) else value

/-- The headers a response repeats, given the types of which it has none yet. -/
def copied (tag : Bytes) : List Hf → List (Hf × Bytes) → List (Hf × Bytes)
  | _, [] => []
  | first, p :: ps =>
    if p.1 ∈ first then (p.1, valueIn tag p.1 p.2) :: copied tag (first.filter (· ≠ p.1)) ps
    else if p.1 ∈ copyall then p :: copied tag first ps
    else copied tag first ps

/-- The types of which there is no header. -/
def lacking (first : List Hf) (ps : List (Hf × Bytes)) : List Hf :=
  first.filter fun t => !ps.any (·.1 == t)

/-- Full names only, as they are in every message from the wire. -/
def Canonical (ps : List (Hf × Bytes)) : Prop := ∀ p ∈ ps, (hdrDb p.1).cantype = p.1

theorem Out.Fits.mono {ps : List (Hf × Bytes)} (h : (o.addAll ps).Fits len cap) : o.Fits len cap := by
  induction ps generalizing o with
  | nil => exact h
  | cons p ps ih =>
    have hNext : (o.add p).Fits len cap := ih h
    obtain ⟨hBuf, hHdrs⟩ := length_add o p
    rw [Out.Fits, hBuf, hHdrs] at hNext
    exact ⟨by omega, by omega⟩

theorem valueIn_eq (t : Hf) (value : Bytes) :
    value ++ ((if t = .TO ∧ tag.length ≠ 0 then bytes ";tag=" else []) ++ if t = .TO then tag else []) =
      valueIn tag t value := by
  rw [valueIn]
  by_cases hTag : tag = []
  · simp only [hTag, ne_eq, not_true_eq_false, and_false, if_false, ite_self, List.length_nil,
      List.append_nil]
  · have hSome : tag.length ≠ 0 := fun hNone => hTag (List.eq_nil_of_length_eq_zero hNone)
    by_cases hTo : t = .TO
    · simp only [hTo, hTag, hSome, true_and, ne_eq, not_false_eq_true, if_true]
    · simp only [hTo, false_and, if_false, List.append_nil]

theorem lacking_cons_mem {first : List Hf} {p : Hf × Bytes} {ps : List (Hf × Bytes)} :
    lacking first (p :: ps) = lacking (first.filter (· ≠ p.1)) ps := by
  rw [lacking, lacking, List.filter_filter]
  apply List.filter_congr
  intro t _
  rw [List.any_cons, Bool.not_or, Bool.and_comm]
  congr 1
  rw [Bool.eq_iff_iff, Bool.not_eq_true', beq_eq_false_iff_ne, decide_eq_true_eq]
  exact ne_comm

theorem lacking_cons {first : List Hf} {p : Hf × Bytes} {ps : List (Hf × Bytes)} (hNot : p.1 ∉ first) :
    lacking first (p :: ps) = lacking first ps := by
  rw [lacking_cons_mem, List.filter_eq_self.mpr]
  intro t ht
  rw [decide_eq_true_eq]
  rintro rfl
  exact hNot ht

theorem copyHdrs_some (hFits : o.Fits len cap) {first : List Hf} {hdrs : List WireHdr}
    (hNames : Canonical (hdrs.map (WireHdr.typed m))) {r : List Hf × Out} :
    copyHdrs m len cap tag first hdrs o = some r ↔
      (o.addAll (copied tag first (hdrs.map (WireHdr.typed m)))).Fits len cap ∧
        (lacking first (hdrs.map (WireHdr.typed m)),
          o.addAll (copied tag first (hdrs.map (WireHdr.typed m)))) = r := by
  induction hdrs generalizing first o with
  | nil =>
    have hAll : lacking first [] = first := by simp [lacking]
    rw [copyHdrs, List.map_nil, hAll, Option.some.injEq]
    exact ⟨fun h => ⟨hFits, h⟩, And.right⟩
  | cons h hdrs ih =>
    have hName : (hdrDb h.hf_type).cantype = h.hf_type := hNames (h.typed m) List.mem_cons_self
    have hRest : Canonical (hdrs.map (WireHdr.typed m)) := fun p hIn =>
      hNames p (List.mem_cons_of_mem _ hIn)
    have hType : (h.typed m).1 = h.hf_type := rfl
    simp only [copyHdrs, hName, copied, List.map_cons, hType]
    by_cases hFirst : h.hf_type ∈ first
    · simp only [hFirst, if_true, Option.bind_eq_bind, Option.bind_eq_some_iff, appendNextHdr_some,
        valueIn_eq, lacking_cons_mem, hType]
      constructor
      · rintro ⟨_, ⟨hNext, rfl⟩, hMore⟩
        exact (ih hNext hRest).mp hMore
      · rintro ⟨hAll, hIs⟩
        have hNext : (o.add (h.hf_type, valueIn tag h.hf_type (m.read h.value))).Fits len cap :=
          Out.Fits.mono hAll
        exact ⟨_, ⟨hNext, rfl⟩, (ih hNext hRest).mpr ⟨hAll, hIs⟩⟩
    · rw [lacking_cons (p := h.typed m) hFirst]
      by_cases hAlso : h.hf_type ∈ copyall
      · simp only [hFirst, hAlso, if_false, if_true, Option.bind_eq_bind, Option.bind_eq_some_iff,
          appendNextHdr_some, List.append_nil]
        constructor
        · rintro ⟨_, ⟨hNext, rfl⟩, hMore⟩
          exact (ih hNext hRest).mp hMore
        · rintro ⟨hAll, hIs⟩
          have hNext : (o.add (h.hf_type, m.read h.value)).Fits len cap := Out.Fits.mono hAll
          exact ⟨_, ⟨hNext, rfl⟩, (ih hNext hRest).mpr ⟨hAll, hIs⟩⟩
      · simp only [hFirst, hAlso, if_false]
        exact ih hFits hRest

theorem copyHdrs_req (hFits : o.Fits len cap) {first : List Hf} {reqp : WireMsg}
    (hNames : Canonical (reqp.typed m)) {r : List Hf × Out} :
    copyHdrs m len cap tag first reqp.hdrs o = some r ↔
      (o.addAll (copied tag first (reqp.typed m))).Fits len cap ∧
        (lacking first (reqp.typed m), o.addAll (copied tag first (reqp.typed m))) = r :=
  copyHdrs_some hFits hNames

theorem appendHdrs_some (hFits : o.Fits len cap) {ahdrs : List AppendHdr} :
    appendHdrs len cap ahdrs o = some o' ↔
      (o.addAll (ahdrs.map fun a => (a.type, a.value))).Fits len cap ∧
        o.addAll (ahdrs.map fun a => (a.type, a.value)) = o' := by
  induction ahdrs generalizing o with
  | nil =>
    rw [appendHdrs, Option.some.injEq]
    exact ⟨fun h => ⟨hFits, h⟩, And.right⟩
  | cons a ahdrs ih =>
    simp only [appendHdrs, Option.bind_eq_bind, Option.bind_eq_some_iff, appendNextHdr_some,
      List.append_nil]
    constructor
    · rintro ⟨_, ⟨hNext, rfl⟩, hMore⟩
      exact (ih hNext).mp hMore
    · rintro ⟨hAll, hIs⟩
      have hNext : (o.add (a.type, a.value)).Fits len cap := Out.Fits.mono hAll
      exact ⟨_, ⟨hNext, rfl⟩, (ih hNext).mpr ⟨hAll, hIs⟩⟩

/-! ## The whole response -/

/-- The headers of a response. -/
def hdrsOut (m : Mem) (server : Bytes) (reqp : WireMsg) (tag : Bytes) : List (Hf × Bytes) :=
  copied tag copyfirst (reqp.typed m) ++ (initAppendHdrs server).map fun a => (a.type, a.value)

/-- The start line of a response. -/
def slineOut (m : Mem) (reqp : WireMsg) (slp : Status) : Bytes :=
  version m reqp ++ (bytes " " ++ (scode2str slp.code.1 ++ m.read slp.reason_phrase))

/-- A response in parts. -/
def partsOut (m : Mem) (server : Bytes) (reqp : WireMsg) (slp : Status) (tag : Bytes) : SplitMsg where
  sline := slineOut m reqp slp
  hdrs := (hdrsOut m server reqp tag).map hdrText
  body := []

/-- The buffer after the start line. -/
def begun (m : Mem) (reqp : WireMsg) (slp : Status) : Out := { buf := slineOut m reqp slp ++ [13, 10] }

theorem buf_addAll (ps : List (Hf × Bytes)) :
    (o.addAll ps).buf = o.buf ++ (ps.map hdrText).flatMap (· ++ [13, 10]) := by
  induction ps generalizing o with
  | nil => exact (List.append_nil _).symm
  | cons p ps ih =>
    have hNext : (o.addAll (p :: ps)) = (o.add p).addAll ps := rfl
    rw [hNext, ih, List.map_cons, List.flatMap_cons, Out.add, List.append_assoc]

theorem length_addAll (ps : List (Hf × Bytes)) : (o.addAll ps).hdrs.length = o.hdrs.length + ps.length := by
  induction ps generalizing o with
  | nil => rfl
  | cons p ps ih =>
    have hNext : (o.addAll (p :: ps)) = (o.add p).addAll ps := rfl
    rw [hNext, ih, (length_add o p).2, List.length_cons]
    omega

theorem appendSline_some {slp : Status} {reqp : WireMsg} :
    appendSline len (version m reqp) (m.read slp.reason_phrase) slp.code.1 {} = some o' ↔
      (begun m reqp slp).Fits len cap ∧ begun m reqp slp = o' := by
  have hIs : begun m reqp slp = (((((({} : Out).put (version m reqp)).put (bytes " ")).put
      (scode2str slp.code.1)).put (m.read slp.reason_phrase)).put [13, 10]) := by
    simp only [begun, Out.put, slineOut, List.append_assoc, List.nil_append]
  rw [hIs, Out.Fits]
  simp only [appendSline, Option.bind_eq_bind, Option.bind_eq_some_iff, appendMem_some, length_put,
    hdrs_put]
  constructor
  · rintro ⟨_, ⟨-, rfl⟩, _, ⟨-, rfl⟩, _, ⟨-, rfl⟩, hLast, rfl⟩
    simp only [length_put] at hLast
    exact ⟨⟨hLast, Nat.zero_le _⟩, rfl⟩
  · rintro ⟨⟨hLast, -⟩, rfl⟩
    refine ⟨_, ⟨by omega, rfl⟩, _, ⟨?_, rfl⟩, _, ⟨?_, rfl⟩, ?_, rfl⟩
    all_goals
      simp only [length_put]
      omega

/-- The buffer when all is in it. -/
theorem buf_done {reqp : WireMsg} {slp : Status} :
    (((begun m reqp slp).addAll (hdrsOut m server reqp tag)).put [13, 10]).buf =
      (partsOut m server reqp slp tag).join := by
  rw [Out.put, buf_addAll, begun, SplitMsg.join, partsOut]
  simp only [List.append_assoc, List.append_nil]

/-- A response is built just when no header is lacking, and it fits. -/
theorem buildFromreq_some {reqp : WireMsg} {slp : Status} (hNames : Canonical (reqp.typed m)) :
    buildFromreq m server reqp slp tag cap len = some o' ↔
      lacking copyfirst (reqp.typed m) = [] ∧ (hdrsOut m server reqp tag).length ≤ cap ∧
        (partsOut m server reqp slp tag).join.length ≤ len ∧
          ((begun m reqp slp).addAll (hdrsOut m server reqp tag)).put [13, 10] = o' := by
  have hAll : ∀ ps qs, ((begun m reqp slp).addAll ps).addAll qs = (begun m reqp slp).addAll (ps ++ qs) :=
    fun ps qs => (List.foldl_append ..).symm
  have hCount : ((begun m reqp slp).addAll (hdrsOut m server reqp tag)).hdrs.length =
      (hdrsOut m server reqp tag).length := by
    rw [length_addAll]
    exact Nat.zero_add _
  simp only [buildFromreq, Option.bind_eq_bind, Option.bind_eq_some_iff]
  constructor
  · rintro ⟨_, hSline, r, hCopied, hMore⟩
    obtain ⟨hFits, rfl⟩ := (@appendSline_some m len cap _ slp reqp).mp hSline
    obtain ⟨hFits, rfl⟩ := (copyHdrs_req hFits hNames).mp hCopied
    split_ifs at hMore with hNone
    obtain ⟨_, hLast, hEnd⟩ := Option.bind_eq_some_iff.mp hMore
    obtain ⟨hFits, rfl⟩ := (appendHdrs_some hFits).mp hLast
    obtain ⟨hLen, rfl⟩ := appendMem_some.mp hEnd
    rw [hAll, ← hdrsOut] at hFits hLen ⊢
    refine ⟨not_not.mp hNone, hCount ▸ hFits.2, ?_, rfl⟩
    rwa [buf_done] at hLen
  · rintro ⟨hNone, hRoom, hLen, rfl⟩
    rw [← buf_done, length_put] at hLen
    have hFits : ((begun m reqp slp).addAll (hdrsOut m server reqp tag)).Fits len cap := by
      rw [Out.Fits, hCount]
      exact ⟨by omega, hRoom⟩
    rw [hdrsOut, ← hAll] at hFits
    refine ⟨_, (@appendSline_some m len cap _ slp reqp).mpr ⟨hFits.mono.mono, rfl⟩, _,
      (copyHdrs_req hFits.mono.mono hNames).mpr ⟨hFits.mono, rfl⟩, ?_⟩
    rw [if_neg (not_not.mpr hNone)]
    apply Option.bind_eq_some_iff.mpr
    refine ⟨_, (appendHdrs_some hFits.mono).mpr ⟨hFits, rfl⟩, ?_⟩
    rw [hAll, ← hdrsOut, appendMem_some, length_put]
    exact ⟨hLen, rfl⟩

/-! ## Storage -/

theorem did_reserve {hp : Heap} {n : Nat} (hStart : hp.alen % 8 = 0) {r : Nat × Heap} :
    Heap.did (Heap.reserve n true) hp = some r ↔
      n ≤ hp.tsize - hp.alen ∧ (hp.alen, { hp with alen := hp.alen + n }) = r := by
  rw [Heap.did, Heap.run_reserve, if_pos rfl, Heap.alignedSize_of_mod hStart, Heap.remaining]
  dsimp only
  rw [Nat.sub_self, Nat.zero_add]
  split_ifs with hFull
  · constructor
    · intro h
      cases h
    · rintro ⟨hFits, -⟩
      omega
  · rw [Option.some.injEq]
    exact ⟨fun h => ⟨Nat.not_lt.mp hFull, h⟩, And.right⟩

theorem did_reserve_of_le (hp : Heap) (n : Nat) (hStart : hp.alen % 8 = 0)
    (hFits : n ≤ hp.tsize - hp.alen) :
    Heap.did (Heap.reserve n true) hp = some (hp.alen, { hp with alen := hp.alen + n }) :=
  (did_reserve hStart).mpr ⟨hFits, rfl⟩

/-- The message made of a response. -/
def response (m : Mem) (server : Bytes) (reqp : WireMsg) (slp : Status) (tag : Bytes) : WireMsg :=
  let buf := (partsOut m server reqp slp tag).join
  let o := (begun m reqp slp).addAll (hdrsOut m server reqp tag)
  let alen := Heap.alignedSize buf.length
  { onwire := Str.lit buf
    slineOnwire := ⟨.lit buf, 0, (version m reqp).length + 1 + 4 + slp.reason_phrase.l⟩
    sline := some (.res slp.code)
    hdrs := o.hdrs.map (OutHdr.toHdr buf)
    hdrsAt := alen
    heap := { Heap.init none .zero (allocSizeBuild server reqp tag) 0 with
      alen := alen + sizeofHdr * (hdrsOut m server reqp tag).length } }

theorem alen_init (n : Nat) : (Heap.init none .zero n 0).alen = 0 := rfl

theorem allocSizeBuild_mod (reqp : WireMsg) : allocSizeBuild server reqp tag % 8 = 0 := by
  rw [allocSizeBuild]
  have hFirst := Heap.alignedSize_mod (rawLen server reqp tag)
  have hSecond := Heap.alignedSize_mod (sizeofHdr * hdrCount reqp)
  have hThird := msgExtraHeapSize_mod (rawLen server reqp tag)
  omega

/-- A response is made just when no header is lacking, and its text and its headers fit. -/
theorem ctorFromreqTagged_some {reqp rp : WireMsg} {slp : Status} (hNames : Canonical (reqp.typed m)) :
    ctorFromreqTagged m server reqp slp tag = some rp ↔
      lacking copyfirst (reqp.typed m) = [] ∧ (hdrsOut m server reqp tag).length ≤ hdrCount reqp ∧
        Heap.alignedSize (partsOut m server reqp slp tag).join.length +
          sizeofHdr * (hdrsOut m server reqp tag).length ≤ allocSizeBuild server reqp tag ∧
        response m server reqp slp tag = rp := by
  have hSize : (Heap.init none .zero (allocSizeBuild server reqp tag) 0).tsize =
      allocSizeBuild server reqp tag := by
    have hMod := @allocSizeBuild_mod tag server reqp
    change allocSizeBuild server reqp tag / 8 * 8 = _
    omega
  have hSome : 0 < (partsOut m server reqp slp tag).join.length := by
    rw [SplitMsg.join, List.length_append]
    exact Nat.lt_of_lt_of_le (by decide) (Nat.le_add_left 2 _)
  have hTable : sizeofHdr * (hdrsOut m server reqp tag).length % 8 = 0 := by
    rw [sizeofHdr]
    omega
  have hLe := Heap.le_alignedSize (partsOut m server reqp slp tag).join.length
  have hMod := Heap.alignedSize_mod (partsOut m server reqp slp tag).join.length
  have hCount : ((begun m reqp slp).addAll (hdrsOut m server reqp tag)).hdrs.length =
      (hdrsOut m server reqp tag).length := by
    rw [length_addAll]
    exact Nat.zero_add _
  rw [ctorFromreqTagged, initFromreq]
  simp only [hSize, Option.bind_eq_bind, Option.pure_def]
  constructor
  · intro h
    split_ifs at h
    simp only [Option.bind_eq_some_iff] at h
    obtain ⟨o, hBuild, r, hText, r', hHdrs, h⟩ := h
    obtain ⟨hNone, hRoom, hLen, rfl⟩ := (buildFromreq_some hNames).mp hBuild
    rw [buf_done] at hText
    obtain ⟨hText, rfl⟩ := (did_reserve rfl).mp hText
    rw [hdrs_put, hCount, Heap.alloc, Heap.alignedSize_of_mod hTable] at hHdrs
    obtain ⟨hFits, rfl⟩ := (did_reserve (by rwa [alen_init, Nat.zero_add])).mp hHdrs
    obtain rfl := Option.some.inj h
    rw [hSize] at hFits hText
    simp only [alen_init, Nat.zero_add] at hFits hText
    refine ⟨hNone, hRoom, by omega, ?_⟩
    simp only [response, buf_done, hdrs_put, alen_init, Nat.zero_add]
  · rintro ⟨hNone, hRoom, hFits, rfl⟩
    rw [if_neg (by omega)]
    simp only [Option.bind_eq_some_iff]
    have hText := did_reserve_of_le
      (Heap.init none .zero (allocSizeBuild server reqp tag) 0)
      (Heap.alignedSize (partsOut m server reqp slp tag).join.length) rfl (by rw [hSize, alen_init]; omega)
    have hHdrs := did_reserve_of_le
      { Heap.init none .zero (allocSizeBuild server reqp tag) 0 with
        alen := Heap.alignedSize (partsOut m server reqp slp tag).join.length }
      (sizeofHdr * (hdrsOut m server reqp tag).length) hMod (by dsimp only; rw [hSize]; omega)
    refine ⟨_, (buildFromreq_some hNames).mpr ⟨hNone, hRoom, by omega, rfl⟩, ?_⟩
    rw [buf_done, hdrs_put, hCount, Heap.alloc, Heap.alignedSize_of_mod hTable]
    rw [alen_init, Nat.zero_add] at hText
    exact ⟨_, hText, _, hHdrs, rfl⟩

end Res

end Microsippy
