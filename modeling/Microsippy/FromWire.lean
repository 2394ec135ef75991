import Microsippy.BreakDown
import Microsippy.Msg

/-! # Messages from the wire

`usipy_sip_msg_ctor_fromwire`: the start line and the headers of a buffer, and the parsing of header
values on the message's own heap.
-/

namespace Microsippy

set_option autoImplicit false

namespace Str

/-- `USIPY_ISWS` -/
def isWs (b : UInt8) : Bool := b == ch ' ' || b == ch '\t'

/-- `usipy_str_trm_e` -/
def trmE (m : Mem) (s : Str) : Str :=
  { s with l := s.l - ((m.read s).reverse.takeWhile isWs).length }

/-- `usipy_str_ltrm_b` and then `usipy_str_ltrm_e` -/
def ltrm (m : Mem) (s : Str) : Str := (s.ltrmB m).ltrmE m

/-- `usipy_str_split3` -/
def split3 (m : Mem) (x : Str) (dlm : UInt8) : Option (Str × Str × Str) := do
  let (y, rest) ← x.split m dlm
  let (z, w) ← rest.split m dlm
  return (y, z, w)

/-- `usipy_str_splitlws` -/
def splitlws (m : Mem) (ivp : Str) : Option (Str × Str) :=
  ((m.read ivp).findIdx? isLws).map fun r =>
    (⟨ivp.src, ivp.off, r⟩, ltrmB m ⟨ivp.src, ivp.off + r + 1, ivp.l - r - 1⟩)

end Str

/-! ## The start line -/

/-- `asso_values` of `method_hash`, 14 where nothing else is given. -/
def assoValue (b : UInt8) : Nat :=
  if b = ch 'A' ∨ b = ch 'a' then 10
  else if b = ch 'B' ∨ b = ch 'b' then 0
  else if b = ch 'C' ∨ b = ch 'c' then 5
  else if b = ch 'I' ∨ b = ch 'i' then 0
  else if b = ch 'O' ∨ b = ch 'o' then 0
  else if b = ch 'P' ∨ b = ch 'p' then 5
  else if b = ch 'R' ∨ b = ch 'r' then 0
  else if b = ch 'S' ∨ b = ch 's' then 0
  else 14

/-- `wordlist` of `usipy_method_db_lookup` -/
def methodWordlist : List Method :=
  [.generic, .generic, .generic, .BYE, .INFO, .REFER, .INVITE, .OPTIONS, .REGISTER, .SUBSCRIBE,
    .PRACK, .CANCEL, .generic, .ACK]

/-- `usipy_method_db_lookup` -/
def methodDbLookup (tp : Bytes) : Method :=
  if tp.length = 6 ∧ Turbo.casebcmp tp (bytes "NOTIFY") 6 = 0 then .NOTIFY
  else if 3 ≤ tp.length ∧ tp.length ≤ 9 then
    match methodWordlist[tp.length + assoValue (tp.headD 0)]? with
    | some wp =>
      if wp.name.length = tp.length ∧ Turbo.casebcmp tp wp.name wp.name.length = 0 then wp
      else .generic
    | none => .generic
  else .generic

/-- `CHCASECMP` -/
def chcasecmp (ch1 ch2 : UInt8) : Bool := ch1 == ch2 || ch1 == ch2 ||| 32

/-- `usipy_verify_sip_version` -/
def verifySipVersion : Bytes → Bool
  | [s, i, p, slash, two, dot, zero] =>
    chcasecmp s (ch 'S') && chcasecmp i (ch 'I') && chcasecmp p (ch 'P') && slash == ch '/' &&
      two == ch '2' && dot == ch '.' && zero == ch '0'
  | _ => false

/-- `usipy_sip_sline_parse` -/
def slineParse (m : Mem) (onwire : Str) : HeapM Sline := do
  let (s1, s2) ← Op.orElse (onwire.split m (ch ' ')) ()
  Op.require (s1.l ≠ 0 ∧ s2.l ≠ 0) ()
  let (s3, s4) ← Op.orElse (s2.split m (ch ' ')) ()
  Op.require (s3.l ≠ 0) ()
  if verifySipVersion (m.read s1) then
    let code ← Op.orElse (s3.atouiRange m 100 999) ()
    if h : 100 ≤ code.toNat ∧ code.toNat ≤ 999 then return .res ⟨code.toNat, h⟩ else Op.fail ()
  else if s4.l ≠ 0 ∧ verifySipVersion (m.read s4) then
    let _ ← Uri.parse m s3
    return .req (methodDbLookup (m.read s1)) s3
  else Op.fail ()

/-! ## Headers -/

/-- `struct usipy_sip_hdr` as the wire gives it -/
structure WireHdr where
  full : Str := Str.null
  name : Str
  value : Str
  onwire_hf_type : Hf
  hf_type : Hf
  deriving DecidableEq, Repr

/-- `sizeof(struct usipy_sip_hdr)` -/
def sizeofHdr : Nat := 72

/-- The loop of `usipy_sip_hdr_preparse` over a list, `shp` and `ehp` being offsets in the heap. -/
def preparseList (m : Mem) (ehp : Nat) : Nat → Nat → Str → Option (List Str)
  | 0, _, csp => some [csp.ltrm m]
  | fuel + 1, shp, csp =>
    if csp.l = 0 then some [csp.ltrm m]
    else
      match csp.split m (ch ',') with
      | none => some [csp.ltrm m]
      | some (value, csp) =>
        if shp + 2 * sizeofHdr > ehp then none
        else (preparseList m ehp fuel (shp + sizeofHdr) csp).map (value.ltrm m :: ·)

/-- `usipy_sip_hdr_preparse`: the headers a line makes, the first of them in its own place. -/
def hdrPreparse (T : Shift) (m : Mem) (shp ehp : Nat) (full : Str) : Option (List WireHdr) := do
  let (name, value) ← full.split m (ch ':')
  let name := name.trmE m
  let hdep := hdrDbLookup T (m.read name)
  let hf_type := if (hdrDb hdep).iscmpct then (hdrDb hdep).cantype else hdep
  let values ← (if (hdrDb hdep).csl_allowed then preparseList m ehp value.l shp value
    else some [value.ltrm m])
  return values.mapIdx fun i value =>
    { full := if i = 0 then full else Str.null, name, value, onwire_hf_type := hdep, hf_type }

/-! ## The message -/

/-- `struct usipy_msg` from the wire; `hdrsAt` is the offset of `hdrs` in the heap. -/
structure WireMsg where
  onwire : Str
  body : Str := Str.null
  slineOnwire : Str := Str.null
  sline : Option Sline := none
  hdrs : List WireHdr := []
  hdrsAt : Nat := 0
  heap : Heap

/-- `HT_SIZEOF` -/
def htSizeof (nhdrs : Nat) : Nat := sizeofHdr * (nhdrs + 1)

/-- `usipy_sip_msg_extra_heap_size`, with room for `USIPY_SIP_MSG_NHDRS_HINT` headers at least. The
macro `USIPY_ALIGNED_SIZE` puts no parentheses around its argument, here a `?:`: only the length is
masked, and eight bytes come on top of the room for the headers. -/
def msgExtraHeapSize (raw_len : Nat) : Nat :=
  let min_extra := sizeofHdr * 30
  (if raw_len < min_extra then min_extra else raw_len / 8 * 8) +
    if (if raw_len < min_extra then min_extra else raw_len % 8) ≠ 0 then 8 else 0

theorem msgExtraHeapSize_eq (n : Nat) : msgExtraHeapSize n =
    if n < sizeofHdr * 30 then sizeofHdr * 30 + 8 else Heap.alignedSize n := by
  rw [msgExtraHeapSize]
  split
  · rfl
  · rfl

theorem msgExtraHeapSize_mod (n : Nat) : msgExtraHeapSize n % 8 = 0 := by
  rw [msgExtraHeapSize_eq]
  split
  · rfl
  · rw [Heap.alignedSize]
    split <;> omega

/-- The storage behind the copy of the wire, from its first aligned byte on. -/
def msgHeapSize (len : Nat) : Nat :=
  let heapsize := Heap.alignedSize len + msgExtraHeapSize len - len
  (heapsize - (Heap.alignedSize len - len)) / 8 * 8

/-- What a heap operation of the parser leaves, where it succeeds. -/
def Heap.did {α : Type} (x : HeapM α) (hp : Heap) : Option (α × Heap) :=
  match x.run hp with
  | some (.ok a, hp) => some (a, hp)
  | _ => none

/-- The variables of the loop of `usipy_sip_msg_init_fromwire`. `shp` is the `onwire.full` of the
header last begun. -/
structure FromWire where
  rp : WireMsg
  mit : MsgIterator WordSize.lp64.sizeof
  cp : Str
  shp : Option Str := none

namespace FromWire

/-- The end of a turn at `next_line`. -/
def nextLine (chp : Nat) (s : FromWire) : FromWire :=
  { s with cp := { s.cp with off := chp + 2, l := s.cp.l - (chp + 2 - s.cp.off) } }

/-- A header begun. -/
def beginHdr (chp : Nat) (s : FromWire) : Option FromWire := do
  let size := htSizeof s.rp.hdrs.length
  let rp ← (match s.shp with
    | none => do
      let (hdrsAt, heap) ← Heap.did (Heap.allocCnt size) s.rp.heap
      return { s.rp with hdrsAt, heap }
    | some _ => do
      let ((), heap) ← Heap.did (Heap.aextend size s.rp.hdrsAt) s.rp.heap
      return { s.rp with heap })
  return { s with rp, shp := some { s.cp with l := chp - s.cp.off } }

/-- The header last begun put into the message. -/
def commit (T : Shift) (m : Mem) (full : Str) (s : FromWire) : Option FromWire := do
  let rp := s.rp
  let hdrs ← hdrPreparse T m (rp.hdrsAt + sizeofHdr * rp.hdrs.length) rp.heap.tsize full
  let rp := { rp with hdrs := rp.hdrs ++ hdrs }
  if hdrs.length ≤ 1 then return { s with rp }
  else
    let ((), heap) ← Heap.did (Heap.aextend (htSizeof rp.hdrs.length) rp.hdrsAt) rp.heap
    return { s with rp := { rp with heap } }

/-- The end of the headers, or the next one begun: whether the loop goes on. -/
def endOrBegin (chp : Nat) (s : FromWire) : Option (Bool × FromWire) :=
  if chp = s.cp.off then
    some (false, { s with cp := { s.cp with off := s.cp.off + 2, l := s.cp.l - 2 } })
  else do
    let s ← s.beginHdr chp
    return (true, s.nextLine chp)

/-- A turn of the loop with a line end at `chp`. -/
def line (T : Shift) (m : Mem) (chp : Nat) (s : FromWire) : Option (Bool × FromWire) :=
  match s.shp with
  | none =>
    if s.rp.slineOnwire.l = 0 then do
      let slineOnwire := { s.cp with l := chp }
      let (sline, heap) ← Heap.did (slineParse m slineOnwire) s.rp.heap
      return (true,
        { s with rp := { s.rp with slineOnwire, sline := some sline, heap } }.nextLine chp)
    else s.endOrBegin chp
  | some full =>
    if Str.isWs ((m.read s.cp).headD 0) then
      some (true, { s with shp := some { full with l := chp - full.off } }.nextLine chp)
    else do
      let s ← s.commit T m full
      s.endOrBegin chp

/-- The loop of `usipy_sip_msg_init_fromwire`. A turn takes a line, so the length is fuel enough. -/
def loop (T : Shift) (m : Mem) : Nat → FromWire → Option FromWire
  | 0, _ => none
  | fuel + 1, s =>
    if s.cp.l = 0 then some s
    else do
      let (crlf_off, mit) ← s.mit.breakDown
      if crlf_off < 0 then some { s with mit }
      else
        let (more, s) ← line T m crlf_off.toNat { s with mit }
        if more then loop T m fuel s else some s

/-- The loop's variables at its start. The heap begins at the first aligned byte after the copy. -/
def start (buf : Bytes) : FromWire where
  rp := { onwire := Str.lit buf, heap := Heap.init none .zero (msgHeapSize buf.length) 0 }
  mit := { msg_onwire := buf, msg_copy := Arena.ofBytes buf }
  cp := Str.lit buf

end FromWire

/-- `usipy_sip_msg_ctor_fromwire` where `malloc` succeeds. -/
def ctorFromwire (T : Shift) (m : Mem) (buf : Bytes) : Option WireMsg := do
  let s ← FromWire.loop T m (buf.length + 1) (.start buf)
  if s.rp.hdrs.length = 0 then none
  else if s.cp.l > 0 then some { s.rp with body := s.cp }
  else some s.rp

/-! ## Header values -/

/-- `VH_SIZEOF` -/
def Via.sizeof (nparams : Nat) : Nat := 80 + sizeofTvPair * nparams

/-- The value split into its parts, `none` where `usipy_sip_hdr_via_parse` rolls back. `stack` is what
`paramspace` has before anything is put into it. -/
def Via.parseParts (stack : Str) (m : Mem) (hvp : Str) : Option Via := do
  let (name, version, s4) ← hvp.split3 m (ch '/')
  let (transport, s4) ← (s4.ltrmB m).splitlws m
  let s4 := s4.ltrmB m
  let (sent_by, paramspace) := match s4.split m (ch ';') with
    | none => (s4, stack)
    | some (sent_by, paramspace) => (sent_by.ltrmE m, paramspace.ltrmB m)
  let (host, port) ← (if sent_by.l = 0 then none
    else match sent_by.split m (ch ':') with
      | some (host, port) =>
        ((port.ltrmB m).atouiRange m 1 65535).map fun port => (host.ltrmE m, port)
      | none => some (sent_by, 0))
  let params := elems (fun s => s.splitElem m (ch ';')) paramspace.l paramspace
  return { name := name.ltrmE m, version := version.ltrm m, transport, host, port
           params := params.map (tvPairTrimmed m) }

/-- `usipy_sip_hdr_via_parse` -/
def Via.parse (stack : Str) (m : Mem) (hvp : Str) : HeapM Via := do
  let start ← Heap.allocCnt (sizeof 0)
  let hp ← Op.get
  Op.cleanup (Heap.cntRollback start) do
    let vp ← Op.orElse (parseParts stack (hp.mem m) hvp) ()
    extendPairs sizeof start 0 vp.params
    return vp

/-- `usipy_sip_hdr_cseq_parse` -/
def Cseq.parse (m : Mem) (hvp : Str) : HeapM Cseq := do
  let (s1, s2) ← Op.orElse (hvp.splitlws m) ()
  let val ← Op.orElse (s1.atouiRange m 0 0xffffffff) ()
  let _ ← Heap.alloc 32
  return { onwire_method := s2, val, method := methodDbLookup (m.read s2) }

/-- The `parse` member of a header's entry, called on some `stack`. Nothing has the headers of `auth`
parsed. -/
def HdrParse.run (stack : Str) (m : Mem) (hvp : Str) : HdrParse → HeapM ParsedHdr
  | cseq => do return .cseq (← Cseq.parse m hvp)
  | oneToken => do return .generic hvp
  | nameaddr => do return .nameaddr (← NameAddr.parse m hvp)
  | via => do return .via (← Via.parse stack m hvp)
  | auth => Op.fail ()

/-- A header with its value parsed, where it is. -/
structure WireHdr.ParsedTo (m : Mem) (h : WireHdr) (g : MsgHdr) : Prop where
  hf_type : g.hf_type = h.hf_type
  value : g.value = h.value
  parsed : ∀ p, g.parsed = some p → ∃ parse stack hp hp', (hdrDb h.hf_type).parse = some parse ∧
    (parse.run stack m h.value).run hp = some (.ok p, hp')

/-- The message as the transaction manager finds it: every header parsed, or not where its value does
not parse or the heap is full by then. -/
structure WireMsg.ParsedTo (m : Mem) (rp : WireMsg) (msg : Msg) : Prop where
  sline : rp.sline = some msg.sline
  hdrs : List.Forall₂ (WireHdr.ParsedTo m) rp.hdrs msg.hdrs

/-- The values of the headers of some types parsed in wire order on the message's heap, over a clean
stack. -/
def parseHdrList (m : Mem) (mask : List Hf) : List WireHdr → Heap → List MsgHdr
  | [], _ => []
  | h :: hs, hp =>
    let msgHdr := fun parsed => { hf_type := h.hf_type, value := h.value, parsed : MsgHdr }
    match (if h.hf_type ∈ mask then (hdrDb h.hf_type).parse else none) with
    | none => msgHdr none :: parseHdrList m mask hs hp
    | some parse =>
      match Heap.did (parse.run Str.null m h.value) hp with
      | none => msgHdr none :: parseHdrList m mask hs hp
      | some (p, hp) => msgHdr (some p) :: parseHdrList m mask hs hp

/-- The message with the headers of some types parsed. -/
def WireMsg.withParsed (m : Mem) (mask : List Hf) (rp : WireMsg) : Option Msg :=
  rp.sline.map fun sline => { sline, hdrs := parseHdrList m mask rp.hdrs rp.heap }

end Microsippy
