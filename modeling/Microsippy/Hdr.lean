import Microsippy.Uri
import Microsippy.Method
import Microsippy.HdrDb

/-! # Header values

The parsed forms of the headers a transaction reads or writes, their parsers where the transaction
manager calls one itself, and the pieces their builders write.
-/

namespace Microsippy

set_option autoImplicit false

def crlf : Str := Str.lit [13, 10]

/-! ## Name-addr -/

/-- `struct usipy_sip_hdr_nameaddr`. -/
structure NameAddr where
  display_name : Str := Str.null
  addr_spec : Str := Str.null
  params : List TvPair := []
  deriving DecidableEq, Repr

/-- A parameter as `usipy_sip_hdr_nameaddr_parse` reads it, the white space around `=` dropped. -/
def tvPairTrimmed (m : Mem) (s : Str) : TvPair :=
  match s.split m (ch '=') with
  | some (token, value) => ⟨token.ltrmE m, value.ltrmB m⟩
  | none => ⟨s, Str.null⟩

namespace NameAddr

/-- `NA_SIZEOF`. -/
def sizeof (nparams : Nat) : Nat := 40 + sizeofTvPair * nparams

/-- The value split into its parts, `none` where `usipy_sip_hdr_nameaddr_parse` rolls back. -/
def parseParts (m : Mem) (hvp : Str) : Option NameAddr := do
  let (display_name, addr_spec, paramspace) ←
    match hvp.splitElem m (ch '<') with
    | none =>
      match hvp.splitElem m (ch ';') with
      | some (addr_spec, iup) => some (Str.null, addr_spec, iup)
      | none => some (Str.null, hvp, Str.null)
    | some (display_name, iup) =>
      match iup.splitElem m (ch '>') with
      | none => none
      | some (addr_spec, iup) =>
        if iup.l = 0 then some (display_name, addr_spec, Str.null)
        else if iup.l = 1 ∨ (m.read iup).head? ≠ some (ch ';') then none
        else some (display_name, addr_spec, ⟨iup.src, iup.off + 1, iup.l - 1⟩)
  let elements := elems (fun s => s.splitElem m (ch ';')) paramspace.l paramspace
  return { display_name, addr_spec, params := elements.map (tvPairTrimmed m) }

/-- `usipy_sip_hdr_nameaddr_parse`. -/
def parse (m : Mem) (hvp : Str) : HeapM NameAddr := do
  let start ← Heap.allocCnt (sizeof 0)
  let hp ← Op.get
  Op.cleanup (Heap.cntRollback start) do
    let nap ← Op.orElse (parseParts (hp.mem m) hvp) ()
    extendPairs sizeof start 0 nap.params
    return nap

/-- `usipy_sip_hdr_nameaddr_build`, into a buffer with `keep` bytes set aside. -/
def build (keep : Nat) (nap : NameAddr) : List Chunk :=
  (if nap.display_name.l ≠ 0 then
    [.put keep nap.display_name, .put keep (Str.lit (bytes " "))] else []) ++
  [.put keep (Str.lit (bytes "<")), .put keep nap.addr_spec, .put keep (Str.lit (bytes ">"))] ++
  (nap.params.map fun pp =>
    [Chunk.put keep (Str.lit (bytes ";")), .put keep pp.token] ++
      if pp.value.l = 0 then [] else [.put keep (Str.lit (bytes "=")), .put keep pp.value]).flatten

/-- `usipy_sip_hdr_nameaddr_get_param`. -/
def getParam (m : Mem) (nap : NameAddr) (name : Bytes) : Option Str :=
  (nap.params.find? fun pp => pp.token.l == name.length && m.read pp.token == name).map (·.value)

end NameAddr

/-! ## Via -/

/-- `struct usipy_sip_hdr_via`. -/
structure Via where
  name : Str := Str.null
  version : Str := Str.null
  transport : Str := Str.null
  host : Str := Str.null
  port : UInt32 := 0
  params : List TvPair := []
  deriving DecidableEq, Repr

/-- `usipy_sip_hdr_via_build`. -/
def Via.build (keep : Nat) (vp : Via) : List Chunk :=
  [.put keep vp.name, .put keep (Str.lit (bytes "/")), .put keep vp.version,
    .put keep (Str.lit (bytes "/")), .put keep vp.transport, .put keep (Str.lit (bytes " ")),
    .put keep vp.host] ++
  (if vp.port ≠ 0 then
    [.put keep (Str.lit (bytes ":")), .print keep [Str.lit (dec vp.port.toNat)]] else []) ++
  (vp.params.map fun pp =>
    [Chunk.put keep (Str.lit (bytes ";")), .put keep pp.token] ++
      if pp.value.l = 0 then [] else [.put keep (Str.lit (bytes "=")), .put keep pp.value]).flatten

/-! ## CSeq and credentials -/

/-- `usipy_sip_hdr_cseq_build`. -/
def Cseq.build (keep : Nat) (c : Cseq) : List Chunk :=
  [.print keep [Str.lit (dec c.val.toNat ++ bytes " "), Str.lit c.method.name]]

/-- `struct usipy_sip_hdr_authz`. -/
structure Authz where
  scheme : Str := Str.null
  username : Str := Str.null
  realm : Str := Str.null
  nonce : Str := Str.null
  uri : Str := Str.null
  response : Str := Str.null
  qop : Str := Str.null
  nc : Str := Str.null
  cnonce : Str := Str.null
  algorithm : Str := Str.null
  opaque_ : Str := Str.null
  deriving DecidableEq, Repr

namespace Authz

/-- `usipy_sip_hdr_authz_append_value`, `first` where nothing is written yet. -/
def appendValue (keep : Nat) (first : Bool) (name : String) (value : Str) (quote : Bool) :
    List Chunk :=
  (if first then [] else [.print keep [Str.lit (bytes ",")]]) ++
  if quote then [.print keep [Str.lit (bytes name ++ bytes "=\""), value, Str.lit (bytes "\"")]]
  else [.print keep [Str.lit (bytes name ++ bytes "="), value]]

/-- `usipy_sip_hdr_authz_build`. -/
def build (keep : Nat) (azp : Authz) : List Chunk :=
  [.put keep azp.scheme, .put keep (Str.lit (bytes " "))] ++
  appendValue keep true "username" azp.username true ++
  appendValue keep false "realm" azp.realm true ++
  appendValue keep false "nonce" azp.nonce true ++
  appendValue keep false "uri" azp.uri true ++
  appendValue keep false "response" azp.response true ++
  (if azp.algorithm.l ≠ 0 then appendValue keep false "algorithm" azp.algorithm false else []) ++
  (if azp.qop.l ≠ 0 then
    appendValue keep false "qop" azp.qop false ++ appendValue keep false "nc" azp.nc false ++
      appendValue keep false "cnonce" azp.cnonce true else []) ++
  (if azp.opaque_.l ≠ 0 then appendValue keep false "opaque" azp.opaque_ true else [])

end Authz

/-! ## Building a request -/

/-- The `parsed` of a header to be built. -/
inductive HdrValue where
  | via (v : Via)
  | nameaddr (n : NameAddr)
  | cseq (c : Cseq)
  | authz (a : Authz)
  | generic (s : Str)
  deriving DecidableEq, Repr

/-- A header to be built: its type, whose `build` member the value stands for, and the value. -/
structure BuildHdr where
  hf_type : Hf
  value : HdrValue
  deriving DecidableEq, Repr

def HdrValue.build (keep : Nat) : HdrValue → List Chunk
  | via v => v.build keep
  | nameaddr n => n.build keep
  | cseq c => c.build keep
  | authz a => a.build keep
  | generic s => [.put keep s]

/-- `usipy_sip_msg_build_hdr_cb`. The value leaves room for the line end. -/
def BuildHdr.build (h : BuildHdr) : List Chunk :=
  let name := (hdrDb h.hf_type).name
  [.need (name.length + 2 + 2), .put 0 (Str.lit name), .text ": "] ++ h.value.build 2 ++
    [.put 0 crlf]

/-- `struct usipy_msg` as `usipy_sip_tm_build_request` fills it in. -/
structure BuildReq where
  method : Method
  ruri : Uri
  hdrs : List BuildHdr
  body : Str
  deriving DecidableEq, Repr

/-- `usipy_sip_msg_build_sline_cb` for a request. -/
def BuildReq.buildSline (r : BuildReq) : List Chunk :=
  [.print 0 [Str.lit (r.method.name ++ bytes " ")]] ++ r.ruri.build ++
    [.need 1, .print 0 [Str.lit (bytes " SIP/2.0" ++ [13, 10])]]

/-- `usipy_sip_msg_build_cb`: of the Content-Length headers the last alone is written, after all
others. -/
def BuildReq.build (r : BuildReq) : List Chunk :=
  let isCl := fun h : BuildHdr => (hdrDb h.hf_type).cantype == .CONTENTLENGTH
  r.buildSline ++
  ((r.hdrs.filter fun h => !isCl h).map BuildHdr.build).flatten ++
  (match (r.hdrs.filter isCl).getLast? with
    | some h => h.build
    | none => []) ++
  [.put 0 crlf] ++
  (if r.body.l ≠ 0 then [.put 0 r.body] else [])

/-! ## Extra headers -/

/-- `USIPY_SIP_TM_EH_RAW` and `USIPY_SIP_TM_EH_PARSED`, and any other byte there. -/
inductive EhKind where
  | RAW | PARSED | other
  deriving DecidableEq, Repr

/-- `struct usipy_sip_tm_extra_header`. -/
structure ExtraHeader where
  hf_type : UInt8
  value_kind : EhKind := .RAW
  value : Option Str := none
  parsed : Authz := {}
  deriving DecidableEq, Repr

end Microsippy
