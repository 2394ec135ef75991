import Microsippy.Hdr

/-! # Received messages

A message as the transaction manager gets it from the parser: its start line and its headers in wire
order, each with what parsing its value yields. The views point into the message's own copy of the
wire, which never changes.
-/

namespace Microsippy

set_option autoImplicit false

/-- `union usipy_sip_hdr_parsed` of a received header. -/
inductive ParsedHdr where
  | via (v : Via)
  | nameaddr (n : NameAddr)
  | cseq (c : Cseq)
  | generic (s : Str)
  deriving DecidableEq, Repr

/-- `struct usipy_sip_hdr`; `parsed` is none where the value does not parse. -/
structure MsgHdr where
  hf_type : Hf
  value : Str
  parsed : Option ParsedHdr := none
  deriving DecidableEq, Repr

/-- `USIPY_SIP_SCODE_MIN` to `USIPY_SIP_SCODE_MAX`. -/
abbrev StatusCode := { code : Nat // 100 ≤ code ∧ code ≤ 999 }

/-- The start line of a message. -/
inductive Sline where
  | req (method : Method) (ruri : Str)
  | res (code : StatusCode)
  deriving DecidableEq, Repr

/-- `struct usipy_msg`. -/
structure Msg where
  sline : Sline
  hdrs : List MsgHdr
  deriving DecidableEq, Repr

namespace Msg

def present (msg : Msg) (t : Hf) : Bool := msg.hdrs.any (·.hf_type == t)

/-- The first header of a type. -/
def top (msg : Msg) (t : Hf) : Option MsgHdr := msg.hdrs.find? (·.hf_type == t)

/-- The headers a call to `usipy_sip_msg_parse_hdrs` reports: all of the types asked for, or the
first of each, in wire order. -/
def matched (msg : Msg) (mask : List Hf) (toponly : Bool) : List MsgHdr :=
  if toponly then
    (msg.hdrs.foldl (fun (seen, out) h =>
      if h.hf_type ∈ mask ∧ h.hf_type ∉ seen then (h.hf_type :: seen, out ++ [h]) else (seen, out))
      (([], []) : List Hf × List MsgHdr)).2
  else msg.hdrs.filter (·.hf_type ∈ mask)

/-- `usipy_sip_msg_parse_hdrs`: every type asked for is there, and what it has to parse does. -/
def parseHdrs (msg : Msg) (mask : List Hf) (toponly : Bool) : Bool :=
  mask.all msg.present && (msg.matched mask toponly).all (·.parsed.isSome)

/-- `usipy_sip_msg_parse_hdrs_get` with room for `hdrslen` headers. -/
def parseHdrsGet (msg : Msg) (mask : List Hf) (toponly : Bool) (hdrslen : Nat) :
    Option (List MsgHdr) :=
  if msg.parseHdrs mask toponly && (msg.matched mask toponly).length ≤ hdrslen then
    some (msg.matched mask toponly)
  else none

/-- The value of a parameter that has to be there and not be empty. -/
def requireParam (m : Mem) (params : List TvPair) (name : Bytes) : Option Str :=
  (params.find? fun pp => pp.token.l == name.length && m.read pp.token == name).bind fun pp =>
    if pp.value.l = 0 then none else some pp.value

/-- `usipy_sip_msg_get_tid`. -/
def getTid (m : Mem) (msg : Msg) : Option Tid :=
  if msg.parseHdrs [.CSEQ, .CALLID, .VIA, .FROM] true then
    match (msg.top .CSEQ).bind (·.parsed), (msg.top .CALLID).bind (·.parsed),
      (msg.top .VIA).bind (·.parsed), (msg.top .FROM).bind (·.parsed) with
    | some (.cseq cseq), some (.generic call_id), some (.via via), some (.nameaddr fromp) => do
      let vbranch ← requireParam m via.params (bytes "branch")
      let from_tag ← requireParam m fromp.params (bytes "tag")
      return { call_id, from_tag, vbranch, cseq, hash := tidHash m call_id from_tag vbranch cseq }
    | _, _, _, _ => none
  else none

/-- Whether a message is a 2xx response. -/
def is2xx (msg : Msg) : Bool :=
  match msg.sline with
  | .res code => decide (200 ≤ code.1 ∧ code.1 ≤ 299)
  | .req _ _ => false

/-- Whether a message is a request of a method. -/
def isRequest (msg : Msg) (method : Method) : Bool :=
  match msg.sline with
  | .req m _ => m == method
  | .res _ => false

/-- The name-addr a header was parsed to. -/
def nameaddrOf (h : MsgHdr) : Option NameAddr :=
  match h.parsed with
  | some (.nameaddr n) => some n
  | _ => none

theorem requireParam_l_ne {m : Mem} {params : List TvPair} {name : Bytes} {s : Str}
    (h : requireParam m params name = some s) : s.l ≠ 0 := by
  simp only [requireParam, Option.bind_eq_some_iff] at h
  obtain ⟨pp, -, hValue⟩ := h
  split at hValue
  · contradiction
  · obtain rfl : pp.value = s := by simpa using hValue
    assumption

/-- A message with a transaction id has a branch and a From tag. -/
theorem getTid_l_ne {m : Mem} {msg : Msg} {tid : Tid} (h : msg.getTid m = some tid) :
    tid.vbranch.l ≠ 0 ∧ tid.from_tag.l ≠ 0 := by
  simp only [getTid] at h
  split at h
  · split at h
    · simp only [Option.bind_eq_bind, Option.bind_eq_some_iff] at h
      obtain ⟨vbranch, hBranch, from_tag, hTag, hTid⟩ := h
      obtain rfl := Option.some.inj hTid
      exact ⟨requireParam_l_ne hBranch, requireParam_l_ne hTag⟩
    · contradiction
  · contradiction

end Msg

end Microsippy
