import Microsippy.Tm.Request

/-! # The parameters of in-dialog requests

`usipy_sip_tm_dialog.c`: the remote target, the route set and the identity of a dialog, from the
INVITE that made it, copied to a heap.
-/

namespace Microsippy

set_option autoImplicit false

/-- `struct usipy_sip_tm_dialog_request`. -/
structure DialogRequest where
  cseq : UInt32
  method_type : UInt8
  request_target_addr : Addr
  local_ : Addr
  routes : List Str
  timers : TimerPolicy
  call_id : Str
  request_uri : Str
  contact_uri : Str
  from_uri : Str
  to_uri : Str
  local_tag : Str
  remote_tag : Str
  deriving DecidableEq, Repr

/-- `struct usipy_sip_tm_new_in_dialog_transaction_params`. -/
structure NewInDialogParams where
  request_id : RequestId
  request_target : RequestTarget
  local_ : Option Addr := none
  parties_by_uri : RequestParties
  route_set : List Str := []
  dialog_tags : DialogTags
  timers : Option TimerPolicy := none
  callbacks : Option UacCallbacks := none

/-- `usipy_sip_tm_dialog_request_get_params`. -/
def DialogRequest.getParams (srcp : DialogRequest) : NewInDialogParams :=
  { request_id := { call_id := srcp.call_id, cseq := srcp.cseq, method_type := srcp.method_type }
    request_target := { request_uri := srcp.request_uri, target := srcp.request_target_addr }
    local_ := srcp.local_
    parties_by_uri := { contact := srcp.contact_uri, from_ := srcp.from_uri, to_ := srcp.to_uri }
    route_set := srcp.routes
    dialog_tags := { local_tag := srcp.local_tag, remote_tag := srcp.remote_tag }
    timers := srcp.timers }

/-- A computation on the heap the parameters are copied to. -/
abbrev ParamsM := Op TmError Heap

/-- `usipy_sip_tm_dialog_heap_str_dup`. -/
def heapStrDup (m : Mem) (srcp : Str) : ParamsM Str := Op.failWith .NOSPC (Heap.append m srcp)

/-- `usipy_sip_tm_dialog_copy_addr`. -/
def dialogCopyAddr (m : Mem) (srcp : Addr) : ParamsM Addr := do
  let host ← (if srcp.host.l = 0 then pure srcp.host else heapStrDup m srcp.host)
  return { srcp with host }

/-- `usipy_sip_tm_dialog_uri_has_param`. -/
def uriHasParam (m : Mem) (up : Uri) (name : Bytes) : Bool :=
  up.parameters.any fun pp => pp.token.l == name.length && m.read pp.token == name

/-- `usipy_sip_tm_dialog_set_target_from_uri`. -/
def setTargetFromUri (basep : Addr) (urip : Uri) : Addr :=
  { basep with
    host := urip.host
    port := if urip.port ≠ 0 then urip.port.toUInt16
      else if basep.transport = .TLS then 5061 else 5060 }

/-- A URI that has to parse and to have a host. -/
def parseTargetUri (m : Mem) (s : Str) : ParamsM Uri := do
  let up ← Op.failWith .BADMSG (Uri.parse m s)
  Op.require (up.host.l ≠ 0) .BADMSG
  return up

/-- A URI up to its headers. -/
def cutHeaders (m : Mem) (uri : Str) : Str :=
  match uri.chr m (ch '?') with
  | some l => { uri with l }
  | none => uri

/-- `usipy_sip_tm_dialog_resolve_target`: the Request-URI, where to send to and the route set. -/
def dialogResolveTarget (m : Mem) (basep : Addr) (remote_targetp : Str) (route_src : List Str)
    (reverse : Bool) : ParamsM (Str × Addr × List Str) := do
  let remote_target ← heapStrDup m remote_targetp
  let (request_uri, target_uri, route_set) ← (match route_src with
    | [] => pure (remote_target, remote_target, [])
    | _ => do
      let _ ← Op.failWith .NOSPC (Heap.alloc (sizeofStr * (route_src.length + 1)))
      let routes ← Op.failWith .NOSPC
        (appendAll m (if reverse then route_src.reverse else route_src))
      let first := routes.headD Str.null
      let first_route ← parseTargetUri m first
      let hp ← Op.get
      if uriHasParam (hp.mem m) first_route (bytes "lr") then pure (remote_target, first, routes)
      else
        let request_uri := cutHeaders (hp.mem m) first
        pure (request_uri, request_uri, routes.tail ++ [remote_target]))
  let target_uri ← parseTargetUri m target_uri
  return (request_uri, setTargetFromUri basep target_uri, route_set)

/-- The tag of a name-addr, if it has one that is not empty. -/
def tagOf (m : Mem) (na : NameAddr) : Option Str :=
  (na.getParam m (bytes "tag")).bind fun tag => if tag.l = 0 then none else some tag

/-- `usipy_sip_tm_init_uac_dialog_request_params`. -/
def initUacDialogRequestParams (tm : Tm) (anchor_index : Nat) (msg : Msg) (method_type : UInt8) :
    ParamsM DialogRequest := do
  let m := tm.mem
  let anchorp := tm.tx anchor_index
  Op.assert (anchor_index < tm.max_transactions)
  Op.require anchorp.active .UNSUPPORTED
  Op.assert (anchorp.role = .UAC)
  Op.require (anchorp.isInvite ∧ anchorp.response_class = 2 ∧ msg.is2xx) .UNSUPPORTED
  let mask := [Hf.TO, .CONTACT] ++ if msg.present .RECORDROUTE then [.RECORDROUTE] else []
  let hdrs ← Op.orElse (msg.parseHdrsGet mask false msg.hdrs.length) .BADMSG
  let top ← Op.orElse ((hdrs.find? (·.hf_type == .TO)).bind Msg.nameaddrOf) .BADMSG
  let contactp ← Op.orElse ((hdrs.find? (·.hf_type == .CONTACT)).bind Msg.nameaddrOf) .BADMSG
  let hp ← Op.get
  let tag ← Op.orElse (tagOf (hp.mem m) top) .BADMSG
  Op.require (contactp.addr_spec.l ≠ 0) .BADMSG
  let recordroutes := (hdrs.filter (·.hf_type == .RECORDROUTE)).filterMap Msg.nameaddrOf
  let (request_uri, next_target, routes) ← dialogResolveTarget m anchorp.peer contactp.addr_spec
    (recordroutes.map (·.addr_spec)) true
  let call_id ← heapStrDup m anchorp.cache.call_id
  let contact_uri ← heapStrDup m anchorp.cache.uac.contact_uri
  let from_uri ← heapStrDup m anchorp.cache.uac.from_uri
  let to_uri ← heapStrDup m anchorp.cache.uac.to_uri
  let local_tag ← heapStrDup m anchorp.cache.from_tag
  let remote_tag ← heapStrDup m tag
  let request_uri ← heapStrDup m request_uri
  let local_ ← dialogCopyAddr m anchorp.local_
  return {
    cseq := anchorp.cache.cseq.val, method_type, request_target_addr := next_target, local_, routes
    timers := anchorp.timers, call_id, request_uri, contact_uri, from_uri, to_uri, local_tag
    remote_tag }

/-- The remote target, where to send to and the route set of a dialog made by an incoming INVITE. -/
def uasResolveTarget (m : Mem) (basep : Addr) (remote_targetp : Str) (record_routes : List Str) :
    ParamsM (Str × Addr × List Str) :=
  match record_routes with
  | [] => do
    let request_uri ← heapStrDup m remote_targetp
    let target_uri ← parseTargetUri m request_uri
    return (request_uri, setTargetFromUri basep target_uri, [])
  | first :: rest => do
    let first_route_raw ← heapStrDup m first
    let rrp ← Op.failWith .BADMSG (NameAddr.parse m first_route_raw)
    Op.require (rrp.addr_spec.l ≠ 0) .BADMSG
    let first_route_uri ← parseTargetUri m rrp.addr_spec
    let hp ← Op.get
    if uriHasParam (hp.mem m) first_route_uri (bytes "lr") then
      let _ ← Op.failWith .NOSPC (Heap.alloc (sizeofStr * record_routes.length))
      let request_uri ← heapStrDup m remote_targetp
      let routes ← Op.failWith .NOSPC (appendAll m record_routes)
      return (request_uri, setTargetFromUri basep first_route_uri, routes)
    else
      let _ ← Op.failWith .NOSPC (Heap.alloc (sizeofStr * record_routes.length))
      let request_uri ← heapStrDup m rrp.addr_spec
      let hp ← Op.get
      let request_uri := cutHeaders (hp.mem m) request_uri
      let routes ← Op.failWith .NOSPC (appendAll m rest)
      let last ← heapStrDup m remote_targetp
      let target_uri ← parseTargetUri m request_uri
      return (request_uri, setTargetFromUri basep target_uri, routes ++ [last])

/-- `usipy_sip_tm_init_uas_dialog_request_params`. -/
def initUasDialogRequestParams (tm : Tm) (anchor_index : Nat) (method_type : UInt8) :
    ParamsM DialogRequest := do
  let m := tm.mem
  let anchorp := tm.tx anchor_index
  let u := anchorp.cache.uas
  Op.assert (anchor_index < tm.max_transactions)
  Op.require anchorp.active .UNSUPPORTED
  Op.assert (anchorp.role = .UAS)
  Op.require (anchorp.isInvite ∧ anchorp.last_status_code < 200 ∧ anchorp.cache.to_tag.l ≠ 0 ∧
    anchorp.cache.from_tag.l ≠ 0 ∧ u.from_uri.l ≠ 0 ∧ u.to_uri.l ≠ 0) .UNSUPPORTED
  let remote_target := if u.contact_uri.l ≠ 0 then u.contact_uri else u.request_uri
  Op.require (remote_target.l ≠ 0) .BADMSG
  let (request_uri, next_target, routes) ←
    uasResolveTarget m anchorp.peer remote_target u.record_routes
  let call_id ← heapStrDup m anchorp.cache.call_id
  let contact_uri ← heapStrDup m
    (if u.local_contact_uri.l ≠ 0 then u.local_contact_uri else tm.luri)
  let from_uri ← heapStrDup m u.to_uri
  let to_uri ← heapStrDup m u.from_uri
  let local_tag ← heapStrDup m anchorp.cache.to_tag
  let remote_tag ← heapStrDup m anchorp.cache.from_tag
  let request_uri ← heapStrDup m request_uri
  let local_ ← dialogCopyAddr m anchorp.local_
  return {
    cseq := anchorp.cache.cseq.val, method_type, request_target_addr := next_target, local_, routes
    timers := anchorp.timers, call_id, request_uri, contact_uri, from_uri, to_uri, local_tag
    remote_tag }

end Microsippy
