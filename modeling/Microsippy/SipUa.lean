import Microsippy.Dialog

/-! # The user agent

`sip_ua/`: one call on top of the transaction manager and a dialog, a state at a time. A handler runs
up to where it calls `emit`; what it does after the callback returns is kept apart, so that the
callback may use the user agent again.
-/

namespace Microsippy

set_option autoImplicit false

/-- `enum usipy_sip_ua_state`. -/
inductive UaState where
  | IDLE | TRYING | DIALING | CONNECTED | DISCONNECTED
  deriving DecidableEq, Repr

/-- `enum usipy_sip_ua_emit_type`. -/
inductive UaEmitType where
  | DIAL | CONNECT | DISCONNECT
  deriving DecidableEq, Repr

/-- `struct usipy_sip_ua_dialing_request`. -/
structure DialingRequest where
  cseq : UInt32
  method_type : UInt8
  request_target_addr : Addr
  local_ : Addr
  contact_expires : UInt32
  invite_expires : UInt32
  callbacks : UacCallbacks
  timers : Option TimerPolicy
  request_call_id : Str
  request_uri : Str
  party_contact : Str
  party_from : Str
  party_to : Str
  content_type : Str
  body : Str
  auth_username : Str
  auth_password : Str
  auth_qop : Str
  auth_retry_started : Bool := false

/-- `struct usipy_sip_ua`; `dialogp` is the place of the dialog. -/
structure Ua where
  dialogp : Option Nat := none
  heap : Heap := {}
  state : UaState := .IDLE
  role : Role := .UAC
  tx_index : Option Nat := none
  dialingp : Option DialingRequest := none
  /-- Whether there is an `emit` callback. -/
  emit : Bool := true
  default_target : Option Addr := none

/-- A user agent with the manager and the dialogs it uses. -/
structure UaSys where
  sys : Sys
  ua : Ua

abbrev UaM := Op TmError UaSys

/-- `struct usipy_sip_ua_credentials`. -/
structure UaCredentials where
  username : Option Str := none
  password : Option Str := none
  qop : Option Str := none

/-- `struct usipy_sip_ua_dial_params`. -/
structure UaDialParams where
  request : NewUacTrParams
  auth : UaCredentials := {}
  to_user : Option Str := none

/-- `struct usipy_sip_ua_event`; a response's `unset` is a status code of 0. -/
inductive UaEvent where
  | DIAL (dial : UaDialParams)
  | CONNECT (response : UasResponseParams) (unset : Bool)
  | DISCONNECT (response : UasResponseParams) (unset : Bool)

/-- What a handler does after the callback returns: return `*indexp` as it is, or the transaction's
index, or what sending a response to a BYE comes to. -/
inductive UaAfter where
  | done (indexp : Option Nat)
  | index
  | respond (tx_index : Nat)
  deriving DecidableEq, Repr

/-- A call of `emit`. -/
structure UaEmit where
  type : UaEmitType
  transaction_index : Option Nat
  message : Option Msg := none
  after : UaAfter := .done none

/-- How far a handler comes: to its end, with `*indexp`, or to `emit`. -/
inductive UaOutcome where
  | returns (indexp : Option Nat)
  | emits (e : UaEmit)

/-- The credentials a challenge of a response is answered with, `usipy_sip_tm_gen_authz_hf` and its
parsing of the message included. -/
abbrev AuthzGen := Sys → Nat → Msg → DialingRequest → Except TmError ExtraHeader

namespace Ua

/-- `USIPY_SIP_UA_HEAP_SIZE`. -/
def heapSize : Nat := 1024

/-- `sizeof(struct usipy_sip_ua_dialing_request)`. -/
def sizeofDialingRequest : Nat := 384

/-- `usipy_sip_ua_clear_dialing_request`. -/
def clearDialingRequest (uap : Ua) : Ua :=
  { uap with heap := Heap.init none uap.heap.first heapSize 0, dialingp := none }

/-- `usipy_sip_ua_transition`. -/
def transition (state : UaState) (uap : Ua) : Ua := { uap with state }

def onSys {α : Type} (x : SysM α) : UaM α := Op.zoom UaSys.sys (fun sys s => { s with sys }) x

def modUa (f : Ua → Ua) : UaM Unit := Op.modify fun s => { s with ua := f s.ua }

/-- A heap operation of the user agent, whose strings are the caller's. -/
def onHeap {α : Type} (x : Mem → HeapM α) : UaM α := fun s =>
  Op.zoom (fun s => s.ua.heap) (fun heap s => { s with ua := { s.ua with heap } })
    (Op.failWith .NOSPC (x s.sys.tm.mem)) s

/-- `usipy_sip_ua_heap_str_dup_nullable`. -/
def heapStrDupNullable (srcp : Option Str) : UaM Str :=
  match srcp.filter (·.l ≠ 0) with
  | none => pure Str.null
  | some srcp => onHeap fun m => Heap.append m srcp

/-- `GET_HOST_OR_NULL`. -/
def hostOrNull (addrp : Option Addr) : Option Str :=
  (addrp.map (·.host)).filter (·.l ≠ 0)

/-- `usipy_sip_ua_build_request_target`. -/
def buildRequestTarget (targetp : Addr) (to_userp : Str) : UaM (Addr × Str) := do
  let host ← heapStrDupNullable (some targetp.host)
  let port := if targetp.port = 0 ∨ targetp.port = 5060 then [] else
    bytes ":" ++ dec targetp.port.toNat
  let request_uri ← onHeap fun m => Heap.sprintf
    (bytes "sip:" ++ cstr (m.read to_userp) ++ bytes "@" ++ cstr (m.read targetp.host) ++ port)
  return ({ targetp with host }, request_uri)

/-- `usipy_sip_ua_dialing_request_fill`. -/
def dialingRequestFill (requestp : NewUacTrParams) (authp : UaCredentials)
    (to_userp : Option Str) : UaM DialingRequest := do
  let request_target_addrp := requestp.request_target.target
  let request_target_hostp := hostOrNull request_target_addrp
  let request_call_id ← heapStrDupNullable requestp.request_id.call_id
  let local_host ← heapStrDupNullable (hostOrNull requestp.local_)
  let (request_target_addr, request_uri) ←
    (if requestp.request_target.request_uri.any (·.l ≠ 0) ∨ request_target_hostp.isSome then do
      let request_uri ← heapStrDupNullable requestp.request_target.request_uri
      let host ← heapStrDupNullable request_target_hostp
      return ({ request_target_addrp.getD {} with host }, request_uri)
    else do
      let s ← Op.get
      let targetp ← Op.orElse s.ua.default_target TmError.INVAL
      let to_userp ← Op.orElse (to_userp.filter (·.l ≠ 0)) TmError.INVAL
      buildRequestTarget targetp to_userp)
  let parties := requestp.parties_by_username
  let party_top := if parties.to_.any (·.l ≠ 0) then parties.to_ else to_userp
  let party_contact ← heapStrDupNullable parties.contact
  let party_from ← heapStrDupNullable parties.from_
  let party_to ← heapStrDupNullable party_top
  let content_type ← heapStrDupNullable (requestp.payload.bind (·.content_type))
  let body ← heapStrDupNullable (requestp.payload.bind (·.body))
  let auth_username ← heapStrDupNullable authp.username
  let auth_password ← heapStrDupNullable authp.password
  let auth_qop ← heapStrDupNullable authp.qop
  return {
    cseq := requestp.request_id.cseq, method_type := requestp.request_id.method_type
    request_target_addr, local_ := { requestp.local_.getD {} with host := local_host }
    contact_expires := requestp.contact_expires, invite_expires := requestp.invite_expires
    callbacks := requestp.callbacks.getD {}, timers := requestp.timers
    request_call_id, request_uri, party_contact, party_from, party_to, content_type, body
    auth_username, auth_password, auth_qop }

/-- `usipy_sip_ua_store_dialing_request`. -/
def storeDialingRequest (dialp : UaDialParams) : UaM Unit := do
  modUa clearDialingRequest
  let requestp := dialp.request
  let _ ← onHeap fun _ => Heap.alloc sizeofDialingRequest
  let to_userp := if dialp.to_user.any (·.l ≠ 0) then dialp.to_user
    else requestp.parties_by_username.to_
  let dp ← Op.cleanup (fun s => { s with ua := s.ua.clearDialingRequest })
    (dialingRequestFill requestp dialp.auth to_userp)
  modUa fun uap => { uap with dialingp := some dp }

/-- `usipy_sip_ua_fill_new_uac_tr_params`. -/
def fillNewUacTrParams (dp : DialingRequest) : NewUacTrParams where
  request_id := { call_id := some dp.request_call_id, cseq := dp.cseq, method_type := dp.method_type }
  request_target := { request_uri := some dp.request_uri, target := some dp.request_target_addr }
  local_ := some dp.local_
  parties_by_username :=
    { contact := some dp.party_contact, from_ := some dp.party_from, to_ := some dp.party_to }
  contact_expires := dp.contact_expires
  invite_expires := dp.invite_expires
  payload := some { content_type := some dp.content_type, body := some dp.body }
  callbacks := some dp.callbacks
  timers := dp.timers

/-- `usipy_sip_tm_get_transaction`. -/
def getTransaction (tm : Tm) (index : Nat) : Option Txi :=
  if index < tm.max_transactions ∧ (tm.tx index).active then some (tm.tx index) else none

/-- `usipy_sip_ua_bind_dialing_tx`. -/
def bindDialingTx (tx_index : Nat) : UaM Unit := do
  let s ← Op.get
  let dp ← Op.demand s.ua.dialingp
  if dp.request_call_id.l ≠ 0 then pure ()
  else
    let txp ← Op.orElse (getTransaction s.sys.tm tx_index) TmError.NOT_FOUND
    let request_call_id ← heapStrDupNullable (some txp.id.call_id)
    modUa fun uap => { uap with dialingp := some { dp with request_call_id } }

/-- `usipy_sip_ua_expect_transaction`. -/
def expectTransaction (tx_index : Nat) (role : Role) (method_type : Method) : UaM Unit := do
  let s ← Op.get
  let txp ← Op.orElse (getTransaction s.sys.tm tx_index) TmError.NOT_FOUND
  Op.require (txp.role = role ∧ txp.method_type = method_type) .UNSUPPORTED

/-- The state changed and `emit` called. -/
def enter (f : Ua → Ua) (e : Ua → UaEmit) : UaM UaOutcome := do
  modUa f
  let s ← Op.get
  return .emits (e s.ua)

/-- `usipy_sip_res_trying`. -/
def resTrying : Status := ⟨⟨100, by decide⟩, Str.lit (bytes "Trying")⟩

/-! ## IDLE -/

/-- `usipy_sip_ua_idle_on_transaction`. -/
def idleOnTransaction (tx_index : Nat) (msg : Msg) : UaM UaOutcome := do
  expectTransaction tx_index .UAS .INVITE
  onSys (onTm (sendUasResponse tx_index { status := resTrying }))
  enter (fun uap => { uap with role := .UAS, tx_index := some tx_index }.transition .TRYING)
    fun _ => { type := .DIAL, transaction_index := some tx_index, message := some msg }

/-- `usipy_sip_ua_idle_on_event`. -/
def idleOnEvent : UaEvent → UaM UaOutcome
  | .CONNECT _ _ => Op.fail .UNSUPPORTED
  | .DISCONNECT _ _ => Op.fail .UNSUPPORTED
  | .DIAL dialp => do
    storeDialingRequest dialp
    let s ← Op.get
    let dp ← Op.demand s.ua.dialingp
    let undo := fun s : UaSys => { s with ua := s.ua.clearDialingRequest }
    let tx_index ← Op.cleanup undo (onSys (onTm (newUacTr (fillNewUacTrParams dp))))
    let rval ← Op.attempt (ε := TmError) (bindDialingTx tx_index)
    match rval with
    | .error e => do
      let _ ← Op.attempt (ε := TmError) (onSys (onTm (dropTransaction tx_index)))
      Op.modify undo
      Op.fail e
    | .ok _ => do
      modUa fun uap => { uap with role := .UAC, tx_index := some tx_index }.transition .DIALING
      return .returns (some tx_index)

/-! ## TRYING -/

/-- `usipy_sip_ua_trying_no_ack`. -/
def tryingNoAck (bye_index : Nat) : UaM UaOutcome := do
  let s ← Op.get
  if s.ua.state ≠ .CONNECTED then return .returns none
  else
    enter (fun uap => { uap with tx_index := some bye_index }.transition .DISCONNECTED)
      fun _ => { type := .DISCONNECT, transaction_index := some bye_index }

/-- `usipy_sip_ua_trying_on_event`. -/
def tryingOnEvent : UaEvent → UaM UaOutcome
  | .DIAL _ => Op.fail .UNSUPPORTED
  | .CONNECT response unset => do
    let rpp := if unset then { response with status := resOk } else response
    Op.require (200 ≤ rpp.status.code.1 ∧ rpp.status.code.1 ≤ 299) .INVAL
    modUa fun uap => { uap with dialogp := none }
    let s ← Op.get
    let tx_index ← Op.orElse s.ua.tx_index TmError.UNSUPPORTED
    let d ← Op.failWith TmError.UNSUPPORTED (onSys (dialogUasCtor tx_index rpp))
    modUa fun uap => { uap with dialogp := some d }
    onSys (dialogSetNoAckHandler d true)
    enter (transition .CONNECTED) fun uap =>
      { type := .CONNECT, transaction_index := uap.tx_index, after := .index }
  | .DISCONNECT response unset => do
    let rpp := if unset then { response with status := resReqTerm } else response
    Op.require (300 ≤ rpp.status.code.1) .INVAL
    let s ← Op.get
    let tx_index ← Op.orElse s.ua.tx_index TmError.INVAL
    onSys (onTm (sendUasResponse tx_index rpp))
    enter (transition .DISCONNECTED) fun uap =>
      { type := .DISCONNECT, transaction_index := uap.tx_index, after := .index }

/-! ## DIALING -/

/-- `usipy_sip_ua_dialing_auth_retry`. -/
def dialingAuthRetry (gen : AuthzGen) (tx_index : Nat) (msg : Msg) : UaM Unit := do
  let s ← Op.get
  let dp ← Op.demand s.ua.dialingp
  Op.require (!dp.auth_retry_started && dp.auth_username.l ≠ 0 && dp.auth_password.l ≠ 0)
    .UNSUPPORTED
  match gen s.sys tx_index msg dp with
  | .error e => Op.fail e
  | .ok auth_hdr => do
    let payload := if dp.body.l ≠ 0 then
        some { content_type := some dp.content_type, body := some dp.body : RequestPayload }
      else none
    onSys (onTm (nextTransaction tx_index payload [auth_hdr]))
    modUa fun uap => { uap with dialingp := some { dp with auth_retry_started := true } }

/-- `usipy_sip_ua_dialing_on_event`. -/
def dialingOnEvent : UaEvent → UaM UaOutcome
  | .DIAL _ => Op.fail .UNSUPPORTED
  | .CONNECT _ _ => Op.fail .UNSUPPORTED
  | .DISCONNECT _ _ => do
    let s ← Op.get
    let tm := s.sys.tm
    match s.ua.tx_index with
    | none => pure ()
    | some index =>
      let txp := (getTransaction tm index).filter fun txp =>
        txp.role = .UAC ∧ txp.method_type = .INVITE ∧
          s.ua.dialingp.any fun dp => Str.eq tm.mem txp.id.call_id dp.request_call_id
      if txp.any (!·.abandoned) then onSys (onTm (cancel index)) else pure ()
    modUa clearDialingRequest
    enter (transition .DISCONNECTED) fun uap =>
      { type := .DISCONNECT, transaction_index := uap.tx_index, after := .index }

/-- The end of `usipy_sip_ua_dialing_on_tx_response`, for a final response. -/
def dialingFinal (tx_index : Nat) (msg : Msg) (scode : Nat) : UaM UaOutcome := do
  if scode < 300 then do
    let s ← Op.get
    (if s.ua.dialogp.isNone then do
      let d ← Op.failWith TmError.BADMSG (onSys (dialogUacCtor tx_index msg))
      modUa fun uap => { uap with dialogp := some d }
    else pure ())
    modUa clearDialingRequest
    enter (transition .CONNECTED) fun _ =>
      { type := .CONNECT, transaction_index := some tx_index, message := some msg }
  else do
    modUa clearDialingRequest
    enter (transition .DISCONNECTED) fun _ =>
      { type := .DISCONNECT, transaction_index := some tx_index, message := some msg }

/-- `usipy_sip_ua_dialing_on_tx_response`. -/
def dialingOnTxResponse (gen : AuthzGen) (tx_index : Nat) (msg : Msg) : UaM UaOutcome := do
  expectTransaction tx_index .UAC .INVITE
  let s ← Op.get
  match msg.sline with
  | .req _ _ => Op.fail .UNSUPPORTED
  | .res code => do
    Op.require (some tx_index = s.ua.tx_index) .UNSUPPORTED
    let scode := code.1
    if scode < 200 then return .returns none
    else if scode = 401 ∨ scode = 407 then do
      let rval ← Op.attempt (ε := TmError) (dialingAuthRetry gen tx_index msg)
      match rval with
      | .ok _ => return .returns none
      | .error _ => dialingFinal tx_index msg scode
    else dialingFinal tx_index msg scode

/-! ## CONNECTED -/

/-- `usipy_sip_ua_connected_on_transaction`. -/
def connectedOnTransaction (tx_index : Nat) (msg : Msg) : UaM UaOutcome := do
  let s ← Op.get
  let d ← Op.orElse s.ua.dialogp TmError.UNSUPPORTED
  onSys (dialogAcceptUasBye d tx_index msg)
  enter (fun uap => { uap with tx_index := some tx_index }.transition .DISCONNECTED) fun _ =>
    { type := .DISCONNECT, transaction_index := some tx_index, message := some msg
      after := .respond tx_index }

/-- `usipy_sip_ua_connected_on_event`. -/
def connectedOnEvent : UaEvent → UaM UaOutcome
  | .DIAL _ => Op.fail .UNSUPPORTED
  | .CONNECT _ _ => Op.fail .UNSUPPORTED
  | .DISCONNECT _ _ => do
    let s ← Op.get
    let d ← Op.orElse s.ua.dialogp TmError.UNSUPPORTED
    let indexp ← onSys (dialogEnd d none)
    enter (transition .DISCONNECTED) fun _ =>
      { type := .DISCONNECT, transaction_index := some indexp, after := .done (some indexp) }

/-! ## The operations -/

/-- `usipy_sip_ua_on_event`. -/
def onEvent (eventp : UaEvent) : UaM UaOutcome := do
  let s ← Op.get
  match s.ua.state with
  | .IDLE => idleOnEvent eventp
  | .TRYING => tryingOnEvent eventp
  | .DIALING => dialingOnEvent eventp
  | .CONNECTED => connectedOnEvent eventp
  | .DISCONNECTED => Op.fail .UNSUPPORTED

/-- `usipy_sip_ua_on_transaction`. -/
def onTransaction (tx_index : Nat) (msg : Msg) : UaM UaOutcome := do
  let s ← Op.get
  match s.ua.state with
  | .IDLE => idleOnTransaction tx_index msg
  | .CONNECTED => connectedOnTransaction tx_index msg
  | .TRYING => Op.fail .UNSUPPORTED
  | .DIALING => Op.fail .UNSUPPORTED
  | .DISCONNECTED => Op.fail .UNSUPPORTED

/-- `usipy_sip_ua_on_tx_response`. -/
def onTxResponse (gen : AuthzGen) (tx_index : Nat) (msg : Msg) : UaM UaOutcome := do
  let s ← Op.get
  match s.ua.state with
  | .DIALING => dialingOnTxResponse gen tx_index msg
  | .IDLE => Op.fail .UNSUPPORTED
  | .TRYING => Op.fail .UNSUPPORTED
  | .CONNECTED => Op.fail .UNSUPPORTED
  | .DISCONNECTED => Op.fail .UNSUPPORTED

/-- What follows a call of `emit`, with the response to a BYE as the callback left it. -/
def afterEmit (response : UasResponseParams) : UaAfter → UaM (Option Nat)
  | .done indexp => return indexp
  | .index => do
    let s ← Op.get
    return s.ua.tx_index
  | .respond tx_index => do
    onSys (onTm (sendUasResponse tx_index response))
    return none

/-- `usipy_sip_ua_ctor`. -/
def ctor (emit : Bool) (default_target : Option Addr) : Ua where
  heap := Heap.init none .zero heapSize 0
  emit
  default_target

end Ua

end Microsippy
