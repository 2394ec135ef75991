import Microsippy.Tm.Uac

/-! # Server transactions

`usipy_sip_tm_uas.c`: the constructor and what it keeps of the request, responses, the matching of
requests, and a server transaction's turn of `usipy_sip_tm_run`.
-/

namespace Microsippy

set_option autoImplicit false

/-! ## Keeping a request -/

/-- `usipy_sip_tm_uas_copy_hdrs`. -/
def uasCopyHdrs (m : Mem) (srcp : List MsgHdr) : TxM (List Str) :=
  match srcp with
  | [] => pure []
  | _ => do
    let _ ← onScratch .NOSPC (Heap.alloc (sizeofStr * srcp.length))
    onScratch .NOSPC (appendAll m (srcp.map (·.value)))

/-- `usipy_sip_tm_uas_copy_nameaddr_without_param`. -/
def uasCopyNameaddrWithoutParam (m : Mem) (nap : NameAddr) (skip : Bytes) : TxM Str := do
  let tp ← Op.get
  let mem := tp.scratch.mem m
  let copy :=
    { nap with
      params := nap.params.filter fun pp => !(pp.token.l == skip.length && mem.read pp.token == skip) }
  let dst ← onScratch .NOSPC (Heap.build m (copy.build 0))
  let _ ← onScratch .NOSPC (Heap.alloc (NameAddr.sizeof nap.params.length))
  return dst

/-- `usipy_sip_tm_uas_rebase_substr`. -/
def uasRebaseSubstr (src_base dst_base srcp : Str) : Option Str :=
  if srcp.l = 0 then some Str.null
  else if srcp.src ≠ src_base.src ∨ srcp.off < src_base.off then none
  else
    let off := srcp.off - src_base.off
    if off > src_base.l ∨ srcp.l > src_base.l - off then none
    else some { src := dst_base.src, off := dst_base.off + off, l := srcp.l }

def modUasCache (f : UasCache → UasCache) : TxM Unit :=
  modCache fun c => { c with uas := f c.uas }

/-- The capacity of the arrays `usipy_sip_tm_uas_cache_request` collects headers in. -/
def uasMaxHdrs : Nat := 32

/-- `usipy_sip_tm_uas_cache_request`. -/
def uasCacheRequest (m : Mem) (reqp : Msg) (ruri : Str) (tid : Tid) : TxM Unit := do
  let mask := [Hf.FROM, .TO, .CSEQ] ++ if reqp.present .CONTACT then [.CONTACT] else []
  Op.require (reqp.parseHdrs mask false) .NOSPC
  let vias := reqp.hdrs.filter (·.hf_type == .VIA)
  let rrs := reqp.hdrs.filter (·.hf_type == .RECORDROUTE)
  Op.assert (vias.length ≤ uasMaxHdrs ∧ rrs.length ≤ uasMaxHdrs)
  let fromp ← Op.demand (reqp.top .FROM)
  let fromAddr ← Op.demand (Msg.nameaddrOf fromp)
  let top ← Op.demand (reqp.top .TO)
  let toAddr ← Op.demand (Msg.nameaddrOf top)
  let cseq ← Op.demand ((reqp.top .CSEQ).bind fun h =>
    match h.parsed with
    | some (.cseq c) => some c
    | _ => none)
  let via ← Op.orElse vias.head? .NOSPC
  let from_ ← onScratch .NOSPC (Heap.append m fromp.value)
  modUasCache fun u => { u with from_ }
  let to_ ← uasCopyNameaddrWithoutParam m toAddr (bytes "tag")
  modUasCache fun u => { u with to_ }
  let request_uri ← onScratch .NOSPC (Heap.append m ruri)
  modUasCache fun u => { u with request_uri }
  let from_uri ← Op.orElse (uasRebaseSubstr fromp.value from_ fromAddr.addr_spec) .NOSPC
  modUasCache fun u => { u with from_uri }
  let to_uri ← Op.orElse (uasRebaseSubstr top.value to_ toAddr.addr_spec) .NOSPC
  modUasCache fun u => { u with to_uri }
  let viaCopies ← uasCopyHdrs m vias
  modUasCache fun u => { u with vias := viaCopies }
  let branch ← Op.orElse (uasRebaseSubstr via.value (viaCopies.headD Str.null) tid.vbranch) .NOSPC
  modCache fun c => { c with branch }
  let record_routes ← uasCopyHdrs m rrs
  modUasCache fun u => { u with record_routes }
  let contact_uri ← (match (reqp.top .CONTACT).bind Msg.nameaddrOf with
    | some contact => onScratch .NOSPC (Heap.append m contact.addr_spec)
    | none => pure Str.null)
  modUasCache fun u => { u with contact_uri }
  let from_tag ← Op.orElse (uasRebaseSubstr fromp.value from_ tid.from_tag) .NOSPC
  modCache fun c => { c with from_tag, cseq }

/-- `usipy_sip_tm_uas_format_local_contact_uri`. -/
def uasFormatLocalContactUri (m : Mem) (localp : Addr) : TxM Str := do
  let host ← text m localp.host
  let uri ← Op.orElse (hostPortUri localp.af host localp.port) .NOSPC
  onScratch .NOSPC (Heap.sprintf uri)

/-- `usipy_sip_tm_uas_prepare_local_tag`. -/
def uasPrepareLocalTag (tm : Tm) (tx_index : Nat) (cseq : UInt32) (method_type : Method) :
    TxM Unit := do
  let to_tag ← (match tm.id_policy with
    | none => onScratch .NOSPC (Heap.sprintf (bytes "t" ++ dec tx_index ++ bytes "-1"))
    | some policy => do
      let ids ← callIdPolicy policy { transaction_index := tx_index, cseq, method_type }
      Op.require (ids.local_tag.l ≠ 0) .NOSPC
      return ids.local_tag)
  modCache fun c => { c with to_tag }

/-! ## Construction -/

/-- `struct usipy_sip_tm_new_uas_tr_params`. What its pointers point at may lie in the manager's own
slots, and is read when the constructor comes to it. -/
structure NewUasTrParams where
  request : Msg
  timers : Tm → Option TimerPolicy
  peer : Tm → Addr
  local_ : Tm → Addr
  callbacks : Option UasCallbacks := none

/-- `usipy_sip_tm_uas_method_hash`. -/
def uasMethodHash (m : Mem) (tp : Txi) (method_type : Method) : UInt32 :=
  tidHash m tp.id.call_id tp.id.from_tag tp.id.branch { val := tp.id.cseq, method := method_type }

/-- `usipy_sip_tm_find_uas_transaction`. -/
def findUasTransaction (tm : Tm) (tid : Tid) : Option Nat :=
  (List.range tm.max_transactions).find? fun i =>
    (tm.tx i).active && (tm.tx i).role == .UAS && tidMatchesTx tm.mem tid (tm.tx i)

/-- What `usipy_sip_tm_new_uas_tr` does to its slot before activating it. -/
def fillUasTr (tpp : NewUasTrParams) (method : Method) (ruri : Str) (tid : Tid) (tx_index : Nat)
    (tm : Tm) : TxM Unit := do
  let m := tm.mem
  modCtl fun c => { c with uas_callbacks := tpp.callbacks.getD {} }
  modCache fun c => { c with method_type := method }
  let call_id ← onScratch .NOSPC (Heap.append m tid.call_id)
  modCache fun c => { c with call_id }
  uasCacheRequest m tpp.request ruri tid
  let local_contact_uri ← uasFormatLocalContactUri m (tpp.local_ tm)
  modUasCache fun u => { u with local_contact_uri }
  uasPrepareLocalTag tm tx_index tid.cseq.val method
  let peer ← copyTargetAddr m (tpp.peer tm)
  Op.modify fun tp => { tp with peer }
  let local_ ← copyTargetAddr m (tpp.local_ tm)
  Op.modify fun tp => { tp with local_ }
  let cp ← onScratch .NOSPC Heap.checkpoint
  Op.modify fun tp => { tp with checkpoint := some cp }

/-- The control part of an activated slot with a request received. -/
def Ctl.uasActivated (reliable : Bool) (method : Method) (c : Ctl) : Ctl :=
  { c with
    role := .UAS, state := .TRYING
    reliable, terminated := false, abandoned := false, acked := false
    next_send_at_ms := TIME_NONE, method_type := method
    last_status_code := 0, request_retransmits := 0 }

/-- `usipy_sip_tm_new_uas_tr` from the activation on. -/
def activateUasSlot (i : Nat) (tid : Tid) (timers : Tm → Option TimerPolicy) : TmM Unit := do
  Op.modify (Tm.activate i 0)
  onSlot i fun tm => do
    Op.modify fun tp =>
      { tp with
        toCtl := tp.toCtl.uasActivated (tm.transport ≠ .UDP) tp.cache.method_type
        target := tp.peer, raw := Str.null, timers := .resolve (timers tm)
        id := {
          hash := tid.hash, branch := tp.cache.branch, call_id := tp.cache.call_id
          from_tag := tp.cache.from_tag, cseq := tid.cseq.val } }
    Op.modify fun tp =>
      let cancel_hash :=
        if tp.cache.method_type = .INVITE ∧ tp.uas_callbacks.cancel then
          uasMethodHash (tp.scratch.mem tm.mem) tp .CANCEL
        else 0
      { tp with cache := { tp.cache with uas := { tp.cache.uas with cancel_hash } } }

/-- `usipy_sip_tm_new_uas_tr`. -/
def newUasTr (tpp : NewUasTrParams) : TmM Nat := do
  let tm ← Op.get
  let (method, ruri) ← Op.demand (match tpp.request.sline with
    | .req method ruri => some (method, ruri)
    | .res _ => none)
  Op.require (method ≠ .generic ∧ method ≠ .ACK) .UNSUPPORTED
  let tid ← Op.orElse (tpp.request.getTid tm.mem) .BADMSG
  Op.require (findUasTransaction tm tid = none) .UNSUPPORTED
  let tx_index ← allocSlot
  filling tx_index (fillUasTr tpp method ruri tid tx_index)
  activateUasSlot tx_index tid tpp.timers
  return tx_index

/-! ## Responses -/

/-- `struct usipy_sip_status`. -/
structure Status where
  code : StatusCode
  reason_phrase : Str

/-- `struct usipy_sip_tm_uas_response_params`. -/
structure UasResponseParams where
  status : Status
  content_type : Option Str := none
  body : Option Str := none
  extra_headers : List ExtraHeader := []
  callbacks : Option UasCallbacks := none

/-- `usipy_sip_tm_uas_include_to_tag`. -/
def uasIncludeToTag (c : Cache) (code : Nat) : Bool := code ≠ 100 && c.to_tag.l ≠ 0

/-- `usipy_sip_tm_uas_copy_record_route`. -/
def uasCopyRecordRoute (c : Cache) (code : Nat) : Bool :=
  if c.method_type ≠ .INVITE then false
  else if 100 < code ∧ code < 200 then c.to_tag.l ≠ 0
  else decide (200 ≤ code ∧ code < 300)

/-- A header line with a value that is put as it is. -/
def headerLine (t : Hf) (value : List Chunk) : List Chunk :=
  [.put 0 (Str.lit (hdrDb t).name), .text ": "] ++ value ++ [.put 0 crlf]

/-- An extra header of a response. -/
def uasExtraLine (e : ExtraHeader) : List Chunk :=
  match Hf.ofNat? e.hf_type.toNat with
  | none => [.fail]
  | some t =>
    if (hdrDb t).cantype ≠ t ∨ e.value_kind ≠ .RAW then [.fail]
    else headerLine t [.put 0 (paramStr e.value)]

/-- `usipy_sip_tm_uas_build_response_cb`. -/
def uasBuildResponse (tm : Tm) (tp : Txi) (rpp : UasResponseParams) : List Chunk :=
  let c := tp.cache
  let code := rpp.status.code.1
  let content_type := paramStr rpp.content_type
  let body := paramStr rpp.body
  let server := tm.platform.server
  [.text "SIP/2.0 ", .put 0 (Str.lit (dec code ++ bytes " ")), .put 0 rpp.status.reason_phrase,
    .put 0 crlf] ++
  (c.uas.vias.map fun v => headerLine .VIA [.put 0 v]).flatten ++
  headerLine .FROM [.put 0 c.uas.from_] ++
  headerLine .TO ([.put 0 c.uas.to_] ++
    if uasIncludeToTag c code then [.text ";tag=", .put 0 c.to_tag] else []) ++
  headerLine .CALLID [.put 0 c.call_id] ++
  headerLine .CSEQ
    [.print 0 [Str.lit (dec c.cseq.val.toNat ++ bytes " "), Str.lit c.method_type.name]] ++
  (if uasCopyRecordRoute c code then
    (c.uas.record_routes.map fun r => headerLine .RECORDROUTE [.put 0 r]).flatten else []) ++
  (if c.method_type = .INVITE ∧ 200 ≤ code ∧ code < 300 then
    headerLine .CONTACT [.text "<",
      .put 0 (if c.uas.local_contact_uri.l = 0 then tm.luri else c.uas.local_contact_uri), .text ">"]
  else []) ++
  (if server.l ≠ 0 then headerLine .SERVER [.put 0 server] else []) ++
  (rpp.extra_headers.map uasExtraLine).flatten ++
  (if body.l ≠ 0 ∧ content_type.l ≠ 0 then headerLine .CONTENTTYPE [.put 0 content_type] else []) ++
  headerLine .CONTENTLENGTH [.put 0 (Str.lit (dec body.l))] ++
  [.put 0 crlf] ++
  (if body.l ≠ 0 then [.put 0 body] else [])

/-- The ACK hash of a response. -/
def uasAckHash (m : Mem) (tp : Txi) (code : Nat) : UInt32 :=
  if code < 200 ∨ tp.cache.method_type ≠ .INVITE then 0
  else if code < 300 then
    dialogTidHash m tp.id.call_id tp.id.from_tag tp.cache.to_tag tp.id.cseq .ACK
  else uasMethodHash m tp .ACK

/-- The checks of `usipy_sip_tm_send_uas_response` on a slot. -/
def uasMayAnswer (index : Nat) : TmM Unit := do
  let tm ← Op.get
  let tp := tm.tx index
  Op.assert (index < tm.max_transactions)
  Op.require tp.active .NOT_FOUND
  Op.assert (tp.role = .UAS)
  Op.require (tp.state ≠ .TERMINATED) .UNSUPPORTED
  Op.require (tp.last_status_code < 200) .UNSUPPORTED
  Op.assert tp.checkpoint.isSome

/-- The new response in the place of the one before. -/
def uasStoreResponse (rpp : UasResponseParams) (tm : Tm) : TxM Unit := do
  let tp ← Op.get
  rollbackTo tp.checkpoint
  let raw ← onScratch .NOSPC (Heap.build tm.mem (uasBuildResponse tm tp rpp))
  Op.modify fun tp => { tp with raw, target := tp.peer }

/-- `usipy_sip_tm_send_uas_response`. -/
def sendUasResponse (index : Nat) (rpp : UasResponseParams) : TmM Unit := do
  uasMayAnswer index
  let code := rpp.status.code.1
  onSlot index fun tm => do
    uasStoreResponse rpp tm
    let tp ← Op.get
    setCtl fun p c =>
      c.uasAnswered p tp.cache.method_type code (rpp.callbacks.getD {}).no_ack
    Op.modify fun tp =>
      { tp with
        cache := { tp.cache with
          uas := { tp.cache.uas with ack_hash := uasAckHash (tp.scratch.mem tm.mem) tp code } } }

/-- `usipy_sip_res_ok`. -/
def resOk : Status := ⟨⟨200, by decide⟩, Str.lit (bytes "OK")⟩

/-- `usipy_sip_res_req_term`. -/
def resReqTerm : Status := ⟨⟨487, by decide⟩, Str.lit (bytes "Request Terminated")⟩

/-- `usipy_sip_tm_uas_cancel_ok`. -/
def uasCancelOk (cancelp : Msg) (index : Nat) : TmM Unit := do
  let tm ← Op.get
  Op.assert (index < tm.max_transactions)
  Op.require (tm.tx index).active .NOT_FOUND
  Op.assert ((tm.tx index).role = .UAS)
  Op.require (tm.tx index).isInvite .UNSUPPORTED
  let cancel_index ← newUasTr {
    request := cancelp
    timers := fun tm => some (tm.tx index).timers
    peer := fun tm => (tm.tx index).peer
    local_ := fun tm => (tm.tx index).local_ }
  sendUasResponse cancel_index { status := resOk }

/-- `usipy_sip_tm_uas_tr_cancelled`. -/
def uasTrCancelled (cancelp : Msg) (index : Nat) (rpp : Option UasResponseParams) : TmM Unit := do
  uasCancelOk cancelp index
  sendUasResponse index (rpp.getD { status := resReqTerm })

/-! ## Matching requests -/

/-- `usipy_sip_tm_uas_ack_matches_tx`. -/
def uasAckMatchesTx (m : Mem) (tid : Tid) (to_tag : Option Str) (dialog_hash : UInt32) (tp : Txi) :
    Bool :=
  if tid.cseq.method ≠ .ACK ∨ tp.role ≠ .UAS ∨ !tp.isInvite ∨
      (tp.state ≠ .COMPLETED ∧ tp.state ≠ .ACCEPTED) ∨ tp.cache.uas.ack_hash = 0 then false
  else
    Str.eq m tid.call_id tp.id.call_id && Str.eq m tid.from_tag tp.id.from_tag &&
    tid.cseq.val == tp.id.cseq &&
    if 200 ≤ tp.last_status_code ∧ tp.last_status_code < 300 then
      match to_tag with
      | none => false
      | some tag =>
        tag.l ≠ 0 && dialog_hash == tp.cache.uas.ack_hash && Str.eq m tag tp.cache.to_tag
    else tid.hash == tp.cache.uas.ack_hash && Str.eq m tid.vbranch tp.id.branch

/-- `usipy_sip_tm_find_uas_ack_transaction`. -/
def findUasAckTransaction (tm : Tm) (msg : Msg) (tid : Tid) : Option Nat := do
  let hdrs ← msg.parseHdrsGet [.TO] true msg.hdrs.length
  let top ← hdrs.head?.bind Msg.nameaddrOf
  let to_tag := top.getParam tm.mem (bytes "tag")
  let dialog_hash :=
    match to_tag with
    | some tag =>
      if tag.l ≠ 0 then dialogTidHash tm.mem tid.call_id tid.from_tag tag tid.cseq.val .ACK else 0
    | none => 0
  (List.range tm.max_transactions).find? fun i =>
    (tm.tx i).active && uasAckMatchesTx tm.mem tid to_tag dialog_hash (tm.tx i)

/-- `usipy_sip_tm_uas_cancel_matches_tx`. -/
def uasCancelMatchesTx (m : Mem) (tid : Tid) (tp : Txi) : Bool :=
  tp.role == .UAS && tp.isInvite && tid.hash == tp.cache.uas.cancel_hash &&
    !([TxState.COMPLETED, .ACCEPTED, .CONFIRMED, .TERMINATED].contains tp.state) &&
    Str.eq m tid.call_id tp.id.call_id && Str.eq m tid.from_tag tp.id.from_tag &&
    Str.eq m tid.vbranch tp.id.branch && tid.cseq.val == tp.id.cseq

/-- `usipy_sip_tm_find_uas_cancel_transaction`. -/
def findUasCancelTransaction (tm : Tm) (tid : Tid) : Option Nat :=
  (List.range tm.max_transactions).find? fun i =>
    (tm.tx i).active && uasCancelMatchesTx tm.mem tid (tm.tx i)

/-- What `usipy_sip_tm_handle_incoming_request` finds a request to be. -/
inductive Incoming where
  /-- The ACK of a 2xx, and the owner of its INVITE. -/
  | ack2xx (index : Nat) (owner : Option Nat)
  /-- The ACK of another final response, handled. -/
  | ack (index : Nat)
  /-- A CANCEL, with whether the application is told. -/
  | cancel (index : Nat) (told : Bool)
  | retransmit (index : Nat)
  /-- A new request for the application. -/
  | new
  deriving DecidableEq, Repr

/-- `usipy_sip_tm_handle_incoming_request` up to what calls back. -/
def handleIncomingRequest (now : UInt64) (msg : Msg) (method : Method) (tid : Tid) :
    TmM Incoming := do
  let tm ← Op.get
  let ack := if method = .ACK then findUasAckTransaction tm msg tid else none
  let cancel := if method = .CANCEL then findUasCancelTransaction tm tid else none
  match ack, cancel, findUasTransaction tm tid with
  | some i, _, _ =>
    if 200 ≤ (tm.tx i).last_status_code ∧ (tm.tx i).last_status_code < 300 then
      onSlot i fun _ => modCtl fun c => { c with acked := true }
      return .ack2xx i (tm.tx i).uas_owner
    else
      onSlot i fun _ => setCtl fun p c => c.uasHandleAck p now
      return .ack i
  | none, some i, _ => return .cancel i (tm.tx i).uas_callbacks.cancel
  | none, none, some i =>
    onSlot i fun _ => Op.modify fun tp =>
      { tp with toCtl := tp.toCtl.requestRetransmitted now (tp.raw.l ≠ 0) }
    return .retransmit i
  | none, none, none =>
    Op.require tm.incoming_request .UNSUPPORTED
    return .new

/-! ## Running -/

/-- What a server transaction's turn comes to. -/
inductive UasTurn where
  /-- A timer fired; `no_ack` and the owner are for Timers H and L to tell. -/
  | timeout (timer : TimerKind) (no_ack : Bool) (owner : Option Nat)
  /-- Nothing is due. -/
  | idle
  /-- Its response is to be sent. -/
  | send
  deriving DecidableEq, Repr

/-- `usipy_sip_tm_uas_run` up to a callback or the sending. -/
def uasRun (index : Nat) (now : UInt64) : TmM UasTurn := do
  let tm ← Op.get
  let tp := tm.tx index
  if tp.timerDue now then
    onSlot index fun _ => modCtl Ctl.uasMarkTerminated
    return .timeout tp.timer.type tp.uas_callbacks.no_ack tp.uas_owner
  else if tp.state = .TERMINATED ∨ tp.notSending now then return .idle
  else
    onSlot index fun _ => modCtl (Ctl.startTimerL now)
    return .send

/-- `usipy_sip_tm_uas_run` after the sending; the owner to be told of an accepted INVITE's. -/
def uasSent (index : Nat) (now : UInt64) : TmM (Option Nat) := do
  let tm ← Op.get
  let tp := tm.tx index
  onSlot index fun _ => setCtl fun p c => c.uasSent p tp.cache.method_type now
  return if tp.state = .ACCEPTED then tp.uas_owner else none

/-- What a server transaction waits for. -/
def RunOut.considerUas (c : Ctl) (outp : RunOut) : RunOut :=
  (outp.consider c.next_send_at_ms).considerTimer c.timer

/-- What `usipy_sip_tm_uas_run` reports of a transaction it has sent for: of one with a final
response to an INVITE that is not a 2xx even without a report to make. -/
def uasSentReport (method : Method) (c : Ctl) (outp : Option RunOut) : Option (Option RunOut) :=
  if c.state = .ACCEPTED then
    some (outp.map fun o => (o.consider c.next_send_at_ms).consider c.timer.due_at_ms)
  else if c.uasIsInviteNon2xxFinal method then
    outp.map fun o =>
      let o := if c.reliable then o else o.consider c.next_send_at_ms
      some (o.consider c.timer.due_at_ms)
  else if 200 ≤ c.last_status_code ∧ !c.reliable then
    outp.map fun o => some (o.consider c.timer.due_at_ms)
  else some outp

/-! ## Owners -/

/-- `usipy_sip_tm_uas_lookup`. -/
def uasLookup (tm : Tm) (index : Nat) (owner : Option Nat) : Option Txi :=
  let tp := tm.tx index
  if index < tm.max_transactions ∧ tp.active ∧ tp.role = .UAS ∧
      (owner = none ∨ tp.uas_owner = owner) then some tp
  else none

/-- A change to the control part of a server transaction an owner may look up. -/
def onUas (index : Nat) (owner : Option Nat) (f : Ctl → Ctl) : TmM Unit := do
  let tm ← Op.get
  Op.require (uasLookup tm index owner).isSome .NOT_FOUND
  onSlot index fun _ => modCtl f

/-- `usipy_sip_tm_uas_set_owner`. -/
def uasSetOwner (index owner : Nat) : TmM Unit :=
  onUas index none fun c => { c with uas_owner := some owner }

/-- `usipy_sip_tm_uas_clear_owner`. -/
def uasClearOwner (index owner : Nat) : TmM Unit :=
  onUas index (some owner) fun c => { c with uas_owner := none }

/-- `usipy_sip_tm_uas_send_at`. -/
def uasSendAt (index owner : Nat) (at_ms : UInt64) : TmM Unit :=
  onUas index (some owner) fun c => { c with next_send_at_ms := at_ms }

end Microsippy
