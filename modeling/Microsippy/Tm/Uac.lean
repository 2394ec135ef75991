import Microsippy.Tm.DialogParams

/-! # Client transactions

The other half of `usipy_sip_tm_uac.c`: the constructors, ACK, CANCEL and BYE on the manager's own
account, responses, and a client transaction's turn of `usipy_sip_tm_run`. What follows a callback
of the application is a function of its own.
-/

namespace Microsippy

set_option autoImplicit false

/-! ## Activation -/

/-- A slot made active and counted, for a transaction on its own or on behalf of another. -/
def Tm.activate (i created_for : Nat) (tm : Tm) : Tm :=
  { tm.set i { tm.tx i with active := true, born := tm.serial, created_for } with
    nactive := tm.nactive + 1
    serial := tm.serial + 1 }

/-- What follows a slot's activation: where it fails the slot is cleared, but stays counted. -/
def leaking {α : Type} (i : Nat) (x : TmM α) : TmM α :=
  Op.cleanup (fun tm => { tm.set i (tm.tx i).fini with leaked := tm.leaked + 1 }) x

/-- What precedes a slot's activation: where it fails the slot is cleared. -/
def filling {α : Type} (i : Nat) (x : Tm → TxM α) : TmM α :=
  onSlot i fun tm => Op.cleanup Txi.fini (x tm)

/-- `sizeof(struct usipy_sip_tm_uac_invite)`. -/
def sizeofUacInvite : Nat := 16

/-- The control part of an activated slot with a request of its own. -/
def Ctl.uacActivated (state : TxState) (reliable : Bool) (method : Method)
    (callbacks : UacCallbacks) (c : Ctl) : Ctl :=
  { c with
    role := .UAC, state, reliable, terminated := false, abandoned := false, acked := false
    next_send_at_ms := 0, method_type := method, last_status_code := 0, response_class := 0
    callbacks, invite := if method = .INVITE then some {} else none, unsent := true }

/-- `usipy_sip_tm_activate_uac_slot` up to the activation: the two addresses, and the checkpoint with
all that outlives a rebuilt request below it. -/
def reserveUacSlot (tm : Tm) (method : Method) (localp : Addr) (targetp : Option Addr) :
    TxM (Addr × Addr) := do
  let targetp ← Op.demand targetp
  let target ← copyTargetAddr tm.mem targetp
  let local_ ← (if localp.host.l ≠ 0 then copyTargetAddr tm.mem localp else pure tm.laddr)
  let _ ← (if method = .INVITE then onScratch .NOSPC (Heap.alloc sizeofUacInvite) else pure 0)
  let cp ← onScratch .NOSPC Heap.checkpoint
  Op.modify fun tp => { tp with checkpoint := some cp }
  return (target, local_)

/-- `usipy_sip_tm_activate_uac_slot` from the activation on. -/
def activateUacSlot (i : Nat) (state : TxState) (cseq : UInt32) (target local_ : Addr)
    (callbacks : UacCallbacks) (timers : TimerPolicy) : TmM Unit := do
  Op.modify (Tm.activate i 0)
  onSlot i fun tm => Op.modify fun tp =>
    { tp with
      toCtl := tp.toCtl.uacActivated state (tm.transport ≠ .UDP) tp.cache.method_type callbacks
      peer := target, local_, target, raw := Str.null, timers
      id := { call_id := tp.cache.call_id, from_tag := tp.cache.from_tag, cseq } }

/-! ## Constructors -/

/-- `struct usipy_sip_tm_new_uac_tr_params`. -/
structure NewUacTrParams where
  request_id : RequestId
  request_target : RequestTarget
  local_ : Option Addr := none
  parties_by_username : RequestParties := {}
  contact_expires : UInt32 := 0
  invite_expires : UInt32 := 0
  payload : Option RequestPayload := none
  callbacks : Option UacCallbacks := none
  timers : Option TimerPolicy := none

/-- The state a request starts in. -/
def initialState (method : Method) : TxState := if method = .INVITE then .CALLING else .TRYING

/-- What `usipy_sip_tm_new_uac_tr` keeps of its parameters. -/
def fillUacTr (tpp : NewUacTrParams) (mdp : Method) (tx_index : Nat) (tm : Tm) :
    TxM (Addr × Addr) := do
  let request_uri ← requestUriMaterialize tm tpp.request_target
  initUacRequest tm.mem tpp.request_id request_uri mdp
  prepareInitialCallId tm tx_index
  let localp := tpp.local_.getD {}
  initUacPartiesByUsername tm.mem (if localp.host.l ≠ 0 then localp else tm.laddr)
    tpp.parties_by_username
  modUacCache fun u =>
    { u with
      contact_expires := tpp.contact_expires
      invite_expires := if tpp.invite_expires ≠ 0 then tpp.invite_expires else 300 }
  reserveUacSlot tm mdp localp tpp.request_target.target

/-- `usipy_sip_tm_new_uac_tr`. -/
def newUacTr (tpp : NewUacTrParams) : TmM Nat := do
  let mdp ← lookupUacMethod tpp.request_id.method_type false
  let tx_index ← allocSlot
  let (target, local_) ← filling tx_index (fillUacTr tpp mdp tx_index)
  activateUacSlot tx_index (initialState mdp) tpp.request_id.cseq target local_
    (tpp.callbacks.getD {}) (.resolve tpp.timers)
  leaking tx_index (onSlot tx_index fun tm => buildRequest tm tx_index { payload := tpp.payload })
  return tx_index

/-- What `usipy_sip_tm_new_in_dialog_transaction` keeps of its parameters. -/
def fillInDialog (tpp : NewInDialogParams) (mdp : Method) (tm : Tm) : TxM (Addr × Addr) := do
  initUacRequest tm.mem tpp.request_id (paramStr tpp.request_target.request_uri) mdp
  initUacPartiesByUri tm.mem tpp.parties_by_uri tpp.dialog_tags
  let routes ← onScratch .NOSPC (copyRouteSet tm.mem tpp.route_set)
  modUacCache fun u => { u with routes }
  reserveUacSlot tm mdp (tpp.local_.getD {}) tpp.request_target.target

/-- Whether a parameter of an in-dialog request that has to be there is empty. -/
def NewInDialogParams.lacking (tpp : NewInDialogParams) : Bool :=
  [tpp.request_id.call_id, tpp.request_target.request_uri, tpp.parties_by_uri.contact,
    tpp.parties_by_uri.from_, tpp.parties_by_uri.to_, tpp.dialog_tags.local_tag,
    tpp.dialog_tags.remote_tag].any fun s => (paramStr s).l == 0

/-- The parameters an in-dialog request is asserted to have. -/
def NewInDialogParams.given (tpp : NewInDialogParams) : Bool :=
  [tpp.request_id.call_id, tpp.request_target.request_uri, tpp.parties_by_uri.contact,
    tpp.parties_by_uri.from_, tpp.parties_by_uri.to_, tpp.dialog_tags.local_tag,
    tpp.dialog_tags.remote_tag].all Option.isSome

/-- `usipy_sip_tm_new_in_dialog_transaction`. Whatever fails in the slot, it reports NOSPC. -/
def newInDialogTransaction (tpp : NewInDialogParams) : TmM Nat := do
  Op.assert tpp.given
  Op.require ((Method.ofByte? tpp.request_id.method_type).isSome ∧ !tpp.lacking) .INVAL
  let mdp ← lookupUacMethod tpp.request_id.method_type true
  let tx_index ← allocSlot
  let (target, local_) ← Op.failWith .NOSPC (filling tx_index (fillInDialog tpp mdp))
  activateUacSlot tx_index .TRYING tpp.request_id.cseq target local_ (tpp.callbacks.getD {})
    (.resolve tpp.timers)
  leaking tx_index (Op.failWith .NOSPC (onSlot tx_index fun tm => prepareIds tm tx_index))
  return tx_index

/-! ## ACK and CANCEL -/

/-- What an ACK or a CANCEL keeps of its INVITE. -/
def cloneCache (m : Mem) (srcp : Txi) (method : Method) : TxM Unit := do
  let call_id ← copyUri m srcp.cache.call_id
  modCache fun c => { c with call_id }
  copyParsedUri m srcp.cache.uac.request_uri
  let from_uri ← copyUri m srcp.cache.uac.from_uri
  modUacCache fun u => { u with from_uri }
  let to_uri ← copyUri m srcp.cache.uac.to_uri
  modUacCache fun u => { u with to_uri }
  let contact_uri ← copyUri m srcp.cache.uac.contact_uri
  modUacCache fun u => { u with contact_uri }
  modCache fun c => { c with method_type := method }
  let from_tag ← copyUri m srcp.cache.from_tag
  modCache fun c => { c with from_tag }
  let branch ← (if method = .CANCEL then copyUri m srcp.cache.branch else pure Str.null)
  modCache fun c => { c with branch, cseq := { c.cseq with val := srcp.cache.cseq.val, method } }
  modUacCache fun u =>
    { u with invite_expires := srcp.cache.uac.invite_expires, include_contact := false }

/-- The control part of a cloned slot, before its method is put in. -/
def Ctl.cloned (srcp : Ctl) (parent_index : Nat) (method : Method) (c : Ctl) : Ctl :=
  { c with
    parent_index := if method = .ACK then some parent_index else none
    role := .UAC
    state := if method = .ACK then .CALLING else .TRYING
    reliable := srcp.reliable, terminated := srcp.terminated, abandoned := false
    acked := srcp.acked, unsent := true }

/-- What follows the activation of a cloned slot. -/
def cloneRest (m : Mem) (srcp : Txi) (parent_index : Nat) (method : Method) : TxM Unit := do
  modCtl (Ctl.cloned srcp.toCtl parent_index method)
  let peer ← copyTargetAddr m srcp.peer
  Op.modify fun tp =>
    { tp with
      peer, local_ := srcp.local_, target := peer, raw := Str.null, next_send_at_ms := TIME_NONE }
  let cp ← onScratch .NOSPC Heap.checkpoint
  Op.modify fun tp =>
    { tp with
      checkpoint := some cp, timers := srcp.timers
      id := { tp.id with call_id := tp.cache.call_id, cseq := tp.cache.cseq.val }
      method_type := tp.cache.method_type }

/-- `usipy_sip_tm_clone_uac_invite` once it has its slot. -/
def cloneInto (child_index parent_index : Nat) (method : Method) : TmM Unit := do
  let tm ← Op.get
  let srcp := tm.tx parent_index
  filling child_index fun tm => cloneCache tm.mem srcp method
  Op.modify (Tm.activate child_index srcp.born)
  leaking child_index (onSlot child_index fun tm => cloneRest tm.mem srcp parent_index method)

/-- `usipy_sip_tm_clone_uac_invite`. -/
def cloneUacInvite (parent_index : Nat) (method : Method) : TmM Nat := do
  let child_index ← allocSlot
  cloneInto child_index parent_index method
  return child_index

/-- A slot freed, and no longer counted. -/
def Tm.uncount (i : Nat) (tm : Tm) : Tm :=
  { tm.set i (tm.tx i).fini with nactive := tm.nactive - 1 }

/-- `usipy_sip_tm_uac_arm_send_now`. -/
def uacArmSendNow (now : UInt64) : TxM Unit := modCtl fun c => { c with next_send_at_ms := now }

/-- The CANCEL of an INVITE that has had a provisional response. -/
def sendCancel (parent_index : Nat) : TmM Unit := do
  let cancel_index ← cloneUacInvite parent_index .CANCEL
  onSlot cancel_index fun _ => modCtl fun c => { c with callbacks := {} }
  Op.cleanup (Tm.uncount cancel_index)
    (Op.failWith .NOSPC (onSlot cancel_index fun tm => buildRequest tm cancel_index {}))
  onSlot parent_index fun _ => modCtl fun c => (c.setCancelState .ONWIRE).clearInviteTimeout
  onSlot cancel_index fun _ => uacArmSendNow 0

/-- `usipy_sip_tm_uac_start_cancel`. -/
def uacStartCancel (parent_index : Nat) : TmM Unit := do
  let tm ← Op.get
  let iv ← Op.demand (tm.tx parent_index).invite
  if iv.cancel_state = .ONWIRE then pure ()
  else if !iv.provisional_seen then
    onSlot parent_index fun _ => modCtl (Ctl.setCancelState .SCHEDULED)
  else sendCancel parent_index

/-- `usipy_sip_tm_uac_finish_abandoned`. -/
def uacFinishAbandoned : TxM Unit := do
  modCtl fun c => c.markTerminated.clearInviteTimeout
  releaseOutbound

/-- `usipy_sip_tm_uac_start_cancel` for an INVITE that is given up when no CANCEL can be had. -/
def startCancelOrFinish (index : Nat) : TmM Unit := do
  let r ← Op.attempt (ε := TmError) (uacStartCancel index)
  match r with
  | .ok _ => pure ()
  | .error _ => onSlot index fun _ => uacFinishAbandoned

/-- `usipy_sip_tm_uac_abandon`. -/
def uacAbandon (index : Nat) : TmM Unit := do
  let tm ← Op.get
  Op.assert (!(tm.tx index).abandoned)
  onSlot index fun _ => modCtl Ctl.abandon
  if (tm.tx index).retransmit_count = 0 then onSlot index fun _ => uacFinishAbandoned
  else startCancelOrFinish index

/-- `usipy_sip_tm_uac_arm_cleanup`. -/
def uacArmCleanup (now : UInt64) : TxM Unit := setCtl fun p c => c.armCleanup p now

/-! ## Responses -/

/-- `USIPY_SIP_TM_ABANDONED_HEAP_SIZE`. -/
def abandonedHeapSize : Nat := 1024

/-- A computation on a heap of its own, of which only the outcome is kept. -/
def onLocalHeap {σ α : Type} (len : Nat) (x : ParamsM α) : Op TmError σ α := fun s =>
  (x.run (Heap.init none .zero len 0)).map fun (r, _) => (r, s)

/-- A BYE queued behind the ACK of an abandoned INVITE's 2xx. -/
def Tm.queueBye (index ack_index bye_index : Nat) (tm : Tm) : Tm :=
  let bye := tm.tx bye_index
  let tm := tm.set bye_index
    { bye with
      next_send_at_ms := TIME_NONE, parent_index := some index, created_for := (tm.tx index).born }
  tm.set ack_index { tm.tx ack_index with child_index := some bye_index }

/-- `usipy_sip_tm_abandoned_uac`. -/
def abandonedUac (index : Nat) (msg : Msg) (sclass : Nat) : TmM Unit := do
  let tm ← Op.get
  let iv ← Op.demand (tm.tx index).invite
  if sclass ≠ 2 ∨ iv.bye_started then pure ()
  else
    let dialog ← onLocalHeap abandonedHeapSize
      (initUacDialogRequestParams tm index msg Method.BYE.cantype)
    let bye_index ← newInDialogTransaction { dialog with cseq := dialog.cseq + 1 }.getParams
    let tm ← Op.get
    let ack_index ← Op.demand (tm.tx index).child_index
    Op.modify (Tm.queueBye index ack_index bye_index)
    onSlot index fun _ => modCtl (Ctl.onInvite fun iv => { iv with bye_started := true })

/-- `usipy_sip_tm_apply_uac_2xx_ack_dialog`. -/
def applyUac2xxAckDialog (anchor_index : Nat) (msg : Msg) (tm : Tm) : TxM Unit := do
  let onAck {α : Type} (x : ParamsM α) : TxM α :=
    Op.zoom (fun tp : Txi => tp.scratch) (fun hp tp => { tp with scratch := hp }) x
  let tpp ← onAck (initUacDialogRequestParams tm anchor_index msg Method.ACK.cantype)
  let request_uri ← Op.attempt (ε := TmError) (onScratch .BADMSG (Uri.parse tm.mem tpp.request_uri))
  modUacCache fun u => { u with request_uri := request_uri.toOption }
  Op.require request_uri.toOption.isSome .BADMSG
  modUacCache fun u =>
    { u with
      from_uri := tpp.from_uri, to_uri := tpp.to_uri
      contact_uri := tpp.contact_uri, routes := tpp.routes }
  modCache fun c => { c with to_tag := tpp.remote_tag }
  Op.modify fun tp =>
    { tp with peer := tpp.request_target_addr, target := tpp.request_target_addr }

/-- `usipy_sip_tm_extract_response_to_tag`. -/
def extractResponseToTag (m : Mem) (msg : Msg) : Option Str := do
  let hdrs ← msg.parseHdrsGet [.TO] true 1
  let top ← hdrs.head?.bind Msg.nameaddrOf
  tagOf m top

/-- The ACK of an INVITE, made if there is none. -/
def ackOf (index : Nat) : TmM Nat := do
  let tm ← Op.get
  match (tm.tx index).child_index with
  | none => do
    let ack_index ← cloneUacInvite index .ACK
    onSlot index fun _ => modCtl fun c => { c with child_index := some ack_index }
    return ack_index
  | some ack_index => do
    Op.assert ((tm.tx ack_index).active ∧ (tm.tx ack_index).isAck)
    return ack_index

/-- What the ACK of a final response other than a 2xx takes from it and from the INVITE. -/
def applyNon2xxAck (tpBranch : Str) (msg : Msg) (tm : Tm) : TxM Unit := do
  let to_tag ← Op.orElse (extractResponseToTag tm.mem msg) .BADMSG
  let tp ← Op.get
  let branch ← (if tp.cache.branch.l = 0 then copyUri tm.mem tpBranch else pure tp.cache.branch)
  modCache fun c => { c with branch }
  let to_tag ← onScratch .NOSPC (Heap.append tm.mem to_tag)
  modCache fun c => { c with to_tag }

/-- The request of an ACK, unless it has one. -/
def prepareAck (index ack_index : Nat) (msg : Msg) (sclass : Nat) : TmM Unit := do
  let tm ← Op.get
  if (tm.tx ack_index).raw.l ≠ 0 then pure ()
  else
    onSlot ack_index fun tm =>
      if sclass = 2 then applyUac2xxAckDialog index msg tm
      else applyNon2xxAck (tm.tx index).cache.branch msg tm
    onSlot ack_index fun _ => do
      let cp ← onScratch .NOSPC Heap.checkpoint
      Op.modify fun tp => { tp with checkpoint := some cp }
    Op.failWith .NOSPC (onSlot ack_index fun tm => buildRequest tm ack_index {})

/-- `usipy_sip_tm_uac_handle_invite_final` after its first part: the ACK, and the BYE behind it. -/
def uacAckFinal (index : Nat) (msg : Msg) (sclass : Nat) (now : UInt64) : TmM Unit := do
  let ack_index ← ackOf index
  prepareAck index ack_index msg sclass
  let tm ← Op.get
  (if (tm.tx index).abandoned then abandonedUac index msg sclass else pure ())
  onSlot ack_index fun _ => uacArmSendNow now
  onSlot index fun _ => modCtl fun c => { c with final_reported := true }

/-- A response to a client transaction, up to the callback; whether it is to be delivered. -/
def uacResponded (i : Nat) (now : UInt64) (msg : Msg) (code : StatusCode) : TmM Bool := do
  let tm ← Op.get
  let tp := tm.tx i
  let sclass := code.1 / 100
  let invite_expires := tp.cache.uac.invite_expires
  if tp.isInvite ∧ sclass = 1 then
    if tp.final_reported then return false
    else
      onSlot i fun _ => Op.modify fun tp =>
        { tp with
          toCtl := (tp.toCtl.responded now code.1).provisional invite_expires, raw := Str.null }
      let iv ← Op.demand tp.invite
      (if iv.cancel_state = .SCHEDULED then do
        startCancelOrFinish i
        onSlot i fun _ => uacArmCleanup now
      else pure ())
      return true
  else if tp.isInvite then
    onSlot i fun _ => do
      setCtl fun p c => (c.responded now code.1).inviteFinal p now sclass
      Op.modify fun tp => { tp with raw := Str.null }
    uacAckFinal i msg sclass now
    return !tp.final_reported
  else if sclass = 1 then
    onSlot i fun _ => Op.modify fun tp =>
      { tp with toCtl := tp.toCtl.responded now code.1, raw := Str.null }
    return true
  else
    onSlot i fun _ => do
      setCtl fun p c => (c.responded now code.1).noninviteFinal p now
      Op.modify fun tp => { tp with raw := Str.null }
    return !tp.final_reported

/-- `usipy_sip_tm_handle_incoming_response` up to the callback: the transaction, and whether its
callback is to be told. -/
def handleIncomingResponse (now : UInt64) (msg : Msg) (code : StatusCode) (tid : Tid) :
    TmM (Nat × Bool) := do
  let tm ← Op.get
  let i ← Op.orElse ((List.range tm.max_transactions).find? fun i =>
    (tm.tx i).active && (tm.tx i).role == .UAC && tidMatchesTx tm.mem tid (tm.tx i)) .NOT_FOUND
  let deliver ← uacResponded i now msg code
  let tm ← Op.get
  return (i, deliver && (tm.tx i).callbacks.response)

/-- `usipy_sip_tm_handle_incoming_response` after the callback. -/
def uacResponseDone (i : Nat) (code : StatusCode) : TmM Unit := do
  let tm ← Op.get
  let tp := tm.tx i
  if 200 ≤ code.1 ∧ tp.state ≠ .CALLING ∧ ¬ tp.waitsForInviteAck then
    onSlot i fun _ => releaseOutbound
  else pure ()

/-! ## Running -/

/-- `usipy_sip_tm_tx_terminate_child` on the child link of slot `p`. Following links in a circle would
never end; more of them than there are slots is such a circle. -/
def txTerminateChild : Nat → Nat → TmM Unit
  | 0, _ => Op.assert False
  | fuel + 1, p => do
    let tm ← Op.get
    match (tm.tx p).child_index with
    | none => pure ()
    | some c => do
      Op.assert (c < tm.max_transactions)
      (if (tm.tx c).active then do
        txTerminateChild fuel c
        onSlot c fun _ => do
          modCtl fun c =>
            { c.markTerminated.clearTimer.clearInviteTimeout with
              parent_index := none, child_index := none }
          releaseOutbound
      else pure ())
      onSlot p fun _ => modCtl fun c => { c with child_index := none }

/-- `struct usipy_sip_tm_run_out`. -/
structure RunOut where
  error : Option TmError := none
  next_run_at_ms : UInt64 := TIME_NONE
  nsent : Nat := 0
  ntimeouts : Nat := 0
  deriving DecidableEq, Repr

namespace RunOut

/-- `usipy_sip_tm_run_out_consider`. -/
def consider (when_ms : UInt64) (outp : RunOut) : RunOut :=
  if when_ms = TIME_NONE then outp
  else if outp.next_run_at_ms = TIME_NONE ∨ when_ms < outp.next_run_at_ms then
    { outp with next_run_at_ms := when_ms }
  else outp

/-- `usipy_sip_tm_run_out_consider_timer`. -/
def considerTimer (t : Timer) (outp : RunOut) : RunOut :=
  if t.type = .NONE then outp else outp.consider t.due_at_ms

/-- `usipy_sip_tm_uac_consider_invite`. -/
def considerInvite (invite : Option UacInvite) (outp : RunOut) : RunOut :=
  match invite with
  | none => outp
  | some iv => outp.consider iv.timeout_at_ms

/-- All that a client transaction waits for. -/
def considerUac (c : Ctl) (outp : RunOut) : RunOut :=
  ((outp.consider c.next_send_at_ms).considerInvite c.invite).considerTimer c.timer

/-- One more timeout. -/
def timeout (outp : RunOut) : RunOut := { outp with ntimeouts := outp.ntimeouts + 1 }

end RunOut

/-- Where a client transaction's turn goes on once its timeout callback has returned. -/
inductive TimeoutRest where
  /-- An INVITE's deadline passed, and the INVITE is abandoned. -/
  | expired
  /-- The cleanup guard of an abandoned INVITE passed. -/
  | cleaned
  /-- The transaction timer fired. -/
  | timer
  deriving DecidableEq, Repr

/-- What a client transaction's turn comes to. -/
inductive UacTurn where
  /-- It is terminated. -/
  | over
  /-- A timeout, with whether the application is told. -/
  | timeout (rest : TimeoutRest) (told : Bool) (timeout_id : TimeoutId)
  /-- Nothing is due. -/
  | idle
  /-- Its request is to be sent. -/
  | send
  deriving DecidableEq, Repr

/-- `usipy_sip_tm_uac_expire_invite` once the deadline has passed, up to the callback. -/
def uacExpireInvite (index : Nat) (now : UInt64) : TmM UacTurn := do
  let tm ← Op.get
  let tp := tm.tx index
  let iv ← Op.demand tp.invite
  if !tp.abandoned then
    uacAbandon index
    onSlot index fun _ => uacArmCleanup now
    return .timeout .expired tp.callbacks.timeout iv.timeout_id
  else
    onSlot index fun _ => modCtl fun c => c.markTerminated.clearInviteTimeout
    return .timeout .cleaned tp.callbacks.timeout iv.timeout_id

/-- A transaction timer fired, up to the callback. -/
def uacTimerFired (index : Nat) : TmM UacTurn := do
  onSlot index fun _ => modCtl fun c => c.markTerminated.clearTimer
  let tm ← Op.get
  txTerminateChild (tm.max_transactions + 1) index
  let tm ← Op.get
  let tp := tm.tx index
  return .timeout .timer (!tp.final_reported && tp.callbacks.timeout) .NONE

/-- `usipy_sip_tm_uac_run` up to a callback or the sending. -/
def uacRun (index : Nat) (now : UInt64) : TmM UacTurn := do
  let tm ← Op.get
  if (tm.tx index).state = .TERMINATED ∨ (tm.tx index).terminated then return .over
  else
    onSlot index fun _ => uacArmCleanup now
    let tm ← Op.get
    let tp := tm.tx index
    if tp.inviteExpired now then uacExpireInvite index now
    else if tp.timerDue now then uacTimerFired index
    else if tp.notSending now then return .idle
    else
      (if tp.raw.l = 0 then onSlot index fun tm => buildRequest tm index {} else pure ())
      return .send

/-- `usipy_sip_tm_uac_run` after its timeout callback. -/
def uacTimedOut (index : Nat) (rest : TimeoutRest) : TmM Unit := do
  let tm ← Op.get
  match rest with
  | .expired => pure ()
  | .cleaned => onSlot index fun _ => releaseOutbound
  | .timer =>
    if (tm.tx index).state ≠ .CALLING then onSlot index fun _ => releaseOutbound else pure ()

/-- The BYE behind an ACK that was sent, sent next. -/
def Tm.armBye (index bye_index : Nat) (now : UInt64) (tm : Tm) : Tm :=
  let byep := tm.tx bye_index
  let tm := tm.set bye_index { byep with parent_index := none, next_send_at_ms := now }
  tm.set index { tm.tx index with child_index := none }

/-- `usipy_sip_tm_uac_run` after the sending; whether a BYE is to follow. -/
def uacSent (index : Nat) (now : UInt64) : TmM Bool := do
  onSlot index fun _ => setCtl fun p c => c.uacSent p now
  let tm ← Op.get
  match (tm.tx index).isAck, (tm.tx index).child_index with
  | true, some bye_index => do
    Op.modify (Tm.armBye index bye_index now)
    return true
  | _, _ => return false

/-! ## Retries and cancellation -/

/-- `usipy_sip_tm_tx_reset_uac_runtime`. -/
def txResetUacRuntime (tp : Txi) : Txi :=
  { tp with
    toCtl := tp.toCtl.resetUacRuntime
    id := { tp.id with hash := 0, branch := Str.null, from_tag := Str.null, cseq := tp.cache.cseq.val }
    raw := Str.null }

/-- The checks of `usipy_sip_tm_next_transaction` on a slot. -/
def nextAllowed (index : Nat) : TmM Unit := do
  let tm ← Op.get
  Op.require (index < tm.max_transactions) .INVAL
  Op.require (tm.tx index).active .NOT_FOUND
  Op.require (¬ (tm.tx index).abandoned) .UNSUPPORTED

/-- The child `usipy_sip_tm_next_transaction` leaves behind, if it is an ACK. -/
def detachAck (index : Nat) : TmM Unit := do
  let tm ← Op.get
  match (tm.tx index).child_index with
  | none => pure ()
  | some c => do
    Op.assert (c < tm.max_transactions)
    Op.require ((tm.tx c).active ∧ (tm.tx c).isAck) .UNSUPPORTED
    onSlot index fun _ => modCtl fun c => { c with child_index := none }

/-- A slot made ready for the next request of its transaction. -/
def renewed (tp : Txi) : Txi :=
  let cseq := tp.cache.cseq.val + 1
  txResetUacRuntime
    { tp with
      toCtl := tp.toCtl.transition
      cache := { tp.cache with cseq := { tp.cache.cseq with val := cseq } } }

/-- `usipy_sip_tm_next_transaction`. -/
def nextTransaction (index : Nat) (payload : Option RequestPayload) (ehp : List ExtraHeader) :
    TmM Unit := do
  nextAllowed index
  detachAck index
  let tm ← Op.get
  Op.assert ((tm.tx index).role = .UAC)
  Op.require (tm.tx index).transitionAllowed .UNSUPPORTED
  onSlot index fun tm => do
    Op.modify renewed
    prepareIds tm index
    buildRequest tm index { payload, extra_headers := ehp }

/-- `usipy_sip_tm_cancel`. -/
def cancel (index : Nat) : TmM Unit := do
  let tm ← Op.get
  let tp := tm.tx index
  Op.require (index < tm.max_transactions) .INVAL
  Op.require tp.active .NOT_FOUND
  Op.assert (tp.role = .UAC)
  Op.require (tp.isInvite ∧ tp.state ≠ .COMPLETED ∧ tp.state ≠ .TERMINATED) .UNSUPPORTED
  Op.require (tp.child_index = none ∧ !tp.final_reported) .UNSUPPORTED
  let iv ← Op.demand tp.invite
  Op.assert (!iv.app_cancelled)
  onSlot index fun _ => modCtl (Ctl.onInvite fun iv => { iv with app_cancelled := true })
  if tp.abandoned then pure () else uacAbandon index

end Microsippy
