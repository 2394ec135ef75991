import Microsippy.Tm.Uas

/-! # Dialogs

`usipy_sip_dialog.c`: a dialog made by an INVITE, the retransmission of its 2xx, and its BYE. A
dialog's heap is written only while the dialog is made, so its strings are literals.
-/

namespace Microsippy

set_option autoImplicit false

/-- `struct usipy_sip_dialog`. -/
structure Dialog where
  state : DialogRequest
  match_hash : UInt32
  invite_index : Option Nat
  retry_ms : UInt32 := 0
  ack_pending : Bool := false
  invite_callbacks : UasCallbacks := {}
  no_ack_handler : Bool := false
  ended : Bool := false

/-- The manager and the dialogs on it. A dialog that is destroyed leaves its place empty. -/
structure Sys where
  tm : Tm
  dialogs : Nat → Option Dialog := fun _ => none
  /-- The place of the next dialog. -/
  next_dialog : Nat := 0

abbrev SysM := Op TmError Sys

def onTm {α : Type} (x : TmM α) : SysM α := Op.zoom Sys.tm (fun tm s => { s with tm }) x

def Sys.setDialog (d : Nat) (dp : Option Dialog) (s : Sys) : Sys :=
  { s with dialogs := fun e => if e = d then dp else s.dialogs e }

/-- A dialog that has to be there still. -/
def getDialog (d : Nat) : SysM Dialog := do
  let s ← Op.get
  Op.demand (s.dialogs d)

def modDialog (d : Nat) (f : Dialog → Dialog) : SysM Unit := do
  let dp ← getDialog d
  Op.modify (Sys.setDialog d (some (f dp)))

/-- `USIPY_SIP_DIALOG_HEAP_SIZE`. -/
def dialogHeapSize : Nat := 1024

/-- `usipy_sip_dialog_store_state`. -/
def dialogStoreState (m : Mem) (srcp : DialogRequest) (invite_index : Option Nat) : Dialog :=
  { state := srcp
    match_hash := dialogHash m srcp.call_id srcp.remote_tag srcp.local_tag
    invite_index }

/-- A dialog put in its place. -/
def addDialog (dp : Dialog) : SysM Nat := do
  let s ← Op.get
  Op.modify fun s => { s.setDialog s.next_dialog (some dp) with next_dialog := s.next_dialog + 1 }
  return s.next_dialog

/-- `usipy_sip_dialog_match_uas_request`. -/
def dialogMatchUasRequest (m : Mem) (dp : Dialog) (msg : Msg) : Bool :=
  let parsed := fun t => (msg.top t).bind (·.parsed)
  match msg.sline, msg.parseHdrsGet [.CALLID, .FROM, .TO] true msg.hdrs.length with
  | .req _ _, some hdrs =>
    hdrs.length == 3 &&
    match parsed .CALLID, parsed .FROM, parsed .TO with
    | some (.generic call_id), some (.nameaddr fromp), some (.nameaddr top) =>
      match tagOf m fromp, tagOf m top with
      | some from_tag, some to_tag =>
        dialogHash m call_id from_tag to_tag == dp.match_hash &&
          Str.eq m call_id dp.state.call_id && Str.eq m from_tag dp.state.remote_tag &&
          Str.eq m to_tag dp.state.local_tag
      | _, _ => false
    | _, _, _ => false
  | _, _ => false

/-- `usipy_sip_dialog_uac_ctor`. -/
def dialogUacCtor (invite_index : Nat) (msg : Msg) : SysM Nat := Op.failWith TmError.fail do
  let s ← Op.get
  let tpp ← onLocalHeap dialogHeapSize
    (initUacDialogRequestParams s.tm invite_index msg Method.BYE.cantype)
  addDialog (dialogStoreState s.tm.mem tpp none)

/-- `usipy_sip_dialog_uas_sent`. -/
def dialogUasSent (d : Nat) (now : UInt64) : SysM Unit := do
  let dp ← getDialog d
  let index ← Op.demand dp.invite_index
  if !dp.ack_pending then pure ()
  else
    let r ← Op.attempt (ε := TmError) (onTm (uasSendAt index d (now + dp.retry_ms.toUInt64)))
    match r with
    | .error _ => pure ()
    | .ok _ => modDialog d fun dp =>
        let doubled := dp.retry_ms.toUInt64 * 2
        { dp with
          retry_ms := if doubled < dp.state.timers.t2_ms.toUInt64 then doubled.toUInt32
            else dp.state.timers.t2_ms }

/-- No more of the 2xx of the INVITE a dialog names, if that is still the dialog's. -/
def dialogHush (d : Nat) (invite_index : Option Nat) : SysM Unit :=
  match invite_index with
  | none => pure ()
  | some index => do
    let _ ← Op.attempt (ε := TmError) (onTm (uasSendAt index d TIME_NONE))
    pure ()

/-- `usipy_sip_dialog_uas_acked`. -/
def dialogUasAcked (d : Nat) : SysM Unit := do
  let dp ← getDialog d
  modDialog d fun dp => { dp with ack_pending := false }
  dialogHush d dp.invite_index

/-- `usipy_sip_dialog_end`. -/
def dialogEnd (d : Nat) (cbp : Option UacCallbacks) : SysM Nat := do
  let dp ← getDialog d
  Op.require (!dp.ended) .UNSUPPORTED
  let cseq := dp.state.cseq + 1
  let params := { dp.state with cseq, method_type := Method.BYE.cantype }.getParams
  let index ← onTm (newInDialogTransaction { params with callbacks := cbp })
  modDialog d fun dp => { dp with state := { dp.state with cseq }, ended := true }
  dialogUasAcked d
  return index

/-- `usipy_sip_dialog_uas_timeout` up to its no_ack callback: none where the dialog has nothing to
give up, or else whether there is that callback. -/
def dialogUasTimeout (d : Nat) : SysM (Option Bool) := do
  let s ← Op.get
  let dp ← getDialog d
  let owned := (dp.invite_index.bind fun index => uasLookup s.tm index (some d)).isSome
  if !owned || !dp.ack_pending then return none
  else
    dialogUasAcked d
    return some dp.invite_callbacks.no_ack

/-- `usipy_sip_dialog_uas_ctor`. -/
def dialogUasCtor (invite_index : Nat) (rpp : UasResponseParams) : SysM Nat :=
    Op.failWith TmError.fail do
  Op.require (200 ≤ rpp.status.code.1 ∧ rpp.status.code.1 ≤ 299) TmError.fail
  let s ← Op.get
  let tp ← Op.orElse (uasLookup s.tm invite_index none) .fail
  let invite_callbacks :=
    match rpp.callbacks with
    | none => tp.uas_callbacks
    | some cbs => { tp.uas_callbacks with no_ack := cbs.no_ack }
  let tpp ← onLocalHeap dialogHeapSize
    (initUasDialogRequestParams s.tm invite_index Method.BYE.cantype)
  onTm (sendUasResponse invite_index rpp)
  let s ← Op.get
  onTm (uasSetOwner invite_index s.next_dialog)
  addDialog
    { dialogStoreState s.tm.mem tpp (some invite_index) with
      invite_callbacks, ack_pending := true, retry_ms := tpp.timers.t1_ms }

/-- `usipy_sip_dialog_set_no_ack_handler`. -/
def dialogSetNoAckHandler (d : Nat) (handler : Bool) : SysM Unit :=
  modDialog d fun dp => { dp with no_ack_handler := handler }

/-- `usipy_sip_dialog_dtor`. -/
def dialogDtor (d : Nat) : SysM Unit := do
  let dp ← getDialog d
  match dp.invite_index with
  | none => pure ()
  | some index => do
    dialogUasAcked d
    let _ ← Op.attempt (ε := TmError) (onTm (uasClearOwner index d))
    pure ()
  Op.modify (Sys.setDialog d none)

/-- `usipy_sip_dialog_accept_uas_bye`. -/
def dialogAcceptUasBye (d tx_index : Nat) (msg : Msg) : SysM Unit := do
  let s ← Op.get
  let dp ← getDialog d
  Op.require (dialogMatchUasRequest s.tm.mem dp msg) .UNSUPPORTED
  let txp := s.tm.tx tx_index
  Op.require (tx_index < s.tm.max_transactions ∧ txp.active) .NOT_FOUND
  Op.require (txp.role = .UAS ∧ txp.method_type = .BYE ∧ msg.isRequest .BYE) .UNSUPPORTED
  modDialog d fun dp => { dp with ended := true }
  dialogUasAcked d

/-- `usipy_sip_dialog_handle_uas_transaction`. -/
def dialogHandleUasTransaction (d tx_index : Nat) (msg : Msg) : SysM Unit := do
  dialogAcceptUasBye d tx_index msg
  onTm (sendUasResponse tx_index { status := resOk })

end Microsippy
