import Microsippy.Dialog
import Microsippy.Lib.Run

/-! # Runs

The transaction manager with its application as a transition system. A step is a call of the
application, a turn of one slot inside `usipy_sip_tm_run`, or the return of a callback. A callback
is a frame on the stack, and while one is on top the application may call again. `send_to` is taken
to answer without calling back.
-/

namespace Microsippy

set_option autoImplicit false

/-- The calls of the application. -/
inductive Call where
  | newUacTr (tpp : NewUacTrParams)
  | newUasTr (tpp : NewUasTrParams)
  | newInDialogTransaction (tpp : NewInDialogParams)
  | nextTransaction (index : Nat) (payload : Option RequestPayload) (ehp : List ExtraHeader)
  | cancel (index : Nat)
  | sendUasResponse (index : Nat) (rpp : UasResponseParams)
  | uasCancelOk (cancelp : Msg) (index : Nat)
  | uasTrCancelled (cancelp : Msg) (index : Nat) (rpp : Option UasResponseParams)
  | dropTransaction (index : Nat)
  | setTimerPolicy (index : Nat) (policy : TimerPolicy)
  /-- `usipy_sip_tm_run`, with or without a report. -/
  | run (now : UInt64) (report : Bool)
  /-- `usipy_sip_tm_handle_incoming` of a message, none where it does not parse. -/
  | handleIncoming (now : UInt64) (msg : Option Msg)
  | dialogUacCtor (invite_index : Nat) (msg : Msg)
  | dialogUasCtor (invite_index : Nat) (rpp : UasResponseParams)
  | dialogSetNoAckHandler (d : Nat) (handler : Bool)
  | dialogDtor (d : Nat)
  | dialogAcceptUasBye (d tx_index : Nat) (msg : Msg)
  | dialogHandleUasTransaction (d tx_index : Nat) (msg : Msg)
  | dialogEnd (d : Nat) (cbp : Option UacCallbacks)

/-- What the system does next: a call, the next slot's turn with what `send_to` would answer, or a
callback's return. -/
inductive Label where
  | call (c : Call)
  | turn (rval : Int)
  | ret (rval : Int)

/-- What is under way. All but `run` are callbacks of the application. -/
inductive Frame where
  /-- `usipy_sip_tm_run` before the turn of slot `i`. -/
  | run (now : UInt64) (i : Nat) (outp : Option RunOut)
  /-- A timeout callback of transaction `born` in slot `index`. -/
  | uacTimeout (index : Nat) (rest : TimeoutRest) (born : Nat)
  /-- The no_ack callback of Timer H. -/
  | noAck
  /-- The no_ack callback of a dialog, and whether it has a handler to tell. -/
  | dialogNoAck (d : Nat) (handler : Bool)
  /-- The handler of a dialog ended for want of the ACK. -/
  | dialogHandler
  /-- A response callback of transaction `born` in slot `index`. -/
  | response (index : Nat) (code : StatusCode) (born : Nat)
  /-- The cancel callback of a server transaction. -/
  | uasCancel (index : Nat)
  /-- The callback for a new request. -/
  | incomingRequest (tid : Tid)

/-- `enum usipy_sip_tm_event`. -/
inductive TmEvent where
  | RESPONSE_1XX | RESPONSE_FINAL | ACK_RX | REQUEST_RX | REQUEST_RETRANSMIT
  deriving DecidableEq, Repr

/-- What a call answers. -/
inductive Answer where
  | ok
  | index (i : Nat)
  | run (outp : Option RunOut)
  | incoming (event : TmEvent) (index : Option Nat)
  deriving DecidableEq, Repr

/-- What can be seen of the system from outside. -/
inductive Event where
  | reply (r : Except TmError Answer)
  | send (index born : Nat) (raw : Bytes) (target : Addr) (rval : Int)
  | response (index born : Nat) (code : StatusCode)
  | timeout (index born : Nat) (timeout_id : TimeoutId)
  | noAck (index born : Nat)
  | uasCancel (index born : Nat)
  | incomingRequest
  | dialogNoAck (d : Nat)
  | dialogHandler (d : Nat)

structure World extends Sys where
  stack : List Frame := []
  log : List Event := []

namespace World

/-- Whether the application has the control. -/
def appTurn (w : World) : Bool :=
  match w.stack with
  | .run _ _ _ :: _ => false
  | _ => true

def emit (e : Event) (w : World) : World := { w with log := w.log ++ [e] }

def push (f : Frame) (w : World) : World := { w with stack := f :: w.stack }

/-- A computation on the manager and its dialogs, and what follows it. -/
def after {α : Type} (x : SysM α) (k : Except TmError α → World → Option World) (w : World) :
    Option World :=
  match x.run w.toSys with
  | none => none
  | some (r, s) => k r { w with toSys := s }

/-- A call answered. -/
def reply (r : Except TmError Answer) (w : World) : Option World := some (w.emit (.reply r))

/-- A call that answers at once, with an index. -/
def answerIndex (x : SysM Nat) : World → Option World := after x fun r w => w.reply (r.map .index)

def answerUnit (x : SysM Unit) : World → Option World :=
  after x fun r w => w.reply (r.map fun _ => .ok)

/-! ## Incoming messages -/

/-- The event a response is reported as. -/
def responseEvent (code : StatusCode) : TmEvent :=
  if code.1 < 200 then .RESPONSE_1XX else .RESPONSE_FINAL

/-- A response once its callback, if any, has returned. -/
def responseDone (index : Nat) (code : StatusCode) : World → Option World :=
  after (onTm (uacResponseDone index code)) fun r w =>
    w.reply (r.map fun _ => .incoming (responseEvent code) (some index))

def incomingResponse (now : UInt64) (msg : Msg) (code : StatusCode) (tid : Tid) :
    World → Option World :=
  after (onTm (handleIncomingResponse now msg code tid)) fun r w =>
    match r with
    | .error e => w.reply (.error e)
    | .ok (index, told) =>
      let born := (w.tm.tx index).born
      if told then some ((w.emit (.response index born code)).push (.response index code born))
      else w.responseDone index code

/-- A request that is new to the manager, once the application has seen it. -/
def requestDone (tid : Tid) (w : World) : Option World :=
  w.reply (.ok (.incoming .REQUEST_RX (findUasTransaction w.tm tid)))

def incomingRequest (now : UInt64) (msg : Msg) (method : Method) (tid : Tid) :
    World → Option World :=
  after (onTm (handleIncomingRequest now msg method tid)) fun r w =>
    match r with
    | .error e => w.reply (.error e)
    | .ok (.ack2xx index none) => w.reply (.ok (.incoming .ACK_RX (some index)))
    | .ok (.ack2xx index (some d)) =>
      w.after (dialogUasAcked d) fun r w =>
        w.reply (r.map fun _ => .incoming .ACK_RX (some index))
    | .ok (.ack index) => w.reply (.ok (.incoming .ACK_RX (some index)))
    | .ok (.cancel index told) =>
      if told then
        some ((w.emit (.uasCancel index (w.tm.tx index).born)).push (.uasCancel index))
      else w.reply (.ok (.incoming .REQUEST_RX (some index)))
    | .ok (.retransmit index) => w.reply (.ok (.incoming .REQUEST_RETRANSMIT (some index)))
    | .ok .new => some ((w.emit .incomingRequest).push (.incomingRequest tid))

/-- `usipy_sip_tm_handle_incoming`. -/
def handleIncoming (now : UInt64) (msg : Option Msg) (w : World) : Option World :=
  match msg with
  | none => w.reply (.error .PARSE)
  | some msg =>
    match msg.getTid w.tm.mem, msg.sline with
    | none, _ => w.reply (.error .BADMSG)
    | some tid, .res code => w.incomingResponse now msg code tid
    | some tid, .req method _ => w.incomingRequest now msg method tid

/-! ## The run -/

/-- The run going on with slot `i`. -/
def next (now : UInt64) (i : Nat) (outp : Option RunOut) (w : World) : Option World :=
  some (w.push (.run now i outp))

/-- The run ended. -/
def finish (r : Except TmError Unit) (outp : Option RunOut) (w : World) : Option World :=
  let outp := outp.map fun o => { o with error := match r with
    | .ok _ => none
    | .error e => some e }
  w.reply (r.map fun _ => .run outp)

/-- `send_to` called for a slot. -/
def send (i : Nat) (rval : Int) (w : World) : World :=
  let tp := w.tm.tx i
  w.emit (.send i tp.born (w.tm.mem.read tp.raw) tp.target rval)

/-- A client transaction's turn after its timeout callback. -/
def uacTimeoutDone (now : UInt64) (i index : Nat) (rest : TimeoutRest) (outp : Option RunOut) :
    World → Option World :=
  after (onTm (uacTimedOut index rest)) fun r w =>
    match r with
    | .error e => w.finish (.error e) outp
    | .ok _ => w.next now i (if rest = .expired then outp else outp.map RunOut.timeout)

/-- A client transaction's turn. -/
def uacVisit (now : UInt64) (i : Nat) (outp : Option RunOut) (rval : Int) :
    World → Option World :=
  after (onTm (uacRun i now)) fun r w =>
    match r with
    | .error e => w.finish (.error e) outp
    | .ok .over => w.next now (i + 1) outp
    | .ok .idle => w.next now (i + 1) (outp.map (RunOut.considerUac (w.tm.tx i).toCtl))
    | .ok (.timeout rest told timeout_id) =>
      let outp := if rest = .expired then outp.map fun o => (o.consider now).timeout else outp
      let born := (w.tm.tx i).born
      if told then
        some (((w.emit (.timeout i born timeout_id)).push (.run now (i + 1) outp)).push
          (.uacTimeout i rest born))
      else w.uacTimeoutDone now (i + 1) i rest outp
    | .ok .send =>
      let w := w.send i rval
      if rval ≠ 0 then w.finish (.error (.user rval)) outp
      else
        w.after (onTm (uacSent i now)) fun r w =>
          match r with
          | .error e => w.finish (.error e) outp
          | .ok bye =>
            let outp := outp.map fun o =>
              let o := if bye then o.consider now else o
              { o with nsent := o.nsent + 1 }.considerUac (w.tm.tx i).toCtl
            w.next now (i + 1) outp

/-- The last of `usipy_sip_dialog_uas_timeout`: the dialog ended, and its handler told. -/
def dialogGiveUp (d : Nat) (handler : Bool) (k : World → Option World) : World → Option World :=
  after (Op.attempt (ε := TmError) (dialogEnd d none)) fun _ w =>
    if handler then some ((w.emit (.dialogHandler d)).push .dialogHandler) else k w

/-- A frame of the run taken off, one more timeout reported. -/
def countTimeout (w : World) : Option World :=
  match w.stack with
  | .run now i outp :: stack => some { w with stack := .run now i (outp.map RunOut.timeout) :: stack }
  | _ => none

/-- Timer L told to a dialog. -/
def dialogTimeout (d : Nat) (w : World) : Option World :=
  match w.dialogs d with
  | none => none
  | some dp =>
    w.after (dialogUasTimeout d) fun r w =>
      match r with
      | .error _ | .ok none => some w
      | .ok (some true) =>
        some ((w.emit (.dialogNoAck d)).push (.dialogNoAck d dp.no_ack_handler))
      | .ok (some false) => w.dialogGiveUp d dp.no_ack_handler countTimeout

/-- A server transaction's turn. -/
def uasVisit (now : UInt64) (i : Nat) (outp : Option RunOut) (rval : Int) :
    World → Option World :=
  after (onTm (uasRun i now)) fun r w =>
    match r with
    | .error e => w.finish (.error e) outp
    | .ok .idle => w.next now (i + 1) (outp.map (RunOut.considerUas (w.tm.tx i).toCtl))
    | .ok (.timeout .H told _) =>
      let w := w.push (.run now (i + 1) outp)
      if told then some ((w.emit (.noAck i (w.tm.tx i).born)).push .noAck) else w.countTimeout
    | .ok (.timeout .L _ (some d)) => (w.push (.run now (i + 1) outp)).dialogTimeout d
    | .ok (.timeout _ _ _) => w.next now (i + 1) outp
    | .ok .send =>
      let w := w.send i rval
      if rval ≠ 0 then w.finish (.error (.user rval)) outp
      else
        let outp := outp.map fun o => { o with nsent := o.nsent + 1 }
        w.after (onTm (uasSent i now)) fun r w =>
          match r with
          | .error e => w.finish (.error e) outp
          | .ok owner =>
            w.after (match owner with
              | some d => dialogUasSent d now
              | none => pure ()) fun _ w =>
              let tp := w.tm.tx i
              match uasSentReport tp.cache.method_type tp.toCtl outp with
              | none => none
              | some outp => w.next now (i + 1) outp

/-- The turn of the next slot in `usipy_sip_tm_run`. -/
def visit (now : UInt64) (i : Nat) (outp : Option RunOut) (rval : Int) (w : World) :
    Option World :=
  if w.tm.max_transactions ≤ i then w.finish (.ok ()) outp
  else if !(w.tm.tx i).active then w.next now (i + 1) outp
  else
    match (w.tm.tx i).role with
    | .UAC => w.uacVisit now i outp rval
    | .UAS => w.uasVisit now i outp rval

/-! ## Steps -/

/-- A call of the application. -/
def perform (w : World) : Call → Option World
  | .newUacTr tpp => w.answerIndex (onTm (newUacTr tpp))
  | .newUasTr tpp => w.answerIndex (onTm (newUasTr tpp))
  | .newInDialogTransaction tpp => w.answerIndex (onTm (newInDialogTransaction tpp))
  | .nextTransaction index payload ehp => w.answerUnit (onTm (nextTransaction index payload ehp))
  | .cancel index => w.answerUnit (onTm (cancel index))
  | .sendUasResponse index rpp => w.answerUnit (onTm (sendUasResponse index rpp))
  | .uasCancelOk cancelp index => w.answerUnit (onTm (uasCancelOk cancelp index))
  | .uasTrCancelled cancelp index rpp => w.answerUnit (onTm (uasTrCancelled cancelp index rpp))
  | .dropTransaction index => w.answerUnit (onTm (dropTransaction index))
  | .setTimerPolicy index policy => w.answerUnit (onTm (setTimerPolicy index policy))
  | .run now report => some (w.push (.run now 0 (if report then some {} else none)))
  | .handleIncoming now msg => w.handleIncoming now msg
  | .dialogUacCtor index msg => w.answerIndex (dialogUacCtor index msg)
  | .dialogUasCtor index rpp => w.answerIndex (dialogUasCtor index rpp)
  | .dialogSetNoAckHandler d handler => w.answerUnit (dialogSetNoAckHandler d handler)
  | .dialogDtor d => w.answerUnit (dialogDtor d)
  | .dialogAcceptUasBye d index msg => w.answerUnit (dialogAcceptUasBye d index msg)
  | .dialogHandleUasTransaction d index msg =>
    w.answerUnit (dialogHandleUasTransaction d index msg)
  | .dialogEnd d cbp => w.answerIndex (dialogEnd d cbp)

/-- What follows the return of a callback, the frame taken off already. -/
def resume (w : World) (rval : Int) : Frame → Option World
  | .run _ _ _ => none
  | .uacTimeout index rest _ =>
    match w.stack with
    | .run now i outp :: stack =>
      { w with stack }.uacTimeoutDone now i index rest outp
    | _ => none
  | .noAck => w.countTimeout
  | .dialogNoAck d handler =>
    if rval ≠ 0 then w.countTimeout else w.dialogGiveUp d handler countTimeout
  | .dialogHandler => w.countTimeout
  | .response index code _ => w.responseDone index code
  | .uasCancel index => w.reply (.ok (.incoming .REQUEST_RX (some index)))
  | .incomingRequest tid => w.requestDone tid

/-- A step of the system, none where it cannot be taken or an assertion fails. -/
def step (w : World) : Label → Option World
  | .call c => if w.appTurn then w.perform c else none
  | .turn rval =>
    match w.stack with
    | .run now i outp :: stack => { w with stack }.visit now i outp rval
    | _ => none
  | .ret rval =>
    match w.stack with
    | [] => none
    | f :: stack => { w with stack }.resume rval f

/-- The world of a new manager. -/
def start (tm : Tm) : World := { tm }

/-- The states of a run, from the construction of the manager on, whose steps all meet a condition. -/
def ReachableBy (ok : World → Label → Prop) (w : World) : Prop :=
  ∃ p tm, Tm.ctor p = some tm ∧ Transition.Run step ok (start tm) w

/-- The states of any run. -/
def Reachable : World → Prop := ReachableBy fun _ _ => True

end World

/-! ## A sample system -/

namespace Sample

def str (s : String) : Str := Str.lit (bytes s)

/-- A manager of `n` slots on UDP port 5060 of 1.1.1.1. -/
def params (n : Nat) : CtorParams :=
  { sockname := some (.INET, bytes "1.1.1.1", 5060)
    transport := .UDP
    max_transactions := n
    incoming_request := true
    platform := { user_agent := Str.null, server := Str.null } }

/-- The address of the peer. -/
def peer : Addr := { af := .INET, port := 5060, transport := .UDP, host := str "h" }

/-- A request of a method to the peer. -/
def request (method : Method) : NewUacTrParams :=
  { request_id := { cseq := 1, method_type := method.cantype }
    request_target := { target := some peer }
    parties_by_username := { contact := some (str "a"), from_ := some (str "a"), to_ := some (str "b") } }

/-- The response to the first request of slot 0, from a dialog's peer at `sip:h`. -/
def response (code : StatusCode) (method : Method) : Msg :=
  { sline := .res code
    hdrs := [
      ⟨.VIA, Str.null, some (.via { params := [⟨str "branch", str "z9hG4bK-0-1"⟩] })⟩,
      ⟨.FROM, Str.null, some (.nameaddr { params := [⟨str "tag", str "t0"⟩] })⟩,
      ⟨.TO, Str.null, some (.nameaddr { params := [⟨str "tag", str "x"⟩] })⟩,
      ⟨.CONTACT, Str.null, some (.nameaddr { addr_spec := str "sip:h" })⟩,
      ⟨.CALLID, str "c0", some (.generic (str "c0"))⟩,
      ⟨.CSEQ, Str.null, some (.cseq { val := 1, method })⟩] }

/-- The state a sample manager of `n` slots is in after some steps. -/
def after (n : Nat) (ls : List Label) : Option World :=
  (Tm.ctor (params n)).bind fun tm => Transition.exec World.step (World.start tm) ls

theorem reachable_of_after {n : Nat} {ls : List Label} {w : World} (h : after n ls = some w) :
    w.Reachable := by
  obtain ⟨tm, hCtor, hExec⟩ := Option.bind_eq_some_iff.mp h
  exact ⟨params n, tm, hCtor, Transition.exec_run (fun _ _ => trivial) hExec⟩

/-- A state found by running, with what a test finds of it. -/
theorem exists_of_after {n : Nat} {ls : List Label} {test : World → Bool}
    (h : (after n ls).any test = true) : ∃ w : World, w.Reachable ∧ test w = true := by
  obtain ⟨w, hAfter, hTest⟩ := (Option.any_eq_true _ _).mp h
  exact ⟨w, reachable_of_after hAfter, hTest⟩

end Sample

end Microsippy
