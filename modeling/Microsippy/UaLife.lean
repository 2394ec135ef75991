import Microsippy.SipUa
import Microsippy.World

/-! # The life of a user agent

The operations of a user agent in any order, also from within its `emit` callback, and what is
emitted meanwhile.
-/

namespace Microsippy

set_option autoImplicit false

/-! ## What a handler does -/

/-- What a user agent is by its lifecycle. -/
structure Ua.Core where
  state : UaState
  role : Role
  tx_index : Option Nat
  emit : Bool
  deriving DecidableEq

namespace Ua

def core (uap : Ua) : Core := ⟨uap.state, uap.role, uap.tx_index, uap.emit⟩

/-- The transitions, by what is emitted on them. -/
inductive Goes : UaState → Option UaEmitType → UaState → Prop where
  | stays (st : UaState) : Goes st none st
  | dials : Goes .IDLE none .DIALING
  | rings : Goes .IDLE (some .DIAL) .TRYING
  | answers : Goes .TRYING (some .CONNECT) .CONNECTED
  | rejects : Goes .TRYING (some .DISCONNECT) .DISCONNECTED
  | connects : Goes .DIALING (some .CONNECT) .CONNECTED
  | fails : Goes .DIALING (some .DISCONNECT) .DISCONNECTED
  | ends : Goes .CONNECTED (some .DISCONNECT) .DISCONNECTED

/-- What a handler that starts in a state does: a failure changes nothing of the lifecycle, and
nothing that is emitted is followed by a failure. -/
def Lawful (st : UaState) (x : UaM UaOutcome) : Prop :=
  ∀ s r s', s.ua.state = st → Op.run x s = some (r, s') →
    match r with
    | .error _ => s'.ua.core = s.ua.core
    | .ok (.returns _) => s'.ua.emit = s.ua.emit ∧ Goes st none s'.ua.state
    | .ok (.emits e) => s'.ua.emit = s.ua.emit ∧ Goes st (some e.type) s'.ua.state ∧
        ∀ tx_index, e.after = .respond tx_index → s'.ua.state = .DISCONNECTED

def SameCore (s s' : UaSys) : Prop := s'.ua.core = s.ua.core

instance : IsPreorder UaSys SameCore where
  refl _ := rfl
  trans _ _ _ h h' := h'.trans h

theorem keeps_onSys {α : Type} (x : SysM α) : Op.Keeps SameCore (onSys x) := by
  intro s r s' hRun
  obtain ⟨sys, -, rfl⟩ := Op.zoom_some.mp hRun
  rfl

theorem keeps_onHeap {α : Type} (x : Mem → HeapM α) : Op.Keeps SameCore (onHeap x) := by
  intro s r s' hRun
  obtain ⟨heap, -, rfl⟩ := Op.zoom_some.mp hRun
  rfl

theorem keeps_modUa {f : Ua → Ua} (h : ∀ uap, (f uap).core = uap.core) :
    Op.Keeps SameCore (modUa f) := .modify fun s => h s.ua

theorem keeps_clear : Op.Keeps SameCore (modUa clearDialingRequest) := keeps_modUa fun _ => rfl

theorem keeps_expectTransaction (tx_index : Nat) (role : Role) (method_type : Method) :
    Op.Keeps SameCore (expectTransaction tx_index role method_type) :=
  .bind .get fun _ => .bind (.orElse _ _) fun _ => .require _ _

theorem keeps_strDup (srcp : Option Str) : Op.Keeps SameCore (heapStrDupNullable srcp) := by
  unfold heapStrDupNullable
  split
  · exact .pure _
  · exact keeps_onHeap _

theorem keeps_buildRequestTarget (targetp : Addr) (to_userp : Str) :
    Op.Keeps SameCore (buildRequestTarget targetp to_userp) :=
  .bind (keeps_strDup _) fun _ => .bind (keeps_onHeap _) fun _ => .pure _

theorem keeps_dialingRequestFill (requestp : NewUacTrParams) (authp : UaCredentials)
    (to_userp : Option Str) : Op.Keeps SameCore (dialingRequestFill requestp authp to_userp) := by
  refine .bind (keeps_strDup _) fun _ => .bind (keeps_strDup _) fun _ => .bind ?_ fun _ =>
    .bind (keeps_strDup _) fun _ => .bind (keeps_strDup _) fun _ => .bind (keeps_strDup _) fun _ =>
    .bind (keeps_strDup _) fun _ => .bind (keeps_strDup _) fun _ => .bind (keeps_strDup _) fun _ =>
    .bind (keeps_strDup _) fun _ => .bind (keeps_strDup _) fun _ => .pure _
  split
  · exact .bind (keeps_strDup _) fun _ => .bind (keeps_strDup _) fun _ => .pure _
  · exact .bind .get fun _ => .bind (.orElse _ _) fun _ => .bind (.orElse _ _) fun _ =>
      keeps_buildRequestTarget _ _

theorem keeps_storeDialingRequest (dialp : UaDialParams) :
    Op.Keeps SameCore (storeDialingRequest dialp) :=
  .bind keeps_clear fun _ => .bind (keeps_onHeap _) fun _ =>
    .bind (.cleanup (keeps_dialingRequestFill _ _ _) fun _ => rfl) fun _ => keeps_modUa fun _ => rfl

theorem keeps_bindDialingTx (tx_index : Nat) : Op.Keeps SameCore (bindDialingTx tx_index) := by
  refine .bind .get fun _ => .bind (.demand _) fun dp => ?_
  split
  · exact .pure ()
  · exact .bind (.orElse _ _) fun _ => .bind (keeps_strDup _) fun _ => keeps_modUa fun _ => rfl

theorem keeps_dialingAuthRetry (gen : AuthzGen) (tx_index : Nat) (msg : Msg) :
    Op.Keeps SameCore (dialingAuthRetry gen tx_index msg) := by
  refine .bind .get fun s => .bind (.demand _) fun dp => .bind (.require _ _) fun _ => ?_
  split
  · exact .fail _
  · exact .bind (keeps_onSys _) fun _ => keeps_modUa fun _ => rfl

theorem Lawful.bind {α : Type} {st : UaState} {x : UaM α} {f : α → UaM UaOutcome}
    (hx : Op.Keeps SameCore x) (hf : ∀ a, Lawful st (f a)) : Lawful st (x >>= f) := by
  intro s r s' hState hRun
  rw [Op.run_bind] at hRun
  cases hFirst : x.run s with
  | none =>
    rw [hFirst] at hRun
    cases hRun
  | some out =>
    obtain ⟨q, t⟩ := out
    have hSame : t.ua.core = s.ua.core := hx s q t hFirst
    rw [hFirst] at hRun
    cases q with
    | error e =>
      obtain ⟨rfl, rfl⟩ := Prod.mk.inj (Option.some.inj hRun)
      exact hSame
    | ok a =>
      have hState' : t.ua.state = st := (congrArg Core.state hSame).trans hState
      have hEmit : t.ua.emit = s.ua.emit := congrArg Core.emit hSame
      have hRest := hf a t r s' hState' hRun
      cases r with
      | error e => exact hRest.trans hSame
      | ok o =>
        cases o with
        | returns indexp => exact ⟨hRest.1.trans hEmit, hRest.2⟩
        | emits e => exact ⟨hRest.1.trans hEmit, hRest.2⟩

theorem Lawful.fail {st : UaState} (e : TmError) : Lawful st (Op.fail e) := by
  intro s r s' hState hRun
  obtain ⟨rfl, rfl⟩ := Prod.mk.inj (Option.some.inj hRun)
  rfl

theorem Lawful.returns {st : UaState} (indexp : Option Nat) :
    Lawful st (pure (.returns indexp)) := by
  intro s r s' hState hRun
  obtain ⟨rfl, rfl⟩ := Prod.mk.inj (Option.some.inj hRun)
  exact ⟨rfl, hState ▸ .stays _⟩

/-- The state changed last, and then `emit` called. -/
theorem Lawful.enter {st st' : UaState} {f : Ua → Ua} {e : Ua → UaEmit} {type : UaEmitType}
    (hState : ∀ uap, (f uap).state = st') (hKept : ∀ uap, (f uap).emit = uap.emit)
    (hType : ∀ uap, (e uap).type = type) (hGoes : Goes st (some type) st')
    (hAfter : ∀ uap tx_index, (e uap).after = .respond tx_index → st' = .DISCONNECTED) :
    Lawful st (Ua.enter f e) := by
  intro s r s' _ hRun
  obtain ⟨rfl, rfl⟩ := Prod.mk.inj (Option.some.inj hRun)
  constructor
  · exact hKept s.ua
  constructor
  · show Goes st (some (e (f s.ua)).type) (f s.ua).state
    rw [hState, hType]
    exact hGoes
  · intro tx_index h
    exact (hState s.ua).trans (hAfter _ tx_index h)

theorem Lawful.get {st : UaState} {f : UaSys → UaM UaOutcome}
    (hf : ∀ s, s.ua.state = st → Lawful st (f s)) : Lawful st (Op.get >>= f) := by
  intro s r s' hState hRun
  exact hf s hState s r s' hState hRun

/-! ## The handlers -/

theorem idleOnTransaction_lawful (tx_index : Nat) (msg : Msg) :
    Lawful .IDLE (idleOnTransaction tx_index msg) :=
  .bind (keeps_expectTransaction _ _ _) fun _ => .bind (keeps_onSys _) fun _ =>
    .enter (fun _ => rfl) (fun _ => rfl) (fun _ => rfl) .rings fun _ _ h => by cases h

theorem dialing_lawful (tx_index : Nat) :
    Lawful .IDLE (do
      modUa fun uap => { uap with role := .UAC, tx_index := some tx_index }.transition .DIALING
      return .returns (some tx_index)) := by
  intro s r s' hState hRun
  obtain ⟨rfl, rfl⟩ := Prod.mk.inj (Option.some.inj hRun)
  exact ⟨rfl, .dials⟩

theorem idleOnEvent_lawful (eventp : UaEvent) : Lawful .IDLE (idleOnEvent eventp) := by
  cases eventp with
  | CONNECT response unset => exact .fail _
  | DISCONNECT response unset => exact .fail _
  | DIAL dialp =>
    refine .bind (keeps_storeDialingRequest dialp) fun _ => .get fun s _ => .bind (.demand _) fun dp =>
      .bind (.cleanup (keeps_onSys _) fun _ => rfl) fun tx_index =>
      .bind (.attempt (keeps_bindDialingTx tx_index)) fun rval => ?_
    cases rval with
    | error e =>
      exact .bind (.attempt (keeps_onSys _)) fun _ => .bind
        (.modify (f := fun s : UaSys => { s with ua := s.ua.clearDialingRequest }) fun _ => rfl)
        fun _ => .fail e
    | ok _ => exact dialing_lawful tx_index

theorem tryingOnEvent_lawful (eventp : UaEvent) : Lawful .TRYING (tryingOnEvent eventp) := by
  cases eventp with
  | DIAL dialp => exact .fail _
  | CONNECT response unset =>
    exact .bind (.require _ _) fun _ => .bind (keeps_modUa fun _ => rfl) fun _ => .get fun s _ =>
      .bind (.orElse _ _) fun _ => .bind (.failWith (keeps_onSys _) _) fun _ =>
      .bind (keeps_modUa fun _ => rfl) fun _ => .bind (keeps_onSys _) fun _ =>
      .enter (fun _ => rfl) (fun _ => rfl) (fun _ => rfl) .answers fun _ _ h => by cases h
  | DISCONNECT response unset =>
    exact .bind (.require _ _) fun _ => .get fun s _ => .bind (.orElse _ _) fun _ =>
      .bind (keeps_onSys _) fun _ =>
        .enter (fun _ => rfl) (fun _ => rfl) (fun _ => rfl) .rejects fun _ _ _ => rfl

theorem dialingOnEvent_lawful (eventp : UaEvent) : Lawful .DIALING (dialingOnEvent eventp) := by
  cases eventp with
  | DIAL dialp => exact .fail _
  | CONNECT response unset => exact .fail _
  | DISCONNECT response unset =>
    have hGone : Lawful .DIALING (do
        modUa clearDialingRequest
        enter (transition .DISCONNECTED) fun uap =>
          { type := .DISCONNECT, transaction_index := uap.tx_index, after := .index }) :=
      .bind keeps_clear fun _ =>
        .enter (fun _ => rfl) (fun _ => rfl) (fun _ => rfl) .fails fun _ _ _ => rfl
    refine .get fun s _ => ?_
    dsimp only
    cases s.ua.tx_index with
    | none => exact hGone
    | some index =>
      dsimp only
      split
      · exact .bind (keeps_onSys _) fun _ => hGone
      · exact hGone

theorem dialingFinal_lawful (tx_index : Nat) (msg : Msg) (scode : Nat) :
    Lawful .DIALING (dialingFinal tx_index msg scode) := by
  unfold dialingFinal
  split
  · refine .get fun s _ => .bind ?_ fun _ => .bind keeps_clear fun _ =>
      .enter (fun _ => rfl) (fun _ => rfl) (fun _ => rfl) .connects fun _ _ h => by cases h
    split
    · exact .bind (.failWith (keeps_onSys _) _) fun _ => keeps_modUa fun _ => rfl
    · exact .pure ()
  · exact .bind keeps_clear fun _ =>
      .enter (fun _ => rfl) (fun _ => rfl) (fun _ => rfl) .fails fun _ _ _ => rfl

theorem dialingOnTxResponse_lawful (gen : AuthzGen) (tx_index : Nat) (msg : Msg) :
    Lawful .DIALING (dialingOnTxResponse gen tx_index msg) := by
  refine .bind (keeps_expectTransaction _ _ _) fun _ => .get fun s _ => ?_
  split
  · exact .fail _
  · refine .bind (.require _ _) fun _ => ?_
    dsimp only
    split
    · exact .returns none
    · split
      · refine .bind (.attempt (keeps_dialingAuthRetry gen tx_index msg)) fun rval => ?_
        cases rval with
        | ok _ => exact .returns none
        | error e => exact dialingFinal_lawful _ _ _
      · exact dialingFinal_lawful _ _ _

theorem connectedOnTransaction_lawful (tx_index : Nat) (msg : Msg) :
    Lawful .CONNECTED (connectedOnTransaction tx_index msg) :=
  .get fun _ _ => .bind (.orElse _ _) fun _ => .bind (keeps_onSys _) fun _ =>
    .enter (fun _ => rfl) (fun _ => rfl) (fun _ => rfl) .ends fun _ _ _ => rfl

theorem connectedOnEvent_lawful (eventp : UaEvent) : Lawful .CONNECTED (connectedOnEvent eventp) := by
  cases eventp with
  | DIAL dialp => exact .fail _
  | CONNECT response unset => exact .fail _
  | DISCONNECT response unset =>
    exact .get fun _ _ => .bind (.orElse _ _) fun _ => .bind (keeps_onSys _) fun _ =>
      .enter (fun _ => rfl) (fun _ => rfl) (fun _ => rfl) .ends fun _ _ _ => rfl

theorem tryingNoAck_lawful (st : UaState) (bye_index : Nat) : Lawful st (tryingNoAck bye_index) := by
  refine .get fun s hState => ?_
  split
  · exact .returns none
  · rename_i hUp
    obtain rfl := hState.symm.trans (not_not.mp hUp)
    exact .enter (fun _ => rfl) (fun _ => rfl) (fun _ => rfl) .ends fun _ _ _ => rfl

theorem onEvent_lawful (st : UaState) (eventp : UaEvent) : Lawful st (onEvent eventp) := by
  refine .get fun s hState => ?_
  rw [hState]
  cases st with
  | IDLE => exact idleOnEvent_lawful eventp
  | TRYING => exact tryingOnEvent_lawful eventp
  | DIALING => exact dialingOnEvent_lawful eventp
  | CONNECTED => exact connectedOnEvent_lawful eventp
  | DISCONNECTED => exact .fail _

theorem onTransaction_lawful (st : UaState) (tx_index : Nat) (msg : Msg) :
    Lawful st (onTransaction tx_index msg) := by
  refine .get fun s hState => ?_
  rw [hState]
  cases st with
  | IDLE => exact idleOnTransaction_lawful tx_index msg
  | TRYING => exact .fail _
  | DIALING => exact .fail _
  | CONNECTED => exact connectedOnTransaction_lawful tx_index msg
  | DISCONNECTED => exact .fail _

theorem onTxResponse_lawful (gen : AuthzGen) (st : UaState) (tx_index : Nat) (msg : Msg) :
    Lawful st (onTxResponse gen tx_index msg) := by
  refine .get fun s hState => ?_
  rw [hState]
  cases st with
  | DIALING => exact dialingOnTxResponse_lawful gen tx_index msg
  | IDLE => exact .fail _
  | TRYING => exact .fail _
  | CONNECTED => exact .fail _
  | DISCONNECTED => exact .fail _

theorem keeps_afterEmit (response : UasResponseParams) (after : UaAfter) :
    Op.Keeps SameCore (afterEmit response after) := by
  cases after with
  | done indexp => exact .pure _
  | index => exact .bind .get fun _ => .pure _
  | respond tx_index => exact .bind (keeps_onSys _) fun _ => .pure _

end Ua

/-! ## Any order of operations -/

/-- A user agent, the operations that are in `emit` or have not returned from it, and what was
emitted. -/
structure UaRun where
  us : UaSys
  frames : List UaAfter := []
  trace : List UaEmitType := []

/-- An operation of the user agent, the call of its no-ACK handler included. -/
inductive UaCall where
  | event (eventp : UaEvent)
  | transaction (tx_index : Nat) (msg : Msg)
  | tx_response (tx_index : Nat) (msg : Msg)
  | no_ack (bye_index : Nat)

/-- `ret` is the end of the innermost call of `emit`, with the response as the callback left it; `env`
is what anything else does to the manager and the dialogs. -/
inductive UaLabel where
  | call (c : UaCall)
  | ret (response : UasResponseParams)
  | env (sys : Sys)

def UaCall.op (gen : AuthzGen) : UaCall → UaM UaOutcome
  | .event eventp => Ua.onEvent eventp
  | .transaction tx_index msg => Ua.onTransaction tx_index msg
  | .tx_response tx_index msg => Ua.onTxResponse gen tx_index msg
  | .no_ack bye_index => Ua.tryingNoAck bye_index

namespace UaRun

def init (sys : Sys) (emit : Bool) (default_target : Option Addr) : UaRun where
  us := { sys, ua := Ua.ctor emit default_target }

/-- Without a callback nothing comes between the two parts of a handler. -/
def CanEnter (r : UaRun) : Prop := r.us.ua.emit = true ∨ r.frames = []

instance (r : UaRun) : Decidable r.CanEnter := inferInstanceAs (Decidable (_ ∨ _))

/-- How a handler ends, or the call of `emit`. -/
def outcome (r : UaRun) (us : UaSys) : Except TmError UaOutcome → UaRun
  | .error _ => { r with us }
  | .ok (.returns _) => { r with us }
  | .ok (.emits e) =>
    { us, frames := e.after :: r.frames
      trace := if us.ua.emit then r.trace ++ [e.type] else r.trace }

def answer (r : UaRun) (response : UasResponseParams) : UasResponseParams :=
  if r.us.ua.emit then response else { status := resOk }

def step (gen : AuthzGen) (r : UaRun) : UaLabel → Option UaRun
  | .call c => if r.CanEnter then ((c.op gen).run r.us).map fun out => r.outcome out.2 out.1 else none
  | .ret response =>
    match r.frames with
    | [] => none
    | after :: frames =>
      ((Ua.afterEmit (r.answer response) after).run r.us).map fun out => { r with us := out.2, frames }
  | .env sys => if r.CanEnter then some { r with us := { r.us with sys } } else none

/-- An operation returns an error, from before it calls `emit` or from after it. -/
inductive Fails (gen : AuthzGen) (r : UaRun) : UaLabel → TmError → Prop where
  | call {c : UaCall} {e : TmError} {us : UaSys} (h : (c.op gen).run r.us = some (.error e, us)) :
    Fails gen r (.call c) e
  | ret {response : UasResponseParams} {after : UaAfter} {frames : List UaAfter} {e : TmError}
    {us : UaSys} (hFrames : r.frames = after :: frames)
    (h : (Ua.afterEmit (r.answer response) after).run r.us = some (.error e, us)) :
    Fails gen r (.ret response) e

/-- What was emitted on the way to a state. -/
inductive Emitted : UaState → List UaEmitType → Prop where
  | idle : Emitted .IDLE []
  | dialing : Emitted .DIALING []
  | trying : Emitted .TRYING [.DIAL]
  | connected {dial : List UaEmitType} (h : dial.Sublist [.DIAL]) : Emitted .CONNECTED (dial ++ [.CONNECT])
  | disconnected {dial connect : List UaEmitType} (hDial : dial.Sublist [.DIAL])
    (hConnect : connect.Sublist [.CONNECT]) :
    Emitted .DISCONNECTED (dial ++ connect ++ [.DISCONNECT])

theorem Emitted.quiet {st st' : UaState} {trace : List UaEmitType} (h : Emitted st trace)
    (hGoes : Ua.Goes st none st') : Emitted st' trace := by
  cases hGoes with
  | stays => exact h
  | dials =>
    cases h
    exact .dialing

theorem Emitted.emit {st st' : UaState} {type : UaEmitType} {trace : List UaEmitType}
    (h : Emitted st trace) (hGoes : Ua.Goes st (some type) st') : Emitted st' (trace ++ [type]) := by
  cases hGoes with
  | rings =>
    cases h
    exact .trying
  | answers =>
    cases h
    exact .connected (.refl _)
  | rejects =>
    cases h
    have hTrace : Emitted .DISCONNECTED ([.DIAL] ++ [] ++ [.DISCONNECT]) :=
      .disconnected (.refl _) (List.nil_sublist _)
    exact hTrace
  | connects =>
    cases h
    have hTrace : Emitted .CONNECTED ([] ++ [.CONNECT]) := .connected (List.nil_sublist _)
    exact hTrace
  | fails =>
    cases h
    have hTrace : Emitted .DISCONNECTED ([] ++ [] ++ [.DISCONNECT]) :=
      .disconnected (List.nil_sublist _) (List.nil_sublist _)
    exact hTrace
  | ends =>
    cases h with
    | connected hDial => exact .disconnected hDial (.refl _)

theorem Emitted.grammar {st : UaState} {trace : List UaEmitType} (h : Emitted st trace) :
    ∃ dial connect : List UaEmitType, dial.Sublist [.DIAL] ∧ connect.Sublist [.CONNECT] ∧
      trace <+: dial ++ connect ++ [.DISCONNECT] := by
  cases h with
  | idle => exact ⟨[], [], List.nil_sublist _, List.nil_sublist _, List.nil_prefix⟩
  | dialing => exact ⟨[], [], List.nil_sublist _, List.nil_sublist _, List.nil_prefix⟩
  | trying => exact ⟨[.DIAL], [], .refl _, List.nil_sublist _, _, rfl⟩
  | connected hDial => exact ⟨_, [.CONNECT], hDial, .refl _, List.prefix_append _ _⟩
  | disconnected hDial hConnect => exact ⟨_, _, hDial, hConnect, List.prefix_refl _⟩

theorem Emitted.disconnect_mem {trace : List UaEmitType} (h : Emitted .DISCONNECTED trace) :
    .DISCONNECT ∈ trace := by
  cases h with
  | disconnected => exact List.mem_append_right _ (List.mem_singleton.mpr rfl)

structure Kept (r : UaRun) : Prop where
  emitted : r.us.ua.emit = true → Emitted r.us.ua.state r.trace
  silent : r.us.ua.emit = false → r.trace = []
  ended : ∀ tx_index, .respond tx_index ∈ r.frames → r.us.ua.state = .DISCONNECTED

theorem op_lawful (gen : AuthzGen) (st : UaState) (c : UaCall) : Ua.Lawful st (c.op gen) := by
  cases c with
  | event eventp => exact Ua.onEvent_lawful st eventp
  | transaction tx_index msg => exact Ua.onTransaction_lawful st tx_index msg
  | tx_response tx_index msg => exact Ua.onTxResponse_lawful gen st tx_index msg
  | no_ack bye_index => exact Ua.tryingNoAck_lawful st bye_index

theorem Kept.same {r r' : UaRun} (h : r.Kept) (hCore : r'.us.ua.core = r.us.ua.core)
    (hTrace : r'.trace = r.trace) (hFrames : ∀ a ∈ r'.frames, a ∈ r.frames) : r'.Kept := by
  have hState : r'.us.ua.state = r.us.ua.state := congrArg Ua.Core.state hCore
  have hEmit : r'.us.ua.emit = r.us.ua.emit := congrArg Ua.Core.emit hCore
  constructor
  · intro hOn
    rw [hState, hTrace]
    exact h.emitted (hEmit.symm.trans hOn)
  · intro hOff
    rw [hTrace]
    exact h.silent (hEmit.symm.trans hOff)
  · intro tx_index hMem
    rw [hState]
    exact h.ended tx_index (hFrames _ hMem)

end UaRun

theorem Ua.Goes.ended {st' : UaState} {o : Option UaEmitType} (h : Goes .DISCONNECTED o st') :
    o = none ∧ st' = .DISCONNECTED := by
  cases h with
  | stays => exact ⟨rfl, rfl⟩

namespace UaRun

variable {gen : AuthzGen} {r r' : UaRun}

/-- What a call of an operation comes to. -/
theorem Kept.call {c : UaCall} {out : Except TmError UaOutcome × UaSys} (h : r.Kept)
    (hRun : (c.op gen).run r.us = some out) : (r.outcome out.2 out.1).Kept := by
  obtain ⟨q, us⟩ := out
  have hLaw := op_lawful gen r.us.ua.state c r.us q us rfl hRun
  cases q with
  | error e => exact h.same hLaw rfl fun _ hMem => hMem
  | ok o =>
    cases o with
    | returns indexp =>
      obtain ⟨hEmit, hGoes⟩ := hLaw
      constructor
      · intro hOn
        exact (h.emitted (hEmit.symm.trans hOn)).quiet hGoes
      · intro hOff
        exact h.silent (hEmit.symm.trans hOff)
      · intro tx_index hMem
        rw [h.ended tx_index hMem] at hGoes
        exact hGoes.ended.2
    | emits e =>
      obtain ⟨hEmit, hGoes, hAfter⟩ := hLaw
      constructor
      · intro hOn
        have hOn' : us.ua.emit = true := hOn
        show Emitted us.ua.state (if us.ua.emit = true then r.trace ++ [e.type] else r.trace)
        rw [if_pos hOn']
        exact (h.emitted (hEmit.symm.trans hOn)).emit hGoes
      · intro hOff
        have hOff' : ¬us.ua.emit = true := fun hOn => Bool.false_ne_true (hOff.symm.trans hOn)
        show (if us.ua.emit = true then r.trace ++ [e.type] else r.trace) = []
        rw [if_neg hOff']
        exact h.silent (hEmit.symm.trans hOff)
      · intro tx_index hMem
        obtain hEq | hRest := List.mem_cons.mp hMem
        · exact hAfter tx_index hEq.symm
        · rw [h.ended tx_index hRest] at hGoes
          cases hGoes.ended.1

/-- What a step can do. -/
inductive Steps (gen : AuthzGen) (r : UaRun) : UaLabel → UaRun → Prop where
  | call {c : UaCall} {out : Except TmError UaOutcome × UaSys}
    (hRun : (c.op gen).run r.us = some out) : Steps gen r (.call c) (r.outcome out.2 out.1)
  | ret {response : UasResponseParams} {after : UaAfter} {frames : List UaAfter}
    {out : Except TmError (Option Nat) × UaSys} (hFrames : r.frames = after :: frames)
    (hRun : (Ua.afterEmit (r.answer response) after).run r.us = some out) :
    Steps gen r (.ret response) { r with us := out.2, frames }
  | env {sys : Sys} : Steps gen r (.env sys) { r with us := { r.us with sys } }

theorem step_steps {l : UaLabel} (hStep : step gen r l = some r') : Steps gen r l r' := by
  cases l with
  | call c =>
    rw [step] at hStep
    split at hStep
    · obtain ⟨out, hRun, rfl⟩ := Option.map_eq_some_iff.mp hStep
      exact .call hRun
    · cases hStep
  | ret response =>
    rw [step] at hStep
    split at hStep
    · cases hStep
    · rename_i after frames hFrames
      obtain ⟨out, hRun, rfl⟩ := Option.map_eq_some_iff.mp hStep
      exact .ret hFrames hRun
  | env sys =>
    rw [step] at hStep
    split at hStep
    · obtain rfl := Option.some.inj hStep
      exact .env
    · cases hStep

theorem Kept.step {l : UaLabel} (h : r.Kept) (hStep : step gen r l = some r') : r'.Kept := by
  cases step_steps hStep with
  | call hRun => exact h.call hRun
  | ret hFrames hRun =>
    refine h.same (Ua.keeps_afterEmit _ _ _ _ _ hRun) rfl fun a hMem => ?_
    rw [hFrames]
    exact List.mem_cons_of_mem _ hMem
  | env => exact h.same rfl rfl fun _ hMem => hMem

theorem kept_init (sys : Sys) (emit : Bool) (default_target : Option Addr) :
    (init sys emit default_target).Kept := by
  constructor
  · intro _
    exact .idle
  · intro _
    rfl
  · intro tx_index hMem
    cases hMem

/-- A user agent that is over stays so, and is silent. -/
theorem over_step {l : UaLabel} (hOver : r.us.ua.state = .DISCONNECTED)
    (hStep : step gen r l = some r') : r'.us.ua.state = .DISCONNECTED ∧ r'.trace = r.trace := by
  cases step_steps hStep with
  | env => exact ⟨hOver, rfl⟩
  | ret hFrames hRun =>
    exact ⟨(congrArg Ua.Core.state (Ua.keeps_afterEmit _ _ _ _ _ hRun)).trans hOver, rfl⟩
  | @call c out hRun =>
    obtain ⟨q, us⟩ := out
    have hLaw := op_lawful gen .DISCONNECTED c r.us q us hOver hRun
    cases q with
    | error e => exact ⟨(congrArg Ua.Core.state hLaw).trans hOver, rfl⟩
    | ok o =>
      cases o with
      | returns indexp => exact ⟨hLaw.2.ended.2, rfl⟩
      | emits e => cases hLaw.2.1.ended.1

theorem over_run (hOver : r.us.ua.state = .DISCONNECTED)
    (hRun : Transition.Run (step gen) (fun _ _ => True) r r') :
    r'.us.ua.state = .DISCONNECTED ∧ r'.trace = r.trace := by
  induction hRun with
  | refl => exact ⟨hOver, rfl⟩
  | snoc _ _ hStep ih =>
    obtain ⟨hStays, hTrace⟩ := over_step ih.1 hStep
    exact ⟨hStays, hTrace.trans ih.2⟩

/-- Only the response to a BYE fails after a call of `emit`. -/
theorem afterEmit_error {response : UasResponseParams} {after : UaAfter} {us us' : UaSys} {e : TmError}
    (hRun : (Ua.afterEmit response after).run us = some (.error e, us')) :
    ∃ tx_index, after = .respond tx_index := by
  cases after with
  | done indexp => cases hRun
  | index => cases hRun
  | respond tx_index => exact ⟨tx_index, rfl⟩

/-- An operation that returns an error changes nothing of the lifecycle. -/
theorem fails_step {l : UaLabel} {e : TmError} (hFails : r.Fails gen l e)
    (hStep : step gen r l = some r') : r'.us.ua.core = r.us.ua.core ∧ r'.trace = r.trace := by
  cases step_steps hStep with
  | env => exact ⟨rfl, rfl⟩
  | ret hFrames hRun => exact ⟨Ua.keeps_afterEmit _ _ _ _ _ hRun, rfl⟩
  | @call c out hRun =>
    cases hFails with
    | call hError =>
      obtain rfl := Option.some.inj (hError.symm.trans hRun)
      exact ⟨op_lawful gen _ c r.us _ _ rfl hError, rfl⟩

theorem fails_ret {response : UasResponseParams} {e : TmError} (h : r.Kept)
    (hFails : r.Fails gen (.ret response) e) :
    ∃ tx_index frames, r.frames = .respond tx_index :: frames ∧
      (r.us.ua.emit = true → .DISCONNECT ∈ r.trace) := by
  cases hFails with
  | @ret _ after frames _ us hFrames hError =>
    obtain ⟨tx_index, rfl⟩ := afterEmit_error hError
    refine ⟨tx_index, frames, hFrames, fun hOn => ?_⟩
    have hMem : UaAfter.respond tx_index ∈ r.frames := hFrames ▸ List.mem_cons_self
    have hEmitted := h.emitted hOn
    rw [h.ended tx_index hMem] at hEmitted
    exact hEmitted.disconnect_mem

/-- The life of a user agent, over any order of its operations and of what else happens to the manager
and the dialogs. -/
theorem lifecycle (gen : AuthzGen) (sys : Sys) (emit : Bool) (default_target : Option Addr) (r : UaRun)
    (hRun : Transition.Run (step gen) (fun _ _ => True) (init sys emit default_target) r) :
    (∃ dial connect : List UaEmitType, dial.Sublist [.DIAL] ∧ connect.Sublist [.CONNECT] ∧
      r.trace <+: dial ++ connect ++ [.DISCONNECT]) ∧
    (r.us.ua.state = .DISCONNECTED → ∀ r', Transition.Run (step gen) (fun _ _ => True) r r' →
      r'.us.ua.state = .DISCONNECTED ∧ r'.trace = r.trace) ∧
    (∀ l e r', r.Fails gen l e → step gen r l = some r' →
      r'.trace = r.trace ∧ r'.us.ua.state = r.us.ua.state ∧ r'.us.ua.role = r.us.ua.role ∧
        r'.us.ua.tx_index = r.us.ua.tx_index) ∧
    (∀ response e, r.Fails gen (.ret response) e → ∃ tx_index frames,
      r.frames = .respond tx_index :: frames ∧ (r.us.ua.emit = true → .DISCONNECT ∈ r.trace)) := by
  have hKept : r.Kept := Transition.Run.invariant (fun _ _ _ hInv _ hStep => Kept.step hInv hStep) hRun
    (kept_init sys emit default_target)
  constructor
  · cases hOn : r.us.ua.emit with
    | true => exact (hKept.emitted hOn).grammar
    | false =>
      rw [hKept.silent hOn]
      exact Emitted.idle.grammar
  constructor
  · intro hOver r' hMore
    exact over_run hOver hMore
  constructor
  · intro l e r' hFails hStep
    obtain ⟨hCore, hTrace⟩ := fails_step hFails hStep
    exact ⟨hTrace, congrArg Ua.Core.state hCore, congrArg Ua.Core.role hCore,
      congrArg Ua.Core.tx_index hCore⟩
  · intro response e hFails
    exact fails_ret hKept hFails

/-- A user agent of a sample manager, an INVITE sent and given up. -/
def sampleDialed : Option UaRun :=
  (Tm.ctor (Sample.params 1)).bind fun tm =>
    Transition.exec (step fun _ _ _ _ => .error .PARSE)
      (init { tm } true none)
      [.call (.event (.DIAL { request := Sample.request .INVITE })),
        .call (.event (.DISCONNECT { status := resOk } true))]

theorem lifecycle_dialed : ∃ (gen : AuthzGen) (sys : Sys) (r : UaRun),
    Transition.Run (step gen) (fun _ _ => True) (init sys true none) r ∧ r.trace = [.DISCONNECT] ∧
    ∀ r', Transition.Run (step gen) (fun _ _ => True) r r' →
      r'.us.ua.state = .DISCONNECTED ∧ r'.trace = r.trace := by
  have hTest : sampleDialed.any (fun r => r.us.ua.state = .DISCONNECTED ∧ r.trace = [.DISCONNECT]) =
      true := by
    decide +kernel
  obtain ⟨r, hExec, hTest⟩ := (Option.any_eq_true _ _).mp hTest
  obtain ⟨hOver, hTrace⟩ := of_decide_eq_true hTest
  obtain ⟨tm, -, hExec⟩ := Option.bind_eq_some_iff.mp hExec
  have hRun : Transition.Run (step fun _ _ _ _ => .error .PARSE) (fun _ _ => True)
      (init { tm } true none) r := Transition.exec_run (fun _ _ => trivial) hExec
  exact ⟨fun _ _ _ _ => .error .PARSE, { tm }, r, hRun, hTrace,
    (lifecycle _ { tm } true none r hRun).2.1 hOver⟩

end UaRun

end Microsippy
