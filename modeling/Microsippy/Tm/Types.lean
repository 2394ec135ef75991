import Microsippy.Msg

/-! # The state of the transaction manager

`public/usipy_sip_tm.h` and `usipy_sip_tm_priv.h`. A slot's record is split in two: `Ctl` is what
the state machine, the timers and the links between slots are made of, `Data` is the messages and
the storage they are kept in. `pub.common.outbound` repeats `outbound.pub` whenever a call of the
manager returns or calls out, and is not kept apart.
-/

namespace Microsippy

set_option autoImplicit false

/-- `enum usipy_sip_tm_error`; `fail` is a helper's plain -1, `user` what a callback returned. -/
inductive TmError where
  | PARSE | BADMSG | NOT_FOUND | UNSUPPORTED | INVAL | NOMEM | NOSPC
  | fail
  | user (rval : Int)
  deriving DecidableEq, Repr

/-- `enum usipy_sip_tm_role`. -/
inductive Role where
  | UAC | UAS
  deriving DecidableEq, Repr

/-- `enum usipy_sip_tm_state`. -/
inductive TxState where
  | NULL | CALLING | TRYING | PROCEEDING | COMPLETED | CONFIRMED | TERMINATED | ACCEPTED
  deriving DecidableEq, Repr

/-- `enum usipy_sip_tm_transport`. -/
inductive Transport where
  | UNSPEC | UDP | TCP | TLS | SCTP
  deriving DecidableEq, Repr

/-- The address families the manager tells apart. -/
inductive Af where
  | unspec | INET | INET6
  deriving DecidableEq, Repr

/-- `enum usipy_sip_tm_timer_kind`. -/
inductive TimerKind where
  | NONE | A | B | D | E | F | H | I | J | K | L
  deriving DecidableEq, Repr

/-- `enum usipy_sip_tm_uac_timeout_id`. -/
inductive TimeoutId where
  | NONE | PR | FR
  deriving DecidableEq, Repr

/-- `enum usipy_sip_tm_invite_cancel_state`. -/
inductive CancelState where
  | NONE | SCHEDULED | ONWIRE
  deriving DecidableEq, Repr

/-- `USIPY_SIP_TM_TIME_NONE`. -/
def TIME_NONE : UInt64 := 0xffffffffffffffff

/-- `struct usipy_sip_tm_addr`. -/
structure Addr where
  af : Af := .unspec
  port : UInt16 := 0
  transport : Transport := .UNSPEC
  host : Str := Str.null
  deriving DecidableEq, Repr

/-- `struct usipy_sip_tm_timer_policy`. -/
structure TimerPolicy where
  t1_ms : UInt32 := 0
  t2_ms : UInt32 := 0
  t4_ms : UInt32 := 0
  timer_a_ms : UInt32 := 0
  timer_b_ms : UInt32 := 0
  timer_d_ms : UInt32 := 0
  timer_e_ms : UInt32 := 0
  timer_f_ms : UInt32 := 0
  timer_j_ms : UInt32 := 0
  timer_k_ms : UInt32 := 0
  timer_l_ms : UInt32 := 0
  deriving DecidableEq, Repr

/-- `USIPY_SIP_TM_TIMER_POLICY_RFC3261`. -/
def TimerPolicy.rfc3261 : TimerPolicy := { t1_ms := 500, t2_ms := 4000, t4_ms := 5000 }

/-- `usipy_sip_tm_timer_policy_resolve`. -/
def TimerPolicy.resolve (src : Option TimerPolicy) : TimerPolicy :=
  let dst := src.getD rfc3261
  { dst with
    t1_ms := if dst.t1_ms = 0 then rfc3261.t1_ms else dst.t1_ms
    t2_ms := if dst.t2_ms = 0 then rfc3261.t2_ms else dst.t2_ms
    t4_ms := if dst.t4_ms = 0 then rfc3261.t4_ms else dst.t4_ms }

/-- `struct usipy_sip_tm_timer`. -/
structure Timer where
  type : TimerKind := .NONE
  value_ms : UInt32 := 0
  due_at_ms : UInt64 := 0
  deriving DecidableEq, Repr

/-- `struct usipy_sip_tm_uac_invite`, as `usipy_sip_tm_uac_reset_invite` leaves it. -/
structure UacInvite where
  timeout_at_ms : UInt64 := TIME_NONE
  provisional_seen : Bool := false
  cancel_state : CancelState := .NONE
  timeout_id : TimeoutId := .NONE
  bye_started : Bool := false
  app_cancelled : Bool := false
  deriving DecidableEq, Repr

/-- Which of `struct usipy_sip_tm_uac_callbacks` are given. -/
structure UacCallbacks where
  response : Bool := false
  timeout : Bool := false
  deriving DecidableEq, Repr

/-- Which of `struct usipy_sip_tm_uas_callbacks` are given. -/
structure UasCallbacks where
  cancel : Bool := false
  no_ack : Bool := false
  deriving DecidableEq, Repr

/-- `struct usipy_sip_tm_id` but for its method. -/
structure TmId where
  hash : UInt32 := 0
  branch : Str := Str.null
  call_id : Str := Str.null
  from_tag : Str := Str.null
  cseq : UInt32 := 0
  deriving DecidableEq, Repr

/-- `struct usipy_sip_tm_uac_cache`. -/
structure UacCache where
  request_uri : Option Uri := none
  from_uri : Str := Str.null
  to_uri : Str := Str.null
  contact_uri : Str := Str.null
  routes : List Str := []
  contact_expires : UInt32 := 0
  invite_expires : UInt32 := 0
  include_contact : Bool := false
  deriving DecidableEq, Repr

/-- `struct usipy_sip_tm_uas_cache`. -/
structure UasCache where
  from_ : Str := Str.null
  to_ : Str := Str.null
  request_uri : Str := Str.null
  from_uri : Str := Str.null
  to_uri : Str := Str.null
  contact_uri : Str := Str.null
  local_contact_uri : Str := Str.null
  vias : List Str := []
  record_routes : List Str := []
  ack_hash : UInt32 := 0
  cancel_hash : UInt32 := 0
  deriving DecidableEq, Repr

/-- `struct usipy_sip_tm_cache`. -/
structure Cache where
  call_id : Str := Str.null
  branch : Str := Str.null
  from_tag : Str := Str.null
  to_tag : Str := Str.null
  cseq : Cseq := {}
  method_type : Method := .generic
  uac : UacCache := {}
  uas : UasCache := {}
  deriving DecidableEq, Repr

/-- The control part of `struct usipy_sip_tm_txi`. The bits of `common.flags` are `reliable`,
`terminated`, `abandoned` and `acked`; `method_type` is `common.id.method_type`. -/
structure Ctl where
  active : Bool := false
  role : Role := .UAC
  state : TxState := .NULL
  reliable : Bool := false
  terminated : Bool := false
  abandoned : Bool := false
  acked : Bool := false
  method_type : Method := .generic
  retransmit_count : UInt8 := 0
  created_at_ms : UInt64 := 0
  updated_at_ms : UInt64 := 0
  timer : Timer := {}
  next_send_at_ms : UInt64 := TIME_NONE
  last_status_code : UInt16 := 0
  response_class : UInt8 := 0
  request_retransmits : UInt8 := 0
  final_reported : Bool := false
  parent_index : Option Nat := none
  child_index : Option Nat := none
  invite : Option UacInvite := none
  callbacks : UacCallbacks := {}
  uas_callbacks : UasCallbacks := {}
  /-- `uas_owner`: the dialog that owns an accepted INVITE. -/
  uas_owner : Option Nat := none
  /-- History: the number of the transaction in the slot, of the one it was created for, and whether
  its message has never been sent. -/
  born : Nat := 0
  created_for : Nat := 0
  unsent : Bool := false
  deriving DecidableEq, Repr

/-- The rest of `struct usipy_sip_tm_txi`. `id_calls` counts the calls of the id policy for the
slot, for a policy whose answers vary. -/
structure Data where
  id : TmId := {}
  peer : Addr := {}
  local_ : Addr := {}
  timers : TimerPolicy := {}
  target : Addr := {}
  raw : Str := Str.null
  checkpoint : Option Nat := none
  cache : Cache := {}
  scratch : Heap := {}
  id_calls : Nat := 0

/-- `struct usipy_sip_tm_txi`. -/
structure Txi extends Ctl, Data

/-- `struct usipy_sip_tm_id_policy_in`. -/
structure IdPolicyIn where
  transaction_index : Nat
  cseq : UInt32
  method_type : Method
  deriving DecidableEq, Repr

/-- `struct usipy_sip_tm_id_policy_out`. -/
structure IdPolicyOut where
  branch : Str := Str.null
  call_id : Str := Str.null
  local_tag : Str := Str.null
  deriving DecidableEq, Repr

/-- A heap after more was taken from it. -/
structure Heap.Extends (hp hp' : Heap) : Prop where
  slot : hp'.slot = hp.slot
  tsize : hp'.tsize = hp.tsize
  ncheckpoints : hp'.ncheckpoints = hp.ncheckpoints
  checkpoints : hp'.checkpoints = hp.checkpoints
  grows : hp.alen ≤ hp'.alen
  below : ∀ k < hp.alen, hp'.first k = hp.first k

/-- `struct usipy_sip_tm_id_policy` with a callback: what the application answers on its `n`-th call
for a slot. It may take from the heap it is given and leaves what is there alone. -/
structure IdPolicy where
  cb : Nat → IdPolicyIn → Heap → Except Unit IdPolicyOut × Heap
  extends_heap : ∀ n inp (hp : Heap), hp.Extends (cb n inp hp).2

/-- The members of `struct usipy_platform` the manager reads. -/
structure Platform where
  default_udp_port_i : UInt16 := 5060
  user_agent : Str := Str.lit (bytes "uSippy")
  server : Str := Str.lit (bytes "uSippy")

/-- `struct usipy_sip_tm`. `serial` and `leaked` are history: the number the next transaction gets,
and how many constructors have failed with their slot already counted. -/
structure Tm where
  transport : Transport
  max_transactions : Nat
  nactive : Nat := 0
  laddr : Addr := {}
  luri : Str := Str.null
  default_via : Via := {}
  default_from : NameAddr := {}
  default_to : NameAddr := {}
  default_contact : NameAddr := {}
  /-- Whether `callbacks.incoming_request` is given. -/
  incoming_request : Bool := false
  id_policy : Option IdPolicy := none
  platform : Platform := {}
  tx : Nat → Txi
  serial : Nat := 1
  leaked : Nat := 0

/-- A computation on one slot. -/
abbrev TxM := Op TmError Txi

/-- A computation on the whole manager. -/
abbrev TmM := Op TmError Tm

namespace Tm

/-- The table with one slot replaced. -/
def set (tm : Tm) (i : Nat) (tp : Txi) : Tm :=
  { tm with tx := fun j => if j = i then tp else tm.tx j }

/-- The scratch arenas of the slots. -/
def mem (tm : Tm) : Mem := fun i => (tm.tx i).scratch.first

@[simp] theorem set_same (tm : Tm) (i : Nat) (tp : Txi) : (tm.set i tp).tx i = tp := by
  simp [set]

theorem set_other (tm : Tm) {i j : Nat} (tp : Txi) (h : j ≠ i) : (tm.set i tp).tx j = tm.tx j := by
  simp [set, h]

@[simp] theorem set_max (tm : Tm) (i : Nat) (tp : Txi) :
    (tm.set i tp).max_transactions = tm.max_transactions := rfl

@[simp] theorem set_nactive (tm : Tm) (i : Nat) (tp : Txi) : (tm.set i tp).nactive = tm.nactive :=
  rfl

@[simp] theorem set_serial (tm : Tm) (i : Nat) (tp : Txi) : (tm.set i tp).serial = tm.serial := rfl

@[simp] theorem set_leaked (tm : Tm) (i : Nat) (tp : Txi) : (tm.set i tp).leaked = tm.leaked := rfl

@[simp] theorem set_set (tm : Tm) (i : Nat) (tp tp' : Txi) : (tm.set i tp).set i tp' = tm.set i tp' := by
  simp only [set, mk.injEq, true_and, and_true]
  funext j
  split <;> rfl

@[simp] theorem set_self (tm : Tm) (i : Nat) : tm.set i (tm.tx i) = tm := by
  have hTx : (fun j => if j = i then tm.tx i else tm.tx j) = tm.tx := by
    funext j
    split
    · rename_i h
      rw [h]
    · rfl
  simp only [set, hTx]

end Tm

/-- A slot's computation as one of the manager, given the manager and the slot's index to read. -/
def onSlot {α : Type} (i : Nat) (x : Tm → TxM α) : TmM α := fun tm =>
  match (x tm).run (tm.tx i) with
  | none => none
  | some (r, tp) => some (r, tm.set i tp)

theorem onSlot_ok {α : Type} {i : Nat} {x : Tm → TxM α} {tm tm' : Tm} {a : α} :
    (onSlot i x).run tm = some (.ok a, tm') ↔
      ∃ tp, (x tm).run (tm.tx i) = some (.ok a, tp) ∧ tm.set i tp = tm' := by
  simp only [Op.run, onSlot]
  rcases hx : (x tm) (tm.tx i) with _ | ⟨_ | b, tp⟩ <;> simp [and_assoc]

/-- A heap operation on a slot's scratch heap, failing with one code. -/
def onScratch {α : Type} (e : TmError) (x : HeapM α) : TxM α :=
  Op.failWith e (Op.zoom (fun tp : Txi => tp.scratch) (fun hp tp => { tp with scratch := hp }) x)

theorem onScratch_ok {α : Type} {e : TmError} {x : HeapM α} {tp tp' : Txi} {a : α} :
    (onScratch e x).run tp = some (.ok a, tp') ↔
      ∃ hp, x.run tp.scratch = some (.ok a, hp) ∧ { tp with scratch := hp } = tp' := by
  rw [onScratch, Op.failWith_ok, Op.zoom_ok]

end Microsippy
