import Microsippy.Tm.Ctl

/-! # Slots

`usipy_sip_tm.c`: construction, and resetting, allocating and dropping slots.
-/

namespace Microsippy

set_option autoImplicit false

/-- `USIPY_SIP_TM_TX_SCRATCH_SIZE`. -/
def txScratchSize : Nat := 4096

/-- `USIPY_SIP_TM_TX_NCHECKPOINTS`. -/
def txNcheckpoints : Nat := 2

/-- `USIPY_SIP_TM_HEAP_SIZE`. -/
def tmHeapSize : Nat := 512

/-- `usipy_sip_tm_tx_reset`. The arena keeps its bytes. -/
def Txi.reset (tp : Txi) : Txi :=
  { scratch := Heap.init tp.scratch.slot tp.scratch.first txScratchSize txNcheckpoints
    id_calls := tp.id_calls }

/-- `usipy_sip_tm_tx_fini`. -/
def Txi.fini (tp : Txi) : Txi := tp.reset

/-- The rollback to a slot's outbound checkpoint, if it has one. -/
def rollbackTo : Option Nat → TxM Unit
  | some cp => onScratch .fail (Heap.rollback cp)
  | none => pure ()

/-- `usipy_sip_tm_release_outbound`. -/
def releaseOutbound : TxM Unit := do
  let tp ← Op.get
  rollbackTo tp.checkpoint
  Op.modify fun tp =>
    { tp with
      id := { tp.id with hash := 0, branch := Str.null, from_tag := Str.null }
      raw := Str.null
      next_send_at_ms := TIME_NONE }

/-- `usipy_sip_tm_tid_matches_tx`. -/
def tidMatchesTx (m : Mem) (tid : Tid) (tp : Txi) : Bool :=
  tid.hash == tp.id.hash && Str.eq m tid.call_id tp.id.call_id &&
    Str.eq m tid.from_tag tp.id.from_tag && Str.eq m tid.vbranch tp.id.branch &&
    tid.cseq.val == tp.id.cseq && tid.cseq.method == tp.method_type

namespace Tm

/-- A slot that may be a child of another, freed with it: a turn of the first loop of
`usipy_sip_tm_drop_transaction`. -/
def dropChild (index : Nat) (tm : Tm) (i : Nat) : Tm :=
  let childp := tm.tx i
  if childp.active ∧ childp.parent_index = some index then
    { tm.set i childp.fini with nactive := tm.nactive - 1 }
  else tm

/-- The parent of a slot that goes, no longer naming it as its child. -/
def unlinkParent (index : Nat) (tm : Tm) : Tm :=
  match (tm.tx index).parent_index with
  | none => tm
  | some p =>
    if p < tm.max_transactions ∧ (tm.tx p).active ∧ (tm.tx p).child_index = some index then
      tm.set p { tm.tx p with child_index := none }
    else tm

/-- What `usipy_sip_tm_drop_transaction` does to an active slot. -/
def drop (tm : Tm) (index : Nat) : Tm :=
  let tm := (List.range tm.max_transactions).foldl (dropChild index) tm
  let tm := tm.unlinkParent index
  { tm.set index (tm.tx index).fini with nactive := tm.nactive - 1 }

/-- The slots from `i` on as `usipy_sip_tm_alloc_slot` scans them: the first free one, or else the
evictable one due first. -/
def allocScan (tm : Tm) : Nat → Nat → Option (Nat × UInt64) → Option Nat × Option Nat
  | 0, _, victim => (none, victim.map Prod.fst)
  | n + 1, i, victim =>
    let tp := tm.tx i
    if !tp.active then (some i, none)
    else if !tp.evictable then allocScan tm n (i + 1) victim
    else
      let due := tp.evictionDue
      match victim with
      | some (v, victim_due) =>
        allocScan tm n (i + 1) (if due < victim_due then some (i, due) else some (v, victim_due))
      | none => allocScan tm n (i + 1) (some (i, due))

end Tm

/-- `usipy_sip_tm_drop_transaction`. -/
def dropTransaction (index : Nat) : TmM Unit := do
  let tm ← Op.get
  Op.require (index < tm.max_transactions) .INVAL
  Op.require (tm.tx index).active .NOT_FOUND
  Op.modify fun tm => tm.drop index

/-- `usipy_sip_tm_alloc_slot`; with no slot to be had its callers fail with the same code. -/
def allocSlot : TmM Nat := do
  let tm ← Op.get
  match tm.allocScan tm.max_transactions 0 none with
  | (some i, _) =>
    Op.modify fun tm => tm.set i (tm.tx i).reset
    return i
  | (none, some victim) =>
    Op.failWith .NOSPC (dropTransaction victim)
    Op.modify fun tm => tm.set victim (tm.tx victim).reset
    return victim
  | (none, none) => Op.fail .NOSPC

/-- `usipy_sip_tm_set_timer_policy`. -/
def setTimerPolicy (index : Nat) (policy : TimerPolicy) : TmM Unit := do
  let tm ← Op.get
  Op.require (index < tm.max_transactions) .INVAL
  Op.require (tm.tx index).active .NOT_FOUND
  onSlot index fun _ => Op.modify fun tp => { tp with timers := .resolve (some policy) }

/-! ## Construction -/

/-- `struct usipy_sip_tm_ctor_params`, with what `getsockname` says of the socket. -/
structure CtorParams where
  sockname : Option (Af × Bytes × UInt16)
  transport : Transport
  max_transactions : Nat
  incoming_request : Bool := false
  id_policy : Option IdPolicy := none
  platform : Platform := {}

/-- `usipy_sip_tm_transport_name`. -/
def transportName : Transport → Option Str
  | .UNSPEC => none
  | .UDP => some (Str.lit (bytes "UDP"))
  | .TCP => some (Str.lit (bytes "TCP"))
  | .TLS => some (Str.lit (bytes "TLS"))
  | .SCTP => some (Str.lit (bytes "SCTP"))

/-- `sip:host:port`, the host in brackets for IPv6. -/
def hostPortUri (af : Af) (host : Bytes) (port : UInt16) : Option Bytes :=
  match af with
  | .INET => some (bytes "sip:" ++ cstr host ++ bytes ":" ++ dec port.toNat)
  | .INET6 => some (bytes "sip:[" ++ cstr host ++ bytes "]:" ++ dec port.toNat)
  | .unspec => none

/-- `usipy_sip_tm_init_laddr` and what it calls, on the manager's own heap. -/
def initLaddr (p : CtorParams) : HeapM (Addr × Str) := do
  let (af, aname, port) ← Op.orElse p.sockname ()
  Op.require (af ≠ .unspec) ()
  let host ← Heap.sprintf (cstr aname)
  let luri ← Op.orElse (hostPortUri af (cstr aname) port) ()
  let luri ← Heap.sprintf luri
  return ({ af, port, transport := p.transport, host }, luri)

/-- A slot as the constructor leaves it. -/
def freshSlot (i : Nat) : Txi := { scratch := Heap.init (some i) .zero txScratchSize txNcheckpoints }

/-- `usipy_sip_tm_ctor`. -/
def Tm.ctor (p : CtorParams) : Option Tm := do
  if p.max_transactions = 0 then none
  let transport ← transportName p.transport
  let ((.ok (laddr, luri)), _) ← (initLaddr p).run (Heap.init none .zero tmHeapSize 0) | none
  let tag : TvPair := ⟨Str.lit (bytes "tag"), Str.null⟩
  return {
    transport := p.transport
    max_transactions := p.max_transactions
    laddr, luri
    default_via := {
      name := Str.lit (bytes "SIP"), version := Str.lit (bytes "2.0"), transport
      host := laddr.host, port := laddr.port.toUInt32
      params := [⟨Str.lit (bytes "branch"), Str.null⟩, ⟨Str.lit (bytes "rport"), Str.null⟩] }
    default_from := { addr_spec := luri, params := [tag] }
    default_to := { addr_spec := luri }
    default_contact := { addr_spec := luri }
    incoming_request := p.incoming_request
    id_policy := p.id_policy
    platform := p.platform
    tx := freshSlot }

end Microsippy
