import Microsippy.Tm.Slot

/-! # Requests

The half of `usipy_sip_tm_uac.c` that fills a slot with a request: what it keeps of the request's
parameters, its identity, and the request's text.
-/

namespace Microsippy

set_option autoImplicit false

/-! ## Parameters -/

/-- `struct usipy_sip_tm_request_id`. -/
structure RequestId where
  call_id : Option Str := none
  cseq : UInt32
  method_type : UInt8

/-- `struct usipy_sip_tm_request_target`. -/
structure RequestTarget where
  request_uri : Option Str := none
  target : Option Addr

/-- `struct usipy_sip_tm_request_parties`. -/
structure RequestParties where
  contact : Option Str := none
  from_ : Option Str := none
  to_ : Option Str := none

/-- `struct usipy_sip_tm_request_payload`. -/
structure RequestPayload where
  content_type : Option Str := none
  body : Option Str := none

/-- `struct usipy_sip_tm_dialog_tags`. -/
structure DialogTags where
  local_tag : Option Str := none
  remote_tag : Option Str := none

/-- `struct usipy_sip_tm_build_request_params`. -/
structure BuildRequestParams where
  payload : Option RequestPayload := none
  extra_headers : List ExtraHeader := []

/-- `usipy_sip_tm_param_str`. -/
def paramStr (sp : Option Str) : Str := sp.getD Str.null

/-! ## Copies on the scratch heap -/

/-- What `%.*s` prints of a string. -/
def text (m : Mem) (s : Str) : TxM Bytes := do
  let tp ← Op.get
  return cstr ((tp.scratch.mem m).read s)

/-- `usipy_sip_tm_copy_target_addr`, and `usipy_sip_tm_uas_copy_addr`. -/
def copyTargetAddr (m : Mem) (srcp : Addr) : TxM Addr := do
  let host ← (if srcp.host.l = 0 then pure srcp.host else onScratch .NOSPC (Heap.append m srcp.host))
  return { srcp with host }

/-- `usipy_sip_tm_copy_uri`. -/
def copyUri (m : Mem) (srcp : Str) : TxM Str := onScratch .NOSPC (Heap.append m srcp)

/-- Strings copied one after the other. -/
def appendAll (m : Mem) : List Str → HeapM (List Str)
  | [] => pure []
  | s :: rest => do
    let s ← Heap.append m s
    let rest ← appendAll m rest
    return s :: rest

/-- `sizeof(struct usipy_str)`. -/
def sizeofStr : Nat := 16

/-- `usipy_sip_tm_copy_route_set`. -/
def copyRouteSet (m : Mem) (srcp : List Str) : HeapM (List Str) :=
  match srcp with
  | [] => pure []
  | _ => do
    let _ ← Heap.alloc (sizeofStr * srcp.length)
    appendAll m srcp

/-- `usipy_sip_tm_request_uri_materialize`. -/
def requestUriMaterialize (tm : Tm) (targetp : RequestTarget) : TxM Str := do
  let default_port :=
    if tm.platform.default_udp_port_i ≠ 0 then tm.platform.default_udp_port_i else 5060
  Op.assert (targetp.target.isSome ∨ targetp.request_uri.isSome)
  let request_uri := paramStr targetp.request_uri
  if request_uri.l ≠ 0 then
    onScratch .NOSPC (Heap.append tm.mem request_uri)
  else
    let addr ← Op.demand targetp.target
    Op.require (addr.host.l ≠ 0) .INVAL
    let host ← text tm.mem addr.host
    let port := if addr.port = 0 ∨ addr.port = default_port then []
      else bytes ":" ++ dec addr.port.toNat
    onScratch .NOSPC (Heap.sprintf (bytes "sip:" ++ host ++ port))

/-- `usipy_sip_tm_format_local_uri`. -/
def formatLocalUri (m : Mem) (localp : Addr) (userp : Str) (include_port : Bool) : TxM Str := do
  let user ← text m userp
  let host ← text m localp.host
  let user := if userp.l = 0 then [] else user ++ bytes "@"
  let port := if include_port then bytes ":" ++ dec localp.port.toNat else []
  match localp.af with
  | .INET => onScratch .NOSPC (Heap.sprintf (bytes "sip:" ++ user ++ host ++ port))
  | .INET6 =>
    onScratch .NOSPC (Heap.sprintf (bytes "sip:" ++ user ++ bytes "[" ++ host ++ bytes "]" ++ port))
  | .unspec => Op.fail .NOSPC

/-- `usipy_sip_tm_lookup_uac_method`. -/
def lookupUacMethod {σ : Type} (method_type : UInt8) (in_dialog : Bool) : Op TmError σ Method := do
  let mdp ← Op.demand (Method.ofByte? method_type)
  Op.require (¬ (in_dialog ∧ (mdp = .INVITE ∨ mdp = .ACK ∨ mdp = .CANCEL))) .INVAL
  Op.assert (mdp.name.length > 0)
  return mdp

/-! ## The cache of a request -/

/-- A change to what a slot keeps of its request. -/
def modCache (f : Cache → Cache) : TxM Unit := Op.modify fun tp => { tp with cache := f tp.cache }

def modUacCache (f : UacCache → UacCache) : TxM Unit :=
  modCache fun c => { c with uac := f c.uac }

/-- `usipy_sip_tm_init_uac_request`. -/
def initUacRequest (m : Mem) (request_idp : RequestId) (request_urip : Str) (mdp : Method) :
    TxM Unit := do
  let call_id ← onScratch .NOSPC (Heap.append m (paramStr request_idp.call_id))
  modCache fun c => { c with call_id }
  let req_uri ← onScratch .NOSPC (Heap.append m request_urip)
  let request_uri ← onScratch .NOSPC (Uri.parse m req_uri)
  modCache fun c => { c with method_type := mdp, cseq := { val := request_idp.cseq, method := mdp } }
  modUacCache fun u => { u with request_uri := some request_uri, include_contact := true }

/-- `usipy_sip_tm_init_uac_parties_by_username`. -/
def initUacPartiesByUsername (m : Mem) (localp : Addr) (partiesp : RequestParties) : TxM Unit := do
  let from_uri ← formatLocalUri m localp (paramStr partiesp.from_) false
  modUacCache fun u => { u with from_uri }
  let to_uri ← formatLocalUri m localp (paramStr partiesp.to_) false
  modUacCache fun u => { u with to_uri }
  let contact_uri ← formatLocalUri m localp (paramStr partiesp.contact) true
  modUacCache fun u => { u with contact_uri }

/-- `usipy_sip_tm_init_uac_parties_by_uri`. -/
def initUacPartiesByUri (m : Mem) (partiesp : RequestParties) (dialog_tagsp : DialogTags) :
    TxM Unit := do
  let from_uri ← copyUri m (paramStr partiesp.from_)
  modUacCache fun u => { u with from_uri }
  let to_uri ← copyUri m (paramStr partiesp.to_)
  modUacCache fun u => { u with to_uri }
  let contact_uri ← copyUri m (paramStr partiesp.contact)
  modUacCache fun u => { u with contact_uri }
  let from_tag ← onScratch .NOSPC (Heap.append m (paramStr dialog_tagsp.local_tag))
  modCache fun c => { c with from_tag }
  let to_tag ← onScratch .NOSPC (Heap.append m (paramStr dialog_tagsp.remote_tag))
  modCache fun c => { c with to_tag }

/-- `usipy_sip_tm_copy_parsed_uri`. -/
def copyParsedUri (m : Mem) (srcp : Option Uri) : TxM Unit := do
  let srcp ← Op.demand srcp
  let uris ← onScratch .NOSPC (Heap.build m srcp.build)
  let request_uri ← onScratch .NOSPC (Uri.parse m uris)
  modUacCache fun u => { u with request_uri := some request_uri }

/-! ## Identity -/

/-- `usipy_sip_tm_prepare_default_ids`. -/
def prepareDefaultIds (tx_index : Nat) : TxM IdPolicyOut := do
  let tp ← Op.get
  let index := dec (tx_index % 2 ^ 32)
  let branch ← onScratch .NOSPC
    (Heap.sprintf (bytes "z9hG4bK-" ++ index ++ bytes "-" ++ dec tp.cache.cseq.val.toNat))
  let local_tag ← onScratch .NOSPC (Heap.sprintf (bytes "t" ++ index))
  return { branch, local_tag }

/-- A call of the id policy for a slot. -/
def callIdPolicy (policy : IdPolicy) (inp : IdPolicyIn) : TxM IdPolicyOut := do
  let tp ← Op.get
  let answer := policy.cb tp.id_calls inp tp.scratch
  Op.modify fun tp => { tp with scratch := answer.2, id_calls := tp.id_calls + 1 }
  Op.orElse answer.1.toOption .NOSPC

/-- What the id policy is asked about a slot's request. -/
def idPolicyIn (tx_index : Nat) (tp : Txi) : IdPolicyIn :=
  { transaction_index := tx_index, cseq := tp.cache.cseq.val, method_type := tp.cache.method_type }

/-- `usipy_sip_tm_prepare_initial_call_id`. -/
def prepareInitialCallId (tm : Tm) (tx_index : Nat) : TxM Unit := do
  let tp ← Op.get
  if tp.cache.call_id.l ≠ 0 then pure ()
  else
    let call_id ← (match tm.id_policy with
      | some policy => do
        let ids ← callIdPolicy policy (idPolicyIn tx_index tp)
        return ids.call_id
      | none => onScratch .NOSPC (Heap.sprintf (bytes "c" ++ dec (tx_index % 2 ^ 32))))
    Op.require (call_id.l ≠ 0) .NOSPC
    let call_id ← onScratch .NOSPC (Heap.append tm.mem call_id)
    modCache fun c => { c with call_id }

/-- The ids the policy, or the manager without one, generates for a slot's request. -/
def generateIds (tm : Tm) (tx_index : Nat) : TxM IdPolicyOut := do
  let tp ← Op.get
  match tm.id_policy with
  | some policy => callIdPolicy policy (idPolicyIn tx_index tp)
  | none => prepareDefaultIds tx_index

/-- Whether `usipy_sip_tm_prepare_ids` has what an identity takes. -/
def idsComplete (cache : Cache) (ids : IdPolicyOut) : Prop :=
  cache.call_id.l ≠ 0 ∧ ids.branch.l ≠ 0 ∧ (cache.from_tag.l ≠ 0 ∨ ids.local_tag.l ≠ 0)

instance (cache : Cache) (ids : IdPolicyOut) : Decidable (idsComplete cache ids) :=
  inferInstanceAs (Decidable (_ ∧ _ ∧ (_ ∨ _)))

/-- The cache with the generated ids where it has none. -/
def Cache.withIds (ids : IdPolicyOut) (c : Cache) : Cache :=
  { c with
    branch := if c.branch.l = 0 then ids.branch else c.branch
    from_tag := if c.from_tag.l = 0 then ids.local_tag else c.from_tag }

/-- A slot identified by what its cache has. -/
def Txi.identify (m : Mem) (tp : Txi) : Txi :=
  let c := tp.cache
  { tp with
    id := {
      hash := tidHash (tp.scratch.mem m) c.call_id c.from_tag c.branch c.cseq
      branch := c.branch, call_id := c.call_id, from_tag := c.from_tag, cseq := c.cseq.val }
    method_type := c.method_type }

/-- `usipy_sip_tm_prepare_ids`. -/
def prepareIds (tm : Tm) (tx_index : Nat) : TxM Unit := do
  let ids ← generateIds tm tx_index
  let tp ← Op.get
  Op.require (idsComplete tp.cache ids) .INVAL
  modCache (Cache.withIds ids)
  Op.modify (Txi.identify tm.mem)

/-! ## The text of a request -/

/-- An extra header checked and made ready to be built. An index past the header table reads outside
of it, which is taken for a mismatch. -/
def extraHdr (e : ExtraHeader) : Option BuildHdr := do
  let hf_type ← Hf.ofNat? e.hf_type.toNat
  if (hdrDb hf_type).cantype ≠ hf_type then none
  else
    match e.value_kind with
    | .PARSED =>
      if hf_type = .AUTHORIZATION ∨ hf_type = .PROXYAUTHORIZATION then
        some ⟨hf_type, .authz e.parsed⟩
      else none
    | .RAW => some ⟨hf_type, .generic (paramStr e.value)⟩
    | .other => none

/-- A name-addr with one parameter. -/
def NameAddr.withParam (na : NameAddr) (token : String) (value : Str) : NameAddr :=
  { na with params := [⟨Str.lit (bytes token), value⟩] }

/-- The message `usipy_sip_tm_build_request` puts together from a slot, with the texts it has printed
for it and the extra headers. -/
def requestMsg (tm : Tm) (tp : Txi) (ruri : Uri) (payload : RequestPayload)
    (contact_expires : Str) (expires : Option Str) (clen : Str) (extra : List BuildHdr) : BuildReq :=
  let c := tp.cache
  let content_type := paramStr payload.content_type
  let body := paramStr payload.body
  let user_agent := tm.platform.user_agent
  let via : Via :=
    { tm.default_via with
      host := tp.local_.host
      port := tp.local_.port.toUInt32
      params := tm.default_via.params.modifyHead fun pp => { pp with value := c.branch } }
  let from_ : NameAddr :=
    { tm.default_from with
      addr_spec := c.uac.from_uri
      params := tm.default_from.params.modifyHead fun pp => { pp with value := c.from_tag } }
  let to_ := { tm.default_to with addr_spec := c.uac.to_uri }
  let to_ := if c.to_tag.l ≠ 0 then to_.withParam "tag" c.to_tag else to_
  let contact := { tm.default_contact with addr_spec := c.uac.contact_uri }
  let contact :=
    if c.uac.include_contact ∧ c.uac.contact_expires ≠ 0 then
      contact.withParam "expires" contact_expires else contact
  { method := c.cseq.method
    ruri
    body
    hdrs :=
      [⟨.VIA, .via via⟩, ⟨.FROM, .nameaddr from_⟩, ⟨.TO, .nameaddr to_⟩] ++
      c.uac.routes.map (fun r => ⟨.ROUTE, .generic r⟩) ++
      (if c.uac.include_contact then [⟨.CONTACT, .nameaddr contact⟩] else []) ++
      [⟨.CALLID, .generic c.call_id⟩, ⟨.CSEQ, .cseq c.cseq⟩] ++
      (expires.toList.map fun s => ⟨.EXPIRES, .generic s⟩) ++
      (if body.l ≠ 0 ∧ content_type.l ≠ 0 then [⟨.CONTENTTYPE, .generic content_type⟩] else []) ++
      (if user_agent.l ≠ 0 then [⟨.USERAGENT, .generic user_agent⟩] else []) ++
      extra ++ [⟨.CONTENTLENGTH, .generic clen⟩] }

/-- A number printed on the scratch heap. -/
def printDec (n : Nat) : TxM Str := onScratch .NOSPC (Heap.sprintf (dec n))

/-- `usipy_sip_tm_build_request`. -/
def buildRequest (tm : Tm) (tx_index : Nat) (bp : BuildRequestParams) : TxM Unit := do
  let tp ← Op.get
  let payload := bp.payload.getD {}
  let body := paramStr payload.body
  let include_expires := tp.isInvite
  Op.assert tp.checkpoint.isSome
  rollbackTo tp.checkpoint
  prepareIds tm tx_index
  let tp ← Op.get
  let u := tp.cache.uac
  let contact_expires ← (if u.include_contact ∧ u.contact_expires ≠ 0 then
    printDec u.contact_expires.toNat else pure Str.null)
  let expires ← (if include_expires then do
      let s ← printDec u.invite_expires.toNat
      return some s
    else pure none)
  Op.require (body.l = 0 ∨ (paramStr payload.content_type).l ≠ 0) .INVAL
  let clen ← (if body.l ≠ 0 then printDec body.l else pure (Str.lit (bytes "0")))
  let extra ← Op.orElse (bp.extra_headers.mapM extraHdr) .INVAL
  let ruri ← Op.demand u.request_uri
  let rawmsg ← onScratch .NOSPC
    (Heap.build tm.mem (requestMsg tm tp ruri payload contact_expires expires clen extra).build)
  Op.modify fun tp => { tp with raw := rawmsg }

end Microsippy
