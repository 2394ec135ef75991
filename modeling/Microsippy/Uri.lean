import Microsippy.Heap

/-! # SIP URIs

`usipy_sip_uri.c`: parsing a URI into a structure on a heap, and building its text.
-/

namespace Microsippy

set_option autoImplicit false

/-- `struct usipy_tvpair`. -/
structure TvPair where
  token : Str
  value : Str
  deriving DecidableEq, Repr

/-- `struct usipy_sip_uri`. -/
structure Uri where
  proto : Str := Str.null
  user : Str := Str.null
  password : Str := Str.null
  host : Str := Str.null
  port : UInt32 := 0
  parameters : List TvPair := []
  headers : List TvPair := []
  deriving DecidableEq, Repr

/-- `sizeof(struct usipy_tvpair)`. -/
def sizeofTvPair : Nat := 32

namespace Heap

/-- `usipy_msg_heap_alloc_cnt`, by the start of what it allocates: the counter is the distance from
there to `alen`. -/
def allocCnt (len : Nat) : HeapM Nat := alloc len

/-- `usipy_msg_heap_aextend`. -/
def aextend (nlen start : Nat) : HeapM Unit := do
  let hp ← Op.get
  let elen := start + alignedSize nlen - hp.alen
  Op.require (elen ≤ hp.remaining) ()
  Op.modify fun hp => { hp with alen := hp.alen + elen }

/-- `usipy_msg_heap_cnt_rollback`. -/
def cntRollback (start : Nat) (hp : Heap) : Heap :=
  { hp with
    first := hp.first.writeAt start (List.replicate (hp.alen - start) 0)
    alen := start }

end Heap

/-- `name=value`, or a name alone. -/
def tvPair (m : Mem) (s : Str) : TvPair :=
  match s.split m (ch '=') with
  | some (token, value) => ⟨token, value⟩
  | none => ⟨s, Str.null⟩

/-- The elements of a list under a way to split one off. An element takes a delimiter or ends the
list, so the length of the text is fuel enough. -/
def elems (next : Str → Option (Str × Str)) : Nat → Str → List Str
  | 0, _ => []
  | fuel + 1, space =>
    if space.l = 0 then []
    else
      match next space with
      | some (this, rest) => this :: elems next fuel rest
      | none => [space]

/-- Room for the pairs of a list one by one, after the `n` pairs there are. -/
def extendPairs (size : Nat → Nat) (start : Nat) : Nat → List TvPair → HeapM Unit
  | _, [] => pure ()
  | n, _ :: rest => do
    Heap.aextend (size (n + 1)) start
    extendPairs size start (n + 1) rest

namespace Uri

/-- `URI_SIZEOF`. -/
def sizeof (nparams : Nat) : Nat := 96 + sizeofTvPair * nparams

/-- The user and the password before the `@`, if there is one, and what follows. -/
def splitUser (m : Mem) (iup : Str) : Str × Str × Str :=
  match iup.splitElemNlws m (ch '@') with
  | some (userpass, iup) =>
    match userpass.split m (ch ':') with
    | some (user, password) => (user, password, iup)
    | none => (userpass, Str.null, iup)
  | none => (Str.null, Str.null, iup)

/-- The host and port, the parameters and the headers. -/
def splitSpaces (m : Mem) (iup : Str) : Str × Str × Str :=
  match iup.splitElemNlws m (ch ';') with
  | none =>
    match iup.splitElemNlws m (ch '?') with
    | none => (iup, Str.null, Str.null)
    | some (pnum, hspace) => (pnum, Str.null, hspace)
  | some (pnum, iup) =>
    match iup.splitElemNlws m (ch '?') with
    | none => (pnum, iup, Str.null)
    | some (pspace, hspace) => (pnum, pspace, hspace)

/-- The host and the port, 0 where there is none. -/
def splitPort (m : Mem) (pnum : Str) : Option (Str × UInt32) :=
  match pnum.splitElemNlws m (ch ':') with
  | some (host, pnum) => (pnum.atouiRange m 1 65535).map fun port => (host, port)
  | none => some (pnum, 0)

/-- The pairs of a list of parameters or headers. -/
def pairs (m : Mem) (dlm : UInt8) (space : Str) : List TvPair :=
  (elems (fun s => s.splitElemNlws m dlm) space.l space).map (tvPair m)

/-- The text of a URI split into its parts, `none` where `usipy_sip_uri_parse` rolls back. -/
def parseParts (m : Mem) (surip : Str) : Option Uri := do
  let (proto, iup) ← surip.splitElemNlws m (ch ':')
  let (user, password, iup) := splitUser m iup
  let (pnum, pspace, hspace) := splitSpaces m iup
  let (host, port) ← (if pnum.l = 0 then none else splitPort m pnum)
  some {
    proto, user, password, host, port
    parameters := pairs m (ch ';') pspace, headers := pairs m (ch '&') hspace }

/-- `usipy_sip_uri_parse`. -/
def parse (m : Mem) (surip : Str) : HeapM Uri := do
  let start ← Heap.allocCnt (sizeof 0)
  let hp ← Op.get
  Op.cleanup (Heap.cntRollback start) do
    let up ← Op.orElse (parseParts (hp.mem m) surip) ()
    extendPairs sizeof start 0 up.parameters
    extendPairs sizeof start up.parameters.length up.headers
    return up

/-- A parameter or header after its separator. -/
def buildPair (sep : String) (p : TvPair) : List Chunk :=
  [.text sep, .put 0 p.token] ++
    if p.value.l ≠ 0 then [.text "=", .put 0 p.value] else []

/-- `usipy_sip_uri_build`. -/
def build (up : Uri) : List Chunk :=
  [.put 0 up.proto, .text ":"] ++
  (if up.user.l ≠ 0 then
    [.put 0 up.user] ++
    (if up.password.l ≠ 0 then [.text ":", .put 0 up.password] else []) ++
    [.text "@"]
  else []) ++
  [.put 0 up.host] ++
  (if up.port ≠ 0 then [.print 0 [Str.lit (bytes ":" ++ dec up.port.toNat)]] else []) ++
  (up.parameters.map (buildPair ";")).flatten ++
  match up.headers with
  | [] => []
  | h :: hs => buildPair "?" h ++ (hs.map (buildPair "&")).flatten

end Uri

end Microsippy
