import Microsippy.FromWire

/-! # Authentication headers

`usipy_sip_hdr_auth.c`: the challenge of a WWW-Authenticate or Proxy-Authenticate header.
-/

namespace Microsippy

set_option autoImplicit false

/-- `struct usipy_sip_hdr_auth`. -/
structure Auth where
  scheme : Str := Str.null
  realm : Str := Str.null
  nonce : Str := Str.null
  qop : Str := Str.null
  algorithm : Str := Str.null
  opaque_ : Str := Str.null
  params : List TvPair := []
  deriving DecidableEq, Repr

namespace Str

/-- `usipy_str_trm_b`. -/
def trmB (m : Mem) (s : Str) : Str :=
  let n := ((m.read s).takeWhile isWs).length
  { s with off := s.off + n, l := s.l - n }

/-- The view without its first character. -/
def tail (s : Str) : Str := { s with off := s.off + 1, l := s.l - 1 }

end Str

namespace Auth

/-- `AH_SIZEOF`. -/
def sizeof (nparams : Nat) : Nat := 104 + sizeofTvPair * nparams

/-- `usipy_sip_hdr_auth_assign_known`. -/
def assignKnown (m : Mem) (ap : Auth) (p : TvPair) : Auth :=
  let name := m.read p.token
  if name = bytes "realm" then { ap with realm := p.value }
  else if name = bytes "nonce" then { ap with nonce := p.value }
  else if name = bytes "qop" then { ap with qop := p.value }
  else if name = bytes "algorithm" then { ap with algorithm := p.value }
  else if name = bytes "opaque" then { ap with opaque_ := p.value }
  else { ap with params := ap.params ++ [p] }

/-- `usipy_sip_hdr_auth_skip_delims`. -/
def skipDelims (m : Mem) (s : Str) : Str :=
  let n := ((m.read s).takeWhile fun b => b == ch ',' || Str.isWs b).length
  { s with off := s.off + n, l := s.l - n }

/-- `usipy_sip_hdr_auth_parse_value`: the value and what follows it. -/
def parseValue (m : Mem) (paramspace : Str) : Option (Str × Str) :=
  let paramspace := paramspace.trmB m
  if paramspace.l = 0 then none
  else if (m.read paramspace).head? = some (ch '"') then
    (paramspace.tail.splitElemNlws m (ch '"')).map fun (value, rest) => (value, skipDelims m rest)
  else
    let (value, rest) := match paramspace.splitElem m (ch ',') with
      | some x => x
      | none => (paramspace, Str.null)
    some (value.trmE m, skipDelims m rest)

/-- The parameters one after the other. Each takes a `=`, so the length of the text is fuel
enough. -/
def pairs (m : Mem) : Nat → Str → Option (List TvPair)
  | 0, _ => some []
  | fuel + 1, paramspace =>
    let paramspace := if paramspace.l = 0 then paramspace else skipDelims m paramspace
    if paramspace.l = 0 then some []
    else do
      let (pname, pspace) ← paramspace.split m (ch '=')
      let pname := pname.trmE m
      let (pvalue, rest) ← (if pname.l = 0 then none else parseValue m pspace)
      let more ← pairs m fuel rest
      return ⟨pname, pvalue⟩ :: more

/-- The scheme and the parameters, `none` where `usipy_sip_hdr_auth_parse` rolls back. -/
def parseParts (m : Mem) (hvp : Str) : Option (Str × List TvPair) := do
  let (scheme, paramspace) ← hvp.splitlws m
  let scheme := scheme.trmE m
  let paramspace := paramspace.trmB m
  if scheme.l = 0 then none
  else do
    let more ← pairs m paramspace.l paramspace
    return (scheme, more)

/-- Room for the parameters, and each in its place. -/
def assign (m : Mem) (start : Nat) : Auth → List TvPair → HeapM Auth
  | ap, [] => return ap
  | ap, p :: rest => do
    Heap.aextend (sizeof (ap.params.length + 1)) start
    assign m start (ap.assignKnown m p) rest

/-- `usipy_sip_hdr_auth_parse`. -/
def parse (m : Mem) (hvp : Str) : HeapM Auth := do
  let start ← Heap.allocCnt (sizeof 0)
  let hp ← Op.get
  Op.cleanup (Heap.cntRollback start) do
    let (scheme, more) ← Op.orElse (parseParts (hp.mem m) hvp) ()
    assign (hp.mem m) start { scheme } more

end Auth

end Microsippy
