import Microsippy.AuthHdr
import Microsippy.Scratch
import Microsippy.WireSplit

/-! # Digest credentials

`gen_auth_hf` of `usipy_sip_hdr_authz.c`: the credentials a challenge is answered with. MD5 and the
time of day are parameters.
-/

namespace Microsippy

set_option autoImplicit false

/-- MD5, by the 16 bytes of the digest. -/
abbrev Md5 := Bytes → Fin 16 → UInt8

/-- `strncasecmp` of two strings of one length is 0. It ends at a NUL. -/
def casecmpEq : Bytes → Bytes → Bool
  | a :: as, b :: bs => asciiLower a == asciiLower b && (a == 0 || casecmpEq as bs)
  | _, _ => true

def hexDigit (n : Nat) : UInt8 := (bytes "0123456789abcdef").getD (n % 16) 0

/-- What `%08x` prints. -/
def hex8 (n : UInt32) : Bytes := [28, 24, 20, 16, 12, 8, 4, 0].map fun k => hexDigit (n.toNat >>> k)

namespace Authz

/-- `usipy_sip_hdr_authz_ci_equal`. -/
def ciEqual (s : Bytes) (c : String) : Bool := s.length == (bytes c).length && casecmpEq s (bytes c)

/-- `md5_format`. -/
def md5Format (hash : Fin 16 → UInt8) : Bytes :=
  (List.ofFn hash).flatMap fun b => [hexDigit (b.toNat / 16), hexDigit b.toNat]

/-- `usipy_sip_hdr_authz_md5_hex`. -/
def md5Hex (md5 : Md5) (parts : List Bytes) : Bytes :=
  md5Format (md5 (List.intercalate (bytes ":") parts))

/-- `usipy_sip_hdr_authz_supported_qop`. An element takes a delimiter or ends the list, so the
length of the list is fuel enough. -/
def supportedQop (m : Mem) : Nat → Str → Str → Bool
  | 0, _, _ => false
  | fuel + 1, work, qop =>
    if work.l = 0 then false
    else
      let (token, work) := match work.splitElem m (ch ',') with
        | some x => x
        | none => (work, Str.null)
      let token := (token.trmB m).trmE m
      if token.l = qop.l ∧ casecmpEq (m.read token) (m.read qop) then true
      else supportedQop m fuel work qop

/-- The value of `nc`. -/
def ncText : Bytes := bytes "00000001"

/-- `ha1` of `gen_auth_hf`. -/
def ha1 (md5 : Md5) (username realm password nonce cnonce : Bytes) (sess : Bool) : Bytes :=
  let h := md5Hex md5 [username, realm, password]
  if sess then md5Hex md5 [h, nonce, cnonce] else h

/-- `ha2` of `gen_auth_hf`. -/
def ha2 (md5 : Md5) (method uri body qop : Bytes) : Bytes :=
  if qop.length ≠ 0 ∧ ciEqual qop "auth-int" then
    let bodyhash := md5Hex md5 [body]
    md5Hex md5 [method, uri, bodyhash]
  else md5Hex md5 [method, uri]

/-- `response` of `gen_auth_hf`. -/
def responseText (md5 : Md5) (ha1 nonce cnonce qop ha2 : Bytes) : Bytes :=
  if qop.length ≠ 0 then md5Hex md5 [ha1, nonce, ncText, cnonce, qop, ha2]
  else md5Hex md5 [ha1, nonce, ha2]

/-- `usipy_sip_hdr_authz_bufcopy` of one string after the other, from `bp` on. -/
def bufcopy (m : Mem) : Nat → List Str → HeapM (List Str)
  | _, [] => return []
  | bp, src :: rest => do
    let dst ← (if src.l = 0 then return Str.null
      else do
        Op.modify fun hp => { hp with first := hp.first.writeAt bp ((hp.mem m).read src) }
        let hp ← Op.get
        return hp.view bp src.l)
    let more ← bufcopy m (bp + src.l) rest
    return dst :: more

/-- `sizeof(struct usipy_sip_hdr_authz)`. -/
def sizeof : Nat := 176

/-- Whether the algorithm of a challenge is `MD5-sess`. -/
def sess (algorithm : Bytes) : Bool := algorithm.length ≠ 0 && ciEqual algorithm "MD5-sess"

/-- `gen_auth_hf`, at `now` of the clock's microseconds unless it cannot be read. -/
def genAuthHf (md5 : Md5) (now : Option UInt32) (m : Mem) (challenge : Auth)
    (username password method uri : Str) (body qop : Option Str) : HeapM Authz := do
  let hp ← Op.get
  let rd := (hp.mem m).read
  Op.require (ciEqual (rd challenge.scheme) "Digest") ()
  Op.require (challenge.realm.l ≠ 0 ∧ challenge.nonce.l ≠ 0) ()
  Op.require (challenge.algorithm.l = 0 ∨ ciEqual (rd challenge.algorithm) "MD5" ∨
    ciEqual (rd challenge.algorithm) "MD5-sess") ()
  let asked := qop.getD Str.null
  Op.require (if challenge.qop.l ≠ 0 then
      asked.l ≠ 0 ∧ supportedQop (hp.mem m) challenge.qop.l challenge.qop asked
    else asked.l = 0) ()
  let qop := if challenge.qop.l ≠ 0 then asked else Str.null
  let sess := sess (rd challenge.algorithm)
  let cnonce ← Op.orElse (if qop.l ≠ 0 ∨ sess then now.map hex8 else some []) ()
  let ha1 := ha1 md5 (rd username) (rd challenge.realm) (rd password) (rd challenge.nonce) cnonce sess
  let ha2 := ha2 md5 (rd method) (rd uri) (rd (body.getD Str.null)) (rd qop)
  let response := responseText md5 ha1 (rd challenge.nonce) cnonce (rd qop) ha2
  let slen := username.l + challenge.realm.l + challenge.nonce.l + uri.l + 32 +
    challenge.algorithm.l + challenge.opaque_.l +
    if qop.l ≠ 0 then qop.l + ncText.length + cnonce.length else 0
  let azp ← Heap.alloc (sizeof + slen)
  let bp := azp + sizeof
  let ofQop := fun b : Bytes => if qop.l ≠ 0 then Str.lit b else Str.null
  let copied ← bufcopy m bp [username, challenge.realm, challenge.nonce, uri, Str.lit response,
    challenge.algorithm, challenge.opaque_, qop, ofQop ncText, ofQop cnonce]
  match copied with
  | [username, realm, nonce, uri, response, algorithm, opaque_, qop, nc, cnonce] =>
    return { scheme := Str.lit (bytes "Digest"), username, realm, nonce, uri, response, qop, nc, cnonce,
             algorithm, opaque_ }
  | _ => Op.fail ()

end Authz

end Microsippy
