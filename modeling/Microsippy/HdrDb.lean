import Microsippy.Lib.Bytes

/-! # The header database

`usipy_sip_hdr_db.c`: the known header fields, the generated perfect hash that names are looked up
by (`usipy_fast_parser.c`, `usipy_sip_hdr_db_pdata.h`), and the case-insensitive comparison of
`bits/turbocompare.h`.
-/

namespace Microsippy

set_option autoImplicit false

/-- `USIPY_HF_*`; a name ending in `_c` is a compact form. -/
inductive Hf where
  | generic | ACCEPT | ALLOW | ALSO | AUTHORIZATION | CCDIVERSION | CSEQ | CALLID | CONTACT
  | CONTENTLENGTH | CONTENTTYPE | DIVERSION | EXPIRES | FROM | MAXFORWARDS | PASSERTEDIDENTITY
  | PROXYAUTHENTICATE | PROXYAUTHORIZATION | RACK | RSEQ | REASON | RECORDROUTE | REFERTO
  | REFERREDBY | REPLACES | ROUTE | SERVER | SUPPORTED | TO | USERAGENT | VIA | WWWAUTHENTICATE
  | WARNING | CALLID_c | CONTACT_c | CONTENTLENGTH_c | CONTENTTYPE_c | FROM_c | REFERTO_c
  | SUPPORTED_c | TO_c | VIA_c
  deriving DecidableEq, Repr

namespace Hf

/-- The header types in the order of their numbers, `USIPY_HF_generic` being 0. -/
def all : List Hf :=
  [.generic, .ACCEPT, .ALLOW, .ALSO, .AUTHORIZATION, .CCDIVERSION, .CSEQ, .CALLID, .CONTACT,
   .CONTENTLENGTH, .CONTENTTYPE, .DIVERSION, .EXPIRES, .FROM, .MAXFORWARDS, .PASSERTEDIDENTITY,
   .PROXYAUTHENTICATE, .PROXYAUTHORIZATION, .RACK, .RSEQ, .REASON, .RECORDROUTE, .REFERTO,
   .REFERREDBY, .REPLACES, .ROUTE, .SERVER, .SUPPORTED, .TO, .USERAGENT, .VIA, .WWWAUTHENTICATE,
   .WARNING, .CALLID_c, .CONTACT_c, .CONTENTLENGTH_c, .CONTENTTYPE_c, .FROM_c, .REFERTO_c,
   .SUPPORTED_c, .TO_c, .VIA_c]

/-- The number of a header type. -/
def toNat (h : Hf) : Nat := all.idxOf h

/-- The header type of a number, none past `USIPY_HF_max`. -/
def ofNat? (n : Nat) : Option Hf := all[n]?

theorem mem_all (h : Hf) : h ∈ all := by
  cases h <;> decide

end Hf

/-- The parsers of header values, `none` in the database for a header never parsed. -/
inductive HdrParse where
  | cseq | oneToken | nameaddr | via | auth
  deriving DecidableEq, Repr

/-- The builders of header values, `none` in the database for one copied as it is. -/
inductive HdrBuild where
  | cseq | oneToken | nameaddr | via | auth | authz
  deriving DecidableEq, Repr

/-- `struct usipy_hdr_db_entr`. -/
structure HdrDbEntr where
  name : Bytes
  cantype : Hf
  csl_allowed : Bool := false
  parse : Option HdrParse := none
  build : Option HdrBuild := none
  deriving DecidableEq, Repr

/-- `usipy_hdr_db`. -/
def hdrDb : Hf → HdrDbEntr
  | .generic => { name := [], cantype := .generic }
  | .ACCEPT => { name := bytes "Accept", cantype := .ACCEPT, csl_allowed := true }
  | .ALLOW => { name := bytes "Allow", cantype := .ALLOW, csl_allowed := true }
  | .ALSO => { name := bytes "Also", cantype := .ALSO }
  | .AUTHORIZATION =>
    { name := bytes "Authorization", cantype := .AUTHORIZATION, build := some .authz }
  | .CCDIVERSION => { name := bytes "CC-Diversion", cantype := .CCDIVERSION }
  | .CSEQ => { name := bytes "CSeq", cantype := .CSEQ, parse := some .cseq, build := some .cseq }
  | .CALLID =>
    { name := bytes "Call-ID", cantype := .CALLID, parse := some .oneToken,
      build := some .oneToken }
  | .CONTACT =>
    { name := bytes "Contact", cantype := .CONTACT, csl_allowed := true,
      parse := some .nameaddr, build := some .nameaddr }
  | .CONTENTLENGTH =>
    { name := bytes "Content-Length", cantype := .CONTENTLENGTH, build := some .oneToken }
  | .CONTENTTYPE =>
    { name := bytes "Content-Type", cantype := .CONTENTTYPE, parse := some .oneToken,
      build := some .oneToken }
  | .DIVERSION => { name := bytes "Diversion", cantype := .DIVERSION }
  | .EXPIRES =>
    { name := bytes "Expires", cantype := .EXPIRES, parse := some .oneToken,
      build := some .oneToken }
  | .FROM =>
    { name := bytes "From", cantype := .FROM, parse := some .nameaddr,
      build := some .nameaddr }
  | .MAXFORWARDS => { name := bytes "Max-Forwards", cantype := .MAXFORWARDS }
  | .PASSERTEDIDENTITY => { name := bytes "P-Asserted-Identity", cantype := .PASSERTEDIDENTITY }
  | .PROXYAUTHENTICATE =>
    { name := bytes "Proxy-Authenticate", cantype := .PROXYAUTHENTICATE, parse := some .auth,
      build := some .auth }
  | .PROXYAUTHORIZATION =>
    { name := bytes "Proxy-Authorization", cantype := .PROXYAUTHORIZATION, build := some .authz }
  | .RACK => { name := bytes "RAck", cantype := .RACK }
  | .RSEQ => { name := bytes "RSeq", cantype := .RSEQ }
  | .REASON => { name := bytes "Reason", cantype := .REASON }
  | .RECORDROUTE =>
    { name := bytes "Record-Route", cantype := .RECORDROUTE, csl_allowed := true,
      parse := some .nameaddr }
  | .REFERTO => { name := bytes "Refer-To", cantype := .REFERTO }
  | .REFERREDBY => { name := bytes "Referred-By", cantype := .REFERREDBY }
  | .REPLACES => { name := bytes "Replaces", cantype := .REPLACES }
  | .ROUTE =>
    { name := bytes "Route", cantype := .ROUTE, csl_allowed := true,
      parse := some .nameaddr }
  | .SERVER => { name := bytes "Server", cantype := .SERVER }
  | .SUPPORTED => { name := bytes "Supported", cantype := .SUPPORTED, csl_allowed := true }
  | .TO => { name := bytes "To", cantype := .TO, parse := some .nameaddr, build := some .nameaddr }
  | .USERAGENT => { name := bytes "User-Agent", cantype := .USERAGENT }
  | .VIA =>
    { name := bytes "Via", cantype := .VIA, csl_allowed := true,
      parse := some .via, build := some .via }
  | .WWWAUTHENTICATE =>
    { name := bytes "WWW-Authenticate", cantype := .WWWAUTHENTICATE, parse := some .auth,
      build := some .auth }
  | .WARNING => { name := bytes "Warning", cantype := .WARNING, csl_allowed := true }
  | .CALLID_c =>
    { name := bytes "i", cantype := .CALLID, parse := some .oneToken,
      build := some .oneToken }
  | .CONTACT_c =>
    { name := bytes "m", cantype := .CONTACT, csl_allowed := true,
      parse := some .nameaddr, build := some .nameaddr }
  | .CONTENTLENGTH_c => { name := bytes "l", cantype := .CONTENTLENGTH, build := some .oneToken }
  | .CONTENTTYPE_c =>
    { name := bytes "c", cantype := .CONTENTTYPE, parse := some .oneToken,
      build := some .oneToken }
  | .FROM_c =>
    { name := bytes "f", cantype := .FROM, parse := some .nameaddr,
      build := some .nameaddr }
  | .REFERTO_c => { name := bytes "r", cantype := .REFERTO }
  | .SUPPORTED_c => { name := bytes "k", cantype := .SUPPORTED, csl_allowed := true }
  | .TO_c => { name := bytes "t", cantype := .TO, parse := some .nameaddr, build := some .nameaddr }
  | .VIA_c =>
    { name := bytes "v", cantype := .VIA, csl_allowed := true,
      parse := some .via, build := some .via }

/-- `usipy_hdr_iscmpct`. -/
def HdrDbEntr.iscmpct (hdep : HdrDbEntr) : Bool := hdep.name.length == 1

/-! ## The perfect hash -/

/-- How the target shifts a 32-bit word right. C gives it a meaning for counts below 32 only, and a
name may be longer than that: what happens then is the machine's choice. -/
structure Shift where
  shr : UInt32 → Nat → UInt32
  shr_of_lt : ∀ x n, n < 32 → shr x n = x >>> UInt32.ofNat n

namespace FastParser

/-- `hdr_pdata.magic`. -/
def magic : UInt32 := 0x46

/-- `hdr_pdata.toid`. -/
def toid : List Hf :=
  [.generic, .generic, .generic, .generic, .generic, .generic, .generic, .SUPPORTED, .generic,
   .generic, .generic, .generic, .generic, .generic, .generic, .generic, .generic, .generic,
   .generic, .generic, .generic, .generic, .generic, .generic, .generic, .generic, .generic,
   .generic, .generic, .generic, .generic, .generic, .generic, .FROM_c, .generic, .generic,
   .REFERTO, .generic, .CONTENTTYPE_c, .RACK, .generic, .generic, .CALLID, .CONTENTLENGTH_c,
   .CONTACT_c, .generic, .SUPPORTED_c, .generic, .CALLID_c, .VIA_c, .generic, .TO_c, .generic,
   .REFERTO_c, .generic, .generic, .generic, .generic, .generic, .generic, .generic, .WARNING,
   .generic, .generic, .generic, .generic, .generic, .PROXYAUTHORIZATION, .FROM, .generic,
   .generic, .generic, .CCDIVERSION, .CONTACT, .generic, .generic, .VIA, .generic, .REFERREDBY,
   .generic, .generic, .generic, .generic, .generic, .generic, .generic, .generic, .generic,
   .generic, .generic, .generic, .generic, .generic, .generic, .generic, .generic, .generic,
   .generic, .generic, .generic, .generic, .CSEQ, .generic, .RSEQ, .generic, .generic,
   .CONTENTTYPE, .generic, .generic, .generic, .generic, .generic, .generic, .generic, .generic,
   .generic, .generic, .EXPIRES, .generic, .AUTHORIZATION, .generic, .generic,
   .PASSERTEDIDENTITY, .generic, .generic, .generic, .generic, .generic, .generic, .generic,
   .generic, .generic, .generic, .ALSO, .generic, .generic, .generic, .generic, .generic,
   .generic, .generic, .CONTENTLENGTH, .generic, .generic, .REPLACES, .generic, .generic,
   .generic, .generic, .generic, .generic, .generic, .generic, .generic, .TO, .REASON, .generic,
   .generic, .generic, .generic, .generic, .generic, .generic, .generic, .USERAGENT, .generic,
   .generic, .RECORDROUTE, .generic, .WWWAUTHENTICATE, .generic, .generic, .generic, .generic,
   .generic, .generic, .generic, .generic, .generic, .generic, .generic, .generic, .generic,
   .generic, .generic, .generic, .SERVER, .ACCEPT, .generic, .generic, .generic, .generic,
   .generic, .generic, .generic, .generic, .generic, .ALLOW, .generic, .generic, .generic,
   .generic, .generic, .generic, .generic, .generic, .generic, .generic, .generic, .generic,
   .generic, .generic, .generic, .generic, .generic, .generic, .generic, .generic, .generic,
   .generic, .PROXYAUTHENTICATE, .generic, .generic, .generic, .generic, .generic, .generic,
   .generic, .generic, .generic, .generic, .generic, .MAXFORWARDS, .generic, .generic, .generic,
   .generic, .generic, .generic, .generic, .generic, .generic, .generic, .generic, .generic,
   .ROUTE, .generic, .generic, .generic, .generic, .generic, .generic, .DIVERSION, .generic,
   .generic, .generic]

/-- Up to four bytes as the word `memcpy` makes of them, the first lowest. -/
def word (a b c d : UInt8) : UInt32 :=
  a.toUInt32 ||| b.toUInt32 <<< 8 ||| c.toUInt32 <<< 16 ||| d.toUInt32 <<< 24

/-- One turn of the loop: the word lower-cased, the magic applied, and the result added. -/
def mix (res cval : UInt32) : UInt32 := res + ((cval ||| 0x20202020) ^^^ magic)

/-- The loop over the name, four bytes a turn. -/
def sum (res : UInt32) : Bytes → UInt32
  | a :: b :: c :: d :: rest => sum (mix res (word a b c d)) rest
  | [a, b, c] => mix res (word a b c 0)
  | [a, b] => mix res (word a b 0 0)
  | [a] => mix res (word a 0 0 0)
  | [] => res

/-- `usipy_fp_classify`. -/
def classify (T : Shift) (sp : Bytes) : Hf :=
  let res := sum (UInt32.ofNat sp.length) sp
  let res := if sp.length > 1 then T.shr res (sp.length - 1) else res
  toid.getD (res &&& 0xff).toNat .generic

end FastParser

/-! ## The comparison -/

namespace Turbo

/-- `markbetween(x, m, n)` over words of `k` bytes. -/
def markbetween (k : Nat) (x : BitVec (8 * k)) (m n : Nat) : BitVec (8 * k) :=
  let cFF := BitVec.allOnes (8 * k)
  let c01 := cFF / BitVec.ofNat (8 * k) 255
  let low := x &&& c01 * BitVec.ofNat (8 * k) 127
  (c01 * BitVec.ofNat (8 * k) (127 + n) - low) &&& ~~~x &&&
    (low + c01 * BitVec.ofNat (8 * k) (127 - m)) &&& c01 * BitVec.ofNat (8 * k) 128

/-- `TURBO_LCMASK` and `turbo_tolower`. -/
def tolower (k : Nat) (wrd : BitVec (8 * k)) : BitVec (8 * k) :=
  wrd ||| markbetween k wrd (65 - 1) (90 + 1) >>> 2

/-- The word of `k` bytes at an offset, the first byte lowest. -/
def load (k : Nat) (s : Bytes) (off : Nat) : BitVec (8 * k) :=
  BitVec.ofNat (8 * k) (((Arena.ofBytes s).readAt off k).foldr (fun b acc => b.toNat + 256 * acc) 0)

/-- How `FASTCASEBCMP_LOOP` ends: in a return, or with what is left for the next word size. -/
inductive LoopEnd where
  | done (r : Nat)
  | next (off len : Nat)
  deriving DecidableEq, Repr

/-- `FASTCASEBCMP_LOOP` over words of `k` bytes. A turn leaves less than it found, so the length is
fuel enough. The last word overlaps the one before it when the length is no multiple. -/
def loop (k : Nat) (s1 s2 : Bytes) : Nat → Nat → Nat → LoopEnd
  | 0, off, len => .next off len
  | fuel + 1, off, len =>
    if len < k then .next off len
    else if tolower k (load k s1 off) ≠ tolower k (load k s2 off) then .done 1
    else if len - k = 0 then .done 0
    else if len - k < k then loop k s1 s2 fuel (off + k - (k - (len - k))) k
    else loop k s1 s2 fuel (off + k) (len - k)

/-- The loops still to run, in falling order of word size. -/
def loops (s1 s2 : Bytes) : List Nat → Nat → Nat → Nat
  | [], _, _ => 0
  | k :: ks, off, len =>
    match loop k s1 s2 (len + 1) off len with
    | .done r => r
    | .next off len => loops s1 s2 ks off len

/-- `turbo_casebcmp` where `long` has eight bytes: 0 when the first `len` bytes agree. -/
def casebcmp (s1 s2 : Bytes) (len : Nat) : Nat := loops s1 s2 [8, 4, 2, 1] 0 len

end Turbo

/-- `usipy_hdr_db_lookup`, by the type whose entry it returns. The entry is fixed before the name is
confirmed, and the outcome of the confirmation only goes to `hid`, which nothing reads after. -/
def hdrDbLookup (T : Shift) (hname : Bytes) : Hf :=
  let hid := FastParser.classify T hname
  let r := hid
  let _hid :=
    if hid ≠ .generic ∧ ((hdrDb r).name.length ≠ hname.length ∨
        Turbo.casebcmp (hdrDb r).name hname hname.length ≠ 0) then .generic
    else hid
  r

end Microsippy
