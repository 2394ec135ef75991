import Microsippy.Str

/-! # Methods and transaction hashes

`usipy_sip_method_db.c` as a table, and the MurmurHash3 of `usipy_sip_tid.c` that transactions and
dialogs are matched by.
-/

namespace Microsippy

set_option autoImplicit false

/-- `USIPY_SIP_METHOD_*`. -/
inductive Method where
  | generic | ACK | BYE | CANCEL | INFO | INVITE | OPTIONS | PRACK | REFER | REGISTER | SUBSCRIBE
  | NOTIFY
  deriving DecidableEq, Repr

namespace Method

def all : List Method :=
  [.generic, .ACK, .BYE, .CANCEL, .INFO, .INVITE, .OPTIONS, .PRACK, .REFER, .REGISTER, .SUBSCRIBE,
   .NOTIFY]

/-- The number of a method, as `usipy_method_db_entr.cantype` has it. -/
def cantype (m : Method) : UInt8 := UInt8.ofNat (all.idxOf m)

/-- The method of a number, none past `USIPY_SIP_METHOD_max`. -/
def ofByte? (n : UInt8) : Option Method := all[n.toNat]?

/-- `usipy_method_db[].name`. -/
def name : Method → Bytes
  | .generic => []
  | .ACK => bytes "ACK"
  | .BYE => bytes "BYE"
  | .CANCEL => bytes "CANCEL"
  | .INFO => bytes "INFO"
  | .INVITE => bytes "INVITE"
  | .OPTIONS => bytes "OPTIONS"
  | .PRACK => bytes "PRACK"
  | .REFER => bytes "REFER"
  | .REGISTER => bytes "REGISTER"
  | .SUBSCRIBE => bytes "SUBSCRIBE"
  | .NOTIFY => bytes "NOTIFY"

end Method

/-! ## MurmurHash3 -/

namespace Murmur

def rotl32 (x r : UInt32) : UInt32 := x <<< r ||| x >>> (32 - r)

def c1 : UInt32 := 0xcc9e2d51
def c2 : UInt32 := 0x1b873593

/-- `getblock32` on a little-endian machine. -/
def block (a b c d : UInt8) : UInt32 :=
  a.toUInt32 ||| b.toUInt32 <<< 8 ||| c.toUInt32 <<< 16 ||| d.toUInt32 <<< 24

/-- A key word as it enters the hash. -/
def scramble (k1 : UInt32) : UInt32 := rotl32 (k1 * c1) 15 * c2

/-- The body over whole blocks, then the tail. -/
def body (h1 : UInt32) : Bytes → UInt32
  | a :: b :: c :: d :: rest =>
    body (rotl32 (h1 ^^^ scramble (block a b c d)) 13 * 5 + 0xe6546b64) rest
  | [a, b, c] => h1 ^^^ scramble (block a b c 0)
  | [a, b] => h1 ^^^ scramble (block a b 0 0)
  | [a] => h1 ^^^ scramble (block a 0 0 0)
  | [] => h1

def fmix32 (h : UInt32) : UInt32 :=
  let h := h ^^^ h >>> 16
  let h := h * 0x85ebca6b
  let h := h ^^^ h >>> 13
  let h := h * 0xc2b2ae35
  h ^^^ h >>> 16

/-- `MurmurHash3_32`. -/
def hash (key : Bytes) (seed : UInt32) : UInt32 :=
  fmix32 (body seed key ^^^ UInt32.ofNat key.length)

end Murmur

/-- The bytes of a 32-bit word in memory, the lowest first. -/
def wordBytes (x : UInt32) : Bytes :=
  [x.toUInt8, (x >>> 8).toUInt8, (x >>> 16).toUInt8, (x >>> 24).toUInt8]

/-- `struct usipy_sip_hdr_cseq`. -/
structure Cseq where
  onwire_method : Str := Str.null
  val : UInt32 := 0
  method : Method := .generic
  deriving DecidableEq, Repr

/-- `struct usipy_sip_tid`. -/
structure Tid where
  call_id : Str
  from_tag : Str
  vbranch : Str
  cseq : Cseq
  hash : UInt32
  deriving DecidableEq, Repr

/-- `usipy_sip_tid_hash`. -/
def tidHash (m : Mem) (call_id from_tag vbranch : Str) (cseq : Cseq) : UInt32 :=
  let rval := Murmur.hash (m.read call_id) 0
  let rval := Murmur.hash (m.read from_tag) rval
  let rval := Murmur.hash (m.read vbranch) rval
  let rval :=
    if cseq.method = .generic then Murmur.hash (m.read cseq.onwire_method) rval
    else Murmur.hash [cseq.method.cantype] rval
  Murmur.hash (wordBytes cseq.val) rval

/-- `usipy_sip_dialog_hash`. -/
def dialogHash (m : Mem) (call_id from_tag to_tag : Str) : UInt32 :=
  Murmur.hash (m.read to_tag) (Murmur.hash (m.read from_tag) (Murmur.hash (m.read call_id) 0))

/-- `usipy_sip_dialog_tid_hash`. -/
def dialogTidHash (m : Mem) (call_id from_tag to_tag : Str) (cseq : UInt32) (method : Method) :
    UInt32 :=
  let rval := dialogHash m call_id from_tag to_tag
  let rval := Murmur.hash [method.cantype] rval
  Murmur.hash (wordBytes cseq) rval

end Microsippy
