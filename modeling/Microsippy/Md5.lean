import Microsippy.Digest
import Microsippy.Lib.Blocks

/-! # MD5

`md5.h`: the digest of a message that comes in pieces, its blocks put together in a cache, and the
algorithm of RFC 1321 that it is to be.
-/

namespace Microsippy

set_option autoImplicit false

namespace Md5

/-! ## The code -/

/-- The registers of `md5_context`. -/
@[ext] structure Regs where
  a : UInt32
  b : UInt32
  c : UInt32
  d : UInt32
  deriving DecidableEq, Repr

inductive Round | FF | GG | HH | II
  deriving DecidableEq, Repr

/-- `MD5_F` to `MD5_I` -/
def Round.fn (x y z : UInt32) : Round → UInt32
  | FF => (x &&& y) ||| (~~~x &&& z)
  | GG => (x &&& z) ||| (y &&& ~~~z)
  | HH => x ^^^ y ^^^ z
  | II => y ^^^ (x ||| ~~~z)

/-- `MD5_ROTATE_LEFT` -/
def rotateLeft (x n : UInt32) : UInt32 := (x <<< n) ||| (x >>> (32 - n))

/-- The order a macro is given the registers in. -/
inductive Order | abcd | dabc | cdab | bcda
  deriving DecidableEq, Repr

/-- One of the macros `MD5_FF` to `MD5_II` as `md5_update_block` has it. -/
structure Step where
  round : Round
  order : Order
  x : Nat
  s : UInt32
  ac : UInt32
  deriving DecidableEq, Repr

/-- What a macro makes of its first register. -/
def Step.value (st : Step) (a b c d x : UInt32) : UInt32 :=
  rotateLeft (a + (st.round.fn b c d + x + st.ac)) st.s + b

def Step.run (x : Nat → UInt32) (r : Regs) (st : Step) : Regs :=
  match st.order with
  | .abcd => { r with a := st.value r.a r.b r.c r.d (x st.x) }
  | .dabc => { r with d := st.value r.d r.a r.b r.c (x st.x) }
  | .cdab => { r with c := st.value r.c r.d r.a r.b (x st.x) }
  | .bcda => { r with b := st.value r.b r.c r.d r.a (x st.x) }

/-- The steps of `md5_update_block`. -/
def steps : List Step :=
  [ ⟨.FF, .abcd, 0, 7, 0xd76aa478⟩, ⟨.FF, .dabc, 1, 12, 0xe8c7b756⟩,
    ⟨.FF, .cdab, 2, 17, 0x242070db⟩, ⟨.FF, .bcda, 3, 22, 0xc1bdceee⟩,
    ⟨.FF, .abcd, 4, 7, 0xf57c0faf⟩, ⟨.FF, .dabc, 5, 12, 0x4787c62a⟩,
    ⟨.FF, .cdab, 6, 17, 0xa8304613⟩, ⟨.FF, .bcda, 7, 22, 0xfd469501⟩,
    ⟨.FF, .abcd, 8, 7, 0x698098d8⟩, ⟨.FF, .dabc, 9, 12, 0x8b44f7af⟩,
    ⟨.FF, .cdab, 10, 17, 0xffff5bb1⟩, ⟨.FF, .bcda, 11, 22, 0x895cd7be⟩,
    ⟨.FF, .abcd, 12, 7, 0x6b901122⟩, ⟨.FF, .dabc, 13, 12, 0xfd987193⟩,
    ⟨.FF, .cdab, 14, 17, 0xa679438e⟩, ⟨.FF, .bcda, 15, 22, 0x49b40821⟩,
    ⟨.GG, .abcd, 1, 5, 0xf61e2562⟩, ⟨.GG, .dabc, 6, 9, 0xc040b340⟩,
    ⟨.GG, .cdab, 11, 14, 0x265e5a51⟩, ⟨.GG, .bcda, 0, 20, 0xe9b6c7aa⟩,
    ⟨.GG, .abcd, 5, 5, 0xd62f105d⟩, ⟨.GG, .dabc, 10, 9, 0x02441453⟩,
    ⟨.GG, .cdab, 15, 14, 0xd8a1e681⟩, ⟨.GG, .bcda, 4, 20, 0xe7d3fbc8⟩,
    ⟨.GG, .abcd, 9, 5, 0x21e1cde6⟩, ⟨.GG, .dabc, 14, 9, 0xc33707d6⟩,
    ⟨.GG, .cdab, 3, 14, 0xf4d50d87⟩, ⟨.GG, .bcda, 8, 20, 0x455a14ed⟩,
    ⟨.GG, .abcd, 13, 5, 0xa9e3e905⟩, ⟨.GG, .dabc, 2, 9, 0xfcefa3f8⟩,
    ⟨.GG, .cdab, 7, 14, 0x676f02d9⟩, ⟨.GG, .bcda, 12, 20, 0x8d2a4c8a⟩,
    ⟨.HH, .abcd, 5, 4, 0xfffa3942⟩, ⟨.HH, .dabc, 8, 11, 0x8771f681⟩,
    ⟨.HH, .cdab, 11, 16, 0x6d9d6122⟩, ⟨.HH, .bcda, 14, 23, 0xfde5380c⟩,
    ⟨.HH, .abcd, 1, 4, 0xa4beea44⟩, ⟨.HH, .dabc, 4, 11, 0x4bdecfa9⟩,
    ⟨.HH, .cdab, 7, 16, 0xf6bb4b60⟩, ⟨.HH, .bcda, 10, 23, 0xbebfbc70⟩,
    ⟨.HH, .abcd, 13, 4, 0x289b7ec6⟩, ⟨.HH, .dabc, 0, 11, 0xeaa127fa⟩,
    ⟨.HH, .cdab, 3, 16, 0xd4ef3085⟩, ⟨.HH, .bcda, 6, 23, 0x04881d05⟩,
    ⟨.HH, .abcd, 9, 4, 0xd9d4d039⟩, ⟨.HH, .dabc, 12, 11, 0xe6db99e5⟩,
    ⟨.HH, .cdab, 15, 16, 0x1fa27cf8⟩, ⟨.HH, .bcda, 2, 23, 0xc4ac5665⟩,
    ⟨.II, .abcd, 0, 6, 0xf4292244⟩, ⟨.II, .dabc, 7, 10, 0x432aff97⟩,
    ⟨.II, .cdab, 14, 15, 0xab9423a7⟩, ⟨.II, .bcda, 5, 21, 0xfc93a039⟩,
    ⟨.II, .abcd, 12, 6, 0x655b59c3⟩, ⟨.II, .dabc, 3, 10, 0x8f0ccc92⟩,
    ⟨.II, .cdab, 10, 15, 0xffeff47d⟩, ⟨.II, .bcda, 1, 21, 0x85845dd1⟩,
    ⟨.II, .abcd, 8, 6, 0x6fa87e4f⟩, ⟨.II, .dabc, 15, 10, 0xfe2ce6e0⟩,
    ⟨.II, .cdab, 6, 15, 0xa3014314⟩, ⟨.II, .bcda, 13, 21, 0x4e0811a1⟩,
    ⟨.II, .abcd, 4, 6, 0xf7537e82⟩, ⟨.II, .dabc, 11, 10, 0xbd3af235⟩,
    ⟨.II, .cdab, 2, 15, 0x2ad7d2bb⟩, ⟨.II, .bcda, 9, 21, 0xeb86d391⟩]

/-- `md5_decode` -/
def decode (src : Bytes) (i : Nat) : UInt32 :=
  let byte := fun k => (src.getD (4 * i + k) 0).toUInt32
  byte 0 ||| (byte 1 <<< 8) ||| (byte 2 <<< 16) ||| (byte 3 <<< 24)

/-- `md5_update_block`, the registers. -/
def updateBlock (r : Regs) (src : Bytes) : Regs :=
  let r' := steps.foldl (Step.run (decode src)) r
  ⟨r.a + r'.a, r.b + r'.b, r.c + r'.c, r.d + r'.d⟩

/-- `md5_context` -/
structure Context where
  regs : Regs
  sz : UInt64
  cache : Arena
  cacheLen : Nat

namespace Context

/-- `md5_init` -/
def init : Context := ⟨⟨0x67452301, 0xefcdab89, 0x98badcfe, 0x10325476⟩, 0, .zero, 0⟩

/-- `md5_update_block` -/
def block (ctx : Context) (src : Bytes) : Context :=
  { ctx with regs := updateBlock ctx.regs src, cacheLen := 0 }

/-- `md5_update_block` of the cache -/
def flush (ctx : Context) : Context := ctx.block (ctx.cache.readAt 0 64)

/-- Bytes written at the end of the cache. -/
def put (ctx : Context) (b : Bytes) : Context :=
  { ctx with cache := ctx.cache.writeAt ctx.cacheLen b, cacheLen := ctx.cacheLen + b.length }

/-- The loop of `md5_update`. A turn takes a byte at least, so the length is fuel enough. -/
def updateLoop : Nat → Context → Bytes → Context
  | 0, ctx, _ => ctx
  | fuel + 1, ctx, src =>
    if src = [] then ctx
    else if ctx.cacheLen = 0 ∧ 64 < src.length then
      updateLoop fuel (ctx.block (src.take 64)) (src.drop 64)
    else
      let bytesToProcess := min src.length (64 - ctx.cacheLen)
      let ctx := ctx.put (src.take bytesToProcess)
      let ctx := if 64 - ctx.cacheLen = 0 then ctx.flush else ctx
      updateLoop fuel ctx (src.drop bytesToProcess)

/-- `md5_update` -/
def update (ctx : Context) (src : Bytes) : Context :=
  let ctx := updateLoop src.length ctx src
  { ctx with sz := ctx.sz + UInt64.ofNat src.length }

/-- What `md5_finalize` writes of the size. -/
def sizeBytes (sz : UInt64) : Bytes :=
  let szLo := (((sz >>> 0) &&& 0xffffffff) <<< 3).toUInt32
  let szHi := (((sz >>> 32) &&& 0xffffffff) <<< 3).toUInt32
  [szLo >>> 0, szLo >>> 8, szLo >>> 16, szLo >>> 24, szHi >>> 0, szHi >>> 8, szHi >>> 16,
    szHi >>> 24].map fun v => (v &&& 0xff).toUInt8

/-- The digest as `md5_finalize` writes it. -/
def digest (r : Regs) (i : Fin 16) : UInt8 :=
  ([r.a >>> 0, r.a >>> 8, r.a >>> 16, r.a >>> 24, r.b >>> 0, r.b >>> 8, r.b >>> 16, r.b >>> 24,
    r.c >>> 0, r.c >>> 8, r.c >>> 16, r.c >>> 24, r.d >>> 0, r.d >>> 8, r.d >>> 16, r.d >>> 24].getD
      i 0).toUInt8

/-- `md5_finalize` -/
def finalize (ctx : Context) : Fin 16 → UInt8 :=
  let ctx := if 64 - ctx.cacheLen = 0 then ctx.flush else ctx
  let ctx := ctx.put [0x80]
  let ctx := if 64 - ctx.cacheLen < 8 then
      (ctx.put (List.replicate (64 - ctx.cacheLen) 0)).flush
    else ctx
  let ctx := ctx.put (List.replicate (64 - ctx.cacheLen - 8) 0)
  let ctx := { ctx with cache := ctx.cache.writeAt 56 (sizeBytes ctx.sz) }
  digest ctx.flush.regs

end Context

/-- `md5` -/
def md5 : Md5 := fun src => (Context.init.update src).finalize

/-- The loop of `usipy_sip_hdr_authz_md5_hex`, from a part on. -/
def hexLoop : Nat → Context → List Bytes → Context
  | _, ctx, [] => ctx
  | i, ctx, part :: parts =>
    let ctx := if i ≠ 0 then ctx.update (bytes ":") else ctx
    let ctx := if part.length ≠ 0 then ctx.update part else ctx
    hexLoop (i + 1) ctx parts

/-- `usipy_sip_hdr_authz_md5_hex` -/
def md5Hex (parts : List Bytes) : Bytes := Authz.md5Format (hexLoop 0 Context.init parts).finalize

example : Authz.md5Format (md5 (bytes "message digest")) =
    bytes "f96b697d7cb7938d525a2f31aaf161d0" := by
  decide +kernel

/-! ## The algorithm -/

/-- The constants of the steps. -/
def sines : List UInt32 :=
  [ 0xd76aa478, 0xe8c7b756, 0x242070db, 0xc1bdceee, 0xf57c0faf, 0x4787c62a, 0xa8304613, 0xfd469501,
    0x698098d8, 0x8b44f7af, 0xffff5bb1, 0x895cd7be, 0x6b901122, 0xfd987193, 0xa679438e, 0x49b40821,
    0xf61e2562, 0xc040b340, 0x265e5a51, 0xe9b6c7aa, 0xd62f105d, 0x02441453, 0xd8a1e681, 0xe7d3fbc8,
    0x21e1cde6, 0xc33707d6, 0xf4d50d87, 0x455a14ed, 0xa9e3e905, 0xfcefa3f8, 0x676f02d9, 0x8d2a4c8a,
    0xfffa3942, 0x8771f681, 0x6d9d6122, 0xfde5380c, 0xa4beea44, 0x4bdecfa9, 0xf6bb4b60, 0xbebfbc70,
    0x289b7ec6, 0xeaa127fa, 0xd4ef3085, 0x04881d05, 0xd9d4d039, 0xe6db99e5, 0x1fa27cf8, 0xc4ac5665,
    0xf4292244, 0x432aff97, 0xab9423a7, 0xfc93a039, 0x655b59c3, 0x8f0ccc92, 0xffeff47d, 0x85845dd1,
    0x6fa87e4f, 0xfe2ce6e0, 0xa3014314, 0x4e0811a1, 0xf7537e82, 0xbd3af235, 0x2ad7d2bb, 0xeb86d391]

def roundOf (i : Nat) : Round :=
  if i < 16 then .FF else if i < 32 then .GG else if i < 48 then .HH else .II

/-- The word of the block a step takes. -/
def wordOf (i : Nat) : Nat :=
  (match roundOf i with
    | .FF => i
    | .GG => 5 * i + 1
    | .HH => 3 * i + 5
    | .II => 7 * i) % 16

def shiftOf (i : Nat) : Nat :=
  (match roundOf i with
    | .FF => [7, 12, 17, 22]
    | .GG => [5, 9, 14, 20]
    | .HH => [4, 11, 16, 23]
    | .II => [6, 10, 15, 21]).getD (i % 4) 0

/-- A step, after which each register takes the place of the next. -/
def rfcStep (x : Nat → UInt32) (r : Regs) (i : Nat) : Regs where
  a := r.d
  b := r.b + UInt32.ofBitVec
    ((r.a + (roundOf i).fn r.b r.c r.d + x (wordOf i) + sines.getD i 0).toBitVec.rotateLeft
      (shiftOf i))
  c := r.b
  d := r.c

/-- A word, low byte first. -/
def littleEndian (src : Bytes) (i : Nat) : UInt32 :=
  UInt32.ofNat ((src.getD (4 * i) 0).toNat + 2 ^ 8 * (src.getD (4 * i + 1) 0).toNat +
    2 ^ 16 * (src.getD (4 * i + 2) 0).toNat + 2 ^ 24 * (src.getD (4 * i + 3) 0).toNat)

def rfcBlock (r : Regs) (src : Bytes) : Regs :=
  let r' := (List.range 64).foldl (rfcStep (littleEndian src)) r
  ⟨r.a + r'.a, r.b + r'.b, r.c + r'.c, r.d + r'.d⟩

/-- The number of bits, low byte first, of which 64 bits are kept. -/
def lengthField (n : Nat) : Bytes := (List.range 8).map fun k => UInt8.ofNat (8 * n / 2 ^ (8 * k))

/-- What follows a message of some length: a bit that is set, and zeros up to the last 8 bytes of a
block. -/
def padding (n : Nat) (field : Bytes) : Bytes :=
  0x80 :: (List.replicate ((119 - n % 64) % 64) 0 ++ field)

/-- MD5 by RFC 1321. -/
def rfc : Md5 := fun b =>
  let padded := b ++ padding b.length (lengthField b.length)
  Context.digest (Blocks.fold rfcBlock 64 (padded.length / 64) Context.init.regs padded)

/-! ## A block -/

theorem rotateLeft_eq {s : Nat} (hPos : 0 < s) (hLt : s < 32) (x : UInt32) :
    rotateLeft x (UInt32.ofNat s) = UInt32.ofBitVec (x.toBitVec.rotateLeft s) := by
  have hNat : (UInt32.ofNat s).toNat = s := UInt32.toNat_ofNat_of_lt' (by
    rw [UInt32.size]
    omega)
  have hSub : (32 - UInt32.ofNat s).toNat = 32 - s := by
    rw [UInt32.toNat_sub_of_le, hNat]
    · rfl
    · rw [UInt32.le_iff_toNat_le, hNat]
      exact Nat.le_of_lt hLt
  apply UInt32.toBitVec_inj.mp
  apply BitVec.eq_of_toNat_eq
  rw [rotateLeft, UInt32.toBitVec_or, BitVec.rotateLeft_def, BitVec.toNat_or, BitVec.toNat_or,
    UInt32.toNat_toBitVec, UInt32.toNat_toBitVec, UInt32.toNat_shiftLeft, UInt32.toNat_shiftRight,
    hNat, hSub, BitVec.toNat_shiftLeft, BitVec.toNat_ushiftRight, UInt32.toNat_toBitVec,
    Nat.mod_eq_of_lt hLt, Nat.mod_eq_of_lt (Nat.sub_lt (by decide) hPos)]

theorem shiftOf_bounds (i : Nat) : 0 < shiftOf i ∧ shiftOf i < 32 := by
  have hFour : i % 4 < 4 := Nat.mod_lt i (by decide)
  rw [shiftOf]
  generalize i % 4 = k at hFour
  cases roundOf i with
  | FF => revert k; decide
  | GG => revert k; decide
  | HH => revert k; decide
  | II => revert k; decide

/-- The order after a step. -/
def Order.next : Order → Order
  | abcd => dabc
  | dabc => cdab
  | cdab => bcda
  | bcda => abcd

def orderOf : Nat → Order
  | 0 => .abcd
  | i + 1 => (orderOf i).next

/-- The registers in an order. -/
def Order.view (r : Regs) : Order → Regs
  | abcd => r
  | dabc => ⟨r.d, r.a, r.b, r.c⟩
  | cdab => ⟨r.c, r.d, r.a, r.b⟩
  | bcda => ⟨r.b, r.c, r.d, r.a⟩

/-- A step of the code, from the schedule of the algorithm. -/
def stepOf (i : Nat) : Step :=
  ⟨roundOf i, orderOf i, wordOf i, UInt32.ofNat (shiftOf i), sines.getD i 0⟩

theorem steps_eq : steps = (List.range 64).map stepOf := by decide +kernel

theorem value_stepOf (i : Nat) (a b c d x : UInt32) : (stepOf i).value a b c d x =
    b + UInt32.ofBitVec
      ((a + (roundOf i).fn b c d + x + sines.getD i 0).toBitVec.rotateLeft (shiftOf i)) := by
  obtain ⟨hPos, hLt⟩ := shiftOf_bounds i
  rw [Step.value, stepOf, rotateLeft_eq hPos hLt, UInt32.add_comm, ← UInt32.add_assoc,
    ← UInt32.add_assoc]

/-- The code writes one register a step, where the algorithm passes them on. -/
theorem view_run (x : Nat → UInt32) (r : Regs) (i : Nat) :
    (orderOf (i + 1)).view ((stepOf i).run x r) = rfcStep x ((orderOf i).view r) i := by
  have hOrder : (stepOf i).order = orderOf i := rfl
  have hWord : (stepOf i).x = wordOf i := rfl
  rw [Step.run, hOrder, hWord, orderOf]
  cases orderOf i with
  | abcd => simp only [Order.next, Order.view, value_stepOf, rfcStep]
  | dabc => simp only [Order.next, Order.view, value_stepOf, rfcStep]
  | cdab => simp only [Order.next, Order.view, value_stepOf, rfcStep]
  | bcda => simp only [Order.next, Order.view, value_stepOf, rfcStep]

theorem view_steps (x : Nat → UInt32) (r : Regs) (n : Nat) :
    (orderOf n).view ((List.range n).foldl (fun r i => (stepOf i).run x r) r) =
      (List.range n).foldl (rfcStep x) r := by
  induction n with
  | zero => rfl
  | succ n ih => rw [List.range_succ, List.foldl_concat, List.foldl_concat, view_run, ih]

theorem or_shift {i a b : Nat} (hLt : b < 2 ^ i) : b ||| a <<< i = b + 2 ^ i * a := by
  rw [Nat.or_comm, ← Nat.shiftLeft_add_eq_or_of_lt hLt, Nat.shiftLeft_eq, Nat.mul_comm,
    Nat.add_comm]

theorem shift_mod {k : Nat} (v : UInt8) (hk : k ≤ 24) :
    v.toNat <<< k % 2 ^ 32 = v.toNat <<< k := by
  have hPow : 2 ^ k ≤ 2 ^ 24 := Nat.pow_le_pow_right (by decide) hk
  have hLt := v.toNat_lt
  apply Nat.mod_eq_of_lt
  calc v.toNat <<< k = v.toNat * 2 ^ k := Nat.shiftLeft_eq ..
    _ ≤ v.toNat * 2 ^ 24 := Nat.mul_le_mul_left _ hPow
    _ < 2 ^ 32 := by omega

theorem decode_eq (src : Bytes) : decode src = littleEndian src := by
  funext i
  apply UInt32.toNat_inj.mp
  have h0 := (src.getD (4 * i) 0).toNat_lt
  have h1 := (src.getD (4 * i + 1) 0).toNat_lt
  have h2 := (src.getD (4 * i + 2) 0).toNat_lt
  have h3 := (src.getD (4 * i + 3) 0).toNat_lt
  simp only [decode, littleEndian, UInt32.toNat_or, UInt32.toNat_shiftLeft, UInt8.toNat_toUInt32,
    UInt32.toNat_ofNat, Nat.add_zero]
  rw [shift_mod _ (by decide), shift_mod _ (by decide), shift_mod _ (by decide),
    or_shift h0, or_shift (i := 16) (by omega), or_shift (i := 24) (by omega),
    UInt32.toNat_ofNat_of_lt']
  rw [UInt32.size]
  omega

theorem updateBlock_eq : updateBlock = rfcBlock := by
  funext r src
  have hOrder : orderOf 64 = .abcd := by decide
  have hSteps := view_steps (decode src) r 64
  rw [hOrder, Order.view] at hSteps
  rw [updateBlock, rfcBlock, steps_eq, List.foldl_map, hSteps, decode_eq]

/-! ## The stream -/

namespace Context

variable {ctx : Context} {b : Bytes}

/-- What has been taken in so far. -/
def stream (ctx : Context) : Blocks.Stream Regs UInt8 :=
  ⟨ctx.regs, ctx.cache.readAt 0 ctx.cacheLen⟩

theorem length_stream (ctx : Context) : ctx.stream.rest.length = ctx.cacheLen :=
  Arena.length_readAt ..

theorem stream_put (ctx : Context) (b : Bytes) :
    (ctx.put b).stream = ⟨ctx.regs, ctx.stream.rest ++ b⟩ := by
  have hAfter := ctx.cache.readAt_writeAt_after 0 ctx.cacheLen b
  rw [Nat.zero_add] at hAfter
  rw [stream, put, stream, hAfter]

theorem stream_flush (hFull : ctx.cacheLen = 64) :
    ctx.flush.stream = ⟨updateBlock ctx.regs ctx.stream.rest, []⟩ := by
  rw [stream, flush, block, stream, hFull]
  rfl

theorem stream_fill (hRoom : ctx.cacheLen + b.length = 64) :
    (ctx.put b).flush.stream = Blocks.feed updateBlock 64 ctx.stream b := by
  have hLength : (ctx.stream.rest ++ b).length = 64 := by
    rw [List.length_append, length_stream, hRoom]
  have hRest : (ctx.put b).stream.rest = ctx.stream.rest ++ b := by rw [stream_put]
  rw [stream_flush hRoom, hRest, Blocks.feed_block (by decide) hLength]
  rfl

theorem stream_keep (hRoom : ctx.cacheLen + b.length < 64) :
    (ctx.put b).stream = Blocks.feed updateBlock 64 ctx.stream b := by
  have hLength : (ctx.stream.rest ++ b).length < 64 := by rwa [List.length_append, length_stream]
  rw [stream_put, Blocks.feed_short hLength]
  rfl

/-- A block that goes by the cache. -/
theorem stream_block (hEmpty : ctx.cacheLen = 0) (hBlock : b.length = 64) :
    (ctx.block b).stream = Blocks.feed updateBlock 64 ctx.stream b := by
  have hRest : ctx.stream.rest = [] := by
    apply List.eq_nil_of_length_eq_zero
    rw [length_stream, hEmpty]
  rw [Blocks.feed_block (by decide) (by rwa [hRest]), hRest]
  rfl

theorem cacheLen_lt {x : Blocks.Stream Regs UInt8}
    (hStream : ctx.stream = Blocks.feed updateBlock 64 x b) : ctx.cacheLen < 64 := by
  rw [← length_stream, hStream]
  exact Blocks.length_rest_feed (by decide)

/-- Bytes for which there is room, and the cache processed where they fill it. -/
theorem stream_store (hRoom : ctx.cacheLen + b.length ≤ 64) :
    (if 64 - (ctx.put b).cacheLen = 0 then (ctx.put b).flush else ctx.put b).stream =
      Blocks.feed updateBlock 64 ctx.stream b := by
  have hCount : (ctx.put b).cacheLen = ctx.cacheLen + b.length := rfl
  rw [hCount]
  split_ifs with hFull
  · apply stream_fill
    omega
  · apply stream_keep
    omega

/-- By induction on the turns: each feeds a part of the bytes, and leaves room in the cache. -/
theorem updateLoop_stream (fuel : Nat) (hFuel : b.length ≤ fuel) (hRoom : ctx.cacheLen < 64) :
    (updateLoop fuel ctx b).stream = Blocks.feed updateBlock 64 ctx.stream b := by
  induction fuel generalizing ctx b with
  | zero =>
    rw [List.eq_nil_of_length_eq_zero (Nat.le_zero.mp hFuel), Blocks.feed_nil]
    · rfl
    · rwa [length_stream]
  | succ fuel ih =>
    have hTurn : ∀ (turn : Context) (m : Nat), 0 < m → b ≠ [] →
        turn.stream = Blocks.feed updateBlock 64 ctx.stream (b.take m) →
        (updateLoop fuel turn (b.drop m)).stream = Blocks.feed updateBlock 64 ctx.stream b := by
      intro turn m hPos hSome hStream
      have hLength := List.length_pos_of_ne_nil hSome
      rw [ih _ (cacheLen_lt hStream), hStream, Blocks.feed_append (by decide),
        List.take_append_drop]
      rw [List.length_drop]
      omega
    rw [updateLoop]
    split_ifs with hNil hFast
    · rw [hNil, Blocks.feed_nil]
      rwa [length_stream]
    · obtain ⟨hEmpty, hLong⟩ := hFast
      apply hTurn _ 64 (by decide) hNil
      exact stream_block hEmpty (List.length_take_of_le hLong.le)
    · have hLength := List.length_pos_of_ne_nil hNil
      apply hTurn _ (min b.length (64 - ctx.cacheLen)) (by omega) hNil
      apply stream_store
      rw [List.length_take]
      omega

theorem update_stream (hRoom : ctx.cacheLen < 64) (b : Bytes) :
    (ctx.update b).stream = Blocks.feed updateBlock 64 ctx.stream b :=
  updateLoop_stream b.length le_rfl hRoom

@[simp] theorem sz_block (ctx : Context) (b : Bytes) : (ctx.block b).sz = ctx.sz := by rw [block]

@[simp] theorem sz_flush (ctx : Context) : ctx.flush.sz = ctx.sz := sz_block ..

@[simp] theorem sz_put (ctx : Context) (b : Bytes) : (ctx.put b).sz = ctx.sz := by rw [put]

theorem updateLoop_sz (fuel : Nat) : (updateLoop fuel ctx b).sz = ctx.sz := by
  induction fuel generalizing ctx b with
  | zero => rfl
  | succ fuel ih =>
    rw [updateLoop]
    split_ifs
    · rfl
    · rw [ih, sz_block]
    · rw [ih, apply_ite Context.sz, sz_flush, sz_put, ite_self]

theorem update_sz (ctx : Context) (b : Bytes) :
    (ctx.update b).sz = ctx.sz + UInt64.ofNat b.length := by
  have hLoop := @updateLoop_sz ctx b b.length
  rw [update, hLoop]

theorem padding_mod {n m : Nat} (h : n % 64 = m % 64) (field : Bytes) :
    padding n field = padding m field := by
  rw [padding, padding, h]

/-- The last block of `md5_finalize`, from a cache with room for the size. -/
def lastBlock (ctx : Context) : Context :=
  let ctx := ctx.put (List.replicate (64 - ctx.cacheLen - 8) 0)
  let ctx := { ctx with cache := ctx.cache.writeAt 56 (sizeBytes ctx.sz) }
  ctx.flush

theorem flush_congr {c d : Context} (hRegs : c.regs = d.regs) (hCache : c.cache = d.cache) :
    c.flush.stream = d.flush.stream := by
  rw [stream, stream, flush, flush, block, block, hRegs, hCache]

theorem lastBlock_stream (hRoom : ctx.cacheLen ≤ 56) :
    ctx.lastBlock.stream = Blocks.feed updateBlock 64 ctx.stream
      (List.replicate (56 - ctx.cacheLen) 0 ++ sizeBytes ctx.sz) := by
  have hZeros : 64 - ctx.cacheLen - 8 = 56 - ctx.cacheLen := by omega
  have hCount : (ctx.put (List.replicate (56 - ctx.cacheLen) 0)).cacheLen = 56 := by
    rw [put, List.length_replicate]
    exact Nat.add_sub_of_le hRoom
  have hShort := @stream_keep ctx (List.replicate (56 - ctx.cacheLen) 0) (by
    rw [List.length_replicate]
    omega)
  have hFill := @stream_fill (ctx.put (List.replicate (56 - ctx.cacheLen) 0))
    (sizeBytes ctx.sz) (by
      rw [hCount]
      rfl)
  rw [hShort, Blocks.feed_append (by decide)] at hFill
  rw [← hFill, lastBlock, hZeros, sz_put]
  generalize ctx.put (List.replicate (56 - ctx.cacheLen) 0) = full at hCount
  apply flush_congr
  · rw [put]
  · rw [put, hCount]

theorem put_put (ctx : Context) (b c : Bytes) : (ctx.put b).put c = ctx.put (b ++ c) := by
  simp only [put, Arena.writeAt_append, List.length_append, Nat.add_assoc]

theorem replicate_append_zeros {n m k : Nat} (h : n + m = k) (field : Bytes) :
    List.replicate n 0 ++ (List.replicate m 0 ++ field) = List.replicate k 0 ++ field := by
  rw [← List.append_assoc, List.replicate_append_replicate, h]

/-- What the code puts in the cache at the end is the padding. -/
theorem finalize_eq (hRoom : ctx.cacheLen < 64) : ctx.finalize = digest
    (Blocks.feed updateBlock 64 ctx.stream (padding ctx.cacheLen (sizeBytes ctx.sz))).state := by
  have hNotFull : ¬ 64 - ctx.cacheLen = 0 := by omega
  have hMark : (ctx.put [0x80]).cacheLen = ctx.cacheLen + 1 := rfl
  rw [finalize, if_neg hNotFull, hMark]
  by_cases hLate : 64 - (ctx.cacheLen + 1) < 8
  -- no room for the size: a block of zeros before that of the size
  · have hFirst := @stream_fill ctx ([0x80] ++ List.replicate (64 - (ctx.cacheLen + 1)) 0) (by
        rw [List.length_append, List.length_replicate]
        change ctx.cacheLen + (1 + _) = 64
        omega)
    rw [if_pos hLate, put_put]
    generalize hCtx : (ctx.put ([0x80] ++ List.replicate (64 - (ctx.cacheLen + 1)) 0)).flush = full
    have hSz : full.sz = ctx.sz := by rw [← hCtx, sz_flush, sz_put]
    have hLast := @lastBlock_stream full (by
      rw [← hCtx]
      exact Nat.zero_le 56)
    have hEmpty : full.cacheLen = 0 := by rw [← hCtx, flush, block]
    rw [← hCtx, hFirst, Blocks.feed_append (by decide), hCtx, hSz, hEmpty] at hLast
    change digest full.lastBlock.stream.state = _
    rw [hLast, padding, List.append_assoc]
    change digest (Blocks.feed updateBlock 64 ctx.stream (0x80 :: (List.replicate _ 0 ++
      (List.replicate 56 0 ++ _)))).state = _
    rw [replicate_append_zeros (k := (119 - ctx.cacheLen % 64) % 64) (by omega)]
  · have hFirst := @stream_keep ctx [0x80] (by
      change ctx.cacheLen + 1 < 64
      omega)
    have hLast := @lastBlock_stream (ctx.put [0x80]) (by
      rw [hMark]
      omega)
    have hZeros : 56 - (ctx.cacheLen + 1) = (119 - ctx.cacheLen % 64) % 64 := by omega
    rw [hFirst, Blocks.feed_append (by decide), hMark, sz_put, hZeros] at hLast
    rw [if_neg hLate]
    change digest (ctx.put [0x80]).lastBlock.stream.state = _
    rw [hLast]
    rfl

theorem finalize_stream {c : Context}
    (hStream : c.stream = Blocks.feed updateBlock 64 init.stream b)
    (hSz : c.sz = UInt64.ofNat b.length) :
    c.finalize = digest (Blocks.feed updateBlock 64 init.stream
      (b ++ padding b.length (sizeBytes (UInt64.ofNat b.length)))).state := by
  have hRest : init.stream.rest ++ b = b := rfl
  have hCount : c.cacheLen = b.length % 64 := by
    rw [← length_stream, hStream, Blocks.length_rest, hRest]
  rw [finalize_eq (cacheLen_lt hStream), hStream, hSz, Blocks.feed_append (by decide), hCount,
    padding_mod (Nat.mod_mod _ _)]

theorem stream_nil : init.stream = Blocks.feed updateBlock 64 init.stream [] :=
  (Blocks.feed_nil (by decide)).symm

/-- A context after some bytes. -/
structure Took (c : Context) (b : Bytes) : Prop where
  stream : c.stream = Blocks.feed updateBlock 64 init.stream b
  sz : c.sz = UInt64.ofNat b.length

theorem took_init : init.Took [] := ⟨stream_nil, rfl⟩

theorem Took.update {c : Context} (h : c.Took b) (b' : Bytes) : (c.update b').Took (b ++ b') where
  stream := by rw [update_stream (cacheLen_lt h.stream), h.stream, Blocks.feed_append (by decide)]
  sz := by rw [update_sz, h.sz, List.length_append, UInt64.ofNat_add]

theorem Took.finalize {c d : Context} (h : c.Took b) (h' : d.Took b) : c.finalize = d.finalize := by
  rw [finalize_stream h.stream h.sz, finalize_stream h'.stream h'.sz]

theorem Took.foldl {c : Context} (h : c.Took b) (cs : List Bytes) :
    (cs.foldl Context.update c).Took (b ++ cs.flatten) := by
  induction cs generalizing c b with
  | nil =>
    rw [List.flatten_nil, List.append_nil]
    exact h
  | cons b' cs ih =>
    rw [List.flatten_cons, ← List.append_assoc]
    exact ih (h.update b')

end Context

/-! ## The digest -/

open Context

theorem byte_word (v k : UInt32) :
    ((v >>> k) &&& 0xff).toUInt8 = UInt8.ofNat (v.toNat / 2 ^ (k.toNat % 32)) := by
  apply UInt8.toNat_inj.mp
  have hMask : ∀ m : Nat, m &&& 255 = m % 256 := fun m => Nat.and_two_pow_sub_one_eq_mod m 8
  rw [UInt32.toNat_toUInt8, UInt32.toNat_and, UInt32.toNat_shiftRight, Nat.shiftRight_eq_div_pow,
    UInt8.toNat_ofNat']
  change (_ &&& 255) % 256 = _
  rw [hMask, Nat.mod_mod]

theorem mask_word (v : UInt64) :
    ((v &&& 0xffffffff) <<< 3).toUInt32.toNat = 8 * v.toNat % 2 ^ 32 := by
  have hMask : ∀ m : Nat, m &&& 4294967295 = m % 2 ^ 32 := fun m =>
    Nat.and_two_pow_sub_one_eq_mod m 32
  rw [UInt64.toNat_toUInt32, UInt64.toNat_shiftLeft, UInt64.toNat_and, Nat.shiftLeft_eq]
  change ((_ &&& 4294967295) * 8) % _ % _ = _
  rw [hMask]
  omega

theorem low_word (n : Nat) :
    (((UInt64.ofNat n >>> 0) &&& 0xffffffff) <<< 3).toUInt32.toNat = 8 * n % 2 ^ 32 := by
  rw [mask_word, UInt64.toNat_shiftRight, UInt64.toNat_ofNat', Nat.shiftRight_eq_div_pow]
  change 8 * (n % 2 ^ 64 / 1) % _ = _
  omega

theorem high_word (n : Nat) :
    (((UInt64.ofNat n >>> 32) &&& 0xffffffff) <<< 3).toUInt32.toNat =
      8 * (n / 2 ^ 32) % 2 ^ 32 := by
  rw [mask_word, UInt64.toNat_shiftRight, UInt64.toNat_ofNat', Nat.shiftRight_eq_div_pow]
  change 8 * (n % 2 ^ 64 / 2 ^ 32) % _ = _
  omega

/-- The size keeps only 29 bits of the lower word. -/
theorem sizeBytes_eq_iff (n : Nat) :
    sizeBytes (UInt64.ofNat n) = lengthField n ↔ n % 2 ^ 32 < 2 ^ 29 := by
  have hField : lengthField n =
      [0, 8, 16, 24, 32, 40, 48, 56].map fun k => UInt8.ofNat (8 * n / 2 ^ k) := rfl
  rw [sizeBytes, hField]
  simp only [List.map, byte_word, low_word, high_word, List.cons.injEq, ← UInt8.toNat_inj,
    UInt8.toNat_ofNat', UInt32.toNat_ofNat, Nat.reduceMod, Nat.reducePow, and_true]
  omega

theorem digest_rfc {b : Bytes} (hSize : b.length % 2 ^ 32 < 2 ^ 29) :
    digest (Blocks.feed updateBlock 64 init.stream
      (b ++ padding b.length (sizeBytes (UInt64.ofNat b.length)))).state = rfc b := by
  rw [(sizeBytes_eq_iff b.length).mpr hSize, updateBlock_eq, rfc]
  rfl

theorem Context.Took.rfc {c : Context} {b : Bytes} (h : c.Took b)
    (hSize : b.length % 2 ^ 32 < 2 ^ 29) : c.finalize = rfc b := by
  rw [finalize_stream h.stream h.sz, digest_rfc hSize]

/-- The loop after its first turn: a colon before each part, the empty ones included. -/
theorem hexLoop_rest {c : Context} {b : Bytes} {i : Nat} (hPos : i ≠ 0) (h : c.Took b)
    (parts : List Bytes) : (hexLoop i c parts).Took (b ++ parts.flatMap (bytes ":" ++ ·)) := by
  induction parts generalizing c b i with
  | nil =>
    rw [List.flatMap_nil, List.append_nil]
    exact h
  | cons part parts ih =>
    have hColon := h.update (bytes ":")
    rw [hexLoop, if_pos hPos, List.flatMap_cons, ← List.append_assoc]
    apply ih (Nat.succ_ne_zero i)
    rw [← List.append_assoc]
    split_ifs with hSome
    · exact hColon.update part
    · rw [List.eq_nil_of_length_eq_zero (not_not.mp hSome), List.append_nil]
      exact hColon

theorem intercalate_cons (sep part : Bytes) (parts : List Bytes) :
    List.intercalate sep (part :: parts) = part ++ parts.flatMap (sep ++ ·) := by
  induction parts generalizing part with
  | nil => simp [List.intercalate]
  | cons next parts ih =>
    rw [List.intercalate_cons_cons, ih, List.flatMap_cons, List.append_assoc, List.append_assoc]

theorem hexLoop_took (parts : List Bytes) :
    (hexLoop 0 init parts).Took (List.intercalate (bytes ":") parts) := by
  cases parts with
  | nil => exact took_init
  | cons part parts =>
    have hFirst := took_init.update part
    rw [List.nil_append] at hFirst
    rw [hexLoop, intercalate_cons, if_neg (not_not.mpr rfl)]
    apply hexLoop_rest (Nat.succ_ne_zero 0)
    split_ifs with hSome
    · exact hFirst
    · rw [List.eq_nil_of_length_eq_zero (not_not.mp hSome)]
      exact took_init

/-- The pieces a message comes in make no difference to its digest. -/
theorem finalize_foldl_update (cs : List Bytes) :
    (cs.foldl Context.update init).finalize = md5 cs.flatten := by
  apply Context.Took.finalize
  · exact took_init.foldl cs
  · exact took_init.update cs.flatten

/-- The code computes MD5 where the lower word of the length keeps all its bits, and the length it
pads with is the one that MD5 pads with just there. -/
theorem md5_eq_rfc (b : Bytes) :
    (b.length % 2 ^ 32 < 2 ^ 29 → md5 b = rfc b) ∧
      (sizeBytes (UInt64.ofNat b.length) = lengthField b.length ↔ b.length % 2 ^ 32 < 2 ^ 29) :=
  ⟨(took_init.update b).rfc, sizeBytes_eq_iff b.length⟩

theorem md5_eq_rfc_abc : md5 (bytes "abc") = rfc (bytes "abc") :=
  (md5_eq_rfc (bytes "abc")).1 (by decide)

/-- The digest of parts is that of the parts with a colon between them. -/
theorem md5Hex_eq_rfc (parts : List Bytes)
    (hSize : (List.intercalate (bytes ":") parts).length % 2 ^ 32 < 2 ^ 29) :
    md5Hex parts = Authz.md5Hex rfc parts := by
  rw [md5Hex, (hexLoop_took parts).rfc hSize, Authz.md5Hex]

theorem md5Hex_eq_rfc_parts :
    md5Hex [bytes "a", [], bytes "b"] = Authz.md5Hex rfc [bytes "a", [], bytes "b"] :=
  md5Hex_eq_rfc [bytes "a", [], bytes "b"] (by decide)

end Md5

end Microsippy
