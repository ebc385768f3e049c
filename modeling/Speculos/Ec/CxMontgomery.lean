import Speculos.Ec.CxTwistedEdwards

/-!
# Montgomery curves

`cx_montgomery_mul_coordinate`: a ladder on the `u` coordinates. There is no result where the
scalar overruns the array that it is copied to.
-/

namespace Speculos.Ec

open Lib Bn

/-- The numbers of the ladder: those of its own, and coordinates of its two points. -/
inductive MontVar
  | n
  | a
  | v0
  | v1
  | v2
  | v3
  | x
  | p1x
  | p1z
  | p2x
  | p2z
  deriving DecidableEq, Repr

def montVars : List MontVar := [.n, .a, .v0, .v1, .v2, .v3, .x]

def montRequest (domain : CxCurveDomain) : MontVar → Request
  | .n => ⟨domain.length, some (domain.bytes domain.p)⟩
  | _ => ⟨domain.length, none⟩

def withPoints (P1 P2 : MpiPoint) (mpi : MontVar → Slot) : MontVar → Slot
  | .p1x => P1.x
  | .p1z => P1.z
  | .p2x => P2.x
  | .p2z => P2.z
  | id => mpi id

def stepProgram : List (Instr MontVar ModOp) :=
  [⟨.add, .v1, .p1x, .p1z⟩,
    ⟨.sub, .v2, .p1x, .p1z⟩,
    ⟨.sub, .p1x, .p2x, .p2z⟩,
    ⟨.mul, .p1z, .p1x, .v1⟩,
    ⟨.add, .p1x, .p2x, .p2z⟩,
    ⟨.mul, .p2x, .p1x, .v2⟩,
    ⟨.sub, .p1x, .p1z, .p2x⟩,
    ⟨.mul, .v3, .p1x, .p1x⟩,
    ⟨.mul, .p2z, .x, .v3⟩,
    ⟨.add, .p1z, .p1z, .p2x⟩,
    ⟨.mul, .p2x, .p1z, .p1z⟩,
    ⟨.mul, .v3, .v1, .v1⟩,
    ⟨.add, .v3, .v3, .v0⟩,
    ⟨.mul, .v1, .v2, .v2⟩,
    ⟨.mul, .p1x, .v3, .v1⟩,
    ⟨.sub, .v1, .v3, .v1⟩,
    ⟨.mul, .v2, .v1, .a⟩,
    ⟨.add, .v2, .v2, .v3⟩,
    ⟨.mul, .p1z, .v1, .v2⟩]

/-- What the function finds on the stack: the bytes are those of its arrays, by their places
from the beginning of the array that is read. -/
structure MontStack where
  bn : MontVar → UInt32
  p1 : EcPoint
  p2 : EcPoint
  bytes : Nat → UInt8

def maxMontByteLen : Nat := 56

variable (ssl : Openssl)

-- ---------------------------------------------------------------------------
-- Coordinates and scalars
-- ---------------------------------------------------------------------------

/-- The array after `cx_mpi_export`, of which the error is not looked at. -/
def exportedOr (stack : Nat → UInt8) (wordSize : UInt32) (x : Int) (nbytes : UInt32) : Bytes :=
  match cxMpiExport ssl wordSize x nbytes with
  | .ok bytes => bytes
  | .error _ => (List.range nbytes.toNat).map stack

def cxMpiReverse (stack : Nat → UInt8) (wordSize : UInt32) (x : Slot) (nbytes : UInt32) (m : Mpis) :
    Mpis :=
  let buf := exportedOr ssl stack wordSize (m x) nbytes
  (cxMpiInit ssl x buf.reverse nbytes (cxMpiSetU32 ssl x 0 m)).2

def cxDecodeCoordinate (stack : Nat → UInt8) (wordSize : UInt32) (curve : CxCurve) (u : Slot)
    (nbytes : UInt32) (m : Mpis) : Mpis :=
  let m :=
    if curve = CxCurve.curve25519 then
      let buf := exportedOr ssl stack wordSize (m u) nbytes
      -- Mask the msb of the final byte of u
      (cxMpiInit ssl u (buf.modify 31 (· &&& 0x7F)) nbytes m).2
    else m
  cxMpiReverse ssl stack wordSize u nbytes m

/-- `cx_decode_scalar`: the scalar from its last byte on, where bits are set and cleared in
an array that is read as far as the scalar goes. -/
def cxDecodeScalar (curve : CxCurve) (k : Bytes) : Bytes :=
  (if curve = CxCurve.curve25519 then
    ((k.modify 0 (· &&& 0xF8)).modify 31 (· &&& 0x7F)).modify 31 (· ||| 0x40)
  else (k.modify 0 (· &&& 0xFC)).modify 55 (· ||| 0x80)).reverse

/-- `cx_internal_get_bit`, which goes out of a short array. -/
def scalarBit (stack : Nat → UInt8) (k : Bytes) (pos : Nat) : Bool :=
  if pos / 8 < k.length then getBit k pos
  else (stack pos >>> UInt8.ofNat (pos % 8)) &&& 1 = 1

def cxMpiSwap (a b : Slot) (c : Bool) (m : Mpis) : Mpis :=
  if c then (m.set a (m b)).set b (m a) else m

-- ---------------------------------------------------------------------------
-- The ladder
-- ---------------------------------------------------------------------------

/-- One bit of the scalar: the numbers, and the bit before. -/
def ladderStep (mpi : MontVar → Slot) (r : Mpis × Bool) (bit : Bool) : Mpis × Bool :=
  let m := cxMpiSwap (mpi .p1x) (mpi .p2x) (r.2 ^^ bit) r.1
  let m := cxMpiSwap (mpi .p1z) (mpi .p2z) (r.2 ^^ bit) m
  (runProgram ssl mpi .n stepProgram m, bit)

def montBits (stack : Nat → UInt8) (domain : CxCurveDomain) (k : Bytes) : List Bool :=
  let bitPos := domain.bitSize.toNat - 1
  let bitPos := if domain.curve = CxCurve.curve25519 then bitPos - 1 else bitPos
  (List.range (bitPos + 1)).reverse.map (scalarBit stack k)

/-- The function up to the division by `z`. -/
def montLadder (stack : Nat → UInt8) (wordSize : UInt32) (domain : CxCurveDomain) (u : Slot)
    (k : Bytes) (mpi : MontVar → Slot) (m : Mpis) : Mpis :=
  -- Decode the u-coordinate
  let m := cxDecodeCoordinate ssl stack wordSize domain.curve u domain.length m
  let k := cxDecodeScalar domain.curve k
  let m := unchecked [
    -- Process non-canonical values
    cxMpiRem ssl (mpi .p2x) u (mpi .n),
    fun m => (.ok, cxMpiSetU32 ssl (mpi .p1x) 1 m),
    fun m => (.ok, cxMpiSetU32 ssl (mpi .p1z) 0 m),
    fun m => (.ok, cxMpiSetU32 ssl (mpi .p2z) 1 m),
    -- A24 = (A - 2)/4
    cxMpiInit ssl (mpi .v1) (domain.bytes domain.a) domain.length,
    fun m => (.ok, cxMpiSetU32 ssl (mpi .v2) 2 m),
    cxMpiSub ssl wordSize (mpi .v1) (mpi .v1) (mpi .v2),
    cxMpiShr ssl wordSize (mpi .v1) 2,
    cxMpiCopy ssl wordSize (mpi .x) (mpi .p2x),
    cxMpiCopy ssl wordSize (mpi .a) (mpi .v1),
    fun m => (.ok, cxMpiSetU32 ssl (mpi .v0) 0 m)] m
  let (m, swap) := (montBits stack domain k).foldl (ladderStep ssl mpi) (m, false)
  cxMpiSwap (mpi .p1z) (mpi .p2z) swap (cxMpiSwap (mpi .p1x) (mpi .p2x) swap m)

def montBody (stack : Nat → UInt8) (domain : CxCurveDomain) (u : Slot) (k : Bytes)
    (mpi : MontVar → Slot) (s : State) : Option (EcErr × State) :=
  if k.length > maxMontByteLen then none
  else do
    let m := montLadder ssl stack s.mpiWordSize domain u k mpi s.values
    -- Calculate the affine coordinate u = X/Z
    let (error, s) ← cxMpiModInvertNprime ssl (mpi .v1) (mpi .p1z) (mpi .n) (s.withValues m)
    if error ≠ .ok then return (.mpi error, s)
    let (error, m) := cxMpiModMul ssl u (mpi .v1) (mpi .p1x) (mpi .n) s.values
    return (.mpi error, s.withValues m)

/-- The points `ec_P1` and `ec_P2`, where the numbers before them could be allocated, and what
is done with them. -/
def montPoints (ok : Bool) (stack : MontStack) (domain : CxCurveDomain) (u : Slot) (k : Bytes)
    (mpi : MontVar → Slot) (s : State) : Option ((EcErr × EcPoint × EcPoint) × State) := do
  if ¬ ok then return ((.mpi .memoryFull, stack.p1, stack.p2), s)
  let ((error, P1), s) ← sysCxEcpointAlloc ssl domain.curve stack.p1 s
  if error ≠ .ok then return ((error, P1, stack.p2), s)
  let ((error, P2), s) ← sysCxEcpointAlloc ssl domain.curve stack.p2 s
  if error ≠ .ok then return ((error, P1, P2), s)
  match cxMpiEcpointFromEcpoint P1 s, cxMpiEcpointFromEcpoint P2 s with
  | .ok p1, .ok p2 =>
    let (error, s) ← montBody ssl stack.bytes domain u k (withPoints p1 p2 mpi) s
    return ((error, P1, P2), s)
  | .error error, _ => return ((error, P1, P2), s)
  | _, .error error => return ((error, P1, P2), s)

def cxMontgomeryMulCoordinate (stack : MontStack) (curve : CxCurve) (u : Slot) (k : Bytes)
    (s : State) : Option (EcErr × State) :=
  if isBufferZero k then some (.infinitePoint, s)
  else
    match cxEcdomain curve with
    | none => some (.mpi .invalidParameter, s)
    | some domain =>
      if curve ≠ CxCurve.curve448 ∧ curve ≠ CxCurve.curve25519 then
        some (.mpi .invalidParameter, s)
      else do
        let ((ok, t), s) ← allocAll ssl (montRequest domain) montVars ⟨stack.bn, fun _ => 0⟩ s
        let ((error, P1, P2), s) ← montPoints ssl ok stack domain u k t.mpi s
        let s := destroyHandles (montVars.map t.bn) s
        let (_, s) := sysCxEcpointDestroy P1 s
        let (_, s) := sysCxEcpointDestroy P2 s
        return (error, s)

end Speculos.Ec
