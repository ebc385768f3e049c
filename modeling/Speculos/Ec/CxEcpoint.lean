import Speculos.Ec.CxMontgomery

/-!
# Point syscalls

The syscalls of `cx_ecpoint.c` that work on points. What OpenSSL and the curve code with
numbers of its own compute is a parameter: it does not touch the table.
-/

namespace Speculos.Ec

open Lib Bn

/-- The group of a curve: an error of the host ends the emulator. -/
inductive Group
  | ends
  | null
  | found
  deriving DecidableEq, Repr

/-- Functions on points that have numbers of their own. -/
structure EcLib where
  /-- `cx_nid_from_curve` and `cx_group_from_nid_and_curve` -/
  group : CxCurve → Group
  /-- Setting the coordinates of two points, adding them and getting the coordinates of
  the sum. -/
  pointAdd : CxCurve → Int × Int → Int × Int → Except CxErr (Int × Int)
  /-- `cx_weierstrass_mult` -/
  weierstrassMult : CxCurve → Int × Int → Bytes → Option (Int × Int)
  /-- `edwards_add` -/
  edwardsAdd : Int × Int → Int × Int → Option (Int × Int)
  /-- `scalarmult_ed25519` -/
  scalarmultEd25519 : Int × Int → Bytes → Option (Int × Int)
  /-- `scalarmult_curve25519`, of which an error ends the emulator. -/
  scalarmultCurve25519 : Bytes → Bytes → Option Bytes
  /-- Whether there is memory for the numbers and bytes of a syscall. -/
  malloc : Bool

/-- What the syscalls find on the stack, for each of their normalisations. -/
structure Stack where
  norm : Nat → NormVar → UInt32
  te : TeStack
  mont : MontStack

variable (ssl : Openssl) (lib : EcLib)

/-- The curve of `P` among those of `cx_weierstrass_mult`. -/
def isMultiplied (curve : CxCurve) : Bool :=
  [CxCurve.secp256k1, CxCurve.secp256r1, CxCurve.secp384r1, CxCurve.secp521r1, CxCurve.stark256,
    CxCurve.brainpoolP256r1, CxCurve.brainpoolP256t1, CxCurve.brainpoolP320r1,
    CxCurve.brainpoolP320t1, CxCurve.brainpoolP384r1, CxCurve.brainpoolP384t1,
    CxCurve.brainpoolP512r1, CxCurve.brainpoolP512t1, CxCurve.bls12N381G1, CxCurve.bls12N377G1,
    CxCurve.pallas, CxCurve.vesta].contains curve

/-- `cx_nid_from_curve` knows the curve. -/
def hasNid (curve : CxCurve) : Bool :=
  isMultiplied curve || [CxCurve.ed25519, CxCurve.edBLS12, CxCurve.jubjub].contains curve

-- ---------------------------------------------------------------------------
-- Export
-- ---------------------------------------------------------------------------

def cxEcpointNormalize (stack : NormVar → UInt32) (P : EcPoint) (s : State) :
    Option (Except EcErr MpiPoint × State) :=
  match cxMpiEcpointFromEcpoint P s with
  | .error error => some (.error error, s)
  | .ok p => do
    let (error, s) ← cxMpiEcpointNormalize ssl stack p s
    return (if error = .ok then .ok p else .error error, s)

/-- The bytes of the coordinates that were written. -/
structure Exported where
  x : Option Bytes
  y : Option Bytes
  deriving DecidableEq, Repr

/-- `cx_mpi_export` to a pointer that may be null. -/
def exportTo (wordSize : UInt32) (x : Int) : Option UInt32 → Except CxErr (Option Bytes)
  | none => .ok none
  | some len => (cxMpiExport ssl wordSize x len).map some

def exportCoordinates (wordSize : UInt32) (P : MpiPoint) (xLen yLen : Option UInt32) (m : Mpis) :
    EcErr × Exported :=
  match exportTo ssl wordSize (m P.x) xLen with
  | .error error => (.mpi error, ⟨none, none⟩)
  | .ok x =>
    match exportTo ssl wordSize (m P.y) yLen with
    | .error error => (.mpi error, ⟨x, none⟩)
    | .ok y => (.ok, ⟨x, y⟩)

def sysCxEcpointExport (stack : NormVar → UInt32) (P : EcPoint) (xLen yLen : Option UInt32)
    (s : State) : Option ((EcErr × Exported) × State) := do
  let (found, s) ← cxEcpointNormalize ssl stack P s
  match found with
  | .error error => return ((error, ⟨none, none⟩), s)
  | .ok p => return (exportCoordinates ssl s.mpiWordSize p xLen yLen s.values, s)

/-- The coordinate that is exported, and the one of which the last bit is the sign. -/
def compressed (P : MpiPoint) : Option (Slot × Slot) :=
  if isWeierstrass P.curve then some (P.x, P.y)
  else if isTwistedEdwards P.curve then some (P.y, P.x)
  else if isMontgomery P.curve then some (P.x, P.y)
  else none

/-- `sys_cx_ecpoint_compress`: the bytes and the sign, where they are written. -/
def sysCxEcpointCompress (stack : NormVar → UInt32) (P : EcPoint) (len : UInt32) (s : State) :
    Option ((EcErr × Option Bytes × Option UInt32) × State) := do
  let (found, s) ← cxEcpointNormalize ssl stack P s
  match found with
  | .error error => return ((error, none, none), s)
  | .ok p =>
    match compressed p with
    | none => return ((.invalidCurve, none, some 0), s)
    | some (coordinate, signed) =>
      match cxMpiExport ssl s.mpiWordSize (s.values coordinate) len with
      | .error error => return ((.mpi error, none, none), s)
      | .ok bytes =>
        match cxMpiTstBit ssl s.mpiWordSize (s.values signed) 0 with
        | .error error => return ((.mpi error, some bytes, none), s)
        | .ok set => return ((.ok, some bytes, some (if set then 1 else 0)), s)

def sysCxEcpointCmp (stack : Nat → NormVar → UInt32) (P Q : EcPoint) (s : State) :
    Option ((EcErr × Option Bool) × State) := do
  let (found, s) ← cxEcpointNormalize ssl (stack 0) P s
  match found with
  | .error error => return ((error, none), s)
  | .ok p =>
    let (found, s) ← cxEcpointNormalize ssl (stack 1) Q s
    match found with
    | .error error => return ((error, none), s)
    | .ok q =>
      let equal := p.curve = q.curve ∧ s.values p.x = s.values q.x ∧ s.values p.y = s.values q.y
      return ((.ok, some (decide equal)), s)

-- ---------------------------------------------------------------------------
-- Coordinates
-- ---------------------------------------------------------------------------

def setCoordinates (known other : Slot) (P : MpiPoint) (bytes : Bytes) (len : UInt32) (m : Mpis) :
    Mpis :=
  cxMpiSetU32 ssl P.z 1 (cxMpiSetU32 ssl other 0 (cxMpiInit ssl known bytes len m).2)

def sysCxEcpointDecompress (P : EcPoint) (bytes : Bytes) (len sign : UInt32) (s : State) :
    Option (EcErr × State) :=
  match cxMpiEcpointFromEcpoint P s with
  | .error error => some (error, s)
  | .ok p =>
    if isWeierstrass p.curve then
      cxWeierstrassRecoverY ssl p sign
        (s.withValues (setCoordinates ssl p.x p.y p bytes len s.values))
    else if isTwistedEdwards p.curve then
      -- the other coordinate is written first
      let m := cxMpiSetU32 ssl p.x 0 s.values
      cxTwistedEdwardsRecoverX ssl p sign
        (s.withValues (cxMpiSetU32 ssl p.z 1 (cxMpiInit ssl p.y bytes len m).2))
    else if isMontgomery p.curve then
      cxMontgomeryRecoverY ssl p sign
        (s.withValues (setCoordinates ssl p.x p.y p bytes len s.values))
    else some (.invalidCurve, s)

def sysCxEcpointNeg (P : EcPoint) (s : State) : Option (EcErr × State) :=
  match cxMpiEcpointFromEcpoint P s with
  | .error error => some (error, s)
  | .ok p =>
    match cxEcdomain p.curve with
    | none => some (.invalidCurve, s)
    | some domain => do
      let (x, s) ← Request.alloc ssl ⟨domain.length, some (domain.bytes domain.p)⟩ s
      match x.x with
      | none => return (.mpi .memoryFull, s)
      | some n =>
        let coord :=
          if isWeierstrass p.curve then some p.y
          else if isTwistedEdwards p.curve then some p.x
          else if isMontgomery p.curve then some p.y
          else none
        let (error, m) :=
          match coord with
          | none => (.invalidPoint, s.values)
          | some coord => (.ok, (cxMpiSub ssl s.mpiWordSize coord n coord s.values).2)
        return (error, destroyHandles [x.bnX] (s.withValues m))

-- ---------------------------------------------------------------------------
-- Addition
-- ---------------------------------------------------------------------------

def MpiPoint.coordinates (P : MpiPoint) (m : Mpis) : Int × Int := (m P.x, m P.y)

def MpiPoint.setXY (P : MpiPoint) (xy : Int × Int) (m : Mpis) : Mpis :=
  (m.set P.x xy.1).set P.y xy.2

/-- Two handles of a point, for the addition on Ed25519. -/
def xyOf (P : EcPoint) : MpiPoint := ⟨slotOf P.x, slotOf P.y, slotOf P.z, P.curve⟩

/-- `edwards_add` on the handles. -/
def addEd25519 (R P Q : EcPoint) (s : State) : CxErr × State :=
  if cxBnsToMpi [R.x, R.y] s ≠ .ok then (cxBnsToMpi [R.x, R.y] s, s)
  else if cxBnsToMpi [P.x, P.y] s ≠ .ok then (cxBnsToMpi [P.x, P.y] s, s)
  else if cxBnsToMpi [Q.x, Q.y] s ≠ .ok then (cxBnsToMpi [Q.x, Q.y] s, s)
  else
    match lib.edwardsAdd ((xyOf P).coordinates s.values) ((xyOf Q).coordinates s.values) with
    | none => (.internalError, s)
    | some xy => (.ok, s.withValues ((xyOf R).setXY xy s.values))

def addInGroup (R P Q : EcPoint) (s : State) : CxErr × State :=
  match cxMpiEcpointFromEcpoint P s, cxMpiEcpointFromEcpoint Q s, cxMpiEcpointFromEcpoint R s with
  | .ok p, .ok q, .ok r =>
    match lib.pointAdd P.curve (p.coordinates s.values) (q.coordinates s.values) with
    | .error error => (error, s)
    | .ok xy => (.ok, s.withValues (r.setXY xy s.values))
  | _, _, _ => (.memoryFull, s)

/-- The member `z` behind an addition. -/
def copyZ (R P : EcPoint) (r : CxErr × State) : Option (EcErr × State) :=
  if r.1 ≠ .ok then some (.mpi r.1, r.2)
  else (sysCxBnCopy ssl R.z P.z r.2).map fun (answer, s) => (.mpi answer.error, s)

/-- `sys_cx_ecpoint_add`. On EdBLS12 and Jubjub the errors of the lookups are not looked at:
there is no result where it goes on with a point that was not found. -/
def sysCxEcpointAdd (stack : Stack) (R P Q : EcPoint) (s : State) : Option (EcErr × State) :=
  if P.curve ≠ Q.curve then some (.invalidPoint, s)
  else if cxBnLocked s ≠ .ok then some (.mpi (cxBnLocked s), s)
  else if P.curve = CxCurve.ed25519 then copyZ ssl R P (addEd25519 lib R P Q s)
  else if P.curve = CxCurve.edBLS12 ∨ P.curve = CxCurve.jubjub then
    match cxMpiEcpointFromEcpoint P s, cxMpiEcpointFromEcpoint Q s,
      cxMpiEcpointFromEcpoint R s with
    | .ok p, .ok q, .ok r => do
      let (_, s) ← cxTwistedEdwardsAddPoint ssl stack.te r p q s
      return (.ok, s)
    | _, _, _ => none
  else if ¬ hasNid P.curve then none
  else
    match lib.group P.curve with
    | .ends => none
    | .null => some (.invalidCurve, s)
    | .found => copyZ ssl R P (addInGroup lib R P Q s)

-- ---------------------------------------------------------------------------
-- Multiplication
-- ---------------------------------------------------------------------------

/-- The result of a multiplication with numbers of its own. -/
def setProduct (P : MpiPoint) (xy : Option (Int × Int)) (s : State) : EcErr × State :=
  match xy with
  | none => (.mpi .internalError, s)
  | some xy => (.ok, s.withValues (P.setXY xy s.values))

/-- The multiplication on Curve25519, by the bytes of the coordinates. -/
def scalarmul25519 (stack : Nat → NormVar → UInt32) (P : EcPoint) (k : Bytes) (s : State) :
    Option (EcErr × State) := do
  let ((error, before), s) ← sysCxEcpointExport ssl (stack 0) P (some 32) (some 32) s
  if error ≠ .ok then return (error, s)
  let out ← lib.scalarmultCurve25519 k (before.x.getD [])
  let (error, s) ← sysCxEcpointDecompress ssl P out 32 0 s
  if error ≠ .ok then return (error, s)
  let ((error, after), s) ← sysCxEcpointExport ssl (stack 1) P (some 32) (some 32) s
  if error ≠ .ok then return (error, s)
  let x := ssl.bin2bn (after.x.getD [])
  let y := ssl.bin2bn (after.y.getD [])
  if ¬ x.ok ∨ ¬ y.ok then return (.mpi .internalError, s)
  return setProduct (xyOf P) (some (x.value, y.value)) s

def sysCxEcpointScalarmul (stack : Stack) (P : EcPoint) (k : Bytes) (s : State) :
    Option (EcErr × State) :=
  match cxMpiEcpointFromEcpoint P s with
  | .error error => some (error, s)
  | .ok p =>
    if ¬ lib.malloc then some (.mpi .memoryFull, s)
    else if ¬ (ssl.bin2bn k).ok then some (.mpi .internalError, s)
    else if P.curve = CxCurve.ed25519 then
      some (setProduct p (lib.scalarmultEd25519 (p.coordinates s.values) k) s)
    else if isMultiplied P.curve then
      if lib.group P.curve = .ends then none
      else some (setProduct p (lib.weierstrassMult P.curve (p.coordinates s.values) k) s)
    else if P.curve = CxCurve.curve25519 then scalarmul25519 ssl lib stack.norm P k s
    else if P.curve = CxCurve.edBLS12 ∨ P.curve = CxCurve.jubjub then
      cxTwistedEdwardsMulPoint ssl stack.te p k s
    else some (.invalidCurve, s)

/-- `sys_cx_ecpoint_x25519` and `sys_cx_ecpoint_x448`: the error of the ladder is not looked
at. -/
def ladderOn (curve : CxCurve) (stack : Stack) (bnU : UInt32) (k : Bytes) (s : State) :
    Option (EcErr × State) :=
  if cxBnsToMpi [bnU] s ≠ .ok then some (.mpi (cxBnsToMpi [bnU] s), s)
  else
    let u := slotOf bnU
    if ¬ lib.malloc then some (.mpi .memoryFull, s)
    else if (ssl.bn2binpad (s.values u) (cxMpiNbytes ssl s.mpiWordSize (s.values u))).isNone then
      some (.mpi .internalError, s)
    else do
      let (_, s) ← cxMontgomeryMulCoordinate ssl stack.mont curve u k s
      return (.ok, s)

def sysCxEcpointX25519 : Stack → UInt32 → Bytes → State → Option (EcErr × State) :=
  ladderOn ssl lib CxCurve.curve25519

def sysCxEcpointX448 : Stack → UInt32 → Bytes → State → Option (EcErr × State) :=
  ladderOn ssl lib CxCurve.curve448

end Speculos.Ec
