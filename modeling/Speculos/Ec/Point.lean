import Speculos.Ec.Domain
import Speculos.Ec.Temporaries
import Speculos.Lib.Registers

/-!
# Points

The points of `cx_ecpoint.c`: three handles for the application, three pointers to numbers
inside. A pointer is a slot, and there is no result where a function reads a number that was
given back.

`domain->n`, which is written with the bytes of the domain, and the call that loads it into a
number of any size.
-/

namespace Speculos.Ec

open Lib Bn

/-- `cx_err_t`, with the errors of points. -/
inductive EcErr
  | mpi (error : CxErr)
  | invalidPoint
  | infinitePoint
  | invalidCurve
  deriving DecidableEq, Repr

def EcErr.ok : EcErr := .mpi .ok

/-- `cx_ecpoint_t` -/
structure EcPoint where
  x : UInt32
  y : UInt32
  z : UInt32
  curve : CxCurve
  deriving DecidableEq, Repr

def EcPoint.handles (P : EcPoint) : List UInt32 := [P.x, P.y, P.z]

/-- What `memset` leaves of a point that was destroyed. -/
def EcPoint.zero : EcPoint := ⟨0, 0, 0, 0⟩

/-- `cx_mpi_ecpoint_t` -/
structure MpiPoint where
  x : Slot
  y : Slot
  z : Slot
  curve : CxCurve
  deriving DecidableEq, Repr

inductive Coord
  | x
  | y
  | z
  deriving DecidableEq, Repr

/-- The numbers of the point are there. -/
def MpiPoint.IsLive (P : MpiPoint) (s : State) : Prop :=
  (s.mpiArray P.x).live = true ∧ (s.mpiArray P.y).live = true ∧ (s.mpiArray P.z).live = true

instance (P : MpiPoint) (s : State) : Decidable (P.IsLive s) := inferInstanceAs (Decidable (_ ∧ _))

-- ---------------------------------------------------------------------------
-- Sequences of calls
-- ---------------------------------------------------------------------------

/-- Calls in `CX_CHECK`. -/
def checked : List (Mpis → CxErr × Mpis) → Mpis → CxErr × Mpis
  | [], m => (.ok, m)
  | call :: calls, m => if (call m).1 ≠ .ok then call m else checked calls (call m).2

/-- Calls of which the errors are not looked at. -/
def unchecked (calls : List (Mpis → CxErr × Mpis)) (m : Mpis) : Mpis :=
  calls.foldl (fun m call => (call m).2) m

/-- What a function does with its numbers, where all of them could be allocated. -/
def orMemoryFull (ok : Bool) (body : State → Option (EcErr × State)) (s : State) :
    Option (EcErr × State) :=
  if ok then body s else some (.mpi .memoryFull, s)

variable (ssl : Openssl)

/-- The modular operations of two numbers. -/
inductive ModOp
  | mul
  | add
  | sub
  deriving DecidableEq, Repr

/-- `cx_mpi_mod_mul`, `cx_mpi_mod_add` and `cx_mpi_mod_sub`. -/
def ModOp.call : ModOp → Slot → Slot → Slot → Slot → Mpis → CxErr × Mpis
  | .mul => cxMpiModMul ssl
  | .add => cxMpiModAdd ssl
  | .sub => cxMpiModSub ssl

/-- A sequence of modular operations, of which the errors are not looked at. -/
def runProgram {ι : Type} (mpi : ι → Slot) (n : ι) (program : List (Instr ι ModOp)) : Mpis → Mpis :=
  unchecked (program.map fun i => i.op.call ssl (mpi i.r) (mpi i.a) (mpi i.b) (mpi n))

-- ---------------------------------------------------------------------------
-- Handles and pointers
-- ---------------------------------------------------------------------------

/-- `sys_cx_ecpoint_alloc`, where `P` is what the point held before. -/
def sysCxEcpointAlloc (curve : CxCurve) (P : EcPoint) (s : State) :
    Option ((EcErr × EcPoint) × State) :=
  let P := { P with x := 0xFFFFFFFF, y := 0xFFFFFFFF, z := 0xFFFFFFFF }
  if cxBnLocked s ≠ .ok then some ((.mpi (cxBnLocked s), P), destroyHandles [P.z, P.y, P.x] s)
  else
    match cxEcdomain curve with
    | none => some ((.invalidCurve, P), s)
    | some domain => do
      let request := ⟨sizeToMpiWordBytes s.mpiWordSize domain.length, none⟩
      let ((ok, t), s) ← allocAll ssl (fun _ : Coord => request) [.x, .y, .z]
        { bn := fun _ => 0xFFFFFFFF, mpi := fun _ => 0 } s
      let P := { P with x := t.bn .x, y := t.bn .y, z := t.bn .z }
      if ok then return ((.ok, { P with curve }), s)
      else return ((.mpi .memoryFull, P), destroyHandles [P.z, P.y, P.x] s)

/-- `sys_cx_ecpoint_destroy`: the error, and what is left of the point. -/
def sysCxEcpointDestroy (P : EcPoint) (s : State) : (CxErr × EcPoint) × State :=
  if cxBnLocked s ≠ .ok then ((cxBnLocked s, .zero), s)
  else
    let (error, s) := sysCxBnDestroy (some P.x) s
    if error ≠ .ok then ((error, .zero), s)
    else
      let (error, s) := sysCxBnDestroy (some P.y) s
      if error ≠ .ok then ((error, .zero), s)
      else
        let (error, s) := sysCxBnDestroy (some P.z) s
        ((error, .zero), s)

def cxMpiEcpointFromEcpoint (Q : EcPoint) (s : State) : Except EcErr MpiPoint :=
  match cxEcdomain Q.curve with
  | none => .error .invalidCurve
  | some _ =>
    if cxBnsToMpi [Q.x, Q.y, Q.z] s ≠ .ok then .error (.mpi (cxBnsToMpi [Q.x, Q.y, Q.z] s))
    else .ok ⟨slotOf Q.x, slotOf Q.y, slotOf Q.z, Q.curve⟩

/-- `cx_mpi_ecpoint_copy`, of which the curve of `P` afterwards is that of `Q`. -/
def cxMpiEcpointCopy (wordSize : UInt32) (P Q : MpiPoint) : Mpis → Mpis :=
  unchecked [cxMpiCopy ssl wordSize P.x Q.x, cxMpiCopy ssl wordSize P.y Q.y,
    cxMpiCopy ssl wordSize P.z Q.z]

-- ---------------------------------------------------------------------------
-- Affine coordinates
-- ---------------------------------------------------------------------------

/-- The numbers of `cx_mpi_ecpoint_normalize`. -/
inductive NormVar
  | p
  | invz
  | tmp1
  | tmp2
  deriving DecidableEq, Repr

def normVars : List NormVar := [.p, .invz, .tmp1, .tmp2]

def normRequest (domain : CxCurveDomain) : NormVar → Request
  | .p => ⟨domain.length, some (domain.bytes domain.p)⟩
  | _ => ⟨domain.length, none⟩

/-- The divisions by the powers of `z`. -/
def affine (wordSize : UInt32) (P : MpiPoint) (t : NormVar → Slot) (m : Mpis) : EcErr × Mpis :=
  if isWeierstrass P.curve then
    let (error, m) := checked [
      -- affine_x = P.x * inv_z²
      cxMpiModMul ssl (t .tmp1) (t .invz) (t .invz) (t .p),
      cxMpiModMul ssl (t .tmp2) P.x (t .tmp1) (t .p),
      cxMpiCopy ssl wordSize P.x (t .tmp2),
      -- affine_y = P.y * inv_z³
      cxMpiModMul ssl P.z (t .tmp1) (t .invz) (t .p),
      cxMpiModMul ssl (t .tmp2) P.y P.z (t .p),
      cxMpiCopy ssl wordSize P.y (t .tmp2)] m
    (.mpi error, m)
  else if isTwistedEdwards P.curve || isMontgomery P.curve then
    let (error, m) := checked [
      -- affine_x = P.x * inv_z
      cxMpiModMul ssl (t .tmp1) P.x (t .invz) (t .p),
      cxMpiCopy ssl wordSize P.x (t .tmp1),
      -- affine_y = P.y * inv_z
      cxMpiModMul ssl (t .tmp1) P.y (t .invz) (t .p),
      cxMpiCopy ssl wordSize P.y (t .tmp1)] m
    (.mpi error, m)
  else (.invalidCurve, m)

/-- `cx_mpi_ecpoint_normalize` with its numbers. -/
def normalizeWith (P : MpiPoint) (t : NormVar → Slot) (s : State) : Option (EcErr × State) := do
  let (_, s) ← cxMpiModInvertNprime ssl (t .invz) P.z (t .p) s
  let (error, m) := affine ssl s.mpiWordSize P t s.values
  let m := if error = .ok then cxMpiSetU32 ssl P.z 1 m else m
  return (error, s.withValues m)

def setInfinite (P : MpiPoint) (m : Mpis) : Mpis :=
  cxMpiSetU32 ssl P.z 0 (cxMpiSetU32 ssl P.y 1 (cxMpiSetU32 ssl P.x 0 m))

/-- `cx_mpi_ecpoint_normalize`, with what the handles hold on the stack. -/
def cxMpiEcpointNormalize (stack : NormVar → UInt32) (P : MpiPoint) (s : State) :
    Option (EcErr × State) :=
  match cxEcdomain P.curve with
  | none => some (.invalidCurve, s)
  | some domain =>
    if ¬ P.IsLive s then none
    else if cxMpiCmpU32 ssl (s.values P.z) 0 = 0 then
      some (.infinitePoint, s.withValues (setInfinite ssl P s.values))
    else if cxMpiCmpU32 ssl (s.values P.z) 1 = 0 then some (.ok, s)
    else do
      let ((ok, t), s) ← allocAll ssl (normRequest domain) normVars ⟨stack, fun _ => 0⟩ s
      let (error, s) ← orMemoryFull ok (normalizeWith ssl P t.mpi) s
      return (error, destroyHandles [t.bn .tmp1, t.bn .tmp2, t.bn .invz, t.bn .p] s)

-- ---------------------------------------------------------------------------
-- Points for one operation
-- ---------------------------------------------------------------------------

/-- The numbers of a function, a point of it, and whether the function came to its formulas. -/
def whenTaken (ok : Bool) (Q : EcPoint) (body : State → Option ((Bool × EcPoint) × State))
    (s : State) : Option ((Bool × EcPoint) × State) :=
  if ok then body s else some ((false, Q), s)

/-- A point that a function allocates for its formulas, with what its variable held before. There
is no result where the formulas do not come to an end. -/
def withPoint (curve : CxCurve) (Q : EcPoint) (formulas : MpiPoint → Mpis → Option Mpis)
    (s : State) :
    Option ((Bool × EcPoint) × State) := do
  let ((error, Q), s) ← sysCxEcpointAlloc ssl curve Q s
  if error ≠ .ok then return ((false, Q), s)
  else
    match cxMpiEcpointFromEcpoint Q s with
    | .error _ => return ((false, Q), s)
    | .ok q => do
      let m ← formulas q s.values
      return ((true, Q), s.withValues m)

-- ---------------------------------------------------------------------------
-- Coordinates from one coordinate
-- ---------------------------------------------------------------------------

/-- The numbers of the functions that find a coordinate. -/
inductive RootVar
  | p
  | sqy
  | t1
  | t2
  | t3
  deriving DecidableEq, Repr

def rootRequest (domain : CxCurveDomain) : RootVar → Request
  | .p => ⟨domain.length, some (domain.bytes domain.p)⟩
  | _ => ⟨domain.length, none⟩

/-- A function of which all handles are -1 at first, so that no number but its own goes. -/
def withRootVars (domain : CxCurveDomain) (vars : List RootVar)
    (body : (RootVar → Slot) → State → Option (EcErr × State)) (s : State) :
    Option (EcErr × State) := do
  let ((ok, t), s) ← allocAll ssl (rootRequest domain) vars
    ⟨fun _ => 0xFFFFFFFF, fun _ => 0⟩ s
  let (error, s) ← orMemoryFull ok (body t.mpi) s
  return (error, destroyHandles (vars.reverse.map t.bn) s)

/-- The end of these functions: the root of `a`, with the sign that is asked for. -/
def rootOf (r a p : Slot) (sign : UInt32) (m : Mpis) : CxErr × Mpis :=
  if cxMpiCmpU32 ssl (m a) 0 = 0 then
    let m := cxMpiSetU32 ssl r 0 m
    if sign ≠ 0 then (.invalidParameter, m) else cxMpiModSqrt ssl r a p sign m
  else cxMpiModSqrt ssl r a p sign m

def cxWeierstrassRecoverY (P : MpiPoint) (sign : UInt32) (s : State) : Option (EcErr × State) :=
  match cxEcdomain P.curve with
  | none => some (.mpi .invalidParameter, s)
  | some domain =>
    withRootVars ssl domain [.p, .sqy, .t1, .t2] (fun t s =>
      let m := unchecked [
        -- y²=x³+a*x+b
        cxMpiInit ssl (t .sqy) (domain.bytes domain.b) domain.length,
        cxMpiInit ssl (t .t1) (domain.bytes domain.a) domain.length,
        cxMpiModMul ssl (t .t2) (t .t1) P.x (t .p), -- ax
        cxMpiModAdd ssl (t .sqy) (t .sqy) (t .t2) (t .p), -- ax + b
        cxMpiModMul ssl (t .t1) P.x P.x (t .p), -- x²
        cxMpiModMul ssl (t .t2) (t .t1) P.x (t .p), -- x³
        cxMpiModAdd ssl (t .sqy) (t .sqy) (t .t2) (t .p)] s.values
      let (error, m) := rootOf ssl P.y (t .sqy) (t .p) sign m
      some (.mpi error, s.withValues m)) s

def cxTwistedEdwardsRecoverX (P : MpiPoint) (sign : UInt32) (s : State) : Option (EcErr × State) :=
  match cxEcdomain P.curve with
  | none => some (.mpi .invalidParameter, s)
  | some domain =>
    withRootVars ssl domain [.p, .t1, .t2, .t3] (fun t s => do
      let m := unchecked [
        -- x² = (y²-1) * (d*y²-a)^-1
        cxMpiModMul ssl (t .t3) P.y P.y (t .p),
        cxMpiInit ssl (t .t1) (domain.bytes domain.b) domain.length,
        cxMpiModMul ssl (t .t2) (t .t3) (t .t1) (t .p), -- y²*d
        cxMpiInit ssl (t .t1) (domain.bytes domain.a) domain.length,
        cxMpiModSub ssl (t .t2) (t .t2) (t .t1) (t .p)] s.values -- d*y²-a
      let (_, s) ← cxMpiModInvertNprime ssl (t .t1) (t .t2) (t .p) (s.withValues m)
      let m := unchecked [
        cxMpiModMul ssl (t .t3) P.y P.y (t .p),
        fun m => (.ok, cxMpiSetU32 ssl (t .t2) 1 m),
        cxMpiModSub ssl (t .t2) (t .t3) (t .t2) (t .p), -- y²-1
        cxMpiModMul ssl (t .t3) (t .t2) (t .t1) (t .p)] s.values
      let (error, m) := rootOf ssl P.x (t .t3) (t .p) sign m
      return (.mpi error, s.withValues m)) s

def cxMontgomeryRecoverY (P : MpiPoint) (sign : UInt32) (s : State) : Option (EcErr × State) :=
  match cxEcdomain P.curve with
  | none => some (.mpi .invalidParameter, s)
  | some domain =>
    withRootVars ssl domain [.p, .sqy, .t1, .t2, .t3] (fun t s => do
      -- y²=(x³+a*x²+x)*b^-1
      let m := unchecked [cxMpiInit ssl (t .sqy) (domain.bytes domain.b) domain.length] s.values
      let (_, s) ← cxMpiModInvertNprime ssl (t .t3) (t .sqy) (t .p) (s.withValues m)
      let m := unchecked [
        cxMpiModMul ssl (t .t2) P.x P.x (t .p), -- x²
        cxMpiInit ssl (t .t1) (domain.bytes domain.a) domain.length,
        cxMpiModMul ssl (t .sqy) (t .t1) (t .t2) (t .p), -- ax²
        cxMpiModAdd ssl (t .sqy) (t .sqy) P.x (t .p), -- ax² + x
        cxMpiModMul ssl (t .t1) (t .t2) P.x (t .p), -- x³
        cxMpiModAdd ssl (t .t2) (t .sqy) (t .t1) (t .p), -- x³ + ax² + x
        cxMpiModMul ssl (t .sqy) (t .t2) (t .t3) (t .p)] s.values -- y²
      let (error, m) := rootOf ssl P.y (t .sqy) (t .p) sign m
      return (.mpi error, s.withValues m)) s

end Speculos.Ec

-- ---------------------------------------------------------------------------
-- Orders
-- ---------------------------------------------------------------------------

namespace Speculos.Ec

open Lib Bn

/-- The number that `domain->n` stands for. -/
def orderOf : CxCurve → Nat
  | 0x21 =>
    0xfffffffffffffffffffffffffffffffebaaedce6af48a03bbfd25e8cd0364141
  | 0x22 =>
    0xffffffff00000000ffffffffffffffffbce6faada7179e84f3b9cac2fc632551
  | 0x23 =>
    0xffffffffffffffffffffffffffffffffffffffffffffffffc7634d81f4372ddf581a0db248b0a77aecec196accc52973
  | 0x24 =>
    0x1fffffffffffffffffffffffffffffffffffffffffffffffffffffffffffffffffa51868783bf2f966b7fcc0148f709a5d03bb5c9b8899c47aebb6fb71e91386409
  | 0x31 | 0x32 =>
    0xa9fb57dba1eea9bc3e660a909d838d718c397aa3b561a6f7901e0e82974856a7
  | 0x33 | 0x34 =>
    0xd35e472036bc4fb7e13c785ed201e065f98fcfa5b68f12a32d482ec7ee8658e98691555b44c59311
  | 0x35 | 0x36 =>
    0x8cb91e82a3386d280f5d6f7e50e641df152f7109ed5456b31f166e6cac0425a7cf3ab6af6b7fc3103b883202e9046565
  | 0x37 | 0x38 =>
    0xaadd9db8dbe9c48b3fd4e6ae33c9fc07cb308db3b3c9d20ed6639cca70330870553e5c414ca92619418661197fac10471db1d381085ddaddb58796829ca90069
  | 0x39 =>
    0x73eda753299d7d483339d80809a1d80553bda402fffe5bfeffffffff00000001
  | 0x51 =>
    0x800000000000010ffffffffffffffffb781126dcae7b2321e66a241adc64d2f
  | 0x52 =>
    0x12ab655e9a2ca55660b44d1e5c37b00159aa76fed00000010a11800000000001
  | 0x53 =>
    0x40000000000000000000000000000000224698fc0994a8dd8c46eb2100000001
  | 0x54 =>
    0x40000000000000000000000000000000224698fc094cf91b992d30ed00000001
  | 0x71 | 0x81 =>
    0x1000000000000000000000000000000014def9dea2f79cd65812631a5cf5d3ed
  | 0x72 | 0x82 =>
    0x3fffffffffffffffffffffffffffffffffffffffffffffffffffffff7cca23e9c44edb49aed63690216cc2728dc58f552378c292ab5844f3
  | 0x73 =>
    0x4aad957a68b2955982d1347970dec005293a3afc43c8afeb95aee9ac33fd9ff
  | 0x74 =>
    0xe7db4ea6533afa906673b0101343b00a6682093ccc81082d0970e5ed6f72cb7
  | _ => 0

/-- `domain->n` -/
def CxCurveDomain.n (domain : CxCurveDomain) : Bytes := domain.bytes (orderOf domain.curve)

theorem order_bounds (h : domain ∈ cxAllCurves) :
    0 < orderOf domain.curve ∧ orderOf domain.curve < 256 ^ domain.length.toNat := by
  have hall : ∀ domain ∈ cxAllCurves,
      0 < orderOf domain.curve ∧ orderOf domain.curve < 256 ^ domain.length.toNat := by
    decide
  exact hall domain h

theorem length_n (domain : CxCurveDomain) : domain.n.length = domain.length.toNat := length_toBE ..

theorem fromBE_n (h : domain ∈ cxAllCurves) : fromBE domain.n = orderOf domain.curve :=
  fromBE_toBE_of_lt (order_bounds h).2

/-- `sys_cx_ecdomain_parameter_bn` with `CX_CURVE_PARAM_Order`. Whether the number was loaded
is not looked at. -/
def sysCxEcdomainParameterBn (ssl : Openssl) (curve : CxCurve) (bnP : UInt32) (s : State) :
    EcErr × State :=
  match cxEcdomain curve with
  | none => (.invalidCurve, s)
  | some domain =>
    if cxBnsToMpi [bnP] s ≠ .ok then (.mpi (cxBnsToMpi [bnP] s), s)
    else (.ok, s.withValues (s.values.set (slotOf bnP) (ssl.bin2bn domain.n).value))

end Speculos.Ec
