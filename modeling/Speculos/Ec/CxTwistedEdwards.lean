import Speculos.Ec.Point

/-!
# Twisted Edwards curves

`cx_twisted_edwards.c`. The formulas are programs over the array `mpi`, of which the entries
for coordinates point to the numbers of the operands.
-/

namespace Speculos.Ec

open Lib Bn

/-- The entries of `mpi` and `bn`: `n` is the modulus, `a` and `b` are coefficients. -/
inductive TeVar
  | n
  | a
  | b
  | ta
  | tb
  | tc
  | td
  | te
  | tf
  | tg
  | th
  | x1
  | x2
  | x3
  | y1
  | y2
  | y3
  | z1
  | z2
  | z3
  | t1
  | t2
  deriving DecidableEq, Repr

def teVars : List TeVar :=
  [.n, .a, .b, .ta, .tb, .tc, .td, .te, .tf, .tg, .th, .x1, .x2, .x3, .y1, .y2, .y3, .z1, .z2, .z3,
    .t1, .t2]

def atFirst (p : MpiPoint) (pT : Option Slot) (mpi : TeVar → Slot) : TeVar → Slot
  | .x1 => p.x
  | .y1 => p.y
  | .z1 => p.z
  | .t1 => pT.getD (mpi .t1)
  | id => mpi id

def atSecond (q : MpiPoint) (qT : Option Slot) (mpi : TeVar → Slot) : TeVar → Slot
  | .x2 => q.x
  | .y2 => q.y
  | .z2 => q.z
  | .t2 => qT.getD (mpi .t2)
  | id => mpi id

-- ---------------------------------------------------------------------------
-- Formulas
-- ---------------------------------------------------------------------------

def dblProgram : List (Instr TeVar ModOp) :=
  [ -- A = (X1*X1)
    ⟨.mul, .ta, .x1, .x1⟩,
    -- B = (Y1*Y1)
    ⟨.mul, .tb, .y1, .y1⟩,
    -- D = (Z1*Z1)
    ⟨.mul, .td, .z1, .z1⟩,
    -- C = (D+D)
    ⟨.add, .tc, .td, .td⟩,
    -- D = (X1+Y1)
    ⟨.add, .td, .x1, .y1⟩,
    -- F = (D*D)
    ⟨.mul, .tf, .td, .td⟩,
    -- E = (F-A)
    ⟨.sub, .te, .tf, .ta⟩,
    -- E = (E-B)
    ⟨.sub, .te, .te, .tb⟩,
    -- D = (a*A)
    ⟨.mul, .td, .a, .ta⟩,
    -- G = (D+B)
    ⟨.add, .tg, .td, .tb⟩,
    -- F = (G-C)
    ⟨.sub, .tf, .tg, .tc⟩,
    -- H = (D-B)
    ⟨.sub, .th, .td, .tb⟩,
    -- X1 = (E*F)
    ⟨.mul, .x1, .te, .tf⟩,
    -- Y1 = (G*H)
    ⟨.mul, .y1, .tg, .th⟩,
    -- T1 = (E*H)
    ⟨.mul, .t1, .te, .th⟩,
    -- Z1 = (F*G)
    ⟨.mul, .z1, .tf, .tg⟩]

def addSimpleProgram : List (Instr TeVar ModOp) :=
  [ -- A = z1 * z2
    ⟨.mul, .ta, .z1, .z2⟩,
    -- B = A * A
    ⟨.mul, .tb, .ta, .ta⟩,
    -- C = x1 * x2
    ⟨.mul, .tc, .x1, .x2⟩,
    -- D = y1 * y2
    ⟨.mul, .td, .y1, .y2⟩,
    -- F = d * C * D
    ⟨.mul, .te, .b, .tc⟩,
    ⟨.mul, .tf, .te, .td⟩,
    -- E = B - F
    ⟨.sub, .te, .tb, .tf⟩,
    -- G = B + F
    ⟨.add, .tg, .tb, .tf⟩,
    -- X2 = A * E * ((x1 + y1)(x2 + y2) - C - D)
    ⟨.add, .t1, .x1, .y1⟩,
    ⟨.add, .t2, .x2, .y2⟩,
    ⟨.mul, .tf, .t1, .t2⟩,
    ⟨.sub, .tf, .tf, .tc⟩,
    ⟨.sub, .tf, .tf, .td⟩,
    ⟨.mul, .tb, .tf, .te⟩,
    ⟨.mul, .x2, .ta, .tb⟩,
    -- Y2 = A * G * (D - a*C)
    ⟨.mul, .tf, .a, .tc⟩,
    ⟨.sub, .tf, .td, .tf⟩,
    ⟨.mul, .td, .tg, .tf⟩,
    ⟨.mul, .y2, .td, .ta⟩,
    -- Z2 = E * G
    ⟨.mul, .z2, .te, .tg⟩]

def addProgram : List (Instr TeVar ModOp) :=
  [⟨.mul, .ta, .x1, .x2⟩,
    ⟨.mul, .tb, .y1, .y2⟩,
    ⟨.mul, .tc, .z1, .t2⟩,
    ⟨.mul, .td, .t1, .z2⟩,
    ⟨.sub, .te, .x1, .y1⟩,
    ⟨.add, .tf, .x2, .y2⟩,
    ⟨.mul, .tg, .te, .tf⟩,
    ⟨.sub, .tf, .tb, .ta⟩,
    ⟨.add, .tf, .tf, .tg⟩,
    ⟨.mul, .te, .a, .ta⟩,
    ⟨.add, .tg, .tb, .te⟩,
    ⟨.add, .te, .td, .tc⟩,
    ⟨.sub, .th, .td, .tc⟩,
    ⟨.mul, .x2, .te, .tf⟩,
    ⟨.mul, .y2, .tg, .th⟩,
    ⟨.mul, .t2, .te, .th⟩,
    ⟨.mul, .z2, .tf, .tg⟩]

variable (ssl : Openssl)

def cxTwistedEdwardsDbl (p : MpiPoint) (pT : Option Slot) (mpi : TeVar → Slot) : Mpis → Mpis :=
  runProgram ssl (atFirst p pT mpi) .n dblProgram

def cxTwistedEdwardsAddSimple (p q : MpiPoint) (mpi : TeVar → Slot) : Mpis → Mpis :=
  runProgram ssl (atSecond q none (atFirst p none mpi)) .n addSimpleProgram

def cxTwistedEdwardsAdd (p : MpiPoint) (pT : Slot) (q : MpiPoint) (qT : Slot)
    (mpi : TeVar → Slot) : Mpis → Mpis :=
  runProgram ssl (atSecond q (some qT) (atFirst p (some pT) mpi)) .n addProgram

-- ---------------------------------------------------------------------------
-- Addition
-- ---------------------------------------------------------------------------

/-- What a function finds on the stack. -/
structure TeStack where
  norm : NormVar → UInt32
  bn : TeVar → UInt32
  xy : Bool → UInt32
  q : EcPoint

def teRequest (domain : CxCurveDomain) (_ : TeVar) : Request := ⟨domain.length, none⟩

def initCurve (domain : CxCurveDomain) (mpi : TeVar → Slot) : Mpis → CxErr × Mpis :=
  checked [cxMpiInit ssl (mpi .n) (domain.bytes domain.p) domain.length,
    cxMpiInit ssl (mpi .a) (domain.bytes domain.a) domain.length,
    cxMpiInit ssl (mpi .b) (domain.bytes domain.b) domain.length]

/-- The part of `cx_twisted_edwards_add_point` with all its numbers. -/
def addPointWith (wordSize : UInt32) (R P Q : MpiPoint) (mpi : TeVar → Slot) (q2 : MpiPoint)
    (m : Mpis) : Mpis :=
  -- R = P
  let m := cxMpiEcpointCopy ssl wordSize R P m
  -- Q2 = Q
  let m := cxMpiEcpointCopy ssl wordSize q2 Q m
  if cxMpiCmp ssl wordSize (m P.y) (m Q.y) = 0 then
    if cxMpiCmp ssl wordSize (m P.x) (m Q.x) ≠ 0 then setInfinite ssl R m
    else cxTwistedEdwardsDbl ssl R none mpi m
  else cxTwistedEdwardsAddSimple ssl q2 R mpi m

/-- The point `ec_q2` and what is done with it. -/
def addPointBody (domain : CxCurveDomain) (Q2 : EcPoint) (R P Q : MpiPoint) (mpi : TeVar → Slot)
    (s : State) : Option ((Bool × EcPoint) × State) :=
  let (error, m) := initCurve ssl domain mpi s.values
  let s := s.withValues m
  if error ≠ .ok then some ((false, Q2), s)
  else
    withPoint ssl domain.curve Q2 (fun q2 m => some (addPointWith ssl s.mpiWordSize R P Q mpi q2 m)) s

/-- The numbers and the point of a function are given back, whatever came before. -/
def release (bns : List UInt32) (Q : EcPoint) (s : State) : CxErr × State :=
  let ((error, _), s) := sysCxEcpointDestroy Q (destroyHandles bns s)
  (error, s)

/-- `cx_twisted_edwards_add_point` up to the normalisation of its result. The curve of `R` is
that of `P` once `P` was copied. -/
def addPointReleased (stack : TeStack) (domain : CxCurveDomain) (R P Q : MpiPoint) (s : State) :
    Option ((CxErr × MpiPoint) × State) := do
  let ((ok, t), s) ← allocAll ssl (teRequest domain) teVars ⟨stack.bn, fun _ => 0⟩ s
  let ((copied, Q2), s) ← whenTaken ok stack.q (addPointBody ssl domain stack.q R P Q t.mpi) s
  let (error, s) := release (teVars.map t.bn) Q2 s
  return ((error, if copied then { R with curve := P.curve } else R), s)

def cxTwistedEdwardsAddPoint (stack : TeStack) (R P Q : MpiPoint) (s : State) :
    Option (EcErr × State) :=
  match cxEcdomain P.curve with
  | none => some (.mpi .invalidParameter, s)
  | some domain => do
    let ((error, R), s) ← addPointReleased ssl stack domain R P Q s
    if error = .ok then cxMpiEcpointNormalize ssl stack.norm R s else some (.mpi error, s)

-- ---------------------------------------------------------------------------
-- Multiplication
-- ---------------------------------------------------------------------------

def isBufferZero (k : Bytes) : Bool := k.all (· = 0)

def getBit (k : Bytes) (pos : Nat) : Bool :=
  (k.getD (k.length - 1 - pos / 8) 0 >>> UInt8.ofNat (pos % 8)) &&& 1 = 1

/-- The loop that finds the first bit that is set, from `pos` down. The counter wraps around, so
that after 2³² steps it comes to `pos` again: there is no result where the loop does not end. -/
def findBit (k : Bytes) : Nat → UInt32 → Option UInt32
  | 0, _ => none
  | fuel + 1, pos => if getBit k pos.toNat then some pos else findBit k fuel (pos - 1)

/-- The bits that the ladder takes, behind the first bit that is set. -/
def ladderBits (k : Bytes) : Option (List Bool) :=
  (findBit k (2 ^ 32) (UInt32.ofNat k.length * 8 - 1)).map fun pos =>
    (List.range pos.toNat).reverse.map (getBit k)

/-- The numbers of `cx_twisted_edwards_mul_point`: `mpi` and `XY`. -/
abbrev MulVar := TeVar ⊕ Bool

def mulVars : List MulVar := teVars.map .inl ++ [.inr false, .inr true]

def mulRequest (domain : CxCurveDomain) (_ : MulVar) : Request := ⟨domain.length, none⟩

/-- The initialisation of the ladder, up to the first doubling. -/
def mulPointInit (wordSize : UInt32) (domain : CxCurveDomain) (P R1 : MpiPoint)
    (mpi : TeVar → Slot) (xy : Bool → Slot) : Mpis → CxErr × Mpis :=
  checked [
    cxMpiInit ssl (mpi .a) (domain.bytes domain.a) domain.length,
    cxMpiInit ssl (mpi .n) (domain.bytes domain.p) domain.length,
    cxMpiModMul ssl (xy false) P.x P.y (mpi .n),
    fun m => (.ok, cxMpiEcpointCopy ssl wordSize R1 P m),
    cxMpiCopy ssl wordSize (xy true) (xy false)]

/-- One bit of the scalar, with `RR[0] = P` and `RR[1] = R1`. -/
def mulPointStep (P R1 : MpiPoint) (mpi : TeVar → Slot) (xy : Bool → Slot) (m : Mpis) (bit : Bool) :
    Mpis :=
  let rr (bit : Bool) : MpiPoint := if bit then R1 else P
  cxTwistedEdwardsDbl ssl (rr bit) (some (xy bit)) mpi
    (cxTwistedEdwardsAdd ssl (rr bit) (xy bit) (rr !bit) (xy !bit) mpi m)

/-- The formulas of `cx_twisted_edwards_mul_point`. -/
def mulPointWith (wordSize : UInt32) (domain : CxCurveDomain) (P : MpiPoint) (k : Bytes)
    (mpi : TeVar → Slot) (xy : Bool → Slot) (R1 : MpiPoint) (m : Mpis) : Option Mpis :=
  let (error, m) := mulPointInit ssl wordSize domain P R1 mpi xy m
  if error ≠ .ok then some m
  else
    let m := cxTwistedEdwardsDbl ssl R1 (some (xy true)) mpi m
    (ladderBits k).map fun bits => bits.foldl (mulPointStep ssl P R1 mpi xy) m

/-- `cx_twisted_edwards_mul_point` up to the normalisation of its result. -/
def mulPointReleased (stack : TeStack) (domain : CxCurveDomain) (P : MpiPoint) (k : Bytes)
    (s : State) : Option (CxErr × State) := do
  let ((ok, t), s) ← allocAll ssl (mulRequest domain) mulVars
    ⟨Sum.elim stack.bn stack.xy, fun _ => 0⟩ s
  let ((_, R1), s) ← whenTaken ok stack.q (withPoint ssl domain.curve stack.q
    (mulPointWith ssl s.mpiWordSize domain P k (t.mpi ∘ .inl) (t.mpi ∘ .inr))) s
  return release (mulVars.map t.bn) R1 s

def cxTwistedEdwardsMulPoint (stack : TeStack) (P : MpiPoint) (k : Bytes) (s : State) :
    Option (EcErr × State) :=
  if isBufferZero k then some (.infinitePoint, s.withValues (setInfinite ssl P s.values))
  else
    match cxEcdomain P.curve with
    | none => some (.mpi .invalidParameter, s)
    | some domain => do
      let (error, s) ← mulPointReleased ssl stack domain P k s
      if error = .ok then cxMpiEcpointNormalize ssl stack.norm P s else some (.mpi error, s)

end Speculos.Ec
