import Mathlib.Tactic.NormNum.Prime
import Speculos.Lib.Primality
import Speculos.Lib.Octets
import Speculos.Lib.Gauss

/-!
# The field operations of blst

The functions of blst that the code for BLS12-381 calls, on whatever blst has for a residue. They
are exact where they compute in the residues modulo `p` and in their extension by a root of -1.
-/

namespace Speculos.Bls

open Lib

def p : Nat :=
  0x1a0111ea397fe69a4b1ba7b6434bacd764774b84f38512bf6730d2a0f6b0f6241eabfffeb153ffffb9feffffffffaaab

/-- The small primes below a power that ends at `p`. -/
def smallPrimes : List Nat :=
  [2, 3, 5, 7, 11, 13, 17, 19, 23, 31, 43, 47, 53, 89, 113, 151, 409, 467, 941, 3373, 7577, 8101,
    10177, 16447, 43591, 421987, 582767, 609743, 755057, 859267, 1686913]

theorem prime_smallPrimes : ∀ q ∈ smallPrimes, q.Prime := by
  simp only [smallPrimes, List.forall_mem_cons]
  norm_num

/-- For each of the primes from `p - 1` down, a generator and the primes below it. -/
def powers : List Powers :=
  [⟨51376543, 3, [2, 3, 7, 151, 8101]⟩,
    ⟨52437899, 2, [2, 43, 609743]⟩,
    ⟨475709467, 2, [2, 3, 47, 1686913]⟩,
    ⟨927093389, 3, [2, 13, 409, 43591]⟩,
    ⟨13090036741, 10, [2, 3, 5, 11, 47, 421987]⟩,
    ⟨43670061551, 7, [2, 5, 17, 51376543]⟩,
    ⟨9272813673901, 2, [2, 3, 5, 7, 7577, 582767]⟩,
    ⟨64881703735777, 5, [2, 3, 927093389]⟩,
    ⟨1928745244171409, 3, [2, 13, 9272813673901]⟩,
    ⟨7259797099061183477, 2, [2, 941, 1928745244171409]⟩,
    ⟨2584487767265781317813, 2, [2, 89, 7259797099061183477]⟩,
    ⟨3819663927398918131021, 6, [2, 3, 5, 19, 113, 755057, 13090036741]⟩,
    ⟨92691255082156974996979, 3, [2, 3, 31, 467, 16447, 64881703735777]⟩,
    ⟨1125266252156850182658904441386709967, 5, [2, 3373, 43670061551, 3819663927398918131021]⟩,
    ⟨15778400344354997994418419698270088123916926905054652752758194827714659, 2,
      [2, 3, 53, 475709467, 92691255082156974996979, 1125266252156850182658904441386709967]⟩,
    ⟨p, 2, [2, 3, 11, 23, 47, 10177, 859267, 52437899, 2584487767265781317813,
      15778400344354997994418419698270088123916926905054652752758194827714659]⟩]

theorem prime_p : p.Prime := by
  have hpass : PassLucas smallPrimes powers := by decide +kernel
  exact hpass.prime prime_smallPrimes (powers.getLast (List.cons_ne_nil _ _)) (List.getLast_mem _)

instance : Fact p.Prime := ⟨prime_p⟩

end Speculos.Bls

-- ---------------------------------------------------------------------------
-- The field operations of blst
-- ---------------------------------------------------------------------------

namespace Speculos.Bls

open Lib

/-- `blst_fp2` over the type of `blst_fp` -/
structure Fp2 (F : Type) where
  c0 : F
  c1 : F

structure Blst where
  Fp : Type
  fpFromBendian : Bytes → Fp
  bendianFromFp : Fp → Bytes
  fp2Add : Fp2 Fp → Fp2 Fp → Fp2 Fp
  fp2Mul : Fp2 Fp → Fp2 Fp → Fp2 Fp
  fp2Sqr : Fp2 Fp → Fp2 Fp
  fp2Cneg : Fp2 Fp → Bool → Fp2 Fp
  fp2Inverse : Fp2 Fp → Fp2 Fp

theorem p_mod_four : p % 4 = 3 := by
  norm_num [p]

instance : Fact (∀ r : ZMod p, r ^ 2 ≠ -1 + 0 * r) := ⟨Gauss.sq_ne_neg_one p_mod_four⟩

/-- What an element of blst stands for, by what its parts stand for. -/
def Fp2.value {F : Type} (value : F → ZMod p) (a : Fp2 F) : Gauss p := ⟨value a.c0, value a.c1⟩

/-- The operations compute, and a residue is written as the least number. -/
structure Blst.Exact (blst : Blst) (value : blst.Fp → ZMod p) : Prop where
  fpFromBendian : ∀ bytes : Bytes, bytes.length = 48 →
    value (blst.fpFromBendian bytes) = fromBE bytes
  bendianFromFp : ∀ a, blst.bendianFromFp a = toBE 48 (value a).val
  fp2Add : ∀ a b, (blst.fp2Add a b).value value = a.value value + b.value value
  fp2Mul : ∀ a b, (blst.fp2Mul a b).value value = a.value value * b.value value
  fp2Sqr : ∀ a, (blst.fp2Sqr a).value value = a.value value ^ 2
  fp2Cneg : ∀ a flag, (blst.fp2Cneg a flag).value value = if flag then -a.value value
    else a.value value
  fp2Inverse : ∀ a, a.value value ≠ 0 → (blst.fp2Inverse a).value value = (a.value value)⁻¹

def Blst.residues : Blst where
  Fp := ZMod p
  fpFromBendian bytes := fromBE bytes
  bendianFromFp a := toBE 48 a.val
  fp2Add a b := ⟨a.c0 + b.c0, a.c1 + b.c1⟩
  fp2Mul a b := ⟨a.c0 * b.c0 - a.c1 * b.c1, a.c0 * b.c1 + a.c1 * b.c0⟩
  fp2Sqr a := ⟨a.c0 ^ 2 - a.c1 ^ 2, a.c0 * a.c1 + a.c0 * a.c1⟩
  fp2Cneg a flag := if flag then ⟨-a.c0, -a.c1⟩ else a
  fp2Inverse a := ⟨a.c0 * (a.c0 ^ 2 + a.c1 ^ 2)⁻¹, -a.c1 * (a.c0 ^ 2 + a.c1 ^ 2)⁻¹⟩

def Blst.residue (z : Gauss p) : Fp2 Blst.residues.Fp := ⟨z.re, z.im⟩

theorem exact_residues : Blst.residues.Exact id where
  fpFromBendian _ _ := rfl
  bendianFromFp _ := rfl
  fp2Add _ _ := rfl
  fp2Mul a b := by
    ext
    · simp [Blst.residues, Fp2.value]
      ring
    · simp [Blst.residues, Fp2.value]
  fp2Sqr a := by
    ext
    · simp [Blst.residues, Fp2.value, sq]
      ring
    · simp [Blst.residues, Fp2.value, sq]
      ring
  fp2Cneg a flag := by
    cases flag with
    | false => rfl
    | true => rfl
  fp2Inverse a _ := by
    ext
    · simp [Blst.residues, Fp2.value, QuadraticAlgebra.re_inv, QuadraticAlgebra.norm_def]
      ring
    · simp [Blst.residues, Fp2.value, QuadraticAlgebra.im_inv, QuadraticAlgebra.norm_def]
      ring

end Speculos.Bls

/-!
## Arithmetic in GF(p²)

The functions of `cx_bls_fp2.c`. What a function writes through a pointer is its result. An
exponent is read at an offset of one byte, and there is no result where the offset lies outside.
-/

namespace Speculos.Bls

open Lib

/-- `FP2_ONE[0]` -/
def fpOne : Bytes := List.replicate 47 0 ++ [1]

/-- `FP2_ONE[1]` -/
def fpZero : Bytes := List.replicate 48 0

def sqrtRatioC3 : Bytes :=
  [0x2a, 0x43, 0x7a, 0x4b, 0x8c, 0x35, 0xfc, 0x74, 0xbd, 0x27, 0x8e, 0xaa,
    0x22, 0xf2, 0x5e, 0x9e, 0x2d, 0xc9, 0x0e, 0x50, 0xe7, 0x04, 0x6b, 0x46,
    0x6e, 0x59, 0xe4, 0x93, 0x49, 0xe8, 0xbd, 0x05, 0x0a, 0x62, 0xcf, 0xd1,
    0x6d, 0xdc, 0xa6, 0xef, 0x53, 0x14, 0x93, 0x30, 0x97, 0x8e, 0xf0, 0x11,
    0xd6, 0x86, 0x19, 0xc8, 0x61, 0x85, 0xc7, 0xb2, 0x92, 0xe8, 0x5a, 0x87,
    0x09, 0x1a, 0x04, 0x96, 0x6b, 0xf9, 0x1e, 0xd3, 0xe7, 0x1b, 0x74, 0x31,
    0x62, 0xc3, 0x38, 0x36, 0x21, 0x13, 0xcf, 0xd7, 0xce, 0xd6, 0xb1, 0xd7,
    0x63, 0x82, 0xea, 0xb2, 0x6a, 0xa0, 0x00, 0x01, 0xc7, 0x18, 0xe3]

def sqrtRatioC4 : Bytes := [0x07]

def sqrtRatioC5 : Bytes := [0x04]

def sqrtRatioC6 : Bytes :=
  [0x06, 0xaf, 0x0e, 0x04, 0x37, 0xff, 0x40, 0x0b, 0x68, 0x31, 0xe3, 0x6d,
    0x6b, 0xd1, 0x7f, 0xfe, 0x48, 0x39, 0x5d, 0xab, 0xc2, 0xd3, 0x43, 0x5e,
    0x77, 0xf7, 0x6e, 0x17, 0x00, 0x92, 0x41, 0xc5, 0xee, 0x67, 0x99, 0x2f,
    0x72, 0xec, 0x05, 0xf4, 0xc8, 0x10, 0x84, 0xfb, 0xed, 0xe3, 0xcc, 0x09]

def sqrtRatioC70 : Bytes :=
  [0x13, 0xdc, 0x09, 0x69, 0x31, 0x1e, 0x2b, 0xa5, 0x65, 0x92, 0x4c, 0xb0,
    0xb6, 0xf7, 0xbb, 0x98, 0x57, 0xf1, 0x57, 0xe1, 0x7f, 0x0c, 0x8d, 0xb4,
    0xe4, 0x84, 0xfc, 0xb2, 0x7b, 0x8b, 0xe0, 0xb3, 0x6d, 0xfa, 0x03, 0x40,
    0xc4, 0x22, 0xfb, 0x7e, 0xfe, 0x9d, 0x9a, 0x32, 0x34, 0x33, 0x6d, 0x5e]

def sqrtRatioC71 : Bytes :=
  [0x07, 0x1d, 0x42, 0xac, 0x9c, 0x54, 0x00, 0x1a, 0x21, 0xac, 0xf9, 0x18,
    0x7d, 0x46, 0x9d, 0x91, 0x9a, 0x83, 0x0a, 0x2c, 0x96, 0x91, 0x28, 0xd2,
    0x26, 0x59, 0xdc, 0x2f, 0x82, 0x63, 0xf1, 0xca, 0x73, 0xc5, 0xb0, 0xe0,
    0x2c, 0x05, 0xec, 0x38, 0x1b, 0x86, 0x84, 0xa6, 0x76, 0xa8, 0x13, 0x81]

-- ---------------------------------------------------------------------------
-- Helpers
-- ---------------------------------------------------------------------------

section

variable (blst : Blst)

def cxBlsBendianFromFp2 (a : Fp2 blst.Fp) : Bytes × Bytes :=
  (blst.bendianFromFp a.c0, blst.bendianFromFp a.c1)

def cxBlsFp2FromBendian (c0 c1 : Bytes) : Fp2 blst.Fp :=
  ⟨blst.fpFromBendian c0, blst.fpFromBendian c1⟩

def cxBlsFp2IsOne (a : Fp2 blst.Fp) : Bool :=
  let buffer := cxBlsBendianFromFp2 blst a
  buffer.1 == fpOne && buffer.2 == fpZero

def cxBlsFpIsZero (a : blst.Fp) : Bool := (blst.bendianFromFp a).all (· == 0)

def cxBlsFp2Copy (a : Fp2 blst.Fp) : Fp2 blst.Fp := a

def cxBlsFp2SetOne : Fp2 blst.Fp := cxBlsFp2FromBendian blst fpOne fpZero

def cxBlsFp2IsZero (a : Fp2 blst.Fp) : Bool :=
  let buffer := cxBlsBendianFromFp2 blst a
  (buffer.1 ++ buffer.2).all (· == 0)

def cxBlsFp2ConditionalMove (a b : Fp2 blst.Fp) (choice : Bool) : Fp2 blst.Fp :=
  if choice then cxBlsFp2Copy blst b else cxBlsFp2Copy blst a

def cxBlsFp2Sgn0 (a : Fp2 blst.Fp) : UInt8 :=
  let (a0, a1) := cxBlsBendianFromFp2 blst a
  let sign0 := a0.getD 47 0 &&& 1
  let zero0 : UInt8 := if cxBlsFpIsZero blst a.c0 then 1 else 0
  let sign1 := a1.getD 47 0 &&& 1
  sign0 ||| (zero0 &&& sign1)

end

-- ---------------------------------------------------------------------------
-- Powers
-- ---------------------------------------------------------------------------

/-- The loop of `cx_get_bit_length`, which counts a byte without its top bit as one bit. -/
def bitLengthLoop (bitLen : Nat) : Bytes → Nat
  | [] => bitLen
  | b :: bs => if b &&& 0x80 ≠ 0 then bitLen else bitLengthLoop (bitLen - 1) bs

def cxGetBitLength (buffer : Bytes) : Nat := bitLengthLoop (buffer.length * 8) buffer

section

variable (blst : Blst)

/-- One turn of the inner loop of `cx_bls_fp2_pow`: the result and the power for the next bit. -/
def powBit (byte : UInt8) (s : Fp2 blst.Fp × Fp2 blst.Fp) (bit : Nat) : Fp2 blst.Fp × Fp2 blst.Fp :=
  (if (byte >>> UInt8.ofNat bit) &&& 1 ≠ 0 then blst.fp2Mul s.1 s.2 else s.1, blst.fp2Sqr s.2)

/-- The outer loop of `cx_bls_fp2_pow`. -/
def powLoop (exp : Bytes) (bitLen : Int) (byteOffset : UInt8) (s : Fp2 blst.Fp × Fp2 blst.Fp) :
    Option (Fp2 blst.Fp) :=
  if 0 < bitLen then
    match exp[byteOffset.toNat]? with
    | none => none
    | some byte => powLoop exp (bitLen - 8) (byteOffset - 1)
        ((List.range 8).foldl (powBit blst byte) s)
  else some s.1
termination_by bitLen.toNat

def cxBlsFp2Pow (a : Fp2 blst.Fp) (exp : Bytes) : Option (Fp2 blst.Fp) :=
  powLoop blst exp (cxGetBitLength exp) (UInt8.ofNat exp.length - 1)
    (cxBlsFp2SetOne blst, cxBlsFp2Copy blst a)

-- ---------------------------------------------------------------------------
-- Square roots
-- ---------------------------------------------------------------------------

def cxBlsFp2SqrtRatio (u v : Fp2 blst.Fp) : Option (Bool × Fp2 blst.Fp) := do
  let tv1 := cxBlsFp2FromBendian blst sqrtRatioC6 sqrtRatioC6
  let tv2 ← cxBlsFp2Pow blst v sqrtRatioC4
  let tv3Tmp := blst.fp2Sqr tv2
  let tv3 := blst.fp2Mul v tv3Tmp
  let tv5 := blst.fp2Mul u tv3
  let tv5Tmp ← cxBlsFp2Pow blst tv5 sqrtRatioC3
  let tv5 := blst.fp2Mul tv5Tmp tv2
  let tv2 := blst.fp2Mul tv5 v
  let tv3 := blst.fp2Mul tv5 u
  let tv4 := blst.fp2Mul tv3 tv2
  let tv5 ← cxBlsFp2Pow blst tv4 sqrtRatioC5
  let isQr := cxBlsFp2IsOne blst tv5
  let c7 := cxBlsFp2FromBendian blst sqrtRatioC70 sqrtRatioC71
  let tv2 := blst.fp2Mul tv3 c7
  let tv5 := blst.fp2Mul tv4 tv1
  let tv3Tmp := cxBlsFp2Copy blst tv3
  let tv3 := cxBlsFp2ConditionalMove blst tv2 tv3Tmp isQr
  let tv4Tmp := cxBlsFp2Copy blst tv4
  let tv4 := cxBlsFp2ConditionalMove blst tv5 tv4Tmp isQr
  let tv5 := blst.fp2Sqr tv4
  let e1 := cxBlsFp2IsOne blst tv5
  let tv2 := blst.fp2Mul tv3 tv1
  let tv4Tmp := cxBlsFp2Copy blst tv1
  let tv1 := blst.fp2Sqr tv4Tmp
  let tv5 := blst.fp2Mul tv4 tv1
  let tv4Tmp := cxBlsFp2Copy blst tv3
  let tv3 := cxBlsFp2ConditionalMove blst tv2 tv4Tmp e1
  let tv4Tmp := cxBlsFp2Copy blst tv4
  let tv4 := cxBlsFp2ConditionalMove blst tv5 tv4Tmp e1
  let e1 := cxBlsFp2IsOne blst tv4
  let tv2 := blst.fp2Mul tv3 tv1
  let ret := cxBlsFp2ConditionalMove blst tv2 tv3 e1
  return (isQr, ret)

end

end Speculos.Bls
