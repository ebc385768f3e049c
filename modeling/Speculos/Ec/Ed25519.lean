import Mathlib.NumberTheory.LegendreSymbol.Basic
import Mathlib.Tactic.NormNum.Prime
import Speculos.Ec.Domain
import Speculos.Lib.Primality
import Speculos.Lib.TwistedEdwards

/-!
# Ed25519

The arithmetic of `cx_ed25519.c` on numbers without a bound, which are divided by what OpenSSL
finds as an inverse. The modulus is a prime, -1 is a square and `d` is none: the
points are a group, and the functions compute in it.
-/

namespace Speculos.Ec.Ed25519

open Lib

-- ---------------------------------------------------------------------------
-- edwards_add, scalarmult_ed25519
-- ---------------------------------------------------------------------------

def constantQ : Nat :=
  57896044618658097711785492504343953926634992332820282019728792003956564819949

def constantI : Nat :=
  19681161376707505956807079304988542015446066515923890162744021073123829784752

def numBits (e : Nat) : Nat := if e = 0 then 0 else e.log2 + 1

/-- `BN_mod_exp` modulo `q`, by squaring. -/
def modExp (a : Int) (e : Nat) : Int := (powBits (a : ZMod constantQ) e (numBits e)).val

section

-- `BN_mod_inverse`: what the destination holds afterwards
variable (modInverse : Int → Int → Int)

/-- `d1`, which is not reduced. -/
def d1 : Int := -121665 * modInverse 121666 constantQ

/-- The coordinates that are left in `R`, which may be `P` or `Q`. -/
def edwardsAdd (P Q : Int × Int) : Int × Int :=
  let q : Int := constantQ
  let a := P.1 * Q.2 % q
  let b := Q.1 * P.2 % q
  let dx1x2y1y2 := a * b % q
  let dx1x2y1y2 := d1 modInverse * dx1x2y1y2 % q
  let a := (a + b) % q
  let b := 1 + dx1x2y1y2
  let b := modInverse b q
  let rx := a * b % q
  let a := P.2 * Q.2 % q
  let b := P.1 * Q.1 % q
  let a := (a + b) % q
  let b := 1 - dx1x2y1y2
  let b := modInverse b q
  (rx, a * b % q)

/-- The rounds of the loop from the bit `n - 1` down. -/
def scalarmultRounds (P : Int × Int) (e : Nat) : Nat → Int × Int → Int × Int
  | 0, Q => Q
  | bit + 1, Q =>
    let Q := edwardsAdd modInverse Q Q
    scalarmultRounds P e bit (if e.testBit bit then edwardsAdd modInverse Q P else Q)

def scalarmultEd25519 (P : Int × Int) (e : Nat) : Int × Int :=
  scalarmultRounds modInverse P e (numBits e) (0, 1)

-- ---------------------------------------------------------------------------
-- xrecover
-- ---------------------------------------------------------------------------

/-- The even one of two numbers that are opposite to one another. -/
def xrecover (y : Int) : Int :=
  let q : Int := constantQ
  let xx := y * y
  let a := d1 modInverse * xx
  let a := a + 1
  let a := modInverse a q
  let xx := xx - 1
  let xx := xx * a
  let a := q + 2
  let a := a + 1
  let a := a >>> (3 : Nat)
  let x := modExp xx a.toNat
  let a := x * x
  let a := (a - xx) % q
  let x := if a ≠ 0 then x * constantI % q else x
  if x % 2 = 1 then q - x else x

end

/-- What OpenSSL documents of `BN_mod_inverse`. -/
def Inverts (modInverse : Int → Int → Int) : Prop :=
  ∀ a n : Int, 1 < n → a.gcd n = 1 → a * modInverse a n % n = 1

-- ---------------------------------------------------------------------------
-- The modulus
-- ---------------------------------------------------------------------------

/-- The small primes below a power that ends at the modulus. -/
def smallPrimes : List Nat :=
  [2, 3, 5, 7, 13, 19, 31, 43, 47, 103, 107, 127, 223, 353, 991, 2437, 3727, 4153, 57467, 65147,
    75707, 132049, 430751, 569003]

theorem prime_smallPrimes : ∀ q ∈ smallPrimes, q.Prime := by
  simp only [smallPrimes, List.forall_mem_cons]
  norm_num

def powers : List Powers :=
  [⟨1923133, 2, [2, 3, 43, 3727]⟩,
    ⟨31757755568855353, 10, [2, 3, 31, 107, 223, 4153, 430751]⟩,
    ⟨2773320623, 5, [2, 2437, 569003]⟩,
    ⟨72106336199, 7, [2, 13, 2773320623]⟩,
    ⟨8574133, 2, [2, 3, 7, 103, 991]⟩,
    ⟨1919519569386763, 2, [2, 3, 7, 19, 47, 127, 8574133]⟩,
    ⟨75445702479781427272750846543864801, 7, [2, 3, 5, 75707, 72106336199, 1919519569386763]⟩,
    ⟨74058212732561358302231226437062788676166966415465897661863160754340907, 2,
      [2, 3, 353, 57467, 132049, 1923133, 31757755568855353, 75445702479781427272750846543864801]⟩,
    ⟨constantQ, 2,
      [2, 3, 65147, 74058212732561358302231226437062788676166966415465897661863160754340907]⟩]

theorem prime_constantQ : constantQ.Prime := by
  have hpass : PassLucas smallPrimes powers := by decide +kernel
  exact hpass.prime prime_smallPrimes (powers.getLast (List.cons_ne_nil _ _)) (List.getLast_mem _)

instance : Fact constantQ.Prime := ⟨prime_constantQ⟩

theorem constantQ_eq : constantQ = 2 ^ 255 - 19 := by decide

-- ---------------------------------------------------------------------------
-- The curve
-- ---------------------------------------------------------------------------

/-- The curve of the domain, which calls `d` `b`. -/
def curve : TwistedEdwards (ZMod constantQ) := ⟨Ec.ed25519.a, Ec.ed25519.b⟩

theorem curve_a : curve.a = -1 := by decide

theorem curve_d : curve.d * 121666 = -121665 := by decide

theorem constantI_sq : (constantI : ZMod constantQ) * constantI = -1 := by decide

theorem complete : curve.Complete where
  two_ne := by decide
  a_ne := by decide
  a_square := ⟨constantI, by rw [constantI_sq, curve_a]⟩
  d_nonsquare := by
    have hd : curve.d ≠ 0 := by decide
    have hpow : powBits curve.d (constantQ / 2) 255 ≠ 1 := by decide +kernel
    rw [powBits_eq _ (by decide)] at hpow
    exact fun hsquare => hpow ((ZMod.euler_criterion constantQ hd).mp hsquare)

instance : Fact curve.Complete := ⟨complete⟩

-- ---------------------------------------------------------------------------
-- Numbers as residues
-- ---------------------------------------------------------------------------

theorem lt_numBits (e : Nat) : e < 2 ^ numBits e := by
  rw [numBits]
  split
  · rename_i hzero
    rw [hzero]
    decide
  · exact Nat.lt_log2_self

theorem modExp_eq (a : Int) (e : Nat) : modExp a e = ((a : ZMod constantQ) ^ e).val := by
  rw [modExp, powBits_eq _ (lt_numBits e)]

/-- The residue `x` as the number that OpenSSL gives. -/
def least (x : ZMod constantQ) : Int := x.val

theorem emod_constantQ (x : Int) : x % constantQ = least (x : ZMod constantQ) :=
  (ZMod.val_intCast x).symm

@[simp] theorem intCast_least (x : ZMod constantQ) : (least x : ZMod constantQ) = x := by
  rw [least, Int.cast_natCast, ZMod.natCast_zmod_val]

section

variable {modInverse : Int → Int → Int}

theorem intCast_modInverse (hinv : Inverts modInverse) {v : Int} (hv : (v : ZMod constantQ) ≠ 0) :
    (modInverse v constantQ : ZMod constantQ) = (v : ZMod constantQ)⁻¹ := by
  have hcoprime : v.gcd constantQ = 1 := by
    have hdvd : ¬ constantQ ∣ v.natAbs := fun h =>
      hv ((ZMod.intCast_zmod_eq_zero_iff_dvd v constantQ).mpr (Int.natCast_dvd.mpr h))
    rw [Int.gcd_comm]
    exact (Nat.Prime.coprime_iff_not_dvd prime_constantQ).mpr hdvd
  have hone := hinv v constantQ (by decide) hcoprime
  have hcast : (v : ZMod constantQ) * modInverse v constantQ = 1 := by
    have hmod := congrArg (fun x : Int => (x : ZMod constantQ)) hone
    simpa [ZMod.intCast_mod] using hmod
  exact eq_inv_of_mul_eq_one_right hcast

theorem intCast_d1 (hinv : Inverts modInverse) : (d1 modInverse : ZMod constantQ) = curve.d := by
  have hne : ((121666 : Int) : ZMod constantQ) ≠ 0 := by decide
  have hne' : (121666 : ZMod constantQ) ≠ 0 := by decide
  rw [d1, Int.cast_mul, intCast_modInverse hinv hne]
  push_cast
  rw [← div_eq_mul_inv, eq_comm, eq_div_iff hne']
  exact curve_d

-- ---------------------------------------------------------------------------
-- Points
-- ---------------------------------------------------------------------------

/-- Coordinates of a point, which may not be reduced. -/
def Stands (P : Int × Int) (pt : curve.Point) : Prop :=
  (P.1 : ZMod constantQ) = pt.xy.1 ∧ (P.2 : ZMod constantQ) = pt.xy.2

def coordinates (pt : curve.Point) : Int × Int := (least pt.xy.1, least pt.xy.2)

theorem stands_coordinates (pt : curve.Point) : Stands (coordinates pt) pt :=
  ⟨intCast_least _, intCast_least _⟩

theorem edwardsAdd_eq (hinv : Inverts modInverse) {P Q : Int × Int}
    {pt qt : curve.Point} (hP : Stands P pt) (hQ : Stands Q qt) :
    edwardsAdd modInverse P Q = coordinates (pt + qt) := by
  obtain ⟨hx1, hy1⟩ := hP
  obtain ⟨hx2, hy2⟩ := hQ
  have hplus := TwistedEdwards.one_add_cross_ne complete pt.onCurve qt.onCurve
  have hminus := TwistedEdwards.one_sub_cross_ne complete pt.onCurve qt.onCurve
  have hcross : curve.d * (pt.xy.1 * qt.xy.2 * (qt.xy.1 * pt.xy.2)) = curve.cross pt.xy qt.xy := by
    rw [TwistedEdwards.cross]
    ring
  have hplus' : ((1 + least (curve.cross pt.xy qt.xy) : Int) : ZMod constantQ) =
      1 + curve.cross pt.xy qt.xy := by
    rw [Int.cast_add, Int.cast_one, intCast_least]
  have hminus' : ((1 - least (curve.cross pt.xy qt.xy) : Int) : ZMod constantQ) =
      1 - curve.cross pt.xy qt.xy := by
    rw [Int.cast_sub, Int.cast_one, intCast_least]
  simp only [edwardsAdd, emod_constantQ, Int.cast_mul, Int.cast_add, intCast_least, intCast_d1 hinv,
    hx1, hy1, hx2, hy2, hcross, intCast_modInverse hinv (hplus' ▸ hplus),
    intCast_modInverse hinv (hminus' ▸ hminus), hplus', hminus']
  rw [coordinates, TwistedEdwards.xy_add, TwistedEdwards.add, curve_a, div_eq_mul_inv,
    div_eq_mul_inv, mul_comm qt.xy.1, neg_mul, neg_mul, one_mul, sub_neg_eq_add]

-- ---------------------------------------------------------------------------
-- Multiples
-- ---------------------------------------------------------------------------

theorem scalarmultRounds_eq (hinv : Inverts modInverse) (hP : Stands P pt) (e : Nat) :
    ∀ len, scalarmultRounds modInverse P e len (coordinates ((e / 2 ^ len) • pt)) =
      coordinates (e • pt) := by
  intro len
  induction len with
  | zero => rw [pow_zero, Nat.div_one, scalarmultRounds]
  | succ len ih =>
    have hhalf : e / 2 ^ (len + 1) = e / 2 ^ len / 2 := by rw [pow_succ, Nat.div_div_eq_div_mul]
    have hbit : e.testBit len = decide (e / 2 ^ len % 2 = 1) := by
      rw [Nat.testBit_eq_decide_div_mod_eq]
    have hsplit := Nat.div_add_mod (e / 2 ^ len) 2
    rw [scalarmultRounds, hhalf, edwardsAdd_eq hinv (stands_coordinates _) (stands_coordinates _),
      ← ih, hbit]
    congr 1
    split
    · rename_i hodd
      rw [edwardsAdd_eq hinv (stands_coordinates _) hP, ← two_nsmul, smul_smul, ← succ_nsmul,
        ← of_decide_eq_true hodd, hsplit]
    · rename_i heven
      rw [← two_nsmul, smul_smul]
      have hzero : e / 2 ^ len % 2 = 0 := by
        simpa using heven
      rw [hzero, add_zero] at hsplit
      rw [hsplit]

/-- `e` times a point of the curve, reduced, for every `e`. -/
theorem scalarmultEd25519_eq (hinv : Inverts modInverse) (hP : Stands P pt) (e : Nat) :
    scalarmultEd25519 modInverse P e = coordinates (e • pt) := by
  have hstart : ((0, 1) : Int × Int) = coordinates ((e / 2 ^ numBits e) • pt) := by
    rw [Nat.div_eq_of_lt (lt_numBits e), zero_nsmul]
    decide
  rw [scalarmultEd25519, hstart, scalarmultRounds_eq hinv hP]

end

def bezoutInverse (a n : Int) : Int := a.gcdA n % n

theorem inverts_bezoutInverse : Inverts bezoutInverse := by
  intro a n hn hgcd
  have hbezout := Int.gcd_eq_gcd_ab a n
  rw [hgcd, Nat.cast_one] at hbezout
  rw [bezoutInverse, Int.mul_emod, Int.emod_emod_of_dvd _ (dvd_refl n), ← Int.mul_emod,
    show a * a.gcdA n = 1 - n * a.gcdB n by omega, Int.sub_mul_emod_self_left]
  exact Int.emod_eq_of_lt (by decide) hn

/-- The base point, whose `y` is 4/5. -/
def basePoint : curve.Point where
  xy := (15112221349535400772501151409588531511454012693041857206046113283949847762202,
    46316835694926478169428394003475163141307993866256225615783033603165251855960)
  onCurve := by
    unfold TwistedEdwards.OnCurve
    decide

theorem scalarmultEd25519_basePoint :
    scalarmultEd25519 bezoutInverse (coordinates basePoint) (2 ^ 252 + 7) =
      coordinates ((2 ^ 252 + 7) • basePoint) :=
  scalarmultEd25519_eq inverts_bezoutInverse (stands_coordinates basePoint) (2 ^ 252 + 7)

end Speculos.Ec.Ed25519
