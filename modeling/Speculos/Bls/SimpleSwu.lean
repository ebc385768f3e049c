import Speculos.Bls.Blst
import Speculos.Bls.SqrtRatio
import Speculos.Lib.CubicRemainder
import Speculos.Lib.SimplifiedSwu

/-!
# The map of field elements to the curve

`cx_bls_g2_map_to_curve_simple_swu` of `cx_bls_g2.c`.

`cx_bls_g2_map_to_curve_simple_swu` against the simplified map. Its numerator is never 0,
because the curve has no point with `y = 0`.
-/

namespace Speculos.Bls

open Lib

def sswuEllpZ0 : Bytes :=
  [0x1a, 0x01, 0x11, 0xea, 0x39, 0x7f, 0xe6, 0x9a, 0x4b, 0x1b, 0xa7, 0xb6,
    0x43, 0x4b, 0xac, 0xd7, 0x64, 0x77, 0x4b, 0x84, 0xf3, 0x85, 0x12, 0xbf,
    0x67, 0x30, 0xd2, 0xa0, 0xf6, 0xb0, 0xf6, 0x24, 0x1e, 0xab, 0xff, 0xfe,
    0xb1, 0x53, 0xff, 0xff, 0xb9, 0xfe, 0xff, 0xff, 0xff, 0xff, 0xaa, 0xa9]

def sswuEllpZ1 : Bytes :=
  [0x1a, 0x01, 0x11, 0xea, 0x39, 0x7f, 0xe6, 0x9a, 0x4b, 0x1b, 0xa7, 0xb6,
    0x43, 0x4b, 0xac, 0xd7, 0x64, 0x77, 0x4b, 0x84, 0xf3, 0x85, 0x12, 0xbf,
    0x67, 0x30, 0xd2, 0xa0, 0xf6, 0xb0, 0xf6, 0x24, 0x1e, 0xab, 0xff, 0xfe,
    0xb1, 0x53, 0xff, 0xff, 0xb9, 0xfe, 0xff, 0xff, 0xff, 0xff, 0xaa, 0xaa]

/-- Both parts of `SSWU_ELLP_B` -/
def sswuEllpB : Bytes := List.replicate 46 0 ++ [0x03, 0xf4]

def sswuEllpA0 : Bytes := List.replicate 48 0

def sswuEllpA1 : Bytes := List.replicate 47 0 ++ [0xf0]

structure P2Affine (F : Type) where
  x : Fp2 F
  y : Fp2 F

def cxBlsG2MapToCurveSimpleSwu (blst : Blst) (u : Fp2 blst.Fp) : Option (P2Affine blst.Fp) := do
  let tv1Tmp := blst.fp2Sqr u
  let z := cxBlsFp2FromBendian blst sswuEllpZ0 sswuEllpZ1
  let tv1 := blst.fp2Mul z tv1Tmp
  let tv2Tmp := blst.fp2Sqr tv1
  let tv2 := blst.fp2Add tv2Tmp tv1
  let tv1Tmp := cxBlsFp2SetOne blst
  let tv3Tmp := blst.fp2Add tv2 tv1Tmp
  let b := cxBlsFp2FromBendian blst sswuEllpB sswuEllpB
  let tv3 := blst.fp2Mul b tv3Tmp
  let tv2Tmp := blst.fp2Cneg tv2 true
  let isZero := cxBlsFp2IsZero blst tv2
  let tv4Tmp := cxBlsFp2ConditionalMove blst z tv2Tmp (!isZero)
  let a := cxBlsFp2FromBendian blst sswuEllpA0 sswuEllpA1
  let tv4 := blst.fp2Mul a tv4Tmp
  let tv2 := blst.fp2Sqr tv3
  let tv6 := blst.fp2Sqr tv4
  let tv5 := blst.fp2Mul a tv6
  let tv2Tmp := blst.fp2Add tv2 tv5
  let tv2 := blst.fp2Mul tv2Tmp tv3
  let tv6Tmp := blst.fp2Mul tv6 tv4
  let tv6 := cxBlsFp2Copy blst tv6Tmp
  let tv5 := blst.fp2Mul b tv6
  let tv2Tmp := blst.fp2Add tv2 tv5
  let tv2 := cxBlsFp2Copy blst tv2Tmp
  let x := blst.fp2Mul tv1 tv3
  let (isGx1Square, y1) ← cxBlsFp2SqrtRatio blst tv2 tv6
  let tv1Tmp := blst.fp2Mul tv1 u
  let pointY := blst.fp2Mul tv1Tmp y1
  let pointX := cxBlsFp2ConditionalMove blst x tv3 isGx1Square
  let x := cxBlsFp2Copy blst pointX
  let y := cxBlsFp2ConditionalMove blst pointY y1 isGx1Square
  let e1 := cxBlsFp2Sgn0 blst u == cxBlsFp2Sgn0 blst y
  let tv1Tmp := blst.fp2Cneg y true
  let pointY := cxBlsFp2ConditionalMove blst tv1Tmp y e1
  let tv4Tmp := blst.fp2Inverse tv4
  let pointX := blst.fp2Mul x tv4Tmp
  return ⟨pointX, pointY⟩

end Speculos.Bls

-- ---------------------------------------------------------------------------
-- The map of field elements to the curve
-- ---------------------------------------------------------------------------

namespace Speculos.Bls

open Lib

def ellpA : Gauss p := ⟨0, 240⟩

def ellpB : Gauss p := ⟨1012, 1012⟩

theorem ellpA_ne_zero : ellpA ≠ 0 := by
  intro h
  have him : ((240 : Nat) : ZMod p) = 0 := congrArg QuadraticAlgebra.im h
  rw [ZMod.natCast_eq_zero_iff] at him
  exact absurd (Nat.le_of_dvd (by decide) him) (by norm_num [p])

/-- The sign of an element: the parity of its first part that is not 0. -/
def sgn0 (a : Gauss p) : Nat := if a.re = 0 then a.im.val % 2 else a.re.val % 2

-- ---------------------------------------------------------------------------
-- Roots of the cubic
-- ---------------------------------------------------------------------------

/-- The remainder of `X` to the power of the upper half of `p`. -/
def genHalf : Remainder ellpA ellpB :=
  ⟨⟨0x14937f66d3a656a82c2b2b77644edb340deecbcc68d1bd904d2398beee2ddad082cf664574c18914f9aa25d48cb4c1d7,
      0x56d928365d98ff21ef07c3edefcd1a356887fb88ab3552f1a0d39e208831b539bdc99b93c9276eac054da2b734ae8d4⟩,
    ⟨0x7cb815aedf3ad3e9067968862246c15294e814feeb64154d15d01f53cfafa023fe3e22fedfe5c24fabf4715aee9f590, 0⟩,
    ⟨0x145796e6a4adddfe576a9b21a7edcfa3e31f939367c534920f0dd59f38a2fc6885d7f9852585931a02fa39b35446501b,
      0x145796e6a4adddfe576a9b21a7edcfa3e31f939367c534920f0dd59f38a2fc6885d7f9852585931a02fa39b35446501b⟩⟩

/-- The remainder of `X ^ p`. -/
def genPower : Remainder ellpA ellpB :=
  ⟨⟨0x1a0111ea397fe50e0bedb593299aada4011381f5b3116ace4fefae5e9593113165fd0490dcfea1955c545555597fb0eb,
      0x1a0111ea397fe50e0bedb593299aada4011381f5b3116ace4fefae5e9593113165fd0490dcfea1955c545555597fb0eb⟩,
    ⟨0, 0x1a0111ea397fe67af712a99ba5d30a95a649b9be586c91b5b3ac128fe02209b84a267c46bab3549d3cabaaaaaafeab29⟩,
    ⟨0x1a0111ea397fe697d11cf7cc7188f80bdf0b78a8db1df34c4bd86a66f2e25fe900b7b4d2ce66aa9bdc9c5555555baab5,
      0x279feafe9d1c2b4cb856bd2dc18671f731b58683a03ce963b1df44b2be2ed5563dd62aaaaaaa3fff6⟩⟩

/-- The inverse of the remainder of `X ^ (p * p) - X`. -/
def genInverse : Remainder ellpA ellpB :=
  ⟨⟨0x5c759507e8e3340620545362904660ce10d0f220d7ec3cc9af0744a723f4584c573c055db22aab44b251c71c717ee1c,
      0x5c759507e8e3340620545362904660ce10d0f220d7ec3cc9af0744a723f4584c573c055db22aab44b251c71c717ee1c⟩,
    ⟨0, 0x1439b899baf1b35b8fc02d1bfb73bf5231b21e4af64b0e94de7b4e7d31a614c6c285c71b6d7a38e357c655555555130d⟩,
    ⟨0x9077b8dc5be3012061110fff35bed1a25791cf8eeeadd822a7700d19c6b9071ff832a1c427d4e38d2ffae38e38e17b6,
      0x10f9965c73c1b688450a96b64fefbfbd3efe2e8c049a353d3cb9d1cf5a4565b21f28d5e26ed6b1c6e6ff51c71c7192f5⟩⟩

theorem gen_powBits_high :
    powBits (Remainder.gen : Remainder ellpA ellpB) (p / 2 ^ 190) 191 = genHalf := by
  decide +kernel

theorem gen_powBits_low :
    powBits genHalf (2 ^ 190) 191 * powBits Remainder.gen (p % 2 ^ 190) 190 = genPower := by
  decide +kernel

theorem gen_pow_half : (Remainder.gen : Remainder ellpA ellpB) ^ (p / 2 ^ 190) = genHalf := by
  have hlt : p / 2 ^ 190 < 2 ^ 191 := by norm_num [p]
  rw [← powBits_eq _ hlt]
  exact gen_powBits_high

theorem gen_pow : (Remainder.gen : Remainder ellpA ellpB) ^ p = genPower := by
  have hlow : p % 2 ^ 190 < 2 ^ 190 := Nat.mod_lt _ (by decide)
  calc (Remainder.gen : Remainder ellpA ellpB) ^ p
      = (Remainder.gen ^ (p / 2 ^ 190)) ^ 2 ^ 190 * Remainder.gen ^ (p % 2 ^ 190) := by
        rw [← pow_mul, ← pow_add, Nat.div_add_mod']
    _ = powBits genHalf (2 ^ 190) 191 * powBits Remainder.gen (p % 2 ^ 190) 190 := by
        rw [gen_pow_half, powBits_eq _ (by decide), powBits_eq _ hlow]
    _ = genPower := gen_powBits_low

theorem g_ne_zero (x : Gauss p) : Swu.g ellpA ellpB x ≠ 0 :=
  Remainder.no_root (σ := starRingEnd (Gauss p)) (Gauss.pow_prime p_mod_four) star_star gen_pow
    (s := genInverse) (by decide) x

-- ---------------------------------------------------------------------------
-- Signs
-- ---------------------------------------------------------------------------

theorem sgn0_lt (a : Gauss p) : sgn0 a < 2 := by
  rw [sgn0]
  split
  · exact Nat.mod_lt _ Nat.two_pos
  · exact Nat.mod_lt _ Nat.two_pos

/-- An element and its opposite differ in the sign. -/
theorem sgn0_neg {a : Gauss p} (ha : a ≠ 0) : sgn0 (-a) ≠ sgn0 a := by
  have hodd : p % 2 = 1 := by norm_num [p]
  have hparity {c : ZMod p} (hc : c ≠ 0) : (-c).val % 2 ≠ c.val % 2 := by
    have hlt := ZMod.val_lt c
    rw [ZMod.neg_val, if_neg hc]
    omega
  simp only [sgn0, QuadraticAlgebra.re_neg, QuadraticAlgebra.im_neg, neg_eq_zero]
  by_cases hre : a.re = 0
  · rw [if_pos hre, if_pos hre]
    exact hparity fun him => ha (QuadraticAlgebra.ext hre him)
  · rw [if_neg hre, if_neg hre]
    exact hparity hre

section

variable {blst : Blst} {value : blst.Fp → ZMod p}

theorem all_zero_eq (a : ZMod p) : (toBE 48 a.val).all (· == 0) = decide (a = 0) := by
  have hzero : toBE 48 0 = List.replicate (toBE 48 a.val).length 0 := by
    rw [length_toBE]
    rfl
  have hiff : toBE 48 a.val = toBE 48 0 ↔ a = (0 : Nat) := toBE_val_iff a (by decide)
  rw [Nat.cast_zero, hzero, List.eq_replicate_iff] at hiff
  rw [Bool.eq_iff_iff, decide_eq_true_iff, ← hiff]
  simp

theorem cxBlsFp2IsZero_eq (h : blst.Exact value) (a : Fp2 blst.Fp) :
    cxBlsFp2IsZero blst a = decide (a.value value = 0) := by
  rw [cxBlsFp2IsZero, cxBlsBendianFromFp2, h.bendianFromFp, h.bendianFromFp, List.all_append,
    all_zero_eq, all_zero_eq]
  simp [QuadraticAlgebra.ext_iff, Fp2.value]

theorem cxBlsFp2Sgn0_eq (h : blst.Exact value) (a : Fp2 blst.Fp) :
    cxBlsFp2Sgn0 blst a = UInt8.ofNat (sgn0 (a.value value)) := by
  have hlow (n : Nat) : (toBE 48 n).getD 47 0 &&& 1 = UInt8.ofNat (n % 2) := by
    have hmod : n % 2 % 256 = n % 2 := Nat.mod_eq_of_lt (by omega)
    rw [List.getD_eq_getElem _ _ (by simp), getElem_toBE, ← UInt8.toNat_inj, UInt8.toNat_and]
    simp [hmod]
  have hmask (n : Nat) : (1 : UInt8) &&& UInt8.ofNat (n % 2) = UInt8.ofNat (n % 2) := by
    rcases Nat.mod_two_eq_zero_or_one n with heven | hodd
    · rw [heven]
      rfl
    · rw [hodd]
      rfl
  rw [cxBlsFp2Sgn0, cxBlsBendianFromFp2, cxBlsFpIsZero, h.bendianFromFp, h.bendianFromFp,
    all_zero_eq]
  simp only [hlow]
  by_cases hzero : value a.c0 = 0
  · simp [sgn0, Fp2.value, hzero, hmask]
  · simp [sgn0, Fp2.value, hzero]

theorem cxBlsFp2Sgn0_beq (h : blst.Exact value) (a b : Fp2 blst.Fp) :
    (cxBlsFp2Sgn0 blst a == cxBlsFp2Sgn0 blst b) =
      decide (sgn0 (a.value value) = sgn0 (b.value value)) := by
  rw [cxBlsFp2Sgn0_eq h, cxBlsFp2Sgn0_eq h, Bool.eq_iff_iff, decide_eq_true_iff, beq_iff_eq]
  refine ⟨fun heq => ?_, congrArg UInt8.ofNat⟩
  have hnat := congrArg UInt8.toNat heq
  rwa [UInt8.toNat_ofNat_of_lt' (Nat.lt_trans (sgn0_lt _) (by decide)),
    UInt8.toNat_ofNat_of_lt' (Nat.lt_trans (sgn0_lt _) (by decide))] at hnat

/-- A root with the sign of `u`. -/
theorem sign_move (h : blst.Exact value) (u y : Fp2 blst.Fp) :
    (cxBlsFp2ConditionalMove blst (blst.fp2Cneg y true) y
        (cxBlsFp2Sgn0 blst u == cxBlsFp2Sgn0 blst y)).value value ^ 2 = y.value value ^ 2 ∧
      ((cxBlsFp2ConditionalMove blst (blst.fp2Cneg y true) y
          (cxBlsFp2Sgn0 blst u == cxBlsFp2Sgn0 blst y)).value value ≠ 0 →
        sgn0 ((cxBlsFp2ConditionalMove blst (blst.fp2Cneg y true) y
          (cxBlsFp2Sgn0 blst u == cxBlsFp2Sgn0 blst y)).value value) = sgn0 (u.value value)) := by
  rw [value_fp2ConditionalMove, cxBlsFp2Sgn0_beq h, h.fp2Cneg, if_pos rfl]
  by_cases hsign : sgn0 (u.value value) = sgn0 (y.value value)
  · simp [hsign]
  · simp only [hsign, decide_false, Bool.false_eq_true, if_false, neg_sq, true_and]
    intro hne
    have hother := sgn0_neg (neg_ne_zero.mp hne)
    have hu := sgn0_lt (u.value value)
    have hy := sgn0_lt (y.value value)
    have hneg := sgn0_lt (-y.value value)
    omega

-- ---------------------------------------------------------------------------
-- The map
-- ---------------------------------------------------------------------------

theorem value_sswuEllpZ (h : blst.Exact value) :
    (cxBlsFp2FromBendian blst sswuEllpZ0 sswuEllpZ1).value value = z := by
  rw [value_fp2FromBendian h rfl rfl]
  decide

theorem value_sswuEllpA (h : blst.Exact value) :
    (cxBlsFp2FromBendian blst sswuEllpA0 sswuEllpA1).value value = ellpA := by
  rw [value_fp2FromBendian h rfl rfl]
  decide

theorem value_sswuEllpB (h : blst.Exact value) :
    (cxBlsFp2FromBendian blst sswuEllpB sswuEllpB).value value = ellpB := by
  rw [value_fp2FromBendian h rfl rfl]
  decide

/-- `ellpB / (z * ellpA)` -/
def exceptional : Gauss p :=
  ⟨0x1a59d4b6bbf912a32d63b43028e2deeebe8d5d97ca64b6d66f64ac7a265a9305e1a40da5edb81b4e3ac4f5c28f5bd27,
    0x15103a07f641331bb298f5ed3ba1230aa0bcc9f87d923077324df24a0f7ffa93045d3d6f94c17ae10efa11eb851e7336⟩

/-- Where there is no inverse, the first candidate is on the curve. -/
theorem isSquare_exceptional : IsSquare (Swu.g ellpA ellpB (ellpB / (z * ellpA))) := by
  have hne : z * ellpA ≠ 0 := mul_ne_zero z_ne_zero ellpA_ne_zero
  have hmul : ellpB = exceptional * (z * ellpA) := by decide
  have heq : ellpB / (z * ellpA) = exceptional := (eq_div_of_mul_eq hne hmul.symm).symm
  have hpow : powBits (Swu.g ellpA ellpB exceptional) oddPart 760 ^ 4 = 1 := by decide +kernel
  rw [powBits_eq _ oddPart_lt] at hpow
  rw [heq]
  exact (isSquare_iff (g_ne_zero _)).mpr hpow

/-- The point of the map, with the sign of `u`. -/
structure MapsSwu (u x y : Gauss p) : Prop where
  curve : y ^ 2 = Swu.g ellpA ellpB x
  candidate : x = Swu.mapX ellpA ellpB z u
  sign : y ≠ 0 → sgn0 y = sgn0 u

theorem cxBlsG2MapToCurveSimpleSwu_eq (h : blst.Exact value) (u : Fp2 blst.Fp) :
    ∃ point, cxBlsG2MapToCurveSimpleSwu blst u = some point ∧
      MapsSwu (u.value value) (point.x.value value) (point.y.value value) := by
  generalize htv1 : blst.fp2Mul (cxBlsFp2FromBendian blst sswuEllpZ0 sswuEllpZ1) (blst.fp2Sqr u) =
    tv1
  generalize htv2 : blst.fp2Add (blst.fp2Sqr tv1) tv1 = tv2
  generalize htv3 : blst.fp2Mul (cxBlsFp2FromBendian blst sswuEllpB sswuEllpB)
    (blst.fp2Add tv2 (cxBlsFp2SetOne blst)) = tv3
  generalize htv4 : blst.fp2Mul (cxBlsFp2FromBendian blst sswuEllpA0 sswuEllpA1)
    (cxBlsFp2ConditionalMove blst (cxBlsFp2FromBendian blst sswuEllpZ0 sswuEllpZ1) (blst.fp2Cneg tv2 true)
      (!cxBlsFp2IsZero blst tv2)) = tv4
  generalize htv6 : blst.fp2Mul (blst.fp2Sqr tv4) tv4 = tv6
  generalize hgx1 : blst.fp2Add (blst.fp2Mul (blst.fp2Add (blst.fp2Sqr tv3)
    (blst.fp2Mul (cxBlsFp2FromBendian blst sswuEllpA0 sswuEllpA1) (blst.fp2Sqr tv4))) tv3)
    (blst.fp2Mul (cxBlsFp2FromBendian blst sswuEllpB sswuEllpB) tv6) = gx1
  have hv1 : tv1.value value = z * u.value value ^ 2 := by
    rw [← htv1, h.fp2Mul, h.fp2Sqr, value_sswuEllpZ h]
  have hv2 : tv2.value value = Swu.divisor z (u.value value) := by
    rw [← htv2, h.fp2Add, h.fp2Sqr, hv1, Swu.divisor]
    ring
  have hv3 : tv3.value value = ellpB * (Swu.divisor z (u.value value) + 1) := by
    rw [← htv3, h.fp2Mul, h.fp2Add, value_sswuEllpB h, value_fp2SetOne h, hv2]
  have hv4 : tv4.value value = Swu.den ellpA z (u.value value) := by
    rw [← htv4, h.fp2Mul, value_fp2ConditionalMove, cxBlsFp2IsZero_eq h, value_sswuEllpA h,
      value_sswuEllpZ h, h.fp2Cneg, hv2, Swu.den]
    by_cases hzero : Swu.divisor z (u.value value) = 0
    · simp [hzero]
    · simp [hzero]
  have hden : tv4.value value ≠ 0 := hv4 ▸ Swu.den_ne_zero ellpA_ne_zero z_ne_zero
  have hx1 : tv3.value value / tv4.value value = Swu.x1 ellpA ellpB z (u.value value) := by
    rw [hv3, hv4, Swu.x1_eq ellpA_ne_zero]
  have hv6 : tv6.value value = tv4.value value ^ 3 := by
    rw [← htv6, h.fp2Mul, h.fp2Sqr]
    ring
  have hratio : gx1.value value / tv6.value value =
      Swu.g ellpA ellpB (Swu.x1 ellpA ellpB z (u.value value)) := by
    rw [← hgx1, h.fp2Add, h.fp2Mul, h.fp2Add, h.fp2Mul, h.fp2Mul, h.fp2Sqr, h.fp2Sqr,
      value_sswuEllpA h, value_sswuEllpB h, hv6, ← hx1, Swu.g]
    field_simp
  have hdenominator : tv6.value value ≠ 0 := hv6 ▸ pow_ne_zero 3 hden
  have hnumerator : gx1.value value ≠ 0 := by
    intro hzero
    rw [hzero, zero_div] at hratio
    exact g_ne_zero _ hratio.symm
  obtain ⟨hsquare, hnone⟩ := cxBlsFp2SqrtRatio_sq h gx1 tv6 hnumerator hdenominator
  have hinverse (x : Fp2 blst.Fp) :
      (blst.fp2Mul x (blst.fp2Inverse tv4)).value value = x.value value / tv4.value value := by
    rw [h.fp2Mul, h.fp2Inverse _ hden, div_eq_mul_inv]
  simp only [cxBlsG2MapToCurveSimpleSwu, htv1, htv2, htv3, htv4, cxBlsFp2Copy, htv6, hgx1]
  by_cases hfirst : IsSquare (gx1.value value / tv6.value value)
  · obtain ⟨y1, hrun, hy1⟩ := hsquare hfirst
    rw [hrun]
    refine ⟨_, rfl, ?_, ?_, (sign_move h u _).2⟩
    · refine (sign_move h u _).1.trans ?_
      dsimp only
      rw [hinverse, value_fp2ConditionalMove, value_fp2ConditionalMove, if_pos rfl, if_pos rfl, hx1,
        ← hratio, eq_div_iff hdenominator, hy1]
    · dsimp only
      rw [hinverse, value_fp2ConditionalMove, if_pos rfl, hx1, Swu.mapX, if_pos (hratio ▸ hfirst)]
  · obtain ⟨y1, hrun, hy1⟩ := hnone hfirst
    rw [hrun]
    refine ⟨_, rfl, ?_, ?_, (sign_move h u _).2⟩
    · refine (sign_move h u _).1.trans ?_
      dsimp only
      have hregular : Swu.divisor z (u.value value) ≠ 0 := by
        intro hzero
        rw [hratio, Swu.x1, if_pos hzero] at hfirst
        exact hfirst isSquare_exceptional
      have hroot : y1.value value ^ 2 = z * Swu.g ellpA ellpB
          (Swu.x1 ellpA ellpB z (u.value value)) := by
        rw [← hratio, ← mul_div_assoc, eq_div_iff hdenominator, hy1]
      rw [hinverse, value_fp2ConditionalMove, value_fp2ConditionalMove, if_neg (by decide),
        if_neg (by decide), h.fp2Mul, h.fp2Mul, h.fp2Mul, mul_div_assoc, hx1, hv1, ← Swu.x2,
        Swu.g_x2 ellpA_ne_zero hregular]
      linear_combination (z * u.value value ^ 2 * u.value value) ^ 2 * hroot
    · dsimp only
      rw [hinverse, value_fp2ConditionalMove, if_neg (by decide), h.fp2Mul, mul_div_assoc, hx1, hv1,
        Swu.mapX, if_neg (hratio ▸ hfirst), Swu.x2]

end

/-- The image of an element with both coordinates, and the one of 0, for which there is no
inverse. -/
theorem mapsSwu_residues :
    (∃ point, cxBlsG2MapToCurveSimpleSwu .residues (Blst.residue ⟨3, 1⟩) = some point ∧
      MapsSwu ⟨3, 1⟩ (point.x.value id) (point.y.value id)) ∧
    ∃ point, cxBlsG2MapToCurveSimpleSwu .residues (Blst.residue 0) = some point ∧
      MapsSwu 0 (point.x.value id) (point.y.value id) :=
  ⟨cxBlsG2MapToCurveSimpleSwu_eq exact_residues (Blst.residue ⟨3, 1⟩),
    cxBlsG2MapToCurveSimpleSwu_eq exact_residues (Blst.residue 0)⟩

end Speculos.Bls
