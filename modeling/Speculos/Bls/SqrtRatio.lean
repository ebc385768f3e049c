import Mathlib.GroupTheory.OrderOfElement
import Speculos.Bls.Pow

/-!
# Square roots of ratios

`cx_bls_fp2_sqrt_ratio` for `p ^ 2 - 1 = 8 * oddPart`. What it calls `tv3` and `tv4` keeps
`tv3 ^ 2 * v = w * tv4`, where `w` is `u` or `z * u`, and the moves take `tv4` through the powers of
`z ^ oddPart` to 1.
-/

namespace Speculos.Bls

open Lib

/-- `Z = -(2 + i)` -/
def z : Gauss p := ⟨(-2 : Int), -1⟩

/-- The odd part of `p ^ 2 - 1`. -/
def oddPart : Nat := (p ^ 2 - 1) / 8

-- ---------------------------------------------------------------------------
-- Constants
-- ---------------------------------------------------------------------------

theorem oddPart_lt : oddPart < 2 ^ 760 := by
  rw [show 760 = 8 * 95 from rfl, pow_mul]
  norm_num [oddPart, p]

theorem oddPart_mul_eight : oddPart * 8 = p ^ 2 - 1 := by
  norm_num [oddPart, p]

theorem sqrtRatio_constants :
    oddPart = 2 * fromBE sqrtRatioC3 + 1 ∧
      fromBE (sqrtRatioC3.drop (lowBytes sqrtRatioC3 / 8)) = fromBE sqrtRatioC3 ∧
      powBits z oddPart 760 = ⟨fromBE sqrtRatioC6, fromBE sqrtRatioC6⟩ ∧
      powBits z (fromBE sqrtRatioC3 + 1) 760 = ⟨fromBE sqrtRatioC70, fromBE sqrtRatioC71⟩ ∧
      (⟨fromBE sqrtRatioC6, fromBE sqrtRatioC6⟩ : Gauss p) ^ 4 = -1 := by
  decide +kernel

theorem oddPart_eq : oddPart = 2 * fromBE sqrtRatioC3 + 1 := sqrtRatio_constants.1

theorem z_ne_zero : z ≠ 0 := by
  intro h
  have him := congrArg QuadraticAlgebra.im h
  rw [QuadraticAlgebra.im_zero] at him
  exact one_ne_zero (neg_eq_zero.mp him)

theorem z_pow_oddPart : z ^ oddPart = ⟨fromBE sqrtRatioC6, fromBE sqrtRatioC6⟩ := by
  rw [← powBits_eq z oddPart_lt]
  exact sqrtRatio_constants.2.2.1

theorem z_pow_half : z ^ (fromBE sqrtRatioC3 + 1) = ⟨fromBE sqrtRatioC70, fromBE sqrtRatioC71⟩ := by
  have hlt : fromBE sqrtRatioC3 + 1 < 2 ^ 760 := by
    have hodd := oddPart_eq
    have hpos := oddPart_mul_eight
    have hlt := oddPart_lt
    omega
  rw [← powBits_eq z hlt]
  exact sqrtRatio_constants.2.2.2.1

theorem z_pow_four : (z ^ oddPart) ^ 4 = -1 := by
  rw [z_pow_oddPart]
  exact sqrtRatio_constants.2.2.2.2

theorem pow_eight {a : Gauss p} (ha : a ≠ 0) : (a ^ oddPart) ^ 8 = 1 := by
  rw [← pow_mul, oddPart_mul_eight]
  exact Gauss.pow_card_sub_one ha

theorem isSquare_iff {a : Gauss p} (ha : a ≠ 0) : IsSquare a ↔ (a ^ oddPart) ^ 4 = 1 := by
  have hodd : p ≠ 2 := by norm_num [p]
  have hhalf : oddPart * 4 = p ^ 2 / 2 := by norm_num [oddPart, p]
  rw [Gauss.isSquare_iff hodd ha, ← pow_mul, hhalf]

-- ---------------------------------------------------------------------------
-- Values
-- ---------------------------------------------------------------------------

section

variable {blst : Blst} {value : blst.Fp → ZMod p}

theorem toBE_val_iff (a : ZMod p) (hn : n < p) : toBE 48 a.val = toBE 48 n ↔ a = n := by
  have hp : p < 256 ^ 48 := by norm_num [p]
  have ha := ZMod.val_lt a
  constructor
  · intro heq
    rw [← toBE_injective_of_lt (Nat.lt_trans ha hp) (Nat.lt_trans hn hp) heq, ZMod.natCast_zmod_val]
  · rintro rfl
    rw [ZMod.val_natCast_of_lt hn]

theorem cxBlsFp2IsOne_eq (h : blst.Exact value) (a : Fp2 blst.Fp) :
    cxBlsFp2IsOne blst a = decide (a.value value = 1) := by
  have hone : fpOne = toBE 48 1 := rfl
  have hzero : fpZero = toBE 48 0 := rfl
  rw [Bool.eq_iff_iff, decide_eq_true_iff, cxBlsFp2IsOne, cxBlsBendianFromFp2, h.bendianFromFp,
    h.bendianFromFp, hone, hzero, Bool.and_eq_true, beq_iff_eq, beq_iff_eq,
    toBE_val_iff _ (by decide), toBE_val_iff _ (by decide), QuadraticAlgebra.ext_iff,
    QuadraticAlgebra.re_one, QuadraticAlgebra.im_one]
  simp [Fp2.value]

theorem value_fp2ConditionalMove (a b : Fp2 blst.Fp) (choice : Bool) :
    (cxBlsFp2ConditionalMove blst a b choice).value value =
      if choice then b.value value else a.value value := by
  cases choice with
  | false => rfl
  | true => rfl

end

-- ---------------------------------------------------------------------------
-- Roots
-- ---------------------------------------------------------------------------

section

variable {K : Type} [Field K] {u v w x y c c6 c7 z : K}

theorem candidate_sq (u v : K) (m : Nat) :
    ((u * v ^ 15) ^ m * v ^ 7 * u) ^ 2 * v = u * (u * v ^ 15) ^ (2 * m + 1) := by
  ring

/-- A root of the quotient moves with the root. -/
theorem move_sq (h : x ^ 2 * v = w * y) (c : K) : (x * c) ^ 2 * v = w * (y * c ^ 2) := by
  linear_combination c ^ 2 * h

/-- The moves of a candidate `x` that is off by the root `y` of 1. -/
def moves [DecidableEq K] (c6 c7 x y : K) : K :=
  let (x, y) := if y ^ 4 = 1 then (x, y) else (x * c7, y * c6)
  let (x, y) := if y ^ 2 = 1 then (x, y) else (x * c6, y * c6 ^ 2)
  if y = 1 then x else x * c6 ^ 2

theorem eq_neg_one_of_sq (h : c ^ 2 = 1) (hne : c ≠ 1) : c = -1 :=
  (mul_self_eq_one_iff.mp ((sq c).symm.trans h)).resolve_left hne

theorem last_move [DecidableEq K] (hx : x ^ 2 * v = w * y) (hy : y ^ 2 = 1) (h6 : c6 ^ 4 = -1) :
    (if y = 1 then x else x * c6 ^ 2) ^ 2 * v = w := by
  by_cases hone : y = 1
  · rw [if_pos hone, hx, hone, mul_one]
  · have hminus := eq_neg_one_of_sq hy hone
    rw [if_neg hone]
    linear_combination c6 ^ 4 * hx + w * c6 ^ 4 * hminus - w * h6

theorem middle_move [DecidableEq K] (hx : x ^ 2 * v = w * y) (hy : y ^ 4 = 1) (h6 : c6 ^ 4 = -1) :
    (let (x, y) := if y ^ 2 = 1 then (x, y) else (x * c6, y * c6 ^ 2)
      if y = 1 then x else x * c6 ^ 2) ^ 2 * v = w := by
  by_cases hone : y ^ 2 = 1
  · simp only [if_pos hone]
    exact last_move hx hone h6
  · have hminus := eq_neg_one_of_sq (c := y ^ 2) (by rw [← pow_mul, hy]) hone
    simp only [if_neg hone]
    refine last_move (move_sq hx c6) ?_ h6
    linear_combination c6 ^ 4 * hminus - h6

theorem moves_sq [DecidableEq K] (hx : x ^ 2 * v = u * y) (hy : y ^ 8 = 1) (h6 : c6 ^ 4 = -1)
    (h7 : c7 ^ 2 = z * c6) :
    moves c6 c7 x y ^ 2 * v = if y ^ 4 = 1 then u else z * u := by
  rw [moves]
  by_cases hsquare : y ^ 4 = 1
  · simp only [if_pos hsquare]
    exact middle_move hx hsquare h6
  · have hminus := eq_neg_one_of_sq (c := y ^ 4) (by rw [← pow_mul, hy]) hsquare
    simp only [if_neg hsquare]
    refine middle_move ?_ ?_ h6
    · linear_combination c7 ^ 2 * hx + u * y * h7
    · linear_combination c6 ^ 4 * hminus - h6

end

theorem cxBlsFp2SqrtRatio_eq {blst : Blst} {value : blst.Fp → ZMod p} (h : blst.Exact value)
    (u v : Fp2 blst.Fp) :
    ∃ ret, cxBlsFp2SqrtRatio blst u v =
        some (decide (((u.value value * v.value value ^ 15) ^ oddPart) ^ 4 = 1), ret) ∧
      ret.value value =
        moves (z ^ oddPart) (z ^ (fromBE sqrtRatioC3 + 1))
          ((u.value value * v.value value ^ 15) ^ fromBE sqrtRatioC3 * v.value value ^ 7 * u.value value)
          ((u.value value * v.value value ^ 15) ^ oddPart) := by
  have h4 : fromBE (sqrtRatioC4.drop (lowBytes sqrtRatioC4 / 8)) = 7 := by decide
  have h3 : fromBE (sqrtRatioC3.drop (lowBytes sqrtRatioC3 / 8)) = fromBE sqrtRatioC3 :=
    sqrtRatio_constants.2.1
  have h5 : fromBE (sqrtRatioC5.drop (lowBytes sqrtRatioC5 / 8)) = 4 := by decide
  obtain ⟨tv2, htv2, hv7⟩ := cxBlsFp2Pow_eq h v (by decide : sqrtRatioC4.length ≤ 256)
  rw [h4] at hv7
  obtain ⟨tv5Tmp, htv5Tmp, hpower⟩ := cxBlsFp2Pow_eq h
    (blst.fp2Mul u (blst.fp2Mul v (blst.fp2Sqr tv2))) (by decide : sqrtRatioC3.length ≤ 256)
  rw [h3, h.fp2Mul, h.fp2Mul, h.fp2Sqr, hv7] at hpower
  generalize htv3 : blst.fp2Mul (blst.fp2Mul tv5Tmp tv2) u = tv3
  generalize htv4 : blst.fp2Mul tv3 (blst.fp2Mul (blst.fp2Mul tv5Tmp tv2) v) = tv4
  obtain ⟨tv5, htv5, hfour⟩ := cxBlsFp2Pow_eq h tv4 (by decide : sqrtRatioC5.length ≤ 256)
  rw [h5] at hfour
  simp only [cxBlsFp2SqrtRatio, Option.bind_eq_bind, Option.bind_some, htv2, htv5Tmp, htv3, htv4,
    htv5]
  have hx : tv3.value value =
      (u.value value * v.value value ^ 15) ^ fromBE sqrtRatioC3 * v.value value ^ 7 *
        u.value value := by
    rw [← htv3, h.fp2Mul, h.fp2Mul, hpower, hv7]
    ring
  have hy : tv4.value value = (u.value value * v.value value ^ 15) ^ oddPart := by
    rw [← htv4, h.fp2Mul, h.fp2Mul, h.fp2Mul, hpower, hv7, hx, oddPart_eq]
    ring
  have h6 : (cxBlsFp2FromBendian blst sqrtRatioC6 sqrtRatioC6).value value = z ^ oddPart := by
    rw [z_pow_oddPart, value_fp2FromBendian h rfl rfl]
  have h7 : (cxBlsFp2FromBendian blst sqrtRatioC70 sqrtRatioC71).value value =
      z ^ (fromBE sqrtRatioC3 + 1) := by
    rw [z_pow_half, value_fp2FromBendian h rfl rfl]
  generalize hisQr : cxBlsFp2IsOne blst tv5 = isQr
  rw [cxBlsFp2IsOne_eq h, hfour] at hisQr
  rw [← hx, ← hy, ← h6, ← h7, hisQr]
  refine ⟨_, rfl, ?_⟩
  subst hisQr
  simp only [cxBlsFp2IsOne_eq h, value_fp2ConditionalMove, h.fp2Mul, h.fp2Sqr, cxBlsFp2Copy, moves]
  by_cases hsquare : tv4.value value ^ 4 = 1
  · by_cases hone : tv4.value value ^ 2 = 1
    · simp [hsquare, hone]
    · simp [hsquare, hone]
  · simp only [hsquare, decide_false, Bool.false_eq_true, if_false, decide_eq_true_eq]
    split
    · simp
    · simp

/-- The root of a square, or the root of `z` times what is none. -/
theorem cxBlsFp2SqrtRatio_sq {blst : Blst} {value : blst.Fp → ZMod p} (h : blst.Exact value)
    (u v : Fp2 blst.Fp) (hu : u.value value ≠ 0) (hv : v.value value ≠ 0) :
    (IsSquare (u.value value / v.value value) →
        ∃ ret, cxBlsFp2SqrtRatio blst u v = some (true, ret) ∧
        ret.value value ^ 2 * v.value value = u.value value) ∧
      (¬ IsSquare (u.value value / v.value value) →
        ∃ ret, cxBlsFp2SqrtRatio blst u v = some (false, ret) ∧
        ret.value value ^ 2 * v.value value = z * u.value value) := by
  obtain ⟨ret, hrun, hret⟩ := cxBlsFp2SqrtRatio_eq h u v
  generalize u.value value = x at *
  generalize v.value value = y at *
  have hne : x * y ^ 15 ≠ 0 := mul_ne_zero hu (pow_ne_zero _ hv)
  have hsquare : IsSquare (x / y) ↔ ((x * y ^ 15) ^ oddPart) ^ 4 = 1 := by
    have hratio : x * y ^ 15 = x / y * (y ^ 8 * y ^ 8) := by
      field_simp
    have heighth : IsSquare (y ^ 8 * y ^ 8) := ⟨_, rfl⟩
    rw [← isSquare_iff hne]
    constructor
    · intro hsquare
      rw [hratio]
      exact hsquare.mul heighth
    · intro hsquare
      rw [← mul_div_cancel_right₀ (x / y) (mul_ne_zero (pow_ne_zero 8 hv) (pow_ne_zero 8 hv)),
        ← hratio]
      exact hsquare.div heighth
  have hroot := moves_sq (candidate_sq x y (fromBE sqrtRatioC3))
    (by rw [← oddPart_eq, pow_eight hne])
    z_pow_four (by rw [oddPart_eq]; ring : (z ^ (fromBE sqrtRatioC3 + 1)) ^ 2 = z * z ^ oddPart)
  rw [← oddPart_eq, ← hret] at hroot
  constructor
  · intro h
    refine ⟨ret, ?_, by rwa [if_pos (hsquare.mp h)] at hroot⟩
    rw [hrun, decide_eq_true (hsquare.mp h)]
  · intro h
    refine ⟨ret, ?_, by rwa [if_neg (mt hsquare.mpr h)] at hroot⟩
    rw [hrun, decide_eq_false (mt hsquare.mpr h)]

/-- The parameter is no square, and the root of its square comes back. -/
theorem cxBlsFp2SqrtRatio_z : ∃ ret, cxBlsFp2SqrtRatio .residues (Blst.residue z) (Blst.residue 1) =
    some (false, ret) ∧ ret.value id ^ 2 * 1 = z * z := by
  refine (cxBlsFp2SqrtRatio_sq exact_residues (Blst.residue z) (Blst.residue 1) z_ne_zero one_ne_zero).2 ?_
  change ¬ IsSquare (z / 1)
  rw [div_one, isSquare_iff z_ne_zero, z_pow_four]
  decide

end Speculos.Bls
