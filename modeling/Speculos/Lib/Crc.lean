import Mathlib.Algebra.CharP.Two
import Mathlib.Algebra.Field.ZMod
import Mathlib.Algebra.Polynomial.Div
import Mathlib.Algebra.Polynomial.RingDivision
import Mathlib.Data.ZMod.Basic
import Mathlib.Tactic.LinearCombination
import Mathlib.Logic.Function.Iterate
import Speculos.Lib.Octets

/-!
# Cyclic redundancy checks

A register of `w` bits that is shifted once for each bit of the message, where the bit that
falls out adds the polynomial. The bits of a byte come with the highest one first, or in a
reflected register with the lowest one first. A shift is linear, so that the eight of a byte
can be looked up in a table.

What a register holds after a message is a remainder of a division of polynomials over the
field with two elements. The register it starts with counts as a message before.
-/

namespace Lib.Crc

def shiftUp (poly c : BitVec w) : BitVec w := if c.msb then (c <<< 1) ^^^ poly else c <<< 1

/-- A shift towards the lowest bit, with the polynomial reflected. -/
def shiftDown (poly c : BitVec w) : BitVec w :=
  if c.getLsbD 0 then (c >>> 1) ^^^ poly else c >>> 1

def crcByte (poly c : BitVec w) (b : UInt8) : BitVec w :=
  (shiftUp poly)^[8] (c ^^^ (b.toBitVec.setWidth w <<< (w - 8)))

def reflectedByte (poly c : BitVec w) (b : UInt8) : BitVec w :=
  (shiftDown poly)^[8] (c ^^^ b.toBitVec.setWidth w)

def crc (poly c : BitVec w) (bytes : Bytes) : BitVec w := bytes.foldl (crcByte poly) c

def reflected (poly c : BitVec w) (bytes : Bytes) : BitVec w := bytes.foldl (reflectedByte poly) c

-- ---------------------------------------------------------------------------
-- Linear shifts
-- ---------------------------------------------------------------------------

theorem shiftUp_xor (poly a b : BitVec w) :
    shiftUp poly (a ^^^ b) = shiftUp poly a ^^^ shiftUp poly b := by
  unfold shiftUp
  rw [BitVec.msb_xor, BitVec.shiftLeft_xor_distrib]
  cases a.msb <;> cases b.msb
  · simp
  · simp [BitVec.xor_assoc]
  · simp only [Bool.xor_false, if_true, Bool.false_eq_true, if_false]
    ac_rfl
  · have hcancel : ((a <<< 1) ^^^ poly) ^^^ ((b <<< 1) ^^^ poly) =
        ((a <<< 1) ^^^ (b <<< 1)) ^^^ (poly ^^^ poly) := by ac_rfl
    simp [hcancel]

theorem shiftDown_xor (poly a b : BitVec w) :
    shiftDown poly (a ^^^ b) = shiftDown poly a ^^^ shiftDown poly b := by
  unfold shiftDown
  rw [BitVec.getLsbD_xor, BitVec.ushiftRight_xor_distrib]
  cases a.getLsbD 0 <;> cases b.getLsbD 0
  · simp
  · simp [BitVec.xor_assoc]
  · simp only [Bool.xor_false, if_true, Bool.false_eq_true, if_false]
    ac_rfl
  · have hcancel : ((a >>> 1) ^^^ poly) ^^^ ((b >>> 1) ^^^ poly) =
        ((a >>> 1) ^^^ (b >>> 1)) ^^^ (poly ^^^ poly) := by ac_rfl
    simp [hcancel]

theorem iterate_xor {shift : BitVec w → BitVec w}
    (hshift : ∀ a b, shift (a ^^^ b) = shift a ^^^ shift b) (n : Nat) (a b : BitVec w) :
    shift^[n] (a ^^^ b) = shift^[n] a ^^^ shift^[n] b := by
  induction n generalizing a b with
  | zero => rfl
  | succ n ih => rw [Function.iterate_succ_apply, hshift, ih]; rfl

/-- Nothing falls out of a register of which the highest bits are clear. -/
theorem iterate_shiftUp (poly c : BitVec w) (h : ∀ i, i < n → c.getMsbD i = false) :
    (shiftUp poly)^[n] c = c <<< n := by
  induction n generalizing c with
  | zero => simp
  | succ n ih =>
    have hmsb : c.msb = false := h 0 (Nat.succ_pos n)
    have hshift : shiftUp poly c = c <<< 1 := by simp [shiftUp, hmsb]
    rw [Function.iterate_succ_apply, hshift, ih, ← BitVec.shiftLeft_add, Nat.add_comm]
    intro i hi
    rw [BitVec.getMsbD_shiftLeft]
    exact h _ (by omega)

theorem iterate_shiftDown (poly c : BitVec w) (h : ∀ i, i < n → c.getLsbD i = false) :
    (shiftDown poly)^[n] c = c >>> n := by
  induction n generalizing c with
  | zero => simp
  | succ n ih =>
    have hlsb : c.getLsbD 0 = false := h 0 (Nat.succ_pos n)
    have hshift : shiftDown poly c = c >>> 1 := by simp [shiftDown, hlsb]
    rw [Function.iterate_succ_apply, hshift, ih, ← BitVec.shiftRight_add, Nat.add_comm]
    intro i hi
    rw [BitVec.getLsbD_ushiftRight]
    exact h _ (by omega)

-- ---------------------------------------------------------------------------
-- Tables
-- ---------------------------------------------------------------------------

theorem crcByte_eq_table (hw : 8 ≤ w) {poly : BitVec w} {table : BitVec 8 → BitVec w}
    (htable : ∀ i, table i = (shiftUp poly)^[8] (i.setWidth w <<< (w - 8)))
    (c : BitVec w) (b : UInt8) :
    crcByte poly c b = table (b.toBitVec ^^^ c.extractLsb' (w - 8) 8) ^^^ (c <<< 8) := by
  -- the bits that are looked up, and those that are moved up
  have hsplit : c ^^^ (b.toBitVec.setWidth w <<< (w - 8)) =
      ((b.toBitVec ^^^ c.extractLsb' (w - 8) 8).setWidth w <<< (w - 8)) ^^^ (c <<< 8 >>> 8) := by
    ext i hi
    by_cases hlow : i < w - 8
    · have hin : 8 + i < w := by omega
      simp [hlow, hin]
    · have hout : ¬ 8 + i < w := by omega
      have hbit : w - 8 + (i - (w - 8)) = i := by omega
      have h8 : i - (w - 8) < 8 := by omega
      simp [hlow, hout, hi, hbit, h8, Bool.xor_comm]
  have hclear : ∀ i, i < 8 → (c <<< 8 >>> 8).getMsbD i = false := by
    intro i hi
    simp [BitVec.getMsbD_ushiftRight, hi]
  have hmoved : (c <<< 8 >>> 8) <<< 8 = c <<< 8 := by
    ext i hi
    by_cases h8 : i < 8
    · simp [h8]
    · have hin : 8 + (i - 8) < w := by omega
      simp [h8, hin]
  rw [crcByte, hsplit, iterate_xor (shiftUp_xor poly), iterate_shiftUp poly _ hclear, hmoved,
    htable]

theorem reflectedByte_eq_table {poly : BitVec w} {table : BitVec 8 → BitVec w}
    (htable : ∀ i, table i = (shiftDown poly)^[8] (i.setWidth w)) (c : BitVec w) (b : UInt8) :
    reflectedByte poly c b = table (c.setWidth 8 ^^^ b.toBitVec) ^^^ (c >>> 8) := by
  have hsplit : c ^^^ b.toBitVec.setWidth w =
      (c.setWidth 8 ^^^ b.toBitVec).setWidth w ^^^ (c >>> 8 <<< 8) := by
    ext i hi
    by_cases hlow : i < 8
    · simp [hlow, hi]
    · have hbit : 8 + (i - 8) = i := by omega
      simp [hlow, hbit, hi, Bool.xor_comm]
  have hclear : ∀ i, i < 8 → (c >>> 8 <<< 8).getLsbD i = false := by
    intro i hi
    simp [hi]
  have hmoved : (c >>> 8 <<< 8) >>> 8 = c >>> 8 := by
    ext i hi
    simpa using BitVec.lt_of_getLsbD
  rw [reflectedByte, hsplit, iterate_xor (shiftDown_xor poly), iterate_shiftDown poly _ hclear,
    hmoved, htable]

-- ---------------------------------------------------------------------------
-- Reflection
-- ---------------------------------------------------------------------------

def reverseBits (b : UInt8) : UInt8 := ⟨b.toBitVec.reverse⟩

theorem reverse_xor (a b : BitVec w) : (a ^^^ b).reverse = a.reverse ^^^ b.reverse := by
  ext i hi
  simp [BitVec.getElem_reverse]

theorem reverse_shiftDown (poly c : BitVec w) :
    (shiftDown poly c).reverse = shiftUp poly.reverse c.reverse := by
  have hshift : (c >>> 1).reverse = c.reverse <<< 1 := by
    ext i hi
    rw [BitVec.getElem_reverse, BitVec.getElem_shiftLeft, BitVec.getMsbD_ushiftRight]
    by_cases hpos : i < 1
    · simp [hpos]
    · simp [hpos, hi, BitVec.getElem_reverse]
  rw [shiftDown, shiftUp, BitVec.msb_reverse]
  split
  · rw [reverse_xor, hshift]
  · exact hshift

theorem reverse_iterate (poly c : BitVec w) (n : Nat) :
    ((shiftDown poly)^[n] c).reverse = (shiftUp poly.reverse)^[n] c.reverse := by
  induction n generalizing c with
  | zero => rfl
  | succ n ih => rw [Function.iterate_succ_apply, ih, reverse_shiftDown,
      Function.iterate_succ_apply]

theorem reverse_reflectedByte (hw : 8 ≤ w) (poly c : BitVec w) (b : UInt8) :
    (reflectedByte poly c b).reverse = crcByte poly.reverse c.reverse (reverseBits b) := by
  have hbyte : (b.toBitVec.setWidth w).reverse =
      (reverseBits b).toBitVec.setWidth w <<< (w - 8) := by
    ext i hi
    rw [BitVec.getElem_reverse, BitVec.getElem_shiftLeft, BitVec.getMsbD_setWidth]
    by_cases hlow : i < w - 8
    · have hout : ¬ w ≤ i + 8 := by omega
      simp [hlow, hout]
    · have hin : w ≤ i + 8 := by omega
      have hbit : i + 8 - w = i - (w - 8) := by omega
      simp [hlow, hin, hbit, reverseBits, BitVec.getLsbD_reverse]
  rw [reflectedByte, reverse_iterate, reverse_xor, hbyte, crcByte]

/-- The reflected register is the other one, with every byte from its other end. -/
theorem reverse_reflected (hw : 8 ≤ w) (poly c : BitVec w) (bytes : Bytes) :
    (reflected poly c bytes).reverse = crc poly.reverse c.reverse (bytes.map reverseBits) := by
  induction bytes generalizing c with
  | nil => rfl
  | cons b bytes ih =>
    have hcons : reflected poly c (b :: bytes) = reflected poly (reflectedByte poly c b) bytes :=
      rfl
    rw [hcons, ih, reverse_reflectedByte hw]
    rfl

end Lib.Crc

-- ---------------------------------------------------------------------------
-- Remainders of polynomials
-- ---------------------------------------------------------------------------

namespace Lib.Crc

open Polynomial

noncomputable def toPoly (c : BitVec w) : (ZMod 2)[X] :=
  ∑ i ∈ Finset.range w, if c.getLsbD i then X ^ i else 0

noncomputable def divisor (poly : BitVec w) : (ZMod 2)[X] := X ^ w + toPoly poly

theorem coeff_toPoly (c : BitVec w) (n : Nat) :
    (toPoly c).coeff n = if c.getLsbD n then 1 else 0 := by
  simp only [toPoly, finsetSum_coeff]
  by_cases hn : n < w
  · rw [Finset.sum_eq_single_of_mem n (Finset.mem_range.mpr hn)]
    · split <;> simp
    · intro i _ hne
      split
      · rw [coeff_X_pow, if_neg hne.symm]
      · exact coeff_zero n
  · rw [BitVec.getLsbD_of_ge c n (Nat.le_of_not_lt hn)]
    refine Finset.sum_eq_zero fun i hi => ?_
    have hne : n ≠ i := fun h => hn (h ▸ Finset.mem_range.mp hi)
    split
    · rw [coeff_X_pow, if_neg hne]
    · exact coeff_zero n

theorem degree_toPoly (c : BitVec w) : (toPoly c).degree < w := by
  rw [degree_lt_iff_coeff_zero]
  intro n hn
  rw [coeff_toPoly, BitVec.getLsbD_of_ge c n hn]
  simp

theorem toPoly_xor (a b : BitVec w) : toPoly (a ^^^ b) = toPoly a + toPoly b := by
  ext n
  rw [coeff_add, coeff_toPoly, coeff_toPoly, coeff_toPoly, BitVec.getLsbD_xor]
  cases a.getLsbD n <;> cases b.getLsbD n <;> simp [CharTwo.add_self_eq_zero]

theorem monic_divisor (poly : BitVec w) : (divisor poly).Monic :=
  monic_X_pow_add (degree_toPoly poly)

theorem degree_toPoly_lt (c poly : BitVec w) : (toPoly c).degree < (divisor poly).degree := by
  have hdivisor : (divisor poly).degree = w := by
    rw [divisor, degree_add_eq_left_of_degree_lt] <;> rw [degree_X_pow]
    exact degree_toPoly poly
  rw [hdivisor]
  exact degree_toPoly c

theorem modByMonic_toPoly (poly c : BitVec w) : toPoly c %ₘ divisor poly = toPoly c :=
  (modByMonic_eq_self_iff (monic_divisor poly)).mpr (degree_toPoly_lt c poly)

theorem X_mul_toPoly (hw : 0 < w) (c : BitVec w) :
    X * toPoly c = toPoly (c <<< 1) + if c.msb then X ^ w else 0 := by
  have htop (n : Nat) : (if c.msb then X ^ w else 0 : (ZMod 2)[X]).coeff n =
      if c.msb ∧ n = w then 1 else 0 := by
    split <;> simp [coeff_X_pow, *]
  ext n
  rw [coeff_add, htop, coeff_toPoly, BitVec.getLsbD_shiftLeft]
  cases n with
  | zero => simp [hw.ne]
  | succ n =>
    rw [coeff_X_mul, coeff_toPoly]
    rcases Nat.lt_trichotomy (n + 1) w with hlt | rfl | hgt
    · simp [hlt, hlt.ne]
    · simp [BitVec.msb_eq_getLsbD_last]
    · simp [hgt.not_gt, hgt.ne', BitVec.getLsbD_of_ge c n (Nat.le_of_lt_succ hgt)]

theorem toPoly_shiftUp (hw : 0 < w) (poly c : BitVec w) :
    toPoly (shiftUp poly c) = (X * toPoly c) %ₘ divisor poly := by
  refine ((div_modByMonic_unique (if c.msb then 1 else 0) _ (monic_divisor poly)
    ⟨?_, degree_toPoly_lt _ poly⟩).2).symm
  rw [X_mul_toPoly hw, shiftUp, divisor]
  split
  · have htwice : toPoly poly + toPoly poly = 0 := CharTwo.add_self_eq_zero _
    rw [toPoly_xor, mul_one]
    linear_combination htwice
  · simp

theorem mul_remainder (poly : BitVec w) (p q : (ZMod 2)[X]) :
    (p * (q %ₘ divisor poly)) %ₘ divisor poly = (p * q) %ₘ divisor poly := by
  refine modByMonic_eq_of_dvd_sub (monic_divisor poly) ⟨-(p * (q /ₘ divisor poly)), ?_⟩
  linear_combination p * modByMonic_add_div q (divisor poly)

theorem toPoly_iterate (hw : 0 < w) (poly c : BitVec w) (n : Nat) :
    toPoly ((shiftUp poly)^[n] c) = (X ^ n * toPoly c) %ₘ divisor poly := by
  induction n generalizing c with
  | zero =>
    rw [pow_zero, one_mul, modByMonic_toPoly]
    rfl
  | succ n ih =>
    rw [Function.iterate_succ_apply, ih, toPoly_shiftUp hw, mul_remainder, pow_succ, mul_assoc]

-- ---------------------------------------------------------------------------
-- Messages
-- ---------------------------------------------------------------------------

/-- The polynomial of a message, the highest bit of the first byte first. -/
noncomputable def messagePoly : Bytes → (ZMod 2)[X]
  | [] => 0
  | b :: bytes => X ^ (8 * bytes.length) * toPoly b.toBitVec + messagePoly bytes

theorem toPoly_top (hw : 8 ≤ w) (b : BitVec 8) :
    toPoly (b.setWidth w <<< (w - 8)) = X ^ (w - 8) * toPoly b := by
  ext n
  rw [coeff_toPoly, coeff_X_pow_mul', BitVec.getLsbD_shiftLeft, coeff_toPoly]
  by_cases hn : w - 8 ≤ n
  · have hlow : ¬ n < w - 8 := Nat.not_lt.mpr hn
    by_cases hin : n < w
    · have hbit : n - (w - 8) < w := by omega
      simp [hn, hlow, hin, hbit]
    · have hout : 8 ≤ n - (w - 8) := by omega
      simp [hn, hin, BitVec.getLsbD_of_ge b _ hout]
  · simp [hn, Nat.lt_of_not_le hn]

theorem toPoly_crcByte (hw : 8 ≤ w) (poly c : BitVec w) (b : UInt8) :
    toPoly (crcByte poly c b) =
      (X ^ 8 * toPoly c + X ^ w * toPoly b.toBitVec) %ₘ divisor poly := by
  have hpow : (X ^ 8 * X ^ (w - 8) : (ZMod 2)[X]) = X ^ w := by
    rw [← pow_add, Nat.add_sub_of_le hw]
  rw [crcByte, toPoly_iterate (by omega), toPoly_xor, toPoly_top hw, mul_add, ← mul_assoc, hpow]

theorem toPoly_crc (hw : 8 ≤ w) (poly c : BitVec w) (bytes : Bytes) :
    toPoly (crc poly c bytes) =
      (X ^ (8 * bytes.length) * toPoly c + X ^ w * messagePoly bytes) %ₘ divisor poly := by
  induction bytes generalizing c with
  | nil => simp [crc, messagePoly, modByMonic_toPoly]
  | cons b bytes ih =>
    have hcons : crc poly c (b :: bytes) = crc poly (crcByte poly c b) bytes := rfl
    rw [hcons, ih, toPoly_crcByte hw, add_modByMonic, mul_remainder, ← add_modByMonic]
    congr 1
    rw [messagePoly, List.length_cons, mul_add_one, pow_add]
    ring

end Lib.Crc
