import Mathlib.Data.ZMod.Basic
import Speculos.Lib.MachineInt

/-!
# The field elements of Curve25519

`fe` of `cx_curve25519.c`: ten signed limbs with the weights that the comment at its head gives
them, their sums and differences, and the carries that bring the limbs back to their sizes. Where a
carry leaves the last limb, it comes back to the first one nineteen times, so that the integer
changes by a multiple of the prime.
-/

namespace Speculos.Curve25519

open Lib

structure Fe where
  t0 : Int
  t1 : Int
  t2 : Int
  t3 : Int
  t4 : Int
  t5 : Int
  t6 : Int
  t7 : Int
  t8 : Int
  t9 : Int
  deriving DecidableEq, Repr

def p : Nat := 2 ^ 255 - 19

instance : NeZero p := ⟨by decide⟩

namespace Fe

def value (t : Fe) : Int :=
  t.t0 + 2 ^ 26 * t.t1 + 2 ^ 51 * t.t2 + 2 ^ 77 * t.t3 + 2 ^ 102 * t.t4 + 2 ^ 128 * t.t5 +
    2 ^ 153 * t.t6 +
    2 ^ 179 * t.t7 + 2 ^ 204 * t.t8 + 2 ^ 230 * t.t9

def residue (t : Fe) : ZMod p := t.value

/-- The limbs at odd places are at most `a`, and those at even places twice as much. -/
structure Within (a : Int) (t : Fe) : Prop where
  t0 : |t.t0| ≤ 2 * a
  t1 : |t.t1| ≤ a
  t2 : |t.t2| ≤ 2 * a
  t3 : |t.t3| ≤ a
  t4 : |t.t4| ≤ 2 * a
  t5 : |t.t5| ≤ a
  t6 : |t.t6| ≤ 2 * a
  t7 : |t.t7| ≤ a
  t8 : |t.t8| ≤ 2 * a
  t9 : |t.t9| ≤ a

theorem Within.mono {t : Fe} (h : t.Within a) (hab : a ≤ b) : t.Within b where
  t0 := h.t0.trans (by omega)
  t1 := h.t1.trans hab
  t2 := h.t2.trans (by omega)
  t3 := h.t3.trans hab
  t4 := h.t4.trans (by omega)
  t5 := h.t5.trans hab
  t6 := h.t6.trans (by omega)
  t7 := h.t7.trans hab
  t8 := h.t8.trans (by omega)
  t9 := h.t9.trans hab

theorem residue_eq_of_value {s t : Fe} (h : s.value = t.value - p * c) : s.residue = t.residue := by
  rw [residue, h]
  push_cast
  rw [CharP.cast_eq_zero, zero_mul, sub_zero, residue]

end Fe

/-- `1.01 * 2 ^ 24` -/
def tight : Int := 16944988

/-- `1.1 * 2 ^ 25` -/
def wide : Int := 36909875

/-- `1.65 * 2 ^ 25` -/
def loose : Int := 55364812

-- ---------------------------------------------------------------------------
-- Sums and differences
-- ---------------------------------------------------------------------------

def Fe.zipWithM (op : Int → Int → Option Int) (f g : Fe) : Option Fe := do
  return ⟨← op f.t0 g.t0, ← op f.t1 g.t1, ← op f.t2 g.t2, ← op f.t3 g.t3, ← op f.t4 g.t4,
    ← op f.t5 g.t5, ← op f.t6 g.t6, ← op f.t7 g.t7, ← op f.t8 g.t8, ← op f.t9 g.t9⟩

def fe0 : Fe := ⟨0, 0, 0, 0, 0, 0, 0, 0, 0, 0⟩

def fe1 : Fe := { fe0 with t0 := 1 }

def feAdd (f g : Fe) : Option Fe := f.zipWithM (fun x y => int32 (x + y)) g

def feSub (f g : Fe) : Option Fe := f.zipWithM (fun x y => int32 (x - y)) g

theorem Fe.zipWithM_eq (op : Int → Int → Int) (hf : Within a f) (hg : Within b g)
    (hop : ∀ x y k : Int, |x| ≤ k * a → |y| ≤ k * b → |op x y| ≤ k * (a + b))
    (hab : a + b < 2 ^ 30) :
    ∃ h, f.zipWithM (fun x y => int32 (op x y)) g = some h ∧ h.Within (a + b) ∧
      h = ⟨op f.t0 g.t0, op f.t1 g.t1, op f.t2 g.t2, op f.t3 g.t3, op f.t4 g.t4, op f.t5 g.t5,
        op f.t6 g.t6, op f.t7 g.t7, op f.t8 g.t8, op f.t9 g.t9⟩ := by
  have heven {x y : Int} (hx : |x| ≤ 2 * a) (hy : |y| ≤ 2 * b) : |op x y| ≤ 2 * (a + b) :=
    hop x y 2 hx hy
  have hodd {x y : Int} (hx : |x| ≤ a) (hy : |y| ≤ b) : |op x y| ≤ a + b := by
    have h := hop x y 1 (by rwa [one_mul]) (by rwa [one_mul])
    rwa [one_mul] at h
  have hfits {x : Int} (hx : |x| ≤ 2 * (a + b)) : int32 x = some x := by
    have h := abs_le.mp hx
    exact int32_of_range (by omega) (by omega)
  have hfits' {x : Int} (hx : |x| ≤ a + b) : int32 x = some x := by
    have h := abs_le.mp hx
    exact int32_of_range (by omega) (by omega)
  refine ⟨_, ?_, ⟨heven hf.t0 hg.t0, hodd hf.t1 hg.t1, heven hf.t2 hg.t2, hodd hf.t3 hg.t3,
    heven hf.t4 hg.t4, hodd hf.t5 hg.t5, heven hf.t6 hg.t6, hodd hf.t7 hg.t7, heven hf.t8 hg.t8,
    hodd hf.t9 hg.t9⟩, rfl⟩
  simp only [zipWithM, hfits (heven hf.t0 hg.t0), hfits' (hodd hf.t1 hg.t1),
    hfits (heven hf.t2 hg.t2), hfits' (hodd hf.t3 hg.t3), hfits (heven hf.t4 hg.t4),
    hfits' (hodd hf.t5 hg.t5), hfits (heven hf.t6 hg.t6), hfits' (hodd hf.t7 hg.t7),
    hfits (heven hf.t8 hg.t8), hfits' (hodd hf.t9 hg.t9), Option.bind_eq_bind, Option.bind_some,
    Option.pure_def]

theorem feAdd_eq (hf : f.Within a) (hg : g.Within b) (hab : a + b < 2 ^ 30) :
    ∃ h, feAdd f g = some h ∧ h.Within (a + b) ∧ h.residue = f.residue + g.residue := by
  obtain ⟨h, hsome, hwithin, heq⟩ := Fe.zipWithM_eq (· + ·) hf hg
    (fun x y k hx hy => (abs_add_le x y).trans (by rw [Int.mul_add]; exact Int.add_le_add hx hy)) hab
  refine ⟨h, hsome, hwithin, ?_⟩
  rw [heq, Fe.residue, Fe.residue, Fe.residue, ← Int.cast_add]
  congr 1
  simp only [Fe.value]
  ring

theorem feSub_eq (hf : f.Within a) (hg : g.Within b) (hab : a + b < 2 ^ 30) :
    ∃ h, feSub f g = some h ∧ h.Within (a + b) ∧ h.residue = f.residue - g.residue := by
  obtain ⟨h, hsome, hwithin, heq⟩ := Fe.zipWithM_eq (· - ·) hf hg
    (fun x y k hx hy => (abs_sub x y).trans (by rw [Int.mul_add]; exact Int.add_le_add hx hy)) hab
  refine ⟨h, hsome, hwithin, ?_⟩
  rw [heq, Fe.residue, Fe.residue, Fe.residue, ← Int.cast_sub]
  congr 1
  simp only [Fe.value]
  ring

-- ---------------------------------------------------------------------------
-- Carries
-- ---------------------------------------------------------------------------

def kBottom25Bits : BitVec 64 := 0x1ffffff

def kBottom26Bits : BitVec 64 := 0x3ffffff

def kTop39Bits : BitVec 64 := 0xfffffffffe000000

def kTop38Bits : BitVec 64 := 0xfffffffffc000000

/-- `carry = h + (1 << (n - 1)); next += (carry >> n) * times; h -= carry & top` -/
def carry (n : Nat) (top : BitVec 64) (times h next : Int) : Option (Int × Int) := do
  let c ← int64 (h + 2 ^ (n - 1))
  let m ← int64 ((c >>> n) * times)
  let next ← int64 (next + m)
  let h ← int64 (h - land64 c top)
  return (h, next)

def carry25 (h next : Int) : Option (Int × Int) := carry 25 kTop39Bits 1 h next

def carry26 (h next : Int) : Option (Int × Int) := carry 26 kTop38Bits 1 h next

def carry9 (h9 h0 : Int) : Option (Int × Int) := carry 25 kTop39Bits 19 h9 h0

def toInt32 (x : Int) : Int := x.bmod (2 ^ 32)

/-- The carries of `fe_mul` and `fe_sq`. -/
def carryProduct (h : Fe) : Option Fe := do
  let (h0, h1) ← carry26 h.t0 h.t1
  let (h4, h5) ← carry26 h.t4 h.t5
  let (h1, h2) ← carry25 h1 h.t2
  let (h5, h6) ← carry25 h5 h.t6
  let (h2, h3) ← carry26 h2 h.t3
  let (h6, h7) ← carry26 h6 h.t7
  let (h3, h4) ← carry25 h3 h4
  let (h7, h8) ← carry25 h7 h.t8
  let (h4, h5) ← carry26 h4 h5
  let (h8, h9) ← carry26 h8 h.t9
  let (h9, h0) ← carry9 h9 h0
  let (h0, h1) ← carry26 h0 h1
  return ⟨toInt32 h0, toInt32 h1, toInt32 h2, toInt32 h3, toInt32 h4, toInt32 h5, toInt32 h6,
    toInt32 h7, toInt32 h8, toInt32 h9⟩

/-- The carries of `fe_frombytes` and `fe_mul121666`. -/
def carryLimbs (h : Fe) : Option Fe := do
  let (h9, h0) ← carry9 h.t9 h.t0
  let (h1, h2) ← carry25 h.t1 h.t2
  let (h3, h4) ← carry25 h.t3 h.t4
  let (h5, h6) ← carry25 h.t5 h.t6
  let (h7, h8) ← carry25 h.t7 h.t8
  let (h0, h1) ← carry26 h0 h1
  let (h2, h3) ← carry26 h2 h3
  let (h4, h5) ← carry26 h4 h5
  let (h6, h7) ← carry26 h6 h7
  let (h8, h9) ← carry26 h8 h9
  return ⟨toInt32 h0, toInt32 h1, toInt32 h2, toInt32 h3, toInt32 h4, toInt32 h5, toInt32 h6,
    toInt32 h7, toInt32 h8, toInt32 h9⟩

theorem carry_eq (hn : n = 25 ∧ top = kTop39Bits ∨ n = 26 ∧ top = kTop38Bits) (htimes : 0 ≤ times)
    (htimes' : times ≤ 19) (hh : |h| ≤ 2 ^ 62 + 2 ^ 61) (hnext : |next| ≤ 2 ^ 62 + 2 ^ 61) :
    ∃ c, carry n top times h next = some (h - 2 ^ n * c, next + c * times) ∧
      -2 ^ (n - 1) ≤ h - 2 ^ n * c ∧ h - 2 ^ n * c < 2 ^ (n - 1) := by
  have h₁ := abs_le.mp hh
  have h₂ := abs_le.mp hnext
  have hc : |(h + 2 ^ (n - 1)) / 2 ^ n| ≤ 2 ^ 38 := by
    rw [abs_le]
    obtain ⟨rfl, -⟩ | ⟨rfl, -⟩ := hn <;> omega
  have hm : |(h + 2 ^ (n - 1)) / 2 ^ n * times| ≤ 2 ^ 38 * 19 :=
    abs_mul_le hc (by rwa [abs_of_nonneg htimes])
  have h₃ := abs_le.mp hm
  have hland : land64 (h + 2 ^ (n - 1)) top = 2 ^ n * ((h + 2 ^ (n - 1)) / 2 ^ n) := by
    obtain ⟨rfl, rfl⟩ | ⟨rfl, rfl⟩ := hn
    · rw [show kTop39Bits = ~~~BitVec.ofNat 64 (2 ^ 25 - 1) by decide]
      exact land64_not (by decide) (by omega) (by omega)
    · rw [show kTop38Bits = ~~~BitVec.ofNat 64 (2 ^ 26 - 1) by decide]
      exact land64_not (by decide) (by omega) (by omega)
  refine ⟨(h + 2 ^ (n - 1)) / 2 ^ n, ?_, ?_⟩
  · rw [carry, int64_of_range (by obtain ⟨rfl, -⟩ | ⟨rfl, -⟩ := hn <;> omega)
      (by obtain ⟨rfl, -⟩ | ⟨rfl, -⟩ := hn <;> omega)]
    simp only [Option.bind_eq_bind, Option.bind_some, Int.shiftRight_eq_div_pow, hland,
      Nat.cast_pow, Nat.cast_ofNat]
    rw [int64_of_range (by omega) (by omega), Option.bind_some,
      int64_of_range (by omega) (by omega), Option.bind_some,
      int64_of_range (by obtain ⟨rfl, -⟩ | ⟨rfl, -⟩ := hn <;> omega)
        (by obtain ⟨rfl, -⟩ | ⟨rfl, -⟩ := hn <;> omega)]
    rfl
  · obtain ⟨rfl, -⟩ | ⟨rfl, -⟩ := hn <;> omega

theorem carry25_eq (h next : Int) (hh : |h| ≤ 2 ^ 62 + 2 ^ 61) (hnext : |next| ≤ 2 ^ 62 + 2 ^ 61) :
    ∃ c, carry25 h next = some (h - 2 ^ 25 * c, next + c) ∧
      -2 ^ 24 ≤ h - 2 ^ 25 * c ∧ h - 2 ^ 25 * c < 2 ^ 24 := by
  obtain ⟨c, hc, hrange⟩ := carry_eq (.inl ⟨rfl, rfl⟩) Int.one_nonneg (by decide) hh hnext
  exact ⟨c, by rw [carry25, hc, Int.mul_one], hrange⟩

theorem carry26_eq (h next : Int) (hh : |h| ≤ 2 ^ 62 + 2 ^ 61) (hnext : |next| ≤ 2 ^ 62 + 2 ^ 61) :
    ∃ c, carry26 h next = some (h - 2 ^ 26 * c, next + c) ∧
      -2 ^ 25 ≤ h - 2 ^ 26 * c ∧ h - 2 ^ 26 * c < 2 ^ 25 := by
  obtain ⟨c, hc, hrange⟩ := carry_eq (.inr ⟨rfl, rfl⟩) Int.one_nonneg (by decide) hh hnext
  exact ⟨c, by rw [carry26, hc, Int.mul_one], hrange⟩

theorem carry9_eq (h next : Int) (hh : |h| ≤ 2 ^ 62 + 2 ^ 61) (hnext : |next| ≤ 2 ^ 62 + 2 ^ 61) :
    ∃ c, carry9 h next = some (h - 2 ^ 25 * c, next + c * 19) ∧
      -2 ^ 24 ≤ h - 2 ^ 25 * c ∧ h - 2 ^ 25 * c < 2 ^ 24 :=
  carry_eq (.inl ⟨rfl, rfl⟩) (by decide) (by decide) hh hnext

theorem toInt32_of_range (h : -2 ^ 31 ≤ x) (h' : x < 2 ^ 31) : toInt32 x = x :=
  Int.bmod_eq_of_le (by omega) (by omega)

/-- The limbs leave room for the carries. -/
structure Fe.Below (b : Int) (t : Fe) : Prop where
  t0 : |t.t0| ≤ b
  t1 : |t.t1| ≤ b
  t2 : |t.t2| ≤ b
  t3 : |t.t3| ≤ b
  t4 : |t.t4| ≤ b
  t5 : |t.t5| ≤ b
  t6 : |t.t6| ≤ b
  t7 : |t.t7| ≤ b
  t8 : |t.t8| ≤ b
  t9 : |t.t9| ≤ b

theorem Fe.Below.range {h : Fe} (hh : h.Below b) :
    (-b ≤ h.t0 ∧ h.t0 ≤ b) ∧ (-b ≤ h.t1 ∧ h.t1 ≤ b) ∧ (-b ≤ h.t2 ∧ h.t2 ≤ b) ∧
      (-b ≤ h.t3 ∧ h.t3 ≤ b) ∧
      (-b ≤ h.t4 ∧ h.t4 ≤ b) ∧ (-b ≤ h.t5 ∧ h.t5 ≤ b) ∧ (-b ≤ h.t6 ∧ h.t6 ≤ b) ∧
      (-b ≤ h.t7 ∧ h.t7 ≤ b) ∧
      (-b ≤ h.t8 ∧ h.t8 ≤ b) ∧ (-b ≤ h.t9 ∧ h.t9 ≤ b) :=
  ⟨abs_le.mp hh.t0, abs_le.mp hh.t1, abs_le.mp hh.t2, abs_le.mp hh.t3, abs_le.mp hh.t4,
    abs_le.mp hh.t5, abs_le.mp hh.t6, abs_le.mp hh.t7, abs_le.mp hh.t8, abs_le.mp hh.t9⟩

theorem carryProduct_eq {h : Fe} (hh : h.Below (2 ^ 62)) :
    ∃ r, carryProduct h = some r ∧ r.Within tight ∧ r.residue = h.residue := by
  have hrange := hh.range
  obtain ⟨c0, e0, r0⟩ := carry26_eq h.t0 h.t1 (abs_le.mpr (by omega)) (abs_le.mpr (by omega))
  obtain ⟨c4, e4, r4⟩ := carry26_eq h.t4 h.t5 (abs_le.mpr (by omega)) (abs_le.mpr (by omega))
  obtain ⟨c1, e1, r1⟩ := carry25_eq (h.t1 + c0) h.t2 (abs_le.mpr (by omega)) (abs_le.mpr (by omega))
  obtain ⟨c5, e5, r5⟩ := carry25_eq (h.t5 + c4) h.t6 (abs_le.mpr (by omega)) (abs_le.mpr (by omega))
  obtain ⟨c2, e2, r2⟩ := carry26_eq (h.t2 + c1) h.t3 (abs_le.mpr (by omega)) (abs_le.mpr (by omega))
  obtain ⟨c6, e6, r6⟩ := carry26_eq (h.t6 + c5) h.t7 (abs_le.mpr (by omega)) (abs_le.mpr (by omega))
  obtain ⟨c3, e3, r3⟩ := carry25_eq (h.t3 + c2) (h.t4 - 2 ^ 26 * c4) (abs_le.mpr (by omega))
    (abs_le.mpr (by omega))
  obtain ⟨c7, e7, r7⟩ := carry25_eq (h.t7 + c6) h.t8 (abs_le.mpr (by omega)) (abs_le.mpr (by omega))
  obtain ⟨d4, f4, s4⟩ :=
    carry26_eq (h.t4 - 2 ^ 26 * c4 + c3) (h.t5 + c4 - 2 ^ 25 * c5) (abs_le.mpr (by omega))
    (abs_le.mpr (by omega))
  obtain ⟨c8, e8, r8⟩ := carry26_eq (h.t8 + c7) h.t9 (abs_le.mpr (by omega)) (abs_le.mpr (by omega))
  obtain ⟨c9, e9, r9⟩ := carry9_eq (h.t9 + c8) (h.t0 - 2 ^ 26 * c0) (abs_le.mpr (by omega))
    (abs_le.mpr (by omega))
  obtain ⟨d0, f0, s0⟩ := carry26_eq (h.t0 - 2 ^ 26 * c0 + c9 * 19) (h.t1 + c0 - 2 ^ 25 * c1)
    (abs_le.mpr (by omega)) (abs_le.mpr (by omega))
  -- the carries of the limbs that are carried twice are small the second time
  have hd4 : -2 ^ 13 ≤ d4 ∧ d4 ≤ 2 ^ 13 := by omega
  have hd0 : -2 ^ 16 ≤ d0 ∧ d0 ≤ 2 ^ 17 := by omega
  refine ⟨⟨h.t0 - 2 ^ 26 * c0 + c9 * 19 - 2 ^ 26 * d0, h.t1 + c0 - 2 ^ 25 * c1 + d0,
    h.t2 + c1 - 2 ^ 26 * c2, h.t3 + c2 - 2 ^ 25 * c3, h.t4 - 2 ^ 26 * c4 + c3 - 2 ^ 26 * d4,
    h.t5 + c4 - 2 ^ 25 * c5 + d4, h.t6 + c5 - 2 ^ 26 * c6, h.t7 + c6 - 2 ^ 25 * c7,
    h.t8 + c7 - 2 ^ 26 * c8, h.t9 + c8 - 2 ^ 25 * c9⟩, ?_, ?_, Fe.residue_eq_of_value (c := c9) ?_⟩
  · simp only [carryProduct, e0, e4, e1, e5, e2, e6, e3, e7, f4, e8, e9, f0, Option.bind_eq_bind,
      Option.bind_some, Option.pure_def]
    simp (disch := omega) only [toInt32_of_range]
  · constructor <;> simp only [tight] <;> exact abs_le.mpr (by omega)
  · simp only [Fe.value, p]
    push_cast
    ring

theorem carryLimbs_eq {h : Fe} (hh : h.Below 10000000000000) :
    ∃ r, carryLimbs h = some r ∧ r.Within tight ∧ r.residue = h.residue := by
  have hrange := hh.range
  obtain ⟨c9, e9, r9⟩ := carry9_eq h.t9 h.t0 (abs_le.mpr (by omega)) (abs_le.mpr (by omega))
  obtain ⟨c1, e1, r1⟩ := carry25_eq h.t1 h.t2 (abs_le.mpr (by omega)) (abs_le.mpr (by omega))
  obtain ⟨c3, e3, r3⟩ := carry25_eq h.t3 h.t4 (abs_le.mpr (by omega)) (abs_le.mpr (by omega))
  obtain ⟨c5, e5, r5⟩ := carry25_eq h.t5 h.t6 (abs_le.mpr (by omega)) (abs_le.mpr (by omega))
  obtain ⟨c7, e7, r7⟩ := carry25_eq h.t7 h.t8 (abs_le.mpr (by omega)) (abs_le.mpr (by omega))
  obtain ⟨c0, e0, r0⟩ := carry26_eq (h.t0 + c9 * 19) (h.t1 - 2 ^ 25 * c1) (abs_le.mpr (by omega))
    (abs_le.mpr (by omega))
  obtain ⟨c2, e2, r2⟩ := carry26_eq (h.t2 + c1) (h.t3 - 2 ^ 25 * c3) (abs_le.mpr (by omega))
    (abs_le.mpr (by omega))
  obtain ⟨c4, e4, r4⟩ := carry26_eq (h.t4 + c3) (h.t5 - 2 ^ 25 * c5) (abs_le.mpr (by omega))
    (abs_le.mpr (by omega))
  obtain ⟨c6, e6, r6⟩ := carry26_eq (h.t6 + c5) (h.t7 - 2 ^ 25 * c7) (abs_le.mpr (by omega))
    (abs_le.mpr (by omega))
  obtain ⟨c8, e8, r8⟩ := carry26_eq (h.t8 + c7) (h.t9 - 2 ^ 25 * c9) (abs_le.mpr (by omega))
    (abs_le.mpr (by omega))
  refine ⟨⟨h.t0 + c9 * 19 - 2 ^ 26 * c0, h.t1 - 2 ^ 25 * c1 + c0, h.t2 + c1 - 2 ^ 26 * c2,
    h.t3 - 2 ^ 25 * c3 + c2, h.t4 + c3 - 2 ^ 26 * c4, h.t5 - 2 ^ 25 * c5 + c4,
    h.t6 + c5 - 2 ^ 26 * c6, h.t7 - 2 ^ 25 * c7 + c6, h.t8 + c7 - 2 ^ 26 * c8,
    h.t9 - 2 ^ 25 * c9 + c8⟩, ?_, ?_, Fe.residue_eq_of_value (c := c9) ?_⟩
  · simp only [carryLimbs, e9, e1, e3, e5, e7, e0, e2, e4, e6, e8, Option.bind_eq_bind,
      Option.bind_some, Option.pure_def]
    simp (disch := omega) only [toInt32_of_range]
  · constructor <;> simp only [tight] <;> exact abs_le.mpr (by omega)
  · simp only [Fe.value, p]
    push_cast
    ring

end Speculos.Curve25519
