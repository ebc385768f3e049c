import Speculos.Curve25519.FieldElement

/-!
# Products of field elements

`fe_mul`, `fe_sq` and `fe_mul121666`. Every column of a product is a sum of at most ten products
of two 32-bit factors, so that no sum overflows for limbs within the bounds of the comments.
-/

namespace Speculos.Curve25519

open Lib

def columns (c0 c1 c2 c3 c4 c5 c6 c7 c8 c9 : List (Int × Int)) : Option Fe := do
  return ⟨← dot 0 c0, ← dot 0 c1, ← dot 0 c2, ← dot 0 c3, ← dot 0 c4, ← dot 0 c5, ← dot 0 c6,
    ← dot 0 c7, ← dot 0 c8, ← dot 0 c9⟩

def feMul (f g : Fe) : Option Fe := do
  let g1_19 ← int32 (19 * g.t1)
  let g2_19 ← int32 (19 * g.t2)
  let g3_19 ← int32 (19 * g.t3)
  let g4_19 ← int32 (19 * g.t4)
  let g5_19 ← int32 (19 * g.t5)
  let g6_19 ← int32 (19 * g.t6)
  let g7_19 ← int32 (19 * g.t7)
  let g8_19 ← int32 (19 * g.t8)
  let g9_19 ← int32 (19 * g.t9)
  let f1_2 ← int32 (2 * f.t1)
  let f3_2 ← int32 (2 * f.t3)
  let f5_2 ← int32 (2 * f.t5)
  let f7_2 ← int32 (2 * f.t7)
  let f9_2 ← int32 (2 * f.t9)
  let h ← columns
    [(f.t0, g.t0), (f1_2, g9_19), (f.t2, g8_19), (f3_2, g7_19), (f.t4, g6_19), (f5_2, g5_19),
      (f.t6, g4_19), (f7_2, g3_19), (f.t8, g2_19), (f9_2, g1_19)]
    [(f.t0, g.t1), (f.t1, g.t0), (f.t2, g9_19), (f.t3, g8_19), (f.t4, g7_19), (f.t5, g6_19),
      (f.t6, g5_19), (f.t7, g4_19), (f.t8, g3_19), (f.t9, g2_19)]
    [(f.t0, g.t2), (f1_2, g.t1), (f.t2, g.t0), (f3_2, g9_19), (f.t4, g8_19), (f5_2, g7_19),
      (f.t6, g6_19), (f7_2, g5_19), (f.t8, g4_19), (f9_2, g3_19)]
    [(f.t0, g.t3), (f.t1, g.t2), (f.t2, g.t1), (f.t3, g.t0), (f.t4, g9_19), (f.t5, g8_19),
      (f.t6, g7_19), (f.t7, g6_19), (f.t8, g5_19), (f.t9, g4_19)]
    [(f.t0, g.t4), (f1_2, g.t3), (f.t2, g.t2), (f3_2, g.t1), (f.t4, g.t0), (f5_2, g9_19),
      (f.t6, g8_19), (f7_2, g7_19), (f.t8, g6_19), (f9_2, g5_19)]
    [(f.t0, g.t5), (f.t1, g.t4), (f.t2, g.t3), (f.t3, g.t2), (f.t4, g.t1), (f.t5, g.t0),
      (f.t6, g9_19), (f.t7, g8_19), (f.t8, g7_19), (f.t9, g6_19)]
    [(f.t0, g.t6), (f1_2, g.t5), (f.t2, g.t4), (f3_2, g.t3), (f.t4, g.t2), (f5_2, g.t1),
      (f.t6, g.t0), (f7_2, g9_19), (f.t8, g8_19), (f9_2, g7_19)]
    [(f.t0, g.t7), (f.t1, g.t6), (f.t2, g.t5), (f.t3, g.t4), (f.t4, g.t3), (f.t5, g.t2),
      (f.t6, g.t1), (f.t7, g.t0), (f.t8, g9_19), (f.t9, g8_19)]
    [(f.t0, g.t8), (f1_2, g.t7), (f.t2, g.t6), (f3_2, g.t5), (f.t4, g.t4), (f5_2, g.t3),
      (f.t6, g.t2), (f7_2, g.t1), (f.t8, g.t0), (f9_2, g9_19)]
    [(f.t0, g.t9), (f.t1, g.t8), (f.t2, g.t7), (f.t3, g.t6), (f.t4, g.t5), (f.t5, g.t4),
      (f.t6, g.t3), (f.t7, g.t2), (f.t8, g.t1), (f.t9, g.t0)]
  carryProduct h

def feSq (f : Fe) : Option Fe := do
  let f0_2 ← int32 (2 * f.t0)
  let f1_2 ← int32 (2 * f.t1)
  let f2_2 ← int32 (2 * f.t2)
  let f3_2 ← int32 (2 * f.t3)
  let f4_2 ← int32 (2 * f.t4)
  let f5_2 ← int32 (2 * f.t5)
  let f6_2 ← int32 (2 * f.t6)
  let f7_2 ← int32 (2 * f.t7)
  let f5_38 ← int32 (38 * f.t5)
  let f6_19 ← int32 (19 * f.t6)
  let f7_38 ← int32 (38 * f.t7)
  let f8_19 ← int32 (19 * f.t8)
  let f9_38 ← int32 (38 * f.t9)
  let h ← columns
    [(f.t0, f.t0), (f1_2, f9_38), (f2_2, f8_19), (f3_2, f7_38), (f4_2, f6_19), (f.t5, f5_38)]
    [(f0_2, f.t1), (f.t2, f9_38), (f3_2, f8_19), (f.t4, f7_38), (f5_2, f6_19)]
    [(f0_2, f.t2), (f1_2, f.t1), (f3_2, f9_38), (f4_2, f8_19), (f5_2, f7_38), (f.t6, f6_19)]
    [(f0_2, f.t3), (f1_2, f.t2), (f.t4, f9_38), (f5_2, f8_19), (f.t6, f7_38)]
    [(f0_2, f.t4), (f1_2, f3_2), (f.t2, f.t2), (f5_2, f9_38), (f6_2, f8_19), (f.t7, f7_38)]
    [(f0_2, f.t5), (f1_2, f.t4), (f2_2, f.t3), (f.t6, f9_38), (f7_2, f8_19)]
    [(f0_2, f.t6), (f1_2, f5_2), (f2_2, f.t4), (f3_2, f.t3), (f7_2, f9_38), (f.t8, f8_19)]
    [(f0_2, f.t7), (f1_2, f.t6), (f2_2, f.t5), (f3_2, f.t4), (f.t8, f9_38)]
    [(f0_2, f.t8), (f1_2, f7_2), (f2_2, f.t6), (f3_2, f5_2), (f.t4, f.t4), (f.t9, f9_38)]
    [(f0_2, f.t9), (f1_2, f.t8), (f2_2, f.t7), (f3_2, f.t6), (f4_2, f.t5)]
  carryProduct h

def feMul121666 (f : Fe) : Option Fe := do
  carryLimbs ⟨← int64 (f.t0 * 121666), ← int64 (f.t1 * 121666), ← int64 (f.t2 * 121666),
    ← int64 (f.t3 * 121666), ← int64 (f.t4 * 121666), ← int64 (f.t5 * 121666),
    ← int64 (f.t6 * 121666), ← int64 (f.t7 * 121666), ← int64 (f.t8 * 121666),
    ← int64 (f.t9 * 121666)⟩

-- ---------------------------------------------------------------------------
-- Columns
-- ---------------------------------------------------------------------------

theorem dot_column (h : FactorsWithin A B l) (hlen : l.length ≤ n) (hpos : 0 ≤ A * B)
    (hroom : n * (A * B) ≤ 2 ^ 62) : dot 0 l = some (products l) ∧ |products l| ≤ 2 ^ 62 := by
  have hle : (l.length : Int) * (A * B) ≤ n * (A * B) :=
    Int.mul_le_mul_of_nonneg_right (Int.ofNat_le.mpr hlen) hpos
  have hsum := dot_eq h hpos 0 (by rw [abs_zero]; omega)
  rw [Int.zero_add] at hsum
  exact ⟨hsum, (abs_products_le h).trans (by omega)⟩

theorem columns_eq {A B : Int} {n : Nat} (hpos : 0 ≤ A * B) (hroom : n * (A * B) ≤ 2 ^ 62)
    (h : ∀ c ∈ [c0, c1, c2, c3, c4, c5, c6, c7, c8, c9], FactorsWithin A B c ∧ c.length ≤ n) :
    columns c0 c1 c2 c3 c4 c5 c6 c7 c8 c9 =
        some ⟨products c0, products c1, products c2, products c3, products c4, products c5,
          products c6, products c7, products c8, products c9⟩ ∧
      Fe.Below (2 ^ 62) ⟨products c0, products c1, products c2, products c3, products c4,
        products c5, products c6, products c7, products c8, products c9⟩ := by
  have hcolumn (c) (hc : c ∈ [c0, c1, c2, c3, c4, c5, c6, c7, c8, c9]) :=
    dot_column (h c hc).1 (h c hc).2 hpos hroom
  simp only [List.forall_mem_cons, List.not_mem_nil, false_implies, implies_true,
    and_true] at hcolumn
  obtain ⟨h0, h1, h2, h3, h4, h5, h6, h7, h8, h9⟩ := hcolumn
  refine ⟨?_, h0.2, h1.2, h2.2, h3.2, h4.2, h5.2, h6.2, h7.2, h8.2, h9.2⟩
  simp only [columns, h0.1, h1.1, h2.1, h3.1, h4.1, h5.1, h6.1, h7.1, h8.1, h9.1,
    Option.bind_eq_bind, Option.bind_some, Option.pure_def]

theorem int32_mul (k : Int) (hk : 0 ≤ k) (hx : |x| ≤ b) (hbc : k * b ≤ c) (hc : c < 2 ^ 31) :
    int32 (k * x) = some (k * x) ∧ |k * x| ≤ c := by
  have hle : |k * x| ≤ k * b := abs_mul_le (Int.le_of_eq (abs_of_nonneg hk)) hx
  have hrange := abs_le.mp hle
  exact ⟨int32_of_range (by omega) (by omega), hle.trans hbc⟩

theorem Fe.Within.below {t : Fe} (h : t.Within a) (ha : 0 ≤ a) : t.Below (2 * a) where
  t0 := h.t0
  t1 := h.t1.trans (by omega)
  t2 := h.t2
  t3 := h.t3.trans (by omega)
  t4 := h.t4
  t5 := h.t5.trans (by omega)
  t6 := h.t6
  t7 := h.t7.trans (by omega)
  t8 := h.t8
  t9 := h.t9.trans (by omega)

theorem Fe.Below.mono {t : Fe} (h : t.Below a) (hab : a ≤ b) : t.Below b where
  t0 := h.t0.trans hab
  t1 := h.t1.trans hab
  t2 := h.t2.trans hab
  t3 := h.t3.trans hab
  t4 := h.t4.trans hab
  t5 := h.t5.trans hab
  t6 := h.t6.trans hab
  t7 := h.t7.trans hab
  t8 := h.t8.trans hab
  t9 := h.t9.trans hab

/-- The part of a product from the weight `2 ^ 255` on. -/
def overflow (f g : Fe) : Int :=
  f.t2 * g.t8 + f.t4 * g.t6 + f.t6 * g.t4 + f.t8 * g.t2 +
    2 ^ 1 * (f.t1 * g.t9 + f.t3 * g.t7 + f.t5 * g.t5 + f.t7 * g.t3 + f.t9 * g.t1) +
    2 ^ 26 * (f.t2 * g.t9 + f.t3 * g.t8 + f.t4 * g.t7 + f.t5 * g.t6 + f.t6 * g.t5 +
      f.t7 * g.t4 + f.t8 * g.t3 + f.t9 * g.t2) +
    2 ^ 51 * (f.t4 * g.t8 + f.t6 * g.t6 + f.t8 * g.t4) +
    2 ^ 52 * (f.t3 * g.t9 + f.t5 * g.t7 + f.t7 * g.t5 + f.t9 * g.t3) +
    2 ^ 77 * (f.t4 * g.t9 + f.t5 * g.t8 + f.t6 * g.t7 + f.t7 * g.t6 + f.t8 * g.t5 +
      f.t9 * g.t4) +
    2 ^ 102 * (f.t6 * g.t8 + f.t8 * g.t6) +
    2 ^ 103 * (f.t5 * g.t9 + f.t7 * g.t7 + f.t9 * g.t5) +
    2 ^ 128 * (f.t6 * g.t9 + f.t7 * g.t8 + f.t8 * g.t7 + f.t9 * g.t6) +
    2 ^ 153 * f.t8 * g.t8 +
    2 ^ 154 * (f.t7 * g.t9 + f.t9 * g.t7) +
    2 ^ 179 * (f.t8 * g.t9 + f.t9 * g.t8) +
    2 ^ 205 * f.t9 * g.t9

-- ---------------------------------------------------------------------------
-- Products
-- ---------------------------------------------------------------------------

/-- What the carries make of the columns. -/
theorem carry_columns_eq {A B q : Int} {n : Nat} {f g : Fe} (hpos : 0 ≤ A * B)
    (hroom : n * (A * B) ≤ 2 ^ 62)
    (h : ∀ c ∈ [c0, c1, c2, c3, c4, c5, c6, c7, c8, c9], FactorsWithin A B c ∧ c.length ≤ n)
    (hvalue : Fe.value ⟨products c0, products c1, products c2, products c3, products c4,
      products c5, products c6, products c7, products c8, products c9⟩ =
        f.value * g.value - p * q) :
    ∃ r, (columns c0 c1 c2 c3 c4 c5 c6 c7 c8 c9).bind carryProduct = some r ∧ r.Within tight ∧
      r.residue = f.residue * g.residue := by
  obtain ⟨hcolumns, hbelow⟩ := columns_eq hpos hroom h
  obtain ⟨r, hcarry, hwithin, hresidue⟩ := carryProduct_eq hbelow
  refine ⟨r, by rw [hcolumns, Option.bind_some, hcarry], hwithin, ?_⟩
  rw [hresidue, Fe.residue, hvalue]
  push_cast
  rw [CharP.cast_eq_zero, zero_mul, sub_zero, Fe.residue, Fe.residue]

theorem feMul_eq (hf : f.Within loose) (hg : g.Within loose) :
    ∃ h, feMul f g = some h ∧ h.Within tight ∧ h.residue = f.residue * g.residue := by
  have s1 := int32_mul 19 (by decide) hg.t1 (c := 38 * loose) (by decide) (by decide)
  have s2 := int32_mul 19 (by decide) hg.t2 (c := 38 * loose) (by decide) (by decide)
  have s3 := int32_mul 19 (by decide) hg.t3 (c := 38 * loose) (by decide) (by decide)
  have s4 := int32_mul 19 (by decide) hg.t4 (c := 38 * loose) (by decide) (by decide)
  have s5 := int32_mul 19 (by decide) hg.t5 (c := 38 * loose) (by decide) (by decide)
  have s6 := int32_mul 19 (by decide) hg.t6 (c := 38 * loose) (by decide) (by decide)
  have s7 := int32_mul 19 (by decide) hg.t7 (c := 38 * loose) (by decide) (by decide)
  have s8 := int32_mul 19 (by decide) hg.t8 (c := 38 * loose) (by decide) (by decide)
  have s9 := int32_mul 19 (by decide) hg.t9 (c := 38 * loose) (by decide) (by decide)
  have d1 := int32_mul 2 (by decide) hf.t1 (c := 2 * loose) (by decide) (by decide)
  have d3 := int32_mul 2 (by decide) hf.t3 (c := 2 * loose) (by decide) (by decide)
  have d5 := int32_mul 2 (by decide) hf.t5 (c := 2 * loose) (by decide) (by decide)
  have d7 := int32_mul 2 (by decide) hf.t7 (c := 2 * loose) (by decide) (by decide)
  have d9 := int32_mul 2 (by decide) hf.t9 (c := 2 * loose) (by decide) (by decide)
  have hf' := hf.below (by decide)
  have hg' := (hg.below (by decide)).mono (show 2 * loose ≤ 38 * loose by decide)
  rw [feMul]
  simp only [s1.1, s2.1, s3.1, s4.1, s5.1, s6.1, s7.1, s8.1, s9.1, d1.1, d3.1, d5.1, d7.1, d9.1,
    Option.bind_eq_bind, Option.bind_some]
  refine carry_columns_eq (A := 2 * loose) (B := 38 * loose) (n := 10) (q := overflow f g)
    (by decide) (by
    decide) ?_ ?_
  · simp only [FactorsWithin, List.forall_mem_cons, List.not_mem_nil, false_implies, implies_true,
      and_true, List.length_cons, List.length_nil, s1.2, s2.2, s3.2, s4.2, s5.2, s6.2, s7.2, s8.2,
      s9.2, d1.2, d3.2, d5.2, d7.2, d9.2, hf'.t0, hf'.t1, hf'.t2, hf'.t3, hf'.t4, hf'.t5, hf'.t6,
        hf'.t7, hf'.t8, hf'.t9, hg'.t0, hg'.t1, hg'.t2, hg'.t3, hg'.t4, hg'.t5, hg'.t6, hg'.t7,
        hg'.t8, hg'.t9, true_and]
    decide
  · simp only [products, List.map_cons, List.map_nil, List.sum_cons, List.sum_nil, Fe.value,
      overflow, p]
    push_cast
    ring

theorem feSq_eq (hf : f.Within loose) :
    ∃ h, feSq f = some h ∧ h.Within tight ∧ h.residue = f.residue ^ 2 := by
  have d0 := int32_mul 2 (by decide) hf.t0 (c := 4 * loose) (by decide) (by decide)
  have d1 := int32_mul 2 (by decide) hf.t1 (c := 4 * loose) (by decide) (by decide)
  have d2 := int32_mul 2 (by decide) hf.t2 (c := 4 * loose) (by decide) (by decide)
  have d3 := int32_mul 2 (by decide) hf.t3 (c := 4 * loose) (by decide) (by decide)
  have d4 := int32_mul 2 (by decide) hf.t4 (c := 4 * loose) (by decide) (by decide)
  have d5 := int32_mul 2 (by decide) hf.t5 (c := 4 * loose) (by decide) (by decide)
  have d6 := int32_mul 2 (by decide) hf.t6 (c := 4 * loose) (by decide) (by decide)
  have d7 := int32_mul 2 (by decide) hf.t7 (c := 4 * loose) (by decide) (by decide)
  have s5 := int32_mul 38 (by decide) hf.t5 (c := 38 * loose) (by decide) (by decide)
  have s6 := int32_mul 19 (by decide) hf.t6 (c := 38 * loose) (by decide) (by decide)
  have s7 := int32_mul 38 (by decide) hf.t7 (c := 38 * loose) (by decide) (by decide)
  have s8 := int32_mul 19 (by decide) hf.t8 (c := 38 * loose) (by decide) (by decide)
  have s9 := int32_mul 38 (by decide) hf.t9 (c := 38 * loose) (by decide) (by decide)
  have hf' := (hf.below (by decide)).mono (show 2 * loose ≤ 4 * loose by decide)
  have hf'' := hf'.mono (show 4 * loose ≤ 38 * loose by decide)
  -- the doubled limbs that stand on both sides
  have e3 := d3.2.trans (show 4 * loose ≤ 38 * loose by decide)
  have e5 := d5.2.trans (show 4 * loose ≤ 38 * loose by decide)
  have e7 := d7.2.trans (show 4 * loose ≤ 38 * loose by decide)
  rw [feSq, sq]
  simp only [d0.1, d1.1, d2.1, d3.1, d4.1, d5.1, d6.1, d7.1, s5.1, s6.1, s7.1, s8.1, s9.1,
    Option.bind_eq_bind, Option.bind_some]
  refine carry_columns_eq (A := 4 * loose) (B := 38 * loose) (n := 6) (q := overflow f f)
    (by decide) (by
    decide) ?_ ?_
  · simp only [FactorsWithin, List.forall_mem_cons, List.not_mem_nil, false_implies, implies_true,
      and_true, List.length_cons, List.length_nil, d0.2, d1.2, d2.2, d3.2, d4.2, d5.2, d6.2, d7.2,
      s5.2, s6.2, s7.2, s8.2, s9.2, e3, e5, e7, hf'.t0, hf'.t2, hf'.t4, hf'.t5, hf'.t6, hf'.t7,
        hf'.t8, hf'.t9, hf''.t0, hf''.t1, hf''.t2, hf''.t3, hf''.t4, hf''.t5, hf''.t6, hf''.t7,
        hf''.t8, hf''.t9, true_and]
    decide
  · simp only [products, List.map_cons, List.map_nil, List.sum_cons, List.sum_nil, Fe.value,
      overflow, p]
    push_cast
    ring

theorem feMul121666_eq (hf : f.Within wide) :
    ∃ h, feMul121666 f = some h ∧ h.Within tight ∧ h.residue = 121666 * f.residue := by
  have hmul (x : Int) (hx : |x| ≤ 2 * wide) :
      int64 (x * 121666) = some (x * 121666) ∧ |x * 121666| ≤ 10000000000000 := by
    have hle : |x * 121666| ≤ 2 * wide * 121666 := abs_mul_le hx (by decide)
    have hrange := abs_le.mp (hle.trans (show 2 * wide * 121666 ≤ 10000000000000 by decide))
    exact ⟨int64_of_range (by omega) (by omega), abs_le.mpr hrange⟩
  have hf' := hf.below (by decide)
  have m0 := hmul _ hf'.t0
  have m1 := hmul _ hf'.t1
  have m2 := hmul _ hf'.t2
  have m3 := hmul _ hf'.t3
  have m4 := hmul _ hf'.t4
  have m5 := hmul _ hf'.t5
  have m6 := hmul _ hf'.t6
  have m7 := hmul _ hf'.t7
  have m8 := hmul _ hf'.t8
  have m9 := hmul _ hf'.t9
  obtain ⟨h, hcarry, hwithin, hresidue⟩ :=
    carryLimbs_eq (h := ⟨f.t0 * 121666, f.t1 * 121666, f.t2 * 121666, f.t3 * 121666, f.t4 * 121666,
      f.t5 * 121666, f.t6 * 121666, f.t7 * 121666, f.t8 * 121666, f.t9 * 121666⟩) ⟨m0.2, m1.2, m2.2,
        m3.2, m4.2, m5.2, m6.2, m7.2, m8.2, m9.2⟩
  refine ⟨h, ?_, hwithin, ?_⟩
  · simp only [feMul121666, m0.1, m1.1, m2.1, m3.1, m4.1, m5.1, m6.1, m7.1, m8.1, m9.1,
      Option.bind_eq_bind, Option.bind_some, hcarry]
  · rw [hresidue, Fe.residue, Fe.residue]
    simp only [Fe.value]
    push_cast
    ring

end Speculos.Curve25519
