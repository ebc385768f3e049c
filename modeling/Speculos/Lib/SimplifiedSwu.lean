import Mathlib.Algebra.Field.Basic
import Mathlib.Algebra.Group.Even
import Mathlib.Tactic.FieldSimp
import Mathlib.Tactic.LinearCombination
import Mathlib.Tactic.Ring

/-!
# The simplified map of Shallue, van de Woestijne and Ulas

From a field to the curve `y ^ 2 = x ^ 3 + a * x + b` with `a` and `b` nonzero, by the parameter
`z`. A field element is taken to one of two candidates for `x`.
-/

namespace Lib.Swu

variable {K : Type} [Field K]

/-- `y ^ 2` of the point with `x`. -/
def g (a b x : K) : K := x ^ 3 + a * x + b

def divisor (z u : K) : K := z ^ 2 * u ^ 4 + z * u ^ 2

open Classical in
noncomputable def x1 (a b z u : K) : K :=
  if divisor z u = 0 then b / (z * a) else -b / a * (1 + (divisor z u)⁻¹)

noncomputable def x2 (a b z u : K) : K := z * u ^ 2 * x1 a b z u

open Classical in
noncomputable def mapX (a b z u : K) : K :=
  if IsSquare (g a b (x1 a b z u)) then x1 a b z u else x2 a b z u

open Classical in
noncomputable def den (a z u : K) : K := a * if divisor z u = 0 then z else -divisor z u

variable {a b z u : K}

theorem den_ne_zero (ha : a ≠ 0) (hz : z ≠ 0) : den a z u ≠ 0 := by
  rw [den]
  split
  · exact mul_ne_zero ha hz
  · rename_i h
    exact mul_ne_zero ha (neg_ne_zero.mpr h)

theorem x1_eq (ha : a ≠ 0) : x1 a b z u = b * (divisor z u + 1) / den a z u := by
  rw [x1, den]
  split
  · rename_i h
    rw [h, zero_add, mul_one, mul_comm z]
  · rename_i h
    field_simp

theorem g_x2 (ha : a ≠ 0) (hne : divisor z u ≠ 0) :
    g a b (x2 a b z u) = (z * u ^ 2) ^ 3 * g a b (x1 a b z u) := by
  have hx1 : a * (x1 a b z u * divisor z u) = -b * (divisor z u + 1) := by
    rw [x1, if_neg hne]
    field_simp
  have hdivisor : divisor z u = (z * u ^ 2) ^ 2 + z * u ^ 2 := by
    rw [divisor]
    ring
  rw [x2, g, g]
  generalize x1 a b z u = x at *
  rw [hdivisor] at hx1
  generalize z * u ^ 2 = w at *
  linear_combination (1 - w) * hx1

end Lib.Swu
