import Mathlib.Algebra.QuadraticAlgebra.Basic
import Mathlib.NumberTheory.LegendreSymbol.Basic

/-!
# Residues with a root of -1

The field of `p ^ 2` elements for a prime `p` that leaves 3 modulo 4, and the squares in it.
-/

namespace Lib

abbrev Gauss (p : Nat) := QuadraticAlgebra (ZMod p) (-1) 0

namespace Gauss

variable {p : Nat} [Fact p.Prime]

theorem sq_ne_neg_one (h : p % 4 = 3) : ∀ r : ZMod p, r ^ 2 ≠ -1 + 0 * r := by
  intro r hr
  rw [zero_mul, add_zero] at hr
  exact ZMod.exists_sq_eq_neg_one_iff.mp ⟨r, by rw [← hr, sq]⟩ h

instance : Fintype (Gauss p) := Fintype.ofEquiv _ (QuadraticAlgebra.equivProd (-1) 0).symm

theorem card : Fintype.card (Gauss p) = p ^ 2 := by
  rw [Fintype.card_congr (QuadraticAlgebra.equivProd (-1) 0), Fintype.card_prod, ZMod.card, sq]

theorem ringChar_eq : ringChar (Gauss p) = p := by
  refine ringChar.eq_iff.mpr ⟨fun n => ?_⟩
  simp [QuadraticAlgebra.ext_iff, ZMod.natCast_eq_zero_iff]

theorem pow_prime (h : p % 4 = 3) (a : Gauss p) : a ^ p = star a := by
  have : CharP (Gauss p) p := ringChar.eq_iff.mp ringChar_eq
  have hi : (⟨0, 1⟩ : Gauss p) ^ p = ⟨0, -1⟩ := by
    have hfour : (⟨0, 1⟩ : Gauss p) ^ 4 = 1 := by
      simp [pow_succ, QuadraticAlgebra.ext_iff, QuadraticAlgebra.re_one, QuadraticAlgebra.im_one]
    calc (⟨0, 1⟩ : Gauss p) ^ p = ⟨0, 1⟩ ^ (4 * (p / 4) + p % 4) := by rw [Nat.div_add_mod]
      _ = ⟨0, 1⟩ ^ 3 := by rw [h, pow_add, pow_mul, hfour, one_pow, one_mul]
      _ = ⟨0, -1⟩ := by simp [pow_succ]
  have hsplit : a = algebraMap (ZMod p) (Gauss p) a.re + algebraMap (ZMod p) (Gauss p) a.im *
      ⟨0, 1⟩ := by
    ext <;> simp
  rw [hsplit, add_pow_char, mul_pow, ← map_pow, ← map_pow, ZMod.pow_card, ZMod.pow_card, hi]
  ext <;> simp

variable [Fact (∀ r : ZMod p, r ^ 2 ≠ -1 + 0 * r)]

theorem pow_card_sub_one {a : Gauss p} (ha : a ≠ 0) : a ^ (p ^ 2 - 1) = 1 := by
  rw [← card, FiniteField.pow_card_sub_one_eq_one a ha]

theorem isSquare_iff (hp : p ≠ 2) {a : Gauss p} (ha : a ≠ 0) :
    IsSquare a ↔ a ^ (p ^ 2 / 2) = 1 := by
  rw [FiniteField.isSquare_iff (by rwa [ringChar_eq]) ha, card]

end Gauss

end Lib
