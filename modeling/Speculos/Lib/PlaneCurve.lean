import Mathlib.Algebra.Field.ZMod
import Mathlib.AlgebraicGeometry.EllipticCurve.Affine.Point
import Speculos.Lib.TwistedEdwards

/-!
# Three families of curves

Weierstrass, twisted Edwards and Montgomery curves in affine coordinates: the inverse of a point
differs in one coordinate, of which the square follows from the other one. Over an odd prime, the
parity of a number tells it from its negative.
-/

namespace Lib

inductive Family
  | weierstrass
  | twistedEdwards
  | montgomery
  deriving DecidableEq, Repr

/-- A curve with its two coefficients. -/
structure PlaneCurve (K : Type) where
  family : Family
  a : K
  b : K

namespace PlaneCurve

variable {K : Type} (E : PlaneCurve K)

/-- The point with the coordinate that the inverse shares, and the one that it negates. -/
def pointOf (shared negated : K) : K × K :=
  match E.family with
  | .twistedEdwards => (negated, shared)
  | _ => (shared, negated)

def shared (p : K × K) : K :=
  match E.family with
  | .twistedEdwards => p.2
  | _ => p.1

def negated (p : K × K) : K :=
  match E.family with
  | .twistedEdwards => p.1
  | _ => p.2

@[simp] theorem pointOf_shared_negated (p : K × K) : E.pointOf (E.shared p) (E.negated p) = p := by
  unfold pointOf shared negated
  cases E.family <;> rfl

@[simp] theorem shared_pointOf (s n : K) : E.shared (E.pointOf s n) = s := by
  unfold pointOf shared
  cases E.family <;> rfl

@[simp] theorem negated_pointOf (s n : K) : E.negated (E.pointOf s n) = n := by
  unfold pointOf negated
  cases E.family <;> rfl

section

variable [CommRing K]

def OnCurve (p : K × K) : Prop :=
  match E.family with
  | .weierstrass => p.2 ^ 2 = p.1 ^ 3 + E.a * p.1 + E.b
  | .twistedEdwards => E.a * p.1 ^ 2 + p.2 ^ 2 = 1 + E.b * p.1 ^ 2 * p.2 ^ 2
  | .montgomery => E.b * p.2 ^ 2 = p.1 ^ 3 + E.a * p.1 ^ 2 + p.1

instance [DecidableEq K] (p : K × K) : Decidable (E.OnCurve p) :=
  match E with
  | ⟨.weierstrass, _, _⟩ => inferInstanceAs (Decidable (_ = _))
  | ⟨.twistedEdwards, _, _⟩ => inferInstanceAs (Decidable (_ = _))
  | ⟨.montgomery, _, _⟩ => inferInstanceAs (Decidable (_ = _))

def inverse (p : K × K) : K × K :=
  match E.family with
  | .twistedEdwards => (-p.1, p.2)
  | _ => (p.1, -p.2)

theorem inverse_eq (p : K × K) : E.inverse p = E.pointOf (E.shared p) (-E.negated p) := by
  unfold inverse pointOf shared negated
  cases E.family <;> rfl

theorem eq_inverse_iff (p : K × K) : p = E.inverse p ↔ E.negated p = -E.negated p := by
  unfold inverse negated
  cases E.family <;> simp [Prod.ext_iff]

end

end PlaneCurve

-- ---------------------------------------------------------------------------
-- Parities
-- ---------------------------------------------------------------------------

section

variable {p : Nat}

theorem val_neg_mod_two (hodd : p % 2 = 1) {x : ZMod p} (hx : x ≠ 0) :
    (-x).val % 2 ≠ x.val % 2 := by
  have : NeZero p := ⟨by rintro rfl; simp at hodd⟩
  have hlt := ZMod.val_lt x
  rw [ZMod.neg_val, if_neg hx]
  omega

theorem neg_ne_self (hodd : p % 2 = 1) {x : ZMod p} (hx : x ≠ 0) : -x ≠ x := fun h =>
  val_neg_mod_two hodd hx (congrArg (ZMod.val · % 2) h)

end

end Lib
