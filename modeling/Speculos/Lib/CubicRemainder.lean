import Mathlib.Algebra.Ring.Hom.Defs
import Mathlib.Tactic.LinearCombination
import Mathlib.Tactic.Ring

/-!
# Cubics without a root

Remainders modulo `X ^ 3 + a * X + b`. Where the power by `n` is an involution of the ring, all
elements are roots of `X ^ (n * n) - X`, and no one is a root of the cubic if the remainder of this
is invertible.
-/

namespace Lib

/-- `c0 + c1 * X + c2 * X ^ 2` modulo `X ^ 3 + a * X + b`. -/
@[ext] structure Remainder {K : Type} (a b : K) where
  c0 : K
  c1 : K
  c2 : K
  deriving DecidableEq

namespace Remainder

variable {K : Type} [CommRing K] {a b x : K}

instance : One (Remainder a b) := ⟨⟨1, 0, 0⟩⟩

instance : Mul (Remainder a b) where
  mul s t :=
    let d3 := s.c1 * t.c2 + s.c2 * t.c1
    let d4 := s.c2 * t.c2
    ⟨s.c0 * t.c0 - b * d3, s.c0 * t.c1 + s.c1 * t.c0 - a * d3 - b * d4,
      s.c0 * t.c2 + s.c1 * t.c1 + s.c2 * t.c0 - a * d4⟩

theorem one_def : (1 : Remainder a b) = ⟨1, 0, 0⟩ := rfl

theorem mul_def (s t : Remainder a b) :
    s * t =
      ⟨s.c0 * t.c0 - b * (s.c1 * t.c2 + s.c2 * t.c1),
        s.c0 * t.c1 + s.c1 * t.c0 - a * (s.c1 * t.c2 + s.c2 * t.c1) - b * (s.c2 * t.c2),
        s.c0 * t.c2 + s.c1 * t.c1 + s.c2 * t.c0 - a * (s.c2 * t.c2)⟩ := rfl

instance : Monoid (Remainder a b) where
  mul_assoc r s t := by
    simp only [mul_def, Remainder.mk.injEq]
    refine ⟨?_, ?_, ?_⟩ <;> ring
  one_mul s := by
    simp only [mul_def, one_def]
    ext <;> simp
  mul_one s := by
    simp only [mul_def, one_def]
    ext <;> simp

/-- The remainder of `X`. -/
def gen : Remainder a b := ⟨0, 1, 0⟩

def eval (s : Remainder a b) (x : K) : K := s.c0 + s.c1 * x + s.c2 * x ^ 2

theorem eval_mul (hx : x ^ 3 + a * x + b = 0) (s t : Remainder a b) :
    (s * t).eval x = s.eval x * t.eval x := by
  simp only [mul_def, eval]
  linear_combination -(s.c1 * t.c2 + s.c2 * t.c1 + s.c2 * t.c2 * x) * hx

theorem eval_pow (hx : x ^ 3 + a * x + b = 0) (s : Remainder a b) (n : Nat) :
    (s ^ n).eval x = s.eval x ^ n := by
  induction n with
  | zero => simp [eval, one_def]
  | succ n ih => rw [pow_succ, pow_succ, eval_mul hx, ih]

/-- The remainder of `s` at `r`. -/
def comp (s r : Remainder a b) : Remainder a b :=
  ⟨s.c0 + s.c1 * r.c0 + s.c2 * (r * r).c0, s.c1 * r.c1 + s.c2 * (r * r).c1,
    s.c1 * r.c2 + s.c2 * (r * r).c2⟩

theorem eval_comp (hx : x ^ 3 + a * x + b = 0) (s r : Remainder a b) :
    (s.comp r).eval x = s.eval (r.eval x) := by
  have hsq := eval_mul hx r r
  simp only [eval, comp] at hsq ⊢
  linear_combination s.c2 * hsq

/-- The remainder with each coefficient taken by `σ`. -/
def map (σ : K →+* K) (r : Remainder a b) : Remainder a b := ⟨σ r.c0, σ r.c1, σ r.c2⟩

theorem eval_map (σ : K →+* K) (r : Remainder a b) : (r.map σ).eval (σ x) = σ (r.eval x) := by
  simp [eval, map]

theorem no_root [Nontrivial K] {σ : K →+* K} (hpow : ∀ y, y ^ n = σ y) (hσ : ∀ y, σ (σ y) = y)
    {r s : Remainder a b} (hgen : gen ^ n = r)
    (hinv : s * ⟨((r.map σ).comp r).c0, ((r.map σ).comp r).c1 - 1, ((r.map σ).comp r).c2⟩ = 1)
    (x : K) :
    x ^ 3 + a * x + b ≠ 0 := by
  intro hx
  have hpower : r.eval x = σ x := by
    have heval := eval_pow hx gen n
    rwa [hgen, show (gen : Remainder a b).eval x = x by simp [eval, gen], hpow] at heval
  have hfixed : ((r.map σ).comp r).eval x = x := by
    rw [eval_comp hx, hpower, eval_map, hpower, hσ]
  have hunit := eval_mul hx s
    ⟨((r.map σ).comp r).c0, ((r.map σ).comp r).c1 - 1, ((r.map σ).comp r).c2⟩
  generalize (r.map σ).comp r = t at *
  rw [hinv, show eval ⟨t.c0, t.c1 - 1, t.c2⟩ x =
    0 by simp only [eval] at hfixed ⊢; linear_combination hfixed, mul_zero] at hunit
  simp [eval, one_def] at hunit

end Remainder

end Lib
