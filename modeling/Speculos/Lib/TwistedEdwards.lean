import Mathlib.Algebra.Field.Basic
import Mathlib.Algebra.Group.Even
import Mathlib.Tactic.FieldSimp
import Mathlib.Tactic.LinearCombination
import Mathlib.Tactic.Ring
import Mathlib.GroupTheory.OrderOfElement

/-!
# Twisted Edwards curves

The curve `a x² + y² = 1 + d x² y²` over a field, with its addition law. Where `a` is a
square and `d` is none, the denominators of the law are not zero on the curve, so that one
formula adds all points. The sum is on the curve, and a summand can be cancelled. One
coordinate tells the square of the other.
-/

namespace Lib

structure TwistedEdwards (K : Type) where
  a : K
  d : K

namespace TwistedEdwards

variable {K : Type} [Field K] (E : TwistedEdwards K)

def OnCurve (p : K × K) : Prop := E.a * p.1 ^ 2 + p.2 ^ 2 = 1 + E.d * p.1 ^ 2 * p.2 ^ 2

/-- `d x₁ x₂ y₁ y₂` -/
def cross (p q : K × K) : K := E.d * p.1 * q.1 * p.2 * q.2

def add (p q : K × K) : K × K :=
  ((p.1 * q.2 + p.2 * q.1) / (1 + E.cross p q), (p.2 * q.2 - E.a * p.1 * q.1) / (1 - E.cross p q))

def neutral : K × K := (0, 1)

/-- The condition under which one formula adds all points. -/
structure Complete : Prop where
  two_ne : (2 : K) ≠ 0
  a_ne : E.a ≠ 0
  a_square : IsSquare E.a
  d_nonsquare : ¬ IsSquare E.d

variable {E} {p q r : K × K}

theorem onCurve_neutral : E.OnCurve neutral := by simp [OnCurve, neutral]

theorem cross_comm (p q : K × K) : E.cross p q = E.cross q p := by
  unfold cross
  ring

theorem add_comm (p q : K × K) : E.add p q = E.add q p := by
  unfold add
  rw [cross_comm p q]
  congr 2 <;> ring

@[simp] theorem add_neutral (p : K × K) : E.add p neutral = p := by
  simp [add, cross, neutral]

@[simp] theorem neutral_add (p : K × K) : E.add neutral p = p := by
  rw [add_comm, add_neutral]

-- ---------------------------------------------------------------------------
-- Denominators
-- ---------------------------------------------------------------------------

/-- On the curve, the square of `d x₁ x₂ y₁ y₂` being one makes `d` a square. -/
theorem cross_sq_ne_one (hE : E.Complete) (hp : E.OnCurve p) (hq : E.OnCurve q) :
    E.cross p q ^ 2 ≠ 1 := by
  intro hone
  obtain ⟨i, hi⟩ := hE.a_square
  unfold OnCurve at hp hq
  unfold cross at hone
  rw [hi] at hp hq
  have hnonzero : E.d * p.1 * q.1 * p.2 * q.2 ≠ 0 := by
    intro hzero
    rw [hzero] at hone
    simp at hone
  have hx₁ : p.1 ≠ 0 := by rintro h; simp [h] at hnonzero
  have hx₂ : q.1 ≠ 0 := by rintro h; simp [h] at hnonzero
  have hy₁ : p.2 ≠ 0 := by rintro h; simp [h] at hnonzero
  -- both signs give `d` as the quotient of two squares
  have hsum : (i * p.1 + E.d * p.1 * q.1 * p.2 * q.2 * p.2) ^ 2 =
      E.d * (p.1 * p.2 * (i * q.1 + q.2)) ^ 2 := by
    linear_combination hp - E.d * p.1 ^ 2 * p.2 ^ 2 * hq + (p.2 ^ 2 - 1) * hone
  have hdiff : (i * p.1 - E.d * p.1 * q.1 * p.2 * q.2 * p.2) ^ 2 =
      E.d * (p.1 * p.2 * (i * q.1 - q.2)) ^ 2 := by
    linear_combination hp - E.d * p.1 ^ 2 * p.2 ^ 2 * hq + (p.2 ^ 2 - 1) * hone
  have hsquare (u v : K) (h : u ^ 2 = E.d * (p.1 * p.2 * v) ^ 2) : v = 0 := by
    by_contra hv
    refine hE.d_nonsquare ⟨u / (p.1 * p.2 * v), ?_⟩
    field_simp
    linear_combination -h
  have hplus := hsquare _ _ hsum
  have hminus := hsquare _ _ hdiff
  have htwice : 2 * (i * q.1) = 0 := by linear_combination hplus + hminus
  have hix : i * q.1 = 0 := (mul_eq_zero.mp htwice).resolve_left hE.two_ne
  have hi0 : i ≠ 0 := by
    rintro rfl
    exact hE.a_ne (by rw [hi, zero_mul])
  exact hx₂ ((mul_eq_zero.mp hix).resolve_left hi0)

theorem one_add_cross_ne (hE : E.Complete) (hp : E.OnCurve p) (hq : E.OnCurve q) :
    1 + E.cross p q ≠ 0 := by
  intro h
  exact cross_sq_ne_one hE hp hq (by linear_combination (E.cross p q - 1) * h)

theorem one_sub_cross_ne (hE : E.Complete) (hp : E.OnCurve p) (hq : E.OnCurve q) :
    1 - E.cross p q ≠ 0 := by
  intro h
  exact cross_sq_ne_one hE hp hq (by linear_combination (-1 - E.cross p q) * h)

-- ---------------------------------------------------------------------------
-- The sum
-- ---------------------------------------------------------------------------

theorem add_mul_cross (hE : E.Complete) (hp : E.OnCurve p) (hq : E.OnCurve q) :
    (E.add p q).1 * (1 + E.cross p q) = p.1 * q.2 + p.2 * q.1 ∧
      (E.add p q).2 * (1 - E.cross p q) = p.2 * q.2 - E.a * p.1 * q.1 :=
  ⟨div_mul_cancel₀ _ (one_add_cross_ne hE hp hq), div_mul_cancel₀ _ (one_sub_cross_ne hE hp hq)⟩

theorem onCurve_add (hE : E.Complete) (hp : E.OnCurve p) (hq : E.OnCurve q) :
    E.OnCurve (E.add p q) := by
  have hplus := one_add_cross_ne hE hp hq
  have hminus := one_sub_cross_ne hE hp hq
  -- the equation of the sum, without denominators
  have hpoly : E.a * (p.1 * q.2 + p.2 * q.1) ^ 2 * (1 - E.cross p q) ^ 2 +
      (p.2 * q.2 - E.a * p.1 * q.1) ^ 2 * (1 + E.cross p q) ^ 2 =
      (1 + E.cross p q) ^ 2 * (1 - E.cross p q) ^ 2 +
        E.d * (p.1 * q.2 + p.2 * q.1) ^ 2 * (p.2 * q.2 - E.a * p.1 * q.1) ^ 2 := by
    unfold OnCurve at hp hq
    unfold cross
    linear_combination
      ((1 + E.d * p.1 ^ 2 * p.2 ^ 2 * (E.d * q.1 ^ 2 * q.2 ^ 2)) * (E.a * q.1 ^ 2 + q.2 ^ 2) -
        E.d * q.1 ^ 2 * q.2 ^ 2 *
          (E.a * p.1 ^ 2 + p.2 ^ 2 + 1 + E.d * p.1 ^ 2 * p.2 ^ 2)) * hp +
      ((1 + E.d * p.1 ^ 2 * p.2 ^ 2 * (E.d * q.1 ^ 2 * q.2 ^ 2)) *
          (1 + E.d * p.1 ^ 2 * p.2 ^ 2) -
        E.d * p.1 ^ 2 * p.2 ^ 2 *
          (E.a * q.1 ^ 2 + q.2 ^ 2 + 1 + E.d * q.1 ^ 2 * q.2 ^ 2)) * hq
  unfold OnCurve add
  dsimp only
  field_simp
  linear_combination hpoly

theorem summand_of_add (hE : E.Complete) (hp : E.OnCurve p) (hq : E.OnCurve q) :
    q.1 * (1 - E.cross p (E.add p q)) = (E.add p q).1 * p.2 - (E.add p q).2 * p.1 ∧
      q.2 * (1 + E.cross p (E.add p q)) =
        (E.add p q).2 * p.2 + E.a * (E.add p q).1 * p.1 := by
  have hplus := one_add_cross_ne hE hp hq
  have hminus := one_sub_cross_ne hE hp hq
  have hden : (1 + E.cross p q) * (1 - E.cross p q) ≠ 0 := mul_ne_zero hplus hminus
  have hx : (E.add p q).1 = (p.1 * q.2 + p.2 * q.1) / (1 + E.cross p q) := rfl
  have hy : (E.add p q).2 = (p.2 * q.2 - E.a * p.1 * q.1) / (1 - E.cross p q) := rfl
  have hcross : E.cross p (E.add p q) = E.d * p.1 * p.2 *
      ((p.1 * q.2 + p.2 * q.1) * (p.2 * q.2 - E.a * p.1 * q.1)) /
        ((1 + E.cross p q) * (1 - E.cross p q)) := by
    unfold cross at hx hy hplus hminus ⊢
    rw [hx, hy]
    field_simp
  rw [hcross, hx, hy]
  unfold OnCurve at hp hq
  constructor
  · field_simp
    unfold cross
    linear_combination -q.1 * hp + q.1 * E.d * p.1 ^ 2 * p.2 ^ 2 * hq
  · field_simp
    unfold cross
    linear_combination -q.2 * hp + q.2 * E.d * p.1 ^ 2 * p.2 ^ 2 * hq

theorem add_left_cancel (hE : E.Complete) (hp : E.OnCurve p) (hq : E.OnCurve q)
    (hr : E.OnCurve r) (h : E.add p q = E.add p r) : q = r := by
  have hs := onCurve_add hE hp hq
  obtain ⟨hx, hy⟩ := summand_of_add hE hp hq
  obtain ⟨hx', hy'⟩ := summand_of_add hE hp hr
  rw [← h] at hx' hy'
  exact Prod.ext (mul_right_cancel₀ (one_sub_cross_ne hE hp hs) (hx.trans hx'.symm))
    (mul_right_cancel₀ (one_add_cross_ne hE hp hs) (hy.trans hy'.symm))

theorem add_opposite (hE : E.Complete) (hp : E.OnCurve p) (hq : E.OnCurve q)
    (hx : p.1 = -q.1) (hy : p.2 = q.2) : E.add p q = neutral := by
  obtain ⟨hsum, hheight⟩ := add_mul_cross hE hp hq
  have hplus := one_add_cross_ne hE hp hq
  have hminus := one_sub_cross_ne hE hp hq
  unfold OnCurve at hq
  refine Prod.ext (mul_right_cancel₀ hplus ?_) (mul_right_cancel₀ hminus ?_)
  · rw [hsum, hx, hy]
    simp only [neutral]
    ring
  · rw [hheight, hx, hy]
    simp only [neutral, cross, hx, hy]
    linear_combination hq

end TwistedEdwards

end Lib

/-!
## The group of a twisted Edwards curve

Where one formula adds all points, the addition is associative: both sums of three points
have coordinates that are the same fraction modulo the equations of the points. The points
are a commutative group, in which the opposite of a point is on the other side of the axis.
-/

namespace Lib.TwistedEdwards

variable {K : Type} [Field K] {E : TwistedEdwards K} {p q r : K × K}

-- ---------------------------------------------------------------------------
-- Sums of three points
-- ---------------------------------------------------------------------------

theorem cross_add (hE : E.Complete) (hp : E.OnCurve p) (hq : E.OnCurve q) (r : K × K) :
    E.cross (E.add p q) r * ((1 + E.cross p q) * (1 - E.cross p q)) =
      E.d * r.1 * r.2 * ((p.1 * q.2 + p.2 * q.1) * (p.2 * q.2 - E.a * p.1 * q.1)) := by
  obtain ⟨hx, hy⟩ := add_mul_cross hE hp hq
  calc E.cross (E.add p q) r * ((1 + E.cross p q) * (1 - E.cross p q))
      = E.d * r.1 * r.2 * (((E.add p q).1 * (1 + E.cross p q)) *
          ((E.add p q).2 * (1 - E.cross p q))) := by
        unfold cross
        ring
    _ = _ := by rw [hx, hy]

theorem add_add_fst (hE : E.Complete) (hp : E.OnCurve p) (hq : E.OnCurve q) (hr : E.OnCurve r) :
    (1 + E.cross p q) * (1 - E.cross p q) +
        E.d * r.1 * r.2 * ((p.1 * q.2 + p.2 * q.1) * (p.2 * q.2 - E.a * p.1 * q.1)) ≠ 0 ∧
      (E.add (E.add p q) r).1 * ((1 + E.cross p q) * (1 - E.cross p q) +
          E.d * r.1 * r.2 * ((p.1 * q.2 + p.2 * q.1) * (p.2 * q.2 - E.a * p.1 * q.1))) =
        (p.1 * q.2 + p.2 * q.1) * (1 - E.cross p q) * r.2 +
          (p.2 * q.2 - E.a * p.1 * q.1) * (1 + E.cross p q) * r.1 := by
  have hs := onCurve_add hE hp hq
  obtain ⟨hx, hy⟩ := add_mul_cross hE hp hq
  obtain ⟨hsum, -⟩ := add_mul_cross hE hs hr
  have hden := mul_ne_zero (one_add_cross_ne hE hs hr)
    (mul_ne_zero (one_add_cross_ne hE hp hq) (one_sub_cross_ne hE hp hq))
  rw [add_mul, one_mul, cross_add hE hp hq] at hden
  refine ⟨hden, ?_⟩
  rw [← cross_add hE hp hq, ← hx, ← hy]
  linear_combination (1 + E.cross p q) * (1 - E.cross p q) * hsum

theorem add_add_snd (hE : E.Complete) (hp : E.OnCurve p) (hq : E.OnCurve q) (hr : E.OnCurve r) :
    (1 + E.cross p q) * (1 - E.cross p q) -
        E.d * r.1 * r.2 * ((p.1 * q.2 + p.2 * q.1) * (p.2 * q.2 - E.a * p.1 * q.1)) ≠ 0 ∧
      (E.add (E.add p q) r).2 * ((1 + E.cross p q) * (1 - E.cross p q) -
          E.d * r.1 * r.2 * ((p.1 * q.2 + p.2 * q.1) * (p.2 * q.2 - E.a * p.1 * q.1))) =
        (p.2 * q.2 - E.a * p.1 * q.1) * (1 + E.cross p q) * r.2 -
          E.a * ((p.1 * q.2 + p.2 * q.1) * (1 - E.cross p q)) * r.1 := by
  have hs := onCurve_add hE hp hq
  obtain ⟨hx, hy⟩ := add_mul_cross hE hp hq
  obtain ⟨-, hsum⟩ := add_mul_cross hE hs hr
  have hden := mul_ne_zero (one_sub_cross_ne hE hs hr)
    (mul_ne_zero (one_add_cross_ne hE hp hq) (one_sub_cross_ne hE hp hq))
  rw [sub_mul, one_mul, cross_add hE hp hq] at hden
  refine ⟨hden, ?_⟩
  rw [← cross_add hE hp hq, ← hx, ← hy]
  linear_combination (1 + E.cross p q) * (1 - E.cross p q) * hsum

theorem add_assoc (hE : E.Complete) (hp : E.OnCurve p) (hq : E.OnCurve q) (hr : E.OnCurve r) :
    E.add (E.add p q) r = E.add p (E.add q r) := by
  rw [add_comm p (E.add q r)]
  refine Prod.ext ?_ ?_
  · obtain ⟨hden, hx⟩ := add_add_fst hE hp hq hr
    obtain ⟨hden', hx'⟩ := add_add_fst hE hq hr hp
    rw [eq_div_of_mul_eq hden hx, eq_div_of_mul_eq hden' hx', div_eq_div_iff hden hden']
    clear hden hden' hx hx'
    unfold OnCurve at hp hq hr
    unfold cross
    -- an identity modulo the three equations
    grind
  · obtain ⟨hden, hy⟩ := add_add_snd hE hp hq hr
    obtain ⟨hden', hy'⟩ := add_add_snd hE hq hr hp
    rw [eq_div_of_mul_eq hden hy, eq_div_of_mul_eq hden' hy', div_eq_div_iff hden hden']
    clear hden hden' hy hy'
    unfold OnCurve at hp hq hr
    unfold cross
    grind

-- ---------------------------------------------------------------------------
-- Points
-- ---------------------------------------------------------------------------

/-- A point of the curve. -/
@[ext]
structure Point (E : TwistedEdwards K) where
  xy : K × K
  onCurve : E.OnCurve xy

theorem onCurve_neg (hp : E.OnCurve p) : E.OnCurve (-p.1, p.2) := by
  unfold OnCurve at hp ⊢
  linear_combination hp

instance : Zero E.Point := ⟨neutral, onCurve_neutral⟩

instance : Neg E.Point := ⟨fun P => ⟨(-P.xy.1, P.xy.2), onCurve_neg P.onCurve⟩⟩

theorem xy_neg (P : E.Point) : (-P).xy = (-P.xy.1, P.xy.2) := rfl

section

variable [hE : Fact E.Complete]

instance : Add E.Point := ⟨fun P Q => ⟨E.add P.xy Q.xy, onCurve_add hE.out P.onCurve Q.onCurve⟩⟩

instance : AddCommGroup E.Point where
  add_assoc P Q R := Point.ext (add_assoc hE.out P.onCurve Q.onCurve R.onCurve)
  zero_add P := Point.ext (neutral_add P.xy)
  add_zero P := Point.ext (add_neutral P.xy)
  nsmul := nsmulRec
  zsmul := zsmulRec
  neg_add_cancel P := Point.ext (add_opposite hE.out (onCurve_neg P.onCurve) P.onCurve rfl rfl)
  add_comm P Q := Point.ext (add_comm P.xy Q.xy)

variable (P Q : E.Point)

theorem xy_add : (P + Q).xy = E.add P.xy Q.xy := rfl

theorem sub_mul_cross : (P - Q).xy.1 * (1 - E.cross P.xy Q.xy) = P.xy.1 * Q.xy.2 - P.xy.2 * Q.xy.1 ∧
    (P - Q).xy.2 * (1 + E.cross P.xy Q.xy) = P.xy.2 * Q.xy.2 + E.a * P.xy.1 * Q.xy.1 := by
  obtain ⟨hx, hy⟩ := add_mul_cross hE.out P.onCurve (onCurve_neg Q.onCurve)
  have hcross : E.cross P.xy (-Q.xy.1, Q.xy.2) = -E.cross P.xy Q.xy := by
    unfold cross
    ring
  rw [hcross] at hx hy
  rw [sub_eq_add_neg P Q, xy_add, xy_neg]
  constructor
  · linear_combination hx
  · linear_combination hy

variable {P}

theorem add_self_of_fst_eq_zero (h : P.xy.1 = 0) : P + P = 0 := by
  have hself : P = -P := Point.ext (Prod.ext (by rw [xy_neg, h, neg_zero]) rfl)
  nth_rewrite 1 [hself]
  exact neg_add_cancel P

theorem coordinates_ne_zero (hodd : Odd (addOrderOf P)) (hP : P ≠ 0) : P.xy.1 ≠ 0 ∧ P.xy.2 ≠ 0 := by
  have hpow (k : Nat) (h : 2 ^ k • P = 0) : P = 0 := by
    have hdvd := addOrderOf_dvd_of_nsmul_eq_zero h
    rw [← AddMonoid.addOrderOf_eq_one_iff]
    exact Nat.Coprime.eq_one_of_dvd (hodd.coprime_two_right.pow_right k) hdvd
  refine ⟨fun hx => hP (hpow 1 ?_), fun hy => hP (hpow 2 ?_)⟩
  · rw [pow_one, two_nsmul]
    exact add_self_of_fst_eq_zero hx
  · have hdouble : (P + P).xy.1 = 0 := by simp [xy_add, add, hy]
    rw [show 2 ^ 2 = 2 * 2 from rfl, mul_nsmul, two_nsmul, two_nsmul]
    exact add_self_of_fst_eq_zero hdouble

end

-- ---------------------------------------------------------------------------
-- Recovering a coordinate
-- ---------------------------------------------------------------------------

theorem d_mul_sq_sub_a_ne (hE : E.Complete) (y : K) : E.d * y ^ 2 - E.a ≠ 0 := by
  intro h
  obtain ⟨s, hs⟩ := hE.a_square
  have hd : E.d * y ^ 2 = s * s := by rw [← hs, sub_eq_zero.mp h]
  have hy : y ≠ 0 := by
    rintro rfl
    refine hE.a_ne ?_
    rw [hs, ← hd, zero_pow two_ne_zero, mul_zero]
  refine hE.d_nonsquare ⟨s / y, ?_⟩
  field_simp
  rw [hd, sq]

/-- What the square of `x` is where the point is on the curve. -/
def xSquare (E : TwistedEdwards K) (y : K) : K := (y ^ 2 - 1) / (E.d * y ^ 2 - E.a)

theorem onCurve_iff_sq (hE : E.Complete) (x y : K) : E.OnCurve (x, y) ↔ x ^ 2 = E.xSquare y := by
  have hne := d_mul_sq_sub_a_ne hE y
  rw [xSquare, eq_div_iff hne, OnCurve]
  constructor
  · intro h
    linear_combination -h
  · intro h
    linear_combination -h

theorem exists_onCurve_iff (hE : E.Complete) (y : K) :
    (∃ x, E.OnCurve (x, y)) ↔ IsSquare (E.xSquare y) := by
  simp only [onCurve_iff_sq hE, isSquare_iff_exists_sq, eq_comm]

/-- Where `w ^ (8 k + 4)` is 1 for all `w` but zero: a root of a square, up to a root of -1. -/
theorem sq_candidate {k : Nat} (hcard : ∀ w : K, w ≠ 0 → w ^ (8 * k + 4) = 1) {u : K}
    (hu : IsSquare u) :
    (u ^ (k + 1)) ^ 2 = u ∨ (u ^ (k + 1)) ^ 2 = -u := by
  obtain ⟨w, rfl⟩ := hu
  rcases eq_or_ne w 0 with rfl | hw
  · left
    rw [mul_zero, zero_pow (Nat.succ_ne_zero k), zero_pow two_ne_zero]
  · have hone : (w ^ (4 * k + 2)) ^ 2 = 1 := by
      rw [← pow_mul, ← hcard w hw]
      congr 1
      ring
    have hsplit : ((w * w) ^ (k + 1)) ^ 2 = w ^ (4 * k + 2) * (w * w) := by ring
    rw [hsplit]
    rw [sq] at hone
    rcases mul_self_eq_one_iff.mp hone with h | h
    · left
      rw [h, one_mul]
    · right
      rw [h, neg_one_mul]

end Lib.TwistedEdwards
