import Mathlib.Data.Nat.Bitwise
import Speculos.Lib.TwistedEdwards

/-!
# Extended coordinates

A point `(x, y)` of a twisted Edwards curve as `(X, Y, Z, T)` with `x = X / Z`, `y = Y / Z` and
`T = X Y / Z`. The formulas here do not use `d`. The one that adds is not right where the
difference of the summands is on an axis. A ladder only adds points that differ by the point
that it multiplies.
-/

namespace Lib.TwistedEdwards

@[ext]
structure Extended (K : Type) where
  x : K
  y : K
  z : K
  t : K
  deriving DecidableEq, Repr

section

variable {K : Type} [CommRing K]

def Extended.dbl (a : K) (v : Extended K) : Extended K :=
  let e := (v.x + v.y) * (v.x + v.y) - v.x * v.x - v.y * v.y
  let g := a * (v.x * v.x) + v.y * v.y
  let f := g - (v.z * v.z + v.z * v.z)
  let h := a * (v.x * v.x) - v.y * v.y
  ⟨e * f, g * h, f * g, e * h⟩

def Extended.add (a : K) (v w : Extended K) : Extended K :=
  let e := v.t * w.z + v.z * w.t
  let f := v.y * w.y - v.x * w.x + (v.x - v.y) * (w.x + w.y)
  let g := v.y * w.y + a * (v.x * w.x)
  let h := v.t * w.z - v.z * w.t
  ⟨e * f, g * h, f * g, e * h⟩

/-- One step of a ladder, in place: the point that the bit selects is doubled, and the other
one becomes the sum. -/
def ladderStep (a : K) (r : Bool → Extended K) (bit : Bool) : Bool → Extended K :=
  fun i => if i = bit then (r bit).dbl a else (r bit).add a (r !bit)

end

variable {K : Type} [Field K] {E : TwistedEdwards K} {v w : Extended K} {p q : K × K}

structure Represents (v : Extended K) (p : K × K) : Prop where
  z_ne : v.z ≠ 0
  x : v.x = p.1 * v.z
  y : v.y = p.2 * v.z
  t : v.t = p.1 * p.2 * v.z

theorem represents_affine (p : K × K) : Represents ⟨p.1, p.2, 1, p.1 * p.2⟩ p :=
  ⟨one_ne_zero, (mul_one _).symm, (mul_one _).symm, (mul_one _).symm⟩

theorem represents_of_quotients {e f g h : K} (hf : f ≠ 0) (hg : g ≠ 0) (hx : e = p.1 * g)
    (hy : h = p.2 * f) : Represents ⟨e * f, g * h, f * g, e * h⟩ p := by
  refine ⟨mul_ne_zero hf hg, ?_, ?_, ?_⟩ <;> dsimp only
  · rw [hx]
    ring
  · rw [hy]
    ring
  · rw [hx, hy]
    ring

variable [hE : Fact E.Complete] {P Q : E.Point}

-- ---------------------------------------------------------------------------
-- Formulas
-- ---------------------------------------------------------------------------

theorem Represents.dbl (hv : Represents v P.xy) : Represents (v.dbl E.a) (P + P).xy := by
  have hplus := one_add_cross_ne hE.out P.onCurve P.onCurve
  have hminus := one_sub_cross_ne hE.out P.onCurve P.onCurve
  obtain ⟨hx, hy⟩ := add_mul_cross hE.out P.onCurve P.onCurve
  have hcurve := P.onCurve
  rw [← xy_add] at hx hy
  have hg : E.a * (v.x * v.x) + v.y * v.y = (1 + E.cross P.xy P.xy) * (v.z * v.z) := by
    unfold OnCurve at hcurve
    unfold cross
    rw [hv.x, hv.y]
    linear_combination v.z ^ 2 * hcurve
  have hf : E.a * (v.x * v.x) + v.y * v.y - (v.z * v.z + v.z * v.z) =
      -(1 - E.cross P.xy P.xy) * (v.z * v.z) := by
    rw [hg]
    ring
  have hz := mul_ne_zero hv.z_ne hv.z_ne
  refine represents_of_quotients ?_ ?_ ?_ ?_
  · rw [hf]
    exact mul_ne_zero (neg_ne_zero.mpr hminus) hz
  · rw [hg]
    exact mul_ne_zero hplus hz
  · rw [hg, hv.x, hv.y]
    linear_combination -(v.z ^ 2) * hx
  · rw [hf, hv.x, hv.y]
    linear_combination v.z ^ 2 * hy

theorem add_eq_quotients (hp : E.OnCurve p) (hq : E.OnCurve q) :
    p.1 * p.2 + q.1 * q.2 = (E.add p q).1 * (p.2 * q.2 + E.a * p.1 * q.1) ∧
      p.1 * p.2 - q.1 * q.2 = (E.add p q).2 * (p.1 * q.2 - p.2 * q.1) := by
  obtain ⟨hx, hy⟩ := add_mul_cross hE.out hp hq
  have hplus := one_add_cross_ne hE.out hp hq
  have hminus := one_sub_cross_ne hE.out hp hq
  constructor
  · refine mul_right_cancel₀ hplus ?_
    have hcurves : (p.1 * p.2 + q.1 * q.2) * (1 + E.cross p q) =
        (p.1 * q.2 + p.2 * q.1) * (p.2 * q.2 + E.a * p.1 * q.1) := by
      unfold OnCurve at hp hq
      unfold cross
      linear_combination -(p.1 * p.2) * hq - q.1 * q.2 * hp
    linear_combination hcurves - (p.2 * q.2 + E.a * p.1 * q.1) * hx
  · refine mul_right_cancel₀ hminus ?_
    have hcurves : (p.1 * p.2 - q.1 * q.2) * (1 - E.cross p q) =
        (p.2 * q.2 - E.a * p.1 * q.1) * (p.1 * q.2 - p.2 * q.1) := by
      unfold OnCurve at hp hq
      unfold cross
      linear_combination -(p.1 * p.2) * hq + q.1 * q.2 * hp
    linear_combination hcurves - (p.1 * q.2 - p.2 * q.1) * hy

theorem Represents.add (hv : Represents v P.xy) (hw : Represents w Q.xy) (hx : (P - Q).xy.1 ≠ 0)
    (hy : (P - Q).xy.2 ≠ 0) : Represents (v.add E.a w) (P + Q).xy := by
  obtain ⟨hdx, hdy⟩ := sub_mul_cross P Q
  obtain ⟨hsx, hsy⟩ := add_eq_quotients P.onCurve Q.onCurve
  rw [← xy_add] at hsx hsy
  have hf : v.y * w.y - v.x * w.x + (v.x - v.y) * (w.x + w.y) =
      (P.xy.1 * Q.xy.2 - P.xy.2 * Q.xy.1) * (v.z * w.z) := by
    rw [hv.x, hv.y, hw.x, hw.y]
    ring
  have hg : v.y * w.y + E.a * (v.x * w.x) =
      (P.xy.2 * Q.xy.2 + E.a * P.xy.1 * Q.xy.1) * (v.z * w.z) := by
    rw [hv.x, hv.y, hw.x, hw.y]
    ring
  have hz := mul_ne_zero hv.z_ne hw.z_ne
  refine represents_of_quotients ?_ ?_ ?_ ?_
  · rw [hf, ← hdx]
    exact mul_ne_zero (mul_ne_zero hx (one_sub_cross_ne hE.out P.onCurve Q.onCurve)) hz
  · rw [hg, ← hdy]
    exact mul_ne_zero (mul_ne_zero hy (one_add_cross_ne hE.out P.onCurve Q.onCurve)) hz
  · rw [hg, hv.t, hw.t]
    linear_combination v.z * w.z * hsx
  · rw [hf, hv.t, hw.t]
    linear_combination v.z * w.z * hsy

-- ---------------------------------------------------------------------------
-- Ladders
-- ---------------------------------------------------------------------------

/-- The points of a ladder for `P`, which differ by `P`. -/
def Rung (r : Bool → Extended K) (P : E.Point) (n : Nat) : Prop :=
  ∀ i : Bool, Represents (r i) ((n + i.toNat) • P).xy

variable {r : Bool → Extended K}

theorem Rung.step (h : Rung r P n) (hx : P.xy.1 ≠ 0) (hy : P.xy.2 ≠ 0) (bit : Bool) :
    Rung (ladderStep E.a r bit) P (2 * n + bit.toNat) := by
  intro i
  rw [ladderStep]
  split
  · rename_i hi
    have hdouble : (2 * n + bit.toNat + i.toNat) • P = (n + bit.toNat) • P +
        (n + bit.toNat) • P := by
      rw [hi, ← add_nsmul]
      congr 1
      ring
    rw [hdouble]
    exact (h bit).dbl
  · rename_i hi
    have hsum : (2 * n + bit.toNat + i.toNat) • P = (n + bit.toNat) • P +
        (n + (!bit).toNat) • P := by
      rw [← add_nsmul, Bool.eq_not.mpr hi]
      congr 1
      ring
    rw [hsum]
    -- the difference is `P`, or its opposite
    cases bit with
    | false =>
      have hdiff : (n + false.toNat) • P - (n + (!false).toNat) • P = -P := by
        simp [add_nsmul]
      exact (h false).add (h true) (by rw [hdiff]; exact neg_ne_zero.mpr hx)
        (by rw [hdiff]; exact hy)
    | true =>
      have hdiff : (n + true.toNat) • P - (n + (!true).toNat) • P = P := by
        simp [add_nsmul]
      exact (h true).add (h false) (by rw [hdiff]; exact hx) (by rw [hdiff]; exact hy)

def climb (n : Nat) (bits : List Bool) : Nat := bits.foldl (fun n bit => 2 * n + bit.toNat) n

theorem Rung.run (h : Rung r P n) (hx : P.xy.1 ≠ 0) (hy : P.xy.2 ≠ 0) (bits : List Bool) :
    Rung (bits.foldl (ladderStep E.a) r) P (climb n bits) := by
  induction bits generalizing r n with
  | nil => exact h
  | cons bit bits ih => exact ih (h.step hx hy bit)

theorem climb_testBit (n m len : Nat) :
    climb n ((List.range len).reverse.map m.testBit) = n * 2 ^ len + m % 2 ^ len := by
  induction len generalizing n with
  | zero => simp [climb, Nat.mod_one]
  | succ len ih =>
    rw [List.range_succ, List.reverse_append, List.reverse_singleton, List.singleton_append,
      List.map_cons]
    have hstep : climb n (m.testBit len :: (List.range len).reverse.map m.testBit) =
        climb (2 * n + (m.testBit len).toNat) ((List.range len).reverse.map m.testBit) := rfl
    rw [hstep, ih, Nat.mod_pow_succ, Nat.toNat_testBit]
    ring

end Lib.TwistedEdwards
