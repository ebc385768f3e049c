import Mathlib.Algebra.BigOperators.Intervals
import Mathlib.Algebra.BigOperators.Ring.Finset
import Mathlib.Algebra.Order.Ring.Abs
import Mathlib.Tactic.Ring
import Speculos.Lib.Octets

/-!
# Signed machine integers

The signed arithmetic of C on unbounded integers: an operation that overflows has no result. A
sum of products has one where the bounds of the factors leave room for it. The masks of the low
and of the high bits of a 64-bit integer are a remainder and a multiple.
-/

namespace Lib

def int32 (x : Int) : Option Int := if -2 ^ 31 ≤ x ∧ x < 2 ^ 31 then some x else none

def int64 (x : Int) : Option Int := if -2 ^ 63 ≤ x ∧ x < 2 ^ 63 then some x else none

theorem int32_of_range (h : -2 ^ 31 ≤ x) (h' : x < 2 ^ 31) : int32 x = some x := if_pos ⟨h, h'⟩

theorem int64_of_range (h : -2 ^ 63 ≤ x) (h' : x < 2 ^ 63) : int64 x = some x := if_pos ⟨h, h'⟩

theorem bind_of_eq_some {x : Option α} {f : α → Option β} (h : x = some a) (hf : f a = some b) :
    x.bind f = some b := by
  rw [h, Option.bind_some, hf]

-- ---------------------------------------------------------------------------
-- Sums of products
-- ---------------------------------------------------------------------------

/-- The sum of `acc` and of the products, taken from the left. -/
def dot (acc : Int) : List (Int × Int) → Option Int
  | [] => some acc
  | (a, b) :: l => do
    let p ← int64 (a * b)
    let s ← int64 (acc + p)
    dot s l

def products (l : List (Int × Int)) : Int := (l.map fun q => q.1 * q.2).sum

/-- Every factor is within the bound of its side. -/
def FactorsWithin (A B : Int) (l : List (Int × Int)) : Prop := ∀ q ∈ l, |q.1| ≤ A ∧ |q.2| ≤ B

theorem abs_mul_le {a b A B : Int} (ha : |a| ≤ A) (hb : |b| ≤ B) : |a * b| ≤ A * B := by
  rw [abs_mul]
  exact mul_le_mul ha hb (abs_nonneg b) ((abs_nonneg a).trans ha)

theorem abs_products_le (h : FactorsWithin A B l) : |products l| ≤ l.length * (A * B) := by
  induction l with
  | nil => exact Int.le_of_eq (Int.zero_mul _).symm
  | cons q l ih =>
    obtain ⟨hq, hl⟩ := List.forall_mem_cons.mp h
    calc |products (q :: l)| ≤ |q.1 * q.2| + |products l| := abs_add_le _ _
      _ ≤ A * B + l.length * (A * B) := Int.add_le_add (abs_mul_le hq.1 hq.2) (ih hl)
      _ = (q :: l).length * (A * B) := by rw [List.length_cons]; push_cast; ring

theorem dot_eq (h : FactorsWithin A B l) (hpos : 0 ≤ A * B) :
    ∀ acc, |acc| + l.length * (A * B) < 2 ^ 63 → dot acc l = some (acc + products l) := by
  induction l with
  | nil =>
    intro acc _
    simp [dot, products]
  | cons q l ih =>
    intro acc hroom
    obtain ⟨hq, hl⟩ := List.forall_mem_cons.mp h
    obtain ⟨a, b⟩ := q
    have hprod : |a * b| ≤ A * B := abs_mul_le hq.1 hq.2
    have hrest : 0 ≤ l.length * (A * B) := Int.mul_nonneg (Int.natCast_nonneg _) hpos
    have hlen : ((((a, b) :: l).length : Nat) : Int) * (A * B) = A * B + l.length * (A * B) := by
      rw [List.length_cons]
      push_cast
      ring
    have hnonneg := abs_nonneg acc
    rw [hlen] at hroom
    have hsum : |acc + a * b| ≤ |acc| + A * B :=
      (abs_add_le _ _).trans (Int.add_le_add (Int.le_refl _) hprod)
    have hterm := abs_le.mp (hprod.trans (show A * B ≤ 2 ^ 63 - 1 by omega))
    have hacc := abs_le.mp (hsum.trans (show |acc| + A * B ≤ 2 ^ 63 - 1 by omega))
    have hstep := ih hl (acc + a * b) (by omega)
    simp only [dot, int64_of_range (show -2 ^ 63 ≤ a * b by omega) (show a * b < 2 ^ 63 by omega),
      int64_of_range (show -2 ^ 63 ≤ acc + a * b by omega) (show acc + a * b < 2 ^ 63 by omega),
      Option.bind_eq_bind, Option.bind_some, hstep, products, List.map_cons, List.sum_cons,
      Int.add_assoc]

-- ---------------------------------------------------------------------------
-- Masks
-- ---------------------------------------------------------------------------

/-- `x & mask`. -/
def land64 (x : Int) (mask : BitVec 64) : Int := (BitVec.ofInt 64 x &&& mask).toInt

theorem toInt_ofNat_of_lt {v : BitVec 64} (h : v.toNat < 2 ^ 63) : v.toInt = v.toNat := by
  rw [BitVec.toInt_eq_toNat_cond, if_pos (by omega)]

theorem land64_low (hn : n ≤ 62) (x : Int) :
    land64 x (BitVec.ofNat 64 (2 ^ n - 1)) = x % 2 ^ n := by
  have hpow : 2 ^ n < 2 ^ 63 := Nat.pow_lt_pow_right (by decide) (by omega)
  have hmask : (BitVec.ofInt 64 x &&& BitVec.ofNat 64 (2 ^ n - 1)).toNat =
      (x % 2 ^ 64).toNat % 2 ^ n := by
    rw [BitVec.toNat_and, BitVec.toNat_ofNat, Nat.mod_eq_of_lt (by omega),
      Nat.and_two_pow_sub_one_eq_mod, BitVec.toNat_ofInt]
    rfl
  have hlt := Nat.mod_lt (x % 2 ^ 64).toNat (Nat.two_pow_pos n)
  rw [land64, toInt_ofNat_of_lt (by omega), hmask]
  push_cast
  rw [Int.toNat_of_nonneg (Int.emod_nonneg _ (by decide)),
    Int.emod_emod_of_dvd x (by exact_mod_cast Nat.pow_dvd_pow 2 (show n ≤ 64 by omega))]

theorem land64_not (hn : n ≤ 62) (hx : -2 ^ 63 ≤ x) (hx' : x < 2 ^ 63) :
    land64 x (~~~BitVec.ofNat 64 (2 ^ n - 1)) = 2 ^ n * (x / 2 ^ n) := by
  have hsplit : (BitVec.ofInt 64 x &&& BitVec.ofNat 64 (2 ^ n - 1)) +
      (BitVec.ofInt 64 x &&& ~~~BitVec.ofNat 64 (2 ^ n - 1)) = BitVec.ofInt 64 x := by
    rw [BitVec.add_eq_or_of_and_eq_zero]
    · ext i
      simp only [BitVec.getElem_or, BitVec.getElem_and, BitVec.getElem_not]
      cases (BitVec.ofInt 64 x)[i] <;> cases (BitVec.ofNat 64 (2 ^ n - 1))[i] <;> rfl
    · ext i
      simp only [BitVec.getElem_and, BitVec.getElem_not, BitVec.getElem_zero]
      cases (BitVec.ofInt 64 x)[i] <;> cases (BitVec.ofNat 64 (2 ^ n - 1))[i] <;> rfl
  have hlow := land64_low hn x
  rw [land64] at hlow ⊢
  have hint := congrArg BitVec.toInt hsplit
  rw [BitVec.toInt_add, hlow, BitVec.toInt_ofInt_eq_self (by decide) hx (by omega),
    Int.bmod_def] at hint
  have hdivMod := Int.mul_ediv_add_emod x (2 ^ n)
  have hpos : (0 : Int) < 2 ^ n := Int.pow_pos (by decide)
  have hdvd : -2 ^ 63 ≤ 2 ^ n * (x / 2 ^ n) := by
    have hpow : (2 : Int) ^ 63 = 2 ^ n * 2 ^ (63 - n) := by
      rw [← pow_add, Nat.add_sub_cancel' (by omega)]
    have hfloor : -2 ^ (63 - n) ≤ x / 2 ^ n := by
      rw [Int.le_ediv_iff_mul_le hpos]
      calc -2 ^ (63 - n) * 2 ^ n = -(2 ^ n * 2 ^ (63 - n) : Int) := by ring
        _ ≤ x := hpow ▸ hx
    calc (-2 ^ 63 : Int) = 2 ^ n * -2 ^ (63 - n) := by rw [hpow]; ring
      _ ≤ _ := Int.mul_le_mul_of_nonneg_left hfloor (Int.le_of_lt hpos)
  have hrange := (BitVec.ofInt 64 x &&& ~~~BitVec.ofNat 64 (2 ^ n - 1)).toInt_lt
  have hrange' := (BitVec.ofInt 64 x &&& ~~~BitVec.ofNat 64 (2 ^ n - 1)).le_toInt
  have hmod := Int.emod_nonneg x (Int.ne_of_gt hpos)
  have hmod' := Int.emod_lt_of_pos x hpos
  omega

-- ---------------------------------------------------------------------------
-- Bytes and words
-- ---------------------------------------------------------------------------

theorem or_shiftLeft_of_lt (h : a < 2 ^ k) (b : Nat) : a ||| b <<< k = a + 2 ^ k * b := by
  rw [Nat.or_comm, ← Nat.shiftLeft_add_eq_or_of_lt h, Nat.shiftLeft_eq, Nat.mul_comm, Nat.add_comm]

theorem fromLE_cons (b : UInt8) (bs : Bytes) : fromLE (b :: bs) = b.toNat + 256 * fromLE bs := by
  rw [fromLE, List.reverse_cons, fromBE_concat, ← fromLE]
  omega

theorem fromLE_eq_sum (bs : Bytes) :
    fromLE bs = ∑ i ∈ Finset.range bs.length, (bs.getD i 0).toNat * 256 ^ i := by
  induction bs with
  | nil => rfl
  | cons b bs ih =>
    rw [fromLE_cons, ih, List.length_cons, Finset.sum_range_succ', Finset.mul_sum, Nat.add_comm]
    congr 1
    · refine Finset.sum_congr rfl fun i _ => ?_
      rw [List.getD_cons_succ, pow_succ]
      ring
    · rw [List.getD_cons_zero, pow_zero, Nat.mul_one]

end Lib
