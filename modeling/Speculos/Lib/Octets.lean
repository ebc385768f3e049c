import Mathlib.Data.List.Basic
import Mathlib.Data.Nat.Basic
import Mathlib.Algebra.Ring.Nat
import Mathlib.Data.List.Induction
import Mathlib.Tactic.Ring

/-!
# Byte strings and big-endian fields

Byte strings are lists of octets. A 16-bit field is written most significant
byte first and read back by `fromBE`, which also reads shorter or longer
fields, the empty one being zero.
-/

namespace Lib

abbrev Bytes := List UInt8

def fromBE (bs : Bytes) : Nat := bs.foldl (fun n b => n * 256 + b.toNat) 0

/-- The low sixteen bits of `n`, most significant byte first. -/
def be16 (n : Nat) : Bytes := [UInt8.ofNat (n / 256), UInt8.ofNat n]

@[simp] theorem length_be16 (n : Nat) : (be16 n).length = 2 := rfl

@[simp] theorem fromBE_pair (hi lo : UInt8) : fromBE [hi, lo] = hi.toNat * 256 + lo.toNat := by
  simp [fromBE]

theorem fromBE_pair_lt (hi lo : UInt8) : fromBE [hi, lo] < 65536 := by
  have h1 := hi.toNat_lt
  have h2 := lo.toNat_lt
  rw [fromBE_pair]
  omega

theorem fromBE_be16_mod (n : Nat) : fromBE (be16 n) = n % 65536 := by
  simp only [be16, fromBE_pair, UInt8.toNat_ofNat']
  omega

theorem fromBE_be16 (n : Nat) (h : n < 65536) : fromBE (be16 n) = n := by
  rw [fromBE_be16_mod, Nat.mod_eq_of_lt h]

theorem be16_fromBE (hi lo : UInt8) : be16 (fromBE [hi, lo]) = [hi, lo] := by
  have hlo := lo.toNat_lt
  rw [be16, fromBE_pair]
  congr
  · rw [show (hi.toNat * 256 + lo.toNat) / 256 = hi.toNat by omega, UInt8.ofNat_toNat]
  · apply UInt8.toNat_inj.mp
    rw [UInt8.toNat_ofNat']
    omega

theorem be16_injective {m n : Nat} (hm : m < 65536) (hn : n < 65536) (h : be16 m = be16 n) :
    m = n := by
  rw [← fromBE_be16 m hm, h, fromBE_be16 n hn]

end Lib

/-!
## Unsigned integers in byte strings

A byte string of length `w` is an unsigned integer below `256 ^ w`, read most
significant byte first (`fromBE`) or last (`fromLE`). `toBE w` and `toLE w`
write the integer modulo `256 ^ w`. Both directions are inverse to each other,
and byte strings of one length are ordered by their first different byte.
-/

namespace Lib

/-- The low `w` bytes of `n`, most significant byte first. -/
def toBE : Nat → Nat → Bytes
  | 0, _ => []
  | w + 1, n => toBE w (n / 256) ++ [UInt8.ofNat n]

def fromLE (bs : Bytes) : Nat := fromBE bs.reverse

/-- The low `w` bytes of `n`, least significant byte first. -/
def toLE (w n : Nat) : Bytes := (toBE w n).reverse

@[simp] theorem fromBE_nil : fromBE [] = 0 := rfl

@[simp] theorem fromBE_concat (bs : Bytes) (b : UInt8) :
    fromBE (bs ++ [b]) = fromBE bs * 256 + b.toNat := by
  simp [fromBE]

theorem fromBE_append (as bs : Bytes) :
    fromBE (as ++ bs) = fromBE as * 256 ^ bs.length + fromBE bs := by
  induction bs using List.reverseRecOn with
  | nil => simp
  | append_singleton bs b ih =>
    rw [← List.append_assoc, fromBE_concat, ih, fromBE_concat, List.length_append,
      List.length_singleton, pow_succ]
    ring

theorem fromBE_cons (b : UInt8) (bs : Bytes) :
    fromBE (b :: bs) = b.toNat * 256 ^ bs.length + fromBE bs := by
  rw [← List.singleton_append, fromBE_append]
  simp [fromBE]

theorem fromBE_lt (bs : Bytes) : fromBE bs < 256 ^ bs.length := by
  induction bs using List.reverseRecOn with
  | nil => simp
  | append_singleton bs b ih =>
    have hb := b.toNat_lt
    rw [fromBE_concat, List.length_append, List.length_singleton, pow_succ]
    omega

theorem fromBE_replicate_zero (n : Nat) : fromBE (List.replicate n 0) = 0 := by
  induction n with
  | zero => rfl
  | succ n ih =>
    rw [List.replicate_succ', fromBE_concat, ih]
    rfl

-- ---------------------------------------------------------------------------
-- Writing
-- ---------------------------------------------------------------------------

@[simp] theorem length_toBE (w n : Nat) : (toBE w n).length = w := by
  induction w generalizing n with
  | zero => rfl
  | succ w ih => simp [toBE, ih]

@[simp] theorem length_toLE (w n : Nat) : (toLE w n).length = w := by
  simp [toLE]

theorem fromBE_toBE (w n : Nat) : fromBE (toBE w n) = n % 256 ^ w := by
  induction w generalizing n with
  | zero => simp [toBE, Nat.mod_one]
  | succ w ih =>
    have hmod : n % 256 ^ (w + 1) = n % 256 + 256 * (n / 256 % 256 ^ w) := by
      rw [pow_succ', Nat.mod_mul]
    rw [toBE, fromBE_concat, ih, UInt8.toNat_ofNat', hmod]
    omega

theorem fromBE_toBE_of_lt (h : n < 256 ^ w) : fromBE (toBE w n) = n := by
  rw [fromBE_toBE, Nat.mod_eq_of_lt h]

theorem toBE_fromBE (bs : Bytes) : toBE bs.length (fromBE bs) = bs := by
  induction bs using List.reverseRecOn with
  | nil => rfl
  | append_singleton bs b ih =>
    have hb := b.toNat_lt
    rw [List.length_append, List.length_singleton, toBE, fromBE_concat,
      show (fromBE bs * 256 + b.toNat) / 256 = fromBE bs by omega, ih]
    congr
    apply UInt8.toNat_inj.mp
    rw [UInt8.toNat_ofNat']
    omega

theorem fromBE_injective {as bs : Bytes} (hlen : as.length = bs.length)
    (h : fromBE as = fromBE bs) : as = bs := by
  rw [← toBE_fromBE as, ← toBE_fromBE bs, h, hlen]

theorem toBE_injective_of_lt (hm : m < 256 ^ w) (hn : n < 256 ^ w) (h : toBE w m = toBE w n) :
    m = n := by
  rw [← fromBE_toBE_of_lt hm, h, fromBE_toBE_of_lt hn]

theorem fromLE_lt (bs : Bytes) : fromLE bs < 256 ^ bs.length := by
  have h := fromBE_lt bs.reverse
  rwa [List.length_reverse] at h

theorem fromLE_toLE (w n : Nat) : fromLE (toLE w n) = n % 256 ^ w := by
  rw [fromLE, toLE, List.reverse_reverse, fromBE_toBE]

theorem fromLE_toLE_of_lt (h : n < 256 ^ w) : fromLE (toLE w n) = n := by
  rw [fromLE_toLE, Nat.mod_eq_of_lt h]

theorem toLE_fromLE (bs : Bytes) : toLE bs.length (fromLE bs) = bs := by
  have h := toBE_fromBE bs.reverse
  rw [List.length_reverse] at h
  rw [toLE, fromLE, h, List.reverse_reverse]

theorem toBE_mod (w n : Nat) : toBE w (n % 256 ^ w) = toBE w n := by
  apply fromBE_injective
  · rw [length_toBE, length_toBE]
  · rw [fromBE_toBE, fromBE_toBE, Nat.mod_mod]

theorem toLE_mod (w n : Nat) : toLE w (n % 256 ^ w) = toLE w n := by
  rw [toLE, toLE, toBE_mod]

theorem toBE_add_of_lt (k : Nat) (h : n < 256 ^ w) :
    toBE (k + w) n = List.replicate k 0 ++ toBE w n := by
  have hlt : n < 256 ^ (k + w) :=
    Nat.lt_of_lt_of_le h (Nat.pow_le_pow_right (by decide) (Nat.le_add_left ..))
  apply fromBE_injective
  · simp
  · rw [fromBE_toBE_of_lt hlt, fromBE_append, fromBE_replicate_zero, fromBE_toBE_of_lt h,
      Nat.zero_mul, Nat.zero_add]

theorem drop_toBE (w k n : Nat) : (toBE (k + w) n).drop k = toBE w n := by
  induction w generalizing n with
  | zero => exact List.drop_of_length_le (by simp)
  | succ w ih =>
    rw [← Nat.add_assoc, toBE, List.drop_append_of_le_length (by simp), ih, toBE]

theorem getElem_toBE (w n i : Nat) (h : i < (toBE w n).length) :
    (toBE w n)[i] = UInt8.ofNat (n / 256 ^ (w - 1 - i)) := by
  induction w generalizing n with
  | zero => exact absurd h (Nat.not_lt_zero i)
  | succ w ih =>
    simp only [toBE]
    by_cases hi : i < (toBE w (n / 256)).length
    · have hw : i < w := by rwa [length_toBE] at hi
      rw [List.getElem_append_left hi, ih _ hi, Nat.div_div_eq_div_mul, ← Nat.pow_succ']
      congr 3
      omega
    · have heq : i = w := by
        rw [length_toBE] at h hi
        omega
      subst heq
      rw [List.getElem_append_right (Nat.not_lt.mp hi)]
      simp

theorem toLE_eq_toBE (h : ∀ j < 8 * w, m.testBit j = n.testBit (8 * (w - 1 - j / 8) + j % 8)) :
    toLE w m = toBE w n := by
  refine List.ext_getElem (by simp [toLE]) fun i hi hi' => ?_
  rw [length_toBE] at hi'
  have hlast : (toBE w m).length - 1 - i < (toBE w m).length := by
    rw [length_toBE]
    omega
  have hget : (toLE w m)[i] = (toBE w m)[(toBE w m).length - 1 - i] := List.getElem_reverse _
  rw [hget, getElem_toBE, getElem_toBE, length_toBE]
  refine UInt8.toNat_inj.mp (Nat.eq_of_testBit_eq fun k => ?_)
  have hpow (a : Nat) : 256 ^ a = 2 ^ (8 * a) := (Nat.pow_mul 2 8 a).symm
  rw [UInt8.toNat_ofNat', UInt8.toNat_ofNat', Nat.testBit_mod_two_pow, Nat.testBit_mod_two_pow,
    hpow, hpow, Nat.testBit_div_two_pow, Nat.testBit_div_two_pow]
  by_cases hk : k < 8
  · have hj : (8 * (w - 1 - (w - 1 - i)) + k) / 8 = i := by omega
    have hj' : (8 * (w - 1 - (w - 1 - i)) + k) % 8 = k := by omega
    have hbit := h (8 * (w - 1 - (w - 1 - i)) + k) (by omega)
    rw [hj, hj'] at hbit
    rw [Nat.add_comm, hbit, Nat.add_comm]
  · simp [hk]

-- ---------------------------------------------------------------------------
-- Order
-- ---------------------------------------------------------------------------

theorem fromBE_cons_lt (hlen : as.length = bs.length) (h : a.toNat < b.toNat) :
    fromBE (a :: as) < fromBE (b :: bs) := by
  have hlt := fromBE_lt as
  have hstep : (a.toNat + 1) * 256 ^ bs.length ≤ b.toNat * 256 ^ bs.length :=
    Nat.mul_le_mul_right _ h
  rw [hlen] at hlt
  rw [fromBE_cons, fromBE_cons, hlen]
  rw [Nat.add_mul, Nat.one_mul] at hstep
  omega

end Lib
