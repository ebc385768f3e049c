import Mathlib.Data.Nat.Bitwise
import Speculos.Lib.Octets

/-!
# Byte strings byte by byte

What is done to the bytes of big-endian numbers is done to the numbers: the complement, the
operations on bits, shifts to the right, and the comparison from the first byte on.
-/

namespace Lib

-- ---------------------------------------------------------------------------
-- Complement
-- ---------------------------------------------------------------------------

theorem fromBE_map_not (bs : Bytes) :
    fromBE (bs.map (~~~ ·)) + fromBE bs + 1 = 256 ^ bs.length := by
  induction bs using List.reverseRecOn with
  | nil => rfl
  | append_singleton bs b ih =>
    have hb := b.toNat_lt
    have hnot : (~~~ b).toNat = 255 - b.toNat := by
      rw [UInt8.toNat_not]
      rfl
    rw [List.map_append, List.map_singleton, fromBE_concat, fromBE_concat, hnot, List.length_append,
      List.length_singleton, Nat.pow_succ, ← ih]
    omega

-- ---------------------------------------------------------------------------
-- Operations on bits
-- ---------------------------------------------------------------------------

/-- An operation on bytes and one on numbers that do the same to each pair of bits. -/
structure Bitwise (op : UInt8 → UInt8 → UInt8) (opNat : Nat → Nat → Nat) (f : Bool → Bool → Bool) :
    Prop where
  byte : ∀ a b, (op a b).toNat = opNat a.toNat b.toNat
  bit : ∀ m n i, (opNat m n).testBit i = f (m.testBit i) (n.testBit i)
  zero : opNat 0 0 = 0
  comm : ∀ m n, opNat m n = opNat n m

theorem bitwise_xor : Bitwise (· ^^^ ·) (· ^^^ ·) Bool.xor :=
  ⟨UInt8.toNat_xor, fun _ _ _ => Nat.testBit_xor .., rfl, Nat.xor_comm⟩

theorem bitwise_or : Bitwise (· ||| ·) (· ||| ·) Bool.or :=
  ⟨UInt8.toNat_or, fun _ _ _ => Nat.testBit_or .., rfl, Nat.or_comm⟩

theorem bitwise_and : Bitwise (· &&& ·) (· &&& ·) Bool.and :=
  ⟨UInt8.toNat_and, fun _ _ _ => Nat.testBit_and .., rfl, Nat.and_comm⟩

section

variable {op : UInt8 → UInt8 → UInt8} {opNat : Nat → Nat → Nat} {f : Bool → Bool → Bool}

theorem Bitwise.opNat_mul_add (h : Bitwise op opNat f) (m n : Nat) (a b : UInt8) :
    opNat (m * 256 + a.toNat) (n * 256 + b.toNat) = opNat m n * 256 + (op a b).toNat := by
  refine Nat.eq_of_testBit_eq fun i => ?_
  have hbit (k : Nat) (c : UInt8) :
      (k * 256 + c.toNat).testBit i = if i < 8 then c.toNat.testBit i else k.testBit (i - 8) := by
    rw [Nat.mul_comm, show 256 = 2 ^ 8 from rfl]
    exact Nat.testBit_two_pow_mul_add k c.toNat_lt i
  rw [h.bit, hbit, hbit, hbit]
  split
  · rw [h.byte, h.bit]
  · rw [h.bit]

theorem Bitwise.fromBE_zipWith (h : Bitwise op opNat f) (hlen : as.length = bs.length) :
    fromBE (List.zipWith op as bs) = opNat (fromBE as) (fromBE bs) := by
  induction as using List.reverseRecOn generalizing bs with
  | nil =>
    cases bs with
    | nil => exact h.zero.symm
    | cons b bs => cases hlen
  | append_singleton as a ih =>
    cases bs using List.reverseRecOn with
    | nil => simp at hlen
    | append_singleton bs b =>
      have hlen' : as.length = bs.length := by simpa using hlen
      rw [List.zipWith_append hlen', List.zipWith_cons_cons, List.zipWith_nil_left, fromBE_concat,
        ih hlen', fromBE_concat, fromBE_concat, h.opNat_mul_add]

theorem Bitwise.fromBE_lead (h : Bitwise op opNat f) (hlen : bs.length ≤ as.length) :
    fromBE ((as.take (as.length - bs.length)).map (op · 0) ++
        List.zipWith op (as.drop (as.length - bs.length)) bs) =
      opNat (fromBE as) (fromBE bs) := by
  have hpadded : (as.take (as.length - bs.length)).map (op · 0) ++
      List.zipWith op (as.drop (as.length - bs.length)) bs =
        List.zipWith op as (List.replicate (as.length - bs.length) 0 ++ bs) := by
    have hfront : ((as.take (as.length - bs.length)).map (op · 0)) =
        List.zipWith op (as.take (as.length - bs.length))
          (List.replicate (as.length - bs.length) 0) := by
      refine List.ext_getElem (by simp) fun i _ _ => ?_
      simp
    have htake : (as.take (as.length - bs.length)).length =
        (List.replicate (as.length - bs.length) (0 : UInt8)).length := by
      simp
    rw [hfront, ← List.zipWith_append htake, List.take_append_drop]
  have hlen' : as.length = (List.replicate (as.length - bs.length) 0 ++ bs).length := by
    rw [List.length_append, List.length_replicate]
    omega
  rw [hpadded, h.fromBE_zipWith hlen', fromBE_append, fromBE_replicate_zero, Nat.zero_mul,
    Nat.zero_add]

end

-- ---------------------------------------------------------------------------
-- Shifts
-- ---------------------------------------------------------------------------

/-- The bytes shifted to the right by `s` bits, with the bits of `carry` before them. -/
def shiftBytes (s carry : UInt8) : Bytes → Bytes
  | [] => []
  | x :: xs => (carry ||| x >>> s) :: shiftBytes s (x <<< (8 - s)) xs

@[simp] theorem length_shiftBytes (s carry : UInt8) (xs : Bytes) :
    (shiftBytes s carry xs).length = xs.length := by
  induction xs generalizing carry with
  | nil => rfl
  | cons x xs ih => rw [shiftBytes, List.length_cons, ih, List.length_cons]

theorem toNat_carry {s : UInt8} (hpos : 0 < s.toNat) (hlt : s.toNat < 8) (c x : UInt8) :
    (c <<< (8 - s) ||| x >>> s).toNat = 2 ^ (8 - s.toNat) * (c.toNat % 2 ^ s.toNat) +
      x.toNat / 2 ^ s.toNat := by
  have hsub : (8 - s).toNat = 8 - s.toNat :=
    UInt8.toNat_sub_of_le 8 s (UInt8.le_iff_toNat_le.mpr (Nat.le_of_lt hlt))
  have hpow : 2 ^ (8 - s.toNat) * 2 ^ s.toNat = 2 ^ 8 := by
    rw [← pow_add, Nat.sub_add_cancel (Nat.le_of_lt hlt)]
  have hleft : (c <<< (8 - s)).toNat = 2 ^ (8 - s.toNat) * (c.toNat % 2 ^ s.toNat) := by
    rw [UInt8.toNat_shiftLeft, hsub, Nat.mod_eq_of_lt (show 8 - s.toNat < 8 by omega),
      Nat.shiftLeft_eq, Nat.mul_comm, ← hpow, Nat.mul_mod_mul_left]
  have hright : (x >>> s).toNat = x.toNat / 2 ^ s.toNat := by
    rw [UInt8.toNat_shiftRight, Nat.mod_eq_of_lt hlt, Nat.shiftRight_eq_div_pow]
  have hhigh : x.toNat / 2 ^ s.toNat < 2 ^ (8 - s.toNat) := by
    rw [Nat.div_lt_iff_lt_mul (Nat.two_pow_pos _), hpow]
    exact x.toNat_lt
  rw [UInt8.toNat_or, hleft, hright, Nat.two_pow_add_eq_or_of_lt hhigh]

theorem fromBE_shiftBytes {s : UInt8} (hpos : 0 < s.toNat) (hlt : s.toNat < 8) (c : UInt8)
    (xs : Bytes) :
    fromBE (shiftBytes s (c <<< (8 - s)) xs) =
      (c.toNat % 2 ^ s.toNat * 256 ^ xs.length + fromBE xs) / 2 ^ s.toNat := by
  induction xs generalizing c with
  | nil =>
    have hmod := Nat.mod_lt c.toNat (Nat.two_pow_pos s.toNat)
    simp [shiftBytes, fromBE_nil, Nat.div_eq_of_lt hmod]
  | cons x xs ih =>
    have hpow : 2 ^ (8 - s.toNat) * 2 ^ s.toNat = 256 := by
      rw [← pow_add, Nat.sub_add_cancel (Nat.le_of_lt hlt)]
      rfl
    have hsplit := Nat.div_add_mod x.toNat (2 ^ s.toNat)
    have hnum : c.toNat % 2 ^ s.toNat * 256 ^ (xs.length + 1) +
        (x.toNat * 256 ^ xs.length + fromBE xs) =
        2 ^ s.toNat * ((2 ^ (8 - s.toNat) * (c.toNat % 2 ^ s.toNat) + x.toNat / 2 ^ s.toNat) * 256 ^ xs.length) +
          (x.toNat % 2 ^ s.toNat * 256 ^ xs.length + fromBE xs) := by
      generalize x.toNat / 2 ^ s.toNat = q, x.toNat % 2 ^ s.toNat = r at hsplit ⊢
      rw [← hsplit, pow_succ, ← hpow]
      ring
    rw [shiftBytes, fromBE_cons, fromBE_cons, List.length_cons, length_shiftBytes, ih,
      toNat_carry hpos hlt, hnum, Nat.mul_add_div (Nat.two_pow_pos _)]

end Lib
