import Mathlib.Data.Nat.Size
import Speculos.Bn.Integers

/-!
# Bit length

`cx_mpi_cnt_bits` looks for the first byte that is not 0, in an array that holds the bytes of the
number without leading zeros. Of 0 there is no byte: the search goes on in what the array held
before, and the length has wrapped around by then.
-/

namespace Speculos.Bn

open Lib

variable {ssl : Openssl} {x : Nat}

-- ---------------------------------------------------------------------------
-- Bits of a byte
-- ---------------------------------------------------------------------------

theorem and_highBit_eq_zero (b : UInt8) : b &&& 0x80 = 0 ↔ b.toNat < 2 ^ 7 := by
  have hlt := b.toNat_lt
  rw [← UInt8.toNat_inj, UInt8.toNat_and, show (0x80 : UInt8).toNat = 2 ^ 7 from rfl,
    Nat.and_two_pow, Nat.testBit_eq_decide_div_mod_eq]
  by_cases hbit : b.toNat / 2 ^ 7 % 2 = 1
  · simp only [hbit, decide_true]
    simp
    omega
  · simp only [hbit, decide_false]
    simp
    omega

theorem size_of_highBit {b : UInt8} (h : 2 ^ 7 ≤ b.toNat) : b.toNat.size = 8 :=
  Nat.le_antisymm (Nat.size_le.mpr b.toNat_lt) (Nat.lt_size.mpr h)

/-- The loop ends at the highest bit, if as many turns as are left take it there. -/
theorem skipZeroBits_eq (b : UInt8) (n k : Nat) (h : 2 ^ 7 ≤ b.toNat * 2 ^ n) :
    skipZeroBits b n (UInt32.ofNat (k + n + 1)) = UInt32.ofNat (k + n + b.toNat.size - 7) := by
  induction n generalizing b k with
  | zero =>
    rw [pow_zero, mul_one] at h
    rw [skipZeroBits, size_of_highBit h]
    rfl
  | succ n ih =>
    rw [skipZeroBits]
    split
    · rename_i hbit
      rw [and_highBit_eq_zero] at hbit
      have hpos : b.toNat ≠ 0 := by
        intro hzero
        rw [hzero, zero_mul] at h
        exact absurd h (by decide)
      have hshift : (b <<< 1).toNat = b.toNat <<< 1 := by
        have hmod : (b <<< 1).toNat = b.toNat <<< 1 % 256 := UInt8.toNat_shiftLeft b 1
        rw [hmod, Nat.shiftLeft_eq]
        omega
      have hlen : UInt32.ofNat (k + (n + 1) + 1) - 1 = UInt32.ofNat (k + n + 1) := by
        rw [UInt32.sub_eq_iff_eq_add, ← Nat.add_assoc, UInt32.ofNat_add (k + n + 1) 1]
        rfl
      have hhalf : 2 ^ 7 ≤ (b <<< 1).toNat * 2 ^ n := by
        rwa [hshift, Nat.shiftLeft_eq, pow_one, mul_assoc, ← Nat.pow_succ']
      rw [hlen, ih _ k hhalf, hshift, Nat.size_shiftLeft hpos]
      congr 1
      omega
    · rename_i hbit
      rw [and_highBit_eq_zero, Nat.not_lt] at hbit
      rw [size_of_highBit hbit]
      rfl

theorem toNat_sub_one {len : UInt32} (h : 0 < len.toNat) : (len - 1).toNat = len.toNat - 1 :=
  UInt32.toNat_sub_of_le len 1 (UInt32.le_iff_toNat_le.mpr h)

theorem skipZeroBits_ne_zero (b : UInt8) {n : Nat} {len : UInt32} (h : n < len.toNat) :
    skipZeroBits b n len ≠ 0 := by
  induction n generalizing b len with
  | zero =>
    rintro rfl
    exact Nat.lt_irrefl 0 h
  | succ n ih =>
    rw [skipZeroBits]
    have hpred := toNat_sub_one (Nat.zero_lt_of_lt h)
    split
    · exact ih _ (by omega)
    · rintro rfl
      exact absurd h (Nat.not_lt_zero _)

-- ---------------------------------------------------------------------------
-- Bytes
-- ---------------------------------------------------------------------------

/-- Behind a length that is larger than the array, the search ends with most of it left. -/
theorem skipZeroBytes_long {bs p : Bytes} {len left : UInt32} (hlen : bs.length < len.toNat)
    (h : skipZeroBytes bs len = some (p, left)) : len.toNat < left.toNat + bs.length := by
  induction bs generalizing len with
  | nil => cases h
  | cons b bs ih =>
    rw [skipZeroBytes] at h
    rw [List.length_cons] at hlen ⊢
    split at h
    · cases h
      omega
    · have hpred := toNat_sub_one (Nat.zero_lt_of_lt hlen)
      split at h
      · rename_i hzero
        rw [hzero] at hpred
        exact absurd hpred (by simp; omega)
      · have hleft := ih (by omega) h
        omega

theorem bytes_of_ne_zero (hx : x ≠ 0) :
    ∃ b rest, toBE (byteLength x) x = b :: rest ∧ b ≠ 0 := by
  have hvalue := fromBE_toBE_of_lt (lt_pow_byteLength x)
  cases hbytes : toBE (byteLength x) x with
  | nil =>
    rw [hbytes] at hvalue
    exact absurd hvalue.symm hx
  | cons b rest =>
    refine ⟨b, rest, rfl, ?_⟩
    rintro rfl
    have hlen : byteLength x = rest.length + 1 := by
      rw [← List.length_cons, ← hbytes, length_toBE]
    have hshort : x < 256 ^ rest.length := by
      rw [hbytes, fromBE_cons] at hvalue
      simpa [← hvalue] using fromBE_lt rest
    have hle := byteLength_le hshort
    omega

theorem size_fromBE_cons {b : UInt8} (hb : b ≠ 0) (rest : Bytes) :
    (fromBE (b :: rest)).size = 8 * rest.length + b.toNat.size := by
  have hpow : 2 ^ (8 * rest.length) = 256 ^ rest.length := by
    rw [pow_mul]
    rfl
  have hrest := fromBE_lt rest
  have hpos : 0 < b.toNat.size :=
    Nat.size_pos.mpr (Nat.pos_of_ne_zero fun h => hb (UInt8.toNat_inj.mp h))
  have hlow : 2 ^ (b.toNat.size - 1) ≤ b.toNat := Nat.lt_size.mp (Nat.sub_one_lt_of_lt hpos)
  have hhigh : b.toNat + 1 ≤ 2 ^ b.toNat.size := Nat.lt_size_self b.toNat
  rw [fromBE_cons, ← hpow]
  rw [← hpow] at hrest
  refine Nat.le_antisymm (Nat.size_le.mpr ?_) (Nat.le_of_pred_lt (Nat.lt_size.mpr ?_))
  · calc b.toNat * 2 ^ (8 * rest.length) + fromBE rest
        < (b.toNat + 1) * 2 ^ (8 * rest.length) := by
          rw [Nat.add_mul, Nat.one_mul]
          exact Nat.add_lt_add_left hrest _
      _ ≤ 2 ^ b.toNat.size * 2 ^ (8 * rest.length) := Nat.mul_le_mul_right _ hhigh
      _ = 2 ^ (8 * rest.length + b.toNat.size) := by rw [← pow_add, Nat.add_comm]
  · calc 2 ^ Nat.pred (8 * rest.length + b.toNat.size)
        = 2 ^ (b.toNat.size - 1) * 2 ^ (8 * rest.length) := by
          rw [← pow_add, Nat.pred_eq_sub_one, Nat.add_sub_assoc hpos, Nat.add_comm]
      _ ≤ b.toNat * 2 ^ (8 * rest.length) := Nat.mul_le_mul_right _ hlow
      _ ≤ b.toNat * 2 ^ (8 * rest.length) + fromBE rest := Nat.le_add_right ..

-- ---------------------------------------------------------------------------
-- The count
-- ---------------------------------------------------------------------------

theorem cxMpiCntBits_of_ne_zero (hssl : ssl.Exact) (hx : x ≠ 0) (hlen : byteLength x ≤ 2048)
    (stack : Bytes) : cxMpiCntBits ssl stack x = some (UInt32.ofNat x.size) := by
  obtain ⟨b, rest, hbytes, hb⟩ := bytes_of_ne_zero hx
  have hlength : rest.length + 1 = byteLength x := by
    rw [← List.length_cons, ← hbytes, length_toBE]
  have hword {n : Nat} (h : n ≤ 2048) : (UInt32.ofNat n).toNat = n :=
    UInt32.toNat_ofNat_of_lt' (Nat.lt_of_le_of_lt h (by decide))
  have hnum : ¬ maxMpiByteSize < ssl.numBytes x := by
    rw [hssl.numBytes, UInt32.lt_iff_toNat_lt, hword hlen]
    exact Nat.not_lt.mpr hlen
  have hsize : x.size = 8 * rest.length + b.toNat.size := by
    rw [← size_fromBE_cons hb, ← hbytes, fromBE_toBE_of_lt (lt_pow_byteLength x)]
  have hne : UInt32.ofNat (b :: rest).length ≠ 0 := by
    intro hzero
    have hnat := congrArg UInt32.toNat hzero
    rw [List.length_cons, hlength, hword hlen, ← hlength] at hnat
    exact absurd hnat (Nat.succ_ne_zero _)
  have hbits : UInt32.ofNat (b :: rest).length * 8 = UInt32.ofNat (8 * rest.length + 7 + 1) := by
    rw [List.length_cons, Nat.add_assoc, ← Nat.mul_succ, Nat.mul_comm, UInt32.ofNat_mul]
    rfl
  have hhigh : 2 ^ 7 ≤ b.toNat * 2 ^ 7 :=
    Nat.le_mul_of_pos_left _ (Nat.pos_of_ne_zero fun h => hb (UInt8.toNat_inj.mp h))
  rw [cxMpiCntBits, if_neg hnum, hssl.bn2bin, hbytes]
  dsimp only
  rw [List.cons_append, skipZeroBytes, if_pos hb, Option.bind_eq_bind, Option.bind_some]
  dsimp only
  rw [if_neg hne, List.headD_cons]
  rw [hbits, skipZeroBits_eq b 7 _ hhigh, hsize, Nat.add_right_comm, Nat.add_sub_cancel]
  rfl

theorem cxMpiCntBits_zero (hssl : ssl.Exact) (hstack : stack.length = 2048) :
    cxMpiCntBits ssl stack 0 = some 0 ↔ stack.headD 0 ≠ 0 := by
  have hnum : ¬ maxMpiByteSize < ssl.numBytes (0 : Nat) := by
    rw [hssl.numBytes]
    decide
  have hbytes : ssl.bn2bin (0 : Nat) = [] := hssl.bn2bin 0
  cases stack with
  | nil => cases hstack
  | cons s rest =>
    have hrest : rest.length = 2047 := Nat.succ.inj hstack
    rw [← Int.natCast_zero, cxMpiCntBits, if_neg hnum, hbytes, List.headD_cons]
    simp only [List.nil_append, List.length_nil, List.drop_zero, Option.bind_eq_bind]
    rw [skipZeroBytes]
    by_cases hs : s = 0
    · subst hs
      simp only [ne_eq, not_true_eq_false, if_false, iff_false]
      rw [if_neg (by decide)]
      intro hcount
      obtain ⟨⟨p, left⟩, hskip, hcount⟩ := Option.bind_eq_some_iff.mp hcount
      have hwrapped : (UInt32.ofNat 0 - 1).toNat = 2 ^ 32 - 1 := rfl
      have hleft := skipZeroBytes_long (by rw [hrest, hwrapped]; decide) hskip
      rw [hwrapped, hrest] at hleft
      have hne : left ≠ 0 := by
        rintro rfl
        exact absurd hleft (by decide)
      have hmany : 7 < (left * 8).toNat := by
        have hlt := left.toNat_lt
        rw [UInt32.toNat_mul, show (8 : UInt32).toNat = 8 from rfl]
        omega
      dsimp only at hcount
      rw [if_neg hne] at hcount
      exact skipZeroBits_ne_zero _ hmany (Option.some.inj hcount)
    · simp [hs]

/-- Of 0 the bits are counted if the array happens to begin with another byte. -/
theorem cxMpiCntBits_iff (hssl : ssl.Exact) (hx : byteLength x ≤ 2048) (stack : Bytes)
    (hstack : stack.length = 2048) :
    cxMpiCntBits ssl stack x = some (UInt32.ofNat x.size) ↔ x ≠ 0 ∨ stack.headD 0 ≠ 0 := by
  by_cases hzero : x = 0
  · subst hzero
    simpa using cxMpiCntBits_zero hssl hstack
  · simp [hzero, cxMpiCntBits_of_ne_zero hssl hzero hx]

theorem cxMpiCntBits_one :
    cxMpiCntBits .integers (List.replicate 2048 0) (1 : Nat) = some (UInt32.ofNat (Nat.size 1)) :=
  (cxMpiCntBits_iff exact_integers (by decide) _ List.length_replicate).mpr (.inl (by decide))

/-- In an array of zeros the search does not end. -/
theorem not_cxMpiCntBits_zeros :
    cxMpiCntBits .integers (List.replicate 2048 0) (0 : Nat) ≠
      some (UInt32.ofNat (Nat.size 0)) := by
  intro h
  exact (cxMpiCntBits_zero exact_integers List.length_replicate).mp h rfl

end Speculos.Bn
