import Speculos.Bls.Blst
import Speculos.Lib.BitString

/-!
# Exponents of leading bytes without a top bit

`cx_get_bit_length` takes off one bit for each leading byte whose top bit is clear, so that
`cx_bls_fp2_pow` leaves out one byte for each eight of them.
-/

namespace Speculos.Bls

open Lib

section

variable {blst : Blst} {value : blst.Fp → ZMod p}

theorem value_fp2FromBendian (h : blst.Exact value) (h0 : c0.length = 48) (h1 : c1.length = 48) :
    (cxBlsFp2FromBendian blst c0 c1).value value = ⟨fromBE c0, fromBE c1⟩ := by
  simp [cxBlsFp2FromBendian, Fp2.value, h.fpFromBendian, h0, h1]

theorem value_fp2SetOne (h : blst.Exact value) : (cxBlsFp2SetOne blst).value value = 1 := by
  rw [cxBlsFp2SetOne, value_fp2FromBendian h rfl rfl]
  rfl

-- ---------------------------------------------------------------------------
-- One byte
-- ---------------------------------------------------------------------------

theorem bit_ne_zero_iff (byte : UInt8) (hk : k < 8) :
    (byte >>> UInt8.ofNat k) &&& 1 ≠ 0 ↔ byte.toNat / 2 ^ k % 2 = 1 := by
  have hbit := bit_of_byte byte k hk
  rw [Nat.testBit_eq_decide_div_mod_eq, decide_eq_decide] at hbit
  rw [← hbit, ← UInt8.toNat_inj.ne, ← UInt8.toNat_inj, UInt8.toNat_and]
  simp

theorem value_powBits (h : blst.Exact value) (byte : UInt8) (s : Fp2 blst.Fp × Fp2 blst.Fp)
    (hk : k ≤ 8) :
    ((List.range k).foldl (powBit blst byte) s).1.value value =
        s.1.value value * s.2.value value ^ (byte.toNat % 2 ^ k) ∧
      ((List.range k).foldl (powBit blst byte) s).2.value value = s.2.value value ^ 2 ^ k := by
  induction k with
  | zero => simp [Nat.mod_one]
  | succ k ih =>
    obtain ⟨hret, hbase⟩ := ih (Nat.le_of_succ_le hk)
    rw [List.range_succ, List.foldl_append, List.foldl_cons, List.foldl_nil, powBit, h.fp2Sqr,
      hbase]
    refine ⟨?_, by rw [← pow_mul, pow_succ]⟩
    rw [Nat.mod_pow_succ]
    by_cases hone : byte.toNat / 2 ^ k % 2 = 1
    · rw [if_pos ((bit_ne_zero_iff byte hk).mpr hone), h.fp2Mul, hret, hbase, mul_assoc, ← pow_add,
        hone, Nat.mul_one]
    · rw [if_neg (mt (bit_ne_zero_iff byte hk).mp hone), hret, Nat.mod_two_ne_one.mp hone,
        Nat.mul_zero, Nat.add_zero]

theorem value_powByte (h : blst.Exact value) (byte : UInt8) (s : Fp2 blst.Fp × Fp2 blst.Fp) :
    ((List.range 8).foldl (powBit blst byte) s).1.value value =
        s.1.value value * s.2.value value ^ byte.toNat ∧
      ((List.range 8).foldl (powBit blst byte) s).2.value value = s.2.value value ^ 256 := by
  have hbits := value_powBits h byte s (Nat.le_refl 8)
  rwa [Nat.mod_eq_of_lt byte.toNat_lt] at hbits

-- ---------------------------------------------------------------------------
-- All bytes
-- ---------------------------------------------------------------------------

/-- Turns over the `n` last of `j` bytes. -/
theorem powLoop_eq (h : blst.Exact value) (exp : Bytes) (bitLen : Int) {j n : Nat}
    (s : Fp2 blst.Fp × Fp2 blst.Fp) (hj : j ≤ exp.length) (hlen : exp.length ≤ 256) (hn : n ≤ j)
    (hlow : 8 * (n - 1 : Int) < bitLen) (hhigh : bitLen ≤ 8 * n) :
    ∃ r, powLoop blst exp bitLen (UInt8.ofNat j - 1) s = some r ∧
      r.value value = s.1.value value * s.2.value value ^ fromBE ((exp.take j).drop (j - n)) := by
  induction n generalizing bitLen j s with
  | zero =>
    refine ⟨s.1, ?_, ?_⟩
    · rw [powLoop, if_neg (by omega)]
    · simp
  | succ n ih =>
    obtain ⟨j, rfl⟩ :=
      Nat.exists_eq_succ_of_ne_zero (Nat.ne_of_gt (Nat.lt_of_lt_of_le n.succ_pos hn))
    have hback : UInt8.ofNat (j + 1) - 1 = UInt8.ofNat j := by
      rw [UInt8.ofNat_add, UInt8.ofNat_one, UInt8.add_sub_cancel]
    have hoffset : (UInt8.ofNat j).toNat = j :=
      UInt8.toNat_ofNat_of_lt' (Nat.lt_of_lt_of_le hj hlen)
    obtain ⟨hret, hbase⟩ := value_powByte h exp[j] s
    obtain ⟨r, hr, hvalue⟩ := ih (bitLen - 8) (j := j)
      ((List.range 8).foldl (powBit blst exp[j]) s) (by omega) (by omega) (by omega) (by omega)
    refine ⟨r, ?_, ?_⟩
    · rw [powLoop, if_pos (by omega), hback, hoffset, List.getElem?_eq_getElem hj]
      exact hr
    · have hsplit : (exp.take (j + 1)).drop (j + 1 - (n + 1)) = (exp.take j).drop (j - n) ++
          [exp[j]] := by
        rw [List.take_succ_eq_append_getElem hj, List.drop_append_of_le_length (by simp; omega),
          Nat.add_sub_add_right]
      rw [hvalue, hret, hbase, hsplit, fromBE_concat, ← pow_mul, mul_assoc, ← pow_add]
      congr 2
      ring

end

-- ---------------------------------------------------------------------------
-- The whole exponent
-- ---------------------------------------------------------------------------

def lowBytes (exp : Bytes) : Nat := (exp.takeWhile fun b => b &&& 0x80 = 0).length

theorem bitLengthLoop_eq (bitLen : Nat) (bs : Bytes) :
    bitLengthLoop bitLen bs = bitLen - lowBytes bs := by
  induction bs generalizing bitLen with
  | nil => rfl
  | cons b bs ih =>
    rw [bitLengthLoop, lowBytes, List.takeWhile_cons]
    by_cases hlow : b &&& 0x80 = 0
    · simp only [hlow, ne_eq, not_true_eq_false, if_false, decide_true, if_true, List.length_cons,
        ih, lowBytes]
      omega
    · simp [hlow]

theorem lowBytes_le (exp : Bytes) : lowBytes exp ≤ exp.length := (List.takeWhile_prefix _).length_le

/-- The power is by the bytes behind one in eight of the leading ones, and no other is read. -/
theorem cxBlsFp2Pow_eq {blst : Blst} {value : blst.Fp → ZMod p} (h : blst.Exact value)
    (a : Fp2 blst.Fp) (hlen : exp.length ≤ 256) :
    ∃ r, cxBlsFp2Pow blst a exp = some r ∧
      r.value value = a.value value ^ fromBE (exp.drop (lowBytes exp / 8)) := by
  have hlow := lowBytes_le exp
  obtain ⟨r, hr, hvalue⟩ := powLoop_eq h exp (cxGetBitLength exp) (j := exp.length)
    (n := exp.length - lowBytes exp / 8) (cxBlsFp2SetOne blst, cxBlsFp2Copy blst a)
      (Nat.le_refl _) hlen
    (Nat.sub_le _ _) (by rw [cxGetBitLength, bitLengthLoop_eq]; omega)
    (by rw [cxGetBitLength, bitLengthLoop_eq]; omega)
  refine ⟨r, hr, ?_⟩
  rw [hvalue, value_fp2SetOne h, one_mul, List.take_length, Nat.sub_sub_self (by omega)]
  rfl

/-- What the bytes that are left out add to the exponent. -/
def skipped (exp : Bytes) : Nat :=
  fromBE (exp.take (lowBytes exp / 8)) * 256 ^ (exp.length - lowBytes exp / 8)

theorem skipped_add (exp : Bytes) :
    skipped exp + fromBE (exp.drop (lowBytes exp / 8)) = fromBE exp := by
  have happend := fromBE_append (exp.take (lowBytes exp / 8)) (exp.drop (lowBytes exp / 8))
  rw [List.take_append_drop, List.length_drop] at happend
  exact happend.symm

/-- An element is raised to the value of the exponent where what is left out is a multiple of its
order. -/
theorem cxBlsFp2Pow_iff {blst : Blst} {value : blst.Fp → ZMod p} (h : blst.Exact value)
    (a : Fp2 blst.Fp) (exp : Bytes) (hlen : exp.length ≤ 255) :
    (∃ r, cxBlsFp2Pow blst a exp = some r ∧ r.value value = a.value value ^ fromBE exp) ↔
      if a.value value = 0 then skipped exp = 0 ∨ fromBE (exp.drop (lowBytes exp / 8)) ≠ 0
      else orderOf (a.value value) ∣ skipped exp := by
  obtain ⟨r, hr, hvalue⟩ := cxBlsFp2Pow_eq h a (Nat.le_succ_of_le hlen)
  have hsum := skipped_add exp
  have hreturned : (∃ r, cxBlsFp2Pow blst a exp = some r ∧
      r.value value = a.value value ^ fromBE exp) ↔
      a.value value ^ fromBE (exp.drop (lowBytes exp / 8)) = a.value value ^ fromBE exp := by
    simp [hr, hvalue]
  rw [hreturned]
  generalize fromBE (exp.drop (lowBytes exp / 8)) = rest at *
  split
  · rename_i hzero
    rw [hzero, ← hsum]
    by_cases hrest : rest = 0
    · simp [hrest, zero_pow_eq, eq_comm]
    · simp [hrest]
  · rename_i hne
    rw [← hsum, pow_add, orderOf_dvd_iff_pow_eq_one, eq_comm, mul_eq_right₀ (pow_ne_zero _ hne)]

/-- An exponent of ten bytes, of which none is left out. -/
def tenBytes : Bytes := [0x00, 0x11, 0x22, 0xb3, 0x44, 0x55, 0x66, 0x77, 0x88, 0x99]

theorem cxBlsFp2Pow_tenBytes :
    ∃ r, cxBlsFp2Pow .residues (Blst.residue ⟨3, 1⟩) tenBytes = some r ∧
      r.value id = (⟨3, 1⟩ : Gauss p) ^ fromBE tenBytes := by
  refine (cxBlsFp2Pow_iff exact_residues (Blst.residue ⟨3, 1⟩) tenBytes (by decide)).mpr ?_
  have hskipped : skipped tenBytes = 0 := by decide
  split
  · exact .inl hskipped
  · rw [hskipped]
    exact dvd_zero _

/-- Without the first of eight bytes, 2 is raised to 1. -/
theorem not_raised_eight :
    (∃ r, cxBlsFp2Pow .residues (Blst.residue ⟨2, 0⟩) [1, 0, 0, 0, 0, 0, 0, 1] = some r ∧
        r.value id = (⟨2, 0⟩ : Gauss p)) ∧
      ¬ ∃ r, cxBlsFp2Pow .residues (Blst.residue ⟨2, 0⟩) [1, 0, 0, 0, 0, 0, 0, 1] = some r ∧
        r.value id = (⟨2, 0⟩ : Gauss p) ^ fromBE [1, 0, 0, 0, 0, 0, 0, 1] := by
  obtain ⟨r, hr, hvalue⟩ := cxBlsFp2Pow_eq exact_residues (Blst.residue ⟨2, 0⟩)
    (by decide : List.length [1, 0, 0, 0, 0, 0, 0, (1 : UInt8)] ≤ 256)
  have hone : r.value id = (⟨2, 0⟩ : Gauss p) := hvalue.trans (pow_one _)
  have hpower : powBits (⟨2, 0⟩ : Gauss p) (fromBE [1, 0, 0, 0, 0, 0, 0, 1]) 57 ≠ ⟨2, 0⟩ := by
    decide +kernel
  rw [powBits_eq _ (by decide)] at hpower
  refine ⟨⟨r, hr, hone⟩, ?_⟩
  rintro ⟨r', hr', hraised⟩
  rw [hr] at hr'
  cases hr'
  exact hpower (hraised.symm.trans hone)

end Speculos.Bls
