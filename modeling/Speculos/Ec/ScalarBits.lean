import Speculos.Ec.CxTwistedEdwards
import Speculos.Lib.BitString
import Speculos.Lib.ExtendedEdwards

/-!
# The bits of a scalar

Where the ladder of `cx_twisted_edwards_mul_point` finds its first bit. The position at which it
looks first is computed with 32 bits, so that a scalar of more than 2²⁹ bytes is read from one
of its last 2²⁹ bytes on, and only from the first of them where no bit is set from there down.
-/

namespace Speculos.Ec

open Lib

variable {k : Bytes}

/-- The number in the last `n` bytes. -/
def tailValue (k : Bytes) (n : Nat) : Nat := fromBE (k.drop (k.length - n))

/-- The number of which the ladder takes the bits. -/
def scanned (k : Bytes) : Nat :=
  let first := (k.length - 1) % 2 ^ 29 + 1
  if tailValue k first ≠ 0 then tailValue k first else tailValue k (2 ^ 29)

theorem tailValue_length (k : Bytes) : tailValue k k.length = fromBE k := by
  rw [tailValue, Nat.sub_self, List.drop_zero]

/-- The whole scalar, as long as it has 2²⁹ bytes at most. -/
theorem scanned_of_short (hpos : 0 < k.length) (hshort : k.length ≤ 2 ^ 29) (hk : fromBE k ≠ 0) :
    scanned k = fromBE k := by
  have hfirst : (k.length - 1) % 2 ^ 29 + 1 = k.length := by
    rw [Nat.mod_eq_of_lt (by omega)]
    omega
  rw [scanned, hfirst, tailValue_length, if_pos hk]

-- ---------------------------------------------------------------------------
-- Bits of bytes
-- ---------------------------------------------------------------------------

theorem getBit_eq (h : pos < 8 * k.length) : getBit k pos = (fromBE k).testBit pos := by
  have hbyte : pos / 8 < k.reverse.length := by
    rw [List.length_reverse]
    omega
  have hLE : fromBE k = fromLE k.reverse := by rw [fromLE, List.reverse_reverse]
  rw [hLE, testBit_fromLE, stringBit, getBit, bit_of_byte _ _ (Nat.mod_lt _ (by decide)),
    List.getD_eq_getElem _ _ hbyte, List.getElem_reverse, List.getD_eq_getElem]

theorem tailValue_lt (hn : n ≤ k.length) : tailValue k n < 2 ^ (8 * n) := by
  have hlt := fromBE_lt (k.drop (k.length - n))
  rwa [List.length_drop, Nat.sub_sub_self hn, show 256 = 2 ^ 8 from rfl, ← Nat.pow_mul] at hlt

theorem testBit_tailValue (hn : n ≤ k.length) (h : pos < 8 * n) :
    (tailValue k n).testBit pos = getBit k pos := by
  have hsplit := fromBE_append (k.take (k.length - n)) (k.drop (k.length - n))
  have hlength : (k.drop (k.length - n)).length = n := by
    rw [List.length_drop]
    omega
  rw [List.take_append_drop, hlength, show 256 = 2 ^ 8 from rfl, ← Nat.pow_mul] at hsplit
  change fromBE k = _ + tailValue k n at hsplit
  rw [getBit_eq (by omega), hsplit, Nat.mul_comm, Nat.testBit_two_pow_mul_add _ (tailValue_lt hn),
    if_pos h]

-- ---------------------------------------------------------------------------
-- The first bit
-- ---------------------------------------------------------------------------

theorem findBit_skip (n fuel : Nat) (pos : UInt32) (hle : n ≤ pos.toNat + 1)
    (h : ∀ j, pos.toNat < j + n → j ≤ pos.toNat → getBit k j = false) :
    findBit k (n + fuel) pos = findBit k fuel (pos - UInt32.ofNat n) := by
  induction n generalizing pos with
  | zero => simp
  | succ n ih =>
    have hbit : getBit k pos.toNat = false := h _ (by omega) (Nat.le_refl _)
    have hsub : pos - UInt32.ofNat (n + 1) = pos - 1 - UInt32.ofNat n := by
      rw [UInt32.ofNat_add, sub_sub, add_comm]
      rfl
    rw [Nat.add_right_comm, findBit, hbit, if_neg Bool.false_ne_true, hsub]
    cases n with
    | zero => simp
    | succ n =>
      have hone : (1 : UInt32) ≤ pos := UInt32.le_iff_toNat_le.mpr (by
        rw [UInt32.toNat_one]
        omega)
      have hpred : (pos - 1).toNat = pos.toNat - 1 := UInt32.toNat_sub_of_le _ _ hone
      exact ih _ (by omega) fun j hj hle => h j (by omega) (by omega)

theorem findBit_found {fuel : Nat} {pos r : UInt32} (hr : getBit k r.toNat = true)
    (hle : r ≤ pos) (hfuel : pos.toNat - r.toNat < fuel)
    (h : ∀ j, r.toNat < j → j ≤ pos.toNat → getBit k j = false) : findBit k fuel pos = some r := by
  obtain ⟨fuel, rfl⟩ := Nat.exists_eq_add_of_lt hfuel
  have hleNat := UInt32.le_iff_toNat_le.mp hle
  have hsub : pos - UInt32.ofNat (pos.toNat - r.toNat) = r := by
    rw [← UInt32.toNat_sub_of_le _ _ hle, UInt32.ofNat_toNat, sub_sub_cancel]
  rw [Nat.add_assoc, findBit_skip _ _ _ (by omega) (fun j hj hjle => h j (by omega) hjle), hsub,
    findBit, if_pos hr]

theorem exists_highest (hv : v ≠ 0) : ∃ r, v.testBit r = true ∧
    (∀ j, r < j → v.testBit j = false) ∧ 2 ^ r ≤ v ∧ v = 2 ^ r + v % 2 ^ r := by
  have hle := Nat.log2_self_le hv
  have hlt : v < 2 ^ (v.log2 + 1) := Nat.lt_log2_self
  refine ⟨v.log2, Nat.testBit_of_two_pow_le_and_two_pow_add_one_gt hle hlt, fun j hj => ?_, hle, ?_⟩
  · exact Nat.testBit_lt_two_pow (Nat.lt_of_lt_of_le hlt (Nat.pow_le_pow_right (by decide) hj))
  · rw [Nat.pow_succ] at hlt
    rw [Nat.mod_eq_sub_mod hle, Nat.mod_eq_of_lt (by omega)]
    omega

/-- Where a bit is set among the last bytes, the bits from there on are theirs. -/
theorem bits_of_tail (hn : n ≤ k.length) (hv : tailValue k n ≠ 0) {pos : UInt32}
    (hpos : pos.toNat + 1 = 8 * n) (fuel : Nat)
    (hfuel : ∀ r, (tailValue k n).testBit r = true → pos.toNat - r < fuel) :
    ∃ r, findBit k fuel pos = some r ∧
      TwistedEdwards.climb 1 ((List.range r.toNat).reverse.map (getBit k)) = tailValue k n := by
  obtain ⟨r, hset, hclear, hle, hsplit⟩ := exists_highest hv
  have hlt : r < 8 * n :=
    (Nat.pow_lt_pow_iff_right (by decide)).mp (Nat.lt_of_le_of_lt hle (tailValue_lt hn))
  have hr : (UInt32.ofNat r).toNat = r := by
    refine UInt32.toNat_ofNat_of_lt' ?_
    have hmax := pos.toNat_lt
    change r < 2 ^ 32
    omega
  refine ⟨UInt32.ofNat r, findBit_found ?_ ?_ ?_ fun j hj hjpos => ?_, ?_⟩
  · rw [hr, ← testBit_tailValue hn hlt, hset]
  · rw [UInt32.le_iff_toNat_le, hr]
    omega
  · rw [hr]
    exact hfuel r hset
  · rw [hr] at hj
    rw [← testBit_tailValue hn (by omega), hclear j hj]
  · have hbits : (List.range r).reverse.map (getBit k) =
        (List.range r).reverse.map (tailValue k n).testBit := by
      refine List.map_congr_left fun j hj => ?_
      rw [List.mem_reverse, List.mem_range] at hj
      rw [testBit_tailValue hn (by omega)]
    rw [hr, hbits, TwistedEdwards.climb_testBit, Nat.one_mul, ← hsplit]

theorem findBit_of_tail_zero (hn : n ≤ k.length) (hv : tailValue k n = 0) {pos : UInt32}
    (hpos : pos.toNat + 1 = 8 * n) (hle : m ≤ 8 * n) (fuel : Nat) :
    findBit k (m + fuel) pos = findBit k fuel (pos - UInt32.ofNat m) := by
  refine findBit_skip _ _ _ (by omega) fun j _ hj => ?_
  rw [← testBit_tailValue hn (by omega), hv, Nat.zero_testBit]

/-- The loop ends where the number is not zero that it looks at. -/
theorem ladderBits_cases (hk : fromBE k ≠ 0) (hlen : k.length < 2 ^ 32) :
    scanned k = 0 ∧ ladderBits k = none ∨
      scanned k ≠ 0 ∧ ∃ bits, ladderBits k = some bits ∧
      TwistedEdwards.climb 1 bits = scanned k := by
  have hpos : 0 < k.length := by
    rw [List.length_pos_iff]
    rintro rfl
    exact hk rfl
  have hmod := Nat.mod_le (k.length - 1) (2 ^ 29)
  have hmodlt := Nat.mod_lt (k.length - 1) (Nat.two_pow_pos 29)
  have hstart : (UInt32.ofNat k.length * 8 - 1).toNat + 1 = 8 * ((k.length - 1) % 2 ^ 29 + 1) := by
    rw [UInt32.toNat_sub, UInt32.toNat_mul, UInt32.toNat_ofNat_of_lt' hlen]
    change (2 ^ 32 - 1 + k.length * 8 % 2 ^ 32) % 2 ^ 32 + 1 = _
    omega
  rw [scanned, ladderBits]
  generalize hfirst : (k.length - 1) % 2 ^ 29 + 1 = first at hstart ⊢
  generalize UInt32.ofNat k.length * 8 - 1 = start at hstart ⊢
  by_cases hv : tailValue k first = 0
  · rw [if_neg (not_not.mpr hv)]
    -- there are more bytes than the position can tell
    have hlong : 2 ^ 29 ≤ k.length := by
      by_contra hshort
      have hall : first = k.length := by
        rw [← hfirst, Nat.mod_eq_of_lt (by omega)]
        omega
      rw [hall, tailValue_length] at hv
      exact hk hv
    have hwrap : (start - UInt32.ofNat (8 * first)).toNat + 1 = 8 * 2 ^ 29 := by
      rw [UInt32.toNat_sub, UInt32.toNat_ofNat']
      omega
    have hskip := findBit_of_tail_zero (by omega) hv hstart (Nat.le_refl _) (2 ^ 32 - 8 * first)
    rw [Nat.add_sub_cancel' (by omega)] at hskip
    rw [hskip]
    by_cases hall : tailValue k (2 ^ 29) = 0
    · have hnone := findBit_of_tail_zero (m := 2 ^ 32 - 8 * first) hlong hall hwrap (by omega) 0
      rw [Nat.add_zero] at hnone
      rw [hnone]
      exact .inl ⟨hall, rfl⟩
    · obtain ⟨r, hr, hclimb⟩ := bits_of_tail hlong hall hwrap (2 ^ 32 - 8 * first) fun r hr => by
        have hge : 8 * first ≤ r := by
          by_contra hlow
          rw [testBit_tailValue hlong (by omega),
            ← testBit_tailValue (n := first) (by omega) (by omega), hv, Nat.zero_testBit] at hr
          exact Bool.false_ne_true hr
        have hlt : r < 8 * 2 ^ 29 := by
          by_contra hhigh
          rw [Nat.testBit_lt_two_pow (Nat.lt_of_lt_of_le (tailValue_lt hlong)
            (Nat.pow_le_pow_right (by decide) (Nat.not_lt.mp hhigh)))] at hr
          exact Bool.false_ne_true hr
        omega
      exact .inr ⟨hall, _, by rw [hr, Option.map_some], hclimb⟩
  · rw [if_pos hv]
    obtain ⟨r, hr, hclimb⟩ := bits_of_tail (by omega) hv hstart (2 ^ 32) fun r _ => by omega
    exact .inr ⟨hv, _, by rw [hr, Option.map_some], hclimb⟩

end Speculos.Ec
