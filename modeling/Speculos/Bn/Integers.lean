import Mathlib.Data.Nat.Bitwise
import Speculos.Bn.Accounting
import Speculos.Bn.CxMpi

/-!
# Sizes of integers

OpenSSL as it is documented: it computes with the integers. The size of a number is that of its
bytes, rounded up to the words of the unit, unless the words are so large that the sum wraps
around: then it is 0.
-/

namespace Speculos.Bn

open Lib

-- ---------------------------------------------------------------------------
-- OpenSSL
-- ---------------------------------------------------------------------------

/-- OpenSSL computes with the integers, and has memory for the results. -/
structure Openssl.Exact (ssl : Openssl) : Prop where
  numBytes : ∀ n : Nat, ssl.numBytes n = UInt32.ofNat (byteLength n)
  bin2bn : ∀ bytes, ssl.bin2bn bytes = .done (fromBE bytes)
  bn2bin : ∀ n : Nat, ssl.bn2bin n = toBE (byteLength n) n
  bn2binpad : ∀ (n : Nat) (len : UInt32), ssl.bn2binpad n len =
    if n < 256 ^ len.toNat then some (toBE len.toNat n) else none
  isOdd : ∀ n : Nat, ssl.isOdd n = decide (n % 2 = 1)
  isNegative : ∀ x, ssl.isNegative x = decide (x < 0)
  setNegative : ∀ x, ssl.setNegative x false = x.natAbs
  /-- An error where the number is shorter already. -/
  maskBits : ∀ (n : Nat) (k : UInt32), 2 ^ k.toNat ≤ n →
    ssl.maskBits n k = .done (n % 2 ^ k.toNat : Nat)
  lshift : ∀ (n : Nat) (k : UInt32), ssl.lshift n k = .done (n * 2 ^ k.toNat : Nat)
  add : ∀ a b : Nat, ssl.add a b = .done (a + b : Nat)
  sub : ∀ a b : Nat, ssl.sub a b = .done (a - b)
  addWord : ∀ n w : Nat, ssl.addWord n w = .done (n + w : Nat)

theorem exact_integers : Openssl.integers.Exact where
  numBytes _ := rfl
  bin2bn _ := rfl
  bn2bin _ := rfl
  bn2binpad _ _ := rfl
  isOdd n := by
    simp only [Openssl.integers, decide_eq_decide]
    omega
  isNegative _ := rfl
  setNegative _ := rfl
  maskBits _ _ _ := rfl
  lshift n k := by
    simp [Openssl.integers]
  add a b := by
    simp [Openssl.integers]
  sub _ _ := rfl
  addWord n w := by
    simp [Openssl.integers]

/-- The numbers of a `BIGNUM`, whose bits are counted by an `int`. -/
def IsBignum (n : Nat) : Prop := byteLength n < 2 ^ 28

instance (n : Nat) : Decidable (IsBignum n) := inferInstanceAs (Decidable (_ < _))

/-- The numbers of the slots, where none of them is negative. -/
def naturals (v : Slot → Nat) : Mpis := fun i => v i

-- ---------------------------------------------------------------------------
-- Bytes of a number
-- ---------------------------------------------------------------------------

theorem lt_pow_byteLength (n : Nat) : n < 256 ^ byteLength n := by
  rw [byteLength]
  split
  · rename_i hzero
    simp [hzero]
  · have hlt : n < 2 ^ (n.log2 + 1) := Nat.lt_log2_self
    have hle : 2 ^ (n.log2 + 1) ≤ 2 ^ (8 * (n.log2 / 8 + 1)) :=
      Nat.pow_le_pow_right (by decide) (by omega)
    rw [show 256 = 2 ^ 8 from rfl, ← Nat.pow_mul]
    exact Nat.lt_of_lt_of_le hlt hle

theorem byteLength_le {n w : Nat} (h : n < 256 ^ w) : byteLength n ≤ w := by
  rw [byteLength]
  split
  · exact Nat.zero_le _
  · rename_i hne
    rw [show 256 = 2 ^ 8 from rfl, ← Nat.pow_mul] at h
    have hlog : n.log2 < 8 * w := (Nat.log2_lt hne).mpr h
    omega

theorem byteLength_le_iff (n w : Nat) : byteLength n ≤ w ↔ n < 256 ^ w :=
  ⟨fun h => Nat.lt_of_lt_of_le (lt_pow_byteLength n) (Nat.pow_le_pow_right (by decide) h),
    byteLength_le⟩

theorem byteLength_mono (h : m ≤ n) : byteLength m ≤ byteLength n :=
  byteLength_le (Nat.lt_of_le_of_lt h (lt_pow_byteLength n))

theorem byteLength_add_le (m n : Nat) :
    byteLength (m + n) ≤ max (byteLength m) (byteLength n) + 1 := by
  apply byteLength_le
  have hm : m < 256 ^ max (byteLength m) (byteLength n) :=
    (byteLength_le_iff _ _).mp (Nat.le_max_left _ _)
  have hn : n < 256 ^ max (byteLength m) (byteLength n) :=
    (byteLength_le_iff _ _).mp (Nat.le_max_right _ _)
  rw [Nat.pow_succ]
  omega

-- ---------------------------------------------------------------------------
-- Sizes
-- ---------------------------------------------------------------------------

theorem toNat_and_mask (x : UInt32) :
    (x &&& ~~~(cxMpiWordByteSize - 1)).toNat = x.toNat / 16 * 16 := by
  have hmask : (~~~(cxMpiWordByteSize - 1)).toNat = 2 ^ 32 - 2 ^ 4 := rfl
  rw [UInt32.toNat_and, hmask]
  refine Nat.eq_of_testBit_eq fun i => ?_
  have hbits : (2 ^ 32 - 2 ^ 4).testBit i = (decide (i < 32) && decide (4 ≤ i)) := by
    rw [show 2 ^ 32 - 2 ^ 4 = (2 ^ 28 - 1) * 2 ^ 4 from rfl, Nat.testBit_mul_two_pow,
      Nat.testBit_two_pow_sub_one]
    by_cases h : 4 ≤ i
    · simp only [h, decide_true, Bool.true_and, Bool.and_true, decide_eq_decide]
      omega
    · simp [h]
  rw [Nat.testBit_and, hbits, show 16 = 2 ^ 4 from rfl, Nat.testBit_mul_two_pow,
    Nat.testBit_div_two_pow]
  by_cases h : 4 ≤ i
  · by_cases hlt : i < 32
    · simp [h, hlt]
    · have hx : x.toNat.testBit i = false :=
        Nat.testBit_lt_two_pow (Nat.lt_of_lt_of_le x.toNat_lt (Nat.pow_le_pow_right (by decide) (by omega)))
      simp [h, hlt, hx]
  · simp [h]

/-- The multiple of 16 that a size is rounded up to, which is not 0. -/
def roundedBytes (n : Nat) : Nat := max 16 ((n + 15) / 16 * 16)

theorem le_roundedBytes (n : Nat) : n ≤ roundedBytes n := by
  rw [roundedBytes]
  omega

theorem toNat_sizeToMpiBytes (h : size.toNat + 15 < 2 ^ 32) :
    (sizeToMpiBytes size).toNat = roundedBytes size.toNat := by
  have hsum : (size + cxMpiWordByteSize - 1).toNat = size.toNat + 15 := by
    have hadd : size + cxMpiWordByteSize - 1 = size + 15 := by
      rw [UInt32.sub_eq_add_neg, UInt32.add_assoc]
      rfl
    rw [hadd, UInt32.toNat_add]
    exact Nat.mod_eq_of_lt h
  have hmask := toNat_and_mask (size + cxMpiWordByteSize - 1)
  rw [hsum] at hmask
  rw [sizeToMpiBytes, roundedBytes]
  split
  · rename_i hzero
    rw [hzero] at hmask
    rw [← hmask]
    rfl
  · rename_i hne
    have hpos : (size.toNat + 15) / 16 * 16 ≠ 0 := by
      rw [← hmask]
      exact fun heq => hne (UInt32.toNat_inj.mp heq)
    rw [hmask]
    omega

theorem sizeToMpiBytes_mod (size : UInt32) : (sizeToMpiBytes size).toNat % 16 = 0 := by
  have hmask := toNat_and_mask (size + cxMpiWordByteSize - 1)
  rw [sizeToMpiBytes]
  split
  · rfl
  · rw [hmask]
    omega

/-- The bytes of a number in words. Where the words are almost as long as 32 bits can tell, the
sum wraps around, and it has none. -/
def wordBytes (wordSize n : Nat) : Nat :=
  if roundedBytes n + (wordSize - 1) < 2 ^ 32
    then (roundedBytes n + (wordSize - 1)) / wordSize * wordSize
  else 0

theorem toNat_sizeToMpiWordBytes {wordSize size : UInt32} (hword : wordSize ≠ 0)
    (hsize : size ≠ 0) :
    (sizeToMpiWordBytes wordSize size).toNat =
      if size.toNat + (wordSize.toNat - 1) < 2 ^ 32 then
        (size.toNat + (wordSize.toNat - 1)) / wordSize.toNat * wordSize.toNat
      else 0 := by
  have hpos : 0 < wordSize.toNat := Nat.pos_of_ne_zero fun h => hword (UInt32.toNat_inj.mp h)
  have hone : (1 : UInt32) ≤ wordSize := UInt32.le_iff_toNat_le.mpr hpos
  have hlt := size.toNat_lt
  have hsum : (size + (wordSize - 1)).toNat = (size.toNat + (wordSize.toNat - 1)) % 2 ^ 32 := by
    rw [UInt32.toNat_add, UInt32.toNat_sub_of_le _ _ hone]
    rfl
  rw [sizeToMpiWordBytes, if_neg hsize, UInt32.toNat_mul, UInt32.toNat_div, hsum]
  have hle (n : Nat) : n / wordSize.toNat * wordSize.toNat ≤ n := Nat.div_mul_le_self _ _
  split
  · rename_i h
    rw [Nat.mod_eq_of_lt h, Nat.mod_eq_of_lt (Nat.lt_of_le_of_lt (hle _) h)]
  · have hwrap : (size.toNat + (wordSize.toNat - 1)) % 2 ^ 32 < wordSize.toNat := by
      have hword32 := wordSize.toNat_lt
      omega
    rw [Nat.div_eq_of_lt hwrap, Nat.zero_mul]

/-- Words that are not too large hold the number. -/
theorem wordBytes_cases (n : Nat) (hword : 0 < wordSize) :
    roundedBytes n ≤ wordBytes wordSize n ∧ wordSize ≤ wordBytes wordSize n ∨
      2 ^ 32 ≤ roundedBytes n + (wordSize - 1) ∧ wordBytes wordSize n = 0 := by
  rw [wordBytes]
  split
  · have hround : roundedBytes n + (wordSize - 1) <
        (roundedBytes n + (wordSize - 1)) / wordSize * wordSize + wordSize :=
      Nat.lt_div_mul_add hword
    have hsixteen : 16 ≤ roundedBytes n := Nat.le_max_left _ _
    have hpos : 0 < (roundedBytes n + (wordSize - 1)) / wordSize :=
      Nat.div_pos (by omega) hword
    exact .inl ⟨by omega, Nat.le_mul_of_pos_left _ hpos⟩
  · rename_i h
    exact .inr ⟨Nat.not_lt.mp h, rfl⟩

section

variable {ssl : Openssl}

theorem toNat_cxMpiNbytes (hssl : ssl.Exact) (w : UInt32) (hn : byteLength n + 15 < 2 ^ 32) :
    (cxMpiNbytes ssl (sizeToMpiBytes w) n).toNat =
      wordBytes (sizeToMpiBytes w).toNat (byteLength n) := by
  have hlen : (ssl.numBytes n).toNat = byteLength n := by
    rw [hssl.numBytes]
    exact UInt32.toNat_ofNat_of_lt' (show byteLength n < 2 ^ 32 by omega)
  have hsize : (sizeToMpiBytes (ssl.numBytes n)).toNat = roundedBytes (byteLength n) := by
    rw [toNat_sizeToMpiBytes (by omega), hlen]
  rw [cxMpiNbytes, toNat_sizeToMpiWordBytes (sizeToMpiBytes_ne_zero w) (sizeToMpiBytes_ne_zero _),
    hsize]
  rfl

theorem sizeToMpiBytes_pos (w : UInt32) : 0 < (sizeToMpiBytes w).toNat :=
  Nat.pos_of_ne_zero fun h => sizeToMpiBytes_ne_zero w (UInt32.toNat_inj.mp h)

/-- The bytes of a number hold it, unless the words are longer than every number. -/
theorem nbytes_cases (hssl : ssl.Exact) (w : UInt32) (hn : byteLength n ≤ 2 ^ 28) :
    n < 256 ^ (cxMpiNbytes ssl (sizeToMpiBytes w) n).toNat ∧
        (sizeToMpiBytes w).toNat ≤ (cxMpiNbytes ssl (sizeToMpiBytes w) n).toNat ∨
      (cxMpiNbytes ssl (sizeToMpiBytes w) n).toNat = 0 ∧ 2 ^ 28 < (sizeToMpiBytes w).toNat := by
  rw [toNat_cxMpiNbytes hssl w (by omega), ← byteLength_le_iff]
  rcases wordBytes_cases (byteLength n) (sizeToMpiBytes_pos w) with ⟨hround, hword⟩ | ⟨hwrap, hzero⟩
  · exact .inl ⟨Nat.le_trans (le_roundedBytes _) hround, hword⟩
  · refine .inr ⟨hzero, ?_⟩
    rw [roundedBytes] at hwrap
    omega

end

-- ---------------------------------------------------------------------------
-- Arrays
-- ---------------------------------------------------------------------------

section

variable {ssl : Openssl} {wordSize : UInt32}

/-- The bytes of a number hold it, and fit the arrays of the functions. -/
structure Padded (ssl : Openssl) (wordSize : UInt32) (n : Nat) : Prop where
  inside : (cxMpiNbytes ssl wordSize n).toNat ≤ 2048
  lt : n < 256 ^ (cxMpiNbytes ssl wordSize n).toNat

theorem tooLong_iff (n : Nat) :
    tooLong ssl wordSize n = true ↔ 2048 < (cxMpiNbytes ssl wordSize n).toNat := by
  rw [tooLong, decide_eq_true_eq, UInt32.lt_iff_toNat_lt]
  rfl

theorem Padded.tooLong (h : Padded ssl wordSize n) : tooLong ssl wordSize n = false := by
  rw [Bool.eq_false_iff, ne_eq, tooLong_iff]
  exact Nat.not_lt.mpr h.inside

theorem Padded.bn2binpad (h : Padded ssl wordSize n) (hssl : ssl.Exact) :
    ssl.bn2binpad n (cxMpiNbytes ssl wordSize n) =
      some (toBE (cxMpiNbytes ssl wordSize n).toNat n) := by
  rw [hssl.bn2binpad, if_pos h.lt]

/-- No number is padded in words that are longer than the arrays. -/
theorem not_padded_of_word (hssl : ssl.Exact) (hn : byteLength n ≤ 2 ^ 28)
    (hword : 2048 < (sizeToMpiBytes w).toNat) : ¬ Padded ssl (sizeToMpiBytes w) n := by
  intro h
  rcases nbytes_cases hssl w hn with ⟨-, hle⟩ | ⟨hzero, -⟩
  · exact absurd h.inside (by omega)
  · have hlt := h.lt
    rw [hzero, Nat.pow_zero, Nat.lt_one_iff] at hlt
    subst hlt
    rw [toNat_cxMpiNbytes hssl w (by decide)] at hzero
    have hmod := sizeToMpiBytes_mod w
    have hmax := (sizeToMpiBytes w).toNat_lt
    have hround : roundedBytes (byteLength 0) = 16 := rfl
    rcases wordBytes_cases (byteLength 0) (sizeToMpiBytes_pos w) with ⟨hle, -⟩ | ⟨hwrap, -⟩
    · omega
    · omega

theorem padded_iff_of_word (hssl : ssl.Exact) (hn : byteLength n ≤ 2 ^ 28)
    (hword : (sizeToMpiBytes w).toNat ≤ 2048) :
    Padded ssl (sizeToMpiBytes w) n ↔ (cxMpiNbytes ssl (sizeToMpiBytes w) n).toNat ≤ 2048 := by
  refine ⟨fun h => h.inside, fun h => ⟨h, ?_⟩⟩
  rcases nbytes_cases hssl w hn with ⟨hlt, -⟩ | ⟨-, hlong⟩
  · exact hlt
  · omega

theorem bn2binpad_none (h : ¬ Padded ssl wordSize n) (hssl : ssl.Exact)
    (hlong : ¬ tooLong ssl wordSize n = true) :
    ssl.bn2binpad n (cxMpiNbytes ssl wordSize n) = none := by
  rw [tooLong_iff, Nat.not_lt] at hlong
  rw [hssl.bn2binpad, if_neg fun hlt => h ⟨hlong, hlt⟩]

theorem operand_cases (hssl : ssl.Exact) (wordSize : UInt32) (n : Nat) :
    (¬ Padded ssl wordSize n ∧ tooLong ssl wordSize n = true) ∨
      (¬ Padded ssl wordSize n ∧ tooLong ssl wordSize n = false ∧
        ssl.bn2binpad n (cxMpiNbytes ssl wordSize n) = none) ∨ Padded ssl wordSize n := by
  by_cases h : Padded ssl wordSize n
  · exact .inr (.inr h)
  · cases hlong : tooLong ssl wordSize n with
    | true => exact .inl ⟨h, rfl⟩
    | false => exact .inr (.inl ⟨h, rfl, bn2binpad_none h hssl (by rw [hlong]; nofun)⟩)

end

-- ---------------------------------------------------------------------------
-- Slots
-- ---------------------------------------------------------------------------

@[simp] theorem naturals_apply (v : Slot → Nat) (i : Slot) : naturals v i = v i := rfl

@[simp] theorem set_self (m : Mpis) (r : Slot) (x : Int) : m.set r x r = x :=
  Function.update_self ..

@[simp] theorem set_set (m : Mpis) (r : Slot) (x y : Int) : (m.set r x).set r y = m.set r y :=
  Function.update_idem ..

theorem naturals_set (v : Slot → Nat) (r : Slot) (n : Nat) :
    (naturals v).set r n = naturals (Function.update v r n) := by
  funext i
  by_cases hi : i = r
  · subst hi
    simp [Mpis.set]
  · simp [Mpis.set, hi]

theorem naturals_write (v : Slot → Nat) (r : Slot) (n : Nat) :
    (naturals v).write r (.done n) = (.ok, naturals (Function.update v r n)) := by
  rw [Mpis.write, Written.done, if_pos rfl, naturals_set]

theorem naturals_injective (h : naturals v = naturals v') : v = v' :=
  funext fun i => Int.ofNat.inj (congrFun h i)

end Speculos.Bn
