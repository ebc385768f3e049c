import Speculos.Bn.Integers
import Speculos.Lib.Bytewise

/-!
# Sums and differences

`cx_mpi_add` cuts the sum to the bytes of its operands, and takes their sizes behind the
addition, where the result may have replaced one of them. `cx_mpi_sub` complements a difference
below 0 over the bytes of the difference.
-/

namespace Speculos.Bn

open Lib

variable {ssl : Openssl} {w : UInt32} {v : Slot → Nat} {r a b : Slot}

def operandBytes (ssl : Openssl) (wordSize : UInt32) (v : Slot → Nat) (a b : Slot) : Nat :=
  max (cxMpiNbytes ssl wordSize (v a)).toNat (cxMpiNbytes ssl wordSize (v b)).toNat

theorem toNat_maxNbytes (ssl : Openssl) (wordSize : UInt32) (v : Slot → Nat) (a b : Slot) :
    (maxNbytes ssl wordSize (v a) (v b)).toNat = operandBytes ssl wordSize v a b := by
  rw [maxNbytes, operandBytes]
  split
  · rename_i hlt
    rw [Nat.max_eq_right (Nat.le_of_lt (UInt32.lt_iff_toNat_lt.mp hlt))]
  · rename_i hge
    rw [Nat.max_eq_left (Nat.not_lt.mp (mt UInt32.lt_iff_toNat_lt.mpr hge))]

-- ---------------------------------------------------------------------------
-- Sums
-- ---------------------------------------------------------------------------

/-- The sum of the numbers before the call, cut to the bytes of the operands. -/
def Adds (ssl : Openssl) (wordSize : UInt32) (v : Slot → Nat) (r a b : Slot) : Prop :=
  let len := operandBytes ssl wordSize v a b
  cxMpiAdd ssl wordSize r a b (naturals v) =
    (if 256 ^ len ≤ v a + v b then .carry else .ok,
      naturals (Function.update v r ((v a + v b) % 256 ^ len)))

/-- The bytes of the operands once the result has replaced one of them. -/
def operandBytesAfter (ssl : Openssl) (wordSize : UInt32) (v : Slot → Nat) (r a b : Slot) : Nat :=
  operandBytes ssl wordSize (Function.update v r (v a + v b)) a b

theorem pow_256 (len : Nat) : 2 ^ (8 * len) = 256 ^ len := Nat.pow_mul 2 8 len

theorem byteLength_sum_le (ha : IsBignum m) (hb : IsBignum n) : byteLength (m + n) ≤ 2 ^ 28 := by
  have hle := byteLength_add_le m n
  rw [IsBignum] at ha hb
  omega

theorem numBytes_gt_iff (hssl : ssl.Exact) (wordSize : UInt32) (u : Slot → Nat) (a b : Slot)
    (hn : byteLength n ≤ 2 ^ 28) :
    ssl.numBytes n > maxNbytes ssl wordSize (u a) (u b) ↔
    256 ^ operandBytes ssl wordSize u a b ≤ n := by
  have hnum : (ssl.numBytes n).toNat = byteLength n := by
    rw [hssl.numBytes]
    exact UInt32.toNat_ofNat_of_lt' (show _ < 2 ^ 32 by omega)
  rw [gt_iff_lt, UInt32.lt_iff_toNat_lt, hnum, toNat_maxNbytes, ← Nat.not_le, byteLength_le_iff,
    Nat.not_lt]

theorem maskBits_eq (hssl : ssl.Exact) (wordSize : UInt32) (u : Slot → Nat) (a b : Slot)
    (hn : byteLength n ≤ 2 ^ 28) (hle : 256 ^ operandBytes ssl wordSize u a b ≤ n) :
    ssl.maskBits n (8 * maxNbytes ssl wordSize (u a) (u b)) =
      .done (n % 256 ^ operandBytes ssl wordSize u a b : Nat) := by
  have hlen : operandBytes ssl wordSize u a b < 2 ^ 28 := by
    have hlt := mt (byteLength_le_iff n _).mp (Nat.not_lt.mpr hle)
    omega
  have hbits : (8 * maxNbytes ssl wordSize (u a) (u b)).toNat =
      8 * operandBytes ssl wordSize u a b := by
    rw [UInt32.toNat_mul, toNat_maxNbytes]
    exact Nat.mod_eq_of_lt (show 8 * operandBytes ssl wordSize u a b < 2 ^ 32 by omega)
  have hmask := hssl.maskBits n (8 * maxNbytes ssl wordSize (u a) (u b))
  rw [hbits, pow_256] at hmask
  exact hmask hle

theorem cxMpiAdd_eq (hssl : ssl.Exact) (wordSize : UInt32) (ha : IsBignum (v a))
    (hb : IsBignum (v b)) :
    let len := operandBytesAfter ssl wordSize v r a b
    cxMpiAdd ssl wordSize r a b (naturals v) =
      (if 256 ^ len ≤ v a + v b then .carry else .ok,
        naturals (Function.update v r ((v a + v b) % 256 ^ len))) := by
  intro len
  have hlong := byteLength_sum_le ha hb
  have hcmp := numBytes_gt_iff hssl wordSize (Function.update v r (v a + v b)) a b hlong
  unfold cxMpiAdd
  simp only [naturals_apply, hssl.add, Written.done, naturals_set, Function.update_self]
  rw [if_neg (not_not.mpr trivial)]
  by_cases hcarry : 256 ^ len ≤ v a + v b
  · rw [if_pos (hcmp.mpr hcarry), if_pos hcarry, maskBits_eq hssl wordSize _ a b hlong hcarry,
      Written.done, if_pos rfl, naturals_set, Function.update_idem]
    rfl
  · rw [if_neg (mt hcmp.mp hcarry), if_neg hcarry, Nat.mod_eq_of_lt (Nat.not_le.mp hcarry)]

/-- Where the sum fits, or both lengths are 0, both cuts are the same. -/
def SumKept (ssl : Openssl) (wordSize : UInt32) (v : Slot → Nat) (r a b : Slot) : Prop :=
  v a + v b < 256 ^ operandBytes ssl wordSize v a b ∧
      v a + v b < 256 ^ operandBytesAfter ssl wordSize v r a b ∨
    operandBytes ssl wordSize v a b = 0 ∧ operandBytesAfter ssl wordSize v r a b = 0

theorem operandBytesAfter_of_ne (ssl : Openssl) (wordSize : UInt32) (v : Slot → Nat) (ha : r ≠ a)
    (hb : r ≠ b) : operandBytesAfter ssl wordSize v r a b = operandBytes ssl wordSize v a b := by
  rw [operandBytesAfter, operandBytes, operandBytes, Function.update_of_ne ha.symm,
    Function.update_of_ne hb.symm]

/-- A number that does not fit one of the operands, which it is, shows that the words are longer
than every number. -/
theorem word_lt_of_le (hssl : ssl.Exact) (w : UInt32) (hn : byteLength n ≤ 2 ^ 28)
    (hmem : u a = n ∨ u b = n) (hle : 256 ^ operandBytes ssl (sizeToMpiBytes w) u a b ≤ n) :
    2 ^ 28 < (sizeToMpiBytes w).toNat := by
  have hown : (cxMpiNbytes ssl (sizeToMpiBytes w) n).toNat ≤
      operandBytes ssl (sizeToMpiBytes w) u a b := by
    rcases hmem with rfl | rfl
    · exact Nat.le_max_left _ _
    · exact Nat.le_max_right _ _
  rcases nbytes_cases hssl w hn with ⟨hlt, -⟩ | ⟨-, hword⟩
  · exact absurd (Nat.le_trans (Nat.pow_le_pow_right (by decide) hown) hle) (Nat.not_le.mpr hlt)
  · exact hword

/-- Words that are longer than every number hold it, or wrap around to no bytes. -/
theorem operandBytes_eq_zero (hssl : ssl.Exact) (hword : 2 ^ 28 < (sizeToMpiBytes w).toNat)
    (ha : byteLength (u a) ≤ 2 ^ 28) (hb : byteLength (u b) ≤ 2 ^ 28) (hn : byteLength n ≤ 2 ^ 28)
    (hle : 256 ^ operandBytes ssl (sizeToMpiBytes w) u a b ≤ n) :
    operandBytes ssl (sizeToMpiBytes w) u a b = 0 := by
  have hshort : operandBytes ssl (sizeToMpiBytes w) u a b < (sizeToMpiBytes w).toNat := by
    have hlt := mt (byteLength_le_iff n _).mp (Nat.not_lt.mpr hle)
    omega
  rw [operandBytes] at hshort ⊢
  rcases nbytes_cases hssl w ha with ⟨-, hlong⟩ | ⟨hzero, -⟩
  · omega
  · rcases nbytes_cases hssl w hb with ⟨-, hlong⟩ | ⟨hzero', -⟩
    · omega
    · rw [hzero, hzero', Nat.max_self]

/-- A sum is cut as it should be where its place is none of the operands, or where nothing is
cut. -/
theorem adds_iff (hssl : ssl.Exact) (w : UInt32) (v : Slot → Nat) (r a b : Slot)
    (ha : IsBignum (v a)) (hb : IsBignum (v b)) :
    Adds ssl (sizeToMpiBytes w) v r a b ↔
      r ≠ a ∧ r ≠ b ∨ SumKept ssl (sizeToMpiBytes w) v r a b := by
  have heq := cxMpiAdd_eq (r := r) hssl (sizeToMpiBytes w) ha hb
  dsimp only at heq
  rw [Adds, heq, Prod.mk.injEq]
  have hlong : byteLength (v a + v b) ≤ 2 ^ 28 := byteLength_sum_le ha hb
  constructor
  · rintro ⟨herror, hvalue⟩
    by_cases hne : r ≠ a ∧ r ≠ b
    · exact .inl hne
    · have hmem : Function.update v r (v a + v b) a = v a + v b ∨
          Function.update v r (v a + v b) b = v a + v b := by
        rw [not_and_or, not_not, not_not] at hne
        rcases hne with rfl | rfl
        · exact .inl (Function.update_self ..)
        · exact .inr (Function.update_self ..)
      by_cases hcut : 256 ^ operandBytesAfter ssl (sizeToMpiBytes w) v r a b ≤ v a + v b
      · have hword := word_lt_of_le hssl w hlong hmem hcut
        have hbefore : 256 ^ operandBytes ssl (sizeToMpiBytes w) v a b ≤ v a + v b := by
          by_contra hfits
          rw [if_pos hcut, if_neg hfits] at herror
          cases herror
        have hshort (i : Slot) (hi : IsBignum (v i)) :
            byteLength (Function.update v r (v a + v b) i) ≤ 2 ^ 28 := by
          by_cases hir : i = r
          · rw [hir, Function.update_self]
            exact hlong
          · rw [Function.update_of_ne hir]
            exact Nat.le_of_lt hi
        exact .inr (.inr ⟨operandBytes_eq_zero hssl hword (Nat.le_of_lt ha) (Nat.le_of_lt hb) hlong hbefore,
          operandBytes_eq_zero hssl hword (hshort a ha) (hshort b hb) hlong hcut⟩)
      · have hfits : ¬ 256 ^ operandBytes ssl (sizeToMpiBytes w) v a b ≤ v a + v b := by
          intro hbefore
          rw [if_neg hcut, if_pos hbefore] at herror
          cases herror
        exact .inr (.inl ⟨Nat.not_le.mp hfits, Nat.not_le.mp hcut⟩)
  · rintro (⟨hra, hrb⟩ | hkept)
    · rw [operandBytesAfter_of_ne ssl _ v hra hrb]
      exact ⟨rfl, rfl⟩
    · rcases hkept with ⟨hbefore, hafter⟩ | ⟨hbefore, hafter⟩
      · rw [if_neg (Nat.not_le.mpr hbefore), if_neg (Nat.not_le.mpr hafter),
          Nat.mod_eq_of_lt hbefore, Nat.mod_eq_of_lt hafter]
        exact ⟨rfl, rfl⟩
      · rw [hbefore, hafter]
        exact ⟨rfl, rfl⟩

/-- 2^128 - 1 and 1, in words of 16 bytes. -/
def carrying : Slot → Nat := fun i => if i = 0 then 2 ^ 128 - 1 else 1

theorem adds_carrying : Adds .integers (sizeToMpiBytes 16) carrying 2 0 1 :=
  (adds_iff exact_integers 16 carrying 2 0 1 (by decide) (by decide)).mpr (.inl (by decide))

/-- In place, the sum is not cut, and no carry is told. -/
theorem not_adds_inPlace : ¬ Adds .integers (sizeToMpiBytes 16) carrying 0 0 1 := by
  intro h
  have herror : CxErr.ok = .carry := congrArg Prod.fst h
  cases herror

-- ---------------------------------------------------------------------------
-- Differences
-- ---------------------------------------------------------------------------

/-- The difference of the numbers before the call, in as many bytes as the operands have. -/
def Subtracts (ssl : Openssl) (wordSize : UInt32) (v : Slot → Nat) (r a b : Slot) : Prop :=
  let len := operandBytes ssl wordSize v a b
  cxMpiSub ssl wordSize r a b (naturals v) =
    (if v a < v b then .carry else .ok,
      naturals (Function.update v r (((v a - v b : Int) % 256 ^ len).toNat)))

theorem cxMpiNot_padded (hssl : ssl.Exact) {wordSize : UInt32} (h : Padded ssl wordSize (v x)) :
    cxMpiNot ssl wordSize x (naturals v) =
      (.ok, naturals (Function.update v x (256 ^ (cxMpiNbytes ssl wordSize (v x)).toNat - 1 - v x))) := by
  have hnot := fromBE_map_not (toBE (cxMpiNbytes ssl wordSize (v x)).toNat (v x))
  rw [fromBE_toBE_of_lt h.lt, length_toBE] at hnot
  have hvalue : fromBE ((toBE (cxMpiNbytes ssl wordSize (v x)).toNat (v x)).map (~~~ ·)) =
      256 ^ (cxMpiNbytes ssl wordSize (v x)).toNat - 1 - v x := by
    omega
  rw [cxMpiNot, naturals_apply, h.tooLong, if_neg Bool.false_ne_true, h.bn2binpad hssl]
  dsimp only
  rw [hssl.bin2bn, hvalue, Mpis.write, Written.done, if_pos rfl, naturals_set]

theorem cxMpiNeg_padded (hssl : ssl.Exact) {wordSize : UInt32} (h : Padded ssl wordSize (v x)) :
    cxMpiNeg ssl wordSize x (naturals v) =
      (.ok, naturals (Function.update v x (256 ^ (cxMpiNbytes ssl wordSize (v x)).toNat - v x))) := by
  have hinc : 256 ^ (cxMpiNbytes ssl wordSize (v x)).toNat - 1 - v x + 1 =
      256 ^ (cxMpiNbytes ssl wordSize (v x)).toNat - v x := by
    have hlt := h.lt
    omega
  rw [cxMpiNeg, cxMpiNot_padded hssl h]
  dsimp only
  rw [if_neg (not_not.mpr rfl), cxMpiInc, naturals_apply, Function.update_self, hssl.addWord, hinc,
    Mpis.write, Written.done, if_pos rfl, naturals_set, Function.update_idem]

theorem cxMpiNeg_not_padded (hssl : ssl.Exact) {wordSize : UInt32}
    (h : ¬ Padded ssl wordSize (v x)) :
    (cxMpiNeg ssl wordSize x (naturals v)).1 ≠ .ok ∧ (cxMpiNeg ssl wordSize x (naturals v)).1 ≠
      .carry := by
  rw [cxMpiNeg, cxMpiNot, naturals_apply]
  by_cases hlong : tooLong ssl wordSize (v x) = true
  · rw [if_pos hlong]
    exact ⟨nofun, nofun⟩
  · rw [if_neg hlong, bn2binpad_none h hssl hlong]
    exact ⟨nofun, nofun⟩

theorem cxMpiSub_of_le (hssl : ssl.Exact) (wordSize : UInt32) (hle : v b ≤ v a) :
    cxMpiSub ssl wordSize r a b (naturals v) =
      (.ok, naturals (Function.update v r (v a - v b))) := by
  have hdiff : (v a - v b : Int) = (v a - v b : Nat) := (Int.ofNat_sub hle).symm
  have hpositive : ¬ ((v a - v b : Nat) : Int) < 0 := by omega
  simp only [cxMpiSub, naturals_apply, hssl.sub, Written.done, hdiff, naturals_set,
    Function.update_self, hssl.isNegative]
  simp [hpositive]

/-- What is complemented: the difference, cut to the bytes of the operands behind the
subtraction. -/
def borrowed (ssl : Openssl) (wordSize : UInt32) (v : Slot → Nat) (r a b : Slot) : Nat :=
  let len := operandBytes ssl wordSize (Function.update v r (v b - v a)) a b
  if 256 ^ len ≤ v b - v a then (v b - v a) % 256 ^ len else v b - v a

theorem cxMpiSub_of_lt (hssl : ssl.Exact) (wordSize : UInt32) (hlt : v a < v b)
    (hb : IsBignum (v b)) :
    let negated := cxMpiNeg ssl wordSize r
      (naturals (Function.update v r (borrowed ssl wordSize v r a b)))
    cxMpiSub ssl wordSize r a b (naturals v) =
      (if negated.1 = .ok then .carry else negated.1, negated.2) := by
  intro negated
  have habs : (v a - v b : Int).natAbs = v b - v a := by omega
  have hnegative : (v a - v b : Int) < 0 := by omega
  have hlong : byteLength (v b - v a) ≤ 2 ^ 28 :=
    Nat.le_of_lt (Nat.lt_of_le_of_lt (byteLength_mono (Nat.sub_le (v b) (v a))) hb)
  have hcmp := numBytes_gt_iff hssl wordSize (Function.update v r (v b - v a)) a b hlong
  have hmasked : (if ssl.numBytes (v b - v a : Nat) > maxNbytes ssl wordSize
        (Function.update v r (v b - v a) a) (Function.update v r (v b - v a) b) then
      (naturals (Function.update v r (v b - v a))).write r (ssl.maskBits (v b - v a : Nat)
        (8 * maxNbytes ssl wordSize (Function.update v r (v b - v a) a)
          (Function.update v r (v b - v a) b)))
      else (.ok, naturals (Function.update v r (v b - v a)))) =
      (.ok, naturals (Function.update v r (borrowed ssl wordSize v r a b))) := by
    rw [borrowed]
    by_cases hcut : 256 ^ operandBytes ssl wordSize (Function.update v r (v b - v a)) a b ≤
      v b - v a
    · rw [if_pos (hcmp.mpr hcut), if_pos hcut, maskBits_eq hssl wordSize _ a b hlong hcut,
        Mpis.write, Written.done, if_pos rfl, naturals_set, Function.update_idem]
    · rw [if_neg (mt hcmp.mp hcut), if_neg hcut]
  simp only [cxMpiSub, naturals_apply, hssl.sub, Written.done, set_self, hssl.isNegative, hnegative,
    subBorrow, hssl.setNegative, habs, set_set, naturals_set, hmasked]
  rw [if_neg (not_not.mpr trivial), decide_true, if_pos rfl, if_neg (not_not.mpr rfl)]

theorem byteLength_borrowed_le (hb : IsBignum (v b)) :
    byteLength (borrowed ssl wordSize v r a b) ≤ 2 ^ 28 := by
  have hle : borrowed ssl wordSize v r a b ≤ v b := by
    rw [borrowed]
    split
    · exact Nat.le_trans (Nat.mod_le _ _) (Nat.sub_le _ _)
    · exact Nat.sub_le _ _
  exact Nat.le_of_lt (Nat.lt_of_le_of_lt (byteLength_mono hle) hb)

theorem borrowed_eq (hssl : ssl.Exact) (hword : (sizeToMpiBytes w).toNat ≤ 2 ^ 28)
    (hb : IsBignum (v b)) :
    borrowed ssl (sizeToMpiBytes w) v r a b = v b - v a := by
  have hle : v b - v a ≤ v b := Nat.sub_le _ _
  rw [borrowed]
  split
  · rename_i hcut
    exfalso
    by_cases hrb : r = b
    · subst hrb
      have hlong := Nat.le_of_lt (Nat.lt_of_le_of_lt (byteLength_mono hle) hb)
      have hlt := word_lt_of_le hssl w hlong (.inr (Function.update_self ..)) hcut
      omega
    · rcases nbytes_cases hssl w (Nat.le_of_lt hb) with ⟨hlt, -⟩ | ⟨-, hlong⟩
      · have hown : (cxMpiNbytes ssl (sizeToMpiBytes w) (v b)).toNat ≤
            operandBytes ssl (sizeToMpiBytes w) (Function.update v r (v b - v a)) a b := by
          rw [operandBytes, Function.update_of_ne (Ne.symm hrb)]
          exact Nat.le_max_right _ _
        have hpow := Nat.pow_le_pow_right (show 0 < 256 by decide) hown
        omega
      · omega
  · rfl

theorem pow_sub_eq_iff (hd : d < 256 ^ n) (hd' : d < 256 ^ len) :
    256 ^ n - d = 256 ^ len - d ↔ n = len := by
  constructor
  · intro h
    have hpow : 256 ^ n = 256 ^ len := by omega
    exact Nat.pow_right_injective (show 2 ≤ 256 by decide) hpow
  · rintro rfl
    rfl

theorem emod_of_lt {x y : Nat} (hlt : x < y) (hfits : y < 256 ^ len) :
    (((x - y : Int) % 256 ^ len).toNat) = 256 ^ len - (y - x) := by
  have hpow : ((256 ^ len : Nat) : Int) = 256 ^ len := by simp
  have hsum : (x - y : Int) % 256 ^ len = (x - y + 256 ^ len : Int) % 256 ^ len :=
    (Int.add_emod_right _ _).symm
  rw [hsum, ← hpow, Int.emod_eq_of_lt (by omega) (by omega)]
  omega

theorem naturals_update_inj (v : Slot → Nat) (r : Slot) (m n : Nat) :
    naturals (Function.update v r m) = naturals (Function.update v r n) ↔ m = n := by
  constructor
  · intro h
    have hr := congrFun (naturals_injective h) r
    rwa [Function.update_self, Function.update_self] at hr
  · rintro rfl
    rfl

theorem operandBytes_of_word (hssl : ssl.Exact) (hword : 2048 < (sizeToMpiBytes w).toNat)
    (ha : IsBignum (v a)) (hb : IsBignum (v b))
    (hpos : 0 < operandBytes ssl (sizeToMpiBytes w) v a b) :
    2048 < operandBytes ssl (sizeToMpiBytes w) v a b := by
  rw [operandBytes] at hpos ⊢
  rcases nbytes_cases hssl w (Nat.le_of_lt ha) with ⟨-, hlong⟩ | ⟨hzero, -⟩
  · omega
  · rcases nbytes_cases hssl w (Nat.le_of_lt hb) with ⟨-, hlong⟩ | ⟨hzero', -⟩
    · omega
    · omega

/-- A difference below 0 is right where it has as many bytes as the operands, which fit the
arrays. -/
theorem subtracts_of_lt (hssl : ssl.Exact) (hlt : v a < v b) (ha : IsBignum (v a))
    (hb : IsBignum (v b)) :
    Subtracts ssl (sizeToMpiBytes w) v r a b ↔
      (cxMpiNbytes ssl (sizeToMpiBytes w) (v b - v a : Nat)).toNat =
          operandBytes ssl (sizeToMpiBytes w) v a b ∧
        0 < operandBytes ssl (sizeToMpiBytes w) v a b ∧
        operandBytes ssl (sizeToMpiBytes w) v a b ≤ 2048 := by
  have hsub := cxMpiSub_of_lt (r := r) hssl (sizeToMpiBytes w) hlt hb
  have hlong : byteLength (v b - v a) ≤ 2 ^ 28 :=
    Nat.le_of_lt (Nat.lt_of_le_of_lt (byteLength_mono (Nat.sub_le (v b) (v a))) hb)
  have hrefused (h : ¬ Padded ssl (sizeToMpiBytes w)
      (Function.update v r (borrowed ssl (sizeToMpiBytes w) v r a b) r)) :
      ¬ Subtracts ssl (sizeToMpiBytes w) v r a b := by
    intro hsubtracts
    obtain ⟨hok, hcarry⟩ := cxMpiNeg_not_padded hssl h
    have herror := congrArg Prod.fst (hsub.symm.trans hsubtracts)
    dsimp only at herror
    rw [if_neg hok, if_pos hlt] at herror
    exact hcarry herror
  by_cases hword : (sizeToMpiBytes w).toNat ≤ 2048
  · have hborrowed : borrowed ssl (sizeToMpiBytes w) v r a b = v b - v a :=
      borrowed_eq hssl (Nat.le_trans hword (by decide)) hb
    rw [hborrowed, Function.update_self, padded_iff_of_word hssl hlong hword] at hrefused
    by_cases hpadded : Padded ssl (sizeToMpiBytes w) (v b - v a)
    · have hneg := cxMpiNeg_padded (v := Function.update v r (v b - v a)) (x := r) hssl
        (by rwa [Function.update_self])
      have hfits : v b < 256 ^ operandBytes ssl (sizeToMpiBytes w) v a b := by
        rcases nbytes_cases hssl w (Nat.le_of_lt hb) with ⟨hlt, -⟩ | ⟨-, hlong⟩
        · exact Nat.lt_of_lt_of_le hlt (Nat.pow_le_pow_right (by decide) (Nat.le_max_right _ _))
        · omega
      have hpos : 0 < (cxMpiNbytes ssl (sizeToMpiBytes w) (v b - v a : Nat)).toNat := by
        have hd := hpadded.lt
        by_contra hzero
        rw [Nat.eq_zero_of_not_pos hzero, Nat.pow_zero] at hd
        omega
      have hinside := hpadded.inside
      rw [Function.update_self, Function.update_idem] at hneg
      rw [hborrowed, hneg] at hsub
      rw [Subtracts, hsub, if_pos hlt, emod_of_lt hlt hfits]
      dsimp only
      rw [if_pos rfl, Prod.mk.injEq, naturals_update_inj,
        pow_sub_eq_iff hpadded.lt (Nat.lt_of_le_of_lt (Nat.sub_le _ _) hfits)]
      constructor
      · rintro ⟨-, heq⟩
        rw [← heq]
        exact ⟨rfl, hpos, hinside⟩
      · rintro ⟨heq, -, -⟩
        exact ⟨rfl, heq⟩
    · rw [padded_iff_of_word hssl hlong hword] at hpadded
      refine iff_of_false (hrefused hpadded) ?_
      rintro ⟨heq, -, hinside⟩
      exact hpadded (heq.trans_le hinside)
  · have hlong := Nat.not_le.mp hword
    refine iff_of_false (hrefused ?_) ?_
    · rw [Function.update_self]
      exact not_padded_of_word hssl (byteLength_borrowed_le hb) hlong
    · rintro ⟨-, hpos, hinside⟩
      have hbytes := operandBytes_of_word hssl hlong ha hb hpos
      omega

theorem subtracts_of_le (hssl : ssl.Exact) (wordSize : UInt32) (hle : v b ≤ v a) :
    Subtracts ssl wordSize v r a b ↔ v a - v b < 256 ^ operandBytes ssl wordSize v a b := by
  have hdiff : (v a - v b : Int) = (v a - v b : Nat) := (Int.ofNat_sub hle).symm
  have hmod : (((v a - v b : Int) % 256 ^ operandBytes ssl wordSize v a b).toNat) =
      (v a - v b) % 256 ^ operandBytes ssl wordSize v a b := by
    rw [hdiff]
    exact congrArg Int.toNat (Int.natCast_mod _ (256 ^ operandBytes ssl wordSize v a b)).symm
  rw [Subtracts, cxMpiSub_of_le hssl _ hle, if_neg (Nat.not_lt.mpr hle), hmod, Prod.mk.injEq,
    naturals_update_inj]
  constructor
  · rintro ⟨-, heq⟩
    rw [heq]
    exact Nat.mod_lt _ (Nat.pow_pos (by decide))
  · intro hlt
    exact ⟨rfl, (Nat.mod_eq_of_lt hlt).symm⟩

/-- A difference is right where it is none below 0 and fits the bytes of the operands, or where it
has as many bytes as they, and they fit the arrays. -/
theorem subtracts_iff (hssl : ssl.Exact) (w : UInt32) (v : Slot → Nat) (r a b : Slot)
    (ha : IsBignum (v a)) (hb : IsBignum (v b)) :
    Subtracts ssl (sizeToMpiBytes w) v r a b ↔
      v b ≤ v a ∧ v a - v b < 256 ^ operandBytes ssl (sizeToMpiBytes w) v a b ∨
        v a < v b ∧
          (cxMpiNbytes ssl (sizeToMpiBytes w) (v b - v a : Nat)).toNat =
            operandBytes ssl (sizeToMpiBytes w) v a b ∧
          0 < operandBytes ssl (sizeToMpiBytes w) v a b ∧
          operandBytes ssl (sizeToMpiBytes w) v a b ≤ 2048 := by
  rcases Nat.lt_or_ge (v a) (v b) with hlt | hle
  · rw [subtracts_of_lt hssl hlt ha hb]
    simp [hlt, Nat.not_le.mpr hlt]
  · rw [subtracts_of_le hssl _ hle]
    simp [hle, Nat.not_lt.mpr hle]

/-- 2^128 + 1 and 2^128, in words of 16 bytes. -/
def borrowing : Slot → Nat := fun i => if i = 0 then 2 ^ 128 else 2 ^ 128 + 1

theorem subtracts_borrowing : Subtracts .integers (sizeToMpiBytes 16) borrowing 2 1 0 :=
  (subtracts_iff exact_integers 16 borrowing 2 1 0 (by decide) (by decide)).mpr (.inl (by decide))

/-- The difference -1 of numbers of two words is complemented over one word. -/
theorem not_subtracts_borrowing : ¬ Subtracts .integers (sizeToMpiBytes 16) borrowing 2 0 1 := by
  intro h
  have hvalue := congrFun (congrArg Prod.snd h) 2
  exact absurd hvalue (by decide)

end Speculos.Bn
