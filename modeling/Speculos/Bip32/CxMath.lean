import Speculos.Lib.Memory
import Speculos.Bn.Openssl

/-!
# Multi-precision arithmetic

The functions of `cx_math.c` and `cx_utils.c` that derivations use. Numbers are
byte strings, most significant byte first; the conversions to and from `BIGNUM`
are those of `Lib.Endian`.
-/

namespace Speculos.Bip32

open Lib
open Bn (bnBn2binpad)

/-- `sys_cx_math_cmp` on `len` bytes each. -/
def cxMathCmp : Bytes → Bytes → Int
  | a :: as, b :: bs => if a ≠ b then if a < b then -1 else 1 else cxMathCmp as bs
  | _, _ => 0

def cxMathIsZero : Bytes → Int
  | [] => 1
  | a :: as => if a ≠ 0 then 0 else cxMathIsZero as

/-- `BN_bn2binpad_truncate`: the bytes written, and whether they were cut
from those of a longer number. -/
def bnBn2binpadTruncate (a : Nat) (tolen : Nat) : Bytes × Bool :=
  match bnBn2binpad a tolen with
  | some dst => (dst, false)
  | none => ((toBE 4097 a).drop (4097 - tolen), true)

/-- `sys_cx_math_add`: the sum and the carry. -/
def cxMathAdd (a b : Bytes) (len : Nat) : Bytes × Bool :=
  bnBn2binpadTruncate (fromBE a + fromBE b) len

/-- `sys_cx_math_addm`, where `r` is what the result is written over. -/
def cxMathAddm (r a b m : Bytes) (len : Nat) : Bytes :=
  (bnBn2binpad ((fromBE a + fromBE b) % fromBE m) len).getD r

/-- The loop of `be2le`, which counts `i` and `j` twice in a turn. -/
def be2leLoop (v : Region) (base i j : Nat) : Nat → Region
  | 0 => v
  | len + 1 =>
    let t := v.cell (base + i)
    let v := v.store (base + i) (v.cell (base + j))
    let v := v.store (base + j) t
    be2leLoop v base (i + 2) (j - 2) len

/-- `be2le(&v[base], len)` -/
def be2le (v : Region) (base len : Nat) : Region := be2leLoop v base 0 (len - 1) (len / 2)

def le2be (v : Region) (base len : Nat) : Region := be2le v base len

def swapBytesLoop (v : Region) (base i j : Nat) : Region :=
  if i < j then
    let t := v.cell (base + i)
    let v := v.store (base + i) (v.cell (base + j))
    let v := v.store (base + j) t
    swapBytesLoop v base (i + 1) (j - 1)
  else v
termination_by j - i

/-- `cx_swap_bytes`, where `buffer` may be a null pointer. -/
def cxSwapBytes (v : Region) (buffer : Option Nat) (len : Nat) : Region :=
  match buffer with
  | none => v
  | some base => if len ≤ 1 then v else swapBytesLoop v base 0 (len - 1)

-- ---------------------------------------------------------------------------
-- Comparisons
-- ---------------------------------------------------------------------------

theorem cxMathCmp_lt_iff (hlen : as.length = bs.length) :
    cxMathCmp as bs < 0 ↔ fromBE as < fromBE bs := by
  induction as generalizing bs with
  | nil =>
    rw [List.length_nil, eq_comm, List.length_eq_zero_iff] at hlen
    subst hlen
    simp [cxMathCmp]
  | cons a as ih =>
    obtain ⟨b, bs, rfl⟩ := List.exists_cons_of_length_eq_add_one hlen.symm
    have hlen : as.length = bs.length := Nat.succ.inj hlen
    rw [cxMathCmp]
    split
    · rename_i hne
      split
      · rename_i hlt
        simp [fromBE_cons_lt hlen (UInt8.lt_iff_toNat_lt.mp hlt)]
      · rename_i hge
        have hlt : b.toNat < a.toNat := by
          have hne := mt UInt8.toNat_inj.mp hne
          have hge := mt UInt8.lt_iff_toNat_lt.mpr hge
          omega
        have hgt := fromBE_cons_lt hlen.symm hlt
        simp only [show ¬ (1 : Int) < 0 by decide, false_iff]
        omega
    · rename_i heq
      rw [ih hlen, not_not.mp heq, fromBE_cons, fromBE_cons, hlen]
      omega

theorem cxMathIsZero_eq (as : Bytes) : cxMathIsZero as = if fromBE as = 0 then 1 else 0 := by
  induction as with
  | nil => rfl
  | cons a as ih =>
    rw [cxMathIsZero, fromBE_cons]
    split
    · rename_i hne
      have hpos : 0 < a.toNat := Nat.pos_of_ne_zero fun h => hne (UInt8.toNat_inj.mp h)
      have hpow : 0 < 256 ^ as.length := Nat.pow_pos (by decide)
      have hmul := Nat.mul_pos hpos hpow
      rw [if_neg (by omega)]
    · rename_i heq
      rw [ih, not_not.mp heq]
      simp

theorem cxMathIsZero_eq_zero_iff (as : Bytes) : cxMathIsZero as = 0 ↔ fromBE as ≠ 0 := by
  rw [cxMathIsZero_eq]
  by_cases h : fromBE as = 0
  · simp [h]
  · simp [h]

-- ---------------------------------------------------------------------------
-- Sums
-- ---------------------------------------------------------------------------

theorem cxMathAdd_fst (a b : Bytes) (hlen : len ≤ 4097) :
    (cxMathAdd a b len).1 = toBE len (fromBE a + fromBE b) := by
  rw [cxMathAdd, bnBn2binpadTruncate, bnBn2binpad]
  split
  · rename_i dst heq
    split at heq
    · exact (Option.some.inj heq).symm
    · cases heq
  · have hdrop := drop_toBE len (4097 - len) (fromBE a + fromBE b)
    rwa [Nat.sub_add_cancel hlen] at hdrop

theorem cxMathAddm_eq (r a b : Bytes) (hm : 0 < fromBE m) (hlen : m.length = len) :
    cxMathAddm r a b m len = toBE len ((fromBE a + fromBE b) % fromBE m) := by
  have hlt : (fromBE a + fromBE b) % fromBE m < 256 ^ len := by
    have hm' := fromBE_lt m
    rw [hlen] at hm'
    exact Nat.lt_trans (Nat.mod_lt _ hm) hm'
  rw [cxMathAddm, bnBn2binpad, if_pos hlt, Option.getD_some]

-- ---------------------------------------------------------------------------
-- Endianness
-- ---------------------------------------------------------------------------

/-- Every second place from `i` up is exchanged with every second one from `j` down. A place that
comes once from both ends is exchanged twice. -/
theorem cell_be2leLoop (v : Region) (base i j n k : Nat) (hn : 2 * n ≤ j + 1) :
    (be2leLoop v base i j n).cell (base + k) =
      if (k % 2 = i % 2 ∧ i ≤ k ∧ k < i + 2 * n) ≠ (k % 2 = j % 2 ∧ k ≤ j ∧ j < k + 2 * n) then
        v.cell (base + (i + j - k))
      else v.cell (base + k) := by
  simp only [ne_eq, eq_iff_iff]
  induction n generalizing v i j with
  | zero =>
    rw [be2leLoop, if_neg (by omega)]
  | succ n ih =>
    have hlow : (k % 2 = i % 2 ∧ i ≤ k ∧ k < i + 2 * (n + 1)) ↔
        k = i ∨ k % 2 = (i + 2) % 2 ∧ i + 2 ≤ k ∧ k < i + 2 + 2 * n := by omega
    have hhigh : (k % 2 = j % 2 ∧ k ≤ j ∧ j < k + 2 * (n + 1)) ↔
        k = j ∨ k % 2 = (j - 2) % 2 ∧ k ≤ j - 2 ∧ j - 2 < k + 2 * n := by omega
    rw [be2leLoop, ih _ (i + 2) (j - 2) (by omega)]
    simp only [hlow, hhigh, Region.cell_store, Nat.add_left_cancel_iff]
    -- what the turns behind the first exchange lies between its two places
    have hinner : (k % 2 = (i + 2) % 2 ∧ i + 2 ≤ k ∧ k < i + 2 + 2 * n) ∨
        (k % 2 = (j - 2) % 2 ∧ k ≤ j - 2 ∧ j - 2 < k + 2 * n) →
          k ≤ i + j ∧ i + 2 + (j - 2) = i + j := by omega
    have hbelow : (k % 2 = (i + 2) % 2 ∧ i + 2 ≤ k ∧ k < i + 2 + 2 * n) → k ≠ i := by omega
    have habove : (k % 2 = (j - 2) % 2 ∧ k ≤ j - 2 ∧ j - 2 < k + 2 * n) → k ≠ j := by omega
    clear hlow hhigh ih
    classical
    obtain ⟨low, hlow⟩ : ∃ low : Prop,
        (k % 2 = (i + 2) % 2 ∧ i + 2 ≤ k ∧ k < i + 2 + 2 * n) ↔ low := ⟨_, .rfl⟩
    obtain ⟨high, hhigh⟩ : ∃ high : Prop,
        (k % 2 = (j - 2) % 2 ∧ k ≤ j - 2 ∧ j - 2 < k + 2 * n) ↔ high := ⟨_, .rfl⟩
    simp only [hlow, hhigh] at hinner hbelow habove ⊢
    clear hlow hhigh
    by_cases hl : low
    · obtain ⟨hle, hsum⟩ := hinner (.inl hl)
      by_cases hh : high
      · simp [hl, hh, hbelow hl, habove hh]
      · have hki := hbelow hl
        by_cases hkj : k = j
        · subst hkj
          simp [hl, hh, hki, Ne.symm hki, hsum]
        · have hi : i + j - k ≠ i := by omega
          have hj : i + j - k ≠ j := by omega
          simp [hl, hh, hki, hkj, hsum, hi, hj]
    · by_cases hh : high
      · obtain ⟨hle, hsum⟩ := hinner (.inr hh)
        have hkj := habove hh
        by_cases hki : k = i
        · subst hki
          simp [hl, hh, hkj, hsum]
        · have hi : i + j - k ≠ i := by omega
          have hj : i + j - k ≠ j := by omega
          simp [hl, hh, hki, hkj, hsum, hi, hj]
      · by_cases hki : k = i
        · subst hki
          by_cases hkj : k = j
          · subst hkj
            simp [hl, hh]
          · simp [hl, hh, hkj]
        · by_cases hkj : k = j
          · subst hkj
            simp [hl, hh, hki]
          · simp [hl, hh, hki, hkj]

/-- Of an odd number of bytes only the first and the last are exchanged. -/
theorem cell_be2le (v : Region) (base : Nat) {len k : Nat} (hk : k < len) :
    (be2le v base len).cell (base + k) =
      if len % 2 = 0 ∨ k = 0 ∨ k + 1 = len then v.cell (base + (len - 1 - k))
        else v.cell (base + k) := by
  rw [be2le, cell_be2leLoop _ _ _ _ _ _ (by omega)]
  simp only [ne_eq, eq_iff_iff, Nat.zero_add]
  split_ifs <;> first | rfl | (congr 2; omega)

theorem cell_be2leLoop_of_lt (v : Region) (i j n : Nat) (h : p < base) :
    (be2leLoop v base i j n).cell p = v.cell p := by
  induction n generalizing v i j with
  | zero => rfl
  | succ n ih =>
    rw [be2leLoop, ih, Region.cell_store, if_neg (by omega), Region.cell_store, if_neg (by omega)]

theorem cell_be2le_outside (v : Region) (h : p < base ∨ base + len ≤ p) :
    (be2le v base len).cell p = v.cell p := by
  rcases h with hbelow | habove
  · exact cell_be2leLoop_of_lt v _ _ _ hbelow
  · obtain ⟨k, rfl⟩ := Nat.exists_eq_add_of_le (Nat.le_trans (Nat.le_add_right base len) habove)
    rw [be2le, cell_be2leLoop _ _ _ _ _ _ (by omega), if_neg]
    simp only [ne_eq, eq_iff_iff]
    omega

theorem slice_be2le (v : Region) (base : Nat) (heven : len % 2 = 0) :
    (be2le v base len).slice base len = (v.slice base len).reverse := by
  apply List.ext_getElem
  · simp
  · intro k hk hk'
    rw [Region.length_slice] at hk
    rw [List.getElem_reverse, Region.getElem_slice, Region.getElem_slice, cell_be2le v base hk,
      if_pos (.inl heven), Region.length_slice]

theorem slice_be2le_of_disjoint (v : Region) (h : off + n ≤ base ∨ base + len ≤ off) :
    (be2le v base len).slice off n = v.slice off n := by
  rw [Region.slice_eq_iff]
  intro i hi
  exact cell_be2le_outside v (by omega)

/-- Where each place is exchanged once, twice or not at all, all bytes are back after two calls. -/
theorem cell_be2le_be2le (v : Region) (base len p : Nat) :
    (be2le (be2le v base len) base len).cell p = v.cell p := by
  by_cases hin : base ≤ p ∧ p < base + len
  · obtain ⟨k, rfl⟩ := Nat.exists_eq_add_of_le hin.1
    have hk : k < len := by omega
    rw [cell_be2le _ _ hk]
    split_ifs with hmoved
    · have hback : len - 1 - (len - 1 - k) = k := by omega
      rw [cell_be2le _ _ (by omega), hback, if_pos (by omega)]
    · rw [cell_be2le _ _ hk, if_neg hmoved]
  · rw [cell_be2le_outside _ (by omega), cell_be2le_outside _ (by omega)]

theorem cell_swapBytesLoop (v : Region) (base i j k : Nat) :
    (swapBytesLoop v base i j).cell (base + k) =
      if i ≤ k ∧ k ≤ j then v.cell (base + (i + j - k)) else v.cell (base + k) := by
  fun_induction swapBytesLoop v base i j with
  | case1 v i j hlt t v₁ v₂ ih =>
    rw [ih]
    simp only [v₂, v₁, t, Region.cell_store, Nat.add_left_cancel_iff]
    split_ifs <;> first | rfl | (congr 2; omega)
  | case2 v i j hge =>
    split_ifs with hk
    · congr 2
      omega
    · rfl

theorem cell_swapBytesLoop_of_lt (v : Region) (i j : Nat) (h : p < base) :
    (swapBytesLoop v base i j).cell p = v.cell p := by
  fun_induction swapBytesLoop v base i j with
  | case1 v i j hlt t v₁ v₂ ih =>
    rw [ih]
    simp only [v₂, v₁, t, Region.cell_store]
    rw [if_neg (by omega), if_neg (by omega)]
  | case2 => rfl

theorem cell_cxSwapBytes (v : Region) (base : Nat) {len k : Nat} (hk : k < len) :
    (cxSwapBytes v (some base) len).cell (base + k) = v.cell (base + (len - 1 - k)) := by
  rw [cxSwapBytes]
  split
  · congr 2
    omega
  · rw [cell_swapBytesLoop, if_pos (by omega), Nat.zero_add]

theorem cell_cxSwapBytes_outside (v : Region) (h : p < base ∨ base + len ≤ p) :
    (cxSwapBytes v (some base) len).cell p = v.cell p := by
  rw [cxSwapBytes]
  split
  · rfl
  · rcases h with hbelow | habove
    · exact cell_swapBytesLoop_of_lt v _ _ hbelow
    · obtain ⟨k, rfl⟩ := Nat.exists_eq_add_of_le (Nat.le_trans (Nat.le_add_right base len) habove)
      rw [cell_swapBytesLoop, if_neg (by omega)]

-- ---------------------------------------------------------------------------
-- Reversal
-- ---------------------------------------------------------------------------

/-- The bytes are reversed, as `cx_swap_bytes` reverses them, and a second call undoes it. -/
structure ReversesBytes (swap : Region → Nat → Nat → Region) (v : Region) (base len : Nat) :
    Prop where
  reversed : (swap v base len).slice base len = (v.slice base len).reverse
  agrees : (swap v base len).cell = (cxSwapBytes v (some base) len).cell
  twice : (swap (swap v base len) base len).cell = v.cell

/-- The bytes between the first and the last read the same backwards. -/
def InnerPalindrome (v : Region) (base len : Nat) : Prop :=
  (v.slice (base + 1) (len - 2)).reverse = v.slice (base + 1) (len - 2)

instance (v : Region) (base len : Nat) : Decidable (InnerPalindrome v base len) :=
  inferInstanceAs (Decidable (_ = _))

theorem innerPalindrome_iff (v : Region) (base len : Nat) :
    InnerPalindrome v base len ↔
      ∀ k, 0 < k → k + 1 < len → v.cell (base + k) = v.cell (base + (len - 1 - k)) := by
  rw [InnerPalindrome, List.ext_getElem_iff]
  simp only [List.length_reverse, Region.length_slice, List.getElem_reverse, Region.getElem_slice,
    true_and]
  constructor
  · intro h k hpos hlt
    have heq := h (k - 1) (by omega) (by omega)
    rw [show base + 1 + (k - 1) = base + k by omega,
      show base + 1 + (len - 2 - 1 - (k - 1)) = base + (len - 1 - k) by omega] at heq
    exact heq.symm
  · intro h i hi _
    have heq := h (i + 1) (Nat.succ_pos i) (by omega)
    rw [show base + 1 + (len - 2 - 1 - i) = base + (len - 1 - (i + 1)) by omega,
      Nat.add_assoc base 1 i, Nat.add_comm 1 i]
    exact heq.symm

/-- The places that are not exchanged hold the byte of the other place already. -/
theorem cell_be2le_of_reversible (h : len % 2 = 0 ∨ InnerPalindrome v base len) (hk : k < len) :
    (be2le v base len).cell (base + k) = v.cell (base + (len - 1 - k)) := by
  rw [cell_be2le v base hk]
  split_ifs with hmoved
  · rfl
  · rw [not_or, not_or] at hmoved
    have hinner := h.resolve_left hmoved.1
    exact (innerPalindrome_iff v base len).mp hinner k (Nat.pos_of_ne_zero hmoved.2.1) (by omega)

theorem reversesBytes_be2le (h : len % 2 = 0 ∨ InnerPalindrome v base len) :
    ReversesBytes be2le v base len where
  reversed := by
    apply List.ext_getElem
    · simp
    · intro k hk hk'
      rw [Region.length_slice] at hk
      rw [List.getElem_reverse, Region.getElem_slice, Region.getElem_slice, Region.length_slice,
        cell_be2le_of_reversible h hk]
  agrees := by
    funext p
    by_cases hin : base ≤ p ∧ p < base + len
    · obtain ⟨k, rfl⟩ := Nat.exists_eq_add_of_le hin.1
      have hk : k < len := by omega
      rw [cell_be2le_of_reversible h hk, cell_cxSwapBytes v base hk]
    · rw [cell_be2le_outside v (by omega), cell_cxSwapBytes_outside v (by omega)]
  twice := funext (cell_be2le_be2le v base len)

theorem reversesBytes_iff (v : Region) (base len : Nat) :
    ReversesBytes be2le v base len ∧ ReversesBytes le2be v base len ↔
      len % 2 = 0 ∨ InnerPalindrome v base len := by
  constructor
  · rintro ⟨h, -⟩
    refine or_iff_not_imp_left.mpr fun hodd => (innerPalindrome_iff v base len).mpr
      fun k hpos hlt => ?_
    have hk : k < len := Nat.lt_of_succ_lt hlt
    have hcell : (be2le v base len).cell (base + k) = v.cell (base + (len - 1 - k)) := by
      rw [h.agrees, cell_cxSwapBytes v base hk]
    rw [← hcell, cell_be2le v base hk, if_neg (by omega)]
  · intro h
    exact ⟨reversesBytes_be2le h, reversesBytes_be2le h⟩

/-- Of five bytes the second and the fourth stay where they are. -/
theorem not_reversesBytes_five :
    ¬ ReversesBytes be2le (Region.zeroed.memcpy 0 [0, 1, 2, 3, 4] 5) 0 5 := by
  intro h
  exact absurd h.reversed (by decide)

end Speculos.Bip32
