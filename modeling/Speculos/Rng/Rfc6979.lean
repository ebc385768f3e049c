import Speculos.Lib.Bytewise
import Speculos.Lib.Memory

/-!
# Bit strings as integers

`cx_rfc6979_bits2int` keeps the first `q_len` bits of a byte string. A string that is not longer is
padded: the zeros are written first, and the string is moved behind them.
-/

namespace Speculos.Rng

open Lib

/-- The lengths in bits of the order and of the numbers below it. -/
structure Rfc6979Ctx where
  qLen : Nat
  rLen : Nat

/-- The loop over `i`, which shifts `b` to the right into `b_out`. -/
def shiftInto (m : Region) (b bOut : Nat) (rightShift carry : UInt8) (i : Nat) : Nat → Region
  | 0 => m
  | n + 1 =>
    let x := m.cell (b + i)
    shiftInto (m.store (bOut + i) (carry ||| x >>> rightShift)) b bOut rightShift
      (x <<< (8 - rightShift) &&& 0xff) (i + 1) n

/-- `cx_rfc6979_bits2int` on the `b_len` bits at `b`, which are a multiple of 8. -/
def cxRfc6979Bits2int (ctx : Rfc6979Ctx) (m : Region) (b bLen bOut : Nat) : Nat × Region :=
  let m :=
    if bLen > ctx.qLen then
      let rightShift := UInt8.ofNat ((bLen - ctx.qLen) &&& 7)
      if rightShift = 0 then m.memcpy bOut (m.slice b (ctx.rLen / 8)) (ctx.rLen / 8)
      else shiftInto m b bOut rightShift 0 0 (ctx.rLen / 8)
    else
      let paddingLen := ctx.rLen / 8 - bLen / 8
      let m := m.memset bOut 0 paddingLen
      m.memcpy (bOut + paddingLen) (m.slice b (bLen / 8)) (bLen / 8)
  (ctx.rLen, m)

-- ---------------------------------------------------------------------------
-- The shift
-- ---------------------------------------------------------------------------

theorem slice_shiftInto_of_le (m : Region) (b : Nat) (s carry : UInt8) (i n : Nat)
    (h : off + len ≤ bOut + i) :
    (shiftInto m b bOut s carry i n).slice off len = m.slice off len := by
  induction n generalizing m carry i with
  | zero => rfl
  | succ n ih =>
    rw [shiftInto, ih _ _ _ (by omega), Region.slice_store_of_disjoint _ _ _ _ _ (.inl h)]

theorem and_byte (c : UInt8) : c &&& 0xff = c :=
  UInt8.toNat_inj.mp ((UInt8.toNat_and c 0xff).trans (Nat.and_two_pow_sub_one_of_lt_two_pow c.toNat_lt))

theorem slice_shiftInto (m : Region) (s carry : UInt8) (i n : Nat)
    (h : bOut = b ∨ b + i + n ≤ bOut + i ∨ bOut + i + n ≤ b + i) :
    (shiftInto m b bOut s carry i n).slice (bOut + i) n =
      shiftBytes s carry (m.slice (b + i) n) := by
  induction n generalizing m carry i with
  | zero => rfl
  | succ n ih =>
    have hread : (m.store (bOut + i) (carry ||| m.cell (b + i) >>> s)).slice (b + (i + 1)) n =
        m.slice (b + (i + 1)) n :=
      Region.slice_store_of_disjoint _ _ _ _ _ (by omega)
    have hfirst : (m.store (bOut + i) (carry ||| m.cell (b + i) >>> s)).slice (bOut + i) 1 =
        [carry ||| m.cell (b + i) >>> s] := Region.slice_store_self ..
    rw [shiftInto, Nat.add_comm n 1, Region.slice_add, slice_shiftInto_of_le _ _ _ _ _ _ (by omega),
      hfirst, Nat.add_assoc, ih _ _ _ (by omega), hread, Region.slice_add, Region.slice_one,
      Nat.add_assoc, List.singleton_append, List.singleton_append, shiftBytes, and_byte]

-- ---------------------------------------------------------------------------
-- The leftmost bits
-- ---------------------------------------------------------------------------

/-- The integer of the first `qLen` bits, or of all bits if there are not more. -/
def leftmostBits (qLen : Nat) (bs : Bytes) : Nat :=
  if qLen < 8 * bs.length then fromBE bs / 2 ^ (8 * bs.length - qLen) else fromBE bs

theorem fromBE_slice_div (m : Region) (b : Nat) (h : k ≤ n) :
    fromBE (m.slice b n) / 256 ^ (n - k) = fromBE (m.slice b k) := by
  obtain ⟨j, rfl⟩ := Nat.exists_eq_add_of_le h
  have hlt := fromBE_lt (m.slice (b + k) j)
  rw [Region.length_slice] at hlt
  rw [Nat.add_sub_cancel_left, Region.slice_add, fromBE_append, Region.length_slice, Nat.mul_comm,
    Nat.mul_add_div (Nat.pow_pos (by decide)), Nat.div_eq_of_lt hlt, Nat.add_zero]

section

variable {ctx : Rfc6979Ctx} {m : Region} {b bOut n : Nat}

/-- The bits that are left over are fewer than eight. -/
theorem leftmostBits_of_long (hr : ctx.rLen = (ctx.qLen + 7) / 8 * 8) (hlong : ctx.qLen < 8 * n) :
    leftmostBits ctx.qLen (m.slice b n) =
      fromBE (m.slice b (ctx.rLen / 8)) / 2 ^ ((8 * n - ctx.qLen) % 8) := by
  have hk : ctx.rLen / 8 ≤ n := by omega
  have hbits : 8 * n - ctx.qLen = 8 * (n - ctx.rLen / 8) + (8 * n - ctx.qLen) % 8 := by omega
  have hpow : 2 ^ (8 * n - ctx.qLen) = 256 ^ (n - ctx.rLen / 8) * 2 ^ ((8 * n - ctx.qLen) % 8) := by
    rw [show 256 = 2 ^ 8 from rfl, ← pow_mul, ← pow_add, ← hbits]
  rw [leftmostBits, Region.length_slice, if_pos hlong, hpow, ← Nat.div_div_eq_div_mul,
    fromBE_slice_div m b hk]

theorem bits2int_of_long (hr : ctx.rLen = (ctx.qLen + 7) / 8 * 8) (hlong : ctx.qLen < 8 * n)
    (hbuf : bOut = b ∨ b + n ≤ bOut ∨ bOut + ctx.rLen / 8 ≤ b) :
    (cxRfc6979Bits2int ctx m b (8 * n) bOut).2.slice bOut (ctx.rLen / 8) =
      toBE (ctx.rLen / 8) (leftmostBits ctx.qLen (m.slice b n)) := by
  have hshift : (8 * n - ctx.qLen) &&& 7 = (8 * n - ctx.qLen) % 8 :=
    Nat.and_two_pow_sub_one_eq_mod _ 3
  have hlt : (8 * n - ctx.qLen) % 8 < 8 := Nat.mod_lt _ (by decide)
  have hnat : (UInt8.ofNat ((8 * n - ctx.qLen) % 8)).toNat = (8 * n - ctx.qLen) % 8 :=
    UInt8.toNat_ofNat_of_lt' (Nat.lt_trans hlt (by decide))
  rw [leftmostBits_of_long hr hlong, cxRfc6979Bits2int]
  dsimp only
  rw [if_pos hlong, hshift]
  split
  · rename_i hzero
    have hmod : (8 * n - ctx.qLen) % 8 = 0 := by
      rw [← hnat, hzero]
      rfl
    have hbytes := toBE_fromBE (m.slice b (ctx.rLen / 8))
    rw [Region.length_slice] at hbytes
    rw [Region.slice_memcpy_eq _ _ _ (Region.length_slice ..), hmod, pow_zero, Nat.div_one, hbytes]
  · rename_i hne
    have hpos : 0 < (8 * n - ctx.qLen) % 8 := by
      rw [← hnat]
      exact Nat.pos_of_ne_zero fun h => hne (UInt8.toNat_inj.mp h)
    have hread : bOut = b ∨ b + 0 + ctx.rLen / 8 ≤ bOut + 0 ∨ bOut + 0 + ctx.rLen / 8 ≤ b + 0 := by
      omega
    have hzero : (0 : UInt8) <<< (8 - UInt8.ofNat ((8 * n - ctx.qLen) % 8)) = 0 :=
      UInt8.zero_shiftLeft
    have hvalue := fromBE_shiftBytes (hnat.symm ▸ hpos) (hnat.symm ▸ hlt) 0
      (m.slice b (ctx.rLen / 8))
    have hbytes := toBE_fromBE (shiftBytes (UInt8.ofNat ((8 * n - ctx.qLen) % 8)) 0 (m.slice b (ctx.rLen / 8)))
    rw [hzero, hnat, UInt8.toNat_zero, Nat.zero_mod, Nat.zero_mul, Nat.zero_add] at hvalue
    rw [length_shiftBytes, Region.length_slice, hvalue] at hbytes
    rw [hbytes]
    exact slice_shiftInto m _ 0 0 _ hread

/-- The string is padded as it is when the zeros are written. -/
theorem bits2int_of_short (hr : ctx.rLen = (ctx.qLen + 7) / 8 * 8) (hshort : ¬ ctx.qLen < 8 * n) :
    (cxRfc6979Bits2int ctx m b (8 * n) bOut).2.slice bOut (ctx.rLen / 8) =
      toBE (ctx.rLen / 8) (fromBE ((m.memset bOut 0 (ctx.rLen / 8 - n)).slice b n)) := by
  have hbytes := toBE_fromBE ((m.memset bOut 0 (ctx.rLen / 8 - n)).slice b n)
  have hlt := fromBE_lt ((m.memset bOut 0 (ctx.rLen / 8 - n)).slice b n)
  rw [Region.length_slice] at hbytes hlt
  obtain ⟨pad, hpad⟩ : ∃ pad, ctx.rLen / 8 = pad + n := ⟨ctx.rLen / 8 - n, by omega⟩
  rw [cxRfc6979Bits2int]
  dsimp only
  rw [if_neg hshort, Nat.mul_div_cancel_left n (by decide)]
  rw [hpad, Nat.add_sub_cancel] at hbytes hlt ⊢
  rw [Region.slice_add, Region.slice_memcpy_of_disjoint _ _ _ _ _ _ (.inl (Nat.le_refl _)),
    Region.slice_memset_self _ _ _ _ _ _ (Nat.le_refl _) (Nat.le_refl _),
    Region.slice_memcpy_eq _ _ _ (Region.length_slice ..), toBE_add_of_lt pad hlt, hbytes]

/-- Zeros that are written over the string itself stay without effect on zeros only. -/
theorem slice_memset_self_iff (m : Region) (b k n : Nat) :
    (m.memset b 0 k).slice b n = m.slice b n ↔ (m.slice b (min k n)).all (· == 0) := by
  rw [Region.slice_eq_iff]
  simp only [Region.memset, Region.cell_memcpy, Region.slice, List.all_map, List.all_eq_true,
    List.mem_range, Function.comp_apply, beq_iff_eq]
  constructor
  · intro h i hi
    have hcell := h i (by omega)
    rw [if_pos (by omega), List.getD_eq_getElem _ _ (by simp; omega),
      List.getElem_replicate] at hcell
    exact hcell.symm
  · intro h i hi
    split
    · rw [List.getD_eq_getElem _ _ (by simp; omega), List.getElem_replicate, h i (by omega)]
    · rfl

theorem bits2int_iff (hr : ctx.rLen = (ctx.qLen + 7) / 8 * 8) (m : Region)
    (hbuf : bOut = b ∨ b + n ≤ bOut ∨ bOut + ctx.rLen / 8 ≤ b) :
    (cxRfc6979Bits2int ctx m b (8 * n) bOut).2.slice bOut (ctx.rLen / 8) =
        toBE (ctx.rLen / 8) (leftmostBits ctx.qLen (m.slice b n)) ↔
      bOut ≠ b ∨ ctx.qLen < 8 * n ∨ (m.slice b (min (ctx.rLen / 8 - n) n)).all (· == 0) := by
  by_cases hlong : ctx.qLen < 8 * n
  · exact iff_of_true (bits2int_of_long hr hlong hbuf) (.inr (.inl hlong))
  · have hlt (m : Region) : fromBE (m.slice b n) < 256 ^ (ctx.rLen / 8) := by
      have hbytes := fromBE_lt (m.slice b n)
      rw [Region.length_slice] at hbytes
      exact Nat.lt_of_lt_of_le hbytes (Nat.pow_le_pow_right (by decide) (by omega))
    have hsame : toBE (ctx.rLen / 8) (fromBE ((m.memset bOut 0 (ctx.rLen / 8 - n)).slice b n)) =
          toBE (ctx.rLen / 8) (fromBE (m.slice b n)) ↔
        (m.memset bOut 0 (ctx.rLen / 8 - n)).slice b n = m.slice b n := by
      constructor
      · intro heq
        have hvalue := toBE_injective_of_lt (hlt _) (hlt m) heq
        exact fromBE_injective (by simp) hvalue
      · intro heq
        rw [heq]
    rw [bits2int_of_short hr hlong, leftmostBits, Region.length_slice, if_neg hlong, hsame]
    by_cases halias : bOut = b
    · subst halias
      simp [hlong, slice_memset_self_iff]
    · have hdisjoint : b + n ≤ bOut ∨ bOut + (ctx.rLen / 8 - n) ≤ b := by omega
      exact iff_of_true (Region.slice_memset_of_disjoint _ _ _ _ _ _ hdisjoint) (.inl halias)

/-- A digest of 32 bytes in place, for an order of 255 bits. -/
theorem bits2int_ones :
    (cxRfc6979Bits2int ⟨255, 256⟩ (Region.zeroed.memset 0 0xff 32) 0 (8 * 32) 0).2.slice 0 32 =
      toBE 32 (leftmostBits 255 ((Region.zeroed.memset 0 0xff 32).slice 0 32)) :=
  (bits2int_iff (show (⟨255, 256⟩ : Rfc6979Ctx).rLen = _ from rfl) _ (.inl rfl)).mpr
    (.inr (.inl (by decide)))

/-- A string of one byte is padded in place to two: the byte is lost. -/
theorem not_bits2int_short :
    (cxRfc6979Bits2int ⟨16, 16⟩ (Region.zeroed.store 0 1) 0 (8 * 1) 0).2.slice 0 2 ≠
      toBE 2 (leftmostBits 16 ((Region.zeroed.store 0 1).slice 0 1)) := by
  decide

end

end Speculos.Rng
