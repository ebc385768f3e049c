import Mathlib.Tactic.IntervalCases
import Speculos.Hash.Update
import Speculos.Lib.Octets
import Speculos.Lib.BlockFold

/-!
# Hashes that end with the length

SHA-2 and RIPEMD-160 end a message with its length in bits, in one block or in two. They
differ in the size of a block, in the room that the length takes, and in the width and
the order of the bytes in which the length and the digest are computed and written.
-/

namespace Speculos.Hash

open Lib

-- ---------------------------------------------------------------------------
-- Order of bytes
-- ---------------------------------------------------------------------------

def specCxSwapUint32 (v : UInt32) : UInt32 :=
  ((v <<< 24) &&& (0xFF000000 : UInt32)) ||| ((v <<< 8) &&& (0x00FF0000 : UInt32)) |||
    ((v >>> 8) &&& (0x0000FF00 : UInt32)) ||| ((v >>> 24) &&& (0x000000FF : UInt32))

def specCxSwapUint64 (v : UInt64) : UInt64 :=
  let h := ((v >>> 32) &&& (0xFFFFFFFF : UInt64)).toUInt32
  let l := (v &&& (0xFFFFFFFF : UInt64)).toUInt32
  let l := specCxSwapUint32 l
  let h := specCxSwapUint32 h
  (l.toUInt64 <<< 32) ||| h.toUInt64

theorem testBit_specCxSwapUint32 (v : UInt32) (hj : j < 32) :
    (specCxSwapUint32 v).toNat.testBit j = v.toNat.testBit (8 * (3 - j / 8) + j % 8) := by
  simp only [specCxSwapUint32, UInt32.toNat_or, UInt32.toNat_and, UInt32.toNat_shiftLeft,
    UInt32.toNat_shiftRight, Nat.testBit_or, Nat.testBit_and, Nat.testBit_mod_two_pow,
    Nat.testBit_shiftLeft, Nat.testBit_shiftRight]
  interval_cases j <;> simp [Nat.testBit]

theorem testBit_specCxSwapUint64 (v : UInt64) (hj : j < 64) :
    (specCxSwapUint64 v).toNat.testBit j = v.toNat.testBit (8 * (7 - j / 8) + j % 8) := by
  have hmask : (0xFFFFFFFF : UInt64).toNat = 2 ^ 32 - 1 := rfl
  have hhigh (k : Nat) (hk : k < 32) :
      ((v >>> 32) &&& (0xFFFFFFFF : UInt64)).toUInt32.toNat.testBit k =
        v.toNat.testBit (32 + k) := by
    rw [UInt64.toNat_toUInt32, UInt64.toNat_and, hmask, Nat.and_two_pow_sub_one_eq_mod,
      Nat.mod_mod, Nat.testBit_mod_two_pow, UInt64.toNat_shiftRight]
    simp [hk, Nat.testBit_shiftRight]
  have hlow (k : Nat) (hk : k < 32) :
      (v &&& (0xFFFFFFFF : UInt64)).toUInt32.toNat.testBit k = v.toNat.testBit k := by
    rw [UInt64.toNat_toUInt32, UInt64.toNat_and, hmask, Nat.and_two_pow_sub_one_eq_mod,
      Nat.mod_mod, Nat.testBit_mod_two_pow]
    simp [hk]
  have hsplit (l h : UInt32) : ((l.toUInt64 <<< 32) ||| h.toUInt64).toNat.testBit j =
      (if j < 32 then h.toNat.testBit j else l.toNat.testBit (j - 32)) := by
    simp only [UInt64.toNat_or, UInt64.toNat_shiftLeft, UInt32.toNat_toUInt64, Nat.testBit_or,
      Nat.testBit_mod_two_pow, Nat.testBit_shiftLeft]
    by_cases hj' : j < 32
    · simp [hj', hj]
    · have hh : h.toNat.testBit j = false :=
        Nat.testBit_lt_two_pow (Nat.lt_of_lt_of_le h.toNat_lt (Nat.pow_le_pow_right (by decide) (by omega)))
      simp [hj', hj, hh, Nat.not_lt.mp hj']
  rw [specCxSwapUint64, hsplit]
  split
  · rename_i hj'
    rw [testBit_specCxSwapUint32 _ hj', hhigh _ (by omega)]
    congr 1
    omega
  · rw [testBit_specCxSwapUint32 _ (by omega), hlow _ (by omega)]
    congr 1
    omega

theorem toLE_specCxSwapUint32 (v : UInt32) : toLE 4 (specCxSwapUint32 v).toNat = toBE 4 v.toNat :=
  toLE_eq_toBE fun _ hj => testBit_specCxSwapUint32 v hj

theorem toLE_specCxSwapUint64 (v : UInt64) : toLE 8 (specCxSwapUint64 v).toNat = toBE 8 v.toNat :=
  toLE_eq_toBE fun _ hj => testBit_specCxSwapUint64 v hj

-- ---------------------------------------------------------------------------
-- The last blocks
-- ---------------------------------------------------------------------------

/-- How the length of a message is written: the room it takes, its value from the number of
blocks and the bytes of the last one, and its low 64 bits in memory. -/
structure LengthFormat where
  size : Nat
  bitlen : UInt32 → UInt32 → UInt64
  field : UInt64 → Bytes
  length_field : ∀ v, (field v).length = 8
  le_size : 8 ≤ size

/-- What the final functions make of `acc`. -/
def finalAcc (F : BlockFunction σ) (n : Nat) (format : LengthFormat) (ctx : Context σ) : σ :=
  let block := overwrite ctx.block ctx.blen [0x80]
  let blen := ctx.blen + 1
  let bitlen := format.bitlen ctx.counter (UInt32.ofNat blen)
  let (acc, block, blen) :=
    -- one more block?
    if n - blen < format.size then
      let block := overwrite block blen (List.replicate (n - blen) 0)
      (F.acc ctx.acc block, F.block ctx.acc block, 0)
    else (ctx.acc, block, blen)
  let block := overwrite block blen (List.replicate (n - blen) 0)
  F.acc acc (overwrite block (n - 8) (format.field bitlen))

def LengthFormat.fieldOf (format : LengthFormat) (ctx : Context σ) : Bytes :=
  List.replicate (format.size - 8) 0 ++
    format.field (format.bitlen ctx.counter (UInt32.ofNat (ctx.blen + 1)))

section

variable {σ : Type} {F : BlockFunction σ} {n : Nat} {format : LengthFormat} {ctx : Context σ}
  {iv : σ} {m : Bytes}

theorem LengthFormat.length_fieldOf (format : LengthFormat) (ctx : Context σ) :
    (format.fieldOf ctx).length = format.size := by
  have hsize := format.le_size
  rw [fieldOf, List.length_append, List.length_replicate, format.length_field]
  omega

theorem fill_block (hblock : ctx.block.length = n) (hblen : ctx.blen < n) :
    overwrite (overwrite ctx.block ctx.blen [0x80]) (ctx.blen + 1)
        (List.replicate (n - (ctx.blen + 1)) 0) =
      (ctx.block.take ctx.blen ++ [0x80]) ++ List.replicate (n - (ctx.blen + 1)) 0 := by
  rw [overwrite_overwrite (n := 1) _ _ _ (by omega) rfl, overwrite_end _ _ (by simp; omega),
    List.append_assoc]

theorem finalAcc_eq (hn : format.size ≤ n) (hctx : Holds F.acc n n iv ctx m) :
    finalAcc F n format ctx = absorb F.acc n (absorb F.acc n iv m)
      (leftover n m ++ lengthPadding n (leftover n m).length (format.fieldOf ctx)) := by
  have hsize := format.le_size
  have hlen := format.length_field (format.bitlen ctx.counter (UInt32.ofNat (ctx.blen + 1)))
  have hfield := format.length_fieldOf ctx
  have hblen : ctx.blen < n := hctx.blen ▸ Nat.mod_lt _ (by omega)
  have hrest : (leftover n m).length = ctx.blen := (length_leftover m).trans hctx.blen.symm
  have hfill := fill_block hctx.length_block hblen
  rw [hctx.rest] at hfill
  have hzeros (k : Nat) (hk : format.size ≤ k) : List.replicate (k - 8) (0 : UInt8) =
      List.replicate (k - format.size) 0 ++ List.replicate (format.size - 8) 0 := by
    rw [← List.replicate_add]
    congr 1
    omega
  simp only [finalAcc]
  by_cases hmore : n - (ctx.blen + 1) < format.size
  · have hblank := @overwrite_end _ 0
      (F.block ctx.acc (leftover n m ++ [0x80] ++ List.replicate (n - (ctx.blen + 1)) 0))
      (List.replicate n 0) (by
        rw [F.length_block]
        simp only [List.length_append, List.length_replicate, List.length_singleton, hrest]
        omega)
    have hlast := overwrite_replicate (k := n) (α := UInt8) []
      (format.field (format.bitlen ctx.counter (UInt32.ofNat (ctx.blen + 1)))) 0 (by omega)
    simp only [if_pos hmore, hfill, Nat.sub_zero, hblank]
    rw [hlen, List.nil_append, List.length_nil, Nat.zero_add, hzeros n hn] at hlast
    rw [List.take_zero, List.nil_append, hlast,
      absorb_lengthPadding_two (by omega) (by omega) (by omega), ← hctx.acc, hrest, hfield,
      LengthFormat.fieldOf, List.append_assoc, List.append_assoc]
    rfl
  · have hlast := overwrite_replicate (k := n - (ctx.blen + 1)) (leftover n m ++ [0x80])
      (format.field (format.bitlen ctx.counter (UInt32.ofNat (ctx.blen + 1)))) 0 (by omega)
    have hoff : (leftover n m ++ [0x80]).length + (n - (ctx.blen + 1) - 8) = n - 8 := by
      rw [List.length_append, List.length_singleton, hrest]
      omega
    rw [hlen, hoff, hzeros (n - (ctx.blen + 1)) (by omega)] at hlast
    simp only [if_neg hmore, hfill]
    rw [hlast, absorb_lengthPadding_one (by omega), ← hctx.acc, hrest, hfield, LengthFormat.fieldOf,
      Nat.sub_sub n ctx.blen 1, List.append_assoc, List.append_assoc]
    rfl

end

end Speculos.Hash
