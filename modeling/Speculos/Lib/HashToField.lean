import Mathlib.Data.List.Basic
import Speculos.Lib.Octets

/-!
# Hashing to a field

The expansion of a message to a string of any length, by a chain of digests in which each one is
mixed with the first, and the elements of a prime field that are read from such a string.
-/

namespace Lib

/-- A hash function, the length of its digests, and that of the blocks it reads. -/
structure XmdHash where
  hash : Bytes → Bytes
  bInBytes : Nat
  sInBytes : Nat

variable (H : XmdHash)

def strxor (as bs : Bytes) : Bytes := List.zipWith (· ^^^ ·) as bs

/-- `DST || I2OSP(len(DST), 1)` -/
def dstPrime (dst : Bytes) : Bytes := dst ++ toBE 1 dst.length

/-- `b_0` -/
def xmdFirst (msg dst : Bytes) (lenInBytes : Nat) : Bytes :=
  H.hash (List.replicate H.sInBytes 0 ++ msg ++ toBE 2 lenInBytes ++ toBE 1 0 ++ dstPrime dst)

/-- `b_(i + 1)` -/
def xmdBlock (b₀ dst : Bytes) : Nat → Bytes
  | 0 => H.hash (b₀ ++ toBE 1 1 ++ dstPrime dst)
  | i + 1 => H.hash (strxor b₀ (xmdBlock b₀ dst i) ++ toBE 1 (i + 2) ++ dstPrime dst)

def expandMessageXmd (msg dst : Bytes) (lenInBytes : Nat) : Option Bytes :=
  let ell := (lenInBytes + H.bInBytes - 1) / H.bInBytes
  if ell > 255 ∨ lenInBytes > 65535 ∨ dst.length > 255 then none
  else
    let blocks := (List.range ell).flatMap (xmdBlock H (xmdFirst H msg dst lenInBytes) dst)
    some (blocks.take lenInBytes)

/-- The `count * m` coordinates of the elements, from `L` bytes each. -/
def hashToField (p m L count : Nat) (msg dst : Bytes) : Option (List Nat) :=
  (expandMessageXmd H msg dst (count * m * L)).map fun uniformBytes =>
    (List.range count).flatMap fun i => (List.range m).map fun j =>
      fromBE ((uniformBytes.drop (L * (j + i * m))).take L) % p

variable {H}

theorem length_xmdBlock (hlen : ∀ m, (H.hash m).length = H.bInBytes) (b₀ dst : Bytes) (i : Nat) :
    (xmdBlock H b₀ dst i).length = H.bInBytes := by
  cases i with
  | zero => exact hlen _
  | succ i => exact hlen _

theorem length_xmdBlocks (hlen : ∀ m, (H.hash m).length = H.bInBytes) (b₀ dst : Bytes) (n : Nat) :
    ((List.range n).flatMap (xmdBlock H b₀ dst)).length = n * H.bInBytes := by
  induction n with
  | zero => simp
  | succ n ih =>
    rw [List.range_succ, List.flatMap_append, List.length_append, ih, List.flatMap_singleton,
      length_xmdBlock hlen, Nat.succ_mul]

theorem expandMessageXmd_blocks (hlen : ∀ m, (H.hash m).length = H.bInBytes) (hpos : 0 < H.bInBytes)
    (hell : ell ≤ 255) (hbytes : ell * H.bInBytes ≤ 65535) (hdst : dst.length ≤ 255) :
    expandMessageXmd H msg dst (ell * H.bInBytes) =
      some ((List.range ell).flatMap (xmdBlock H (xmdFirst H msg dst (ell * H.bInBytes)) dst)) := by
  have hceil : (ell * H.bInBytes + H.bInBytes - 1) / H.bInBytes = ell := by
    rw [Nat.add_sub_assoc hpos, Nat.mul_comm, Nat.mul_add_div hpos,
      Nat.div_eq_of_lt (Nat.sub_lt hpos Nat.one_pos), Nat.add_zero]
  rw [expandMessageXmd, hceil]
  dsimp only
  rw [if_neg (by omega), List.take_of_length_le (Nat.le_of_eq (length_xmdBlocks hlen _ _ _))]

end Lib
