import Mathlib.Data.List.Basic
import Speculos.Lib.Octets

/-!
# HMAC and key derivation

The keyed hash over any hash function `H` with blocks of `n` bytes.

Extraction and expansion over any keyed hash with values of `n` bytes. `hkdfBlock` is the
chain `T(0)`, `T(1)`, ... that an expansion is cut from.
-/

namespace Lib

def xorAll (bs : Bytes) (b : UInt8) : Bytes := bs.map (· ^^^ b)

/-- The key as a block: a key that is longer is hashed, and zeros follow. -/
def hmacKey (n : Nat) (H : Bytes → Bytes) (key : Bytes) : Bytes :=
  let k := if key.length > n then H key else key
  k ++ List.replicate (n - k.length) 0

def hmac (n : Nat) (H : Bytes → Bytes) (key m : Bytes) : Bytes :=
  H (xorAll (hmacKey n H key) 0x5c ++ H (xorAll (hmacKey n H key) 0x36 ++ m))

@[simp] theorem length_xorAll (bs : Bytes) (b : UInt8) : (xorAll bs b).length = bs.length :=
  List.length_map _

theorem xorAll_xorAll (bs : Bytes) (a b : UInt8) :
    xorAll (xorAll bs a) b = xorAll bs (a ^^^ b) := by
  rw [xorAll, xorAll, List.map_map]
  exact List.map_congr_left fun c _ => UInt8.xor_assoc ..

theorem xorAll_zero (bs : Bytes) : xorAll bs 0 = bs := by
  rw [xorAll]
  exact List.map_id'' (fun _ => UInt8.xor_zero) bs

theorem length_hmacKey (hH : (H key).length ≤ n) : (hmacKey n H key).length = n := by
  simp only [hmacKey, List.length_append, List.length_replicate]
  split <;> omega

end Lib

-- ---------------------------------------------------------------------------
-- Key derivation by HMAC
-- ---------------------------------------------------------------------------

namespace Lib

section

variable (hmac : Bytes → Bytes → Bytes) (n : Nat) (prk info : Bytes)

def hkdfExtract (salt ikm : Bytes) : Bytes := hmac salt ikm

/-- `T(i)` -/
def hkdfBlock : Nat → Bytes
  | 0 => []
  | i + 1 => hmac prk (hkdfBlock i ++ info ++ [UInt8.ofNat (i + 1)])

/-- `T(i + 1)` and those behind it, as many as there are. -/
def hkdfBlocks (i count : Nat) : List Bytes :=
  (List.range count).map fun j => hkdfBlock hmac prk info (i + j + 1)

/-- `len` bytes behind the first `i` blocks. -/
def hkdfExpandFrom (i len : Nat) : Bytes :=
  (hkdfBlocks hmac prk info i ((len + n - 1) / n)).flatten.take len

def hkdfExpand (len : Nat) : Bytes := hkdfExpandFrom hmac n prk info 0 len

end

/-- A byte string cut into `count` pieces of `n` bytes. -/
def bytesSplit (n : Nat) : Nat → Bytes → List Bytes
  | 0, _ => []
  | count + 1, bs => bs.take n :: bytesSplit n count (bs.drop n)

section

variable {hmac : Bytes → Bytes → Bytes} {n : Nat} {prk info : Bytes}

theorem hkdfBlocks_succ (i count : Nat) :
    hkdfBlocks hmac prk info i (count + 1) =
      hkdfBlock hmac prk info (i + 1) :: hkdfBlocks hmac prk info (i + 1) count := by
  simp only [hkdfBlocks, List.range_succ_eq_map, List.map_cons, List.map_map, Nat.add_zero]
  congr 1
  exact List.map_congr_left fun j _ => by simp [Nat.add_comm, Nat.add_left_comm]

theorem bytesSplit_flatten (pieces : List Bytes) (h : ∀ p ∈ pieces, p.length = n) :
    bytesSplit n pieces.length pieces.flatten = pieces := by
  induction pieces with
  | nil => rfl
  | cons p pieces ih =>
    obtain ⟨hp, hpieces⟩ := List.forall_mem_cons.mp h
    rw [List.flatten_cons, List.length_cons, bytesSplit, List.take_left' hp, List.drop_left' hp,
      ih hpieces]

theorem length_flatten_of_forall (pieces : List Bytes) (h : ∀ p ∈ pieces, p.length = n) :
    pieces.flatten.length = pieces.length * n := by
  rw [List.length_flatten, List.map_congr_left h, List.map_const', List.sum_replicate_nat]

theorem bytesSplit_hkdfExpand (hn : 0 < n) (h : ∀ m, (hmac prk m).length = n) (count : Nat) :
    bytesSplit n count (hkdfExpand hmac n prk info (count * n)) =
      hkdfBlocks hmac prk info 0 count := by
  have hcount : (count * n + n - 1) / n = count := by
    rw [Nat.add_sub_assoc hn, Nat.mul_comm, Nat.mul_add_div hn, Nat.div_eq_of_lt (by omega),
      Nat.add_zero]
  have hlen : (hkdfBlocks hmac prk info 0 count).length = count := by simp [hkdfBlocks]
  have hall : ∀ p ∈ hkdfBlocks hmac prk info 0 count, p.length = n := by
    intro p hp
    obtain ⟨j, -, rfl⟩ := List.mem_map.mp hp
    exact h _
  have hsplit := bytesSplit_flatten _ hall
  rw [hlen] at hsplit
  rw [hkdfExpand, hkdfExpandFrom, hcount,
    List.take_of_length_le (by rw [length_flatten_of_forall _ hall, hlen]), hsplit]

end

end Lib
