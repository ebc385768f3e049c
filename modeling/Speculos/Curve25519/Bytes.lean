import Mathlib.Tactic.LinearCombination
import Speculos.Curve25519.FieldElement

/-!
# Field elements in byte strings

`fe_frombytes` and `fe_tobytes`. The second one subtracts the prime as often as it goes into the
integer, which is found by a division that rounds nowhere, and so writes the residue itself.
-/

namespace Speculos.Curve25519

open Lib

def load3 (s : Bytes) (i : Nat) : Nat :=
  (s.getD i 0).toNat ||| (s.getD (i + 1) 0).toNat <<< 8 ||| (s.getD (i + 2) 0).toNat <<< 16

def load4 (s : Bytes) (i : Nat) : Nat :=
  (s.getD i 0).toNat ||| (s.getD (i + 1) 0).toNat <<< 8 ||| (s.getD (i + 2) 0).toNat <<< 16 |||
    (s.getD (i + 3) 0).toNat <<< 24

/-- The limbs that are read, before their carries. -/
def readLimbs (s : Bytes) : Fe :=
  ⟨load4 s 0, (load3 s 4 <<< 6 : Nat), (load3 s 7 <<< 5 : Nat), (load3 s 10 <<< 3 : Nat),
    (load3 s 13 <<< 2 : Nat), load4 s 16, (load3 s 20 <<< 7 : Nat), (load3 s 23 <<< 5 : Nat),
    (load3 s 26 <<< 4 : Nat), ((load3 s 29 &&& 8388607) <<< 2 : Nat)⟩

def feFromBytes (s : Bytes) : Option Fe := carryLimbs (readLimbs s)

/-- `next += h >> n; h &= bottom` -/
def settle (n : Nat) (bottom : BitVec 64) (h next : Int) : Option (Int × Int) := do
  let next ← int32 (next + h >>> n)
  return (toInt32 (land64 h bottom), next)

def byte (x : Int) : UInt8 := UInt8.ofNat (x % 256).toNat

/-- `x | (uint32_t) y << k` -/
def byteJoin (x y : Int) (k : Nat) : UInt8 :=
  UInt8.ofNat (BitVec.ofInt 32 x ||| BitVec.ofInt 32 y <<< k).toNat

def writeLimbs (h : Fe) : Bytes :=
  [byte h.t0, byte (h.t0 >>> (8 : Nat)), byte (h.t0 >>> (16 : Nat)),
    byteJoin (h.t0 >>> (24 : Nat)) h.t1 2,
    byte (h.t1 >>> (6 : Nat)), byte (h.t1 >>> (14 : Nat)), byteJoin (h.t1 >>> (22 : Nat)) h.t2 3,
    byte (h.t2 >>> (5 : Nat)), byte (h.t2 >>> (13 : Nat)), byteJoin (h.t2 >>> (21 : Nat)) h.t3 5,
    byte (h.t3 >>> (3 : Nat)), byte (h.t3 >>> (11 : Nat)), byteJoin (h.t3 >>> (19 : Nat)) h.t4 6,
    byte (h.t4 >>> (2 : Nat)), byte (h.t4 >>> (10 : Nat)), byte (h.t4 >>> (18 : Nat)),
    byte h.t5, byte (h.t5 >>> (8 : Nat)), byte (h.t5 >>> (16 : Nat)),
    byteJoin (h.t5 >>> (24 : Nat)) h.t6 1,
    byte (h.t6 >>> (7 : Nat)), byte (h.t6 >>> (15 : Nat)), byteJoin (h.t6 >>> (23 : Nat)) h.t7 3,
    byte (h.t7 >>> (5 : Nat)), byte (h.t7 >>> (13 : Nat)), byteJoin (h.t7 >>> (21 : Nat)) h.t8 4,
    byte (h.t8 >>> (4 : Nat)), byte (h.t8 >>> (12 : Nat)), byteJoin (h.t8 >>> (20 : Nat)) h.t9 6,
    byte (h.t9 >>> (2 : Nat)), byte (h.t9 >>> (10 : Nat)), byte (h.t9 >>> (18 : Nat))]

def feToBytes (h : Fe) : Option Bytes := do
  let q ← int32 (19 * h.t9)
  let q := (← int32 (q + 2 ^ 24)) >>> (25 : Nat)
  let q := (← int32 (h.t0 + q)) >>> (26 : Nat)
  let q := (← int32 (h.t1 + q)) >>> (25 : Nat)
  let q := (← int32 (h.t2 + q)) >>> (26 : Nat)
  let q := (← int32 (h.t3 + q)) >>> (25 : Nat)
  let q := (← int32 (h.t4 + q)) >>> (26 : Nat)
  let q := (← int32 (h.t5 + q)) >>> (25 : Nat)
  let q := (← int32 (h.t6 + q)) >>> (26 : Nat)
  let q := (← int32 (h.t7 + q)) >>> (25 : Nat)
  let q := (← int32 (h.t8 + q)) >>> (26 : Nat)
  let q := (← int32 (h.t9 + q)) >>> (25 : Nat)
  let q ← int32 (19 * q)
  let h0 ← int32 (h.t0 + q)
  let (h0, h1) ← settle 26 kBottom26Bits h0 h.t1
  let (h1, h2) ← settle 25 kBottom25Bits h1 h.t2
  let (h2, h3) ← settle 26 kBottom26Bits h2 h.t3
  let (h3, h4) ← settle 25 kBottom25Bits h3 h.t4
  let (h4, h5) ← settle 26 kBottom26Bits h4 h.t5
  let (h5, h6) ← settle 25 kBottom25Bits h5 h.t6
  let (h6, h7) ← settle 26 kBottom26Bits h6 h.t7
  let (h7, h8) ← settle 25 kBottom25Bits h7 h.t8
  let (h8, h9) ← settle 26 kBottom26Bits h8 h.t9
  let h9 := toInt32 (land64 h9 kBottom25Bits)
  return writeLimbs ⟨h0, h1, h2, h3, h4, h5, h6, h7, h8, h9⟩

-- ---------------------------------------------------------------------------
-- Reading
-- ---------------------------------------------------------------------------

theorem load3_eq (s : Bytes) (i : Nat) :
    load3 s i = (s.getD i 0).toNat + 2 ^ 8 * (s.getD (i + 1) 0).toNat +
      2 ^ 16 * (s.getD (i + 2) 0).toNat := by
  have h0 := (s.getD i 0).toNat_lt
  have h1 := (s.getD (i + 1) 0).toNat_lt
  rw [load3, or_shiftLeft_of_lt h0, or_shiftLeft_of_lt (by omega)]

theorem load3_lt (s : Bytes) (i : Nat) : load3 s i < 2 ^ 24 := by
  have h0 := (s.getD i 0).toNat_lt
  have h1 := (s.getD (i + 1) 0).toNat_lt
  have h2 := (s.getD (i + 2) 0).toNat_lt
  rw [load3_eq]
  omega

theorem load4_eq (s : Bytes) (i : Nat) :
    load4 s i = (s.getD i 0).toNat + 2 ^ 8 * (s.getD (i + 1) 0).toNat +
      2 ^ 16 * (s.getD (i + 2) 0).toNat +
      2 ^ 24 * (s.getD (i + 3) 0).toNat := by
  rw [load4, ← load3, or_shiftLeft_of_lt (load3_lt s i), load3_eq]

theorem load4_lt (s : Bytes) (i : Nat) : load4 s i < 2 ^ 32 := by
  have h := load3_lt s i
  have h3 := (s.getD (i + 3) 0).toNat_lt
  rw [load4, ← load3, or_shiftLeft_of_lt h]
  omega

theorem fromLE_mod (hlen : s.length = 32) :
    fromLE s % 2 ^ 255 = ∑ i ∈ Finset.range 31, (s.getD i 0).toNat * 256 ^ i +
      (s.getD 31 0).toNat % 128 * 256 ^ 31 := by
  have hlow : ∑ i ∈ Finset.range 31, (s.getD i 0).toNat * 256 ^ i < 256 ^ 31 := by
    have h := fromLE_lt (s.take 31)
    rw [fromLE_eq_sum, List.length_take, Nat.min_eq_left (by omega)] at h
    refine Nat.lt_of_le_of_lt (Nat.le_of_eq (Finset.sum_congr rfl fun i hi => ?_)) h
    rw [List.getD_eq_getElem?_getD, List.getD_eq_getElem?_getD,
      List.getElem?_take_of_lt (Finset.mem_range.mp hi)]
  rw [fromLE_eq_sum, hlen, Finset.sum_range_succ]
  omega

theorem and_low23 (n : Nat) : n &&& 8388607 = n % 2 ^ 23 := Nat.and_two_pow_sub_one_eq_mod n 23

theorem below_readLimbs (s : Bytes) : (readLimbs s).Below 10000000000000 := by
  have hbelow (x : Nat) (hx : x < 2 ^ 32) : |(x : Int)| ≤ 10000000000000 := by
    rw [abs_of_nonneg (Int.natCast_nonneg x)]
    omega
  have hshift (i k : Nat) (hk : k ≤ 8) : load3 s i <<< k < 2 ^ 32 := by
    rw [Nat.shiftLeft_eq]
    exact Nat.lt_of_lt_of_le (Nat.mul_lt_mul_of_pos_right (load3_lt s i) (Nat.two_pow_pos k))
      (Nat.mul_le_mul_left _ (Nat.pow_le_pow_right (by decide) hk))
  exact ⟨hbelow _ (load4_lt s 0), hbelow _ (hshift 4 6 (by decide)),
    hbelow _ (hshift 7 5 (by decide)), hbelow _ (hshift 10 3 (by decide)),
    hbelow _ (hshift 13 2 (by decide)), hbelow _ (load4_lt s 16),
    hbelow _ (hshift 20 7 (by decide)), hbelow _ (hshift 23 5 (by decide)),
    hbelow _ (hshift 26 4 (by decide)), hbelow _ (by rw [and_low23, Nat.shiftLeft_eq]; omega)⟩

theorem value_readLimbs (hlen : s.length = 32) :
    (readLimbs s).value = (fromLE s % 2 ^ 255 : Nat) := by
  have hlast : load3 s 29 % 2 ^ 23 = (s.getD 29 0).toNat + 2 ^ 8 * (s.getD 30 0).toNat +
      2 ^ 16 * ((s.getD 31 0).toNat % 128) := by
    have h0 := (s.getD 29 0).toNat_lt
    have h1 := (s.getD 30 0).toNat_lt
    simp only [load3_eq, Nat.reduceAdd]
    omega
  rw [fromLE_mod hlen]
  simp only [readLimbs, Fe.value, and_low23, hlast]
  simp only [Nat.shiftLeft_eq, load4_eq, load3_eq, Nat.reduceAdd, Finset.sum_range_succ,
    Finset.sum_range_zero]
  push_cast
  ring

theorem feFromBytes_eq (hlen : s.length = 32) :
    ∃ h, feFromBytes s = some h ∧ h.Within tight ∧ h.residue = (fromLE s % 2 ^ 255 : Nat) := by
  obtain ⟨h, hcarry, hwithin, hresidue⟩ := carryLimbs_eq (below_readLimbs s)
  exact ⟨h, hcarry, hwithin, by rw [hresidue, Fe.residue, value_readLimbs hlen, Int.cast_natCast]⟩

-- ---------------------------------------------------------------------------
-- Carries up to the last limb
-- ---------------------------------------------------------------------------

/-- The limbs with what is carried into them once `c` is added. -/
def carryChain (c : Int) (h : Fe) : Fe :=
  let y0 := h.t0 + c
  let y1 := h.t1 + y0 / 2 ^ 26
  let y2 := h.t2 + y1 / 2 ^ 25
  let y3 := h.t3 + y2 / 2 ^ 26
  let y4 := h.t4 + y3 / 2 ^ 25
  let y5 := h.t5 + y4 / 2 ^ 26
  let y6 := h.t6 + y5 / 2 ^ 25
  let y7 := h.t7 + y6 / 2 ^ 26
  let y8 := h.t8 + y7 / 2 ^ 25
  let y9 := h.t9 + y8 / 2 ^ 26
  ⟨y0, y1, y2, y3, y4, y5, y6, y7, y8, y9⟩

def carryOut (c : Int) (h : Fe) : Int := (carryChain c h).t9 / 2 ^ 25

def carriedUp (c : Int) (h : Fe) : Fe :=
  let y := carryChain c h
  ⟨y.t0 % 2 ^ 26, y.t1 % 2 ^ 25, y.t2 % 2 ^ 26, y.t3 % 2 ^ 25, y.t4 % 2 ^ 26, y.t5 % 2 ^ 25,
    y.t6 % 2 ^ 26, y.t7 % 2 ^ 25, y.t8 % 2 ^ 26, y.t9 % 2 ^ 25⟩

/-- The limbs are digits. -/
structure Fe.Digits (x : Fe) : Prop where
  t0 : 0 ≤ x.t0 ∧ x.t0 < 2 ^ 26
  t1 : 0 ≤ x.t1 ∧ x.t1 < 2 ^ 25
  t2 : 0 ≤ x.t2 ∧ x.t2 < 2 ^ 26
  t3 : 0 ≤ x.t3 ∧ x.t3 < 2 ^ 25
  t4 : 0 ≤ x.t4 ∧ x.t4 < 2 ^ 26
  t5 : 0 ≤ x.t5 ∧ x.t5 < 2 ^ 25
  t6 : 0 ≤ x.t6 ∧ x.t6 < 2 ^ 26
  t7 : 0 ≤ x.t7 ∧ x.t7 < 2 ^ 25
  t8 : 0 ≤ x.t8 ∧ x.t8 < 2 ^ 26
  t9 : 0 ≤ x.t9 ∧ x.t9 < 2 ^ 25

theorem digits_carriedUp (c : Int) (h : Fe) : (carriedUp c h).Digits := by
  have hrange (y : Int) (n : Nat) : 0 ≤ y % 2 ^ n ∧ y % 2 ^ n < 2 ^ n :=
    ⟨Int.emod_nonneg _ (Int.ne_of_gt (Int.pow_pos (by decide))),
      Int.emod_lt_of_pos _ (Int.pow_pos (by decide))⟩
  exact ⟨hrange _ 26, hrange _ 25, hrange _ 26, hrange _ 25, hrange _ 26, hrange _ 25, hrange _ 26,
    hrange _ 25, hrange _ 26, hrange _ 25⟩

theorem Fe.Digits.value_range {x : Fe} (h : x.Digits) : 0 ≤ x.value ∧ x.value < 2 ^ 255 := by
  obtain ⟨h0, h1, h2, h3, h4, h5, h6, h7, h8, h9⟩ := h
  rw [Fe.value]
  omega

theorem value_carriedUp (c : Int) (h : Fe) :
    (carriedUp c h).value = (h.value + c) % 2 ^ 255 ∧ carryOut c h = (h.value + c) / 2 ^ 255 := by
  have hsum : 2 ^ 255 * carryOut c h + (carriedUp c h).value = h.value + c := by
    simp only [carryOut, carriedUp, carryChain, Fe.value]
    generalize hy0 : h.t0 + c = y0
    generalize hy1 : h.t1 + y0 / 2 ^ 26 = y1
    generalize hy2 : h.t2 + y1 / 2 ^ 25 = y2
    generalize hy3 : h.t3 + y2 / 2 ^ 26 = y3
    generalize hy4 : h.t4 + y3 / 2 ^ 25 = y4
    generalize hy5 : h.t5 + y4 / 2 ^ 26 = y5
    generalize hy6 : h.t6 + y5 / 2 ^ 25 = y6
    generalize hy7 : h.t7 + y6 / 2 ^ 26 = y7
    generalize hy8 : h.t8 + y7 / 2 ^ 25 = y8
    generalize hy9 : h.t9 + y8 / 2 ^ 26 = y9
    omega
  have hrange := (digits_carriedUp c h).value_range
  have hunique := (Int.ediv_emod_unique (show (0 : Int) < 2 ^ 255 by decide)).mpr
    ⟨by rw [Int.add_comm, hsum], hrange.1, hrange.2⟩
  exact ⟨hunique.2.symm, hunique.1.symm⟩

theorem p_eq : (p : Int) = 2 ^ 255 - 19 := rfl

/-- The claim of the comment at `fe_tobytes`: the quotient by the prime, from the last limb. -/
theorem quotient_eq {h : Fe} (hh : h.Within wide) :
    (h.value + (19 * h.t9 + 2 ^ 24) / 2 ^ 25) / 2 ^ 255 = h.value / p := by
  have h0 := abs_le.mp hh.t0
  have h1 := abs_le.mp hh.t1
  have h2 := abs_le.mp hh.t2
  have h3 := abs_le.mp hh.t3
  have h4 := abs_le.mp hh.t4
  have h5 := abs_le.mp hh.t5
  have h6 := abs_le.mp hh.t6
  have h7 := abs_le.mp hh.t7
  have h8 := abs_le.mp hh.t8
  have h9 := abs_le.mp hh.t9
  simp only [wide] at h0 h1 h2 h3 h4 h5 h6 h7 h8 h9
  -- the limbs below the last one are small beside the prime
  obtain ⟨low, hlow, hsplit⟩ : ∃ low : Int, (-2 ^ 232 ≤ low ∧ low ≤ 2 ^ 232) ∧
      h.value = low + 2 ^ 230 * h.t9 :=
        ⟨h.value - 2 ^ 230 * h.t9, by rw [Fe.value]; omega, by omega⟩
  have hdiv := Int.mul_ediv_add_emod h.value p
  have hnonneg := Int.emod_nonneg h.value (show (p : Int) ≠ 0 by decide)
  have hlt := Int.emod_lt_of_pos h.value (show (0 : Int) < p by decide)
  generalize h.value % p = r at *
  generalize h.value / p = k at *
  rw [p_eq] at *
  refine ((Int.ediv_emod_unique (r := r - 19 * k + (19 * h.t9 + 2 ^ 24) / 2 ^ 25)
    (show (0 : Int) < 2 ^ 255 by decide)).mpr ⟨?_, ?_, ?_⟩).1
  · rw [← hdiv]
    ring
  · omega
  · omega

-- ---------------------------------------------------------------------------
-- Writing
-- ---------------------------------------------------------------------------

theorem toNat_byte (x : Int) : ((byte x).toNat : Int) = x % 256 := by
  have hnonneg := Int.emod_nonneg x (show (256 : Int) ≠ 0 by decide)
  have hlt := Int.emod_lt_of_pos x (show (0 : Int) < 256 by decide)
  rw [byte, UInt8.toNat_ofNat', Nat.mod_eq_of_lt (by omega), Int.toNat_of_nonneg hnonneg]

theorem toNat_byteJoin (hk : k ≤ 6) (hx : 0 ≤ x) (hx' : x < 2 ^ k) (hy : 0 ≤ y) (hy' : y < 2 ^ 26) :
    ((byteJoin x y k).toNat : Int) = (x + 2 ^ k * y) % 256 := by
  obtain ⟨a, rfl⟩ := Int.eq_ofNat_of_zero_le hx
  obtain ⟨b, rfl⟩ := Int.eq_ofNat_of_zero_le hy
  have ha : a < 2 ^ k := by exact_mod_cast hx'
  have hpow : 2 ^ k ≤ 2 ^ 6 := Nat.pow_le_pow_right (by decide) hk
  have hshift : b <<< k < 2 ^ 32 := by
    rw [Nat.shiftLeft_eq]
    calc b * 2 ^ k ≤ b * 2 ^ 6 := Nat.mul_le_mul_left _ hpow
      _ < 2 ^ 32 := by omega
  have hword : (BitVec.ofInt 32 (a : Int) ||| BitVec.ofInt 32 (b : Int) <<< k).toNat =
      a + 2 ^ k * b := by
    rw [BitVec.toNat_or, BitVec.toNat_shiftLeft, BitVec.ofInt_natCast, BitVec.ofInt_natCast,
      BitVec.toNat_ofNat, BitVec.toNat_ofNat, Nat.mod_eq_of_lt (show a < 2 ^ 32 by omega),
      Nat.mod_eq_of_lt (show b < 2 ^ 32 by omega), Nat.mod_eq_of_lt hshift, or_shiftLeft_of_lt ha]
  rw [byteJoin, hword, UInt8.toNat_ofNat']
  push_cast
  rfl

/-- Every limb is cut in bytes, of which the last one has the low bits of the next limb. -/
theorem value_writeLimbs {x : Fe} (hx : x.Digits) : (fromLE (writeLimbs x) : Int) = x.value := by
  obtain ⟨h0, h1, h2, h3, h4, h5, h6, h7, h8, h9⟩ := hx
  have l0 : x.t0 % 256 + 256 * (x.t0 / 256 % 256) + 65536 * (x.t0 / 65536 % 256) +
      16777216 * ((x.t0 / 16777216 + 2 ^ 2 * x.t1) % 256) = x.t0 + 67108864 * (x.t1 % 64) := by
        omega
  have l1 : x.t1 % 64 + 64 * (x.t1 / 64 % 256) + 16384 * (x.t1 / 16384 % 256) +
      4194304 * ((x.t1 / 4194304 + 2 ^ 3 * x.t2) % 256) = x.t1 + 33554432 * (x.t2 % 32) := by omega
  have l2 : x.t2 % 32 + 32 * (x.t2 / 32 % 256) + 8192 * (x.t2 / 8192 % 256) +
      2097152 * ((x.t2 / 2097152 +
      2 ^ 5 * x.t3) % 256) = x.t2 + 67108864 * (x.t3 % 8) := by omega
  have l3 : x.t3 % 8 + 8 * (x.t3 / 8 % 256) + 2048 * (x.t3 / 2048 % 256) +
      524288 * ((x.t3 / 524288 +
      2 ^ 6 * x.t4) % 256) = x.t3 + 33554432 * (x.t4 % 4) := by omega
  have l4 : x.t4 % 4 + 4 * (x.t4 / 4 % 256) + 1024 * (x.t4 / 1024 % 256) +
      262144 * (x.t4 / 262144 % 256) = x.t4 := by omega
  have l5 : x.t5 % 256 + 256 * (x.t5 / 256 % 256) + 65536 * (x.t5 / 65536 % 256) +
      16777216 * ((x.t5 / 16777216 + 2 ^ 1 * x.t6) % 256) = x.t5 + 33554432 * (x.t6 % 128) := by
        omega
  have l6 : x.t6 % 128 + 128 * (x.t6 / 128 % 256) + 32768 * (x.t6 / 32768 % 256) +
      8388608 * ((x.t6 / 8388608 + 2 ^ 3 * x.t7) % 256) = x.t6 + 67108864 * (x.t7 % 32) := by omega
  have l7 : x.t7 % 32 + 32 * (x.t7 / 32 % 256) + 8192 * (x.t7 / 8192 % 256) +
      2097152 * ((x.t7 / 2097152 +
      2 ^ 4 * x.t8) % 256) = x.t7 + 33554432 * (x.t8 % 16) := by omega
  have l8 : x.t8 % 16 + 16 * (x.t8 / 16 % 256) + 4096 * (x.t8 / 4096 % 256) +
      1048576 * ((x.t8 / 1048576 +
      2 ^ 6 * x.t9) % 256) = x.t8 + 67108864 * (x.t9 % 4) := by omega
  have l9 : x.t9 % 4 + 4 * (x.t9 / 4 % 256) + 1024 * (x.t9 / 1024 % 256) +
      262144 * (x.t9 / 262144 % 256) = x.t9 := by omega
  simp only [writeLimbs, fromLE_cons, Int.shiftRight_eq_div_pow]
  push_cast
  simp (disch := omega) only [toNat_byte, toNat_byteJoin, show fromLE [] = 0 from rfl,
    Nat.cast_zero]
  rw [Fe.value]
  linear_combination l0 + 2 ^ 26 * l1 + 2 ^ 51 * l2 + 2 ^ 77 * l3 + 2 ^ 102 * l4 + 2 ^ 128 * l5 +
    2 ^ 153 * l6 + 2 ^ 179 * l7 + 2 ^ 204 * l8 + 2 ^ 230 * l9

theorem Fe.Within.range {t : Fe} (h : t.Within a) :
    (-(2 * a) ≤ t.t0 ∧ t.t0 ≤ 2 * a) ∧ (-a ≤ t.t1 ∧ t.t1 ≤ a) ∧ (-(2 * a) ≤ t.t2 ∧ t.t2 ≤ 2 * a) ∧
      (-a ≤ t.t3 ∧ t.t3 ≤ a) ∧ (-(2 * a) ≤ t.t4 ∧ t.t4 ≤ 2 * a) ∧ (-a ≤ t.t5 ∧ t.t5 ≤ a) ∧
      (-(2 * a) ≤ t.t6 ∧ t.t6 ≤ 2 * a) ∧ (-a ≤ t.t7 ∧ t.t7 ≤ a) ∧ (-(2 * a) ≤ t.t8 ∧ t.t8 ≤ 2 * a) ∧
      (-a ≤ t.t9 ∧ t.t9 ≤ a) :=
  ⟨abs_le.mp h.t0, abs_le.mp h.t1, abs_le.mp h.t2, abs_le.mp h.t3, abs_le.mp h.t4, abs_le.mp h.t5,
    abs_le.mp h.t6, abs_le.mp h.t7, abs_le.mp h.t8, abs_le.mp h.t9⟩

theorem carryChain_spec {h : Fe} (hh : h.Within wide) (hc : -1000 ≤ c ∧ c ≤ 1000) :
    ∃ y, carryChain c h = y ∧ int32 (h.t0 + c) = some y.t0 ∧
      int32 (h.t1 + y.t0 >>> (26 : Nat)) = some y.t1 ∧
      int32 (h.t2 + y.t1 >>> (25 : Nat)) = some y.t2 ∧
      int32 (h.t3 + y.t2 >>> (26 : Nat)) = some y.t3 ∧
      int32 (h.t4 + y.t3 >>> (25 : Nat)) = some y.t4 ∧
      int32 (h.t5 + y.t4 >>> (26 : Nat)) = some y.t5 ∧
      int32 (h.t6 + y.t5 >>> (25 : Nat)) = some y.t6 ∧
      int32 (h.t7 + y.t6 >>> (26 : Nat)) = some y.t7 ∧
      int32 (h.t8 + y.t7 >>> (25 : Nat)) = some y.t8 ∧
      int32 (h.t9 + y.t8 >>> (26 : Nat)) = some y.t9 ∧
      (-2 ^ 28 ≤ y.t9 ∧ y.t9 ≤ 2 ^ 28) := by
  have hrange := hh.range
  simp only [wide] at hrange
  obtain ⟨y, hy⟩ : ∃ y, carryChain c h = y := ⟨_, rfl⟩
  have y0 : y.t0 = h.t0 + c := hy ▸ rfl
  have y1 : y.t1 = h.t1 + y.t0 / 2 ^ 26 := hy ▸ rfl
  have y2 : y.t2 = h.t2 + y.t1 / 2 ^ 25 := hy ▸ rfl
  have y3 : y.t3 = h.t3 + y.t2 / 2 ^ 26 := hy ▸ rfl
  have y4 : y.t4 = h.t4 + y.t3 / 2 ^ 25 := hy ▸ rfl
  have y5 : y.t5 = h.t5 + y.t4 / 2 ^ 26 := hy ▸ rfl
  have y6 : y.t6 = h.t6 + y.t5 / 2 ^ 25 := hy ▸ rfl
  have y7 : y.t7 = h.t7 + y.t6 / 2 ^ 26 := hy ▸ rfl
  have y8 : y.t8 = h.t8 + y.t7 / 2 ^ 25 := hy ▸ rfl
  have y9 : y.t9 = h.t9 + y.t8 / 2 ^ 26 := hy ▸ rfl
  have r0 : -2 ^ 28 ≤ y.t0 ∧ y.t0 ≤ 2 ^ 28 := by omega
  have r1 : -2 ^ 28 ≤ y.t1 ∧ y.t1 ≤ 2 ^ 28 := by omega
  have r2 : -2 ^ 28 ≤ y.t2 ∧ y.t2 ≤ 2 ^ 28 := by omega
  have r3 : -2 ^ 28 ≤ y.t3 ∧ y.t3 ≤ 2 ^ 28 := by omega
  have r4 : -2 ^ 28 ≤ y.t4 ∧ y.t4 ≤ 2 ^ 28 := by omega
  have r5 : -2 ^ 28 ≤ y.t5 ∧ y.t5 ≤ 2 ^ 28 := by omega
  have r6 : -2 ^ 28 ≤ y.t6 ∧ y.t6 ≤ 2 ^ 28 := by omega
  have r7 : -2 ^ 28 ≤ y.t7 ∧ y.t7 ≤ 2 ^ 28 := by omega
  have r8 : -2 ^ 28 ≤ y.t8 ∧ y.t8 ≤ 2 ^ 28 := by omega
  have r9 : -2 ^ 28 ≤ y.t9 ∧ y.t9 ≤ 2 ^ 28 := by omega
  have hfits {x : Int} (hx : -2 ^ 28 ≤ x ∧ x ≤ 2 ^ 28) : int32 x = some x :=
    int32_of_range (by omega) (by omega)
  refine ⟨y, hy, ?_⟩
  simp only [Int.shiftRight_eq_div_pow, Nat.cast_pow, Nat.cast_ofNat]
  rw [← y0, ← y1, ← y2, ← y3, ← y4, ← y5, ← y6, ← y7, ← y8, ← y9]
  exact ⟨hfits r0, hfits r1, hfits r2, hfits r3, hfits r4, hfits r5, hfits r6, hfits r7, hfits r8,
    hfits r9, r9⟩

theorem toInt32_bottom (hn : n = 25 ∧ bottom = kBottom25Bits ∨ n = 26 ∧ bottom = kBottom26Bits)
    (h : Int) :
    toInt32 (land64 h bottom) = h % 2 ^ n := by
  have hnonneg := Int.emod_nonneg h (show (2 : Int) ^ n ≠
    0 from Int.ne_of_gt (Int.pow_pos (by decide)))
  have hlt := Int.emod_lt_of_pos h (show (0 : Int) < 2 ^ n from Int.pow_pos (by decide))
  obtain ⟨rfl, rfl⟩ | ⟨rfl, rfl⟩ := hn
  · rw [show kBottom25Bits = BitVec.ofNat 64 (2 ^ 25 - 1) by decide, land64_low (by decide)]
    exact toInt32_of_range (by omega) (by omega)
  · rw [show kBottom26Bits = BitVec.ofNat 64 (2 ^ 26 - 1) by decide, land64_low (by decide)]
    exact toInt32_of_range (by omega) (by omega)

theorem settle_of_int32 (hn : n = 25 ∧ bottom = kBottom25Bits ∨ n = 26 ∧ bottom = kBottom26Bits)
    (hnext : int32 (next + h >>> n) = some y) : settle n bottom h next = some (h % 2 ^ n, y) := by
  simp only [settle, hnext, toInt32_bottom hn, Option.bind_eq_bind, Option.bind_some,
    Option.pure_def]

theorem feToBytes_eq_carriedUp {h : Fe} (hh : h.Within wide) :
    feToBytes h = some (writeLimbs (carriedUp (19 * carryOut ((19 * h.t9 + 2 ^ 24) / 2 ^ 25) h) h)) := by
  have hrange := hh.range
  simp only [wide] at hrange
  obtain ⟨y, hy, f0, f1, f2, f3, f4, f5, f6, f7, f8, f9, hlast⟩ :=
    carryChain_spec (c := (19 * h.t9 + 2 ^ 24) / 2 ^ 25) hh (by omega)
  have hshift (x : Int) : x >>> (25 : Nat) = x / 2 ^ 25 := Int.shiftRight_eq_div_pow x 25
  obtain ⟨z, hz, g0, g1, g2, g3, g4, g5, g6, g7, g8, g9, -⟩ :=
    carryChain_spec (c := 19 * (y.t9 / 2 ^ 25)) hh (by omega)
  have s0 := settle_of_int32 (.inr ⟨rfl, rfl⟩) g1
  have s1 := settle_of_int32 (.inl ⟨rfl, rfl⟩) g2
  have s2 := settle_of_int32 (.inr ⟨rfl, rfl⟩) g3
  have s3 := settle_of_int32 (.inl ⟨rfl, rfl⟩) g4
  have s4 := settle_of_int32 (.inr ⟨rfl, rfl⟩) g5
  have s5 := settle_of_int32 (.inl ⟨rfl, rfl⟩) g6
  have s6 := settle_of_int32 (.inr ⟨rfl, rfl⟩) g7
  have s7 := settle_of_int32 (.inl ⟨rfl, rfl⟩) g8
  have s8 := settle_of_int32 (.inr ⟨rfl, rfl⟩) g9
  have hfits {x : Int} (hx : -2 ^ 31 ≤ x ∧ x < 2 ^ 31) : int32 x = some x :=
    int32_of_range hx.1 hx.2
  have hq := hfits (x := 19 * h.t9) (by omega)
  have hq' := hfits (x := 19 * h.t9 + 2 ^ 24) (by omega)
  have hq'' := hfits (x := 19 * (y.t9 / 2 ^ 25)) (by omega)
  rw [carryOut, hy, carriedUp, hz]
  rw [← hshift] at f0 hq'' g0
  rw [feToBytes]
  refine bind_of_eq_some hq ?_
  refine bind_of_eq_some hq' ?_
  refine bind_of_eq_some f0 ?_
  refine bind_of_eq_some f1 ?_
  refine bind_of_eq_some f2 ?_
  refine bind_of_eq_some f3 ?_
  refine bind_of_eq_some f4 ?_
  refine bind_of_eq_some f5 ?_
  refine bind_of_eq_some f6 ?_
  refine bind_of_eq_some f7 ?_
  refine bind_of_eq_some f8 ?_
  refine bind_of_eq_some f9 ?_
  refine bind_of_eq_some hq'' ?_
  refine bind_of_eq_some g0 ?_
  refine bind_of_eq_some s0 ?_
  refine bind_of_eq_some s1 ?_
  refine bind_of_eq_some s2 ?_
  refine bind_of_eq_some s3 ?_
  refine bind_of_eq_some s4 ?_
  refine bind_of_eq_some s5 ?_
  refine bind_of_eq_some s6 ?_
  refine bind_of_eq_some s7 ?_
  refine bind_of_eq_some s8 ?_
  dsimp only
  rw [toInt32_bottom (.inl ⟨rfl, rfl⟩), Option.pure_def]

theorem feToBytes_eq {h : Fe} (hh : h.Within wide) :
    feToBytes h = some (toLE 32 h.residue.val) := by
  rw [feToBytes_eq_carriedUp hh]
  have hlen : ∀ x, (writeLimbs x).length = 32 := fun _ => rfl
  have hdigits := digits_carriedUp (19 * carryOut ((19 * h.t9 + 2 ^ 24) / 2 ^ 25) h) h
  rw [← toLE_fromLE (writeLimbs _), hlen]
  congr 2
  have hbytes := value_writeLimbs hdigits
  generalize fromLE (writeLimbs _) = n at *
  rw [(value_carriedUp _ h).1, (value_carriedUp _ h).2, quotient_eq hh] at hbytes
  have hval : (h.residue.val : Int) = h.value % p := ZMod.val_intCast h.value
  have hdiv := Int.mul_ediv_add_emod h.value p
  have hnonneg := Int.emod_nonneg h.value (show (p : Int) ≠ 0 by decide)
  have hlt := Int.emod_lt_of_pos h.value (show (0 : Int) < p by decide)
  generalize h.value % p = r at *
  generalize h.value / p = k at *
  rw [p_eq] at *
  omega

end Speculos.Curve25519
