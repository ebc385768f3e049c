import Speculos.Hash.Fips180
import Speculos.Hash.Sha2
import Speculos.Lib.Window

/-!
# The block functions of SHA-2

`cx_sha256_block`, and `cx_sha512_block` where the compiler has words of 64 bits. The block
becomes the message schedule as the rounds go on: every round from the sixteenth on overwrites
the word that is no longer needed. The two functions differ in their words, constants and
macros.
-/

namespace Speculos.Hash

open Lib
open Fips180 (Working)

-- ---------------------------------------------------------------------------
-- Rounds
-- ---------------------------------------------------------------------------

local instance neZero_words : NeZero 16 := Fips180.neZero_block

/-- What the macros of a file and its table `primeSqrt` stand for. -/
structure Macros (ω : Type) where
  rounds : Nat
  primeSqrt : Nat → ω
  sigma0 : ω → ω
  sigma1 : ω → ω
  sum0 : ω → ω
  sum1 : ω → ω
  ch : ω → ω → ω → ω
  maj : ω → ω → ω → ω

section

variable {ω : Type} [Add ω] (macros : Macros ω)

/-- The assignment to `X[j & 0xF]`. -/
def extend (x : Vector ω 16) (j : Nat) : Vector ω 16 :=
  if j ≥ 16 then
    Window.put x j (macros.sigma1 (Window.get x (j - 2)) + Window.get x (j - 7) +
      macros.sigma0 (Window.get x (j - 15)) + Window.get x (j - 16))
  else x

/-- `memmove(&ACC[1], &ACC[0], …)`, or the assignments from `H = G` to `B = A`. -/
def moveDown (v : Working ω) : Working ω := ⟨v.a, v.a, v.b, v.c, v.d, v.e, v.f, v.g⟩

def blockRound (s : Vector ω 16 × Working ω) (j : Nat) : Vector ω 16 × Working ω :=
  let (x, v) := s
  let x := extend macros x j
  let t1 := v.h + macros.sum1 v.e + macros.ch v.e v.f v.g + macros.primeSqrt j + Window.get x j
  let t2 := macros.sum0 v.a + macros.maj v.a v.b v.c
  let v := moveDown v
  let v := { v with e := v.e + t1 }
  (x, { v with a := t1 + t2 })

def blockRounds (s : Vector ω 16 × Working ω) : Nat → Vector ω 16 × Working ω
  | 0 => s
  | j + 1 => blockRound macros (blockRounds s j) j

/-- The chaining value and what is left of the block, whose words are in order. -/
def blockFrom (acc : Vector ω 8) (x : Vector ω 16) : Vector ω 8 × Vector ω 16 :=
  let (x, v) := blockRounds macros (x, .ofVector acc) macros.rounds
  (v.addTo acc, x)

end

-- ---------------------------------------------------------------------------
-- cx_sha256.c
-- ---------------------------------------------------------------------------

def cxRotr (x n : UInt32) : UInt32 := (x >>> n) ||| (x <<< (32 - n))

def sig256 (x a b c : UInt32) : UInt32 := cxRotr x a ^^^ cxRotr x b ^^^ (x >>> c)

def sum256 (x a b c : UInt32) : UInt32 := cxRotr x a ^^^ cxRotr x b ^^^ cxRotr x c

def primeSqrt256 : List UInt32 :=
  [0x428a2f98, 0x71374491, 0xb5c0fbcf, 0xe9b5dba5, 0x3956c25b, 0x59f111f1, 0x923f82a4,
   0xab1c5ed5, 0xd807aa98, 0x12835b01, 0x243185be, 0x550c7dc3, 0x72be5d74, 0x80deb1fe,
   0x9bdc06a7, 0xc19bf174, 0xe49b69c1, 0xefbe4786, 0x0fc19dc6, 0x240ca1cc, 0x2de92c6f,
   0x4a7484aa, 0x5cb0a9dc, 0x76f988da, 0x983e5152, 0xa831c66d, 0xb00327c8, 0xbf597fc7,
   0xc6e00bf3, 0xd5a79147, 0x06ca6351, 0x14292967, 0x27b70a85, 0x2e1b2138, 0x4d2c6dfc,
   0x53380d13, 0x650a7354, 0x766a0abb, 0x81c2c92e, 0x92722c85, 0xa2bfe8a1, 0xa81a664b,
   0xc24b8b70, 0xc76c51a3, 0xd192e819, 0xd6990624, 0xf40e3585, 0x106aa070, 0x19a4c116,
   0x1e376c08, 0x2748774c, 0x34b0bcb5, 0x391c0cb3, 0x4ed8aa4a, 0x5b9cca4f, 0x682e6ff3,
   0x748f82ee, 0x78a5636f, 0x84c87814, 0x8cc70208, 0x90befffa, 0xa4506ceb, 0xbef9a3f7,
   0xc67178f2]

def macros256 : Macros UInt32 where
  rounds := 64
  primeSqrt j := primeSqrt256.getD j 0
  sigma0 x := sig256 x 7 18 3
  sigma1 x := sig256 x 17 19 10
  sum0 x := sum256 x 2 13 22
  sum1 x := sum256 x 6 11 25
  ch x y z := z ^^^ (x &&& (y ^^^ z))
  maj x y z := (x &&& y) ||| (z &&& (x ||| y))

/-- `cx_sha256_block` on the words of the memory. -/
def cxSha256Block (acc : Vector UInt32 8) (x : Vector UInt32 16) :
    Vector UInt32 8 × Vector UInt32 16 :=
  blockFrom macros256 acc (x.map specCxSwapUint32)

-- ---------------------------------------------------------------------------
-- cx_sha512.c
-- ---------------------------------------------------------------------------

def cxRotr64 (x n : UInt64) : UInt64 := (x >>> n) ||| (x <<< (64 - n))

def sig512 (x a b c : UInt64) : UInt64 := cxRotr64 x a ^^^ cxRotr64 x b ^^^ (x >>> c)

def sum512 (x a b c : UInt64) : UInt64 := cxRotr64 x a ^^^ cxRotr64 x b ^^^ cxRotr64 x c

def primeSqrt512 : List UInt64 :=
  [0x428a2f98d728ae22, 0x7137449123ef65cd, 0xb5c0fbcfec4d3b2f, 0xe9b5dba58189dbbc,
   0x3956c25bf348b538, 0x59f111f1b605d019, 0x923f82a4af194f9b, 0xab1c5ed5da6d8118,
   0xd807aa98a3030242, 0x12835b0145706fbe, 0x243185be4ee4b28c, 0x550c7dc3d5ffb4e2,
   0x72be5d74f27b896f, 0x80deb1fe3b1696b1, 0x9bdc06a725c71235, 0xc19bf174cf692694,
   0xe49b69c19ef14ad2, 0xefbe4786384f25e3, 0x0fc19dc68b8cd5b5, 0x240ca1cc77ac9c65,
   0x2de92c6f592b0275, 0x4a7484aa6ea6e483, 0x5cb0a9dcbd41fbd4, 0x76f988da831153b5,
   0x983e5152ee66dfab, 0xa831c66d2db43210, 0xb00327c898fb213f, 0xbf597fc7beef0ee4,
   0xc6e00bf33da88fc2, 0xd5a79147930aa725, 0x06ca6351e003826f, 0x142929670a0e6e70,
   0x27b70a8546d22ffc, 0x2e1b21385c26c926, 0x4d2c6dfc5ac42aed, 0x53380d139d95b3df,
   0x650a73548baf63de, 0x766a0abb3c77b2a8, 0x81c2c92e47edaee6, 0x92722c851482353b,
   0xa2bfe8a14cf10364, 0xa81a664bbc423001, 0xc24b8b70d0f89791, 0xc76c51a30654be30,
   0xd192e819d6ef5218, 0xd69906245565a910, 0xf40e35855771202a, 0x106aa07032bbd1b8,
   0x19a4c116b8d2d0c8, 0x1e376c085141ab53, 0x2748774cdf8eeb99, 0x34b0bcb5e19b48a8,
   0x391c0cb3c5c95a63, 0x4ed8aa4ae3418acb, 0x5b9cca4f7763e373, 0x682e6ff3d6b2b8a3,
   0x748f82ee5defb2fc, 0x78a5636f43172f60, 0x84c87814a1f0ab72, 0x8cc702081a6439ec,
   0x90befffa23631e28, 0xa4506cebde82bde9, 0xbef9a3f7b2c67915, 0xc67178f2e372532b,
   0xca273eceea26619c, 0xd186b8c721c0c207, 0xeada7dd6cde0eb1e, 0xf57d4f7fee6ed178,
   0x06f067aa72176fba, 0x0a637dc5a2c898a6, 0x113f9804bef90dae, 0x1b710b35131c471b,
   0x28db77f523047d84, 0x32caab7b40c72493, 0x3c9ebe0a15c9bebc, 0x431d67c49c100d4c,
   0x4cc5d4becb3e42b6, 0x597f299cfc657e2a, 0x5fcb6fab3ad6faec, 0x6c44198c4a475817]

def macros512 : Macros UInt64 where
  rounds := 80
  primeSqrt j := primeSqrt512.getD j 0
  sigma0 x := sig512 x 1 8 7
  sigma1 x := sig512 x 19 61 6
  sum0 x := sum512 x 28 34 39
  sum1 x := sum512 x 14 18 41
  ch x y z := (x &&& y) ^^^ (~~~x &&& z)
  maj x y z := (x &&& y) ^^^ (x &&& z) ^^^ (y &&& z)

/-- `cx_sha512_block` on the words of the memory. -/
def cxSha512Block (acc : Vector UInt64 8) (x : Vector UInt64 16) :
    Vector UInt64 8 × Vector UInt64 16 :=
  blockFrom macros512 acc (x.map specCxSwapUint64)

-- ---------------------------------------------------------------------------
-- The schedule and the rounds
-- ---------------------------------------------------------------------------

/-- The macros and the table compute what the standard says. -/
structure Agrees [AndOp ω] [XorOp ω] [Complement ω] (macros : Macros ω)
    (std : Fips180.Words ω) : Prop where
  rounds : macros.rounds = std.rounds
  k : ∀ t < std.rounds, macros.primeSqrt t = std.k t
  sigma0 : ∀ x, macros.sigma0 x = std.sigma0 x
  sigma1 : ∀ x, macros.sigma1 x = std.sigma1 x
  sum0 : ∀ x, macros.sum0 x = std.sum0 x
  sum1 : ∀ x, macros.sum1 x = std.sum1 x
  ch : ∀ x y z, macros.ch x y z = Fips180.ch x y z
  maj : ∀ x y z, macros.maj x y z = Fips180.maj x y z

section

variable {ω : Type} [AndOp ω] [XorOp ω] [Complement ω] [Add ω] {macros : Macros ω}
  {std : Fips180.Words ω} {m x : Vector ω 16}

theorem extend_holds (h : Agrees macros std)
    (hx : Window.Holds (Fips180.schedule std m) x (max j 16)) :
    Window.Holds (Fips180.schedule std m) (extend macros x j) (max (j + 1) 16) := by
  rw [extend]
  split
  · rename_i hj
    rw [max_eq_left hj] at hx
    rw [max_eq_left (Nat.le_succ_of_le hj)]
    have hnew : macros.sigma1 (Window.get x (j - 2)) + Window.get x (j - 7) +
        macros.sigma0 (Window.get x (j - 15)) + Window.get x (j - 16) =
          Fips180.schedule std m j := by
      rw [Fips180.schedule_of_ge std m hj, h.sigma0, h.sigma1]
      rw [hx.back (by decide) (by decide) (by omega), hx.back (by decide) (by decide) (by omega),
        hx.back (by decide) (by decide) (by omega), hx.back (by decide) (by decide) hj]
    rw [hnew]
    exact hx.push
  · rename_i hj
    have hj : j + 1 ≤ 16 := Nat.lt_of_not_le hj
    rw [max_eq_right (Nat.le_of_succ_le hj)] at hx
    rwa [max_eq_right hj]

theorem blockRound_eq (h : Agrees macros std) (hj : j < std.rounds)
    (hx : Window.Holds (Fips180.schedule std m) x (max j 16)) (v : Working ω) :
    (blockRound macros (x, v) j).2 = Fips180.round std m v j ∧
      Window.Holds (Fips180.schedule std m) (blockRound macros (x, v) j).1 (max (j + 1) 16) := by
  have hnext := extend_holds h hx
  have hword : Window.get (extend macros x j) j = Fips180.schedule std m j :=
    hnext j (by omega) (by omega)
  refine ⟨?_, hnext⟩
  simp only [blockRound, Fips180.round, moveDown, hword, h.sum0, h.sum1, h.ch, h.maj, h.k j hj]

theorem blockRounds_eq (h : Agrees macros std) (v : Working ω) (hj : j ≤ std.rounds) :
    (blockRounds macros (m, v) j).2 = Fips180.roundsFrom std m v j ∧
      Window.Holds (Fips180.schedule std m) (blockRounds macros (m, v) j).1 (max j 16) := by
  induction j with
  | zero =>
    refine ⟨rfl, Window.holds_fill fun i => ?_⟩
    exact (Fips180.schedule_of_lt std m i).symm
  | succ j ih =>
    obtain ⟨hv, hx⟩ := ih (Nat.le_of_succ_le hj)
    rw [Fips180.roundsFrom, ← hv]
    exact blockRound_eq h hj hx _

theorem blockFrom_eq (h : Agrees macros std) (acc : Vector ω 8) :
    (blockFrom macros acc m).1 = Fips180.compress std acc m := by
  have hv := (blockRounds_eq (m := m) h (.ofVector acc) (Nat.le_refl std.rounds)).1
  rw [blockFrom, Fips180.compress, h.rounds, ← hv]

end

-- ---------------------------------------------------------------------------
-- The macros
-- ---------------------------------------------------------------------------

theorem cxRotr_eq (x : UInt32) {n : Nat} (hpos : 0 < n) (hlt : n < 32) :
    cxRotr x (UInt32.ofNat n) = Fips180.rotr32 x n := by
  have hn : (UInt32.ofNat n).toNat = n := UInt32.toNat_ofNat_of_lt' (Nat.lt_trans hlt (by decide))
  have hle : UInt32.ofNat n ≤ 32 := by
    rw [UInt32.le_iff_toNat_le, hn]
    exact Nat.le_of_lt hlt
  have hsub : (32 - UInt32.ofNat n).toNat = 32 - n := by
    rw [UInt32.toNat_sub_of_le _ _ hle, hn]
    rfl
  apply UInt32.toNat_inj.mp
  rw [cxRotr, UInt32.toNat_or, UInt32.toNat_shiftRight, UInt32.toNat_shiftLeft, hn, hsub,
    Nat.mod_eq_of_lt hlt, Nat.mod_eq_of_lt (Nat.sub_lt (by decide) hpos)]
  show _ = (x.toBitVec.rotateRight n).toNat
  rw [BitVec.rotateRight_def, Nat.mod_eq_of_lt hlt, BitVec.toNat_or, BitVec.toNat_ushiftRight,
    BitVec.toNat_shiftLeft]
  rfl

theorem cxRotr64_eq (x : UInt64) {n : Nat} (hpos : 0 < n) (hlt : n < 64) :
    cxRotr64 x (UInt64.ofNat n) = Fips180.rotr64 x n := by
  have hn : (UInt64.ofNat n).toNat = n := UInt64.toNat_ofNat_of_lt' (Nat.lt_trans hlt (by decide))
  have hle : UInt64.ofNat n ≤ 64 := by
    rw [UInt64.le_iff_toNat_le, hn]
    exact Nat.le_of_lt hlt
  have hsub : (64 - UInt64.ofNat n).toNat = 64 - n := by
    rw [UInt64.toNat_sub_of_le _ _ hle, hn]
    rfl
  apply UInt64.toNat_inj.mp
  rw [cxRotr64, UInt64.toNat_or, UInt64.toNat_shiftRight, UInt64.toNat_shiftLeft, hn, hsub,
    Nat.mod_eq_of_lt hlt, Nat.mod_eq_of_lt (Nat.sub_lt (by decide) hpos)]
  show _ = (x.toBitVec.rotateRight n).toNat
  rw [BitVec.rotateRight_def, Nat.mod_eq_of_lt hlt, BitVec.toNat_or, BitVec.toNat_ushiftRight,
    BitVec.toNat_shiftLeft]
  rfl

theorem sig256_eq (x : UInt32) {a b : Nat} (c : UInt32) (ha : 0 < a ∧ a < 32)
    (hb : 0 < b ∧ b < 32) :
    sig256 x (UInt32.ofNat a) (UInt32.ofNat b) c =
      Fips180.rotr32 x a ^^^ Fips180.rotr32 x b ^^^ (x >>> c) := by
  rw [sig256, cxRotr_eq x ha.1 ha.2, cxRotr_eq x hb.1 hb.2]

theorem sum256_eq (x : UInt32) {a b c : Nat} (ha : 0 < a ∧ a < 32) (hb : 0 < b ∧ b < 32)
    (hc : 0 < c ∧ c < 32) :
    sum256 x (UInt32.ofNat a) (UInt32.ofNat b) (UInt32.ofNat c) =
      Fips180.rotr32 x a ^^^ Fips180.rotr32 x b ^^^ Fips180.rotr32 x c := by
  rw [sum256, cxRotr_eq x ha.1 ha.2, cxRotr_eq x hb.1 hb.2, cxRotr_eq x hc.1 hc.2]

theorem sig512_eq (x : UInt64) {a b : Nat} (c : UInt64) (ha : 0 < a ∧ a < 64)
    (hb : 0 < b ∧ b < 64) :
    sig512 x (UInt64.ofNat a) (UInt64.ofNat b) c =
      Fips180.rotr64 x a ^^^ Fips180.rotr64 x b ^^^ (x >>> c) := by
  rw [sig512, cxRotr64_eq x ha.1 ha.2, cxRotr64_eq x hb.1 hb.2]

theorem sum512_eq (x : UInt64) {a b c : Nat} (ha : 0 < a ∧ a < 64) (hb : 0 < b ∧ b < 64)
    (hc : 0 < c ∧ c < 64) :
    sum512 x (UInt64.ofNat a) (UInt64.ofNat b) (UInt64.ofNat c) =
      Fips180.rotr64 x a ^^^ Fips180.rotr64 x b ^^^ Fips180.rotr64 x c := by
  rw [sum512, cxRotr64_eq x ha.1 ha.2, cxRotr64_eq x hb.1 hb.2, cxRotr64_eq x hc.1 hc.2]

theorem ch_eq (x y z : UInt32) : z ^^^ (x &&& (y ^^^ z)) = Fips180.ch x y z := by
  have hbool : ∀ a b c : Bool, (c ^^ (a && (b ^^ c))) = ((a && b) ^^ (!a && c)) := by decide
  apply UInt32.toBitVec_inj.mp
  refine BitVec.eq_of_getElem_eq fun i hi => ?_
  simp [Fips180.ch, hbool]

theorem maj_eq (x y z : UInt32) : (x &&& y) ||| (z &&& (x ||| y)) = Fips180.maj x y z := by
  have hbool : ∀ a b c : Bool, ((a && b) || (c && (a || b))) =
      ((a && b) ^^ (a && c) ^^ (b && c)) := by
    decide
  apply UInt32.toBitVec_inj.mp
  refine BitVec.eq_of_getElem_eq fun i hi => ?_
  simp [Fips180.maj, hbool]

theorem primeSqrt256_eq :
    ∀ t < 64, primeSqrt256.getD t 0 = UInt32.ofNat (Fips180.cubeRootBits 32 t) := by
  decide +kernel

theorem primeSqrt512_eq :
    ∀ t < 80, primeSqrt512.getD t 0 = UInt64.ofNat (Fips180.cubeRootBits 64 t) := by
  decide +kernel

theorem agrees256 : Agrees macros256 Fips180.sha256Words where
  rounds := rfl
  k := primeSqrt256_eq
  sigma0 x := sig256_eq x 3 (a := 7) (b := 18) (by decide) (by decide)
  sigma1 x := sig256_eq x 10 (a := 17) (b := 19) (by decide) (by decide)
  sum0 x := sum256_eq x (a := 2) (b := 13) (c := 22) (by decide) (by decide) (by decide)
  sum1 x := sum256_eq x (a := 6) (b := 11) (c := 25) (by decide) (by decide) (by decide)
  ch := ch_eq
  maj := maj_eq

theorem agrees512 : Agrees macros512 Fips180.sha512Words where
  rounds := rfl
  k := primeSqrt512_eq
  sigma0 x := sig512_eq x 7 (a := 1) (b := 8) (by decide) (by decide)
  sigma1 x := sig512_eq x 6 (a := 19) (b := 61) (by decide) (by decide)
  sum0 x := sum512_eq x (a := 28) (b := 34) (c := 39) (by decide) (by decide) (by decide)
  sum1 x := sum512_eq x (a := 14) (b := 18) (c := 41) (by decide) (by decide) (by decide)
  ch _ _ _ := rfl
  maj _ _ _ := rfl

-- ---------------------------------------------------------------------------
-- The block in memory
-- ---------------------------------------------------------------------------

/-- The bytes of the word `i` of `k` bytes. -/
def octets (block : Bytes) (k : Nat) (i : Fin 16) : Bytes :=
  (List.range k).map fun j => block.getD (k * i + j) 0

def loaded32 (block : Bytes) : Vector UInt32 16 :=
  .ofFn fun i => UInt32.ofNat (fromLE (octets block 4 i))

def loaded64 (block : Bytes) : Vector UInt64 16 :=
  .ofFn fun i => UInt64.ofNat (fromLE (octets block 8 i))

/-- The words of a message block, with the highest byte first. -/
def message32 (block : Bytes) : Vector UInt32 16 :=
  .ofFn fun i => UInt32.ofNat (fromBE (octets block 4 i))

def message64 (block : Bytes) : Vector UInt64 16 :=
  .ofFn fun i => UInt64.ofNat (fromBE (octets block 8 i))

theorem length_octets (block : Bytes) (k : Nat) (i : Fin 16) : (octets block k i).length = k := by
  simp [octets]

theorem toLE_of_reversed (bs : Bytes) {n : Nat}
    (h : toLE bs.length n = toBE bs.length (fromLE bs)) :
    n % 256 ^ bs.length = fromBE bs := by
  have hswap : toBE bs.length (fromLE bs) = bs.reverse := by
    rw [← List.length_reverse, fromLE, toBE_fromBE]
  rw [← fromLE_toLE, h, hswap, fromLE, List.reverse_reverse]

theorem specCxSwapUint32_fromLE (bs : Bytes) (hlen : bs.length = 4) :
    specCxSwapUint32 (UInt32.ofNat (fromLE bs)) = UInt32.ofNat (fromBE bs) := by
  have hlt : fromLE bs < 2 ^ 32 := by
    have hlt := fromLE_lt bs
    rwa [hlen] at hlt
  have hswap := toLE_specCxSwapUint32 (UInt32.ofNat (fromLE bs))
  rw [UInt32.toNat_ofNat_of_lt' hlt] at hswap
  have hvalue := toLE_of_reversed bs (by rw [hlen]; exact hswap)
  have hsmall : (specCxSwapUint32 (UInt32.ofNat (fromLE bs))).toNat < 256 ^ 4 := UInt32.toNat_lt _
  rw [hlen, Nat.mod_eq_of_lt hsmall] at hvalue
  rw [← hvalue, UInt32.ofNat_toNat]

theorem specCxSwapUint64_fromLE (bs : Bytes) (hlen : bs.length = 8) :
    specCxSwapUint64 (UInt64.ofNat (fromLE bs)) = UInt64.ofNat (fromBE bs) := by
  have hlt : fromLE bs < 2 ^ 64 := by
    have hlt := fromLE_lt bs
    rwa [hlen] at hlt
  have hswap := toLE_specCxSwapUint64 (UInt64.ofNat (fromLE bs))
  rw [UInt64.toNat_ofNat_of_lt' hlt] at hswap
  have hvalue := toLE_of_reversed bs (by rw [hlen]; exact hswap)
  have hsmall : (specCxSwapUint64 (UInt64.ofNat (fromLE bs))).toNat < 256 ^ 8 := UInt64.toNat_lt _
  rw [hlen, Nat.mod_eq_of_lt hsmall] at hvalue
  rw [← hvalue, UInt64.ofNat_toNat]

theorem swap_loaded32 (block : Bytes) :
    (loaded32 block).map specCxSwapUint32 = message32 block := by
  ext i hi
  simp [loaded32, message32, specCxSwapUint32_fromLE, length_octets]

theorem swap_loaded64 (block : Bytes) :
    (loaded64 block).map specCxSwapUint64 = message64 block := by
  ext i hi
  simp [loaded64, message64, specCxSwapUint64_fromLE, length_octets]

theorem cxSha256Block_eq (acc : Vector UInt32 8) (block : Bytes) :
    (cxSha256Block acc (loaded32 block)).1 =
      Fips180.compress Fips180.sha256Words acc (message32 block) := by
  rw [cxSha256Block, swap_loaded32 block]
  exact blockFrom_eq agrees256 acc

theorem cxSha512Block_eq (acc : Vector UInt64 8) (block : Bytes) :
    (cxSha512Block acc (loaded64 block)).1 =
      Fips180.compress Fips180.sha512Words acc (message64 block) := by
  rw [cxSha512Block, swap_loaded64 block]
  exact blockFrom_eq agrees512 acc

/-- Both block functions compute the compression function of the standard on the words of the
message block. -/
theorem sha2Blocks_eq (acc256 : Vector UInt32 8) (acc512 : Vector UInt64 8) (block : Bytes) :
    (cxSha256Block acc256 (loaded32 block)).1 =
        Fips180.compress Fips180.sha256Words acc256 (message32 block) ∧
      (cxSha512Block acc512 (loaded64 block)).1 =
        Fips180.compress Fips180.sha512Words acc512 (message64 block) :=
  ⟨cxSha256Block_eq acc256 block, cxSha512Block_eq acc512 block⟩

-- ---------------------------------------------------------------------------
-- Digests
-- ---------------------------------------------------------------------------

def stored (block : Bytes) (k : Nat) (x : Vector Nat 16) : Bytes :=
  block.mapIdx fun p _ => (toLE k (Window.get x (p / k))).getD (p % k) 0

def sha256BlockFunction : BlockFunction (Vector UInt32 8) where
  acc acc block := (cxSha256Block acc (loaded32 block)).1
  block acc block := stored block 4 ((cxSha256Block acc (loaded32 block)).2.map UInt32.toNat)
  length_block _ _ := List.length_mapIdx

def sha512BlockFunction : BlockFunction (Vector UInt64 8) where
  acc acc block := (cxSha512Block acc (loaded64 block)).1
  block acc block := stored block 8 ((cxSha512Block acc (loaded64 block)).2.map UInt64.toNat)
  length_block _ _ := List.length_mapIdx

theorem sha256BlockFunction_acc : sha256BlockFunction.acc = fun acc block =>
    Fips180.compress Fips180.sha256Words acc (message32 block) :=
  funext fun acc => funext (cxSha256Block_eq acc)

theorem sha512BlockFunction_acc : sha512BlockFunction.acc = fun acc block =>
    Fips180.compress Fips180.sha512Words acc (message64 block) :=
  funext fun acc => funext (cxSha512Block_eq acc)

theorem streamed_sha256_standard (pieces : List (Piece 108))
    (hlen : 8 * (message pieces).length < 2 ^ 64)
    (hblocks : (message pieces).length / 64 < 2 ^ 32) :
    streamed cxSha256Init (specCxSha256Update sha256BlockFunction)
        (specCxSha256Final sha256BlockFunction) pieces =
      .ok (sha256.digest (fun acc block =>
        Fips180.compress Fips180.sha256Words acc (message32 block)) (message pieces)) := by
  rw [← sha256BlockFunction_acc]
  exact (streamed_sha256_iff (by decide) specCxSha256Final_sha256 hlen).mpr hblocks sha256BlockFunction

theorem streamed_sha512_standard (pieces : List (Piece 204)) :
    streamed cxSha512Init (specCxSha512Update sha512BlockFunction)
        (specCxSha512Final sha512BlockFunction) pieces =
      if (message pieces).length / 128 ≤ 65535 then
        .ok (sha512.digest (fun acc block =>
          Fips180.compress Fips180.sha512Words acc (message64 block)) (message pieces))
      else .error .thrown := by
  rw [← sha512BlockFunction_acc]
  exact streamed_sha512 sha512BlockFunction pieces

end Speculos.Hash
