import Mathlib.Algebra.GroupWithZero.Nat
import Mathlib.Data.Fin.Basic
import Speculos.Lib.BitString
import Mathlib.Data.Nat.NthRoot.Defs
import Mathlib.Data.Nat.Prime.Basic

/-!
# Hashes as they are standardised

The step mappings of FIPS 202 on bits: `A x y z` is the bit `z` of the lane at `x` and `y`, in a
state array whose lanes have any width. The round constants are bits of a shift register.

The compression function of FIPS 180-4 for words of any width: the whole message schedule,
and the functions of the rounds as they are written there. The constants are parts of the cube
roots of the first primes.
-/

namespace Speculos.Hash.Fips202

open Lib

local instance neZero_sheet : NeZero 5 := ⟨by decide⟩

-- ---------------------------------------------------------------------------
-- Step mappings
-- ---------------------------------------------------------------------------

abbrev StateArray (w : Nat) := Fin 5 → Fin 5 → Fin w → Bool

section

variable {w : Nat} [NeZero w]

def parity (A : StateArray w) (x : Fin 5) (z : Fin w) : Bool :=
  A x 0 z ^^ A x 1 z ^^ A x 2 z ^^ A x 3 z ^^ A x 4 z

def theta (A : StateArray w) : StateArray w := fun x y z =>
  A x y z ^^ parity A (x - 1) z ^^ parity A (x + 1) (z - 1)

/-- Where the lanes are rotated, one after another. -/
def rhoPath : Nat → Fin 5 × Fin 5
  | 0 => (1, 0)
  | t + 1 => ((rhoPath t).2, 2 * (rhoPath t).1 + 3 * (rhoPath t).2)

/-- The lane on the path at `t` is rotated by `(t + 1)(t + 2) / 2`, the one in the middle is not. -/
def offset (x y : Fin 5) : Nat :=
  match (List.range 24).find? fun t => rhoPath t = (x, y) with
  | some t => (t + 1) * (t + 2) / 2
  | none => 0

def rho (A : StateArray w) : StateArray w := fun x y z => A x y (z - Fin.ofNat w (offset x y))

def pi (A : StateArray w) : StateArray w := fun x y z => A (x + 3 * y) x z

def chi (A : StateArray w) : StateArray w := fun x y z =>
  A x y z ^^ (!A (x + 1) y z && A (x + 2) y z)

/-- A turn of the shift register: the bit that leaves at 8 comes back at 0, 4, 5 and 6. -/
def shiftRegister (r : BitVec 8) : BitVec 8 :=
  if r.getLsbD 7 then (r <<< 1) ^^^ 0x71#8 else r <<< 1

def registerAt : Nat → BitVec 8
  | 0 => 1#8
  | t + 1 => shiftRegister (registerAt t)

def rc (t : Nat) : Bool := (registerAt (t % 255)).getLsbD 0

/-- Only the bits `2 ^ j - 1` can be set. -/
def roundConstant (l i z : Nat) : Bool :=
  (List.range (l + 1)).any fun j => z + 1 = 2 ^ j && rc (j + 7 * i)

def iota (l i : Nat) (A : StateArray w) : StateArray w := fun x y z =>
  A x y z ^^ (decide (x = 0 ∧ y = 0) && roundConstant l i z)

def rnd (l : Nat) (A : StateArray w) (i : Nat) : StateArray w := iota l i (chi (pi (rho (theta A))))

end

/-- `KECCAK-f[1600]` -/
def keccakF (A : StateArray 64) : StateArray 64 := (List.range 24).foldl (rnd 6) A

-- ---------------------------------------------------------------------------
-- Strings
-- ---------------------------------------------------------------------------

def ofString (s : Bytes) : StateArray 64 := fun x y z => stringBit s (64 * (5 * y + x) + z)

end Speculos.Hash.Fips202

-- ---------------------------------------------------------------------------
-- SHA-2 as it is standardised
-- ---------------------------------------------------------------------------

namespace Speculos.Hash.Fips180

-- ---------------------------------------------------------------------------
-- Functions
-- ---------------------------------------------------------------------------

/-- What the standard fixes for the words of a member of the family. -/
structure Words (ω : Type) where
  rounds : Nat
  k : Nat → ω
  sum0 : ω → ω
  sum1 : ω → ω
  sigma0 : ω → ω
  sigma1 : ω → ω

/-- The working variables. -/
structure Working (ω : Type) where
  a : ω
  b : ω
  c : ω
  d : ω
  e : ω
  f : ω
  g : ω
  h : ω
  deriving DecidableEq, Repr

def Working.ofVector (acc : Vector ω 8) : Working ω :=
  ⟨acc[0], acc[1], acc[2], acc[3], acc[4], acc[5], acc[6], acc[7]⟩

def Working.addTo [Add ω] (v : Working ω) (acc : Vector ω 8) : Vector ω 8 :=
  #v[acc[0] + v.a, acc[1] + v.b, acc[2] + v.c, acc[3] + v.d, acc[4] + v.e, acc[5] + v.f,
    acc[6] + v.g, acc[7] + v.h]

local instance neZero_block : NeZero 16 := ⟨by decide⟩

/-- The words `W` of the message schedule. -/
def schedule [Add ω] (std : Words ω) (m : Vector ω 16) (t : Nat) : ω :=
  if t < 16 then m.get (Fin.ofNat 16 t)
  else
    std.sigma1 (schedule std m (t - 2)) + schedule std m (t - 7) +
      std.sigma0 (schedule std m (t - 15)) + schedule std m (t - 16)

theorem schedule_of_lt [Add ω] (std : Words ω) (m : Vector ω 16) (i : Fin 16) :
    schedule std m i = m.get i := by
  rw [schedule, if_pos i.isLt, Fin.ofNat_val_eq_self]

theorem schedule_of_ge [Add ω] (std : Words ω) (m : Vector ω 16) (h : 16 ≤ t) :
    schedule std m t = std.sigma1 (schedule std m (t - 2)) + schedule std m (t - 7) +
      std.sigma0 (schedule std m (t - 15)) + schedule std m (t - 16) := by
  rw [schedule, if_neg (Nat.not_lt.mpr h)]

section

variable [AndOp ω] [XorOp ω] [Complement ω] [Add ω]

def ch (x y z : ω) : ω := (x &&& y) ^^^ (~~~x &&& z)

def maj (x y z : ω) : ω := (x &&& y) ^^^ (x &&& z) ^^^ (y &&& z)

def round (std : Words ω) (m : Vector ω 16) (v : Working ω) (t : Nat) : Working ω :=
  let t1 := v.h + std.sum1 v.e + ch v.e v.f v.g + std.k t + schedule std m t
  let t2 := std.sum0 v.a + maj v.a v.b v.c
  { a := t1 + t2, b := v.a, c := v.b, d := v.c, e := v.d + t1, f := v.e, g := v.f, h := v.g }

def roundsFrom (std : Words ω) (m : Vector ω 16) (v : Working ω) : Nat → Working ω
  | 0 => v
  | t + 1 => round std m (roundsFrom std m v t) t

def compress (std : Words ω) (acc : Vector ω 8) (m : Vector ω 16) : Vector ω 8 :=
  (roundsFrom std m (.ofVector acc) std.rounds).addTo acc

end

-- ---------------------------------------------------------------------------
-- Constants
-- ---------------------------------------------------------------------------

def primes : List Nat :=
  [2, 3, 5, 7, 11, 13, 17, 19, 23, 29, 31, 37, 41, 43, 47, 53, 59, 61, 67, 71, 73, 79, 83, 89, 97,
   101, 103, 107, 109, 113, 127, 131, 137, 139, 149, 151, 157, 163, 167, 173, 179, 181, 191, 193,
   197, 199, 211, 223, 227, 229, 233, 239, 241, 251, 257, 263, 269, 271, 277, 281, 283, 293, 307,
   311, 313, 317, 331, 337, 347, 349, 353, 359, 367, 373, 379, 383, 389, 397, 401, 409]

theorem primes_eq : primes = (List.range 410).filter Nat.Prime := by
  have hdivisors : primes = (List.range 410).filter fun n =>
      2 ≤ n ∧ ∀ d ∈ List.range 21, 2 ≤ d → d < n → n % d ≠ 0 := by
    decide
  rw [hdivisors]
  refine List.filter_congr fun n hn => decide_eq_decide.mpr ⟨?_, ?_⟩
  · rintro ⟨htwo, h⟩
    refine Nat.prime_def_le_sqrt.mpr ⟨htwo, fun d hd hle hdvd => ?_⟩
    have hbound : n < 21 ^ 2 := Nat.lt_trans (List.mem_range.mp hn) (by decide)
    have hrange : d < 21 := Nat.lt_of_le_of_lt hle (Nat.sqrt_lt'.mpr hbound)
    have hlt : d < n := Nat.lt_of_le_of_lt hle (Nat.sqrt_lt_self htwo)
    exact h d (List.mem_range.mpr hrange) hd hlt (Nat.mod_eq_zero_of_dvd hdvd)
  · intro hprime
    refine ⟨hprime.two_le, fun d _ hd hlt hmod => ?_⟩
    exact (Nat.prime_def_lt'.mp hprime).2 d hd hlt (Nat.dvd_of_mod_eq_zero hmod)

/-- The first `w` bits of the fractional part of the cube root of the prime `t`. -/
def cubeRootBits (w t : Nat) : Nat := Nat.nthRoot 3 (primes.getD t 0 * 2 ^ (3 * w)) % 2 ^ w

-- ---------------------------------------------------------------------------
-- SHA-256 and SHA-512
-- ---------------------------------------------------------------------------

def rotr32 (x : UInt32) (n : Nat) : UInt32 := ⟨x.toBitVec.rotateRight n⟩

def rotr64 (x : UInt64) (n : Nat) : UInt64 := ⟨x.toBitVec.rotateRight n⟩

def sha256Words : Words UInt32 where
  rounds := 64
  k t := UInt32.ofNat (cubeRootBits 32 t)
  sum0 x := rotr32 x 2 ^^^ rotr32 x 13 ^^^ rotr32 x 22
  sum1 x := rotr32 x 6 ^^^ rotr32 x 11 ^^^ rotr32 x 25
  sigma0 x := rotr32 x 7 ^^^ rotr32 x 18 ^^^ (x >>> 3)
  sigma1 x := rotr32 x 17 ^^^ rotr32 x 19 ^^^ (x >>> 10)

def sha512Words : Words UInt64 where
  rounds := 80
  k t := UInt64.ofNat (cubeRootBits 64 t)
  sum0 x := rotr64 x 28 ^^^ rotr64 x 34 ^^^ rotr64 x 39
  sum1 x := rotr64 x 14 ^^^ rotr64 x 18 ^^^ rotr64 x 41
  sigma0 x := rotr64 x 1 ^^^ rotr64 x 8 ^^^ (x >>> 7)
  sigma1 x := rotr64 x 19 ^^^ rotr64 x 61 ^^^ (x >>> 6)

end Speculos.Hash.Fips180
