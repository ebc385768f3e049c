import Mathlib.Data.ZMod.Basic
import Speculos.Lib.Octets

/-!
# The functions of RFC 7748

The ladder on the `u` coordinates of a Montgomery curve, over any ring, and the functions X25519 and
X448 of byte strings with the lowest byte first.
-/

namespace Lib.Rfc7748

/-- The numbers of the ladder. -/
@[ext] structure Ladder (K : Type) where
  x2 : K
  z2 : K
  x3 : K
  z3 : K

section

variable {K : Type}

def cswap (swap : Bool) (l : Ladder K) : Ladder K := if swap then ⟨l.x3, l.z3, l.x2, l.z2⟩ else l

variable [CommRing K]

/-- One round, after the exchange. -/
def round (a24 x1 : K) (l : Ladder K) : Ladder K :=
  let a := l.x2 + l.z2
  let aa := a ^ 2
  let b := l.x2 - l.z2
  let bb := b ^ 2
  let e := aa - bb
  let c := l.x3 + l.z3
  let d := l.x3 - l.z3
  let da := d * a
  let cb := c * b
  ⟨aa * bb, e * (aa + a24 * e), (da + cb) ^ 2, x1 * (da - cb) ^ 2⟩

/-- A round for one bit, with the bit of the round before. -/
def turn (a24 x1 : K) (s : Ladder K × Bool) (bit : Bool) : Ladder K × Bool :=
  (round a24 x1 (cswap (s.2 ^^ bit) s.1), bit)

/-- The ladder for the bits of a scalar, the highest one first. -/
def ladder (a24 x1 : K) (bits : List Bool) : Ladder K :=
  let s := bits.foldl (turn a24 x1) (⟨1, 0, x1, 1⟩, false)
  cswap s.2 s.1

end

/-- The prime, the number of bits of a scalar and the constant of a curve. -/
structure Params where
  p : Nat
  bits : Nat
  a24 : Nat

def curve25519 : Params := ⟨2 ^ 255 - 19, 255, 121665⟩

def curve448 : Params := ⟨2 ^ 448 - 2 ^ 224 - 1, 448, 39081⟩

/-- The bits of a scalar, the highest one first. -/
def scalarBits (bits k : Nat) : List Bool := (List.range bits).reverse.map k.testBit

/-- The number of the residue `x2 * z2 ^ (p - 2)`. -/
def mul (c : Params) (k u : Nat) : Nat :=
  let l := ladder (c.a24 : ZMod c.p) u (scalarBits c.bits k)
  (l.x2 * l.z2 ^ (c.p - 2)).val

def decodeLittleEndian (b : Bytes) (bits : Nat) : Nat := fromLE (b.take ((bits + 7) / 8))

def decodeUCoordinate (u : Bytes) (bits : Nat) : Nat :=
  let u := if bits % 8 ≠ 0 then u.modify (u.length - 1) (· &&& UInt8.ofNat (2 ^ (bits % 8) - 1))
    else u
  decodeLittleEndian u bits

def decodeScalar25519 (k : Bytes) : Nat :=
  decodeLittleEndian (((k.modify 0 (· &&& 248)).modify 31 (· &&& 127)).modify 31 (· ||| 64)) 255

def decodeScalar448 (k : Bytes) : Nat :=
  decodeLittleEndian ((k.modify 0 (· &&& 252)).modify 55 (· ||| 128)) 448

def x25519 (k u : Bytes) : Nat := mul curve25519 (decodeScalar25519 k) (decodeUCoordinate u 255)

def x448 (k u : Bytes) : Nat := mul curve448 (decodeScalar448 k) (decodeUCoordinate u 448)

end Lib.Rfc7748
