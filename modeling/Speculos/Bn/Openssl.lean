import Speculos.Lib.Octets

/-!
# OpenSSL

The functions of OpenSSL that the bignum code calls. A `BIGNUM` is its value. Nothing is said
here about what the functions compute: each call of the emulator may meet other ones, so
that a call fails in one place and succeeds in another.
-/

namespace Speculos.Bn

open Lib

/-- Whether a function reports success, and what it leaves in the number it writes. -/
structure Written where
  ok : Bool
  value : Int
  deriving DecidableEq, Repr

structure Openssl where
  ctxNew : Bool
  /-- Whether there is memory for the number of a slot. -/
  bnNew : Fin 64 → Bool
  bin2bn : Bytes → Written
  numBytes : Int → UInt32
  bn2bin : Int → Bytes
  bn2binpad : Int → UInt32 → Option Bytes
  isOdd : Int → Bool
  isOne : Int → Bool
  isZero : Int → Bool
  isNegative : Int → Bool
  isBitSet : Int → UInt32 → Bool
  setBit : Int → UInt32 → Written
  clearBit : Int → UInt32 → Written
  setNegative : Int → Bool → Int
  maskBits : Int → UInt32 → Written
  rshift : Int → UInt32 → Written
  lshift : Int → UInt32 → Written
  add : Int → Int → Written
  sub : Int → Int → Written
  mul : Int → Int → Written
  addWord : Int → Nat → Written
  subWord : Int → Nat → Written
  /-- `BN_div` with a null pointer for the quotient. -/
  rem : Int → Int → Written
  rand : UInt32 → Written
  /-- `BN_rand_range`, for each of the calls in a loop. -/
  randRange : Nat → Int → Written
  copy : Int → Written
  modAdd : Int → Int → Int → Written
  modSub : Int → Int → Int → Written
  modMul : Int → Int → Int → Written
  modExp : Int → Int → Int → Written
  modInverse : Int → Int → Written
  modSqrt : Int → Int → Written
  /-- `BN_is_prime_ex`: 1, 0, or -1 on an error. -/
  isPrimeEx : Int → Int
  gf2mModMul : Int → Int → Int → Written

def Written.done (value : Int) : Written := ⟨true, value⟩

def Written.failed : Written := ⟨false, 0⟩

def byteLength (n : Nat) : Nat := if n = 0 then 0 else n.log2 / 8 + 1

/-- `BN_bn2binpad`, which writes nothing and returns -1 where the number is too large. -/
def bnBn2binpad (a : Nat) (tolen : Nat) : Option Bytes :=
  if a < 256 ^ tolen then some (toBE tolen a) else none

/-- The numbers of the integers, with memory for every one of them, as far as no search is
needed. -/
def Openssl.integers : Openssl where
  ctxNew := true
  bnNew _ := true
  bin2bn bytes := .done (fromBE bytes)
  numBytes x := UInt32.ofNat (byteLength x.natAbs)
  bn2bin x := toBE (byteLength x.natAbs) x.natAbs
  bn2binpad x len := bnBn2binpad x.natAbs len.toNat
  isOdd x := x % 2 = 1
  isOne x := x = 1
  isZero x := x = 0
  isNegative x := x < 0
  isBitSet x pos := x.natAbs.testBit pos.toNat
  setBit x pos := .done (x.natAbs ||| 2 ^ pos.toNat : Nat)
  clearBit x pos :=
    .done (if x.natAbs.testBit pos.toNat then x.natAbs - 2 ^ pos.toNat else x.natAbs : Nat)
  setNegative x negative := if negative then -x.natAbs else x.natAbs
  maskBits x n := .done (x.natAbs % 2 ^ n.toNat : Nat)
  rshift x n := .done (x / 2 ^ n.toNat)
  lshift x n := .done (x * 2 ^ n.toNat)
  add a b := .done (a + b)
  sub a b := .done (a - b)
  mul a b := .done (a * b)
  addWord a w := .done (a + w)
  subWord a w := .done (a - w)
  rem a n := if n = 0 then .failed else .done (a.tmod n)
  rand _ := .done 1
  randRange _ n := if n ≤ 0 then .failed else .done 1
  copy a := .done a
  modAdd a b n := if n = 0 then .failed else .done ((a + b) % n)
  modSub a b n := if n = 0 then .failed else .done ((a - b) % n)
  modMul a b n := if n = 0 then .failed else .done (a * b % n)
  modExp a e n := if n = 0 then .failed else .done (a ^ e.natAbs % n)
  modInverse _ _ := .failed
  modSqrt _ _ := .failed
  isPrimeEx _ := -1
  gf2mModMul _ _ _ := .failed

end Speculos.Bn
