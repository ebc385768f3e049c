import Speculos.Lib.Memory
import Speculos.Lib.Traced

/-!
# ECDSA signatures in DER

`spec_cx_ecfp_decode_sig_der` and `spec_cx_ecfp_encode_sig_der` of `cx_ec.c`. The
parser walks over the memory behind the input, with the places of its reads: a
pointer is a place, counted from the beginning of the input, and `size_t` has 32
bits. A parser that gives up is `none`.
-/

namespace Speculos.Ec

open Lib

-- ---------------------------------------------------------------------------
-- Decoding
-- ---------------------------------------------------------------------------

section
variable (mem : Nat → UInt8)

/-- `*p` -/
def readByte (p : Nat) : Traced Nat UInt8 := .access p (mem p)

/-- The loop of `asn1_read_len` over the bytes of a long length. -/
def readLenBytes (fin : Nat) : Nat → Nat → Nat → Traced Nat (Option (Nat × Nat))
  | 0, p, len => return some (p, len)
  | lenLeft + 1, p, len => do
    -- (*len << 8) overflows the capacity of size_t
    if len >>> 24 ≠ 0 then return none
    else
      let len := ((len <<< 8) % 2 ^ 32) ||| (← readByte mem p).toNat
      -- result exceeds the length of the passed array
      if (len + (lenLeft + 1)) % 2 ^ 32 > fin - p then return none
      else readLenBytes fin lenLeft (p + 1) len

/-- `asn1_read_len`: the place behind the length, and the length. -/
def asn1ReadLen (p fin : Nat) : Traced Nat (Option (Nat × Nat)) := do
  if p ≥ fin then return none
  else
    let b1 := (← readByte mem p).toNat
    let p := p + 1
    if b1 = 0xFF then return none
    else if b1 &&& 0x80 = 0 then return some (p, b1)
    else if b1 = 0x80 then return none
    else
      let lenLeft := b1 &&& 0x7F
      if lenLeft > fin - p then return none
      else
        let b ← readByte mem p
        if b = 0 then return none
        else if lenLeft > 4 then return none
        else
          let read ← readLenBytes mem fin lenLeft p 0
          match read with
          | some (p, len) => if len < 128 then return none else return some (p, len)
          | none => return none

def asn1ReadTag (p fin : Nat) (tag : UInt8) : Traced Nat (Option (Nat × Nat)) := do
  if p ≥ fin then return none -- `(end - *p) < 1`
  else
    let b ← readByte mem p
    if b ≠ tag then return none
    else asn1ReadLen mem (p + 1) fin

/-- Skip leading null bytes. -/
def skipNulls (fin : Nat) : Nat → Nat → Traced Nat (Nat × Nat)
  | 0, p => do
    let _ ← readByte mem p
    return (p, 0)
  | len + 1, p => do
    let b ← readByte mem p
    if b = 0 ∧ p ≠ fin then skipNulls fin len (p + 1) else return (p, len + 1)

/-- `n`, `n_len`, and the place behind the integer. -/
structure ParsedInteger where
  n : Nat
  nLen : Nat
  p : Nat
  deriving DecidableEq, Repr

def asn1ParseInteger (p fin : Nat) : Traced Nat (Option ParsedInteger) := do
  let header ← asn1ReadTag mem p fin 0x02 -- INTEGER
  match header with
  | none => return none
  | some (p, len) => do
    let b0 ← readByte mem p
    -- truncated, missing leading 0 (negative number)
    if b0 &&& 0x80 = 0x80 then return none
    else
      let prepended ← if b0 = 0 ∧ len ≥ 2 then do
          let b1 ← readByte mem (p + 1)
          pure (b1 &&& 0x80 == 0)
        else pure false
      -- zeroes have been prepended to the integer
      if prepended then return none
      else
        let number ← skipNulls mem fin len p
        return some { n := number.1, nLen := number.2, p := number.1 + number.2 }

/-- The return value, and where `r` and `s` are when they are set. -/
structure Decoded where
  ret : Bool
  r : Option (Nat × Nat)
  s : Option (Nat × Nat)
  deriving DecidableEq, Repr

def decodeSigDer (inputLen maxSize : Nat) : Traced Nat Decoded := do
  let fin := inputLen
  let header ← asn1ReadTag mem 0 fin 0x30 -- SEQUENCE
  match header with
  | none => return ⟨false, none, none⟩
  | some (p, len) =>
    if p + len ≠ fin then return ⟨false, none, none⟩
    else do
      let first ← asn1ParseInteger mem p fin
      match first with
      | none => return ⟨false, none, none⟩
      | some r => do
        let second ← asn1ParseInteger mem r.p fin
        match second with
        | none => return ⟨false, some (r.n, r.nLen), none⟩
        | some s =>
          -- check if bytes have been appended to the sequence
          if s.p ≠ fin then return ⟨false, some (r.n, r.nLen), some (s.n, s.nLen)⟩
          else
            return ⟨r.nLen ≤ maxSize ∧ s.nLen ≤ maxSize, some (r.n, r.nLen), some (s.n, s.nLen)⟩

end

section

variable {mem : Nat → UInt8} {P : Nat → Prop} {fin : Nat}

end

-- ---------------------------------------------------------------------------
-- Encoding
-- ---------------------------------------------------------------------------

def skipZeros : Bytes → Bytes
  | [] => []
  | b :: bs => if b = 0 then skipZeros bs else b :: bs

/-- An integer at `offset`, of which `n` has no leading zero, and its length. -/
def writeInteger (sig : Region) (offset : Nat) (n : Bytes) : Region × Nat :=
  let moved :=
    if n.headD 0 &&& 0x80 ≠ 0 then
      ((sig.store (offset + 2) 0).memcpy (offset + 3) n n.length, n.length + 1)
    else (sig.memcpy (offset + 2) n n.length, n.length)
  ((moved.1.store offset 0x02).store (offset + 1) (UInt8.ofNat moved.2), moved.2)

/-- `spec_cx_ecfp_encode_sig_der`, with what is in `sig` afterwards. -/
def encodeSigDer (sig : Region) (sigLen : Nat) (r s : Bytes) : Nat × Region :=
  let r := skipZeros r
  let s := skipZeros s
  if r = [] ∨ s = [] then (0, sig)
  else
    let offset := 3 * 2 + r.length + s.length + (if r.headD 0 &&& 0x80 ≠ 0 then 1 else 0) +
      if s.headD 0 &&& 0x80 ≠ 0 then 1 else 0
    if sigLen < offset then (0, sig)
    else
      let offset := 2
      let written := writeInteger sig offset r
      let offset := offset + (2 + written.2)
      let written' := writeInteger written.1 offset s
      -- head
      let head : UInt8 := UInt8.ofNat (2 + written.2 + 2 + written'.2)
      (2 + head.toNat, (written'.1.store 0 0x30).store 1 head)

end Speculos.Ec
