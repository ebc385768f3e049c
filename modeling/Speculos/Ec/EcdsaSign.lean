import Speculos.Ec.CxEc
import Speculos.Ec.SigDer
import Speculos.Hash.Hmac

/-!
# ECDSA signatures

`sys_cx_ecdsa_sign`: a loop draws nonces until OpenSSL signs with one of them, and then the
signature is normalized. The numbers are those of the integers; the curves and the signatures of
OpenSSL are parameters, as are the nonces.
-/

namespace Speculos.Ec

open Lib Hash CxEc

-- ---------------------------------------------------------------------------
-- OpenSSL
-- ---------------------------------------------------------------------------

structure EcdsaLib (P : Type) where
  /-- `EC_GROUP_get0_order` -/
  order : CxCurve → Nat
  /-- `EC_POINT_mul` with a number for the generator. -/
  pointMul : CxCurve → Nat → Option P
  /-- `EC_POINT_get_affine_coordinates`, which fails at infinity. -/
  affineCoordinates : CxCurve → P → Option (Nat × Nat)
  /-- `BN_mod_inverse`: what it leaves in `kinv`. -/
  modInverse : Nat → Nat → Nat
  /-- `ECDSA_do_sign_ex` with a hash, `kinv`, `rp` and the private key, for each of the calls in
  the loop. -/
  doSignEx : CxCurve → Nat → Bytes → Nat → Nat → Nat → Option (Nat × Nat)

/-- The nonces of a call: what `spec_cx_rng_rfc6979_next` or `BN_rand` gives. -/
structure Nonces where
  rfc6979 : Nat → Bytes
  rand : Nat → Nat

/-- What `ecdsa_sig` holds: nothing that was written, or what OpenSSL has returned. -/
inductive EcdsaSig where
  | garbage (isNull : Bool)
  | result (sig : Option (Nat × Nat))
  deriving DecidableEq, Repr

def EcdsaSig.isNull : EcdsaSig → Bool
  | .garbage isNull => isNull
  | .result sig => sig.isNone

-- ---------------------------------------------------------------------------
-- Parameters
-- ---------------------------------------------------------------------------

def eccinfoParityOdd : UInt32 := 1

def eccinfoXGTn : UInt32 := 2

def cxNoCanonical : UInt32 := (1 : UInt32) <<< 6

def cxMaskRnd : UInt32 := (7 : UInt32) <<< 9

def cxRndTrng : UInt32 := (2 : UInt32) <<< 9

def cxRndRfc6979 : UInt32 := (3 : UInt32) <<< 9

/-- `spec_cx_hash_get_info(hashID)->output_size`, which is also 0 where there is no hash. -/
def hashOutputSize : UInt32 → Nat
  | 1 => CxMd.ripemd160.outputSize
  | 2 => CxMd.sha224.outputSize
  | 3 => CxMd.sha256.outputSize
  | 4 => CxMd.sha384.outputSize
  | 5 => CxMd.sha512.outputSize
  | _ => 0

/-- `do_rfc6979_signature`, or an exception. -/
def doRfc6979Signature (mode hashID : UInt32) : Option Bool :=
  if mode &&& cxMaskRnd = cxRndTrng then some (hashOutputSize hashID ≠ 0)
  else if mode &&& cxMaskRnd = cxRndRfc6979 then some true
  else none

/-- `cx_ecfp_private_key_t`, with the `d_len` bytes of `d`. -/
structure CxEcfpPrivateKey where
  curve : CxCurve
  d : Bytes

-- ---------------------------------------------------------------------------
-- The loop
-- ---------------------------------------------------------------------------

/-- `k` of a turn. -/
def Nonces.at (nonces : Nonces) (rfc6979 : Bool) (i : Nat) : Nat :=
  if rfc6979 then fromBE (nonces.rfc6979 i) else nonces.rand i

structure SignState where
  info : Option UInt32
  ecdsaSig : EcdsaSig
  deriving DecidableEq, Repr

section

variable {P : Type} (lib : EcdsaLib P) (key : CxEcfpPrivateKey) (q : Nat) (hash : Bytes)

/-- The body of the loop. There is no result where OpenSSL fails, which ends the emulator. -/
def signTurn (i k : Nat) (st : SignState) : Option SignState := do
  let kg ← lib.pointMul key.curve k
  let (x, y) ← lib.affineCoordinates key.curve kg
  let (rp, info) := if x ≥ q then (x % q, st.info.map (· ||| eccinfoXGTn)) else (x, st.info)
  -- `continue`, which goes to the condition of the loop
  if rp = 0 then return { st with info := info }
  else
    let info := if y % 2 = 1 then info.map (· ||| eccinfoParityOdd) else info
    let kinv := lib.modInverse k q
    return ⟨info, .result (lib.doSignEx key.curve i hash kinv rp (fromBE key.d))⟩

/-- The loop from turn `i` on, as far as `fuel` turns go: the last turn, and what it leaves. -/
def signLoop (nonce : Nat → Nat) : Nat → Nat → SignState → Option (Option (Nat × SignState))
  | 0, _, _ => none
  | fuel + 1, i, st =>
    match signTurn lib key q hash i (nonce i) st with
    | none => some none
    | some st =>
      if st.ecdsaSig.isNull then signLoop nonce fuel (i + 1) st else some (some (i, st))

end

-- ---------------------------------------------------------------------------
-- Signing
-- ---------------------------------------------------------------------------

/-- A signature that is encoded, and what the call leaves. -/
structure Signed where
  /-- The turn that the nonce was drawn in. -/
  turn : Nat
  r : Nat
  s : Nat
  info : Option UInt32
  ret : Nat
  sig : Region

inductive SignOutcome where
  /-- `errx` -/
  | ends
  /-- `THROW(INVALID_PARAMETER)` -/
  | thrown
  /-- Memory is used that nothing was written to. -/
  | indeterminate
  | returned (signed : Signed)

section

variable {P : Type} (lib : EcdsaLib P) (key : CxEcfpPrivateKey)

/-- What follows the loop: normalize the signature (s < n/2) if needed, and encode it. -/
def normalizeAndEncode (length mode : UInt32) (sig : Region) (sigLen turn : Nat) (st : SignState) :
    SignOutcome :=
  match st.ecdsaSig with
  | .garbage _ | .result none => .indeterminate
  | .result (some (r, s)) =>
    let n := lib.order key.curve
    let halfn := n / 2
    let (s, info) :=
      if mode &&& cxNoCanonical = 0 ∧ s > halfn then (n - s, st.info.map (· ^^^ eccinfoParityOdd))
      else (s, st.info)
    -- `BN_bn2binpad` writes nothing of a number that is too long
    if r < 256 ^ length.toNat ∧ s < 256 ^ length.toNat then
      let (ret, sig) := encodeSigDer sig sigLen (toBE length.toNat r) (toBE length.toNat s)
      .returned ⟨turn, r, s, info, ret, sig⟩
    else .indeterminate

/-- The end of the call, if the loop ends. -/
def afterLoop (length mode : UInt32) (sig : Region) (sigLen : Nat) :
    Option (Option (Nat × SignState)) → Option SignOutcome
  | none => none
  | some none => some .ends
  | some (some (turn, st)) => some (normalizeAndEncode lib key length mode sig sigLen turn st)

/-- `sys_cx_ecdsa_sign`, where `stackIsNull` tells whether the stack holds a null pointer in the
place of `ecdsa_sig`. -/
def sysCxEcdsaSign (nonces : Nonces) (stackIsNull : Bool) (mode hashID : UInt32) (hash : Bytes)
    (sig : Region) (sigLen : Nat) (info : Option UInt32) (fuel : Nat) : Option SignOutcome :=
  match cxEcfpGetDomain key.curve with
  | .error .thrown => some .thrown
  | .error .ends => some .ends
  | .ok domain =>
    if ¬ hasNidToSign key.curve then some .ends
    else
      match doRfc6979Signature mode hashID with
      | none => some .thrown
      | some rfc6979 =>
        -- `CX_RFC6979_MAX_RLEN`
        if rfc6979 ∧ domain.length ≥ 66 then some .ends
        -- `spec_cx_rng_rfc6979_init`
        else if rfc6979 ∧ hashOutputSize hashID = 0 then some .thrown
        else
          afterLoop lib key domain.length mode sig sigLen
            (signLoop lib key domain.n hash (nonces.at rfc6979) fuel 0
              ⟨info, .garbage stackIsNull⟩)

end

end Speculos.Ec
