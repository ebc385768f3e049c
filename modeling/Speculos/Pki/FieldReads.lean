import Speculos.Pki.Fields

/-!
# What is read of a certificate

The load of a certificate again, with the places that are read, in the order of the source: a
check that compares the value of a field first has read it before it looks at the length. A
signature is read as far as its verification goes.
-/

namespace Speculos.Pki

open Lib
open Ec.CxEc (Stop)

/-- Whether a point can be allocated, which needs the lock of the big numbers. -/
structure Surroundings where
  allocated : Bool

-- ---------------------------------------------------------------------------
-- Fields
-- ---------------------------------------------------------------------------

section

variable (certificate : Certificate)

def readAt (i : Nat) : Traced Nat UInt8 := .access i (certificate i)

def readSlice (off n : Nat) : Traced Nat Bytes :=
  ⟨certificate.slice off n, (List.range n).map (off + ·)⟩

def readBelow (tag : CertificateTag) (swo : UInt32) (offset : Nat) (s : Loading)
    (next : UInt8 → Loading) : Traced Nat (UInt32 × Loading) := do
  let value ← readAt certificate (offset + 2)
  if value.toNat ≥ tag.info.value then return (swo, s)
  else
    let length ← readAt certificate (offset + 1)
    return if length.toNat ≠ tag.info.fieldLen then (swo, s) else (swoOk, next value)

/-- A field of which only the length is checked. -/
def readOfLen (tag : CertificateTag) (swo : UInt32) (offset : Nat) (s : Loading)
    (next : Traced Nat Loading) : Traced Nat (UInt32 × Loading) := do
  let length ← readAt certificate (offset + 1)
  if length.toNat ≠ tag.info.fieldLen then return (swo, s)
  else
    let s ← next
    return (swoOk, s)

/-- The case of `CERTIFICATE_TAG_COMPRESSED_PUBLIC_KEY`. The length of an empty key wraps around to
one of which `BN_bin2bn` reads nothing. -/
def readPublicKey (crypto : Crypto) (around : Surroundings) (offset : Nat) (s : Loading) :
    Traced Nat (UInt32 × Loading) :=
  if cxEcdomainLength s.publicKey.curve = none ∨ around.allocated = false then return (0x3302, s)
  else do
    let length ← readAt certificate (offset + 1)
    let _ ← readAt certificate (offset + 2)
    let _ ← readSlice certificate (offset + 3) (length.toNat - 1)
    return decompressPublicKey crypto (fun i => certificate (offset + i)) s

/-- `os_pki_check_value` -/
def readCheckValue (crypto : Crypto) (around : Surroundings) (offset : Nat) (s : Loading) :
    Traced Nat (UInt32 × Loading) := do
  let tag ← readAt certificate offset
  match CertificateTag.ofByte tag with
  | some .structureType =>
    let value ← readAt certificate (offset + 2)
    if value.toNat ≠ CertificateTag.structureType.info.value then return (0x422F, s)
    else
      let length ← readAt certificate (offset + 1)
      return if length.toNat ≠ CertificateTag.structureType.info.fieldLen then (0x422F, s)
        else (swoOk, s)
  | some .version => readBelow certificate .version 0x4230 offset s fun _ => s
  | some .validity =>
    let length ← readAt certificate (offset + 1)
    if length.toNat ≠ CertificateTag.validity.info.fieldLen then return (0x4231, s)
    else
      let major ← readAt certificate (offset + 2)
      let minor ← readAt certificate (offset + 3)
      let patch ← readAt certificate (offset + 4)
      return if validityTooOld major minor patch then (0x4231, s) else (swoOk, s)
  | some .validityIndex =>
    let value ← readSlice certificate (offset + 2) 4
    if fromBE value ≤ CertificateTag.validityIndex.info.value then return (0x4232, s)
    else
      let length ← readAt certificate (offset + 1)
      return if length.toNat ≠ CertificateTag.validityIndex.info.fieldLen then (0x4232, s)
        else (swoOk, s)
  | some .challenge => return (swoOk, s)
  | some .signerKeyId =>
    readOfLen certificate .signerKeyId 0x4233 offset s do
      let value ← readSlice certificate (offset + 2) 2
      return { s with pki := { s.pki with signerId := UInt16.ofNat (fromBE value) } }
  | some .signAlgoId =>
    readBelow certificate .signAlgoId 0x4234 offset s fun value =>
      { s with pki := { s.pki with signerSignAlgo := value } }
  | some .timeValidity => readOfLen certificate .timeValidity 0x423B offset s (return s)
  | some .publicKeyId => readOfLen certificate .publicKeyId 0x4235 offset s (return s)
  | some .trustedName =>
    let length ← readAt certificate (offset + 1)
    if length.toNat > certificateTrustedNameMaxlen then return (0x423A, s)
    else
      let name ← readSlice certificate (offset + 2) length.toNat
      let trustedName := overwrite s.pki.trustedName 0 name
      return (swoOk, { s with pki := { s.pki with trustedName, trustedNameLen := length.toNat } })
  | some .publicKeyUsage =>
    readOfLen certificate .publicKeyUsage 0x4236 offset s do
      let value ← readAt certificate (offset + 2)
      return { s with pki := { s.pki with keyUsage := value } }
  | some .publicKeyCurveId =>
    readBelow certificate .publicKeyCurveId 0x4237 offset s fun value =>
      { s with publicKey := { s.publicKey with curve := value.toUInt32 } }
  | some .compressedPublicKey => readPublicKey certificate crypto around offset s
  | some .pkSignAlgoId =>
    readBelow certificate .pkSignAlgoId 0x4238 offset s fun value =>
      { s with pki := { s.pki with pkSignAlgo := value } }
  | some .targetDevice => readBelow certificate .targetDevice 0x4239 offset s fun _ => s
  | some .depth => readBelow certificate .depth 0x423C offset s fun _ => s
  | some .signature | none => return (0x422D, s)

/-- The reads of `os_pki_get_next_tag`. -/
def readNextTag (offset : Nat) : Traced Nat Unit := do
  let tag ← readAt certificate offset
  if ((CertificateTag.ofByte tag).map (·.info.fieldLen)).getD 0 = certificateFieldVarLen then
    let _ ← readAt certificate (offset + 1)
    return ()
  else return ()

/-- The loop of `sys_os_pki_load_certificate`. -/
def readLoop (crypto : Crypto) (around : Surroundings) (certificateLen offset : Nat) (s : Loading) :
    Traced Nat (Except (UInt32 × Loading) (Nat × Loading)) :=
  if _hlt : offset < certificateLen then do
    let tag ← readAt certificate offset
    if tag = certificateTagSignature then return .ok (offset, s)
    else
      let r ← readCheckValue certificate crypto around offset s
      if r.1 ≠ swoOk then return .error r
      else
        readNextTag certificate offset
        readLoop crypto around certificateLen (osPkiGetNextTag certificate offset) r.2
  else return .ok (offset, s)
termination_by certificateLen - offset
decreasing_by
  have hlt := lt_osPkiGetNextTag certificate offset
  omega

-- ---------------------------------------------------------------------------
-- Signatures
-- ---------------------------------------------------------------------------

/-- `cx_ecdsa_internal_verify` with the signature at `off`: the numbers are read once they are
found. -/
def readEcdsa (crypto : Crypto) (key : PublicKey) (hash : Bytes) (off length : Nat) :
    Traced Nat (Except Stop Bool) :=
  match cxEcdomainLength key.curve with
  | none => return .error .ends
  | some size => do
    let decoded ← (Ec.decodeSigDer (fun i => certificate (off + i)) length size).relabel (off + ·)
    if decoded.ret = false then return .ok false
    else
      let r := decoded.r.getD (0, 0)
      let _ ← readSlice certificate (off + r.1) r.2
      let s := decoded.s.getD (0, 0)
      let _ ← readSlice certificate (off + s.1) s.2
      return .ok (crypto.ecdsaDoVerify key hash (certificate.slice off length))

/-- `cx_eddsa_internal_verify` -/
def readEddsa (crypto : Crypto) (puKey : PublicKey) (hash : Bytes) (off length : Nat) :
    Traced Nat (Except Stop Bool) :=
  if length ≠ 64 then return .ok false
  else if puKey.curve ≠ cxCurveEd25519 ∨ puKey.wLen ≠ 1 + 2 * 32 then return .ok false
  else
    match compressedKey crypto puKey with
    | .error stop => return .error stop
    | .ok w => do
      let sig ← readSlice certificate off length
      return .ok (crypto.ed25519Verify ((w.drop 1).take 32) hash sig)

/-- The verification of a certificate whose fields end at `offset`. -/
def readVerified (crypto : Crypto) (pki : OsPki) (offset : Nat) : Traced Nat (Except Stop Bool) :=
  do
  let signed ← readSlice certificate 0 offset
  let certHash := crypto.hash pki.signerSignAlgo signed
  let length ← readAt certificate (offset + 1)
  if pki.signerId = certificateKeyIdLedgerRootV3 then
    readEcdsa certificate crypto crypto.rootCaPublicKey certHash (offset + 2) length.toNat
  else
    match osPkiGetSignatureAlgorithm pki.signerSignAlgo with
    | .ecdsaRnd => readEcdsa certificate crypto pki.publicKey certHash (offset + 2) length.toNat
    | .eddsaSha512 => readEddsa certificate crypto pki.publicKey certHash (offset + 2) length.toNat
    | .unknown => return .ok false

/-- What follows the loop of `sys_os_pki_load_certificate`. -/
def readStore (crypto : Crypto) (expectedKeyUsage : UInt8) :
    Except (UInt32 × Loading) (Nat × Loading) → Traced Nat (Option Loaded)
  | .error (swo, loading) => return some (.failed swo loading.publicKey)
  | .ok (offset, loading) =>
    let key := loading.publicKey
    if expectedKeyUsage ≠ loading.pki.keyUsage then return some (.failed 0x422E key)
    else do
      match ← readVerified certificate crypto loading.pki offset with
      | .error .ends => return none
      | .error .thrown => return some loading.thrown
      | .ok false => return some (.failed 0x5720 key)
      | .ok true =>
        return (cxEcdsaInternalInitPublicKey key.curve key.w key.wLen loading.pki.publicKey).map
          fun (_, publicKey) =>
            let pki := { loading.pki with publicKey }
            ⟨swoOk, ⟨pki, true⟩, key, some (pki.trustedName.take pki.trustedNameLen)⟩

/-- `sys_os_pki_load_certificate` -/
def readLoad (crypto : Crypto) (around : Surroundings) (expectedKeyUsage : UInt8)
    (certificateLen : Nat) (publicKey : PublicKey) (s : State) : Traced Nat (Option Loaded) := do
  let r ← readLoop certificate crypto around certificateLen 0 ⟨s.pki, publicKey⟩
  readStore certificate crypto expectedKeyUsage r

end

end Speculos.Pki
