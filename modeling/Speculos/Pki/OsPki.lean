import Speculos.Ec.CxEc
import Speculos.Lib.Window
import Speculos.Lib.Octets

/-!
# Certificates

`os_pki.c`. A certificate is read tag by tag, and the fields of `os_pki` are
written as their tags are met. The public key goes to the buffer of the caller
first, and from there to `os_pki` once the signature is verified. The code does
not look at the length of the certificate while it reads a field, so that a
certificate is the memory from its first byte on.
-/

namespace Speculos.Pki

open Lib
open Ec.CxEc (Stop)

abbrev Certificate := Nat → UInt8

/-- The bytes `[off, off + n)`. -/
def Certificate.slice (certificate : Certificate) (off n : Nat) : Bytes :=
  (List.range n).map fun i => certificate (off + i)

-- ---------------------------------------------------------------------------
-- Tags
-- ---------------------------------------------------------------------------

/-- `os_pki_tag_t` -/
inductive CertificateTag
  | structureType
  | version
  | validity
  | validityIndex
  | challenge
  | signerKeyId
  | signAlgoId
  | signature
  | timeValidity
  | trustedName
  | publicKeyId
  | publicKeyUsage
  | publicKeyCurveId
  | compressedPublicKey
  | pkSignAlgoId
  | targetDevice
  | depth
  deriving DecidableEq, Repr

def CertificateTag.ofByte : UInt8 → Option CertificateTag
  | 0x01 => some .structureType
  | 0x02 => some .version
  | 0x10 => some .validity
  | 0x11 => some .validityIndex
  | 0x12 => some .challenge
  | 0x13 => some .signerKeyId
  | 0x14 => some .signAlgoId
  | 0x15 => some .signature
  | 0x16 => some .timeValidity
  | 0x20 => some .trustedName
  | 0x30 => some .publicKeyId
  | 0x31 => some .publicKeyUsage
  | 0x32 => some .publicKeyCurveId
  | 0x33 => some .compressedPublicKey
  | 0x34 => some .pkSignAlgoId
  | 0x35 => some .targetDevice
  | 0x36 => some .depth
  | _ => none

def certificateTagSignature : UInt8 := 0x15

def certificateFieldVarLen : Nat := 0xFF

def certificateTrustedNameMaxlen : Nat := 32

/-- `os_pki_certificate_tag_info_t` -/
structure TagInfo where
  value : Nat
  fieldLen : Nat

def CertificateTag.info : CertificateTag → TagInfo
  | .structureType => ⟨0x01, 0x01⟩
  | .version => ⟨0x03, 0x01⟩
  | .validity => ⟨0xFFFFFFFF, 0x04⟩
  | .validityIndex => ⟨0x00000001, 0x04⟩
  | .challenge => ⟨0xFFFFFFFF, certificateFieldVarLen⟩
  | .signerKeyId => ⟨0x0B, 0x02⟩
  | .signAlgoId => ⟨0x11, 0x01⟩
  | .signature => ⟨0xFFFFFFFF, certificateFieldVarLen⟩
  | .timeValidity => ⟨0xFFFFFFFF, 0x04⟩
  | .trustedName => ⟨0xFFFFFFFF, certificateFieldVarLen⟩
  | .publicKeyId => ⟨0x0B, 0x02⟩
  | .publicKeyUsage => ⟨0x0F, 0x01⟩
  | .publicKeyCurveId => ⟨0x7F, 0x01⟩
  | .compressedPublicKey => ⟨0x0B, certificateFieldVarLen⟩
  | .pkSignAlgoId => ⟨0x11, 0x01⟩
  | .targetDevice => ⟨0x08, 0x01⟩
  | .depth => ⟨0xFFFFFFFF, 0x01⟩

-- ---------------------------------------------------------------------------
-- Keys
-- ---------------------------------------------------------------------------

/-- `domain->length` of `cx_ecdomain(curve)`, which knows the curves of
`C_cx_allCurves`. -/
def cxEcdomainLength : UInt32 → Option Nat
  | 0x21 | 0x22 => some 32
  | 0x23 => some 48
  | 0x24 => some 66
  | 0x31 | 0x32 => some 32
  | 0x33 | 0x34 => some 40
  | 0x35 | 0x36 => some 48
  | 0x37 | 0x38 => some 64
  | 0x39 => some 48
  | 0x51 => some 32
  | 0x52 => some 48
  | 0x53 | 0x54 => some 32
  | 0x71 => some 32
  | 0x72 => some 57
  | 0x73 | 0x74 => some 32
  | 0x81 => some 32
  | 0x82 => some 56
  | _ => none

/-- `cx_ecfp_384_public_key_t`. Nothing keeps the key of a longer curve from being
written behind the array `W`. -/
structure PublicKey where
  curve : UInt32
  wLen : Nat
  w : Bytes
  deriving DecidableEq, Repr

def PublicKey.zero : PublicKey := ⟨0, 0, List.replicate 97 0⟩

/-- `cx_sign_algo_t`, as far as it is used for certificates. -/
inductive CxSignAlgo
  | unknown
  | eddsaSha512
  | ecdsaRnd
  deriving DecidableEq, Repr

/-- The cryptography, and the key of the root CA. -/
structure Crypto where
  /-- The coordinates of the point on a curve with this coordinate and sign. -/
  decompress : UInt32 → Bytes → Bool → Option (Nat × Nat)
  /-- The hash of a signature algorithm. -/
  hash : UInt8 → Bytes → Bytes
  ecdsaDoVerify : PublicKey → Bytes → Bytes → Bool
  /-- `sys_cx_edward_compress_point` -/
  compressPoint : UInt32 → Bytes → Except Stop Bytes
  ed25519Verify : Bytes → Bytes → Bytes → Bool
  rootCaPublicKey : PublicKey

def cxCurveEd25519 : UInt32 := 0x71

def invalidParameter : Nat := 2

/-- `cx_ecdsa_internal_init_public_key`: what it returns and `*key`. There is no
result where the domain of the curve is a null pointer. -/
def cxEcdsaInternalInitPublicKey (curve : UInt32) (rawkey : Bytes) (keyLen : Nat)
    (key : PublicKey) : Option (Nat × PublicKey) := do
  let size ← cxEcdomainLength curve
  -- `sizeof(cx_ecfp_public_key_t)`: the 65 bytes of a 256-bit key, and the padding
  let key : PublicKey := ⟨0, 0, overwrite key.w 0 (List.replicate 68 0)⟩
  if rawkey.getD 0 0 ≠ 0x04 ∨ keyLen ≠ 1 + size * 2 then
    return (invalidParameter, key)
  return (keyLen, ⟨curve, keyLen, overwrite key.w 0 (rawkey.take keyLen)⟩)

/-- A domain that is a null pointer is read. -/
def cxEcdsaInternalVerify (crypto : Crypto) (key : PublicKey) (hash sig : Bytes) :
    Except Stop Bool :=
  match cxEcdomainLength key.curve with
  | none => .error .ends
  | some _ => .ok (crypto.ecdsaDoVerify key hash sig)

/-- The `W` of the key that is passed to `ED25519_verify`. -/
def compressedKey (crypto : Crypto) (puKey : PublicKey) : Except Stop Bytes :=
  if puKey.w.getD 0 0 = 0x04 then crypto.compressPoint puKey.curve (puKey.w.take puKey.wLen)
  else .ok puKey.w

def cxEddsaInternalVerify (crypto : Crypto) (puKey : PublicKey) (hash sig : Bytes) :
    Except Stop Bool :=
  if sig.length ≠ 64 then .ok false
  else if puKey.curve ≠ cxCurveEd25519 ∨ puKey.wLen ≠ 1 + 2 * 32 then .ok false
  else
    match compressedKey crypto puKey with
    | .error stop => .error stop
    | .ok w => .ok (crypto.ed25519Verify ((w.drop 1).take 32) hash sig)

def cxVerify (crypto : Crypto) (signAlgo : CxSignAlgo) (publicKey : PublicKey)
    (msgHash signature : Bytes) : Except Stop Bool :=
  match signAlgo with
  | .ecdsaRnd => cxEcdsaInternalVerify crypto publicKey msgHash signature
  | .eddsaSha512 => cxEddsaInternalVerify crypto publicKey msgHash signature
  | .unknown => .ok false

/-- `os_ecdsa_verify_with_root_ca` with `ROOT_CA_V3_KEY_ID`. -/
def osEcdsaVerifyWithRootCa (crypto : Crypto) (hash sig : Bytes) : Except Stop Bool :=
  cxEcdsaInternalVerify crypto crypto.rootCaPublicKey hash sig

-- ---------------------------------------------------------------------------
-- Fields
-- ---------------------------------------------------------------------------

structure OsPki where
  keyUsage : UInt8
  signerSignAlgo : UInt8
  pkSignAlgo : UInt8
  trustedName : Bytes
  trustedNameLen : Nat
  signerId : UInt16
  publicKey : PublicKey
  deriving DecidableEq, Repr

def OsPki.zero : OsPki where
  keyUsage := 0
  signerSignAlgo := 0
  pkSignAlgo := 0
  trustedName := List.replicate certificateTrustedNameMaxlen 0
  trustedNameLen := 0
  signerId := 0
  publicKey := .zero

def swoOk : UInt32 := 0x0000

/-- `VERSION`, "1.0.0" with its end. -/
def version : Bytes := [0x31, 0x2e, 0x30, 0x2e, 0x30, 0]

/-- `strncmp(a, b, n) > 0` -/
def strncmpGt : Bytes → Bytes → Nat → Bool
  | a :: as, b :: bs, n + 1 =>
    if a ≠ b then b < a else if a = 0 then false else strncmpGt as bs n
  | _, _, _ => false

/-- The check of `CERTIFICATE_TAG_VALIDITY`, where digits are written as characters. -/
def validityTooOld (major minor patch : UInt8) : Bool :=
  if patch ≥ 10 then
    strncmpGt version
      [0x30 + major, 0x2e, 0x30 + minor, 0x2e, 0x30 + patch / 10, 0x30 + patch % 10] 6
  else strncmpGt version [0x30 + major, 0x2e, 0x30 + minor, 0x2e, 0x30 + patch, 0] 5

/-- `os_pki` and the public key of the caller, as the tags are read. -/
structure Loading where
  pki : OsPki
  publicKey : PublicKey
  deriving DecidableEq

/-- A field that holds a value below the one of the table. -/
def fieldBelow (tag : CertificateTag) (swo : UInt32) (value : Certificate) (s next : Loading) :
    UInt32 × Loading :=
  if (value 2).toNat ≥ tag.info.value ∨ (value 1).toNat ≠ tag.info.fieldLen then (swo, s)
  else (swoOk, next)

/-- A field whose value is not looked at. -/
def fieldOfLen (tag : CertificateTag) (swo : UInt32) (value : Certificate) (s next : Loading) :
    UInt32 × Loading :=
  if (value 1).toNat ≠ tag.info.fieldLen then (swo, s) else (swoOk, next)

/-- The case of `CERTIFICATE_TAG_COMPRESSED_PUBLIC_KEY`. -/
def decompressPublicKey (crypto : Crypto) (value : Certificate) (s : Loading) : UInt32 × Loading :=
  match cxEcdomainLength s.publicKey.curve with
  | none => (0x3302, s)
  | some domainLen =>
    match crypto.decompress s.publicKey.curve (value.slice 3 ((value 1).toNat - 1))
        (value 2 &&& 0x1 = 1) with
    | none => (0x3302, s)
    | some (x, y) =>
      let w := overwrite s.publicKey.w 0 (0x04 :: (toBE domainLen x ++ toBE domainLen y))
      (swoOk, { s with publicKey := { s.publicKey with w, wLen := 2 * domainLen + 1 } })

/-- `os_pki_check_value`, where `value` is the certificate from the tag on. -/
def osPkiCheckValue (crypto : Crypto) (value : Certificate) (s : Loading) : UInt32 × Loading :=
  match CertificateTag.ofByte (value 0) with
  | some .structureType =>
    if (value 2).toNat ≠ CertificateTag.structureType.info.value ∨
        (value 1).toNat ≠ CertificateTag.structureType.info.fieldLen then (0x422F, s)
    else (swoOk, s)
  | some .version => fieldBelow .version 0x4230 value s s
  | some .validity =>
    if (value 1).toNat ≠ CertificateTag.validity.info.fieldLen then (0x4231, s)
    else if validityTooOld (value 2) (value 3) (value 4) then (0x4231, s)
    else (swoOk, s)
  | some .validityIndex =>
    if fromBE (value.slice 2 4) ≤ CertificateTag.validityIndex.info.value ∨
        (value 1).toNat ≠ CertificateTag.validityIndex.info.fieldLen then (0x4232, s)
    else (swoOk, s)
  | some .challenge => (swoOk, s)
  | some .signerKeyId =>
    fieldOfLen .signerKeyId 0x4233 value s
      { s with pki := { s.pki with signerId := UInt16.ofNat (fromBE (value.slice 2 2)) } }
  | some .signAlgoId =>
    fieldBelow .signAlgoId 0x4234 value s { s with pki := { s.pki with signerSignAlgo := value 2 } }
  | some .timeValidity => fieldOfLen .timeValidity 0x423B value s s
  | some .publicKeyId => fieldOfLen .publicKeyId 0x4235 value s s
  | some .trustedName =>
    if (value 1).toNat > certificateTrustedNameMaxlen then (0x423A, s)
    else
      let trustedName := overwrite s.pki.trustedName 0 (value.slice 2 (value 1).toNat)
      (swoOk, { s with pki := { s.pki with trustedName, trustedNameLen := (value 1).toNat } })
  | some .publicKeyUsage =>
    fieldOfLen .publicKeyUsage 0x4236 value s { s with pki := { s.pki with keyUsage := value 2 } }
  | some .publicKeyCurveId =>
    fieldBelow .publicKeyCurveId 0x4237 value s
      { s with publicKey := { s.publicKey with curve := (value 2).toUInt32 } }
  | some .compressedPublicKey => decompressPublicKey crypto value s
  | some .pkSignAlgoId =>
    fieldBelow .pkSignAlgoId 0x4238 value s { s with pki := { s.pki with pkSignAlgo := value 2 } }
  | some .targetDevice => fieldBelow .targetDevice 0x4239 value s s
  | some .depth => fieldBelow .depth 0x423C value s s
  | some .signature | none => (0x422D, s)

/-- `os_pki_get_next_tag`: the offset behind the field. -/
def osPkiGetNextTag (certificate : Certificate) (offset : Nat) : Nat :=
  let fieldLen := ((CertificateTag.ofByte (certificate offset)).map (·.info.fieldLen)).getD 0
  if fieldLen = certificateFieldVarLen then offset + 1 + (1 + (certificate (offset + 1)).toNat)
  else offset + 1 + (1 + fieldLen)

theorem lt_osPkiGetNextTag (certificate : Certificate) (offset : Nat) :
    offset < osPkiGetNextTag certificate offset := by
  rw [osPkiGetNextTag]
  split <;> omega

/-- The loop of `sys_os_pki_load_certificate`: the offset behind the fields, or the
error of a field, and what is written. -/
def readTags (crypto : Crypto) (certificate : Certificate) (certificateLen offset : Nat)
    (s : Loading) : Except (UInt32 × Loading) (Nat × Loading) :=
  if offset < certificateLen then
    if certificate offset = certificateTagSignature then .ok (offset, s)
    else
      let (swo, s) := osPkiCheckValue crypto (fun i => certificate (offset + i)) s
      if swo ≠ swoOk then .error (swo, s)
      else readTags crypto certificate certificateLen (osPkiGetNextTag certificate offset) s
  else .ok (offset, s)
termination_by certificateLen - offset
decreasing_by
  have hlt := lt_osPkiGetNextTag certificate offset
  omega

-- ---------------------------------------------------------------------------
-- The calls
-- ---------------------------------------------------------------------------

def osPkiGetSignatureAlgorithm (certSignAlgoId : UInt8) : CxSignAlgo :=
  if certSignAlgoId = 0x01 ∨ certSignAlgoId = 0x02 ∨ certSignAlgoId = 0x03 ∨ certSignAlgoId = 0x04
  then .ecdsaRnd
  else if certSignAlgoId = 0x10 then .eddsaSha512
  else .unknown

def certificateKeyIdLedgerRootV3 : UInt16 := 0x0002

/-- `os_pki` and `os_pki_set`. -/
structure State where
  pki : OsPki
  isSet : Bool
  deriving DecidableEq, Repr

def State.initial : State := ⟨.zero, false⟩

/-- The signature behind the fields: its length, and its bytes. -/
def Certificate.signature (certificate : Certificate) (offset : Nat) : Bytes :=
  certificate.slice (offset + 2) (certificate (offset + 1)).toNat

/-- The verification of a certificate whose fields end at `offset`. -/
def isVerified (crypto : Crypto) (pki : OsPki) (certificate : Certificate) (offset : Nat) :
    Except Stop Bool :=
  let certHash := crypto.hash pki.signerSignAlgo (certificate.slice 0 offset)
  if pki.signerId = certificateKeyIdLedgerRootV3 then
    osEcdsaVerifyWithRootCa crypto certHash (certificate.signature offset)
  else
    cxVerify crypto (osPkiGetSignatureAlgorithm pki.signerSignAlgo) pki.publicKey certHash
      (certificate.signature offset)

/-- What `sys_os_pki_load_certificate` returns, or the exception that it ends with, and
what it leaves: the name is the one copied to the caller on success, if the caller asks
for one. -/
structure Loaded where
  swo : UInt32
  state : State
  publicKey : PublicKey
  trustedName : Option Bytes
  deriving DecidableEq

def Loaded.failed (swo : UInt32) (publicKey : PublicKey) : Loaded :=
  ⟨swo, .initial, publicKey, none⟩

/-- What a `THROW` leaves: nothing clears `os_pki`. -/
def Loading.thrown (loading : Loading) : Loaded where
  swo := UInt32.ofNat invalidParameter
  state := ⟨loading.pki, false⟩
  publicKey := loading.publicKey
  trustedName := none

theorem Loading.thrown_swo (loading : Loading) : loading.thrown.swo ≠ swoOk :=
  show UInt32.ofNat invalidParameter ≠ swoOk by decide

/-- What follows the loop of `sys_os_pki_load_certificate`. -/
def verifyAndStore (crypto : Crypto) (expectedKeyUsage : UInt8) (certificate : Certificate)
    (offset : Nat) (loading : Loading) : Option Loaded :=
  let key := loading.publicKey
  if expectedKeyUsage ≠ loading.pki.keyUsage then some (.failed 0x422E key)
  else
    match isVerified crypto loading.pki certificate offset with
    | .error .ends => none
    | .error .thrown => some loading.thrown
    | .ok false => some (.failed 0x5720 key)
    | .ok true => do
      let (_, publicKey) ←
        cxEcdsaInternalInitPublicKey key.curve key.w key.wLen loading.pki.publicKey
      let pki := { loading.pki with publicKey }
      return ⟨swoOk, ⟨pki, true⟩, key, some (pki.trustedName.take pki.trustedNameLen)⟩

/-- `sys_os_pki_load_certificate`. There is no result where the emulator ends, as it does
where the domain of an unknown curve is used. -/
def sysOsPkiLoadCertificate (crypto : Crypto) (expectedKeyUsage : UInt8)
    (certificate : Certificate) (certificateLen : Nat) (publicKey : PublicKey) (s : State) :
    Option Loaded :=
  match readTags crypto certificate certificateLen 0 ⟨s.pki, publicKey⟩ with
  | .error (swo, loading) => some (.failed swo loading.publicKey)
  | .ok (offset, loading) => verifyAndStore crypto expectedKeyUsage certificate offset loading

def sysOsPkiVerify (crypto : Crypto) (descriptorHash signature : Bytes) (s : State) :
    Except Stop Bool :=
  let signAlgo := osPkiGetSignatureAlgorithm s.pki.pkSignAlgo
  if ¬ s.isSet then .ok false
  else cxVerify crypto signAlgo s.pki.publicKey descriptorHash signature

/-- What `sys_os_pki_get_info` copies. -/
structure Info where
  keyUsage : UInt8
  trustedName : Bytes
  publicKey : PublicKey
  deriving DecidableEq, Repr

def sysOsPkiGetInfo (publicKey : PublicKey) (s : State) : Option (UInt32 × Option Info) :=
  if ¬ s.isSet then some (0x590E, none)
  else do
    let key := s.pki.publicKey
    let (ret, publicKey) ← cxEcdsaInternalInitPublicKey key.curve key.w key.wLen publicKey
    let info : Info := ⟨s.pki.keyUsage, s.pki.trustedName.take s.pki.trustedNameLen, publicKey⟩
    if ret = 0 then return (0x3202, some info)
    return (swoOk, some info)

end Speculos.Pki
