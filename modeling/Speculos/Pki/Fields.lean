import Speculos.Pki.OsPki
import Speculos.Ec.SigDer
import Speculos.Lib.Tlv

/-!
# The fields of a certificate

The fields are found without the state that they are written to; only the
decompression of a key looks at what is there.
-/

namespace Speculos.Pki

open Lib

-- ---------------------------------------------------------------------------
-- Fields
-- ---------------------------------------------------------------------------

@[simp] theorem Certificate.length_slice (certificate : Certificate) (off n : Nat) :
    (certificate.slice off n).length = n := by
  rw [Certificate.slice, List.length_map, List.length_range]

/-- A field that passes its check, as far as it is kept. -/
inductive Field
  | unused
  | signerId (id : UInt16)
  | signerSignAlgo (algo : UInt8)
  | trustedName (name : Bytes) (length_le : name.length ≤ certificateTrustedNameMaxlen)
  | keyUsage (usage : UInt8)
  | curve (id : UInt32)
  | publicKey (value : Certificate)
  | pkSignAlgo (algo : UInt8)

def Field.store (crypto : Crypto) (s : Loading) : Field → UInt32 × Loading
  | .unused => (swoOk, s)
  | .signerId id => (swoOk, { s with pki := { s.pki with signerId := id } })
  | .signerSignAlgo algo => (swoOk, { s with pki := { s.pki with signerSignAlgo := algo } })
  | .trustedName name _ =>
    (swoOk, { s with pki := { s.pki with
      trustedName := overwrite s.pki.trustedName 0 name, trustedNameLen := name.length } })
  | .keyUsage usage => (swoOk, { s with pki := { s.pki with keyUsage := usage } })
  | .curve id => (swoOk, { s with publicKey := { s.publicKey with curve := id } })
  | .publicKey value => decompressPublicKey crypto value s
  | .pkSignAlgo algo => (swoOk, { s with pki := { s.pki with pkSignAlgo := algo } })

/-- The field of a tag, or the error of its check. -/
def field (value : Certificate) : Except UInt32 Field :=
  let below (tag : CertificateTag) (swo : UInt32) (f : Field) : Except UInt32 Field :=
    if (value 2).toNat ≥ tag.info.value ∨ (value 1).toNat ≠ tag.info.fieldLen then .error swo
    else .ok f
  let ofLen (tag : CertificateTag) (swo : UInt32) (f : Field) : Except UInt32 Field :=
    if (value 1).toNat ≠ tag.info.fieldLen then .error swo else .ok f
  match CertificateTag.ofByte (value 0) with
  | some .structureType =>
    if (value 2).toNat ≠ CertificateTag.structureType.info.value ∨
        (value 1).toNat ≠ CertificateTag.structureType.info.fieldLen then .error 0x422F
    else .ok .unused
  | some .version => below .version 0x4230 .unused
  | some .validity =>
    if (value 1).toNat ≠ CertificateTag.validity.info.fieldLen then .error 0x4231
    else if validityTooOld (value 2) (value 3) (value 4) then .error 0x4231
    else .ok .unused
  | some .validityIndex =>
    if fromBE (value.slice 2 4) ≤ CertificateTag.validityIndex.info.value ∨
        (value 1).toNat ≠ CertificateTag.validityIndex.info.fieldLen then .error 0x4232
    else .ok .unused
  | some .challenge => .ok .unused
  | some .signerKeyId =>
    ofLen .signerKeyId 0x4233 (.signerId (UInt16.ofNat (fromBE (value.slice 2 2))))
  | some .signAlgoId => below .signAlgoId 0x4234 (.signerSignAlgo (value 2))
  | some .timeValidity => ofLen .timeValidity 0x423B .unused
  | some .publicKeyId => ofLen .publicKeyId 0x4235 .unused
  | some .trustedName =>
    if h : (value 1).toNat > certificateTrustedNameMaxlen then .error 0x423A
    else
      .ok (.trustedName (value.slice 2 (value 1).toNat)
        ((Certificate.length_slice _ _ _).trans_le (Nat.not_lt.mp h)))
  | some .publicKeyUsage => ofLen .publicKeyUsage 0x4236 (.keyUsage (value 2))
  | some .publicKeyCurveId => below .publicKeyCurveId 0x4237 (.curve (value 2).toUInt32)
  | some .compressedPublicKey => .ok (.publicKey value)
  | some .pkSignAlgoId => below .pkSignAlgoId 0x4238 (.pkSignAlgo (value 2))
  | some .targetDevice => below .targetDevice 0x4239 .unused
  | some .depth => below .depth 0x423C .unused
  | some .signature | none => .error 0x422D

theorem osPkiCheckValue_eq (crypto : Crypto) (value : Certificate) (s : Loading) :
    osPkiCheckValue crypto value s =
      match field value with
      | .error swo => (swo, s)
      | .ok f => f.store crypto s := by
  rw [osPkiCheckValue, field]
  cases CertificateTag.ofByte (value 0) with
  | none => rfl
  | some tag =>
    cases tag with
    | challenge | compressedPublicKey | signature => rfl
    | validity =>
      simp only
      split
      · rfl
      · split <;> rfl
    | trustedName =>
      by_cases hlen : (value 1).toNat > certificateTrustedNameMaxlen
      · simp only [hlen, if_true, dif_pos]
      · simp only [hlen, if_false, dif_neg, not_false_eq_true, Field.store,
          Certificate.length_slice]
    | _ =>
      simp only [fieldBelow, fieldOfLen]
      split <;> rfl

/-- The fields up to the signature, and the offset behind them or the error of the next. -/
def fields (certificate : Certificate) (certificateLen offset : Nat) :
    List Field × Except UInt32 Nat :=
  if offset < certificateLen then
    if certificate offset = certificateTagSignature then ([], .ok offset)
    else
      match field (fun i => certificate (offset + i)) with
      | .error swo => ([], .error swo)
      | .ok f =>
        let r := fields certificate certificateLen (osPkiGetNextTag certificate offset)
        (f :: r.1, r.2)
  else ([], .ok offset)
termination_by certificateLen - offset
decreasing_by
  have hlt := lt_osPkiGetNextTag certificate offset
  omega

/-- A list of fields is stored, up to one that cannot be. -/
def storeAll (crypto : Crypto) (s : Loading) : List Field → Except Loading Loading
  | [] => .ok s
  | f :: fs =>
    let (swo, s) := f.store crypto s
    if swo ≠ swoOk then .error s else storeAll crypto s fs

/-- The only field that cannot be stored is a key, and its error is always the same. -/
theorem Field.store_swo (crypto : Crypto) (s : Loading) (f : Field) :
    (f.store crypto s).1 = swoOk ∨ (f.store crypto s).1 = 0x3302 := by
  cases f with
  | publicKey value =>
    rw [Field.store, decompressPublicKey]
    split
    · exact .inr rfl
    · split
      · exact .inr rfl
      · exact .inl rfl
  | _ => exact .inl rfl

theorem field_error (h : field value = .error swo) : swo ≠ swoOk ∧ swo ≠ 0x3302 := by
  rw [field] at h
  cases htag : CertificateTag.ofByte (value 0) with
  | none =>
    rw [htag] at h
    cases h
    decide
  | some tag =>
    cases tag with
    | challenge | compressedPublicKey => simp [htag] at h
    | signature =>
      rw [htag] at h
      cases h
      decide
    | _ =>
      simp only [htag] at h
      split_ifs at h
      all_goals
        cases h
        decide

theorem readTags_eq (crypto : Crypto) (certificate : Certificate) (certificateLen offset : Nat)
    (s : Loading) :
    readTags crypto certificate certificateLen offset s =
      match storeAll crypto s (fields certificate certificateLen offset).1 with
      | .error s => .error (0x3302, s)
      | .ok s =>
        match (fields certificate certificateLen offset).2 with
        | .error swo => .error (swo, s)
        | .ok offset => .ok (offset, s) := by
  induction offset, s using readTags.induct crypto certificate certificateLen with
  | case1 offset s hlt hsig =>
    rw [readTags, fields, if_pos hlt, if_pos hlt, if_pos hsig, if_pos hsig]
    rfl
  | case2 offset s hlt hsig swo s' hcheck hswo =>
    rw [osPkiCheckValue_eq] at hcheck
    rw [readTags, fields, if_pos hlt, if_pos hlt, if_neg hsig, if_neg hsig]
    simp only [osPkiCheckValue_eq]
    cases hfield : field fun i => certificate (offset + i) with
    | error swo' =>
      rw [hfield] at hcheck
      cases hcheck
      simp only [if_pos hswo]
      rfl
    | ok f =>
      rw [hfield] at hcheck
      have hstore : f.store crypto s = (swo, s') := hcheck
      have hkey := (f.store_swo crypto s).resolve_left (by rwa [hstore])
      rw [hstore] at hkey
      simp only [hstore, storeAll, if_pos hswo]
      rw [show swo = 0x3302 from hkey]
  | case3 offset s hlt hsig swo s' hcheck hswo ih =>
    rw [osPkiCheckValue_eq] at hcheck
    rw [readTags, fields, if_pos hlt, if_pos hlt, if_neg hsig, if_neg hsig]
    simp only [osPkiCheckValue_eq]
    cases hfield : field fun i => certificate (offset + i) with
    | error swo' =>
      rw [hfield] at hcheck
      cases hcheck
      exact absurd (field_error hfield).1 hswo
    | ok f =>
      rw [hfield] at hcheck
      have hstore : f.store crypto s = (swo, s') := hcheck
      simp only [hstore, storeAll, if_neg hswo]
      exact ih
  | case4 offset s hge =>
    rw [readTags, fields, if_neg hge, if_neg hge]
    rfl

theorem fields_error (h : (fields certificate certificateLen offset).2 = .error swo) :
    swo ≠ swoOk ∧ swo ≠ 0x3302 := by
  induction offset using fields.induct certificate certificateLen with
  | case1 offset hlt hsig =>
    rw [fields, if_pos hlt, if_pos hsig] at h
    cases h
  | case2 offset hlt hsig swo' hfield =>
    rw [fields, if_pos hlt, if_neg hsig, hfield] at h
    cases h
    exact field_error hfield
  | case3 offset hlt hsig f hfield ih =>
    rw [fields, if_pos hlt, if_neg hsig, hfield] at h
    exact ih h
  | case4 offset hge =>
    rw [fields, if_neg hge] at h
    cases h

end Speculos.Pki
