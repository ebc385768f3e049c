import Speculos.Pki.FieldReads

/-!
# Certificates that are read inside

The walk over the fields of a certificate, and the verification behind it, read the
certificate only inside where every field lies before its end as far as the check of the field
looks, and where a signature stands behind the fields.
-/

namespace Speculos.Pki

open Lib

-- ---------------------------------------------------------------------------
-- The condition
-- ---------------------------------------------------------------------------

def checkValue (crypto : Crypto) (around : Surroundings) (certificate : Certificate) (offset : Nat)
    (s : Loading) : UInt32 × Loading :=
  (readCheckValue certificate crypto around offset s).value

section

variable {certificate : Certificate} {certificateLen offset : Nat} {crypto : Crypto}
  {around : Surroundings} {s : Loading}

@[simp] theorem value_readAt (i : Nat) : (readAt certificate i).value = certificate i := rfl

@[simp] theorem value_readSlice (off n : Nat) :
    (readSlice certificate off n).value = certificate.slice off n := rfl

variable {expectedKeyUsage : UInt8}

end

-- ---------------------------------------------------------------------------
-- Well-formed certificates
-- ---------------------------------------------------------------------------

/-- The certificate begins with elements of known tags, and a signature behind them. -/
def WellFormed (certificate : Certificate) (certificateLen : Nat) : Prop :=
  ∃ (ts : List ByteTlv) (signature : ByteTlv),
    (∀ t ∈ ts, CertificateTag.ofByte t.tag ≠ none ∧ t.tag ≠ certificateTagSignature) ∧
      signature.tag = certificateTagSignature ∧
      ByteTlv.encodeAll ts ++ signature.encode <+: certificate.slice 0 certificateLen

section

variable {certificate : Certificate} {certificateLen offset : Nat} {crypto : Crypto}
  {around : Surroundings} {s : Loading}

theorem slice_add (certificate : Certificate) (off m n : Nat) :
    certificate.slice off (m + n) = certificate.slice off m ++ certificate.slice (off + m) n := by
  simp [Certificate.slice, List.range_add, Nat.add_assoc]

theorem slice_shift (certificate : Certificate) (offset off n : Nat) :
    Certificate.slice (fun i => certificate (offset + i)) off n =
      certificate.slice (offset + off) n := by
  simp only [Certificate.slice, Nat.add_assoc]

theorem value_readBelow (tag : CertificateTag) (swo : UInt32) (next : UInt8 → Loading) :
    (readBelow certificate tag swo offset s next).value =
      fieldBelow tag swo (fun i => certificate (offset + i)) s
        (next (certificate (offset + 2))) := by
  rw [readBelow, Traced.value_bind, value_readAt, fieldBelow]
  by_cases hvalue : (certificate (offset + 2)).toNat ≥ tag.info.value
  · rw [if_pos hvalue, if_pos (.inl hvalue)]
    rfl
  · rw [if_neg hvalue]
    simp only [hvalue, false_or]
    rfl

theorem value_readOfLen (tag : CertificateTag) (swo : UInt32) (next : Traced Nat Loading) :
    (readOfLen certificate tag swo offset s next).value =
      fieldOfLen tag swo (fun i => certificate (offset + i)) s next.value := by
  rw [readOfLen, Traced.value_bind, value_readAt, fieldOfLen]
  split <;> rfl

theorem value_readPublicKey (h : around.allocated = true) :
    (readPublicKey certificate crypto around offset s).value =
      decompressPublicKey crypto (fun i => certificate (offset + i)) s := by
  rw [readPublicKey]
  split
  · rename_i hread
    have hcurve := hread.resolve_right (by rw [h]; decide)
    rw [decompressPublicKey, hcurve]
    rfl
  · rfl

theorem checkValue_eq
    (h : CertificateTag.ofByte (certificate offset) = some .compressedPublicKey →
    around.allocated = true) :
    checkValue crypto around certificate offset s =
      osPkiCheckValue crypto (fun i => certificate (offset + i)) s := by
  unfold checkValue readCheckValue osPkiCheckValue
  rw [Traced.value_bind, value_readAt]
  dsimp only [Nat.add_zero]
  cases htag : CertificateTag.ofByte (certificate offset) with
  | none => rfl
  | some tag =>
    cases tag with
    | version | signAlgoId | publicKeyCurveId | pkSignAlgoId | targetDevice | depth =>
      exact value_readBelow ..
    | timeValidity | publicKeyId | publicKeyUsage => exact value_readOfLen ..
    | signerKeyId =>
      dsimp only
      rw [value_readOfLen, slice_shift]
      rfl
    | structureType =>
      dsimp only
      rw [Traced.value_bind, value_readAt]
      by_cases hvalue : (certificate (offset + 2)).toNat ≠ CertificateTag.structureType.info.value
      · rw [if_pos hvalue, if_pos (.inl hvalue)]
        rfl
      · rw [if_neg hvalue]
        simp only [hvalue, false_or]
        rfl
    | validity =>
      dsimp only
      rw [Traced.value_bind, value_readAt]
      split <;> rfl
    | validityIndex =>
      dsimp only
      rw [Traced.value_bind, value_readSlice, slice_shift]
      by_cases hvalue : fromBE (certificate.slice (offset + 2) 4) ≤
        CertificateTag.validityIndex.info.value
      · rw [if_pos hvalue, if_pos (.inl hvalue)]
        rfl
      · rw [if_neg hvalue]
        simp only [hvalue, false_or]
        rfl
    | challenge | signature => rfl
    | trustedName =>
      dsimp only
      rw [Traced.value_bind, value_readAt, slice_shift]
      split <;> rfl
    | compressedPublicKey => exact value_readPublicKey (h htag)

variable {expectedKeyUsage : UInt8}

end

-- ---------------------------------------------------------------------------
-- Bounds
-- ---------------------------------------------------------------------------

/-- A load reads the certificate inside, and succeeds only if it is well-formed. -/
structure Bounded (crypto : Crypto) (around : Surroundings) (expectedKeyUsage : UInt8)
    (certificate : Certificate) (certificateLen : Nat) (publicKey : PublicKey) (s : State) :
    Prop where
  reads : (readLoad certificate crypto around expectedKeyUsage certificateLen publicKey s).All
    (· < certificateLen)
  wellFormed : ∀ loaded ∈
    (readLoad certificate crypto around expectedKeyUsage certificateLen publicKey s).value,
      loaded.swo = swoOk → WellFormed certificate certificateLen

/-- The cryptography accepts only what its parts before the verification accept. -/
structure Surroundings.Matches (around : Surroundings) (crypto : Crypto)
    (certificate : Certificate) :
    Prop where
  allocated : around.allocated = true
  decodes : ∀ key hash off length, ∀ size ∈ cxEcdomainLength key.curve,
    crypto.ecdsaDoVerify key hash (certificate.slice off length) = true →
      (Ec.decodeSigDer (fun i => certificate (off + i)) length size).value.ret = true

section

variable {certificate : Certificate} {certificateLen offset : Nat} {crypto : Crypto}
  {around : Surroundings} {s : Loading}

theorem value_readLoop (h : around.allocated = true) :
    (readLoop certificate crypto around certificateLen offset s).value =
      readTags crypto certificate certificateLen offset s := by
  induction hn : certificateLen - offset using Nat.strongRecOn generalizing offset s with
  | _ n ih =>
  rw [readLoop, readTags]
  split
  · rename_i hlt
    rw [Traced.value_bind, value_readAt]
    split
    · rfl
    · have hcheck : (readCheckValue certificate crypto around offset s).value =
          osPkiCheckValue crypto (fun i => certificate (offset + i)) s := checkValue_eq fun _ => h
      rw [Traced.value_bind, hcheck]
      dsimp only
      split
      · rfl
      · have hnext := lt_osPkiGetNextTag certificate offset
        rw [Traced.value_bind]
        exact ih _ (by omega) rfl
  · rfl

theorem value_readEcdsa (h : around.Matches crypto certificate) (key : PublicKey) (hash : Bytes)
    (off length : Nat) :
    (readEcdsa certificate crypto key hash off length).value =
      cxEcdsaInternalVerify crypto key hash (certificate.slice off length) := by
  unfold readEcdsa cxEcdsaInternalVerify
  cases hcurve : cxEcdomainLength key.curve with
  | none => rfl
  | some size =>
    dsimp only
    rw [Traced.value_bind, Traced.value_relabel]
    split
    · rename_i hret
      have hverify : crypto.ecdsaDoVerify key hash (certificate.slice off length) = false := by
        by_contra htrue
        rw [Bool.not_eq_false] at htrue
        rw [h.decodes key hash off length size hcurve htrue] at hret
        cases hret
      rw [hverify]
      rfl
    · rfl

theorem value_readEddsa (puKey : PublicKey) (hash : Bytes) (off length : Nat) :
    (readEddsa certificate crypto puKey hash off length).value =
      cxEddsaInternalVerify crypto puKey hash (certificate.slice off length) := by
  have hlength : (certificate.slice off length).length = length := by
    simp [Certificate.slice]
  unfold readEddsa cxEddsaInternalVerify
  rw [hlength]
  split
  · rfl
  · split
    · rfl
    · cases compressedKey crypto puKey <;> rfl

theorem value_readVerified (h : around.Matches crypto certificate) (pki : OsPki) :
    (readVerified certificate crypto pki offset).value =
      isVerified crypto pki certificate offset := by
  unfold readVerified isVerified
  rw [Traced.value_bind, Traced.value_bind, value_readSlice, value_readAt]
  dsimp only
  split
  · exact value_readEcdsa h ..
  · cases osPkiGetSignatureAlgorithm pki.signerSignAlgo with
    | ecdsaRnd => exact value_readEcdsa h ..
    | unknown => rfl
    | eddsaSha512 => exact value_readEddsa ..

/-- What is loaded is what the load without its reads loads. -/
theorem value_readLoad (h : around.Matches crypto certificate) (expectedKeyUsage : UInt8)
    (publicKey : PublicKey) (s : State) :
    (readLoad certificate crypto around expectedKeyUsage certificateLen publicKey s).value =
      sysOsPkiLoadCertificate crypto expectedKeyUsage certificate certificateLen publicKey s := by
  rw [readLoad, Traced.value_bind, value_readLoop h.allocated, sysOsPkiLoadCertificate]
  cases readTags crypto certificate certificateLen 0 ⟨s.pki, publicKey⟩ with
  | error e => rfl
  | ok r =>
    obtain ⟨offset, loading⟩ := r
    dsimp only
    rw [readStore, verifyAndStore]
    split
    · rfl
    · rw [Traced.value_bind, value_readVerified h]
      cases isVerified crypto loading.pki certificate offset with
      | error stop => cases stop <;> rfl
      | ok verified =>
        cases verified with
        | false => rfl
        | true =>
          cases cxEcdsaInternalInitPublicKey loading.publicKey.curve loading.publicKey.w
              loading.publicKey.wLen loading.pki.publicKey with
          | none => simp
          | some initialised => simp

end

end Speculos.Pki
