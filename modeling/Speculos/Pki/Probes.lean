import Speculos.Pki.Inheritance

/-!
# Histories that tell a certificate apart

A certificate that sets all fields leaves any state that is wanted. Where a
certificate leaves a field as it is, two such states give two outcomes under a
cryptography in which every point can be decompressed and a signature passes for
the key or the hash that is wanted.
-/

namespace Speculos.Pki

open Lib

-- ---------------------------------------------------------------------------
-- Cryptography
-- ---------------------------------------------------------------------------

/-- Every point is zero and stays as it is when it is compressed, a hash tells the algorithm,
and a signature passes if it is `sig` or if `passes` says so. -/
def probeCrypto (sig : Bytes) (passes : PublicKey → Bytes → Bool) : Crypto where
  decompress _ _ _ := some (0, 0)
  hash algo _ := [algo]
  ecdsaDoVerify key hash s := s = sig ∨ passes key hash
  compressPoint _ w := .ok w
  ed25519Verify _ _ _ := true
  rootCaPublicKey := ⟨0x21, 0, []⟩

theorem probeCrypto_total (sig : Bytes) (passes : PublicKey → Bytes → Bool) (c : UInt32) (v : Bytes)
    (b : Bool) : ((probeCrypto sig passes).decompress c v b).isSome = true := rfl

section

variable {sig : Bytes} {passes : PublicKey → Bytes → Bool} {pki : OsPki}
  {certificate : Certificate} {offset : Nat}

theorem isVerified_root (h : pki.signerId = certificateKeyIdLedgerRootV3) :
    isVerified (probeCrypto sig passes) pki certificate offset =
      .ok (decide (certificate.signature offset = sig ∨
        passes ⟨0x21, 0, []⟩ [pki.signerSignAlgo])) := by
  rw [isVerified, if_pos h]
  rfl

theorem isVerified_ecdsa (h : pki.signerId ≠ certificateKeyIdLedgerRootV3)
    (halgo : osPkiGetSignatureAlgorithm pki.signerSignAlgo = .ecdsaRnd)
    (hcurve : cxEcdomainLength pki.publicKey.curve = some n) :
    isVerified (probeCrypto sig passes) pki certificate offset =
      .ok (decide (certificate.signature offset = sig ∨
        passes pki.publicKey [pki.signerSignAlgo])) := by
  rw [isVerified, if_neg h, halgo]
  simp only [cxVerify, cxEcdsaInternalVerify, hcurve]
  rfl

end

-- ---------------------------------------------------------------------------
-- A certificate that sets all
-- ---------------------------------------------------------------------------

/-- What is to be set, by a certificate that is signed by the root CA or with ECDSA: the
name is a byte that is repeated. -/
structure Wanted where
  keyUsage : UInt8
  signerId : UInt8
  signerSignAlgo : UInt8
  letter : UInt8
  pkSignAlgo : UInt8
  curve : UInt8
  signerSignAlgo_lt : signerSignAlgo.toNat < 0x11
  pkSignAlgo_lt : pkSignAlgo.toNat < 0x11
  curve_lt : curve.toNat < 0x7F
  length_curve : cxEcdomainLength curve.toUInt32 = some 32
  signed : signerId = 2 ∨ osPkiGetSignatureAlgorithm signerSignAlgo = .ecdsaRnd

def Wanted.certificate (w : Wanted) (sig : Bytes) : Certificate := fun i =>
  if i < 12 then
    [0x31, 1, w.keyUsage, 0x13, 2, 0, w.signerId, 0x14, 1, w.signerSignAlgo, 0x20, 32].getD i 0
  else if i < 44 then w.letter
  else
    ([0x34, 1, w.pkSignAlgo, 0x32, 1, w.curve, 0x33, 1, 2, 0x15, UInt8.ofNat sig.length] ++
      sig).getD (i - 44) 0

/-- The key that is stored, with the rest of its array. -/
def storedKey (curve : UInt8) : PublicKey := ⟨curve.toUInt32, 65, 0x04 :: List.replicate 96 0⟩

def Wanted.state (w : Wanted) : State where
  pki := {
    keyUsage := w.keyUsage
    signerSignAlgo := w.signerSignAlgo
    pkSignAlgo := w.pkSignAlgo
    trustedName := List.replicate 32 w.letter
    trustedNameLen := 32
    signerId := w.signerId.toUInt16
    publicKey := storedKey w.curve }
  isSet := true

theorem fields_cons (hlt : offset < certificateLen)
    (htag : certificate offset ≠ certificateTagSignature)
    (hfield : (field fun i => certificate (offset + i)) = .ok f)
    (hnext : osPkiGetNextTag certificate offset = next) :
    fields certificate certificateLen offset =
      (f :: (fields certificate certificateLen next).1,
        (fields certificate certificateLen next).2) := by
  rw [fields, if_pos hlt, if_neg htag, hfield, hnext]

theorem fields_signature (hlt : offset < certificateLen)
    (htag : certificate offset = certificateTagSignature) :
    fields certificate certificateLen offset = ([], .ok offset) := by
  rw [fields, if_pos hlt, if_pos htag]

theorem Wanted.fields_certificate (w : Wanted) (sig : Bytes) :
    fields (w.certificate sig) 55 0 =
      ([.keyUsage w.keyUsage, .signerId w.signerId.toUInt16, .signerSignAlgo w.signerSignAlgo,
        .trustedName (List.replicate 32 w.letter) (Nat.le_refl 32), .pkSignAlgo w.pkSignAlgo,
        .curve w.curve.toUInt32, .publicKey fun i => w.certificate sig (50 + i)], .ok 53) := by
  have hne {tag : UInt8} (h : (tag == 0x15) = false) : tag ≠ certificateTagSignature :=
    beq_eq_false_iff_ne.mp h
  have hid : UInt16.ofNat (fromBE [0, w.signerId]) = w.signerId.toUInt16 := by
    rw [fromBE_pair]
    simp
  have husage : fields (w.certificate sig) 55 0 =
      (.keyUsage w.keyUsage :: (fields (w.certificate sig) 55 3).1,
        (fields (w.certificate sig) 55 3).2) :=
    fields_cons (by decide) (hne rfl) rfl rfl
  have hsigner : fields (w.certificate sig) 55 3 =
      (.signerId w.signerId.toUInt16 :: (fields (w.certificate sig) 55 7).1,
        (fields (w.certificate sig) 55 7).2) :=
    fields_cons (by decide) (hne rfl) (congrArg (fun id => Except.ok (Field.signerId id)) hid) rfl
  have halgo : fields (w.certificate sig) 55 7 =
      (.signerSignAlgo w.signerSignAlgo :: (fields (w.certificate sig) 55 10).1,
        (fields (w.certificate sig) 55 10).2) :=
    fields_cons (by decide) (hne rfl) (if_neg (not_or.mpr ⟨Nat.not_le.mpr w.signerSignAlgo_lt,
      not_not.mpr rfl⟩)) rfl
  have hname : fields (w.certificate sig) 55 10 =
      (.trustedName (List.replicate 32 w.letter) (Nat.le_refl 32) :: (fields (w.certificate sig) 55 44).1,
        (fields (w.certificate sig) 55 44).2) :=
    fields_cons (by decide) (hne rfl) rfl rfl
  have hpk : fields (w.certificate sig) 55 44 =
      (.pkSignAlgo w.pkSignAlgo :: (fields (w.certificate sig) 55 47).1,
        (fields (w.certificate sig) 55 47).2) :=
    fields_cons (by decide) (hne rfl) (if_neg (not_or.mpr ⟨Nat.not_le.mpr w.pkSignAlgo_lt,
      not_not.mpr rfl⟩)) rfl
  have hcurve : fields (w.certificate sig) 55 47 =
      (.curve w.curve.toUInt32 :: (fields (w.certificate sig) 55 50).1,
        (fields (w.certificate sig) 55 50).2) :=
    fields_cons (by decide) (hne rfl) (if_neg (not_or.mpr ⟨Nat.not_le.mpr w.curve_lt,
      not_not.mpr rfl⟩)) rfl
  have hkey : fields (w.certificate sig) 55 50 =
      (.publicKey (fun i => w.certificate sig (50 + i)) :: (fields (w.certificate sig) 55 53).1,
        (fields (w.certificate sig) 55 53).2) :=
    fields_cons (by decide) (hne rfl) rfl rfl
  have hend : fields (w.certificate sig) 55 53 = ([], .ok 53) := fields_signature (by decide) rfl
  rw [husage, hsigner, halgo, hname, hpk, hcurve, hkey, hend]

-- ---------------------------------------------------------------------------
-- Histories
-- ---------------------------------------------------------------------------

/-- The load of a certificate that sets all, with a buffer of zeros. -/
def Wanted.load (w : Wanted) (sig : Bytes) : Load := ⟨w.keyUsage, w.certificate sig, 55, .zero⟩

/-- The stored key may be read over by a key of 256 bits. -/
def Restorable (s : State) : Prop := s.pki.Sized ∧ s.pki.publicKey.w.drop 68 = List.replicate 29 0

theorem restorable_initial : Restorable .initial := ⟨rfl, rfl⟩

theorem Wanted.restorable_state (w : Wanted) : Restorable w.state := ⟨rfl, rfl⟩

def Wanted.loading (w : Wanted) (s : State) : Loading :=
  ⟨{ w.state.pki with publicKey := s.pki.publicKey }, storedKey w.curve⟩

theorem Wanted.storeAll_certificate (w : Wanted)
    (hpoint : ∀ c v b, crypto.decompress c v b = some (0, 0)) {s : State} (hs : s.pki.Sized)
    (value : Certificate) :
    storeAll crypto ⟨s.pki, .zero⟩
      [.keyUsage w.keyUsage, .signerId w.signerId.toUInt16, .signerSignAlgo w.signerSignAlgo,
        .trustedName (List.replicate 32 w.letter) (Nat.le_refl 32), .pkSignAlgo w.pkSignAlgo,
        .curve w.curve.toUInt32, .publicKey value] =
      .ok (w.loading s) := by
  have hname : overwrite s.pki.trustedName 0 (List.replicate 32 w.letter) =
      List.replicate 32 w.letter := by
    rw [overwrite_zero, List.drop_of_length_le (by rw [hs]; exact Nat.le_refl 32), List.append_nil]
  simp only [storeAll, Field.store, decompressPublicKey, w.length_curve, hname, hpoint]
  rfl

theorem Wanted.loadStep_load (w : Wanted) (sig : Bytes)
    (hpoint : ∀ c v b, crypto.decompress c v b = some (0, 0)) {s : State} (hs : Restorable s)
    (hverified : isVerified crypto (w.loading s).pki (w.certificate sig) 53 = .ok true) :
    loadStep crypto s (w.load sig) = some w.state := by
  have hinit : (w.loading s).initPublicKey = some (65, storedKey w.curve) := by
    have hkey : overwrite (overwrite s.pki.publicKey.w 0 (List.replicate 68 0)) 0
        (0x04 :: List.replicate 64 0) = 0x04 :: List.replicate 96 0 := by
      rw [overwrite_zero, overwrite_zero, List.length_replicate, hs.2]
      rfl
    simp only [Wanted.loading, Loading.initPublicKey, cxEcdsaInternalInitPublicKey, storedKey,
      w.length_curve]
    refine congrArg (fun w => some (65, PublicKey.mk _ 65 w)) ?_
    exact hkey
  have hload : verifyAndStore crypto w.keyUsage (w.certificate sig) 53 (w.loading s) =
      some ((w.loading s).stored (storedKey w.curve)) := by
    have husage : w.keyUsage = (w.loading s).pki.keyUsage := rfl
    rw [verifyAndStore_verified husage hverified, hinit]
    rfl
  rw [loadStep, Load.run, Wanted.load, sysOsPkiLoadCertificate_eq, w.fields_certificate,
    w.storeAll_certificate hpoint hs.1]
  show (verifyAndStore _ _ _ _ _).map _ = _
  rw [hload]
  rfl

theorem Wanted.signature_certificate (w : Wanted) (hsig : sig = [] ∨ sig = [0]) :
    (w.certificate sig).signature 53 = sig := by
  rcases hsig with rfl | rfl <;> rfl

theorem Wanted.isVerified_root (w : Wanted) (hsig : sig = [] ∨ sig = [0])
    (passes : PublicKey → Bytes → Bool) (hw : w.signerId = 2) (s : State) :
    isVerified (probeCrypto sig passes) (w.loading s).pki (w.certificate sig) 53 = .ok true := by
  have hid : (w.loading s).pki.signerId = certificateKeyIdLedgerRootV3 := by
    simp only [Wanted.loading, Wanted.state, hw]
    rfl
  rw [Pki.isVerified_root hid, w.signature_certificate hsig]
  simp

theorem Wanted.isVerified_state (w w' : Wanted) (hsig : sig = [] ∨ sig = [0])
    (passes : PublicKey → Bytes → Bool) :
    isVerified (probeCrypto sig passes) (w.loading w'.state).pki (w.certificate sig) 53 =
      .ok true := by
  by_cases hsigner : w.signerId = 2
  · exact w.isVerified_root hsig passes hsigner _
  · have hid : (w.loading w'.state).pki.signerId ≠ certificateKeyIdLedgerRootV3 := by
      intro hid
      exact hsigner (UInt8.toNat_inj.mp (congrArg UInt16.toNat hid))
    rw [isVerified_ecdsa (n := 32) hid (w.signed.resolve_left hsigner) w'.length_curve,
      w.signature_certificate hsig]
    simp

/-- A certificate of the root CA, for a key on secp256k1. -/
def Wanted.ofRoot : Wanted :=
  ⟨0, 2, 1, 0, 1, 0x21, by decide, by decide, by decide, by decide, .inl rfl⟩

theorem Wanted.exec_ofRoot (w : Wanted) (hsig : sig = [] ∨ sig = [0])
    (passes : PublicKey → Bytes → Bool) :
    exec (loadStep (probeCrypto sig passes)) .initial [Wanted.ofRoot.load sig, w.load sig] =
      some w.state := by
  have hpoint c v b : (probeCrypto sig passes).decompress c v b = some (0, 0) := rfl
  have hfirst := Wanted.ofRoot.loadStep_load sig hpoint restorable_initial
    (Wanted.ofRoot.isVerified_root hsig passes rfl _)
  have hsecond := w.loadStep_load sig hpoint Wanted.ofRoot.restorable_state
    (w.isVerified_state Wanted.ofRoot hsig passes)
  rw [exec, hfirst, Option.bind_some, exec, hsecond]
  rfl

theorem Wanted.reachable (w : Wanted) (hsig : sig = [] ∨ sig = [0])
    (passes : PublicKey → Bytes → Bool) :
    ∃ before, exec (loadStep (probeCrypto sig passes)) .initial before = some w.state :=
  ⟨_, w.exec_ofRoot hsig passes⟩

-- ---------------------------------------------------------------------------
-- The condition is necessary
-- ---------------------------------------------------------------------------

/-- What is compared of a name tells the letters apart where the name is not set. -/
def ComparesUnset (name : Bytes → Nat → Bytes) (nameSet : Found → Bool) : Prop :=
  ∀ {found : Found} {a b : UInt8} {s t s' t' : Loading}, nameSet found = false →
    found.Leaves s s' → found.Leaves t t' →
    s.pki.trustedName = List.replicate 32 a → s.pki.trustedNameLen = 32 →
    t.pki.trustedName = List.replicate 32 b → t.pki.trustedNameLen = 32 →
    name s'.pki.trustedName s'.pki.trustedNameLen = name t'.pki.trustedName t'.pki.trustedNameLen →
    a = b

section

variable {name : Bytes → Nat → Bytes} {certificate : Certificate} {certificateLen : Nat}
  {expectedKeyUsage : UInt8} (h : InheritsNothing name certificate certificateLen expectedKeyUsage)
include h

theorem sameLoad_of_wanted (w w' : Wanted) (hsig : sig = [] ∨ sig = [0])
    (passes : PublicKey → Bytes → Bool) (hsame : w'.curve = w.curve)
    (publicKey publicKey' : PublicKey) :
    SameLoad name
      (sysOsPkiLoadCertificate (probeCrypto sig passes) expectedKeyUsage certificate certificateLen
        publicKey w.state)
      (sysOsPkiLoadCertificate (probeCrypto sig passes) expectedKeyUsage certificate certificateLen
        publicKey' w'.state) := by
  obtain ⟨before, hbefore⟩ := w.reachable hsig passes
  obtain ⟨before', hbefore'⟩ := w'.reachable hsig passes
  refine h _ _ _ _ _ hbefore hbefore' ?_ publicKey publicKey'
  simp only [Wanted.state, hsame]

end

theorem load_eq_verifyAndStore {crypto : Crypto}
    (htotal : ∀ c v b, (crypto.decompress c v b).isSome) {certificate : Certificate}
    (hdomain : (found (fields certificate certificateLen 0).1).noDomain = false)
    (publicKey : PublicKey) (hcurve : cxEcdomainLength publicKey.curve ≠ none ∨
      (found (fields certificate certificateLen 0).1).callerCurve = false) {s : State}
    (hsize : s.pki.Sized) (hend : (fields certificate certificateLen 0).2 = .ok offset)
    (expectedKeyUsage : UInt8) :
    ∃ t, sysOsPkiLoadCertificate crypto expectedKeyUsage certificate certificateLen publicKey s =
        verifyAndStore crypto expectedKeyUsage certificate offset t ∧
      (found (fields certificate certificateLen 0).1).Holds t ∧
      (found (fields certificate certificateLen 0).1).Leaves ⟨s.pki, publicKey⟩ t := by
  obtain ⟨t, ht, hholds, hleaves, -⟩ :=
    storeAll_total htotal (Found.holds_nothing ⟨s.pki, publicKey⟩)
    (Found.leaves_nothing ⟨s.pki, publicKey⟩) hsize _ hdomain hcurve
  refine ⟨t, ?_, hholds, hleaves⟩
  rw [sysOsPkiLoadCertificate_eq, ht, hend]

theorem not_sameLoad_verifyAndStore (h : expectedKeyUsage = loading.pki.keyUsage)
    (hswo : swo ≠ 0x5720) (hthrown : swo ≠ UInt32.ofNat invalidParameter) (hok : swo ≠ swoOk)
    (publicKey : PublicKey) :
    ¬ SameLoad name (some (.failed swo publicKey))
      (verifyAndStore crypto expectedKeyUsage certificate offset loading) := by
  intro hsame
  cases hr : verifyAndStore crypto expectedKeyUsage certificate offset loading with
  | none =>
    rw [hr] at hsame
    exact hsame
  | some r =>
    rw [hr] at hsame
    have heq : swo = r.swo := hsame.1
    rcases verifyAndStore_cases hr with ⟨hne, -⟩ | ⟨-, rfl | ⟨-, rfl⟩ | ⟨_, -, -, rfl⟩⟩
    · exact hne h
    · exact hswo heq
    · exact hthrown heq
    · exact hok heq

theorem not_sameLoad_verified (h : expectedKeyUsage = loading.pki.keyUsage)
    (hverified : isVerified crypto loading.pki certificate offset = .ok true)
    (h' : expectedKeyUsage = loading'.pki.keyUsage)
    (hverified' : isVerified crypto loading'.pki certificate offset = .ok false) :
    ¬ SameLoad name (verifyAndStore crypto expectedKeyUsage certificate offset loading)
      (verifyAndStore crypto expectedKeyUsage certificate offset loading') := by
  intro hsame
  rw [verifyAndStore_verified h hverified, verifyAndStore_notVerified h' hverified'] at hsame
  cases hinit : loading.initPublicKey with
  | none =>
    rw [hinit] at hsame
    exact hsame
  | some r =>
    rw [hinit] at hsame
    have hswo : swoOk = 0x5720 := hsame.1
    exact absurd hswo (by decide)

theorem callerCurve_of_inheritsNothing
    (h : InheritsNothing name certificate certificateLen expectedKeyUsage)
    (hdomain : (found (fields certificate certificateLen 0).1).noDomain = false) :
    (found (fields certificate certificateLen 0).1).callerCurve = false := by
  by_contra hcaller
  have hsame := h (probeCrypto [] fun _ _ => true) [] [] .initial .initial rfl rfl rfl
    ⟨0, 0, []⟩ ⟨0x21, 0, []⟩
  have hnone : Found.nothing.curve = none →
      cxEcdomainLength (Loading.mk State.initial.pki ⟨0, 0, []⟩).publicKey.curve = none :=
        fun _ => rfl
  obtain ⟨s, hs⟩ := storeAll_callerCurve (probeCrypto [] fun _ _ => true) hnone rfl
    (fields certificate certificateLen 0).1 ((Bool.not_eq_false _).mp hcaller)
  obtain ⟨t, ht, -, -, -⟩ := storeAll_total (probeCrypto_total [] fun _ _ => true)
    (Found.holds_nothing ⟨State.initial.pki, ⟨0x21, 0, []⟩⟩) (Found.leaves_nothing _) rfl _ hdomain
    (.inl (by decide))
  rw [sysOsPkiLoadCertificate_eq, sysOsPkiLoadCertificate_eq, hs, ht] at hsame
  cases hend : (fields certificate certificateLen 0).2 with
  | error swo =>
    rw [hend] at hsame
    exact (fields_error hend).2 hsame.1.symm
  | ok offset =>
    simp only [hend] at hsame
    by_cases husage : expectedKeyUsage = t.pki.keyUsage
    · exact not_sameLoad_verifyAndStore husage (by decide) (by decide) (by decide) _ hsame
    · rw [verifyAndStore_otherUsage husage] at hsame
      have hswo : (0x3302 : UInt32) = 0x422E := hsame.1
      exact absurd hswo (by decide)

theorem exists_otherSignature (signature : Bytes) :
    ∃ sig, (sig = [] ∨ sig = [0]) ∧ signature ≠ sig := by
  by_cases hnil : signature = []
  · exact ⟨[0], .inr rfl, by rw [hnil]; decide⟩
  · exact ⟨[], .inl rfl, hnil⟩

section

variable {name : Bytes → Nat → Bytes} {certificate : Certificate} {certificateLen offset : Nat}
  {expectedKeyUsage : UInt8} (h : InheritsNothing name certificate certificateLen expectedKeyUsage)
  (hdomain : (found (fields certificate certificateLen 0).1).noDomain = false)
  (hcaller : (found (fields certificate certificateLen 0).1).callerCurve = false)
  (hend : (fields certificate certificateLen 0).2 = .ok offset)
include h hdomain hcaller hend

theorem sameLoad_verifyAndStore (w w' : Wanted) (hsig : sig = [] ∨ sig = [0])
    (passes : PublicKey → Bytes → Bool) (hsame : w'.curve = w.curve)
    (publicKey publicKey' : PublicKey) :
    let f := found (fields certificate certificateLen 0).1
    ∃ t t', SameLoad name
        (verifyAndStore (probeCrypto sig passes) expectedKeyUsage certificate offset t)
        (verifyAndStore (probeCrypto sig passes) expectedKeyUsage certificate offset t') ∧
      f.Holds t ∧ f.Holds t' ∧ f.Leaves ⟨w.state.pki, publicKey⟩ t ∧
      f.Leaves ⟨w'.state.pki, publicKey'⟩ t' := by
  have hload := sameLoad_of_wanted h w w' hsig passes hsame publicKey publicKey'
  obtain ⟨t, ht, hholds, hleaves⟩ := load_eq_verifyAndStore (probeCrypto_total sig passes) hdomain
    publicKey (.inr hcaller) w.restorable_state.1 hend expectedKeyUsage
  obtain ⟨t', ht', hholds', hleaves'⟩ :=
    load_eq_verifyAndStore (probeCrypto_total sig passes) hdomain
    publicKey' (.inr hcaller) w'.restorable_state.1 hend expectedKeyUsage
  rw [ht, ht'] at hload
  exact ⟨t, t', hload, hholds, hholds', hleaves, hleaves'⟩

theorem keyUsage_of_inheritsNothing :
    (found (fields certificate certificateLen 0).1).keyUsage ≠ none := by
  intro hnone
  obtain ⟨t, t', hsame, -, -, hleaves, hleaves'⟩ := sameLoad_verifyAndStore h hdomain hcaller hend
    ⟨expectedKeyUsage + 1, 2, 1, 0, 1, 0x21, by decide, by decide, by decide, by decide, .inl rfl⟩
    ⟨expectedKeyUsage, 2, 1, 0, 1, 0x21, by decide, by decide, by decide, by decide, .inl rfl⟩
    (.inl rfl) (fun _ _ => true) rfl .zero .zero
  have hne : expectedKeyUsage ≠ t.pki.keyUsage := by
    rw [hleaves.keyUsage hnone]
    show expectedKeyUsage ≠ expectedKeyUsage + 1
    grind
  rw [verifyAndStore_otherUsage hne] at hsame
  exact not_sameLoad_verifyAndStore (hleaves'.keyUsage hnone).symm (by decide) (by decide)
    (by decide) _
    hsame

variable (husage : expectedKeyUsage ∈ (found (fields certificate certificateLen 0).1).keyUsage)
include husage

/-- One signer is the root CA, whose signature passes, and the other one the stored
key, whose signature does not. -/
theorem signerId_of_inheritsNothing :
    (found (fields certificate certificateLen 0).1).signerId ≠ none := by
  intro hnone
  obtain ⟨sig, hsig, hne⟩ := exists_otherSignature (certificate.signature offset)
  let passes : PublicKey → Bytes → Bool := fun key _ => key = ⟨0x21, 0, []⟩
  obtain ⟨t, t', hsame, hholds, hholds', hleaves, hleaves'⟩ :=
    sameLoad_verifyAndStore h hdomain hcaller hend
      ⟨0, 2, 1, 0, 1, 0x21, by decide, by decide, by decide, by decide, .inl rfl⟩
      ⟨0, 0, 1, 0, 1, 0x21, by decide, by decide, by decide, by decide, .inr rfl⟩
      hsig passes rfl .zero .zero
  refine not_sameLoad_verified (hholds.keyUsage _ husage).symm ?_
    (hholds'.keyUsage _ husage).symm ?_
    hsame
  · rw [isVerified_root (hleaves.signerId hnone)]
    simp [passes]
  · have hkey : t'.pki.publicKey = storedKey 0x21 := hleaves'.storedKey
    have hid : t'.pki.signerId ≠ certificateKeyIdLedgerRootV3 := by
      rw [hleaves'.signerId hnone]
      decide
    cases hkind : osPkiGetSignatureAlgorithm t'.pki.signerSignAlgo with
    | ecdsaRnd =>
      have hcurve : cxEcdomainLength t'.pki.publicKey.curve = some 32 := by
        rw [hkey]
        rfl
      have hpasses : passes t'.pki.publicKey [t'.pki.signerSignAlgo] = false := by
        rw [hkey]
        decide
      rw [isVerified_ecdsa hid hkind hcurve, hpasses]
      simp [hne]
    | eddsaSha512 =>
      have hcurve : t'.pki.publicKey.curve ≠ cxCurveEd25519 := by
        rw [hkey]
        decide
      rw [isVerified, if_neg hid, hkind]
      simp [cxVerify, cxEddsaInternalVerify, hcurve]
    | unknown =>
      rw [isVerified, if_neg hid, hkind]
      rfl

theorem signerSignAlgo_of_inheritsNothing :
    (found (fields certificate certificateLen 0).1).signerSignAlgo ≠ none := by
  intro hnone
  obtain ⟨sig, hsig, hne⟩ := exists_otherSignature (certificate.signature offset)
  let passes : PublicKey → Bytes → Bool := fun _ hash => hash = [1]
  obtain ⟨t, t', hsame, hholds, hholds', hleaves, hleaves'⟩ :=
    sameLoad_verifyAndStore h hdomain hcaller hend
      ⟨0, 2, 1, 0, 1, 0x21, by decide, by decide, by decide, by decide, .inl rfl⟩
      ⟨0, 2, 2, 0, 1, 0x21, by decide, by decide, by decide, by decide, .inl rfl⟩
      hsig passes rfl .zero .zero
  have hverified {w : Wanted} {k : PublicKey} {t : Loading}
      (halgo : osPkiGetSignatureAlgorithm w.signerSignAlgo = .ecdsaRnd)
      (hleaves : (found (fields certificate certificateLen 0).1).Leaves ⟨w.state.pki, k⟩ t) :
      isVerified (probeCrypto sig passes) t.pki certificate offset =
        .ok (decide (w.signerSignAlgo = 1)) := by
    have hkey : t.pki.publicKey = storedKey w.curve := hleaves.storedKey
    have halgo' : t.pki.signerSignAlgo = w.signerSignAlgo := hleaves.signerSignAlgo hnone
    by_cases hid : t.pki.signerId = certificateKeyIdLedgerRootV3
    · rw [isVerified_root hid, halgo']
      simp [passes, hne]
    · have hlen : cxEcdomainLength t.pki.publicKey.curve = some 32 := by
        rw [hkey]
        exact w.length_curve
      rw [isVerified_ecdsa hid (halgo' ▸ halgo) hlen, halgo']
      simp [passes, hne]
  exact not_sameLoad_verified (hholds.keyUsage _ husage).symm (hverified rfl hleaves)
    (hholds'.keyUsage _ husage).symm (hverified rfl hleaves') hsame

/-- The curve of a key that the signatures of an algorithm can be verified with. -/
def curveOf (algo : UInt8) : UInt8 :=
  if osPkiGetSignatureAlgorithm algo = .eddsaSha512 then 0x71 else 0x21

omit h hdomain hcaller hend husage in
theorem isVerified_of_not_neverVerified
    (hkey : pki.publicKey = storedKey (curveOf pki.signerSignAlgo))
    (hnever : ¬ NeverVerified pki.signerId pki.signerSignAlgo (certificate (offset + 1)).toNat) :
    isVerified (probeCrypto [] fun _ _ => true) pki certificate offset = .ok true := by
  by_cases hid : pki.signerId = certificateKeyIdLedgerRootV3
  · rw [isVerified_root hid]
    simp
  · rw [NeverVerified, not_and] at hnever
    have hnever := hnever hid
    cases hkind : osPkiGetSignatureAlgorithm pki.signerSignAlgo with
    | unknown => simp [hkind] at hnever
    | ecdsaRnd =>
      have hcurve : cxEcdomainLength pki.publicKey.curve = some 32 := by
        rw [hkey, curveOf, hkind]
        rfl
      rw [isVerified_ecdsa hid hkind hcurve]
      simp
    | eddsaSha512 =>
      simp only [hkind, not_not] at hnever
      rw [isVerified, if_neg hid, hkind, hkey, curveOf, hkind]
      simp only [cxVerify, cxEddsaInternalVerify, Certificate.signature, Certificate.length_slice,
        hnever]
      rfl

theorem sameLoad_stored
    (hsigner : signerId ∈ (found (fields certificate certificateLen 0).1).signerId)
    (halgo : algo ∈ (found (fields certificate certificateLen 0).1).signerSignAlgo)
    (hnever : ¬ NeverVerified signerId algo (certificate (offset + 1)).toNat)
    (letter letter' : UInt8) (publicKey publicKey' : PublicKey) :
    let f := found (fields certificate certificateLen 0).1
    ∃ s s' t t' : Loading, s.publicKey = publicKey ∧ s'.publicKey = publicKey' ∧
      s.pki.trustedName = List.replicate 32 letter ∧ s.pki.trustedNameLen = 32 ∧
      s'.pki.trustedName = List.replicate 32 letter' ∧ s'.pki.trustedNameLen = 32 ∧
      s.pki.pkSignAlgo ≠ s'.pki.pkSignAlgo ∧
      SameLoad name (t.initPublicKey.map fun r => t.stored r.2)
        (t'.initPublicKey.map fun r => t'.stored r.2) ∧
      f.Holds t ∧ f.Holds t' ∧ f.Leaves s t ∧ f.Leaves s' t' := by
  intro f
  have hcurve : (curveOf algo).toNat < 0x7F ∧ cxEcdomainLength (curveOf algo).toUInt32 =
      some 32 := by
    rw [curveOf]
    split <;> decide
  let w : Wanted :=
    ⟨0, 2, 1, letter, 1, curveOf algo, by decide, by decide, hcurve.1, hcurve.2, .inl rfl⟩
  let w' : Wanted :=
    ⟨0, 2, 1, letter', 2, curveOf algo, by decide, by decide, hcurve.1, hcurve.2, .inl rfl⟩
  obtain ⟨t, t', hsame, hholds, hholds', hleaves, hleaves'⟩ :=
    sameLoad_verifyAndStore h hdomain hcaller hend w w' (.inl rfl) (fun _ _ => true) rfl publicKey
      publicKey'
  have hverified {t : Loading} (hholds : f.Holds t)
      (hkey : t.pki.publicKey = storedKey (curveOf algo)) :
      isVerified (probeCrypto [] fun _ _ => true) t.pki certificate offset = .ok true := by
    refine isVerified_of_not_neverVerified ?_ ?_
    · rw [hkey, hholds.signerSignAlgo _ halgo]
    · rwa [hholds.signerId _ hsigner, hholds.signerSignAlgo _ halgo]
  rw [verifyAndStore_verified (hholds.keyUsage _ husage).symm (hverified hholds hleaves.storedKey),
    verifyAndStore_verified (hholds'.keyUsage _ husage).symm
      (hverified hholds' hleaves'.storedKey)] at hsame
  have hpk : (1 : UInt8) ≠ 2 := by decide
  exact ⟨⟨w.state.pki, publicKey⟩, ⟨w'.state.pki, publicKey'⟩, t, t', rfl, rfl, rfl, rfl, rfl, rfl,
    hpk, hsame, hholds, hholds', hleaves, hleaves'⟩

omit h hdomain hcaller hend husage in
theorem initPublicKey_eq_none {loading : Loading}
    (h : cxEcdomainLength loading.publicKey.curve = none) : loading.initPublicKey = none := by
  rw [Loading.initPublicKey, cxEcdsaInternalInitPublicKey, h]
  rfl

omit h hdomain hcaller hend husage in
theorem initPublicKey_eq_some {loading : Loading}
    (h : cxEcdomainLength loading.publicKey.curve = some n) :
    ∃ r, loading.initPublicKey = some r := by
  rw [Loading.initPublicKey, cxEcdsaInternalInitPublicKey, h]
  simp only [Option.bind_eq_bind, Option.bind_some]
  split <;> exact ⟨_, rfl⟩

omit h hdomain hcaller hend husage in
theorem cxEcdomainLength_pos (h : cxEcdomainLength curve = some n) : 0 < n := by
  unfold cxEcdomainLength at h
  split at h <;> cases h <;> decide

omit h hdomain hcaller hend husage in
theorem initPublicKey_wellFormed {loading : Loading}
    (hlen : cxEcdomainLength loading.publicKey.curve = some n)
    (hw : loading.publicKey.w = 0x04 :: List.replicate (n * 2) b)
    (hwLen : loading.publicKey.wLen = 1 + n * 2) :
    ∃ r, loading.initPublicKey = some r ∧ r.2.w[1]? = some b := by
  have hpos := cxEcdomainLength_pos hlen
  have htake : (0x04 :: List.replicate (n * 2) b).take (1 + n * 2) =
      0x04 :: List.replicate (n * 2) b :=
    List.take_of_length_le (by rw [List.length_cons, List.length_replicate, Nat.add_comm])
  rw [Loading.initPublicKey, cxEcdsaInternalInitPublicKey, hlen, hw, hwLen]
  simp only [List.getD_cons_zero, ne_eq, not_true_eq_false, or_self, if_false, htake,
    Option.bind_eq_bind, Option.bind_some]
  refine ⟨_, rfl, ?_⟩
  simp only [overwrite_zero, List.cons_append, List.getElem?_cons_succ]
  rw [List.getElem?_append_left (by rw [List.length_replicate]; omega),
    List.getElem?_replicate_of_lt (by omega)]

theorem setsAll_of_inheritsNothing {nameSet : Found → Bool} (hname : ComparesUnset name nameSet)
    (hsigner : signerId ∈ (found (fields certificate certificateLen 0).1).signerId)
    (halgo : algo ∈ (found (fields certificate certificateLen 0).1).signerSignAlgo)
    (hnever : ¬ NeverVerified signerId algo (certificate (offset + 1)).toNat) :
    ∃ curve ∈ (found (fields certificate certificateLen 0).1).curve,
      cxEcdomainLength curve = none ∨
        nameSet (found (fields certificate certificateLen 0).1) = true ∧
          (found (fields certificate certificateLen 0).1).pkSignAlgo ≠ none ∧
          (found (fields certificate certificateLen 0).1).publicKey = true := by
  have hstored := sameLoad_stored h hdomain hcaller hend husage hsigner halgo hnever
  cases hcurve : (found (fields certificate certificateLen 0).1).curve with
  | none =>
    -- The curve of the caller has a domain or not.
    exfalso
    obtain ⟨s, s', t, t', hs, hs', -, -, -, -, -, hsame, -, -, hleaves, hleaves'⟩ :=
      hstored 0 0 ⟨0x21, 0, []⟩ ⟨0, 0, []⟩
    have ht : cxEcdomainLength t.publicKey.curve = some 32 := by
      rw [hleaves.curve hcurve, hs]
      rfl
    have ht' : cxEcdomainLength t'.publicKey.curve = none := by
      rw [hleaves'.curve hcurve, hs']
      rfl
    obtain ⟨r, hr⟩ := initPublicKey_eq_some ht
    rw [hr, initPublicKey_eq_none ht'] at hsame
    exact hsame
  | some curve =>
    refine ⟨curve, rfl, ?_⟩
    cases hlen : cxEcdomainLength curve with
    | none => exact .inl rfl
    | some n =>
      right
      have hdomain' {t : Loading} (hholds : (found (fields certificate certificateLen 0).1).Holds t) :
          cxEcdomainLength t.publicKey.curve = some n := by
        rw [hholds.curve _ hcurve, hlen]
      refine ⟨?_, ?_, ?_⟩
      · by_contra hnameSet
        obtain ⟨s, s', t, t', -, -, hn, hnl, hn', hnl', -, hsame, hholds, hholds', hleaves,
          hleaves'⟩ := hstored 0 1 .zero .zero
        obtain ⟨r, hr⟩ := initPublicKey_eq_some (hdomain' hholds)
        obtain ⟨r', hr'⟩ := initPublicKey_eq_some (hdomain' hholds')
        rw [hr, hr'] at hsame
        have hletter := hname ((Bool.not_eq_true _).mp hnameSet) hleaves hleaves' hn hnl hn' hnl'
          (hsame.2 rfl).2.1
        exact absurd hletter (by decide)
      · intro hnone
        obtain ⟨s, s', t, t', -, -, -, -, -, -, hne, hsame, hholds, hholds', hleaves, hleaves'⟩ :=
          hstored 0 0 .zero .zero
        obtain ⟨r, hr⟩ := initPublicKey_eq_some (hdomain' hholds)
        obtain ⟨r', hr'⟩ := initPublicKey_eq_some (hdomain' hholds')
        rw [hr, hr'] at hsame
        have hpk : t.pki.pkSignAlgo = t'.pki.pkSignAlgo := (hsame.2 rfl).2.2.1
        rw [hleaves.pkSignAlgo hnone, hleaves'.pkSignAlgo hnone] at hpk
        exact hne hpk
      · by_contra hkey
        have hkey := (Bool.not_eq_true _).mp hkey
        obtain ⟨s, s', t, t', hs, hs', -, -, -, -, -, hsame, hholds, hholds', hleaves, hleaves'⟩ :=
          hstored 0 0 ⟨curve, 1 + n * 2, 0x04 :: List.replicate (n * 2) 0⟩
            ⟨curve, 1 + n * 2, 0x04 :: List.replicate (n * 2) 1⟩
        obtain ⟨hw, hwLen⟩ := hleaves.publicKey hkey
        obtain ⟨hw', hwLen'⟩ := hleaves'.publicKey hkey
        rw [hs] at hw hwLen
        rw [hs'] at hw' hwLen'
        obtain ⟨r, hr, hb⟩ := initPublicKey_wellFormed (hdomain' hholds) hw hwLen
        obtain ⟨r', hr', hb'⟩ := initPublicKey_wellFormed (hdomain' hholds') hw' hwLen'
        rw [hr, hr'] at hsame
        have hstore : r.2 = r'.2 := (hsame.2 rfl).2.2.2
        rw [hstore, hb'] at hb
        exact absurd hb (by decide)

end

theorem independent_of_inheritsNothing {name : Bytes → Nat → Bytes} {nameSet : Found → Bool}
    (hname : ComparesUnset name nameSet)
    (h : InheritsNothing name certificate certificateLen expectedKeyUsage) :
    Independent nameSet certificate certificateLen expectedKeyUsage := by
  cases hdomain : (found (fields certificate certificateLen 0).1).noDomain with
  | true => exact .inl hdomain
  | false =>
    have hcaller := callerCurve_of_inheritsNothing h hdomain
    refine .inr ⟨hcaller, fun offset hend => ?_⟩
    obtain ⟨usage, husage⟩ :=
      Option.ne_none_iff_exists'.mp (keyUsage_of_inheritsNothing h hdomain hcaller hend)
    refine ⟨usage, husage, ?_⟩
    rintro rfl
    obtain ⟨signerId, hsigner⟩ :=
      Option.ne_none_iff_exists'.mp (signerId_of_inheritsNothing h hdomain hcaller hend husage)
    obtain ⟨algo, halgo⟩ :=
      Option.ne_none_iff_exists'.mp (signerSignAlgo_of_inheritsNothing h hdomain hcaller hend husage)
    refine ⟨signerId, hsigner, algo, halgo, ?_⟩
    by_cases hnever : NeverVerified signerId algo (certificate (offset + 1)).toNat
    · exact .inl hnever
    · exact .inr (setsAll_of_inheritsNothing h hdomain hcaller hend husage hname hsigner halgo hnever)

-- ---------------------------------------------------------------------------
-- Inheritance
-- ---------------------------------------------------------------------------

def copiedName (trustedName : Bytes) (trustedNameLen : Nat) : Bytes :=
  trustedName.take trustedNameLen

def wholeName (trustedName : Bytes) (_ : Nat) : Bytes := trustedName

theorem comparesSet_copiedName : ComparesSet copiedName Found.trustedName :=
  fun hagree hset => hagree.trustedName hset

theorem comparesSet_wholeName : ComparesSet wholeName Found.longestName :=
  fun hagree hset => hagree.longestName hset

theorem replicate_inj {a b : UInt8}
    (h : (List.replicate 32 a).getLast? = (List.replicate 32 b).getLast?) :
    a = b := by
  rw [List.getLast?_replicate, List.getLast?_replicate] at h
  simpa using h

theorem comparesUnset_copiedName : ComparesUnset copiedName Found.trustedName := by
  intro found a b s t s' t' hset hs ht hname hlen hname' hlen' heq
  obtain ⟨hkept, hkeptLen⟩ := hs.trustedName hset
  obtain ⟨hkept', hkeptLen'⟩ := ht.trustedName hset
  rw [copiedName, copiedName, hkept, hkeptLen, hkept', hkeptLen', hname, hlen, hname', hlen',
    List.take_of_length_le (by rw [List.length_replicate]),
    List.take_of_length_le (by rw [List.length_replicate])] at heq
  exact replicate_inj (congrArg List.getLast? heq)

theorem comparesUnset_wholeName : ComparesUnset wholeName Found.longestName := by
  intro found a b s t s' t' hset hs ht hname _ hname' _ heq
  have hlast := congrArg List.getLast? heq
  rw [wholeName, wholeName, hs.longestName hset, ht.longestName hset, hname, hname'] at hlast
  exact replicate_inj hlast

/-- A load depends on nothing but the certificate and the stored key exactly where the
certificate sets all that counts; a name sets the whole array only if it is as long. -/
theorem inheritsNothing_iff (certificate : Certificate) (certificateLen : Nat)
    (expectedKeyUsage : UInt8) :
    (InheritsNothing copiedName certificate certificateLen expectedKeyUsage ↔
      Independent Found.trustedName certificate certificateLen expectedKeyUsage) ∧
    (InheritsNothing wholeName certificate certificateLen expectedKeyUsage ↔
      Independent Found.longestName certificate certificateLen expectedKeyUsage) :=
  ⟨⟨independent_of_inheritsNothing comparesUnset_copiedName,
      inheritsNothing_of_independent comparesSet_copiedName⟩,
    ⟨independent_of_inheritsNothing comparesUnset_wholeName,
      inheritsNothing_of_independent comparesSet_wholeName⟩⟩

/-- A certificate with all fields but a name: usage, signer, algorithms, curve and key. -/
def noName : Certificate := fun i =>
  [0x31, 1, 8, 0x13, 2, 0, 2, 0x14, 1, 1, 0x34, 1, 1, 0x32, 1, 0x21, 0x33, 33, 0x02, 0x79, 0xbe,
    0x66, 0x7e, 0xf9, 0xdc, 0xbb, 0xac, 0x55, 0xa0, 0x62, 0x95, 0xce, 0x87, 0x0b, 0x07, 0x02, 0x9b,
    0xfc, 0xdb, 0x2d, 0xce, 0x28, 0xd9, 0x59, 0xf2, 0x81, 0x5b, 0x16, 0xf8, 0x17, 0x98, 0x15,
    0x00].getD i 0

theorem fields_noName :
    fields noName 53 0 =
      ([.keyUsage 8, .signerId 2, .signerSignAlgo 1, .pkSignAlgo 1, .curve 0x21,
        .publicKey fun i => noName (16 + i)], .ok 51) := by
  have husage : fields noName 53 0 =
      (.keyUsage 8 :: (fields noName 53 3).1, (fields noName 53 3).2) :=
    fields_cons (by decide) (by decide) rfl rfl
  have hsigner : fields noName 53 3 =
      (.signerId 2 :: (fields noName 53 7).1, (fields noName 53 7).2) :=
    fields_cons (by decide) (by decide) rfl rfl
  have halgo : fields noName 53 7 =
      (.signerSignAlgo 1 :: (fields noName 53 10).1, (fields noName 53 10).2) :=
    fields_cons (by decide) (by decide) rfl rfl
  have hpk : fields noName 53 10 =
      (.pkSignAlgo 1 :: (fields noName 53 13).1, (fields noName 53 13).2) :=
    fields_cons (by decide) (by decide) rfl rfl
  have hcurve : fields noName 53 13 =
      (.curve 0x21 :: (fields noName 53 16).1, (fields noName 53 16).2) :=
    fields_cons (by decide) (by decide) rfl rfl
  have hkey : fields noName 53 16 =
      ((.publicKey fun i => noName (16 + i)) :: (fields noName 53 51).1, (fields noName 53 51).2) :=
    fields_cons (by decide) (by decide) rfl rfl
  have hend : fields noName 53 51 = ([], .ok 51) := fields_signature (by decide) rfl
  rw [husage, hsigner, halgo, hpk, hcurve, hkey, hend]

theorem noName_inherits : ¬ InheritsNothing copiedName noName 53 8 := by
  intro h
  have hindependent := independent_of_inheritsNothing comparesUnset_copiedName h
  rw [Independent, fields_noName] at hindependent
  rcases hindependent with hdomain | ⟨-, hset⟩
  · exact absurd hdomain (by decide)
  · obtain ⟨usage, husage, hset⟩ := hset 51 rfl
    cases husage
    obtain ⟨signerId, hsigner, algo, halgo, hset⟩ := hset rfl
    cases hsigner
    cases halgo
    rcases hset with ⟨hroot, -⟩ | ⟨curve, hcurve, hdomain | ⟨hname, -⟩⟩
    · exact hroot rfl
    · cases hcurve
      exact absurd hdomain (by decide)
    · exact absurd hname (by decide)

end Speculos.Pki
