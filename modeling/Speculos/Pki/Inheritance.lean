import Speculos.Lib.Lts
import Speculos.Pki.Found

/-!
# What a certificate inherits

The outcome of a load depends on the loads before it, or on what the buffer of the
caller holds, unless the certificate sets every field that the outcome depends on.
-/

namespace Speculos.Pki

open Lib

-- ---------------------------------------------------------------------------
-- Loads
-- ---------------------------------------------------------------------------

/-- The arguments of a load. -/
structure Load where
  expectedKeyUsage : UInt8
  certificate : Certificate
  certificateLen : Nat
  publicKey : PublicKey

def Load.run (crypto : Crypto) (l : Load) (s : State) : Option Loaded :=
  sysOsPkiLoadCertificate crypto l.expectedKeyUsage l.certificate l.certificateLen l.publicKey s

def loadStep (crypto : Crypto) (s : State) (l : Load) : Option State :=
  (l.run crypto s).map (·.state)

/-- Two loads return the same and, on success, leave the same; `name` is what is
compared of the name, from its array and length. -/
def SameLoad (name : Bytes → Nat → Bytes) : Option Loaded → Option Loaded → Prop
  | none, none => True
  | some r, some r' => r.swo = r'.swo ∧ (r.swo = swoOk →
      r.state.pki.keyUsage = r'.state.pki.keyUsage ∧
        name r.state.pki.trustedName r.state.pki.trustedNameLen =
          name r'.state.pki.trustedName r'.state.pki.trustedNameLen ∧
        r.state.pki.pkSignAlgo = r'.state.pki.pkSignAlgo ∧
        r.state.pki.publicKey = r'.state.pki.publicKey)
  | _, _ => False

/-- The outcome of loading a certificate is the same after all loads that leave the
same key, whatever the buffer of the caller holds. -/
def InheritsNothing (name : Bytes → Nat → Bytes) (certificate : Certificate) (certificateLen : Nat)
    (expectedKeyUsage : UInt8) : Prop :=
  ∀ crypto before before' s s', exec (loadStep crypto) .initial before = some s →
    exec (loadStep crypto) .initial before' = some s' → s.pki.publicKey = s'.pki.publicKey →
    ∀ publicKey publicKey', SameLoad name
      (sysOsPkiLoadCertificate crypto expectedKeyUsage certificate certificateLen publicKey s)
      (sysOsPkiLoadCertificate crypto expectedKeyUsage certificate certificateLen publicKey' s')

-- ---------------------------------------------------------------------------
-- The condition
-- ---------------------------------------------------------------------------

/-- No signature passes: the algorithm is not known, or the signature has not the
length of its signatures. -/
def NeverVerified (signerId : UInt16) (algo : UInt8) (signatureLen : Nat) : Prop :=
  signerId ≠ certificateKeyIdLedgerRootV3 ∧
    match osPkiGetSignatureAlgorithm algo with
    | .unknown => True
    | .eddsaSha512 => signatureLen ≠ 64
    | .ecdsaRnd => False

/-- What is found sets all that the outcome of a successful load depends on; `nameSet`
tells whether the name is set. A key on a curve without a domain is never stored. -/
def SetsAll (nameSet : Found → Bool) (found : Found) (expectedKeyUsage : UInt8)
    (signatureLen : Nat) : Prop :=
  ∃ usage ∈ found.keyUsage, usage = expectedKeyUsage →
    ∃ signerId ∈ found.signerId, ∃ algo ∈ found.signerSignAlgo,
      NeverVerified signerId algo signatureLen ∨
        ∃ curve ∈ found.curve, cxEcdomainLength curve = none ∨
          nameSet found = true ∧ found.pkSignAlgo ≠ none ∧ found.publicKey = true

/-- A certificate is refused for a key on a curve without a domain, or names the curve
before every key and either holds a field that is refused or sets all. -/
def Independent (nameSet : Found → Bool) (certificate : Certificate) (certificateLen : Nat)
    (expectedKeyUsage : UInt8) : Prop :=
  let r := fields certificate certificateLen 0
  (found r.1).noDomain = true ∨
    (found r.1).callerCurve = false ∧ ∀ offset, r.2 = .ok offset →
      SetsAll nameSet (found r.1) expectedKeyUsage (certificate (offset + 1)).toNat

-- ---------------------------------------------------------------------------
-- Loads step by step
-- ---------------------------------------------------------------------------

theorem sysOsPkiLoadCertificate_eq (crypto : Crypto) (expectedKeyUsage : UInt8)
    (certificate : Certificate) (certificateLen : Nat) (publicKey : PublicKey) (s : State) :
    sysOsPkiLoadCertificate crypto expectedKeyUsage certificate certificateLen publicKey s =
      match storeAll crypto ⟨s.pki, publicKey⟩ (fields certificate certificateLen 0).1 with
      | .error loading => some (.failed 0x3302 loading.publicKey)
      | .ok loading =>
        match (fields certificate certificateLen 0).2 with
        | .error swo => some (.failed swo loading.publicKey)
        | .ok offset => verifyAndStore crypto expectedKeyUsage certificate offset loading := by
  rw [sysOsPkiLoadCertificate, readTags_eq]
  cases storeAll crypto ⟨s.pki, publicKey⟩ (fields certificate certificateLen 0).1 with
  | error loading => rfl
  | ok loading => cases (fields certificate certificateLen 0).2 <;> rfl

/-- The state that a verified certificate leaves, with the key that is stored. -/
def Loading.stored (loading : Loading) (publicKey : PublicKey) : Loaded where
  swo := swoOk
  state := ⟨{ loading.pki with publicKey }, true⟩
  publicKey := loading.publicKey
  trustedName := some (loading.pki.trustedName.take loading.pki.trustedNameLen)

/-- The key of a certificate is copied to the stored one. -/
def Loading.initPublicKey (loading : Loading) : Option (Nat × PublicKey) :=
  let key := loading.publicKey
  cxEcdsaInternalInitPublicKey key.curve key.w key.wLen loading.pki.publicKey

section

variable {crypto : Crypto} {expectedKeyUsage : UInt8} {certificate : Certificate} {offset : Nat}
  {loading : Loading}

theorem verifyAndStore_otherUsage (h : expectedKeyUsage ≠ loading.pki.keyUsage) :
    verifyAndStore crypto expectedKeyUsage certificate offset loading =
      some (.failed 0x422E loading.publicKey) := by
  rw [verifyAndStore, if_pos h]

theorem verifyAndStore_notVerified (h : expectedKeyUsage = loading.pki.keyUsage)
    (hverified : isVerified crypto loading.pki certificate offset = .ok false) :
    verifyAndStore crypto expectedKeyUsage certificate offset loading =
      some (.failed 0x5720 loading.publicKey) := by
  rw [verifyAndStore, if_neg (not_not.mpr h), hverified]

theorem verifyAndStore_verified (h : expectedKeyUsage = loading.pki.keyUsage)
    (hverified : isVerified crypto loading.pki certificate offset = .ok true) :
    verifyAndStore crypto expectedKeyUsage certificate offset loading =
      loading.initPublicKey.map fun r => loading.stored r.2 := by
  rw [verifyAndStore, if_neg (not_not.mpr h), hverified, Loading.initPublicKey]
  cases cxEcdsaInternalInitPublicKey loading.publicKey.curve loading.publicKey.w
    loading.publicKey.wLen loading.pki.publicKey <;> simp [Loading.stored]

theorem verifyAndStore_thrown (h : expectedKeyUsage = loading.pki.keyUsage)
    (hverified : isVerified crypto loading.pki certificate offset = .error .thrown) :
    verifyAndStore crypto expectedKeyUsage certificate offset loading = some loading.thrown := by
  rw [verifyAndStore, if_neg (not_not.mpr h), hverified]

theorem verifyAndStore_ends (h : expectedKeyUsage = loading.pki.keyUsage)
    (hverified : isVerified crypto loading.pki certificate offset = .error .ends) :
    verifyAndStore crypto expectedKeyUsage certificate offset loading = none := by
  rw [verifyAndStore, if_neg (not_not.mpr h), hverified]

theorem verifyAndStore_cases
    (hr : verifyAndStore crypto expectedKeyUsage certificate offset loading = some r) :
    expectedKeyUsage ≠ loading.pki.keyUsage ∧ r = .failed 0x422E loading.publicKey ∨
      expectedKeyUsage = loading.pki.keyUsage ∧ (r = .failed 0x5720 loading.publicKey ∨
        isVerified crypto loading.pki certificate offset = .error .thrown ∧ r = loading.thrown ∨
        ∃ key, isVerified crypto loading.pki certificate offset = .ok true ∧
          loading.initPublicKey = some key ∧ r = loading.stored key.2) := by
  by_cases h : expectedKeyUsage = loading.pki.keyUsage
  · refine .inr ⟨h, ?_⟩
    cases hverified : isVerified crypto loading.pki certificate offset with
    | error stop =>
      cases stop with
      | ends =>
        rw [verifyAndStore_ends h hverified] at hr
        cases hr
      | thrown =>
        rw [verifyAndStore_thrown h hverified] at hr
        cases hr
        exact .inr (.inl ⟨rfl, rfl⟩)
    | ok verified =>
      cases verified with
      | false =>
        rw [verifyAndStore_notVerified h hverified] at hr
        cases hr
        exact .inl rfl
      | true =>
        rw [verifyAndStore_verified h hverified] at hr
        obtain ⟨key, hkey, hstored⟩ := Option.map_eq_some_iff.mp hr
        exact .inr (.inr ⟨key, rfl, hkey, hstored.symm⟩)
  · rw [verifyAndStore_otherUsage h] at hr
    cases hr
    exact .inl ⟨h, rfl⟩

end

theorem sameLoad_failed (name : Bytes → Nat → Bytes) (swo : UInt32)
    (publicKey publicKey' : PublicKey) :
    SameLoad name (some (.failed swo publicKey)) (some (.failed swo publicKey')) :=
  ⟨rfl, fun _ => ⟨rfl, rfl, rfl, rfl⟩⟩

theorem sameLoad_thrown (name : Bytes → Nat → Bytes) (loading loading' : Loading) :
    SameLoad name (some loading.thrown) (some loading'.thrown) :=
  ⟨rfl, fun h => absurd h loading.thrown_swo⟩

/-- A load fails and leaves nothing, or all its fields are stored. Then its verification
THROWs, or its signature passes and its key is copied. -/
theorem Load.run_cases (h : Load.run crypto l s = some r) :
    (∃ swo publicKey, swo ≠ swoOk ∧ r = .failed swo publicKey) ∨
      ∃ loading offset,
        storeAll crypto ⟨s.pki, l.publicKey⟩ (fields l.certificate l.certificateLen 0).1 =
          .ok loading ∧
        (fields l.certificate l.certificateLen 0).2 = .ok offset ∧
        (l.expectedKeyUsage = loading.pki.keyUsage ∧
            isVerified crypto loading.pki l.certificate offset = .error .thrown ∧
            r = loading.thrown ∨
          ∃ key, isVerified crypto loading.pki l.certificate offset = .ok true ∧
            loading.initPublicKey = some key ∧ r = loading.stored key.2) := by
  rw [Load.run, sysOsPkiLoadCertificate_eq] at h
  cases hstore : storeAll crypto ⟨s.pki, l.publicKey⟩
      (fields l.certificate l.certificateLen 0).1 with
  | error loading =>
    rw [hstore] at h
    cases h
    exact .inl ⟨_, _, by decide, rfl⟩
  | ok loading =>
    simp only [hstore] at h
    cases hend : (fields l.certificate l.certificateLen 0).2 with
    | error swo =>
      rw [hend] at h
      cases h
      exact .inl ⟨swo, _, (fields_error hend).1, rfl⟩
    | ok offset =>
      simp only [hend] at h
      rcases verifyAndStore_cases h with ⟨-, rfl⟩ | ⟨husage, rfl | ⟨hverified, rfl⟩ | hstored⟩
      · exact .inl ⟨_, _, by decide, rfl⟩
      · exact .inl ⟨_, _, by decide, rfl⟩
      · exact .inr ⟨loading, offset, rfl, rfl, .inl ⟨husage, hverified, rfl⟩⟩
      · exact .inr ⟨loading, offset, rfl, rfl, .inr hstored⟩

theorem loadStep_sized (hs : s.pki.Sized) (h : loadStep crypto s l = some s') : s'.pki.Sized := by
  obtain ⟨r, hr, rfl⟩ := Option.map_eq_some_iff.mp h
  rcases Load.run_cases hr with ⟨swo, publicKey, -, rfl⟩ |
    ⟨loading, _, hstore, -, ⟨-, -, rfl⟩ | ⟨_, -, -, rfl⟩⟩
  · rfl
  · exact storeAll_sized hs hstore
  · exact storeAll_sized hs hstore

theorem exec_loadStep_sized (h : exec (loadStep crypto) .initial ls = some s) : s.pki.Sized :=
  exec_invariant (I := fun s => s.pki.Sized) (fun _ _ _ hs h => loadStep_sized hs h) rfl h

-- ---------------------------------------------------------------------------
-- The condition is enough
-- ---------------------------------------------------------------------------

theorem isVerified_of_neverVerified (crypto : Crypto)
    (h : NeverVerified pki.signerId pki.signerSignAlgo (certificate (offset + 1)).toNat) :
    isVerified crypto pki certificate offset = .ok false := by
  obtain ⟨hsigner, halgo⟩ := h
  rw [isVerified, if_neg hsigner]
  cases hkind : osPkiGetSignatureAlgorithm pki.signerSignAlgo with
  | unknown => rfl
  | eddsaSha512 =>
    simp only [hkind] at halgo
    simp only [cxVerify, cxEddsaInternalVerify, Certificate.signature, Certificate.length_slice,
      if_pos halgo]
  | ecdsaRnd => simp only [hkind] at halgo

theorem Found.Agree.initPublicKey {found : Found} (h : found.Agree s t)
    (hkey : found.publicKey = true) (hcurve : s.publicKey.curve = t.publicKey.curve) :
    s.initPublicKey = t.initPublicKey := by
  obtain ⟨hlen, hpos, htake⟩ := h.publicKey hkey
  have hhead : s.publicKey.w.getD 0 0 = t.publicKey.w.getD 0 0 := by
    have hget := congrArg (·[0]?) htake
    simp only [List.getElem?_take, hpos, hlen ▸ hpos, if_true] at hget
    rw [List.getD_eq_getElem?_getD, List.getD_eq_getElem?_getD, hget]
  simp only [Loading.initPublicKey, cxEcdsaInternalInitPublicKey, hcurve, hhead, htake, h.storedKey]
  rw [hlen]

theorem verifyAndStore_agree (name : Bytes → Nat → Bytes) {nameSet : Found → Bool} {found : Found}
    (hname : nameSet found = true → name s.pki.trustedName s.pki.trustedNameLen =
      name t.pki.trustedName t.pki.trustedNameLen)
    (h : found.Agree s t) (hs : found.Holds s) (ht : found.Holds t) (crypto : Crypto)
    (hset : SetsAll nameSet found expectedKeyUsage (certificate (offset + 1)).toNat) :
    SameLoad name (verifyAndStore crypto expectedKeyUsage certificate offset s)
      (verifyAndStore crypto expectedKeyUsage certificate offset t) := by
  obtain ⟨usage, husage, hset⟩ := hset
  by_cases heq : usage = expectedKeyUsage
  · subst heq
    obtain ⟨signerId, hsigner, algo, halgo, hset⟩ := hset rfl
    have hverified : isVerified crypto s.pki certificate offset =
        isVerified crypto t.pki certificate offset := by
      simp only [isVerified, hs.signerId _ hsigner, ht.signerId _ hsigner,
        hs.signerSignAlgo _ halgo, ht.signerSignAlgo _ halgo, h.storedKey]
    have hsUsage := (hs.keyUsage _ husage).symm
    have htUsage := (ht.keyUsage _ husage).symm
    cases hv : isVerified crypto t.pki certificate offset with
    | error stop =>
      cases stop with
      | ends =>
        rw [verifyAndStore_ends hsUsage (hverified.trans hv), verifyAndStore_ends htUsage hv]
        trivial
      | thrown =>
        rw [verifyAndStore_thrown hsUsage (hverified.trans hv), verifyAndStore_thrown htUsage hv]
        exact sameLoad_thrown ..
    | ok verified =>
      cases verified with
      | false =>
        rw [verifyAndStore_notVerified hsUsage (hverified.trans hv),
          verifyAndStore_notVerified htUsage hv]
        exact sameLoad_failed _ _ _ _
      | true =>
        rw [verifyAndStore_verified hsUsage (hverified.trans hv),
          verifyAndStore_verified htUsage hv]
        rcases hset with hnever | ⟨curve, hcurve, hset⟩
        · rw [← ht.signerId _ hsigner, ← ht.signerSignAlgo _ halgo] at hnever
          rw [isVerified_of_neverVerified crypto hnever] at hv
          cases hv
        · have hs' := hs.curve _ hcurve
          have ht' := ht.curve _ hcurve
          rcases hset with hdomain | ⟨hnameSet, hpk, hkey⟩
          · simp only [Loading.initPublicKey, cxEcdsaInternalInitPublicKey, hs', ht', hdomain]
            trivial
          · obtain ⟨pk, hpk⟩ := Option.ne_none_iff_exists'.mp hpk
            rw [h.initPublicKey hkey (hs'.trans ht'.symm)]
            cases t.initPublicKey with
            | none => trivial
            | some r =>
              refine ⟨rfl, fun _ => ⟨hsUsage.symm.trans htUsage, hname hnameSet, ?_, rfl⟩⟩
              exact (hs.pkSignAlgo _ hpk).trans (ht.pkSignAlgo _ hpk).symm
  · rw [verifyAndStore_otherUsage (hs.keyUsage _ husage ▸ Ne.symm heq),
      verifyAndStore_otherUsage (ht.keyUsage _ husage ▸ Ne.symm heq)]
    exact sameLoad_failed _ _ _ _

/-- What is compared of a name is the same where the name is set. -/
def ComparesSet (name : Bytes → Nat → Bytes) (nameSet : Found → Bool) : Prop :=
  ∀ {found : Found} {s t : Loading}, found.Agree s t → nameSet found = true →
    name s.pki.trustedName s.pki.trustedNameLen = name t.pki.trustedName t.pki.trustedNameLen

theorem inheritsNothing_of_independent {name : Bytes → Nat → Bytes} {nameSet : Found → Bool}
    (hname : ComparesSet name nameSet)
    (h : Independent nameSet certificate certificateLen expectedKeyUsage) :
    InheritsNothing name certificate certificateLen expectedKeyUsage := by
  intro crypto before before' s s' hs hs' hkey publicKey publicKey'
  rw [sysOsPkiLoadCertificate_eq, sysOsPkiLoadCertificate_eq]
  rcases h with hdomain | ⟨hcaller, hset⟩
  · obtain ⟨t, ht⟩ := storeAll_noDomain crypto
      (Found.holds_nothing ⟨s.pki, publicKey⟩) rfl _ hdomain
    obtain ⟨t', ht'⟩ :=
      storeAll_noDomain crypto (Found.holds_nothing ⟨s'.pki, publicKey'⟩) rfl _ hdomain
    rw [ht, ht']
    exact sameLoad_failed _ _ _ _
  · have hagree : Found.nothing.Agree ⟨s.pki, publicKey⟩ ⟨s'.pki, publicKey'⟩ :=
      Found.agree_nothing hkey
    rcases storeAll_agree crypto hagree (Found.holds_nothing _) (Found.holds_nothing _)
      (exec_loadStep_sized hs) (exec_loadStep_sized hs') _ hcaller with
      ⟨t, t', ht, ht'⟩ | ⟨t, t', ht, ht', hagree, hholds, hholds'⟩
    · rw [ht, ht']
      exact sameLoad_failed _ _ _ _
    · rw [ht, ht']
      cases hend : (fields certificate certificateLen 0).2 with
      | error swo => exact sameLoad_failed _ _ _ _
      | ok offset =>
        exact verifyAndStore_agree name (hname hagree) hagree hholds hholds' crypto
          (hset offset hend)

end Speculos.Pki
