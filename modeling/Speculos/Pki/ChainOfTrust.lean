import Speculos.Ec.Ed25519Compression
import Speculos.Pki.Probes

/-!
# The chain of trust

In every sequence of calls the state is the one that the last load has left. A load that
returns an error leaves nothing, and a stored key that is zero verifies no signature, so
that a certificate is only accepted from the root CA or from the key of the certificate
before it. A load that ends with an exception leaves the key before it: a key of Ed25519
is to be compressed, and `cx_ed25519.c` does not know the number of its curve.
-/

namespace Speculos.Pki

open Lib

-- ---------------------------------------------------------------------------
-- Calls
-- ---------------------------------------------------------------------------

inductive Call
  | load (l : Load)
  | verify (descriptorHash signature : Bytes)
  | getInfo (publicKey : PublicKey)

/-- The state after a call. An exception ends the call, and the emulator goes on. -/
def callStep (crypto : Crypto) (s : State) : Call → Option State
  | .load l => loadStep crypto s l
  | .verify descriptorHash signature =>
    match sysOsPkiVerify crypto descriptorHash signature s with
    | .error .ends => none
    | .error .thrown | .ok _ => some s
  | .getInfo publicKey => (sysOsPkiGetInfo publicKey s).map fun _ => s

def Call.isLoad : Call → Bool
  | .load _ => true
  | _ => false

/-- The last load of the calls is `l`, made after the calls `before`, with the result `r`. -/
def LastLoad (crypto : Crypto) (calls before : List Call) (l : Load) (r : Loaded) : Prop :=
  ∃ after s, calls = before ++ .load l :: after ∧ (∀ c ∈ after, c.isLoad = false) ∧
    exec (callStep crypto) .initial before = some s ∧ l.run crypto s = some r

/-- The signature of a certificate passes with a key, over all that stands before it. -/
def VerifiedWith (verify : Bytes → Bytes → Except Ec.CxEc.Stop Bool) (crypto : Crypto) (l : Load)
    (algo : UInt8) : Prop :=
  ∃ offset, (fields l.certificate l.certificateLen 0).2 = .ok offset ∧
    verify (crypto.hash algo (l.certificate.slice 0 offset)) (l.certificate.signature offset) =
      .ok true

/-- A load is verified with the key that the load right before it has stored. -/
def VerifiedByPrevious (crypto : Crypto) (before : List Call) (l : Load) (algo : UInt8) : Prop :=
  ∃ before' l' r', LastLoad crypto before before' l' r' ∧ r'.swo = swoOk ∧
    VerifiedWith (cxVerify crypto (osPkiGetSignatureAlgorithm algo) r'.state.pki.publicKey) crypto l
      algo

/-- A key of Ed25519 that is not compressed. -/
structure PublicKey.IsEd25519 (key : PublicKey) : Prop where
  curve : key.curve = cxCurveEd25519
  wLen : key.wLen = 1 + 2 * 32
  head : key.w.getD 0 0 = 0x04

/-- Every key of the fields can be decompressed on the curve that is named before it. -/
def KeysDecompress (crypto : Crypto) : UInt32 → List Field → Prop
  | _, [] => True
  | _, .curve id :: fs => KeysDecompress crypto id fs
  | curve, .publicKey value :: fs =>
    cxEcdomainLength curve ≠ none ∧
      crypto.decompress curve (value.slice 3 ((value 1).toNat - 1)) (value 2 &&& 0x1 = 1) ≠ none ∧
        KeysDecompress crypto curve fs
  | curve, _ :: fs => KeysDecompress crypto curve fs

/-- A load whose fields are stored, with a signature for EdDSA that is to be verified by a
stored key of Ed25519. A field that the certificate does not hold is the one of the state. -/
def MeetsEd25519 (crypto : Crypto) (l : Load) (s : State) : Prop :=
  let r := fields l.certificate l.certificateLen 0
  ∃ offset, r.2 = .ok offset ∧ KeysDecompress crypto l.publicKey.curve r.1 ∧
    (found r.1).keyUsage.getD s.pki.keyUsage = l.expectedKeyUsage ∧
    (found r.1).signerId.getD s.pki.signerId ≠ certificateKeyIdLedgerRootV3 ∧
    osPkiGetSignatureAlgorithm ((found r.1).signerSignAlgo.getD s.pki.signerSignAlgo) =
      .eddsaSha512 ∧
    (l.certificate (offset + 1)).toNat = 64 ∧ s.pki.publicKey.IsEd25519

def Call.Avoids (crypto : Crypto) (s : State) : Call → Prop
  | .load l => ¬ MeetsEd25519 crypto l s
  | _ => True

-- ---------------------------------------------------------------------------
-- One load
-- ---------------------------------------------------------------------------

/-- The only field that cannot be stored is a key that cannot be decompressed. -/
theorem storeAll_ok_iff (crypto : Crypto) (s : Loading) (fs : List Field) :
    (∃ t, storeAll crypto s fs = .ok t) ↔ KeysDecompress crypto s.publicKey.curve fs := by
  induction fs generalizing s with
  | nil => exact iff_of_true ⟨s, rfl⟩ trivial
  | cons f fs ih =>
    cases f with
    | publicKey value =>
      rw [storeAll, Field.store, decompressPublicKey, KeysDecompress]
      cases cxEcdomainLength s.publicKey.curve with
      | none => simp [swoOk]
      | some n =>
        cases crypto.decompress s.publicKey.curve (value.slice 3 ((value 1).toNat - 1))
          (value 2 &&& 0x1 = 1) with
        | none => simp [swoOk]
        | some point =>
          simp only [ne_eq, not_true_eq_false, if_false, reduceCtorEq, not_false_eq_true, true_and]
          exact ih _
    | _ => exact ih _

theorem storeAll_found {found : Found} {s₀ s t : Loading} (hs : found.Holds s)
    (hleaves : found.Leaves s₀ s) (hsize : s.pki.Sized) {fs : List Field}
    (h : storeAll crypto s fs = .ok t) :
    (fs.foldl Found.store found).Holds t ∧ (fs.foldl Found.store found).Leaves s₀ t := by
  induction fs generalizing found s with
  | nil =>
    cases h
    exact ⟨hs, hleaves⟩
  | cons f fs ih =>
    rw [storeAll] at h
    by_cases hf : (f.store crypto s).1 = swoOk
    · simp only [hf, ne_eq, not_true_eq_false, if_false] at h
      exact ih (hs.store crypto f) (hleaves.store hsize crypto f)
        (Field.store_sized hsize crypto f) h
    · simp only [hf, ne_eq, not_false_eq_true, if_true] at h
      cases h

theorem storeAll_signer {s t : Loading} (hsize : s.pki.Sized)
    (h : storeAll crypto s fs = .ok t) :
    t.pki.keyUsage = (found fs).keyUsage.getD s.pki.keyUsage ∧
      t.pki.signerId = (found fs).signerId.getD s.pki.signerId ∧
      t.pki.signerSignAlgo = (found fs).signerSignAlgo.getD s.pki.signerSignAlgo ∧
      t.pki.publicKey = s.pki.publicKey := by
  obtain ⟨hholds, hleaves⟩ :=
    storeAll_found (Found.holds_nothing s) (Found.leaves_nothing s) hsize h
  have hgetD {α : Type} {field : Option α} {a b : α} (hsome : ∀ c ∈ field, a = c)
      (hnone : field = none → a = b) : a = field.getD b := by
    cases field with
    | none => exact hnone rfl
    | some c => exact hsome c rfl
  exact ⟨hgetD hholds.keyUsage hleaves.keyUsage, hgetD hholds.signerId hleaves.signerId,
    hgetD hholds.signerSignAlgo hleaves.signerSignAlgo, hleaves.storedKey⟩

theorem cxEcdsaInternalVerify_not_thrown (crypto : Crypto) (key : PublicKey) (hash sig : Bytes) :
    cxEcdsaInternalVerify crypto key hash sig ≠ .error .thrown := by
  rw [cxEcdsaInternalVerify]
  cases cxEcdomainLength key.curve <;> simp

section

variable {crypto : Crypto} (hcompress : crypto.compressPoint = Ec.Ed25519.sysCxEdwardCompressPoint)
include hcompress

/-- A key of Ed25519 is the one whose compression THROWs. -/
theorem cxEddsaInternalVerify_thrown_iff (key : PublicKey) (hash sig : Bytes) :
    cxEddsaInternalVerify crypto key hash sig = .error .thrown ↔
      sig.length = 64 ∧ key.IsEd25519 := by
  rw [cxEddsaInternalVerify]
  by_cases hlen : sig.length = 64
  · rw [if_neg (not_not.mpr hlen), and_iff_right hlen]
    by_cases hkey : key.curve ≠ cxCurveEd25519 ∨ key.wLen ≠ 1 + 2 * 32
    · rw [if_pos hkey]
      exact iff_of_false (fun h => by cases h) fun h => hkey.elim (absurd h.curve) (absurd h.wLen)
    · rw [if_neg hkey]
      obtain ⟨hcurve, hwLen⟩ := not_or.mp hkey
      rw [not_not] at hcurve hwLen
      rw [compressedKey, hcompress]
      by_cases hhead : key.w.getD 0 0 = 0x04
      · rw [if_pos hhead, hcurve]
        exact iff_of_true rfl ⟨hcurve, hwLen, hhead⟩
      · rw [if_neg hhead]
        exact iff_of_false (fun h => by cases h) fun h => hhead h.head
  · rw [if_pos hlen]
    exact iff_of_false (fun h => by cases h) fun h => hlen h.1

theorem isVerified_thrown_iff (pki : OsPki) (certificate : Certificate) (offset : Nat) :
    isVerified crypto pki certificate offset = .error .thrown ↔
      pki.signerId ≠ certificateKeyIdLedgerRootV3 ∧
        osPkiGetSignatureAlgorithm pki.signerSignAlgo = .eddsaSha512 ∧
        (certificate (offset + 1)).toNat = 64 ∧ pki.publicKey.IsEd25519 := by
  rw [isVerified]
  by_cases hroot : pki.signerId = certificateKeyIdLedgerRootV3
  · rw [if_pos hroot]
    exact iff_of_false (fun h => cxEcdsaInternalVerify_not_thrown _ _ _ _ h) fun h => h.1 hroot
  · rw [if_neg hroot, and_iff_right hroot]
    cases osPkiGetSignatureAlgorithm pki.signerSignAlgo with
    | unknown => exact iff_of_false (fun h => by cases h) fun h => absurd h.1 (by decide)
    | ecdsaRnd =>
      exact iff_of_false (fun h => cxEcdsaInternalVerify_not_thrown _ _ _ _ h) fun h =>
        absurd h.1 (by decide)
    | eddsaSha512 =>
      rw [cxVerify, cxEddsaInternalVerify_thrown_iff hcompress, Certificate.signature,
        Certificate.length_slice, and_iff_right rfl]

/-- A load that meets a key of Ed25519 fails, and the key stays. -/
theorem MeetsEd25519.run {l : Load} {s : State} (hs : s.pki.Sized) (h : MeetsEd25519 crypto l s) :
    ∃ r, l.run crypto s = some r ∧ r.swo ≠ swoOk ∧ r.state.pki.publicKey = s.pki.publicKey := by
  obtain ⟨offset, hend, hkeys, husage, hsigner, halgo, hlen, hkey⟩ := h
  obtain ⟨loading, hstore⟩ := (storeAll_ok_iff crypto ⟨s.pki, l.publicKey⟩ _).mpr hkeys
  obtain ⟨husage', hsigner', halgo', hkey'⟩ := storeAll_signer hs hstore
  rw [← husage'] at husage
  rw [← hsigner'] at hsigner
  rw [← halgo'] at halgo
  rw [← hkey'] at hkey
  have hthrown : isVerified crypto loading.pki l.certificate offset = .error .thrown :=
    (isVerified_thrown_iff hcompress _ _ _).mpr ⟨hsigner, halgo, hlen, hkey⟩
  refine ⟨loading.thrown, ?_, loading.thrown_swo, hkey'⟩
  rw [Load.run, sysOsPkiLoadCertificate_eq, hstore]
  simp only [hend]
  exact verifyAndStore_thrown husage.symm hthrown

/-- A load fails and leaves nothing, or meets a key of Ed25519, or its certificate is
verified by the root CA or by the key that was stored. -/
theorem Load.run_verified {l : Load} {s : State} (hs : s.pki.Sized)
    (h : Load.run crypto l s = some r) :
    r.swo ≠ swoOk ∧ r.state = .initial ∨ MeetsEd25519 crypto l s ∨
      r.swo = swoOk ∧
        (VerifiedWith (osEcdsaVerifyWithRootCa crypto) crypto l r.state.pki.signerSignAlgo ∨
          VerifiedWith (cxVerify crypto (osPkiGetSignatureAlgorithm r.state.pki.signerSignAlgo)
            s.pki.publicKey) crypto l r.state.pki.signerSignAlgo) := by
  rcases Load.run_cases h with ⟨swo, publicKey, hswo, rfl⟩ |
    ⟨loading, offset, hstore, hend, ⟨husage, hthrown, rfl⟩ | ⟨key, hverified, -, rfl⟩⟩
  · exact .inl ⟨hswo, rfl⟩
  · refine .inr (.inl ?_)
    obtain ⟨husage', hsigner', halgo', hkey'⟩ := storeAll_signer hs hstore
    obtain ⟨hsigner, halgo, hlen, hkey⟩ := (isVerified_thrown_iff hcompress _ _ _).mp hthrown
    exact ⟨offset, hend, (storeAll_ok_iff crypto ⟨s.pki, l.publicKey⟩ _).mp ⟨loading, hstore⟩,
      (husage.trans husage').symm, hsigner' ▸ hsigner, halgo' ▸ halgo, hlen, hkey' ▸ hkey⟩
  · refine .inr (.inr ⟨rfl, ?_⟩)
    rw [isVerified] at hverified
    split at hverified
    · exact .inl ⟨offset, hend, hverified⟩
    · rw [(storeAll_signer hs hstore).2.2.2] at hverified
      exact .inr ⟨offset, hend, hverified⟩

end

theorem cxVerify_zero (crypto : Crypto) (signAlgo : CxSignAlgo) (hash sig : Bytes) :
    cxVerify crypto signAlgo .zero hash sig ≠ .ok true := by
  cases signAlgo with
  | unknown => exact fun h => by cases h
  | ecdsaRnd => exact fun h => by cases h
  | eddsaSha512 =>
    have hcurve : PublicKey.zero.curve ≠ cxCurveEd25519 := by decide
    simp [cxVerify, cxEddsaInternalVerify, hcurve]

-- ---------------------------------------------------------------------------
-- Every sequence of calls
-- ---------------------------------------------------------------------------

theorem callStep_eq_self (hc : c.isLoad = false) (h : callStep crypto s c = some s') : s' = s := by
  cases c with
  | load l => cases hc
  | verify descriptorHash signature =>
    rw [callStep] at h
    split at h <;> cases h <;> rfl
  | getInfo publicKey =>
    obtain ⟨-, -, hsame⟩ := Option.map_eq_some_iff.mp h
    exact hsame.symm

theorem exec_eq_self (hcalls : ∀ c ∈ calls, c.isLoad = false)
    (h : exec (callStep crypto) s calls = some s') : s' = s := by
  induction calls generalizing s with
  | nil => exact exec_nil h
  | cons c calls ih =>
    obtain ⟨t, ht, h⟩ := exec_cons h
    rw [ih (fun c' hc' => hcalls c' (List.mem_cons_of_mem c hc')) h]
    exact callStep_eq_self (hcalls c List.mem_cons_self) ht

theorem exec_callStep_sized (h : exec (callStep crypto) .initial calls = some s) : s.pki.Sized := by
  refine exec_invariant (I := fun s => s.pki.Sized) (fun s c s' hs h => ?_) rfl h
  cases hc : c.isLoad with
  | false =>
    rw [callStep_eq_self hc h]
    exact hs
  | true =>
    cases c with
    | load l => exact loadStep_sized hs h
    | _ => cases hc

theorem LastLoad.state_eq (hlast : LastLoad crypto calls before l r)
    (h : exec (callStep crypto) .initial calls = some s) : s = r.state := by
  obtain ⟨after, s₀, rfl, hafter, hbefore, hr⟩ := hlast
  rw [exec_append, hbefore] at h
  obtain ⟨s₁, hs₁, h⟩ := exec_cons h
  rw [callStep, loadStep, hr] at hs₁
  cases hs₁
  exact exec_eq_self hafter h

theorem exists_lastLoad (h : exec (callStep crypto) .initial calls = some s) :
    s = .initial ∨ ∃ before l r, LastLoad crypto calls before l r := by
  induction calls using List.reverseRecOn generalizing s with
  | nil => exact .inl (exec_nil h)
  | append_singleton calls c ih =>
    rw [exec_append] at h
    obtain ⟨s₁, hs₁, h⟩ := Option.bind_eq_some_iff.mp h
    cases hload : c.isLoad with
    | true =>
      cases c with
      | load l =>
        obtain ⟨s', hs', -⟩ := exec_cons h
        obtain ⟨r, hr, -⟩ := Option.map_eq_some_iff.mp hs'
        exact .inr ⟨calls, l, r, [], s₁, rfl, by simp, hs₁, hr⟩
      | _ => cases hload
    | false =>
      rcases ih hs₁ with rfl | ⟨before, l, r, after, s₀, rfl, hafter, hrun⟩
      · exact .inl (exec_eq_self (by simpa using hload) h)
      · refine .inr ⟨before, l, r, after ++ [c], s₀, by simp, fun c' hc' => ?_, hrun⟩
        rcases List.mem_append.mp hc' with hc' | hc'
        · exact hafter c' hc'
        · rwa [List.mem_singleton.mp hc']

section

variable {crypto : Crypto} (hcompress : crypto.compressPoint = Ec.Ed25519.sysCxEdwardCompressPoint)
include hcompress

theorem LastLoad.run_cases
    (hg : ∀ before c after s, calls = before ++ c :: after →
      exec (callStep crypto) .initial before = some s → c.Avoids crypto s)
    (hlast : LastLoad crypto calls before l r) :
    r.swo ≠ swoOk ∧ r.state = .initial ∨
      r.swo = swoOk ∧
        (VerifiedWith (osEcdsaVerifyWithRootCa crypto) crypto l r.state.pki.signerSignAlgo ∨
          VerifiedByPrevious crypto before l r.state.pki.signerSignAlgo) := by
  obtain ⟨after, s₀, rfl, -, hbefore, hr⟩ := hlast
  rcases Load.run_verified hcompress (exec_callStep_sized hbefore) hr with
    hfailed | hmeets | ⟨hok, hroot | hkey⟩
  · exact .inl hfailed
  · exact absurd hmeets (hg before (.load l) after s₀ rfl hbefore)
  · exact .inr ⟨hok, .inl hroot⟩
  · refine .inr ⟨hok, .inr ?_⟩
    -- a key that no load has stored is zero, and verifies nothing
    have hzero : s₀ ≠ .initial := by
      rintro rfl
      obtain ⟨offset, -, hverified⟩ := hkey
      exact cxVerify_zero crypto _ _ _ hverified
    obtain hinitial | ⟨before', l', r', hlast'⟩ := exists_lastLoad hbefore
    · exact absurd hinitial hzero
    · obtain rfl := hlast'.state_eq hbefore
      have ⟨after', s', hsplit, _, hbefore', hr'⟩ := hlast'
      rcases Load.run_verified hcompress (exec_callStep_sized hbefore') hr' with
        ⟨-, hfailed⟩ | hmeets | ⟨hok', -⟩
      · exact absurd hfailed hzero
      · exact absurd hmeets
          (hg before' (.load l') (after' ++ .load l :: after) s' (by simp [hsplit]) hbefore')
      · exact ⟨before', l', r', hlast', hok', hkey⟩

end

end Speculos.Pki
