import Speculos.Pki.Fields

/-!
# What a certificate sets

What a list of fields sets is collected in `Found`. Two states that store the same
fields agree on what is set, and a state keeps what is not.
-/

namespace Speculos.Pki

open Lib

/-- What is set by the fields, whatever was there before: the last value of each
kind. A key is decompressed on the curve of the caller if none was named before it,
and not at all on a curve without a domain. -/
structure Found where
  keyUsage : Option UInt8
  signerSignAlgo : Option UInt8
  pkSignAlgo : Option UInt8
  signerId : Option UInt16
  curve : Option UInt32
  trustedName : Bool
  longestName : Bool
  publicKey : Bool
  callerCurve : Bool
  noDomain : Bool
  deriving DecidableEq, Repr

def Found.nothing : Found :=
  ⟨none, none, none, none, none, false, false, false, false, false⟩

def Found.store (found : Found) : Field → Found
  | .unused => found
  | .signerId id => { found with signerId := some id }
  | .signerSignAlgo algo => { found with signerSignAlgo := some algo }
  | .trustedName name _ =>
    { found with
      trustedName := true
      longestName := found.longestName || name.length == certificateTrustedNameMaxlen }
  | .keyUsage usage => { found with keyUsage := some usage }
  | .curve id => { found with curve := some id }
  | .publicKey _ =>
    { found with
      publicKey := true
      callerCurve := found.callerCurve || found.curve.isNone
      noDomain := found.noDomain || found.curve.any (cxEcdomainLength · |>.isNone) }
  | .pkSignAlgo algo => { found with pkSignAlgo := some algo }

def found (fs : List Field) : Found := fs.foldl Found.store .nothing

-- ---------------------------------------------------------------------------
-- Values
-- ---------------------------------------------------------------------------

/-- The state holds the values that were found. -/
structure Found.Holds (found : Found) (s : Loading) : Prop where
  keyUsage : ∀ usage ∈ found.keyUsage, s.pki.keyUsage = usage
  signerSignAlgo : ∀ algo ∈ found.signerSignAlgo, s.pki.signerSignAlgo = algo
  pkSignAlgo : ∀ algo ∈ found.pkSignAlgo, s.pki.pkSignAlgo = algo
  signerId : ∀ id ∈ found.signerId, s.pki.signerId = id
  curve : ∀ id ∈ found.curve, s.publicKey.curve = id

theorem Found.holds_nothing (s : Loading) : Found.nothing.Holds s := by
  constructor <;> intro _ h <;> cases h

theorem Field.store_publicKey (crypto : Crypto) (s : Loading) (value : Certificate) :
    ∃ w wLen, ((Field.publicKey value).store crypto s).2 =
      { s with publicKey := { s.publicKey with w, wLen } } := by
  rw [Field.store, decompressPublicKey]
  split
  · exact ⟨_, _, rfl⟩
  · split <;> exact ⟨_, _, rfl⟩

theorem Found.Holds.store {found : Found} {s : Loading} (h : found.Holds s) (crypto : Crypto)
    (f : Field) : (found.store f).Holds (f.store crypto s).2 := by
  cases f with
  | publicKey value =>
    obtain ⟨w, wLen, hstore⟩ := Field.store_publicKey crypto s value
    rw [hstore]
    exact { h with }
  | unused => exact h
  | trustedName name hlen => exact { h with }
  | signerId id => exact { h with signerId := fun _ hid => Option.some.inj hid }
  | signerSignAlgo algo => exact { h with signerSignAlgo := fun _ ha => Option.some.inj ha }
  | keyUsage usage => exact { h with keyUsage := fun _ hu => Option.some.inj hu }
  | curve id => exact { h with curve := fun _ hid => Option.some.inj hid }
  | pkSignAlgo algo => exact { h with pkSignAlgo := fun _ ha => Option.some.inj ha }

-- ---------------------------------------------------------------------------
-- Keys that cannot be decompressed
-- ---------------------------------------------------------------------------

theorem decompressPublicKey_noDomain (crypto : Crypto) (value : Certificate) {s : Loading}
    (h : cxEcdomainLength s.publicKey.curve = none) :
    decompressPublicKey crypto value s = (0x3302, s) := by
  rw [decompressPublicKey, h]

theorem Found.noDomain_store {found : Found} {s : Loading} (hs : found.Holds s)
    (hfound : found.noDomain = false) (f : Field) (hf : (f.store crypto s).1 = swoOk) :
    (found.store f).noDomain = false := by
  cases f with
  | publicKey value =>
    rw [Found.store, hfound, Bool.false_or]
    cases hcurve : found.curve with
    | none => rfl
    | some id =>
      rw [Option.any_some]
      cases hdomain : cxEcdomainLength id with
      | some n => rfl
      | none =>
        rw [← hs.curve id hcurve] at hdomain
        rw [Field.store, decompressPublicKey_noDomain crypto value hdomain] at hf
        cases hf
  | _ => exact hfound

theorem storeAll_noDomain (crypto : Crypto) {found : Found} {s : Loading} (hs : found.Holds s)
    (hfound : found.noDomain = false) (fs : List Field)
    (h : (fs.foldl Found.store found).noDomain = true) :
    ∃ s', storeAll crypto s fs = .error s' := by
  induction fs generalizing found s with
  | nil =>
    rw [List.foldl_nil, hfound] at h
    cases h
  | cons f fs ih =>
    rw [storeAll]
    by_cases hf : (f.store crypto s).1 = swoOk
    · simp only [hf, ne_eq, not_true_eq_false, if_false]
      exact ih (hs.store crypto f) (Found.noDomain_store hs hfound f hf) h
    · exact ⟨_, if_pos hf⟩

/-- The caller's curve is used by the first key before a curve. -/
theorem Found.callerCurve_store {found : Found} {s : Loading}
    (hcurve : found.curve = none → cxEcdomainLength s.publicKey.curve = none)
    (hfound : found.callerCurve = false) (f : Field) (hf : (f.store crypto s).1 = swoOk) :
    (found.store f).callerCurve = false ∧ ((found.store f).curve = none →
      cxEcdomainLength (f.store crypto s).2.publicKey.curve = none) := by
  cases f with
  | publicKey value =>
    obtain ⟨w, wLen, hstore⟩ := Field.store_publicKey crypto s value
    rw [hstore, Found.store, hfound, Bool.false_or]
    refine ⟨?_, hcurve⟩
    cases hnone : found.curve with
    | none =>
      rw [Field.store, decompressPublicKey_noDomain crypto value (hcurve hnone)] at hf
      cases hf
    | some id => rfl
  | curve id => exact ⟨hfound, fun h => absurd h (Option.some_ne_none id)⟩
  | _ => exact ⟨hfound, hcurve⟩

theorem storeAll_callerCurve (crypto : Crypto) {found : Found} {s : Loading}
    (hcurve : found.curve = none → cxEcdomainLength s.publicKey.curve = none)
    (hfound : found.callerCurve = false) (fs : List Field)
    (h : (fs.foldl Found.store found).callerCurve = true) :
    ∃ s', storeAll crypto s fs = .error s' := by
  induction fs generalizing found s with
  | nil =>
    rw [List.foldl_nil, hfound] at h
    cases h
  | cons f fs ih =>
    rw [storeAll]
    by_cases hf : (f.store crypto s).1 = swoOk
    · simp only [hf, ne_eq, not_true_eq_false, if_false]
      obtain ⟨hcaller, hnext⟩ := Found.callerCurve_store hcurve hfound f hf
      exact ih hnext hcaller h
    · exact ⟨_, if_pos hf⟩

-- ---------------------------------------------------------------------------
-- What is kept
-- ---------------------------------------------------------------------------

theorem Found.callerCurve_of_store {found : Found} {f : Field}
    (h : (found.store f).callerCurve = false) : found.callerCurve = false := by
  cases f with
  | publicKey value => exact (Bool.or_eq_false_iff.mp h).1
  | _ => exact h

theorem Found.callerCurve_of_foldl {found : Found} {fs : List Field}
    (h : (fs.foldl Found.store found).callerCurve = false) : found.callerCurve = false := by
  induction fs generalizing found with
  | nil => exact h
  | cons f fs ih => exact Found.callerCurve_of_store (ih h)

theorem Found.noDomain_of_store {found : Found} {f : Field}
    (h : (found.store f).noDomain = false) : found.noDomain = false := by
  cases f with
  | publicKey value => exact (Bool.or_eq_false_iff.mp h).1
  | _ => exact h

theorem Found.noDomain_of_foldl {found : Found} {fs : List Field}
    (h : (fs.foldl Found.store found).noDomain = false) : found.noDomain = false := by
  induction fs generalizing found with
  | nil => exact h
  | cons f fs ih => exact Found.noDomain_of_store (ih h)

/-- The state has what the state before it had, but for what was found. -/
structure Found.Leaves (found : Found) (s₀ s : Loading) : Prop where
  keyUsage : found.keyUsage = none → s.pki.keyUsage = s₀.pki.keyUsage
  signerSignAlgo : found.signerSignAlgo = none → s.pki.signerSignAlgo = s₀.pki.signerSignAlgo
  pkSignAlgo : found.pkSignAlgo = none → s.pki.pkSignAlgo = s₀.pki.pkSignAlgo
  signerId : found.signerId = none → s.pki.signerId = s₀.pki.signerId
  trustedName : found.trustedName = false →
    s.pki.trustedName = s₀.pki.trustedName ∧ s.pki.trustedNameLen = s₀.pki.trustedNameLen
  longestName : found.longestName = false → s.pki.trustedName.getLast? = s₀.pki.trustedName.getLast?
  curve : found.curve = none → s.publicKey.curve = s₀.publicKey.curve
  publicKey : found.publicKey = false →
    s.publicKey.w = s₀.publicKey.w ∧ s.publicKey.wLen = s₀.publicKey.wLen
  storedKey : s.pki.publicKey = s₀.pki.publicKey

/-- The array of the name. -/
def OsPki.Sized (pki : OsPki) : Prop := pki.trustedName.length = certificateTrustedNameMaxlen

theorem Field.store_sized (h : s.pki.Sized) (crypto : Crypto) (f : Field) :
    (f.store crypto s).2.pki.Sized := by
  cases f with
  | publicKey value =>
    obtain ⟨w, wLen, hstore⟩ := Field.store_publicKey crypto s value
    rwa [hstore]
  | trustedName name hlen =>
    exact (length_overwrite (by rw [Nat.zero_add, h]; exact hlen)).trans h
  | _ => exact h

theorem storeAll_sized (h : s.pki.Sized) (hs : storeAll crypto s fs = .ok s') : s'.pki.Sized := by
  induction fs generalizing s with
  | nil =>
    cases hs
    exact h
  | cons f fs ih =>
    rw [storeAll] at hs
    by_cases hf : (f.store crypto s).1 = swoOk
    · simp only [hf, ne_eq, not_true_eq_false, if_false] at hs
      exact ih (Field.store_sized h crypto f) hs
    · simp only [hf, ne_eq, not_false_eq_true, if_true] at hs
      cases hs

theorem Found.leaves_nothing (s : Loading) : Found.nothing.Leaves s s where
  keyUsage _ := rfl
  signerSignAlgo _ := rfl
  pkSignAlgo _ := rfl
  signerId _ := rfl
  trustedName _ := ⟨rfl, rfl⟩
  longestName _ := rfl
  curve _ := rfl
  publicKey _ := ⟨rfl, rfl⟩
  storedKey := rfl

theorem getLast?_overwrite {xs ys : List α} (h : ys.length < xs.length) :
    (overwrite xs 0 ys).getLast? = xs.getLast? := by
  rw [overwrite_zero, List.getLast?_append_of_ne_nil, List.getLast?_drop, if_neg (by omega)]
  rw [ne_eq, List.drop_eq_nil_iff]
  omega

theorem Found.Leaves.store {found : Found} {s₀ s : Loading} (h : found.Leaves s₀ s)
    (hs : s.pki.Sized) (crypto : Crypto) (f : Field) :
    (found.store f).Leaves s₀ (f.store crypto s).2 := by
  cases f with
  | unused => exact h
  | signerId id => exact { h with signerId := fun hnone => absurd hnone (Option.some_ne_none id) }
  | signerSignAlgo algo =>
    exact { h with signerSignAlgo := fun hnone => absurd hnone (Option.some_ne_none algo) }
  | trustedName name hlen =>
    refine { h with trustedName := fun hfalse => Bool.noConfusion hfalse, longestName := ?_ }
    intro hlongest
    obtain ⟨hfound, hname⟩ := Bool.or_eq_false_iff.mp hlongest
    have hne : name.length ≠ certificateTrustedNameMaxlen := fun h => by simp [h] at hname
    rw [← h.longestName hfound]
    exact getLast?_overwrite (by rw [hs]; omega)
  | keyUsage usage =>
    exact { h with keyUsage := fun hnone => absurd hnone (Option.some_ne_none usage) }
  | curve id => exact { h with curve := fun hnone => absurd hnone (Option.some_ne_none id) }
  | publicKey value =>
    obtain ⟨w, wLen, hstore⟩ := Field.store_publicKey crypto s value
    rw [hstore]
    exact { h with publicKey := fun hfalse => Bool.noConfusion hfalse }
  | pkSignAlgo algo =>
    exact { h with pkSignAlgo := fun hnone => absurd hnone (Option.some_ne_none algo) }

theorem Found.domain_of_store {found : Found} {s₀ s : Loading} (hs : found.Holds s)
    (hleaves : found.Leaves s₀ s) {value : Certificate}
    (hdomain : (found.store (.publicKey value)).noDomain = false)
    (hcurve : cxEcdomainLength s₀.publicKey.curve ≠ none ∨
      (found.store (.publicKey value)).callerCurve = false) :
    cxEcdomainLength s.publicKey.curve ≠ none := by
  obtain ⟨-, hany⟩ := Bool.or_eq_false_iff.mp hdomain
  cases hid : found.curve with
  | none =>
    rw [hleaves.curve hid]
    refine hcurve.resolve_right fun hcaller => ?_
    simp [Found.store, hid] at hcaller
  | some id =>
    rw [hid, Option.any_some] at hany
    rw [hs.curve id hid]
    exact fun hnone => by simp [hnone] at hany

theorem decompressPublicKey_total {crypto : Crypto}
    (htotal : ∀ c v b, (crypto.decompress c v b).isSome) (value : Certificate) {s : Loading}
    (h : cxEcdomainLength s.publicKey.curve ≠ none) :
    (decompressPublicKey crypto value s).1 = swoOk := by
  obtain ⟨n, hn⟩ := Option.ne_none_iff_exists'.mp h
  obtain ⟨point, hpoint⟩ := Option.isSome_iff_exists.mp
    (htotal s.publicKey.curve (value.slice 3 ((value 1).toNat - 1)) (value 2 &&& 0x1 = 1))
  simp only [decompressPublicKey, hn, hpoint]

theorem storeAll_total {crypto : Crypto} (htotal : ∀ c v b, (crypto.decompress c v b).isSome)
    {found : Found} {s₀ s : Loading} (hs : found.Holds s) (hleaves : found.Leaves s₀ s)
    (hsize : s.pki.Sized) (fs : List Field)
    (hdomain : (fs.foldl Found.store found).noDomain = false)
    (hcurve : cxEcdomainLength s₀.publicKey.curve ≠ none ∨
      (fs.foldl Found.store found).callerCurve = false) :
    ∃ s', storeAll crypto s fs = .ok s' ∧ (fs.foldl Found.store found).Holds s' ∧
      (fs.foldl Found.store found).Leaves s₀ s' ∧ s'.pki.Sized := by
  induction fs generalizing found s with
  | nil => exact ⟨s, rfl, hs, hleaves, hsize⟩
  | cons f fs ih =>
    have hf : (f.store crypto s).1 = swoOk := by
      cases f with
      | publicKey value =>
        exact decompressPublicKey_total htotal value (Found.domain_of_store hs hleaves
          (Found.noDomain_of_foldl hdomain) (hcurve.imp_right Found.callerCurve_of_foldl))
      | _ => rfl
    rw [storeAll]
    simp only [hf, ne_eq, not_true_eq_false, if_false]
    exact ih (hs.store crypto f) (hleaves.store hsize crypto f) (Field.store_sized hsize crypto f)
      hdomain hcurve

-- ---------------------------------------------------------------------------
-- Two states
-- ---------------------------------------------------------------------------

/-- Two states agree on the name and the key as far as they were found. -/
structure Found.Agree (found : Found) (s t : Loading) : Prop where
  trustedName : found.trustedName = true →
    s.pki.trustedName.take s.pki.trustedNameLen = t.pki.trustedName.take t.pki.trustedNameLen
  longestName : found.longestName = true → s.pki.trustedName = t.pki.trustedName
  publicKey : found.publicKey = true → s.publicKey.wLen = t.publicKey.wLen ∧
    0 < s.publicKey.wLen ∧ s.publicKey.w.take s.publicKey.wLen = t.publicKey.w.take t.publicKey.wLen
  storedKey : s.pki.publicKey = t.pki.publicKey

theorem Found.agree_nothing {s t : Loading} (h : s.pki.publicKey = t.pki.publicKey) :
    Found.nothing.Agree s t where
  trustedName hfalse := Bool.noConfusion hfalse
  longestName hfalse := Bool.noConfusion hfalse
  publicKey hfalse := Bool.noConfusion hfalse
  storedKey := h

/-- A field is stored in both states or in none. -/
theorem Found.Agree.store {found : Found} {s t : Loading} (h : found.Agree s t)
    (hs : found.Holds s) (ht : found.Holds t) (hsize : s.pki.Sized) (htsize : t.pki.Sized)
    (crypto : Crypto) {f : Field} (hcaller : (found.store f).callerCurve = false) :
    (f.store crypto s).1 = (f.store crypto t).1 ∧
      ((f.store crypto s).1 = swoOk →
        (found.store f).Agree (f.store crypto s).2 (f.store crypto t).2) := by
  cases f with
  | publicKey value =>
    obtain ⟨-, hnone⟩ := Bool.or_eq_false_iff.mp hcaller
    obtain ⟨id, hid⟩ := Option.isSome_iff_exists.mp (Option.isNone_eq_false_iff.mp hnone)
    have hne : (0x3302 : UInt32) ≠ swoOk := by decide
    simp only [Field.store, decompressPublicKey, hs.curve id hid, ht.curve id hid]
    cases cxEcdomainLength id with
    | none => exact ⟨rfl, fun hf => absurd hf hne⟩
    | some n =>
      cases crypto.decompress id (value.slice 3 ((value 1).toNat - 1)) (value 2 &&& 0x1 = 1) with
      | none => exact ⟨rfl, fun hf => absurd hf hne⟩
      | some point =>
        have hlen : (0x04 :: (toBE n point.1 ++ toBE n point.2)).length = 2 * n + 1 := by
          simp only [List.length_cons, List.length_append, length_toBE]
          omega
        refine ⟨rfl, fun _ => { h with publicKey := fun _ => ⟨rfl, Nat.succ_pos _, ?_⟩ }⟩
        simp only [overwrite_zero, List.take_left' hlen]
  | trustedName name hlen =>
    refine ⟨rfl, fun _ => { h with trustedName := fun _ => ?_, longestName := fun hlongest => ?_ }⟩
    · simp only [Field.store, overwrite_zero, List.take_left]
    · rcases Bool.or_eq_true_iff.mp hlongest with hfound | hlen'
      · simp only [Field.store, h.longestName hfound]
      · have hlen' := beq_iff_eq.mp hlen'
        simp only [Field.store, overwrite_zero, hlen']
        rw [List.drop_of_length_le (Nat.le_of_eq hsize),
          List.drop_of_length_le (Nat.le_of_eq htsize)]
  | _ => exact ⟨rfl, fun _ => { h with }⟩

theorem storeAll_agree (crypto : Crypto) {found : Found} {s t : Loading} (h : found.Agree s t)
    (hs : found.Holds s) (ht : found.Holds t) (hsize : s.pki.Sized) (htsize : t.pki.Sized)
    (fs : List Field) (hcaller : (fs.foldl Found.store found).callerCurve = false) :
    (∃ s' t', storeAll crypto s fs = .error s' ∧ storeAll crypto t fs = .error t') ∨
      ∃ s' t', storeAll crypto s fs = .ok s' ∧ storeAll crypto t fs = .ok t' ∧
        (fs.foldl Found.store found).Agree s' t' ∧ (fs.foldl Found.store found).Holds s' ∧
        (fs.foldl Found.store found).Holds t' := by
  induction fs generalizing found s t with
  | nil => exact .inr ⟨s, t, rfl, rfl, h, hs, ht⟩
  | cons f fs ih =>
    obtain ⟨hswo, hstore⟩ := h.store hs ht hsize htsize crypto (Found.callerCurve_of_foldl hcaller)
    rw [storeAll, storeAll]
    by_cases hf : (f.store crypto s).1 = swoOk
    · simp only [hf, hswo ▸ hf, ne_eq, not_true_eq_false, if_false]
      exact ih (hstore hf) (hs.store crypto f) (ht.store crypto f)
        (Field.store_sized hsize crypto f)
        (Field.store_sized htsize crypto f) hcaller
    · exact .inl ⟨_, _, if_pos hf, if_pos (hswo ▸ hf)⟩

end Speculos.Pki
