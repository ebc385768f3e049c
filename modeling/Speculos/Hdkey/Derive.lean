import Speculos.Bip32.HdwBip32
import Speculos.Hdkey.TagSequences

/-!
# Key derivation

`HDKEY_derive`: the validation of the parameters and the derivation of the mode.
-/

namespace Speculos.Hdkey

open Lib
open Speculos.Bip32 (OsResult Curve hdwSlip21 hdkeyDeriveModeBls12377Aleo
  hdkeyDeriveModeZip32Sapling hdkeyDeriveModeZip32Orchard hdkeyValidatePath Path bip32SecpSeed
  bip32EdSeed)

def hdkeyDeriveModeZip32Registered : UInt32 := 0x40

def applicationFlagDeriveMaster : UInt32 := 0x10

/-- What a derivation reads apart from its parameters: the seed, whether the lock of
the big number unit is held, and what the application may derive. -/
structure Device where
  hashes : Hashes
  seed : Seed
  bnLocked : Bool
  appFlags : UInt32
  appDerivationPath : Bytes

-- ---------------------------------------------------------------------------
-- Validation
-- ---------------------------------------------------------------------------

def isPow2OrZero (x : UInt32) : Prop := x &&& (x - 1) = 0

instance (x : UInt32) : Decidable (isPow2OrZero x) := inferInstanceAs (Decidable (_ = _))

def hdkeyValidateParams (params : Params) : OsResult :=
  if params.mode = hdwSlip21 ∧ params.pathNull then .errBadParam
  -- ensure the first BYTE of the prefix for SLIP21 is 0.
  else if params.mode = hdwSlip21 ∧ params.path.bytes.getD 0 0 ≠ 0 then .errBadFormat
  -- can't specify more than one derivation mode
  else if ¬ isPow2OrZero params.mode then .errBadParam
  else .success

/-- `hdkey_validate_hardened` for an application. -/
def hdkeyValidateHardened (appFlags : UInt32) (params : Params) : OsResult :=
  if params.mode ≠ hdwSlip21 ∧ appFlags &&& applicationFlagDeriveMaster = 0 ∧
      params.path.indices.all fun index => index &&& 0x80000000 = 0 then
    .errBadParam
  else .success

def hdkeyValidateSecureContext (device : Device) (params : Params) : OsResult :=
  if UInt64.ofNat params.path.length &&& 0xF0000000 ≠ 0 then .errOverflow
  else
    let osError := hdkeyValidateParams params
    if osError ≠ .success then osError
    else
      let osError := hdkeyValidateHardened device.appFlags params
      if osError ≠ .success then osError
      else hdkeyValidatePath device.appDerivationPath params.toHdkeyParams 0

-- ---------------------------------------------------------------------------
-- BLS12-377
-- ---------------------------------------------------------------------------

/-- `BIP32_NIST_SEED`, "Nist256p1 seed". -/
def bip32NistSeed : Bytes :=
  [0x4e, 0x69, 0x73, 0x74, 0x32, 0x35, 0x36, 0x70, 0x31, 0x20, 0x73, 0x65, 0x65, 0x64]

/-- `SLIP21_SEED`, "Symmetric key seed". -/
def slip21Seed : Bytes :=
  [0x53, 0x79, 0x6d, 0x6d, 0x65, 0x74, 0x72, 0x69, 0x63, 0x20, 0x6b, 0x65, 0x79, 0x20, 0x73, 0x65,
    0x65, 0x64]

/-- `BLS12_377_SEED`, "bls12_377 seed". -/
def bls12377Seed : Bytes :=
  [0x62, 0x6c, 0x73, 0x31, 0x32, 0x5f, 0x33, 0x37, 0x37, 0x20, 0x73, 0x65, 0x65, 0x64]

/-- `params->seed_key` behind `hdkey_bip32_get_default_seed`. -/
def hdkeyBip32GetDefaultSeed (params : Params) : Except OsResult Bytes :=
  let seedKey := params.seedKey.getD []
  if seedKey ≠ [] then .ok seedKey
  else if params.mode = hdwSlip21 then .ok slip21Seed
  else
    match params.curve with
    | .secp256k1 => .ok bip32SecpSeed
    | .secp256r1 => .ok bip32NistSeed
    | .ed25519 => .ok bip32EdSeed
    | .bls12377g1 => .ok bls12377Seed
    | _ => .error .errNotImplemented

def hdkeyBip32CheckResultLen (curve : Curve) (resultLen : Nat) : OsResult :=
  if resultLen ≠ (if curve = .ed25519 then 96 else 64) then .errBadParam else .success

/-- `HDKEY_BIP32_get_seed_hmac` with a buffer of 64 bytes, which Ed25519 does not
accept. -/
def hdkeyBip32GetSeedHmac (hashes : Hashes) (seed : Seed) (params : Params) :
    Except OsResult Bytes := do
  let osError := hdkeyBip32CheckResultLen params.curve 64
  if osError ≠ .success then throw osError
  let seedKey ← hdkeyBip32GetDefaultSeed params
  return hashes.hmacSha512 seedKey seed.bytes

def hdkeyBls12377DeriveChild (hashes : Hashes) (seedChain : Bytes) (index : UInt32) : Bytes :=
  -- data always contains 0x00 || seed (32 bytes) || index (4 bytes)
  hashes.hmacSha512 (seedChain.drop 32) (0x00 :: (seedChain.take 32 ++ toBE 4 index.toNat))

/-- The checks of `HDKEY_BLS12377_derive`. -/
def bls12377Checks (params : Params) : OsResult :=
  match params.privateKey with
  | none => .errBadParam
  | some privateKey =>
    if params.pathNull then .errBadParam
    else if privateKey.length < 32 then .errShortBuffer
    else if (params.chain.map List.length).getD 32 ≠ 32 then .errShortBuffer
    else .success

def hdkeyBls12377Derive (hashes : Hashes) (seed : Seed) (params : Params) : OsResult × Output :=
  let osError := bls12377Checks params
  if osError ≠ .success then (osError, params.output)
  else
    match hdkeyBip32GetSeedHmac hashes seed params with
    | .error osError => (osError, params.output)
    | .ok seedChain =>
      let seedChain := params.path.indices.foldl (hdkeyBls12377DeriveChild hashes) seedChain
      (.success, writeHard params.output (.ofHash seedChain))

/-- `HDKEY_derive`: what it returns and the buffers of the caller. -/
def hdkeyDerive (device : Device) (params : Params) : OsResult × Output :=
  let osError := hdkeyValidateSecureContext device params
  if osError ≠ .success then (osError, params.output)
  else if params.mode = hdkeyDeriveModeBls12377Aleo then
    hdkeyBls12377Derive device.hashes device.seed params
  else if params.mode = hdkeyDeriveModeZip32Sapling then
    zip32SaplingDerive device.hashes device.seed device.bnLocked params
  else if params.mode = hdkeyDeriveModeZip32Orchard then
    zip32OrchardDerive device.hashes device.seed device.bnLocked params
  else if params.mode = hdkeyDeriveModeZip32Registered then
    zip32RegisteredDerive device.hashes device.seed params
  else (.errNotImplemented, params.output)

-- ---------------------------------------------------------------------------
-- Failures
-- ---------------------------------------------------------------------------

/-- A failure leaves the buffers as they were. -/
def LeaksNothing (output : Output) (r : OsResult × Output) : Prop := r.1 ≠ .success → r.2 = output

theorem leaksNothing_of_same (osError : OsResult) (output : Output) :
    LeaksNothing output (osError, output) := fun _ => rfl

theorem leaksNothing_of_success (output output' : Output) :
    LeaksNothing output (.success, output') := fun h => absurd rfl h

theorem finish_leaksNothing (output : Output) (write : Output → κ → Output)
    (r : EStateM.Result OsResult Bool κ) : LeaksNothing output (finish output write r) := by
  cases r with
  | ok outChild s => exact leaksNothing_of_success _ _
  | error osError s => exact leaksNothing_of_same _ _

theorem zip32SaplingDerive_leaksNothing (hashes : Hashes) (seed : Seed) (locked : Bool)
    (params : Params) :
    LeaksNothing params.output (zip32SaplingDerive hashes seed locked params) := by
  rw [zip32SaplingDerive]
  split
  · exact leaksNothing_of_same _ _
  · exact finish_leaksNothing _ _ _

theorem zip32OrchardDerive_leaksNothing (hashes : Hashes) (seed : Seed) (locked : Bool)
    (params : Params) :
    LeaksNothing params.output (zip32OrchardDerive hashes seed locked params) := by
  rw [zip32OrchardDerive]
  split
  · exact leaksNothing_of_same _ _
  · exact finish_leaksNothing _ _ _

theorem hdkeyBls12377Derive_leaksNothing (hashes : Hashes) (seed : Seed) (params : Params) :
    LeaksNothing params.output (hdkeyBls12377Derive hashes seed params) := by
  rw [hdkeyBls12377Derive]
  split
  · exact leaksNothing_of_same _ _
  · split
    · exact leaksNothing_of_same _ _
    · exact leaksNothing_of_success _ _

-- ---------------------------------------------------------------------------
-- The status of the last read
-- ---------------------------------------------------------------------------

/-- The reads of `n` levels go through, and the one behind the last level finds
another tag. -/
def EndsNotFound (seedKey : Option Bytes) (n : Nat) : Prop :=
  ∃ context off sequence off' tags last,
    zip32ParseTlvTag tagContextStr seedKey none 0 = (.success, context, off) ∧
    zip32ParseTlvTag tagSequenceStr seedKey context off = (.success, sequence, off') ∧
    readTags seedKey ⟨.success, sequence, off'⟩ n = .ok (tags, last) ∧
    last.osError = .errNotFound

theorem nextTag_status (h : nextTag seedKey s = .ok next) :
    next.osError = .success ∨ next.osError = .errNotFound := by
  rcases hparse : zip32ParseTlvTag tagSequenceStr seedKey s.tag s.tagOffset with ⟨parsed, tag, off⟩
  simp only [nextTag, hparse] at h
  split_ifs at h with hend hparsed
  · cases h
    exact .inl rfl
  · cases h
    rwa [not_and_or, not_not, not_not] at hparsed

theorem readTags_status (hs : s.osError = .success ∨ s.osError = .errNotFound)
    (h : readTags seedKey s n = .ok r) :
    r.2.osError = .success ∨ r.2.osError = .errNotFound := by
  induction n generalizing s r with
  | zero =>
    cases h
    exact hs
  | succ n ih =>
    obtain ⟨next, rest, hnext, hrest, rfl⟩ := readTags_succ h
    have hstatus := ih (nextTag_status hnext) hrest
    exact hstatus

theorem zip32RegisteredDerive_leaksNothing (hashes : Hashes) (seed : Seed) (params : Params)
    (h : ¬ EndsNotFound params.seedKey (params.path.length - 1)) :
    LeaksNothing params.output (zip32RegisteredDerive hashes seed params) := by
  have hlength : (params.path.indices.drop 1).length = params.path.length - 1 := by
    rw [List.length_drop, Path.length_indices]
  rcases hcontext : zip32ParseTlvTag tagContextStr params.seedKey none 0
    with ⟨osError, context, off⟩
  rcases hsequence : zip32ParseTlvTag tagSequenceStr params.seedKey context off
    with ⟨osError', sequence, off'⟩
  simp only [zip32RegisteredDerive, hcontext, hsequence]
  split_ifs with hchecks hcontext' hsequence'
  · exact leaksNothing_of_same _ _
  · exact leaksNothing_of_same _ _
  · exact leaksNothing_of_same _ _
  · rw [not_not] at hcontext' hsequence'
    subst hcontext' hsequence'
    rw [foldlM_registeredStep, hlength]
    cases hread : readTags params.seedKey ⟨.success, sequence, off'⟩ (params.path.length - 1) with
    | error osError => exact leaksNothing_of_same _ _
    | ok r =>
      intro hfail
      rcases readTags_status (.inl rfl) hread with hstatus | hstatus
      · exact absurd hstatus hfail
      · exact absurd ⟨context, off, sequence, off', r.1, r.2, hcontext, hsequence, hread, hstatus⟩ h

-- ---------------------------------------------------------------------------
-- The contents of the buffers
-- ---------------------------------------------------------------------------

def Params.withOutput (params : Params) (output : Output) : Params :=
  { params with privateKey := output.privateKey, chain := output.chain }

/-- Buffers at the same places and of the same sizes. -/
structure SameSizes (output output' : Output) : Prop where
  privateKey : output.privateKey.map List.length = output'.privateKey.map List.length
  chain : output.chain.map List.length = output'.chain.map List.length

theorem hardChecks_withOutput (params : Params) (h : SameSizes output params.output) :
    hardChecks (params.withOutput output) = hardChecks params := by
  have hkey := h.privateKey
  have hchain := h.chain
  simp only [Params.output] at hkey hchain
  simp only [hardChecks, Params.withOutput, hchain]
  cases hprivate : params.privateKey with
  | none =>
    rw [hprivate, Option.map_none, Option.map_eq_none_iff] at hkey
    rw [hkey]
  | some privateKey =>
    rw [hprivate, Option.map_some, Option.map_eq_some_iff] at hkey
    obtain ⟨privateKey', hprivate', hlen⟩ := hkey
    simp only [hprivate', hlen]

/-- The key of a derivation that ends on another tag is in the buffers, whatever they
held before. -/
theorem zip32RegisteredDerive_notFound (hashes : Hashes) (seed : Seed)
    (hchecks : hardChecks params = .success)
    (h : EndsNotFound params.seedKey (params.path.length - 1)) :
    ∃ key : HardSk, key.Sized ∧ ∀ output, SameSizes output params.output →
      zip32RegisteredDerive hashes seed (params.withOutput output) =
        (.errNotFound, writeHard output key) := by
  have hlength : (params.path.indices.drop 1).length = params.path.length - 1 := by
    rw [List.length_drop, Path.length_indices]
  obtain ⟨context, off, sequence, off', tags, last, hcontext, hsequence, hread, hlast⟩ := h
  have hlevels : params.path.indices.drop 1 ≠ [] := by
    intro hnil
    rw [hnil, List.length_nil] at hlength
    rw [← hlength] at hread
    cases hread
    exact OsResult.noConfusion hlast
  refine ⟨deriveLevels hashes (zip32HardenedSubtreeRootKey hashes (params.path.index 0) seed context)
    ((params.path.indices.drop 1).zip tags),
    sized_deriveLevels (sized_subtreeRootKey hashes _ _ _) _ _, fun output houtput => ?_⟩
  have hchecks' := (hardChecks_withOutput params houtput).trans hchecks
  rw [zip32RegisteredDerive, hchecks']
  simp only [Params.withOutput, hcontext, hsequence, foldlM_registeredStep, hlength, hread,
    if_neg hlevels, ne_eq, not_true_eq_false, if_false, Except.map, hlast]
  rfl

-- ---------------------------------------------------------------------------
-- What leaks
-- ---------------------------------------------------------------------------

/-- A registered derivation that is allowed and whose last read finds another tag. -/
structure RegisteredEndsNotFound (device : Device) (params : Params) : Prop where
  mode : params.mode = hdkeyDeriveModeZip32Registered
  allowed : hdkeyValidateSecureContext device params = .success
  checks : hardChecks params = .success
  reads : EndsNotFound params.seedKey (params.path.length - 1)

theorem hdkeyDerive_registered (device : Device) (params : Params)
    (hmode : params.mode = hdkeyDeriveModeZip32Registered)
    (hallowed : hdkeyValidateSecureContext device params = .success) :
    hdkeyDerive device params = zip32RegisteredDerive device.hashes device.seed params := by
  rw [hdkeyDerive, hallowed, hmode]
  rfl

theorem hdkeyDerive_leaksNothing (device : Device) (params : Params)
    (h : ¬ RegisteredEndsNotFound device params) :
    LeaksNothing params.output (hdkeyDerive device params) := by
  simp only [hdkeyDerive]
  split_ifs with hallowed hbls hsapling horchard hregistered
  · exact leaksNothing_of_same _ _
  · exact hdkeyBls12377Derive_leaksNothing _ _ _
  · exact zip32SaplingDerive_leaksNothing _ _ _ _
  · exact zip32OrchardDerive_leaksNothing _ _ _ _
  · by_cases hchecks : hardChecks params = .success
    · exact zip32RegisteredDerive_leaksNothing _ _ _ fun hreads =>
        h ⟨hregistered, not_not.mp hallowed, hchecks, hreads⟩
    · rw [zip32RegisteredDerive, if_pos hchecks]
      exact leaksNothing_of_same _ _
  · exact leaksNothing_of_same _ _

/-- A failure leaves the buffers as they were, whatever they held, exactly where the
call is not a registered derivation whose last read finds another tag. -/
theorem hdkeyDerive_leaksNothing_iff (device : Device) (params : Params) :
    (∀ output, SameSizes output params.output →
      LeaksNothing output (hdkeyDerive device (params.withOutput output))) ↔
      ¬ RegisteredEndsNotFound device params := by
  constructor
  · rintro h ⟨hmode, hallowed, hchecks, hreads⟩
    obtain ⟨hprivate, hlen, -⟩ := hardChecks_success hchecks
    obtain ⟨key, hkey, hderive⟩ :=
      zip32RegisteredDerive_notFound device.hashes device.seed hchecks hreads
    obtain ⟨privateKey, hprivate⟩ := Option.ne_none_iff_exists'.mp hprivate
    obtain ⟨b, sk, hsk⟩ := List.exists_cons_of_length_pos (by rw [hkey.sk]; decide)
    let output : Output := ⟨some (List.replicate privateKey.length (b + 1)), params.chain⟩
    have houtput : SameSizes output params.output := by
      refine ⟨?_, rfl⟩
      rw [hprivate]
      simp [output]
    have hleak := h output houtput
    rw [hdkeyDerive_registered device (params.withOutput output) hmode hallowed,
      hderive output houtput] at hleak
    have hsame := congrArg Output.privateKey (hleak OsResult.noConfusion)
    simp only [writeHard, output, Option.map_some, overwrite_zero, hsk, List.cons_append,
      Option.some.injEq] at hsame
    have hmem : b ∈ List.replicate privateKey.length (b + 1) := hsame ▸ List.mem_cons_self
    have hsucc := congrArg UInt8.toNat (List.eq_of_mem_replicate hmem)
    rw [UInt8.toNat_add] at hsucc
    have hlt := b.toNat_lt
    have hone : UInt8.toNat 1 = 1 := rfl
    omega
  · intro h output houtput
    refine hdkeyDerive_leaksNothing device (params.withOutput output) fun hends => h ?_
    exact ⟨hends.mode, hends.allowed, (hardChecks_withOutput params houtput).symm.trans hends.checks,
      hends.reads⟩

/-- A registered derivation of two indices, where an element with the tag 1 stands
behind the sequence. -/
def otherTag : Params where
  mode := hdkeyDeriveModeZip32Registered
  curve := .other
  path := ⟨[1, 0, 0, 0x80, 2, 0, 0, 0x80], 2, rfl⟩
  pathNull := false
  privateKey := some (List.replicate 32 0xFF)
  chain := none
  seedKey := some [0x16, 0x00, 0xA0, 0x00, 0x01, 0x00]
  pathLength_lt := by decide

theorem registered_otherTag :
    ¬ LeaksNothing otherTag.output
      (hdkeyDerive ⟨markHashes 0 none, ⟨List.replicate 64 0, rfl⟩, false, 0, []⟩ otherTag) := by
  rw [LeaksNothing]
  decide

end Speculos.Hdkey
