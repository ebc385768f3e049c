import Speculos.Bip32.CheckPath

/-!
# The check of `hdkey_validate.c`

`hdkey_validate_path` is a rewrite of the check of `os_bip32.c`. A list that
holds only the mask of curves is accepted before the mask is looked at; on every
other well-formed list the two checks agree.
-/

namespace Speculos.Bip32

open Lib

inductive OsResult
  | success
  | errBadParam
  | errBadLen
  | errNotFound
  | errNotImplemented
  | errShortBuffer
  | errOverflow
  | errCryptoInternal
  | errBadFormat
  | errForbidden
  deriving DecidableEq, Repr

def hdkeyDeriveModeBls12377Aleo : UInt32 := 0x08

def hdkeyDeriveModeZip32Sapling : UInt32 := 0x10

def hdkeyDeriveModeZip32Orchard : UInt32 := 0x20

def hdkeyDeriveAuthBls12377g1 : UInt8 := 0x20

def hdkeyDeriveAuthZip32 : UInt8 := 0x40

def bolosAppIdx : UInt32 := 0xFF

/-- The fields of `HDKEY_params_t` that are validated against the list. -/
structure HdkeyParams where
  mode : UInt32
  curve : Curve
  path : Path mode

/-- `os_error` and `curve_mask` at `end` of `hdkey_validate_curve`. -/
def hdkeyCurveMask (mode : UInt32) (curve : Curve) : OsResult × UInt8 :=
  if mode = hdwSlip21 then (.success, deriveAuthSlip21)
  else if mode = hdkeyDeriveModeBls12377Aleo then
    if curve = .bls12377g1 then (.success, hdkeyDeriveAuthBls12377g1) else (.errBadParam, 0)
  else if mode = hdkeyDeriveModeZip32Sapling then
    if curve = .jubjub then (.success, hdkeyDeriveAuthZip32) else (.errBadParam, 0)
  -- No curve is required
  else if mode = hdkeyDeriveModeZip32Orchard then (.success, hdkeyDeriveAuthZip32)
  else
    match curve with
    | .secp256k1 => (.success, deriveAuth256k1)
    | .secp256r1 => (.success, deriveAuth256r1)
    | .ed25519 => (.success, deriveAuthEd25519)
    | _ => (.errNotImplemented, 0)

def hdkeyValidateCurve (mode : UInt32) (curve : Curve) (appCurveMask : UInt8) : OsResult :=
  let (osError, curveMask) := hdkeyCurveMask mode curve
  if osError = .success then
    if appCurveMask &&& curveMask ≠ curveMask then .errNotFound else .success
  else osError

def hdkeyMatchSlip21Subpath (path : Path mode) (derivePath : Bytes) (checkOffset : Nat)
    (subPathLength : Nat) : Bool :=
  memEq path.bytes derivePath (checkOffset + 1) subPathLength

def hdkeyMatchBip32Subpath (path : Path mode) (derivePath : Bytes) (checkOffset : Nat)
    (subPathLength : Nat) : Bool :=
  (List.range subPathLength).all fun i =>
    let allowedPrefix := u4be derivePath (checkOffset + 1 + 4 * i)
    ¬ (path.index i ≠ allowedPrefix ∧ allowedPrefix ≠ bip32WildcardValue)

/-- The loop of `hdkey_validate_path`, which ends with `path_valid`. -/
def hdkeyLoop (path : Path mode) (derivePath : Bytes) (checkOffset : Nat) : Bool :=
  if checkOffset < derivePath.length then
    let subPathLength := derivePath.getD checkOffset 0
    let slip21Marker := subPathLength &&& 0x80 != 0
    let slip21Request := mode == hdwSlip21
    let entrySize := if slip21Marker then 1 else 4
    let subPathLength := (subPathLength &&& 0x7F).toNat
    -- Bounds check: ensure the sub-path data fits within derive_path
    if checkOffset + 1 + entrySize * subPathLength > derivePath.length then false
    -- Skip if path too short or slip21 mode mismatch
    else if path.length < subPathLength || slip21Marker != slip21Request then
      hdkeyLoop path derivePath (checkOffset + (1 + entrySize * subPathLength))
    else
      -- Authorize if a subpath is valid
      let pathValid :=
        if slip21Request then hdkeyMatchSlip21Subpath path derivePath checkOffset subPathLength
        else hdkeyMatchBip32Subpath path derivePath checkOffset subPathLength
      if pathValid then true
      else hdkeyLoop path derivePath (checkOffset + (1 + entrySize * subPathLength))
  else false
termination_by derivePath.length - checkOffset

/-- `hdkey_validate_path`, where `appDerivationPath` is what
`get_app_derivation_path` gives. -/
def hdkeyValidatePath (appDerivationPath : Bytes) (params : HdkeyParams) (appIdx : UInt32) :
    OsResult :=
  let derivePath := if appIdx ≠ bolosAppIdx then appDerivationPath else []
  let (pathValid, osError) :=
    -- No information specified, everything is valid
    if derivePath.length = 0 then (true, .success)
    -- if only the curve was specified, all paths are valid
    else if derivePath.length = 1 then (true, .success)
    else
      let osError := hdkeyValidateCurve params.mode params.curve (derivePath.getD 0 0)
      if osError ≠ .success then (false, osError)
      else (hdkeyLoop params.path derivePath 1, osError)
  if ¬ pathValid then .errForbidden else osError

-- ---------------------------------------------------------------------------
-- The walk over the entries
-- ---------------------------------------------------------------------------

theorem hdkeyMatchBip32Subpath_eq (path : Path mode) (derivePath : Bytes) (offset n : Nat) :
    hdkeyMatchBip32Subpath path derivePath offset n =
      (List.range n).all fun i => path.index i == u4be derivePath (offset + 1 + 4 * i) ||
        u4be derivePath (offset + 1 + 4 * i) == bip32WildcardValue := by
  rw [hdkeyMatchBip32Subpath]
  congr
  funext i
  rw [Bool.eq_iff_iff]
  simp only [decide_eq_true_eq, Bool.or_eq_true, beq_iff_eq]
  exact not_and_or.trans (or_congr not_not not_not)

/-- An entry inside the list is compared as in `os_bip32.c`. -/
theorem hdkeyLoop_of_entryAt (path : Path mode) (h : EntryAt derivePath offset e) :
    hdkeyLoop path derivePath offset =
      (subPathValid path derivePath offset ||
        hdkeyLoop path derivePath (offset + e.encode.length)) := by
  obtain ⟨hmarker, hlength⟩ := h.header
  have hsize := h.size_le
  rw [hdkeyLoop, if_pos (by omega), e.length_encode]
  simp only [subPathValid, hmarker, hlength, hdkeyMatchBip32Subpath_eq, hdkeyMatchSlip21Subpath]
  rw [if_neg (by omega)]
  generalize ((List.range e.length).all _) = matches32
  by_cases hle : e.length ≤ path.length
  · cases e.isSlip21 != (mode == hdwSlip21) with
    | true => simp
    | false => simp [hle, Nat.not_lt.mpr hle]
  · simp [hle, Nat.lt_of_not_le hle]

theorem hdkeyLoop_eq (path : Path mode) (before : Bytes) (entries : List Entry) :
    hdkeyLoop path (before ++ entries.flatMap Entry.encode) before.length =
      checkLoop path (before ++ entries.flatMap Entry.encode) before.length := by
  induction entries generalizing before with
  | nil =>
    rw [hdkeyLoop, checkLoop]
    simp
  | cons e entries ih =>
    have hat : EntryAt (before ++ (e :: entries).flatMap Entry.encode) before.length e :=
      entryAt_cons before e entries
    have hrest := ih (before ++ e.encode)
    rw [List.length_append, List.append_assoc, ← List.flatMap_cons] at hrest
    rw [hdkeyLoop_of_entryAt path hat, checkLoop_of_entryAt path hat, hrest]

-- ---------------------------------------------------------------------------
-- The two checks agree
-- ---------------------------------------------------------------------------

theorem hdkeyValidateCurve_success_iff (hmode : mode ∈ [hdwNormal, hdwEd25519Slip10, hdwSlip21])
    (hcurve : curve ∈ [.secp256k1, .secp256r1, .ed25519]) (mask : UInt8) :
    hdkeyValidateCurve mode curve mask = .success ↔
      mask &&& authBit mode curve = authBit mode curve := by
  have hmask : hdkeyCurveMask mode curve = (.success, authBit mode curve) := by
    simp only [List.mem_cons, List.not_mem_nil, or_false] at hmode hcurve
    rcases hmode with rfl | rfl | rfl <;> rcases hcurve with rfl | rfl | rfl <;> rfl
  rw [hdkeyValidateCurve, hmask]
  by_cases hbit : mask &&& authBit mode curve = authBit mode curve
  · simp [hbit]
  · simp [hbit]

theorem hdkeyValidatePath_mask (mask : UInt8) (params : HdkeyParams)
    (happ : appIdx ≠ bolosAppIdx) :
    hdkeyValidatePath (allowList mask []) params appIdx = .success := by
  rw [hdkeyValidatePath, if_pos happ]
  rfl

theorem hdkeyValidatePath_entries (mask : UInt8) (hentries : entries ≠ []) (params : HdkeyParams)
    (hmode : params.mode ∈ [hdwNormal, hdwEd25519Slip10, hdwSlip21])
    (hcurve : params.curve ∈ [.secp256k1, .secp256r1, .ed25519]) (happ : appIdx ≠ bolosAppIdx) :
    hdkeyValidatePath (allowList mask entries) params appIdx = .success ↔
      checkPath (allowList mask entries) params.curve params.path true = .ok () := by
  have hlist := (allowList_length mask entries).mpr hentries
  have hcurve' := hdkeyValidateCurve_success_iff hmode hcurve mask
  have hloop : hdkeyLoop params.path (allowList mask entries) 1 =
      checkLoop params.path (allowList mask entries) 1 := hdkeyLoop_eq params.path [mask] entries
  have hmask : (allowList mask entries).getD 0 0 = mask := rfl
  rw [checkPath_allowList mask entries hcurve params.path, hdkeyValidatePath, if_pos happ]
  simp only [hmask, hloop, if_neg (show (allowList mask entries).length ≠ 0 by omega),
    if_neg (show (allowList mask entries).length ≠ 1 by omega)]
  by_cases hbit : mask &&& authBit params.mode params.curve = authBit params.mode params.curve
  · simp only [hcurve'.mpr hbit]
    by_cases hvalid : checkLoop params.path (allowList mask entries) 1 = true
    · simp [hbit, hvalid]
    · simp [hbit, hvalid, hlist]
  · have hne := mt hcurve'.mp hbit
    simp [hbit, hne]

/-- The two checks agree exactly where the list has an entry or the mask the bit
that is asked for. -/
theorem hdkeyValidatePath_agrees_iff (mask : UInt8) (entries : List Entry) (params : HdkeyParams)
    (hmode : params.mode ∈ [hdwNormal, hdwEd25519Slip10, hdwSlip21])
    (hcurve : params.curve ∈ [.secp256k1, .secp256r1, .ed25519]) (appIdx : UInt32)
    (happ : appIdx ≠ bolosAppIdx) :
    (hdkeyValidatePath (allowList mask entries) params appIdx = .success ↔
        checkPath (allowList mask entries) params.curve params.path true = .ok ()) ↔
      entries ≠ [] ∨
        mask &&& authBit params.mode params.curve = authBit params.mode params.curve := by
  by_cases hentries : entries = []
  · subst hentries
    have hlist : ¬ (allowList mask []).length > 1 := Nat.lt_irrefl 1
    simp only [hdkeyValidatePath_mask mask params happ, true_iff, ne_eq, not_true_eq_false,
      false_or]
    rw [checkPath_allowList mask [] hcurve params.path]
    by_cases hbit : mask &&& authBit params.mode params.curve = authBit params.mode params.curve
    · simp [hbit, hlist]
    · simp [hbit]
  · simp only [hdkeyValidatePath_entries mask hentries params hmode hcurve happ, true_iff]
    exact .inl hentries

/-- A list with one entry, which the path goes on behind. -/
theorem hdkeyValidatePath_agrees_entry :
    let path : Path hdwNormal := ⟨[0x2C, 0, 0, 0x80, 1, 0, 0, 0x80], 2, by decide⟩
    hdkeyValidatePath (allowList 0x01 [.bip32 [0x8000002C] (by decide)])
        ⟨hdwNormal, .secp256k1, path⟩ 0 = .success ↔
      checkPath (allowList 0x01 [.bip32 [0x8000002C] (by decide)]) .secp256k1 path true =
        .ok () := by
  intro path
  exact (hdkeyValidatePath_agrees_iff 0x01 _ ⟨hdwNormal, .secp256k1, path⟩ (by decide)
    (by decide) 0 (by decide)).mpr (.inl (List.cons_ne_nil _ _))

/-- A mask without any curve: `hdkey_validate_path` returns before it looks at it. -/
theorem hdkeyValidatePath_no_curve :
    let path : Path hdwNormal := ⟨[], 0, by decide⟩
    ¬ (hdkeyValidatePath (allowList 0 []) ⟨hdwNormal, .secp256k1, path⟩ 0 = .success ↔
      checkPath (allowList 0 []) .secp256k1 path true = .ok ()) := by
  intro path h
  have hthrows : checkPath (allowList 0 []) .secp256k1 path true = .error .parVal14 := rfl
  have haccepts : hdkeyValidatePath (allowList 0 []) ⟨hdwNormal, .secp256k1, path⟩ 0 = .success :=
    rfl
  have hok := h.mp haccepts
  rw [hthrows] at hok
  cases hok

end Speculos.Bip32
