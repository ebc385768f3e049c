import Speculos.Bip32.AllowList

/-!
# The check of `os_bip32.c`

`os_perso_derive_node_bip32_check_path` walks the entries of the list until one
is a prefix of the path.
-/

namespace Speculos.Bip32

open Lib

/-- What the check throws. -/
inductive Swo
  | parVal13
  | parVal14
  | parVal15
  deriving DecidableEq, Repr

/-- `pathValid` after the entry at `checkOffset` is compared. -/
def subPathValid (path : Path mode) (derivePath : Bytes) (checkOffset : Nat) : Bool :=
  let subPathLength := derivePath.getD checkOffset 0
  let slip21Marker := subPathLength &&& 0x80 != 0
  let slip21Request := mode == hdwSlip21
  let subPathLength := (subPathLength &&& 0x7F).toNat
  if path.length ≥ subPathLength then
    if slip21Marker != slip21Request then false
    -- compare path as bytes as slip21 path may be a string
    else if slip21Request then memEq path.bytes derivePath (checkOffset + 1) subPathLength
    else (List.range subPathLength).all fun i =>
      let allowedPrefix := u4be derivePath (checkOffset + 1 + 4 * i)
      path.index i == allowedPrefix || allowedPrefix == bip32WildcardValue
  else false

/-- The length of the entry at `checkOffset`. -/
def entrySize (derivePath : Bytes) (checkOffset : Nat) : Nat :=
  let subPathLength := derivePath.getD checkOffset 0
  1 + (if subPathLength &&& 0x80 != 0 then 1 else 4) * (subPathLength &&& 0x7F).toNat

/-- The loop of the check, which ends with `pathValid`. -/
def checkLoop (path : Path mode) (derivePath : Bytes) (checkOffset : Nat) : Bool :=
  if checkOffset < derivePath.length then
    if subPathValid path derivePath checkOffset then true
    else checkLoop path derivePath (checkOffset + entrySize derivePath checkOffset)
  else false
termination_by derivePath.length - checkOffset
decreasing_by
  rw [entrySize]
  omega

def curveMask (mode : UInt32) (curve : Curve) : Except Swo UInt8 :=
  if mode = hdwSlip21 then pure deriveAuthSlip21
  else
    match curve with
    | .secp256k1 => pure deriveAuth256k1
    | .secp256r1 => pure deriveAuth256r1
    | .ed25519 => pure deriveAuthEd25519
    | _ => throw .parVal13

/-- `os_perso_derive_node_bip32_check_path`, where `appDerivationPath` is what
`get_app_derivation_path` gives. -/
def checkPath (appDerivationPath : Bytes) (curve : Curve) (path : Path mode) (fromApp : Bool) :
    Except Swo Unit := do
  let derivePath := if fromApp then appDerivationPath else []
  -- No information specified, everything is valid
  if derivePath.length ≠ 0 then
    let curveMask ← curveMask mode curve
    if derivePath.getD 0 0 &&& curveMask ≠ curveMask then throw .parVal14
    -- if only the curve was specified, all paths are valid
    if derivePath.length > 1 ∧ ¬ checkLoop path derivePath 1 then throw .parVal15

-- ---------------------------------------------------------------------------
-- The walk over the entries
-- ---------------------------------------------------------------------------

theorem bip32_valid_iff {path : Path mode} {hlt : indices.length < 128}
    (h : EntryAt derivePath offset (.bip32 indices hlt)) (hle : indices.length ≤ path.length) :
    ((List.range indices.length).all fun i =>
      path.index i == u4be derivePath (offset + 1 + 4 * i) ||
        u4be derivePath (offset + 1 + 4 * i) == bip32WildcardValue) = true ↔
      ∃ start, start <+: path.indices ∧ List.Forall₂ Entry.Admits indices start := by
  rw [exists_prefix_forall₂_iff, List.all_eq_true]
  constructor
  · intro hall
    refine ⟨by rwa [Path.length_indices], fun i hi => ?_⟩
    have hvalid := hall i (List.mem_range.mpr hi)
    rw [h.u4be hi, Bool.or_eq_true, beq_iff_eq, beq_iff_eq] at hvalid
    rw [Path.getElem_indices]
    exact hvalid.symm
  · rintro ⟨_, hall⟩ i hi
    have hi := List.mem_range.mp hi
    have hvalid := hall i hi
    rw [Path.getElem_indices] at hvalid
    rw [h.u4be hi, Bool.or_eq_true, beq_iff_eq, beq_iff_eq]
    exact hvalid.symm

theorem subPathValid_iff {path : Path mode} (h : EntryAt derivePath offset e) :
    subPathValid path derivePath offset = true ↔ e.Allows path := by
  obtain ⟨hmarker, hlength⟩ := h.header
  simp only [subPathValid, hmarker, hlength]
  cases e with
  | bip32 indices hlt =>
    by_cases hmode : mode = hdwSlip21
    · simp [Entry.isSlip21, Entry.Allows, hmode]
    · by_cases hle : indices.length ≤ path.length
      · simp only [Entry.isSlip21, Entry.length, Entry.Allows, ← bip32_valid_iff h hle]
        simp [hmode, hle]
      · simp only [Entry.Allows, exists_prefix_forall₂_iff]
        simp [Entry.length, hle]
  | slip21 octets hlt =>
    by_cases hmode : mode = hdwSlip21
    · have hsize : path.bytes.length = path.length := by
        rw [path.size_eq, if_pos hmode, Nat.one_mul]
      by_cases hle : octets.length ≤ path.length
      · simp [Entry.isSlip21, Entry.length, Entry.Allows, hmode, hle, h.memEq_iff]
      · simp only [Entry.length, Entry.Allows, ge_iff_le, if_neg hle]
        simp only [Bool.false_eq_true, false_iff, not_and]
        intro _ hprefix
        exact hle (hsize ▸ hprefix.length_le)
    · simp [Entry.isSlip21, Entry.Allows, hmode]

theorem entrySize_eq (h : EntryAt derivePath offset e) :
    entrySize derivePath offset = e.encode.length := by
  obtain ⟨hmarker, hlength⟩ := h.header
  rw [e.length_encode]
  simp only [entrySize, hmarker, hlength]

theorem checkLoop_of_entryAt (path : Path mode) (h : EntryAt derivePath offset e) :
    checkLoop path derivePath offset =
      (subPathValid path derivePath offset ||
        checkLoop path derivePath (offset + e.encode.length)) := by
  have hsize := h.size_le
  rw [checkLoop, if_pos (by omega), entrySize_eq h]
  cases subPathValid path derivePath offset with
  | true => rfl
  | false => rfl

theorem checkLoop_iff (path : Path mode) (before : Bytes) (entries : List Entry) :
    checkLoop path (before ++ entries.flatMap Entry.encode) before.length = true ↔
      ∃ e ∈ entries, e.Allows path := by
  induction entries generalizing before with
  | nil =>
    rw [checkLoop]
    simp
  | cons e entries ih =>
    have hat : EntryAt (before ++ (e :: entries).flatMap Entry.encode) before.length e :=
      entryAt_cons before e entries
    have hrest := ih (before ++ e.encode)
    rw [List.length_append, List.append_assoc, ← List.flatMap_cons] at hrest
    rw [checkLoop_of_entryAt path hat, Bool.or_eq_true, subPathValid_iff hat, hrest]
    simp only [List.mem_cons, exists_eq_or_imp]

-- ---------------------------------------------------------------------------
-- What the check lets pass
-- ---------------------------------------------------------------------------

/-- The bit of the curve, or of SLIP-21. -/
def authBit (mode : UInt32) (curve : Curve) : UInt8 :=
  if mode = hdwSlip21 then deriveAuthSlip21
  else if curve = .secp256k1 then deriveAuth256k1
  else if curve = .secp256r1 then deriveAuth256r1
  else deriveAuthEd25519

theorem curveMask_eq (mode : UInt32) (hcurve : curve ∈ [.secp256k1, .secp256r1, .ed25519]) :
    curveMask mode curve = .ok (authBit mode curve) := by
  simp only [List.mem_cons, List.not_mem_nil, or_false] at hcurve
  by_cases hmode : mode = hdwSlip21
  · simp only [curveMask, authBit, if_pos hmode]
    rfl
  · simp only [curveMask, authBit, if_neg hmode]
    rcases hcurve with rfl | rfl | rfl
    · rfl
    · rfl
    · rfl

theorem allowList_length (mask : UInt8) (entries : List Entry) :
    (allowList mask entries).length > 1 ↔ entries ≠ [] := by
  cases entries with
  | nil => simp [allowList]
  | cons e entries =>
    have hlen := e.length_encode
    simp only [allowList, List.flatMap_cons, List.length_cons, List.length_append, ne_eq,
      reduceCtorEq, not_false_iff, iff_true]
    omega

theorem checkPath_allowList (mask : UInt8) (entries : List Entry)
    (hcurve : curve ∈ [.secp256k1, .secp256r1, .ed25519]) (path : Path mode) :
    checkPath (allowList mask entries) curve path true =
      if mask &&& authBit mode curve ≠ authBit mode curve then .error .parVal14
      else if (allowList mask entries).length > 1 ∧ ¬ checkLoop path (allowList mask entries) 1 then
        .error .parVal15
      else .ok () := by
  have hne : (allowList mask entries).length ≠ 0 := Nat.succ_ne_zero _
  have hmask : (allowList mask entries).getD 0 0 = mask := rfl
  simp only [checkPath, ↓reduceIte, if_pos hne, curveMask_eq mode hcurve, hmask]
  by_cases hbit : mask &&& authBit mode curve = authBit mode curve
  · simp only [bind, Except.bind, hbit, ne_eq, not_true_eq_false, if_false]
    split <;> rfl
  · simp only [bind, Except.bind, hbit, ne_eq, not_false_eq_true, if_true]
    rfl

/-- On every well-formed list the check passes exactly the paths that the list allows. -/
theorem checkPath_ok_iff (mask : UInt8) (entries : List Entry) (mode : UInt32) (curve : Curve)
    (hcurve : curve ∈ [.secp256k1, .secp256r1, .ed25519]) (path : Path mode) :
    checkPath (allowList mask entries) curve path true = .ok () ↔
      mask &&& authBit mode curve = authBit mode curve ∧
        (entries = [] ∨ ∃ e ∈ entries, e.Allows path) := by
  have hloop : checkLoop path (allowList mask entries) 1 = true ↔ ∃ e ∈ entries, e.Allows path :=
    checkLoop_iff path [mask] entries
  have hlist := allowList_length mask entries
  rw [checkPath_allowList mask entries hcurve path]
  split
  · rename_i hbit
    exact ⟨fun h => (nomatch h), fun h => absurd h.1 hbit⟩
  · rename_i hbit
    split
    · rename_i hnone
      refine ⟨fun h => (nomatch h), fun h => ?_⟩
      rcases h.2 with hentries | hallows
      · exact absurd hentries (hlist.mp hnone.1)
      · exact absurd (hloop.mpr hallows) hnone.2
    · rename_i hsome
      refine ⟨fun _ => ⟨not_not.mp hbit, ?_⟩, fun _ => rfl⟩
      by_contra hneither
      obtain ⟨hentries, hallows⟩ := not_or.mp hneither
      exact hsome ⟨hlist.mpr hentries, fun h => hallows (hloop.mp h)⟩

/-- `44'/0'` under an entry with a wildcard. -/
theorem checkPath_wildcard :
    let path : Path hdwNormal := ⟨[0x2C, 0, 0, 0x80, 0, 0, 0, 0x80], 2, by decide⟩
    checkPath (allowList 0x01 [.slip21 [0] (by decide),
      .bip32 [0x8000002C, 0x7fffffff] (by decide)]) .secp256k1 path true = .ok () := by
  intro path
  refine (checkPath_ok_iff 0x01 _ hdwNormal .secp256k1 (by decide) path).mpr ⟨by decide, .inr ?_⟩
  refine ⟨_, List.mem_cons_of_mem _ (List.mem_singleton_self _), by decide, path.indices,
    List.prefix_rfl, ?_⟩
  exact .cons (by decide) (.cons (by decide) .nil)

end Speculos.Bip32
