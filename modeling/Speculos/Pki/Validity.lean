import Mathlib.Data.Prod.Lex
import Speculos.Pki.Probes

/-!
# The validity of a certificate

The validity of a certificate is a version, which is to be no older than `VERSION`.
The code writes it with one character for each component and compares the texts. The
characters are bytes, so that a component from 208 on becomes one below the digits.
-/

namespace Speculos.Pki

open Lib

-- ---------------------------------------------------------------------------
-- Versions
-- ---------------------------------------------------------------------------

/-- Versions in the order of their components. -/
abbrev Version := Nat ×ₗ Nat ×ₗ Nat

def Version.mk (major minor patch : Nat) : Version := toLex (major, toLex (minor, patch))

def ofDigits (text : Bytes) : Nat := text.foldl (fun n c => 10 * n + (c.toNat - 0x30)) 0

def parseVersion (text : Bytes) : Option Version :=
  match (text.dropLast.splitOn 0x2e).map ofDigits with
  | [major, minor, patch] => some (.mk major minor patch)
  | _ => none

theorem parseVersion_version : parseVersion version = some (.mk 1 0 0) := by decide

theorem Version.lt_iff {a b c a' b' c' : Nat} :
    Version.mk a b c < Version.mk a' b' c' ↔ a < a' ∨ a = a' ∧ (b < b' ∨ b = b' ∧ c < c') := by
  simp [Version.mk, Prod.Lex.toLex_lt_toLex]

theorem Version.lt_version_iff {major minor patch : Nat} :
    (∃ v, parseVersion version = some v ∧ Version.mk major minor patch < v) ↔ major = 0 := by
  simp [parseVersion_version, Version.lt_iff]

-- ---------------------------------------------------------------------------
-- Characters
-- ---------------------------------------------------------------------------

theorem strncmpGt_cons {a b : UInt8} {as bs : Bytes} (ha : a ≠ 0) :
    strncmpGt (a :: as) (b :: bs) (n + 1) = true ↔
      b < a ∨ b = a ∧ strncmpGt as bs n = true := by
  by_cases hab : a = b
  · simp [strncmpGt, hab, hab ▸ ha, UInt8.lt_irrefl]
  · simp [strncmpGt, hab, Ne.symm hab]

theorem strncmpGt_zero (as bs : Bytes) : strncmpGt as bs 0 = false := by
  cases as <;> cases bs <;> rfl

theorem digit_lt_one (c : UInt8) : 0x30 + c < 0x31 ↔ c = 0 ∨ 208 ≤ c := by
  have h : ∀ c : BitVec 8, UInt8.ofBitVec (0x30 + c) < 0x31 ↔
      UInt8.ofBitVec c = 0 ∨ 208 ≤ UInt8.ofBitVec c := by
    decide
  exact h c.toBitVec

theorem digit_eq_one (c : UInt8) : 0x30 + c = 0x31 ↔ c = 1 := by
  constructor
  · intro h
    exact UInt8.add_right_inj 0x30 |>.mp h
  · rintro rfl
    rfl

theorem digit_lt_zero (c : UInt8) : 0x30 + c < 0x30 ↔ 208 ≤ c := by
  have h : ∀ c : BitVec 8, UInt8.ofBitVec (0x30 + c) < 0x30 ↔ 208 ≤ UInt8.ofBitVec c := by
    decide
  exact h c.toBitVec

theorem zero_lt_tens {c : UInt8} (h : 10 ≤ c) : 0x30 < 0x30 + c / 10 := by
  have hall : ∀ c : BitVec 8, 10 ≤ UInt8.ofBitVec c → 0x30 < 0x30 + UInt8.ofBitVec c / 10 := by
    decide
  exact hall c.toBitVec h

theorem validityTooOld_iff (major minor patch : UInt8) :
    validityTooOld major minor patch = true ↔
      (major = 0 ∨ 208 ≤ major) ∨ major = 1 ∧ 208 ≤ minor := by
  have hdot : ¬ (0x2e : UInt8) < 0x2e := by decide
  rw [validityTooOld, version]
  split
  · rename_i hpatch
    have htens := zero_lt_tens hpatch
    -- two characters, of which the first is above the patch of `VERSION`
    have hlt : ¬ 0x30 + patch / 10 < 0x30 := UInt8.not_lt.mpr (UInt8.le_of_lt htens)
    have hne : ¬ 0x30 + patch / 10 = 0x30 := (UInt8.ne_of_lt htens).symm
    simp [strncmpGt_cons, digit_lt_one, digit_eq_one, digit_lt_zero, hdot, hlt, hne]
  · rename_i hpatch
    have hlt : ¬ 208 ≤ patch := by
      intro hle
      exact hpatch (UInt8.le_trans (by decide) hle)
    simp [strncmpGt_cons, digit_lt_one, digit_eq_one, digit_lt_zero, hdot, hlt,
      strncmpGt_zero]

-- ---------------------------------------------------------------------------
-- The check
-- ---------------------------------------------------------------------------

/-- A validity field, with the length of the table. -/
structure IsValidity (value : Certificate) : Prop where
  tag : value 0 = 0x10
  length : value 1 = 4

def Certificate.validity (value : Certificate) : Version :=
  .mk (value 2).toNat (value 3).toNat (value 4).toNat

/-- `VERSION` is above the version of the field. -/
def IsTooOld (value : Certificate) : Prop :=
  ∃ v, parseVersion version = some v ∧ value.validity < v

/-- The characters of the first two components wrap around. -/
def Wraps (value : Certificate) : Prop :=
  208 ≤ (value 2).toNat ∨ (value 2).toNat = 1 ∧ 208 ≤ (value 3).toNat

variable {crypto : Crypto} {value : Certificate} {s : Loading}

theorem osPkiCheckValue_validity (h : IsValidity value) :
    (osPkiCheckValue crypto value s).1 ≠ swoOk ↔
      validityTooOld (value 2) (value 3) (value 4) = true := by
  rw [osPkiCheckValue, h.tag]
  simp only [CertificateTag.ofByte]
  rw [if_neg (by rw [h.length]; decide)]
  cases validityTooOld (value 2) (value 3) (value 4) <;> simp [swoOk]

/-- A validity field is rejected as one that is too old exactly if no character wraps
around. -/
theorem validity_rejected_iff (h : IsValidity value) :
    ((osPkiCheckValue crypto value s).1 ≠ swoOk ↔ IsTooOld value) ↔ ¬ Wraps value := by
  have hzero : (value 2).toNat = 0 ↔ value 2 = 0 := by
    simp [← UInt8.toNat_inj]
  have hwraps : Wraps value ↔ 208 ≤ value 2 ∨ value 2 = 1 ∧ 208 ≤ value 3 := by
    simp [Wraps, UInt8.le_iff_toNat_le, ← UInt8.toNat_inj]
  have hone : value 2 = 1 → value 2 ≠ 0 := by
    rintro h1 h0
    exact absurd (h1.symm.trans h0) (by decide)
  have hlarge : 208 ≤ value 2 → value 2 ≠ 0 := by
    rintro hle h0
    exact absurd (h0 ▸ hle) (by decide)
  rw [osPkiCheckValue_validity h, validityTooOld_iff, IsTooOld, Certificate.validity,
    Version.lt_version_iff, hzero, hwraps]
  tauto

def validityField (major minor patch : UInt8) : Certificate := fun i =>
  [0x10, 4, major, minor, patch].getD i 0

theorem isValidity_validityField (major minor patch : UInt8) :
    IsValidity (validityField major minor patch) := ⟨rfl, rfl⟩

theorem validity_rejected_twoDigits :
    (osPkiCheckValue (probeCrypto [] fun _ _ => true) (validityField 1 10 100) ⟨.zero, .zero⟩).1 ≠
      swoOk ↔ IsTooOld (validityField 1 10 100) :=
  (validity_rejected_iff (isValidity_validityField 1 10 100)).mpr (by unfold Wraps; decide)

/-- The version 1.208.0 is rejected. -/
theorem validity_rejected_wrapped :
    IsValidity (validityField 1 208 0) ∧ ¬ IsTooOld (validityField 1 208 0) ∧
      (osPkiCheckValue (probeCrypto [] fun _ _ => true) (validityField 1 208 0)
        ⟨.zero, .zero⟩).1 = 0x4231 := by
  refine ⟨isValidity_validityField .., ?_, rfl⟩
  rw [IsTooOld, Certificate.validity, Version.lt_version_iff]
  decide

end Speculos.Pki
