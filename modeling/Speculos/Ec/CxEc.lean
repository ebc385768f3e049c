import Speculos.Ec.Domain

/-!
# The curves of cx_ec.c

`cx_ec.c` and `cx_ed25519.c` have the numbers of an older SDK, and a table of their own: the curves
of BrainPool, those of BLS and Ed25519 have other numbers than in `cx_ec_domain.c`.
-/

namespace Speculos.Ec.CxEc

open Lib

/-- How a call does not return: by `THROW(INVALID_PARAMETER)`, or `errx` ends the emulator. -/
inductive Stop
  | thrown
  | ends
  deriving DecidableEq, Repr

-- ---------------------------------------------------------------------------
-- Numbers of curves
-- ---------------------------------------------------------------------------

namespace Curve

def secp256k1 : CxCurve := 0x21
def secp256r1 : CxCurve := 0x22
def secp384r1 : CxCurve := 0x23
def brainPoolP256T1 : CxCurve := 0x25
def brainPoolP256R1 : CxCurve := 0x26
def brainPoolP320T1 : CxCurve := 0x27
def brainPoolP320R1 : CxCurve := 0x28
def brainPoolP384T1 : CxCurve := 0x29
def brainPoolP384R1 : CxCurve := 0x2a
def brainPoolP512T1 : CxCurve := 0x2b
def brainPoolP512R1 : CxCurve := 0x2c
def bls12N381G1 : CxCurve := 0x2f
def ed25519 : CxCurve := 0x41

end Curve

-- ---------------------------------------------------------------------------
-- Domains
-- ---------------------------------------------------------------------------

/-- `cx_curve_domain_t`, where `n` is a number of `length` bytes. -/
structure Domain where
  curve : CxCurve
  length : UInt32
  n : Nat
  deriving DecidableEq, Repr

def secp256k1 : Domain where
  curve := Curve.secp256k1
  length := 32
  n := 0xfffffffffffffffffffffffffffffffebaaedce6af48a03bbfd25e8cd0364141

def secp256r1 : Domain where
  curve := Curve.secp256r1
  length := 32
  n := 0xffffffff00000000ffffffffffffffffbce6faada7179e84f3b9cac2fc632551

def secp384r1 : Domain where
  curve := Curve.secp384r1
  length := 48
  n :=
    0xffffffffffffffffffffffffffffffffffffffffffffffffc7634d81f4372ddf581a0db248b0a77aecec196accc52973

def ed25519 : Domain where
  curve := Curve.ed25519
  length := 32
  n := 0x1000000000000000000000000000000014def9dea2f79cd65812631a5cf5d3ed

def bls12N381G1 : Domain where
  curve := Curve.bls12N381G1
  length := 48
  n := 0x73eda753299d7d483339d80809a1d80553bda402fffe5bfeffffffff00000001

def brainpoolP256r1 : Domain where
  curve := Curve.brainPoolP256R1
  length := 32
  n := 0xa9fb57dba1eea9bc3e660a909d838d718c397aa3b561a6f7901e0e82974856a7

def brainpoolP256t1 : Domain where
  curve := Curve.brainPoolP256T1
  length := 32
  n := 0xa9fb57dba1eea9bc3e660a909d838d718c397aa3b561a6f7901e0e82974856a7

def brainpoolP320r1 : Domain where
  curve := Curve.brainPoolP320R1
  length := 40
  n := 0xd35e472036bc4fb7e13c785ed201e065f98fcfa5b68f12a32d482ec7ee8658e98691555b44c59311

def brainpoolP320t1 : Domain where
  curve := Curve.brainPoolP320T1
  length := 40
  n := 0xd35e472036bc4fb7e13c785ed201e065f98fcfa5b68f12a32d482ec7ee8658e98691555b44c59311

def brainpoolP384r1 : Domain where
  curve := Curve.brainPoolP384R1
  length := 48
  n :=
    0x8cb91e82a3386d280f5d6f7e50e641df152f7109ed5456b31f166e6cac0425a7cf3ab6af6b7fc3103b883202e9046565

def brainpoolP384t1 : Domain where
  curve := Curve.brainPoolP384T1
  length := 48
  n :=
    0x8cb91e82a3386d280f5d6f7e50e641df152f7109ed5456b31f166e6cac0425a7cf3ab6af6b7fc3103b883202e9046565

def brainpoolP512r1 : Domain where
  curve := Curve.brainPoolP512R1
  length := 64
  n :=
    0xaadd9db8dbe9c48b3fd4e6ae33c9fc07cb308db3b3c9d20ed6639cca70330870553e5c414ca92619418661197fac10471db1d381085ddaddb58796829ca90069

def brainpoolP512t1 : Domain where
  curve := Curve.brainPoolP512T1
  length := 64
  n :=
    0xaadd9db8dbe9c48b3fd4e6ae33c9fc07cb308db3b3c9d20ed6639cca70330870553e5c414ca92619418661197fac10471db1d381085ddaddb58796829ca90069

def cxAllCurves : List Domain :=
  [secp256k1, secp256r1, secp384r1, ed25519, bls12N381G1, brainpoolP256r1, brainpoolP256t1,
    brainpoolP320r1, brainpoolP320t1, brainpoolP384r1, brainpoolP384t1, brainpoolP512r1,
    brainpoolP512t1]

/-- `cx_ecfp_get_domain`, which throws where it finds no curve. -/
def cxEcfpGetDomain (curve : CxCurve) : Except Stop Domain :=
  match cxAllCurves.find? fun domain => domain.curve = curve with
  | none => .error .thrown
  | some domain => .ok domain

/-- `nid_from_curve` knows the curve. For the others `errx` ends the emulator. -/
def hasNidToSign (curve : CxCurve) : Bool :=
  [Curve.secp256k1, Curve.secp256r1, Curve.secp384r1, Curve.brainPoolP256R1, Curve.brainPoolP256T1,
    Curve.brainPoolP320R1, Curve.brainPoolP320T1, Curve.brainPoolP384R1, Curve.brainPoolP384T1,
    Curve.brainPoolP512R1, Curve.brainPoolP512T1].contains curve

def orderToSign (curve : CxCurve) : Nat :=
  match cxEcfpGetDomain curve with
  | .error _ => 0
  | .ok domain => domain.n

theorem cxEcfpGetDomain_ok (h : cxEcfpGetDomain curve = .ok domain) :
    domain ∈ cxAllCurves ∧ domain.curve = curve := by
  rw [cxEcfpGetDomain] at h
  split at h
  · cases h
  · rename_i hfound
    cases h
    exact ⟨List.mem_of_find?_eq_some hfound, by simpa using List.find?_some hfound⟩

theorem domain_bounds (h : domain ∈ cxAllCurves) :
    0 < domain.n ∧ domain.n < 256 ^ domain.length.toNat ∧ ¬ domain.length ≥ 66 := by
  have hall : ∀ domain ∈ cxAllCurves,
      0 < domain.n ∧ domain.n < 256 ^ domain.length.toNat ∧ ¬ domain.length ≥ 66 := by
    decide
  exact hall domain h

theorem domain_of_hasNid (h : hasNidToSign curve = true) :
    ∃ domain, cxEcfpGetDomain curve = .ok domain := by
  have hall : [Curve.secp256k1, Curve.secp256r1, Curve.secp384r1, Curve.brainPoolP256R1,
      Curve.brainPoolP256T1, Curve.brainPoolP320R1, Curve.brainPoolP320T1, Curve.brainPoolP384R1,
      Curve.brainPoolP384T1, Curve.brainPoolP512R1, Curve.brainPoolP512T1].all
      (fun curve => (cxEcfpGetDomain curve).isOk) = true := by
    decide
  have hok := List.all_eq_true.mp hall curve (List.contains_iff_mem.mp h)
  cases hdomain : cxEcfpGetDomain curve with
  | error stop => rw [hdomain] at hok; cases hok
  | ok domain => exact ⟨domain, rfl⟩

end Speculos.Ec.CxEc
