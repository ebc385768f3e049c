import Speculos.Lib.Octets

/-!
# Curve domains

The curves of `cx_ec_domain.c`, as far as the point operations read them: a curve is found by
its number, which also tells what kind of curve it is.
-/

namespace Speculos.Ec

open Lib

-- ---------------------------------------------------------------------------
-- Numbers of curves
-- ---------------------------------------------------------------------------

/-- `cx_curve_t`: an application may pass any number. -/
abbrev CxCurve := UInt32

namespace CxCurve

def secp256k1 : CxCurve := 0x21
def secp256r1 : CxCurve := 0x22
def secp384r1 : CxCurve := 0x23
def secp521r1 : CxCurve := 0x24
def brainpoolP256t1 : CxCurve := 0x31
def brainpoolP256r1 : CxCurve := 0x32
def brainpoolP320t1 : CxCurve := 0x33
def brainpoolP320r1 : CxCurve := 0x34
def brainpoolP384t1 : CxCurve := 0x35
def brainpoolP384r1 : CxCurve := 0x36
def brainpoolP512t1 : CxCurve := 0x37
def brainpoolP512r1 : CxCurve := 0x38
def bls12N381G1 : CxCurve := 0x39
def stark256 : CxCurve := 0x51
def bls12N377G1 : CxCurve := 0x52
def pallas : CxCurve := 0x53
def vesta : CxCurve := 0x54
def ed25519 : CxCurve := 0x71
def ed448 : CxCurve := 0x72
def edBLS12 : CxCurve := 0x73
def jubjub : CxCurve := 0x74
def curve25519 : CxCurve := 0x81
def curve448 : CxCurve := 0x82

end CxCurve

/-- `CX_CURVE_RANGE(c, WEIERSTRASS)` -/
def isWeierstrass (curve : CxCurve) : Bool := curve > 0x20 && curve < 0x6f

/-- `CX_CURVE_RANGE(c, TWISTED_EDWARDS)` -/
def isTwistedEdwards (curve : CxCurve) : Bool := curve > 0x70 && curve < 0x7f

/-- `CX_CURVE_RANGE(c, MONTGOMERY)` -/
def isMontgomery (curve : CxCurve) : Bool := curve > 0x80 && curve < 0x8f

-- ---------------------------------------------------------------------------
-- Domains
-- ---------------------------------------------------------------------------

/-- `cx_curve_domain_t`, where `a`, `b` and `p` are the numbers of `length` bytes. -/
structure CxCurveDomain where
  curve : CxCurve
  bitSize : UInt32
  length : UInt32
  a : Nat
  b : Nat
  p : Nat
  deriving DecidableEq, Repr

def CxCurveDomain.bytes (domain : CxCurveDomain) (n : Nat) : Bytes := toBE domain.length.toNat n

def secp256k1 : CxCurveDomain where
  curve := CxCurve.secp256k1
  bitSize := 256
  length := 32
  a := 0
  b := 7
  p := 0xfffffffffffffffffffffffffffffffffffffffffffffffffffffffefffffc2f

def secp256r1 : CxCurveDomain where
  curve := CxCurve.secp256r1
  bitSize := 256
  length := 32
  a := 0xffffffff00000001000000000000000000000000fffffffffffffffffffffffc
  b := 0x5ac635d8aa3a93e7b3ebbd55769886bc651d06b0cc53b0f63bce3c3e27d2604b
  p := 0xffffffff00000001000000000000000000000000ffffffffffffffffffffffff

def secp384r1 : CxCurveDomain where
  curve := CxCurve.secp384r1
  bitSize := 384
  length := 48
  a :=
    0xfffffffffffffffffffffffffffffffffffffffffffffffffffffffffffffffeffffffff0000000000000000fffffffc
  b :=
    0xb3312fa7e23ee7e4988e056be3f82d19181d9c6efe8141120314088f5013875ac656398d8a2ed19d2a85c8edd3ec2aef
  p :=
    0xfffffffffffffffffffffffffffffffffffffffffffffffffffffffffffffffeffffffff0000000000000000ffffffff

def secp521r1 : CxCurveDomain where
  curve := CxCurve.secp521r1
  bitSize := 521
  length := 66
  a :=
    0x1fffffffffffffffffffffffffffffffffffffffffffffffffffffffffffffffffffffffffffffffffffffffffffffffffffffffffffffffffffffffffffffffffc
  b :=
    0x51953eb9618e1c9a1f929a21a0b68540eea2da725b99b315f3b8b489918ef109e156193951ec7e937b1652c0bd3bb1bf073573df883d2c34f1ef451fd46b503f00
  p :=
    0x1ffffffffffffffffffffffffffffffffffffffffffffffffffffffffffffffffffffffffffffffffffffffffffffffffffffffffffffffffffffffffffffffffff

def brainpoolP256r1 : CxCurveDomain where
  curve := CxCurve.brainpoolP256r1
  bitSize := 256
  length := 32
  a := 0x7d5a0975fc2c3057eef67530417affe7fb8055c126dc5c6ce94a4b44f330b5d9
  b := 0x26dc5c6ce94a4b44f330b5d9bbd77cbf958416295cf7e1ce6bccdc18ff8c07b6
  p := 0xa9fb57dba1eea9bc3e660a909d838d726e3bf623d52620282013481d1f6e5377

def brainpoolP256t1 : CxCurveDomain where
  curve := CxCurve.brainpoolP256t1
  bitSize := 256
  length := 32
  a := 0xa9fb57dba1eea9bc3e660a909d838d726e3bf623d52620282013481d1f6e5374
  b := 0x662c61c430d84ea4fe66a7733d0b76b7bf93ebc4af2f49256ae58101fee92b04
  p := 0xa9fb57dba1eea9bc3e660a909d838d726e3bf623d52620282013481d1f6e5377

def brainpoolP320r1 : CxCurveDomain where
  curve := CxCurve.brainpoolP320r1
  bitSize := 320
  length := 40
  a := 0x3ee30b568fbab0f883ccebd46d3f3bb8a2a73513f5eb79da66190eb085ffa9f492f375a97d860eb4
  b := 0x520883949dfdbc42d3ad198640688a6fe13f41349554b49acc31dccd884539816f5eb4ac8fb1f1a6
  p := 0xd35e472036bc4fb7e13c785ed201e065f98fcfa6f6f40def4f92b9ec7893ec28fcd412b1f1b32e27

def brainpoolP320t1 : CxCurveDomain where
  curve := CxCurve.brainpoolP320t1
  bitSize := 320
  length := 40
  a := 0xd35e472036bc4fb7e13c785ed201e065f98fcfa6f6f40def4f92b9ec7893ec28fcd412b1f1b32e24
  b := 0xa7f561e038eb1ed560b3d147db782013064c19f27ed27c6780aaf77fb8a547ceb5b4fef422340353
  p := 0xd35e472036bc4fb7e13c785ed201e065f98fcfa6f6f40def4f92b9ec7893ec28fcd412b1f1b32e27

def brainpoolP384r1 : CxCurveDomain where
  curve := CxCurve.brainpoolP384r1
  bitSize := 384
  length := 48
  a :=
    0x7bc382c63d8c150c3c72080ace05afa0c2bea28e4fb22787139165efba91f90f8aa5814a503ad4eb04a8c7dd22ce2826
  b :=
    0x4a8c7dd22ce28268b39b55416f0447c2fb77de107dcd2a62e880ea53eeb62d57cb4390295dbc9943ab78696fa504c11
  p :=
    0x8cb91e82a3386d280f5d6f7e50e641df152f7109ed5456b412b1da197fb71123acd3a729901d1a71874700133107ec53

def brainpoolP384t1 : CxCurveDomain where
  curve := CxCurve.brainpoolP384t1
  bitSize := 384
  length := 48
  a :=
    0x8cb91e82a3386d280f5d6f7e50e641df152f7109ed5456b412b1da197fb71123acd3a729901d1a71874700133107ec50
  b :=
    0x7f519eada7bda81bd826dba647910f8c4b9346ed8ccdc64e4b1abd11756dce1d2074aa263b88805ced70355a33b471ee
  p :=
    0x8cb91e82a3386d280f5d6f7e50e641df152f7109ed5456b412b1da197fb71123acd3a729901d1a71874700133107ec53

def brainpoolP512r1 : CxCurveDomain where
  curve := CxCurve.brainpoolP512r1
  bitSize := 512
  length := 64
  a :=
    0x7830a3318b603b89e2327145ac234cc594cbdd8d3df91610a83441caea9863bc2ded5d5aa8253aa10a2ef1c98b9ac8b57f1117a72bf2c7b9e7c1ac4d77fc94ca
  b :=
    0x3df91610a83441caea9863bc2ded5d5aa8253aa10a2ef1c98b9ac8b57f1117a72bf2c7b9e7c1ac4d77fc94cadc083e67984050b75ebae5dd2809bd638016f723
  p :=
    0xaadd9db8dbe9c48b3fd4e6ae33c9fc07cb308db3b3c9d20ed6639cca703308717d4d9b009bc66842aecda12ae6a380e62881ff2f2d82c68528aa6056583a48f3

def brainpoolP512t1 : CxCurveDomain where
  curve := CxCurve.brainpoolP512t1
  bitSize := 512
  length := 64
  a :=
    0xaadd9db8dbe9c48b3fd4e6ae33c9fc07cb308db3b3c9d20ed6639cca703308717d4d9b009bc66842aecda12ae6a380e62881ff2f2d82c68528aa6056583a48f0
  b :=
    0x7cbbbcf9441cfab76e1890e46884eae321f70c0bcb4981527897504bec3e36a62bcdfa2304976540f6450085f2dae145c22553b465763689180ea2571867423e
  p :=
    0xaadd9db8dbe9c48b3fd4e6ae33c9fc07cb308db3b3c9d20ed6639cca703308717d4d9b009bc66842aecda12ae6a380e62881ff2f2d82c68528aa6056583a48f3

def stark256 : CxCurveDomain where
  curve := CxCurve.stark256
  bitSize := 252
  length := 32
  a := 1
  b := 0x6f21413efbe40de150e596d72f7a8c5609ad26c15c915c1f4cdfcb99cee9e89
  p := 0x800000000000011000000000000000000000000000000000000000000000001

def bls12N381G1 : CxCurveDomain where
  curve := CxCurve.bls12N381G1
  bitSize := 381
  length := 48
  a := 0
  b := 4
  p :=
    0x1a0111ea397fe69a4b1ba7b6434bacd764774b84f38512bf6730d2a0f6b0f6241eabfffeb153ffffb9feffffffffaaab

def bls12N377G1 : CxCurveDomain where
  curve := CxCurve.bls12N377G1
  bitSize := 377
  length := 48
  a := 0
  b := 1
  p :=
    0x1ae3a4617c510eac63b05c06ca1493b1a22d9f300f5138f1ef3622fba094800170b5d44300000008508c00000000001

def pallas : CxCurveDomain where
  curve := CxCurve.pallas
  bitSize := 255
  length := 32
  a := 0
  b := 5
  p := 0x40000000000000000000000000000000224698fc094cf91b992d30ed00000001

def vesta : CxCurveDomain where
  curve := CxCurve.vesta
  bitSize := 255
  length := 32
  a := 0
  b := 5
  p := 0x40000000000000000000000000000000224698fc0994a8dd8c46eb2100000001

def ed25519 : CxCurveDomain where
  curve := CxCurve.ed25519
  bitSize := 256
  length := 32
  a := 0x7fffffffffffffffffffffffffffffffffffffffffffffffffffffffffffffec
  b := 0x52036cee2b6ffe738cc740797779e89800700a4d4141d8ab75eb4dca135978a3
  p := 0x7fffffffffffffffffffffffffffffffffffffffffffffffffffffffffffffed

def ed448 : CxCurveDomain where
  curve := CxCurve.ed448
  bitSize := 448
  length := 57
  a := 1
  b :=
    0xfffffffffffffffffffffffffffffffffffffffffffffffffffffffeffffffffffffffffffffffffffffffffffffffffffffffffffff6756
  p :=
    0xfffffffffffffffffffffffffffffffffffffffffffffffffffffffeffffffffffffffffffffffffffffffffffffffffffffffffffffffff

def edBLS12 : CxCurveDomain where
  curve := CxCurve.edBLS12
  bitSize := 256
  length := 32
  a := 0x12ab655e9a2ca55660b44d1e5c37b00159aa76fed00000010a11800000000000
  b := 0xbcd
  p := 0x12ab655e9a2ca55660b44d1e5c37b00159aa76fed00000010a11800000000001

def jubjub : CxCurveDomain where
  curve := CxCurve.jubjub
  bitSize := 256
  length := 32
  a := 0x73eda753299d7d483339d80809a1d80553bda402fffe5bfeffffffff00000000
  b := 0x2a9318e74bfa2b48f5fd9207e6bd7fd4292d7f6d37579d2601065fd6d6343eb1
  p := 0x73eda753299d7d483339d80809a1d80553bda402fffe5bfeffffffff00000001

def curve25519 : CxCurveDomain where
  curve := CxCurve.curve25519
  bitSize := 256
  length := 32
  a := 0x76d06
  b := 1
  p := 0x7fffffffffffffffffffffffffffffffffffffffffffffffffffffffffffffed

def curve448 : CxCurveDomain where
  curve := CxCurve.curve448
  bitSize := 448
  length := 56
  a := 0x262a6
  b := 1
  p :=
    0xfffffffffffffffffffffffffffffffffffffffffffffffffffffffeffffffffffffffffffffffffffffffffffffffffffffffffffffffff

def cxAllCurves : List CxCurveDomain :=
  [secp256k1, secp256r1, secp384r1, secp521r1, brainpoolP256r1, brainpoolP256t1,
    brainpoolP320r1, brainpoolP320t1, brainpoolP384r1, brainpoolP384t1, brainpoolP512r1,
    brainpoolP512t1, stark256, bls12N381G1, bls12N377G1, pallas, vesta, ed25519, ed448,
    edBLS12, jubjub, curve25519, curve448]

def cxEcdomain (curve : CxCurve) : Option CxCurveDomain :=
  cxAllCurves.find? fun domain => domain.curve = curve

theorem curve_of_cxEcdomain (h : cxEcdomain curve = some domain) : domain.curve = curve := by
  simpa using List.find?_some h

end Speculos.Ec
