import Mathlib.Data.Nat.Bitwise
import Speculos.Bip32.AllowList
import Speculos.Bip32.CxMath
import Speculos.Bip32.Standard

/-!
# Derivation over secp256k1 and secp256r1

`expand_seed` and `hdw_bip32` of `os_bip32.c`. The arrays of the functions are
memory: they start with whatever they held, and `tmp` is the input and the
output of the hash, in every turn of the retry loop and for every index of the
path. The number of turns that a loop may take is an argument, and `none` where
it is not enough.

`expand_seed_ed25519_bip32` and `hdw_bip32_ed25519` of `os_bip32.c`. Keys are
little-endian and turned round for every multiplication and addition. The old
key is exchanged with the new one in `tmp`, where the second hash finds it.
-/

namespace Speculos.Bip32

open Lib

/-- The functions that the derivation is defined over. -/
structure Crypto where
  hmacSha512 : Bytes → Bytes → Bytes
  hmacSha256 : Bytes → Bytes → Bytes
  /-- The coordinates of a multiple of the base point of a Weierstrass curve. -/
  multiply : Curve → Nat → Nat × Nat
  /-- The compressed form of a multiple of the base point of Ed25519. -/
  edwardsPoint : Bytes → Bytes
  length_hmacSha512 : ∀ key data, (hmacSha512 key data).length = 64
  length_hmacSha256 : ∀ key data, (hmacSha256 key data).length = 32
  length_edwardsPoint : ∀ k, (edwardsPoint k).length = 32

structure ExtendedPrivateKey where
  privateKey : Region
  chainCode : Region

/-- `domain->n` of the two curves. -/
def domainN : Curve → Bytes
  | .secp256k1 =>
    [0xff, 0xff, 0xff, 0xff, 0xff, 0xff, 0xff, 0xff, 0xff, 0xff, 0xff, 0xff, 0xff, 0xff, 0xff, 0xfe,
     0xba, 0xae, 0xdc, 0xe6, 0xaf, 0x48, 0xa0, 0x3b, 0xbf, 0xd2, 0x5e, 0x8c, 0xd0, 0x36, 0x41, 0x41]
  | .secp256r1 =>
    [0xff, 0xff, 0xff, 0xff, 0x00, 0x00, 0x00, 0x00, 0xff, 0xff, 0xff, 0xff, 0xff, 0xff, 0xff, 0xff,
     0xbc, 0xe6, 0xfa, 0xad, 0xa7, 0x17, 0x9e, 0x84, 0xf3, 0xb9, 0xca, 0xc2, 0xfc, 0x63, 0x25, 0x51]
  | _ => []

/-- `BIP32_SECP_SEED`, the seed key of secp256k1. -/
def bip32SecpSeed : Bytes :=
  [0x42, 0x69, 0x74, 0x63, 0x6f, 0x69, 0x6e, 0x20, 0x73, 0x65, 0x65, 0x64]

def isHardenedChild (child : UInt32) : Bool := child &&& 0x80000000 != 0

/-- `memcpy(key->private_key, hash, 32); memcpy(key->chain_code, hash + 32, 32);` -/
def ExtendedPrivateKey.load (key : ExtendedPrivateKey) (hash : Region) : ExtendedPrivateKey where
  privateKey := key.privateKey.memcpy 0 (hash.slice 0 32) 32
  chainCode := key.chainCode.memcpy 0 (hash.slice 32 32) 32

-- ---------------------------------------------------------------------------
-- The master key
-- ---------------------------------------------------------------------------

/-- The loop of `expand_seed`, which ensures that the master key is valid. -/
def expandLoop (crypto : Crypto) (curve : Curve) (sk : Bytes) :
    Nat → ExtendedPrivateKey → Region → Option ExtendedPrivateKey
  | 0, _, _ => none
  | fuel + 1, key, hash =>
    if cxMathIsZero (key.privateKey.slice 0 32) ≠ 0 ∨
        cxMathCmp (key.privateKey.slice 0 32) (domainN curve) ≥ 0 then
      let hash := hash.memcpy 0 (key.privateKey.slice 0 32) 32
      let hash := hash.memcpy 32 (key.chainCode.slice 0 32) 32
      let hash := hash.memcpy 0 (crypto.hmacSha512 sk (hash.slice 0 64)) 64
      expandLoop crypto curve sk fuel (key.load hash) hash
    else some key

def expandSeed (crypto : Crypto) (curve : Curve) (sk seed : Bytes) (key : ExtendedPrivateKey)
    (hash : Region) (fuel : Nat) : Option ExtendedPrivateKey :=
  let hash := hash.memcpy 0 (crypto.hmacSha512 sk seed) 64
  expandLoop crypto curve sk fuel (key.load hash) hash

-- ---------------------------------------------------------------------------
-- A child key
-- ---------------------------------------------------------------------------

/-- `pub.W` after `cx_ecfp_generate_pair` with the private key kept. -/
def ecfpGeneratePair (crypto : Crypto) (curve : Curve) (d : Bytes) : Bytes :=
  let (x, y) := crypto.multiply curve (fromBE d)
  0x04 :: toBE 32 x ++ toBE 32 y

/-- The first 33 bytes of `tmp`. -/
def loadParent (crypto : Crypto) (curve : Curve) (key : ExtendedPrivateKey) (index : UInt32)
    (tmp : Region) : Region :=
  if isHardenedChild index then (tmp.store 0 0).memcpy 1 (key.privateKey.slice 0 32) 32
  else
    let w := ecfpGeneratePair crypto curve (key.privateKey.slice 0 32)
    tmp.memcpy 0 (w.set 0 (if w.getD 64 0 &&& 1 ≠ 0 then 0x03 else 0x02)) 33

/-- The assignments to `tmp[33]` up to `tmp[36]`. -/
def loadIndex (tmp : Region) (index : UInt32) : Region :=
  tmp.memcpy 33
    [(index >>> 24).toUInt8, (index >>> 16).toUInt8, (index >>> 8).toUInt8, index.toUInt8] 4

/-- The end of a turn that gave no key. -/
def loadRetry (tmp : Region) : Region :=
  let tmp := tmp.store 0 1
  tmp.memcpy 1 (tmp.slice 32 32) 32

/-- The `while (true)` of `hdw_bip32`. -/
def childLoop (crypto : Crypto) (n : Bytes) (key : ExtendedPrivateKey) (index : UInt32) :
    Nat → Region → Option Region
  | 0, _ => none
  | fuel + 1, tmp =>
    let tmp := loadIndex tmp index
    let tmp := tmp.memcpy 0 (crypto.hmacSha512 (key.chainCode.slice 0 32) (tmp.slice 0 37)) 64
    if cxMathCmp (tmp.slice 0 32) n < 0 then
      let tmp := tmp.memcpy 0
        (cxMathAddm (tmp.slice 0 32) (tmp.slice 0 32) (key.privateKey.slice 0 32) n 32) 32
      if cxMathIsZero (tmp.slice 0 32) = 0 then some tmp
      else childLoop crypto n key index fuel (loadRetry tmp)
    else childLoop crypto n key index fuel (loadRetry tmp)

def hdwBip32Step (crypto : Crypto) (curve : Curve) (fuel : Nat) (s : ExtendedPrivateKey × Region)
    (index : UInt32) : Option (ExtendedPrivateKey × Region) := do
  let tmp ← childLoop crypto (domainN curve) s.1 index fuel
    (loadParent crypto curve s.1 index s.2)
  return (s.1.load tmp, tmp)

/-- What `hdw_bip32` returns: -1, or 0 with the bytes of `private_key` and `chain`. -/
inductive HdwResult
  | failed
  | derived (privateKey chain : Bytes)
  deriving DecidableEq, Repr

def hdwBip32 (crypto : Crypto) (key : ExtendedPrivateKey) (curve : Curve) (path : List UInt32)
    (tmp : Region) (fuel : Nat) : Option HdwResult :=
  if curve ≠ .secp256k1 ∧ curve ≠ .secp256r1 then some .failed
  else do
    let s ← path.foldlM (hdwBip32Step crypto curve fuel) (key, tmp)
    return .derived (s.1.privateKey.slice 0 32) (s.1.chainCode.slice 0 32)

-- ---------------------------------------------------------------------------
-- The order of the group
-- ---------------------------------------------------------------------------

theorem length_domainN (h : curve ∈ [.secp256k1, .secp256r1]) : (domainN curve).length = 32 := by
  simp only [List.mem_cons, List.not_mem_nil, or_false] at h
  rcases h with rfl | rfl
  · rfl
  · rfl

theorem domainN_pos (h : curve ∈ [.secp256k1, .secp256r1]) : 0 < fromBE (domainN curve) := by
  simp only [List.mem_cons, List.not_mem_nil, or_false] at h
  rcases h with rfl | rfl
  · decide
  · decide

theorem isHardenedChild_iff (i : UInt32) : isHardenedChild i = true ↔ Standard.Hardened i := by
  have hlt := i.toNat_lt
  have hand : (i &&& 0x80000000).toNat = (i.toNat / 2 ^ 31 % 2) * 2 ^ 31 := by
    rw [UInt32.toNat_and, show (0x80000000 : UInt32).toNat = 2 ^ 31 from rfl, Nat.and_two_pow,
      Nat.testBit_eq_decide_div_mod_eq]
    rcases Nat.mod_two_eq_zero_or_one (i.toNat / 2 ^ 31) with h | h
    · rw [h]
      rfl
    · rw [h]
      rfl
  rw [isHardenedChild, Standard.Hardened, bne_iff_ne, ne_eq, ← UInt32.toNat_inj, hand,
    UInt32.toNat_zero]
  omega

theorem index_bytes (i : UInt32) :
    [(i >>> 24).toUInt8, (i >>> 16).toUInt8, (i >>> 8).toUInt8, i.toUInt8] = Standard.ser32 i := by
  simp only [Standard.ser32, toBE, List.nil_append, List.cons_append, List.cons.injEq, and_true]
  refine ⟨?_, ?_, ?_, ?_⟩
  all_goals
    apply UInt8.toNat_inj.mp
    simp [Nat.shiftRight_eq_div_pow, Nat.div_div_eq_div_mul]

-- ---------------------------------------------------------------------------
-- The buffers
-- ---------------------------------------------------------------------------

def ExtendedPrivateKey.node (key : ExtendedPrivateKey) : Standard.Node where
  k := fromBE (key.privateKey.slice 0 32)
  c := key.chainCode.slice 0 32

theorem slice_privateKey (key : ExtendedPrivateKey) :
    key.privateKey.slice 0 32 = Standard.ser256 key.node.k := by
  have h := toBE_fromBE (key.privateKey.slice 0 32)
  rw [Region.length_slice] at h
  exact h.symm

theorem slice_memcpy_halves (r : Region) (src : Bytes) (h : src.length = 64) :
    (r.memcpy 0 src 64).slice 0 32 = src.take 32 ∧
    (r.memcpy 0 src 64).slice 32 32 = src.drop 32 := by
  have hall := r.slice_memcpy_eq 0 src h
  rw [show 64 = 32 + 32 from rfl, Region.slice_add, Nat.zero_add] at hall
  constructor
  · exact (List.take_left' (Region.length_slice ..)).symm.trans (congrArg (List.take 32) hall)
  · exact (List.drop_left' (Region.length_slice ..)).symm.trans (congrArg (List.drop 32) hall)

theorem node_load (key : ExtendedPrivateKey) (hash : Region) :
    (key.load hash).node = ⟨fromBE (hash.slice 0 32), hash.slice 32 32⟩ := by
  simp only [ExtendedPrivateKey.load, ExtendedPrivateKey.node,
    Region.slice_memcpy_eq _ _ _ (Region.length_slice ..)]

/-- The key holds the halves of a hash. -/
def ExtendedPrivateKey.Holds (key : ExtendedPrivateKey) (hash : Bytes) : Prop :=
  key.privateKey.slice 0 32 = hash.take 32 ∧ key.chainCode.slice 0 32 = hash.drop 32

theorem holds_load {hash : Bytes} (key : ExtendedPrivateKey) (buffer : Region)
    (h : hash.length = 64) :
    (key.load (buffer.memcpy 0 hash 64)).Holds hash := by
  obtain ⟨hleft, hright⟩ := slice_memcpy_halves buffer hash h
  simp only [ExtendedPrivateKey.Holds, ExtendedPrivateKey.load,
    Region.slice_memcpy_eq _ _ _ (Region.length_slice ..)]
  exact ⟨hleft, hright⟩

theorem node_of_holds {key : ExtendedPrivateKey} {hash : Bytes} (hkey : key.Holds hash) :
    key.node = ⟨fromBE (hash.take 32), hash.drop 32⟩ := by
  rw [ExtendedPrivateKey.node, hkey.1, hkey.2]

theorem slice_loadIndex (tmp : Region) (index : UInt32) :
    (loadIndex tmp index).slice 0 37 = tmp.slice 0 33 ++ Standard.ser32 index := by
  rw [loadIndex, index_bytes, show 37 = 33 + 4 from rfl, Region.slice_add,
    Region.slice_memcpy_of_disjoint _ _ _ _ _ _ (.inl (by decide)), Nat.zero_add,
    Region.slice_memcpy_eq _ _ _ (Standard.length_ser32 index)]

theorem slice_loadRetry (tmp : Region) :
    (loadRetry tmp).slice 0 33 = 0x01 :: tmp.slice 32 32 := by
  rw [loadRetry, Region.slice_store_of_disjoint _ _ _ _ _ (.inr (by decide)),
    show 33 = 1 + 32 from rfl, Region.slice_add,
    Region.slice_memcpy_of_disjoint _ _ _ _ _ _ (.inl (by decide)), Region.slice_store_self,
    Nat.zero_add, Region.slice_memcpy_eq _ _ _ (Region.length_slice ..), List.singleton_append]

theorem compress_ecfpGeneratePair (crypto : Crypto) (curve : Curve) (d : Bytes) :
    let w := ecfpGeneratePair crypto curve d
    (w.set 0 (if w.getD 64 0 &&& 1 ≠ 0 then 0x03 else 0x02)).take 33 =
      Standard.serP (crypto.multiply curve (fromBE d)) := by
  intro w
  obtain ⟨x, y, hxy⟩ : ∃ x y, crypto.multiply curve (fromBE d) = (x, y) := ⟨_, _, rfl⟩
  have hw : w = 0x04 :: (toBE 32 x ++ (toBE 31 (y / 256) ++ [UInt8.ofNat y])) := by
    show ecfpGeneratePair crypto curve d = _
    rw [ecfpGeneratePair, hxy]
    rfl
  have hlast : w.getD 64 0 = UInt8.ofNat y := by
    rw [hw, show 64 = 32 + (31 + 0) + 1 from rfl, List.getD_cons_succ,
      List.getD_append_right _ _ _ _ (by simp), length_toBE, Nat.add_sub_cancel_left,
      List.getD_append_right _ _ _ _ (by simp), length_toBE]
    rfl
  have hodd : (UInt8.ofNat y &&& 1 ≠ 0) ↔ ¬ y % 2 = 0 := by
    rw [ne_eq, ← UInt8.toNat_inj, UInt8.toNat_and, UInt8.toNat_ofNat',
      show (1 : UInt8).toNat = 1 from rfl, Nat.and_one_is_mod, UInt8.toNat_zero]
    omega
  rw [hxy, hlast, hw, List.set_cons_zero, List.take_succ_cons, List.take_left' (length_toBE 32 x),
    Standard.serP, Standard.ser256]
  simp only [hodd, ite_not]

theorem slice_loadParent (crypto : Crypto) (curve : Curve) (key : ExtendedPrivateKey)
    (index : UInt32) (tmp : Region) :
    (loadParent crypto curve key index tmp).slice 0 33 ++ Standard.ser32 index =
      Standard.childData (crypto.multiply curve) key.node index := by
  rw [Standard.childData, loadParent]
  congr 1
  by_cases hhard : Standard.Hardened index
  · rw [if_pos ((isHardenedChild_iff index).mpr hhard), if_pos hhard, show 33 = 1 + 32 from rfl,
      Region.slice_add, Region.slice_memcpy_of_disjoint _ _ _ _ _ _ (.inl (by decide)),
      Region.slice_store_self, Nat.zero_add,
      Region.slice_memcpy_eq _ _ _ (Region.length_slice ..), slice_privateKey,
      List.singleton_append]
  · rw [if_neg (mt (isHardenedChild_iff index).mp hhard), if_neg hhard]
    have hlen : (ecfpGeneratePair crypto curve (key.privateKey.slice 0 32)).length = 65 := by
      simp [ecfpGeneratePair]
    simp only
    rw [Region.slice_memcpy_self _ _ _ _ (by rw [List.length_set, hlen]; decide)]
    exact compress_ecfpGeneratePair crypto curve _

end Speculos.Bip32

-- ---------------------------------------------------------------------------
-- Derivation over Ed25519
-- ---------------------------------------------------------------------------

namespace Speculos.Bip32

open Lib

-- ---------------------------------------------------------------------------
-- The master key
-- ---------------------------------------------------------------------------

/-- `BIP32_ED_SEED`, the seed key of Ed25519. -/
def bip32EdSeed : Bytes :=
  [0x65, 0x64, 0x32, 0x35, 0x35, 0x31, 0x39, 0x20, 0x73, 0x65, 0x65, 0x64]

/-- The loop of `expand_seed_ed25519_bip32`. -/
def expandEd25519Loop (crypto : Crypto) (sk : Bytes) : Nat → Region → Option Region
  | 0, _ => none
  | fuel + 1, privateKey =>
    if privateKey.cell 31 &&& 0x20 ≠ 0 then
      expandEd25519Loop crypto sk fuel
        (privateKey.memcpy 0 (crypto.hmacSha512 sk (privateKey.slice 0 64)) 64)
    else some privateKey

/-- The last two assignments of `expand_seed_ed25519_bip32`. -/
def clampEd25519 (privateKey : Region) : Region :=
  let privateKey := privateKey.store 0 (privateKey.cell 0 &&& 0xF8)
  privateKey.store 31 (privateKey.cell 31 &&& 0x7F ||| 0x40)

def expandSeedEd25519Bip32 (crypto : Crypto) (sk seed : Bytes) (key : ExtendedPrivateKey)
    (buf : Region) (fuel : Nat) : Option ExtendedPrivateKey := do
  let buf := (buf.store 0 0x01).memcpy 1 seed seed.length
  let chainCode := key.chainCode.memcpy 0
    (crypto.hmacSha256 sk (buf.slice 0 (1 + seed.length))) 32
  let privateKey ← expandEd25519Loop crypto sk fuel
    (key.privateKey.memcpy 0 (crypto.hmacSha512 sk seed) 64)
  return ⟨clampEd25519 privateKey, chainCode⟩

-- ---------------------------------------------------------------------------
-- A child key
-- ---------------------------------------------------------------------------

/-- `kP` and the first 32 bytes of the compressed `pub.W + 1`. -/
def publicKeyEd25519 (crypto : Crypto) (kP : Region) : Region × Bytes :=
  let kP := le2be kP 0 32
  let a := crypto.edwardsPoint (kP.slice 0 32)
  (be2le kP 0 32, a)

/-- The assignments to `tmp[len]` up to `tmp[len + 3]`. -/
def loadIndexLE (tmp : Region) (len : Nat) (index : UInt32) : Region :=
  tmp.memcpy len
    [index.toUInt8, (index >>> 8).toUInt8, (index >>> 16).toUInt8, (index >>> 24).toUInt8] 4

/-- `kL = 8*Zl + kLP`, with `ZL` at `tmp + 1` and `kLP` at `kP`. -/
def addLeft (tmp kP : Region) : Region × Region :=
  let tmp := le2be tmp 1 32
  let kP := le2be kP 0 32
  let tmp := tmp.memset 1 0 4
  let tmp := tmp.memcpy 1 (cxMathAdd (tmp.slice 1 32) (tmp.slice 1 32) 32).1 32
  let tmp := tmp.memcpy 1 (cxMathAdd (tmp.slice 1 32) (tmp.slice 1 32) 32).1 32
  let tmp := tmp.memcpy 1 (cxMathAdd (tmp.slice 1 32) (tmp.slice 1 32) 32).1 32
  let tmp := tmp.memcpy 1 (cxMathAdd (tmp.slice 1 32) (kP.slice 0 32) 32).1 32
  (be2le tmp 1 32, be2le kP 0 32)

/-- `kR = Zr + kRP`, with `ZR` at `tmp + 33` and `kRP` at `kP + 32`. -/
def addRight (tmp kP : Region) : Region × Region :=
  let tmp := le2be tmp 33 32
  let kP := le2be kP 32 32
  let tmp := tmp.memcpy 33 (cxMathAdd (tmp.slice 33 32) (kP.slice 32 32) 32).1 32
  (be2le tmp 33 32, be2le kP 32 32)

/-- The first `j` turns of the loop that exchanges `kP[j]` and `Z[j]`. -/
def exchange (tmp kP : Region) : Nat → Region × Region
  | 0 => (tmp, kP)
  | j + 1 =>
    let (tmp, kP) := exchange tmp kP j
    let x := kP.cell j
    let kP := kP.store j (tmp.cell (1 + j))
    (tmp.store (1 + j) x, kP)

/-- Step 1 up to `Z = Hmac(...)`, which is written to `tmp + 1`. -/
def firstHash (crypto : Crypto) (chainCode kP : Region) (a : Bytes) (index : UInt32)
    (tmp : Region) : Region :=
  let (tmp, len) :=
    -- if less than 0x80000000 => setup 02|A|i in tmp
    if ¬ isHardenedChild index then ((tmp.store 0 0x02).memcpy 1 a 32, 1 + 32)
    -- else if greater-eq than 0x80000000 --> setup 00|k|i in tmp
    else ((tmp.store 0 0x00).memcpy 1 (kP.slice 0 64) 64, 1 + 64)
  let tmp := loadIndexLE tmp len index
  tmp.memcpy 1 (crypto.hmacSha512 (chainCode.slice 0 32) (tmp.slice 0 (len + 4))) 64

/-- Step 2 up to the hash, which is written to `tmp`. -/
def secondHash (crypto : Crypto) (chainCode : Region) (a : Bytes) (index : UInt32)
    (tmp : Region) : Region :=
  let (tmp, len) :=
    -- if less than 0x80000000 => set up 03|A|i in tmp
    if ¬ isHardenedChild index then ((tmp.store 0 0x03).memcpy 1 a 32, 1 + 32)
    -- else if greater-eq than 0x80000000 --> 01|k|i in tmp, kP already set
    else (tmp.store 0 0x01, 1 + 64)
  let tmp := loadIndexLE tmp len index
  tmp.memcpy 0 (crypto.hmacSha512 (chainCode.slice 0 32) (tmp.slice 0 (len + 4))) 64

def hdwBip32Ed25519Step (crypto : Crypto) (s : ExtendedPrivateKey × Region) (index : UInt32) :
    ExtendedPrivateKey × Region :=
  let (key, tmp) := s
  let (kP, a) := publicKeyEd25519 crypto key.privateKey
  let tmp := firstHash crypto key.chainCode kP a index tmp
  let (tmp, kP) := addLeft tmp kP
  let (tmp, kP) := addRight tmp kP
  -- store new kL,kP, but keep old on to compute new c
  let (tmp, kP) := exchange tmp kP 64
  let tmp := secondHash crypto key.chainCode a index tmp
  (⟨kP, key.chainCode.memcpy 0 (tmp.slice 32 32) 32⟩, tmp)

/-- `hdw_bip32_ed25519`: the bytes of `private_key` and `chain`. -/
def hdwBip32Ed25519 (crypto : Crypto) (key : ExtendedPrivateKey) (path : List UInt32)
    (tmp : Region) : HdwResult :=
  let s := path.foldl (hdwBip32Ed25519Step crypto) (key, tmp)
  .derived (s.1.privateKey.slice 0 64) (s.1.chainCode.slice 0 32)

/-- `expand_seed_ed25519_bip32` followed by `hdw_bip32_ed25519`. -/
def deriveNodeEd25519 (crypto : Crypto) (sk seed : Bytes) (path : List UInt32)
    (key : ExtendedPrivateKey) (buf tmp : Region) (fuel : Nat) : Option HdwResult := do
  let key ← expandSeedEd25519Bip32 crypto sk seed key buf fuel
  return hdwBip32Ed25519 crypto key path tmp

end Speculos.Bip32
