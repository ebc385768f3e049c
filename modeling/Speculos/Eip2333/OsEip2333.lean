import Speculos.Lib.Octets
import Speculos.Lib.Hkdf
import Speculos.Bip32.CxMath
import Speculos.Hash.CxHkdf
import Speculos.Hash.HmacReuse

/-!
# sys_os_perso_derive_eip2333

What EIP-2333 says of the tree of keys, over any hash and any keyed hash with values of 32
bytes. A salt that gives no key is hashed again, so that the derivation is a relation.

The derivation of `os_eip2333.c` and `cx_hkdf_mod_r`. The expansion of a Lamport key, the
hashes of its chunks and their compression are one loop.
-/

namespace Speculos.Eip2333.Standard

open Lib

/-- The order of the group, `r`. -/
def order : Nat := 0x73eda753299d7d483339d80809a1d80553bda402fffe5bfeffffffff00000001

section

variable (sha256 : Bytes → Bytes) (hmac : Bytes → Bytes → Bytes) (r : Nat)

def ikmToLamportSk (ikm salt : Bytes) : List Bytes :=
  let prk := hkdfExtract hmac salt ikm
  let okm := hkdfExpand hmac 32 prk [] (255 * 32)
  bytesSplit 32 255 okm

def flipBits (bs : Bytes) : Bytes := bs.map fun b => ~~~b

def parentSkToLamportPk (parentSk : Nat) (index : UInt32) : Bytes :=
  let salt := toBE 4 index.toNat
  let ikm := toBE 32 parentSk
  let lamport0 := ikmToLamportSk hmac ikm salt
  let lamport1 := ikmToLamportSk hmac (flipBits ikm) salt
  sha256 ((lamport0.map sha256).flatten ++ (lamport1.map sha256).flatten)

/-- The number that a salt gives, where 48 bytes are expanded. -/
def okmModR (ikm keyInfo salt : Bytes) : Nat :=
  let prk := hkdfExtract hmac salt (ikm ++ toBE 1 0)
  fromBE (hkdfExpand hmac 32 prk (keyInfo ++ toBE 2 48) 48) % r

/-- `HKDF_mod_r`, where the salt is hashed before each use. -/
inductive HkdfModR (ikm keyInfo : Bytes) : Bytes → Nat → Prop
  | key (h : okmModR hmac r ikm keyInfo (sha256 salt) ≠ 0) :
    HkdfModR ikm keyInfo salt (okmModR hmac r ikm keyInfo (sha256 salt))
  | rehash (h : okmModR hmac r ikm keyInfo (sha256 salt) = 0)
    (hsk : HkdfModR ikm keyInfo (sha256 salt) sk) : HkdfModR ikm keyInfo salt sk

/-- "BLS-SIG-KEYGEN-SALT-" -/
def keygenSalt : Bytes :=
  [0x42, 0x4c, 0x53, 0x2d, 0x53, 0x49, 0x47, 0x2d, 0x4b, 0x45, 0x59, 0x47, 0x45, 0x4e, 0x2d, 0x53,
    0x41, 0x4c, 0x54, 0x2d]

def DeriveMasterSk (seed : Bytes) (sk : Nat) : Prop := HkdfModR sha256 hmac r seed [] keygenSalt sk

def DeriveChildSk (parentSk : Nat) (index : UInt32) (sk : Nat) : Prop :=
  HkdfModR sha256 hmac r (parentSkToLamportPk sha256 hmac parentSk index) [] keygenSalt sk

/-- `derive_child_SK` folded over a path. -/
inductive Derives : Nat → List UInt32 → Nat → Prop
  | nil : Derives sk [] sk
  | cons (hchild : DeriveChildSk sha256 hmac r parentSk index childSk)
    (hsk : Derives childSk path sk) :
    Derives parentSk (index :: path) sk

def DerivesFrom (seed : Bytes) (path : List UInt32) (sk : Nat) : Prop :=
  ∃ masterSk, DeriveMasterSk sha256 hmac r seed masterSk ∧ Derives sha256 hmac r masterSk path sk

end

section

variable {sha256 : Bytes → Bytes} {hmac : Bytes → Bytes → Bytes} {r : Nat}

theorem HkdfModR.inRange (hr : 0 < r) (h : HkdfModR sha256 hmac r ikm keyInfo salt sk) :
    0 < sk ∧ sk < r := by
  induction h with
  | key h => exact ⟨Nat.pos_of_ne_zero h, Nat.mod_lt _ hr⟩
  | rehash _ _ ih => exact ih

theorem Derives.inRange (hr : 0 < r) (hparent : 0 < parentSk ∧ parentSk < r)
    (h : Derives sha256 hmac r parentSk path sk) : 0 < sk ∧ sk < r := by
  induction h with
  | nil => exact hparent
  | cons hchild _ ih => exact ih (HkdfModR.inRange hr hchild)

theorem DerivesFrom.inRange (hr : 0 < r) (h : DerivesFrom sha256 hmac r seed path sk) :
    0 < sk ∧ sk < r := by
  obtain ⟨masterSk, hmaster, hderives⟩ := h
  exact hderives.inRange hr (HkdfModR.inRange hr hmaster)

end

end Speculos.Eip2333.Standard

-- ---------------------------------------------------------------------------
-- sys_os_perso_derive_eip2333
-- ---------------------------------------------------------------------------

namespace Speculos.Eip2333

open Lib Hash
open Speculos.Bn (bnBn2binpad)
open Speculos.Bip32 (cxMathIsZero cxMathIsZero_eq)

-- ---------------------------------------------------------------------------
-- cx_hkdf_mod_r
-- ---------------------------------------------------------------------------

def cxMathModm (v m : Bytes) : Bytes := (bnBn2binpad (fromBE v % fromBE m) v.length).getD v

def cxBls12381G1N : Bytes :=
  [0x00, 0x00, 0x00, 0x00, 0x00, 0x00, 0x00, 0x00, 0x00, 0x00, 0x00, 0x00,
    0x00, 0x00, 0x00, 0x00, 0x73, 0xed, 0xa7, 0x53, 0x29, 0x9d, 0x7d, 0x48,
    0x33, 0x39, 0xd8, 0x08, 0x09, 0xa1, 0xd8, 0x05, 0x53, 0xbd, 0xa4, 0x02,
    0xff, 0xfe, 0x5b, 0xfe, 0xff, 0xff, 0xff, 0xff, 0x00, 0x00, 0x00, 0x01]

def hkdfModRSalt : Bytes :=
  [0x42, 0x4c, 0x53, 0x2d, 0x53, 0x49, 0x47, 0x2d, 0x4b, 0x45, 0x59, 0x47, 0x45, 0x4e, 0x2d, 0x53,
    0x41, 0x4c, 0x54, 0x2d]

def keyLength : Nat := 32

def cxHkdfModRCeil : Nat := 48

section

variable {γ : Type} (S : HashFunctions γ) (stack : HmacCtx γ)

/-- The loop of `cx_hkdf_mod_r` and what it leaves in `sk`. -/
def hkdfModRLoop (ikm keyInfo : Bytes) : Nat → Bytes → Bytes → Option Bytes
  | 0, _, _ => none
  | fuel + 1, keySalt, sk =>
    if cxMathIsZero sk ≠ 0 then do
      let prk ← cxHkdfExtract S stack .sha256 ikm (some keySalt)
      let okm ← specCxHkdfExpand S stack .sha256 prk keyInfo cxHkdfModRCeil
      let okm := cxMathModm okm cxBls12381G1N
      let sk := (okm.drop (cxHkdfModRCeil - keyLength)).take keyLength
      let keySalt ← sysCxHashSha256 S keySalt
      hkdfModRLoop ikm keyInfo fuel keySalt sk
    else some sk

def cxHkdfModR (ikm : Bytes) (salt : Option Bytes) (keyInfo : Bytes) (fuel : Nat) : Option Bytes :=
  do
  let keySalt ← match salt with
    | none => sysCxHashSha256 S hkdfModRSalt
    | some salt => some (salt.take 32)
  hkdfModRLoop S stack ikm keyInfo fuel keySalt (List.replicate keyLength 0)

-- ---------------------------------------------------------------------------
-- os_eip2333.c
-- ---------------------------------------------------------------------------

/-- `sys_cx_hash`: the context, and what is written to `out` at the end. -/
def sysCxHash (ctx : γ) (last : Bool) (data : Bytes) (outLen : Nat) : Option (γ × Bytes) :=
  if !S.valid ctx then none
  else
    (S.update ctx data).bind fun ctx =>
      if last then
        if outLen < (S.algo ctx).outputSize then none else some ((S.final ctx).2, (S.final ctx).1)
      else some (ctx, [])

/-- `sys_cx_hmac` where it returns a value: the context and what is written to `out`. -/
def sysCxHmac (ctx : HmacCtx γ) (call : HmacCall) : Option (HmacCtx γ × Bytes) :=
  (cxHmac S ctx call).bind fun (ret, ctx) => ret.map fun ret => (ctx, ret.2)

/-- The turns of the loop over `j` in `cx_parent_sk_to_lamport_pk`, and the context they leave. -/
def lamportLoop (prk : Bytes) : Nat → Nat → UInt8 → Bytes → γ → Option γ
  | 0, _, _, _, sha256 => some sha256
  | turns + 1, j, block, tmp, sha256 => do
    let (_, hmacCtx) ← specCxHmacInit S stack .sha256 (.data prk)
    let (hmacCtx, _) ←
      (if j ≠ 1 then sysCxHmac S hmacCtx ⟨false, false, .data tmp, false, 0⟩
        else some (hmacCtx, []) :
        Option (HmacCtx γ × Bytes))
    let (_, tmp) ← sysCxHmac S hmacCtx ⟨true, true, .data [block], true, 32⟩
    let tmp2 ← sysCxHashSha256 S tmp
    let (sha256, _) ← sysCxHash S sha256 false tmp2 0
    lamportLoop prk turns (j + 1) (block + 1) tmp sha256

/-- A half of the Lamport key, from the key or its complement. -/
def lamportHalf (localSk salt : Bytes) (sha256 : γ) : Option γ := do
  let prk ← cxHkdfExtract S stack .sha256 localSk (some salt)
  lamportLoop S stack prk 255 1 1 [] sha256

def cxParentSkToLamportPk (parentSk : Bytes) (index : UInt32) : Option Bytes := do
  let salt := toBE 4 index.toNat
  let localSk := parentSk.take keyLength
  let sha256 ← lamportHalf S stack localSk salt (S.init .sha256)
  let localSk := xorAll localSk 0xff
  let sha256 ← lamportHalf S stack localSk salt sha256
  let (_, compressedLamportPk) ← sysCxHash S sha256 true [] 32
  return compressedLamportPk

def keyInfo : Bytes := [0x00, 0x30]

/-- `cx_derive_master_sk`, where a zero is written behind the seed. -/
def cxDeriveMasterSk (seed : Bytes) (fuel : Nat) : Option Bytes :=
  let seedIntern := overwrite (List.replicate 65 0) 0 seed
  let seedIntern := overwrite seedIntern seed.length [0]
  cxHkdfModR S stack (seedIntern.take (seed.length + 1)) none keyInfo fuel

/-- A turn of the loop in `cx_derive_child_sk`. -/
def childStep (fuel : Nat) (parentSk : Bytes) (index : UInt32) : Option Bytes := do
  let lamportPk ← cxParentSkToLamportPk S stack parentSk index
  let lamportPk := overwrite (lamportPk ++ [0]) keyLength [0]
  cxHkdfModR S stack lamportPk none keyInfo fuel

/-- What a call does: an exception, or a key in `privateKey`. -/
inductive DeriveResult
  | thrown
  | written (privateKey : Bytes)
  deriving DecidableEq, Repr

/-- `cx_derive_child_sk`, where a path is missing if it is `NULL`. -/
def cxDeriveChildSk (parentSk : Bytes) (path : Option (List UInt32)) (fuel : Nat) :
    Option DeriveResult :=
  match path with
  | none => some .thrown
  | some path =>
    if path.length < 1 then some .thrown
    else (path.foldlM (childStep S stack fuel) parentSk).map .written

def envGetSeed (actualSeed : Bytes) (maxSize : Nat) : Bytes := actualSeed.take maxSize

/-- `sys_os_perso_derive_eip2333` with `fuel` turns for each search of a key. -/
def sysOsPersoDeriveEip2333 (actualSeed : Bytes) (curve : UInt32) (path : Option (List UInt32))
    (hasPrivateKey : Bool) (fuel : Nat) : Option DeriveResult :=
  if curve ≠ 0x2f ∧ curve ≠ 0x39 then some .thrown
  else
    (cxDeriveMasterSk S stack (envGetSeed actualSeed 64) fuel).bind fun sk =>
      if hasPrivateKey then cxDeriveChildSk S stack sk path fuel else some .thrown

end

end Speculos.Eip2333
