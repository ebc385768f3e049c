import Speculos.Bip32.HdkeyValidate
import Speculos.Lib.Window
import Speculos.Lib.Effect

/-!
# ZIP 32 derivation

The Sapling and Orchard derivations of `hdkey_zip32.c`, over any BLAKE2b. A
computation on big numbers takes the lock of the big number unit and releases
it; where the application holds the lock already, it fails and releases that
one. Every other error of the cryptographic calls is for a pointer or a length
that the callers do not pass.
-/

namespace Speculos.Hdkey

open Lib
open Speculos.Bip32 (OsResult HdkeyParams)

/-- The hashes that the derivations are defined over. -/
structure Hashes where
  /-- BLAKE2b-512 with a personalization string, of all that is passed to `update`. -/
  blake2b : Bytes → Bytes → Bytes
  hmacSha512 : Bytes → Bytes → Bytes
  length_blake2b : ∀ person input, (blake2b person input).length = 64
  length_hmacSha512 : ∀ key data, (hmacSha512 key data).length = 64

/-- What `env_get_seed` copies. -/
structure Seed where
  bytes : Bytes
  length_eq : bytes.length = 64

/-- `HDKEY_params_t`. A pointer that is `NULL` is `none`, and `pathNull` for the
path; the buffers are as long as their length fields say. -/
structure Params extends HdkeyParams where
  pathNull : Bool
  privateKey : Option Bytes
  chain : Option Bytes
  seedKey : Option Bytes
  pathLength_lt : path.length < 2 ^ 64

/-- The buffers of the caller that a derivation may write. -/
structure Output where
  privateKey : Option Bytes
  chain : Option Bytes
  deriving DecidableEq, Repr

def Params.output (params : Params) : Output := ⟨params.privateKey, params.chain⟩

/-- `PERSON_Z_EXPAND`, "Zcash_ExpandSeed". -/
def personZExpand : Bytes :=
  [0x5a, 0x63, 0x61, 0x73, 0x68, 0x5f, 0x45, 0x78, 0x70, 0x61, 0x6e, 0x64, 0x53, 0x65, 0x65, 0x64]

/-- `PERSON_Z_SAPLING`, "ZcashIP32Sapling". -/
def personZSapling : Bytes :=
  [0x5a, 0x63, 0x61, 0x73, 0x68, 0x49, 0x50, 0x33, 0x32, 0x53, 0x61, 0x70, 0x6c, 0x69, 0x6e, 0x67]

/-- `PERSON_ORCHARD`, "ZcashIP32Orchard". -/
def personOrchard : Bytes :=
  [0x5a, 0x63, 0x61, 0x73, 0x68, 0x49, 0x50, 0x33, 0x32, 0x4f, 0x72, 0x63, 0x68, 0x61, 0x72, 0x64]

def jubjubN : Bytes :=
  [0x0e, 0x7d, 0xb4, 0xea, 0x65, 0x33, 0xaf, 0xa9, 0x06, 0x67, 0x3b, 0x01, 0x01, 0x34, 0x3b, 0x00,
   0xa6, 0x68, 0x20, 0x93, 0xcc, 0xc8, 0x10, 0x82, 0xd0, 0x97, 0x0e, 0x5e, 0xd6, 0xf7, 0x2c, 0xb7]

/-- `U4LE_ENCODE` -/
def u4le (value : UInt32) : Bytes := toLE 4 value.toNat

def zip32PrfExpand (hashes : Hashes) (key input : Bytes) : Bytes :=
  hashes.blake2b personZExpand (key ++ input)

/-- `sys_cx_bn_lock`, where the state is whether the lock is held. -/
def bnLock : EStateM OsResult Bool PUnit := do
  if ← get then
    set false
    throw .errCryptoInternal

/-- `hdkey_zip32_to_scalar` for Jubjub. -/
def zip32ToScalar (hash : Bytes) : EStateM OsResult Bool Bytes := do
  bnLock
  return toLE 32 (fromLE hash % fromBE jubjubN)

/-- `hdkey_zip32_add_scalar` for Jubjub. -/
def zip32AddScalar (a b : Bytes) : EStateM OsResult Bool Bytes := do
  bnLock
  return toLE 32 ((fromLE a + fromLE b) % fromBE jubjubN)

-- ---------------------------------------------------------------------------
-- Sapling
-- ---------------------------------------------------------------------------

/-- `HDKEY_ZIP32_sapling_xsk_t` -/
structure SaplingXsk where
  ask : Bytes
  nsk : Bytes
  ovk : Bytes
  dk : Bytes
  chainCode : Bytes
  deriving DecidableEq, Repr

def SaplingXsk.zero : SaplingXsk where
  ask := List.replicate 32 0
  nsk := List.replicate 32 0
  ovk := List.replicate 32 0
  dk := List.replicate 32 0
  chainCode := List.replicate 32 0

def zip32SaplingMasterKey (hashes : Hashes) (seed : Seed) : EStateM OsResult Bool SaplingXsk := do
  let i := hashes.blake2b personZSapling seed.bytes
  let ask ← zip32ToScalar (zip32PrfExpand hashes (i.take 32) [0x00])
  let nsk ← zip32ToScalar (zip32PrfExpand hashes (i.take 32) [0x01])
  return {
    ask
    nsk
    ovk := (zip32PrfExpand hashes (i.take 32) [0x02]).take 32
    dk := (zip32PrfExpand hashes (i.take 32) [0x10]).take 32
    chainCode := i.drop 32 }

def zip32SaplingDeriveChild (hashes : Hashes) (parent : SaplingXsk) (index : UInt32) :
    EStateM OsResult Bool SaplingXsk := do
  -- Input: [0x11] || ask || nsk || ovk || dk || I2LEOSP(index)
  let inputData := 0x11 :: (parent.ask ++ parent.nsk ++ parent.ovk ++ parent.dk ++ u4le index)
  let i := zip32PrfExpand hashes parent.chainCode inputData
  let scalar ← zip32ToScalar (zip32PrfExpand hashes (i.take 32) [0x13])
  let ask ← zip32AddScalar scalar parent.ask
  let scalar ← zip32ToScalar (zip32PrfExpand hashes (i.take 32) [0x14])
  let nsk ← zip32AddScalar scalar parent.nsk
  return {
    ask
    nsk
    ovk := (zip32PrfExpand hashes (i.take 32) (0x15 :: parent.ovk)).take 32
    dk := (zip32PrfExpand hashes (i.take 32) (0x16 :: parent.dk)).take 32
    chainCode := i.drop 32 }

/-- One turn of the loops over the path, which keeps `out_child` and `parent`. -/
def pathStep (deriveChild : κ → UInt32 → EStateM OsResult Bool κ) (s : κ × κ) (index : UInt32) :
    EStateM OsResult Bool (κ × κ) := do
  let outChild ← deriveChild s.2 index
  -- Child becomes parent
  return (outChild, outChild)

/-- `out_child` at the end of the loop. -/
def pathLoop (deriveChild : κ → UInt32 → EStateM OsResult Bool κ) (outChild parent : κ)
    (path : List UInt32) : EStateM OsResult Bool κ := do
  let s ← path.foldlM (pathStep deriveChild) (outChild, parent)
  return s.1

/-- The copies of the keys and of the chain code at the end. -/
def writeSapling (output : Output) (outChild : SaplingXsk) : Output where
  privateKey := output.privateKey.map fun privateKey =>
    let privateKey := overwrite privateKey 0 outChild.ask
    let privateKey := overwrite privateKey 32 outChild.nsk
    let privateKey := overwrite privateKey 64 outChild.ovk
    overwrite privateKey 96 outChild.dk
  chain := output.chain.map fun chain => overwrite chain 0 outChild.chainCode

/-- `os_error` at `end`, and the buffers: they are written only at the end of a
computation that does not fail. -/
def finish (output : Output) (write : Output → κ → Output) :
    EStateM.Result OsResult Bool κ → OsResult × Output
  | .ok outChild _ => (.success, write output outChild)
  | .error osError _ => (osError, output)

/-- The checks of `HDKEY_ZIP32_sapling_derive`. -/
def saplingChecks (params : Params) : OsResult :=
  match params.privateKey with
  | none => .errBadParam
  | some privateKey =>
    if params.pathNull then .errBadParam
    else if (params.chain.map List.length).getD 32 ≠ 32 then .errBadLen
    -- Make sure that dst is large enough before memcpy
    else if privateKey.length < 4 * 32 then .errShortBuffer
    else .success

/-- `HDKEY_ZIP32_sapling_derive`, where the lock of the big number unit is held
by the application or not. -/
def zip32SaplingDerive (hashes : Hashes) (seed : Seed) (locked : Bool) (params : Params) :
    OsResult × Output :=
  let osError := saplingChecks params
  if osError ≠ .success then (osError, params.output)
  else
    finish params.output writeSapling <| EStateM.run (do
      let parent ← zip32SaplingMasterKey hashes seed
      pathLoop (zip32SaplingDeriveChild hashes) .zero parent params.path.indices) locked

-- ---------------------------------------------------------------------------
-- Orchard
-- ---------------------------------------------------------------------------

/-- `HDKEY_ZIP32_hard_sk_t` -/
structure HardSk where
  sk : Bytes
  chainCode : Bytes
  deriving DecidableEq, Repr

def HardSk.zero : HardSk := ⟨List.replicate 32 0, List.replicate 32 0⟩

def HardSk.ofHash (i : Bytes) : HardSk := ⟨i.take 32, i.drop 32⟩

def zip32OrchardMasterKey (hashes : Hashes) (seed : Seed) : HardSk :=
  .ofHash (hashes.blake2b personOrchard seed.bytes)

def zip32OrchardDeriveChild (hashes : Hashes) (parent : HardSk) (index : UInt32) : HardSk :=
  -- data = tag || sk || i2leosp(index)
  .ofHash (zip32PrfExpand hashes parent.chainCode (0x81 :: (parent.sk ++ u4le index)))

def writeHard (output : Output) (outChild : HardSk) : Output where
  privateKey := output.privateKey.map fun privateKey => overwrite privateKey 0 outChild.sk
  chain := output.chain.map fun chain => overwrite chain 0 outChild.chainCode

/-- The checks of `HDKEY_ZIP32_orchard_derive` and `HDKEY_ZIP32_registered_derive`. -/
def hardChecks (params : Params) : OsResult :=
  match params.privateKey with
  | none => .errBadParam
  | some privateKey =>
    if params.pathNull then .errBadParam
    else if privateKey.length < 32 then .errShortBuffer
    else if (params.chain.map List.length).getD 32 ≠ 32 then .errBadLen
    else .success

def zip32OrchardDerive (hashes : Hashes) (seed : Seed) (locked : Bool) (params : Params) :
    OsResult × Output :=
  let osError := hardChecks params
  if osError ≠ .success then (osError, params.output)
  else
    finish params.output writeHard <| EStateM.run
      (pathLoop (fun parent index => pure (zip32OrchardDeriveChild hashes parent index)) .zero
        (zip32OrchardMasterKey hashes seed) params.path.indices) locked

end Speculos.Hdkey
