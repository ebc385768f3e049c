import Speculos.Hdkey.Zip32

/-!
# ZIP 32 registered derivation

`HDKEY_ZIP32_registered_derive`. The seed key holds a context string and the tag
sequences of the levels. A tag sequence is read before the first level and behind
every level; a read that finds another tag leaves the sequence as it is, and its
status is the one of the whole derivation if no level follows.
-/

namespace Speculos.Hdkey

open Lib
open Speculos.Bip32 (OsResult)

/-- `DOMAIN_REGISTERED`, "ZIPRegistered_KD". -/
def domainRegistered : Bytes :=
  [0x5a, 0x49, 0x50, 0x52, 0x65, 0x67, 0x69, 0x73, 0x74, 0x65, 0x72, 0x65, 0x64, 0x5f, 0x4b, 0x44]

def tagContextStr : UInt8 := 0x16

def tagSequenceStr : UInt8 := 0xA0

def tagRegisteredDomain : UInt8 := 0xAC

/-- `hdkey_zip32_tag_t`, whose pointer is `NULL` where the length is zero. -/
abbrev Zip32Tag := Option Bytes

/-- `hdkey_zip32_parse_tlv_tag`: what it returns, `*out_tag` and `*offset`. -/
def zip32ParseTlvTag (expectedTag : UInt8) (buffer : Option Bytes) (outTag : Zip32Tag)
    (offset : Nat) : OsResult × Zip32Tag × Nat :=
  match buffer with
  -- tag sequence = NULL is allowed
  | none => (.success, none, offset)
  | some buffer =>
    if offset ≥ buffer.length then (.errOverflow, outTag, offset)
    -- Check that least tag and length can be parsed
    else if offset + 2 > buffer.length then (.errShortBuffer, outTag, offset)
    else
      let tag := buffer.getD offset 0
      let length := (buffer.getD (offset + 1) 0).toNat
      let offset := offset + 2
      if tag ≠ expectedTag then (.errNotFound, outTag, offset)
      else if offset + length > buffer.length then (.errOverflow, outTag, offset)
      else
        (.success, if length = 0 then none else some ((buffer.drop offset).take length),
          offset + length)

def zip32HardenedDeriveChild (hashes : Hashes) (parent : HardSk) (index : UInt32)
    (ckdDomain lead : UInt8) (tagSeq : Zip32Tag) : HardSk :=
  -- Concatenate data = tag || sk || i2leosp(index)
  let data := ckdDomain :: (parent.sk ++ u4le index)
  let leadUpdate := if lead ≠ 0 ∨ tagSeq ≠ none then [lead] else []
  .ofHash (hashes.blake2b personZExpand
    (parent.chainCode ++ data ++ leadUpdate ++ tagSeq.getD []))

def zip32HardenedSubtreeRootKey (hashes : Hashes) (zipnumber : UInt32) (seed : Seed)
    (contextStr : Zip32Tag) : HardSk :=
  let context := contextStr.getD []
  let i := hashes.blake2b domainRegistered
    ([UInt8.ofNat context.length] ++ context ++ [UInt8.ofNat seed.bytes.length] ++ seed.bytes)
  zip32HardenedDeriveChild hashes (.ofHash i) zipnumber tagRegisteredDomain 0 none

/-- The variables of the loop that a read of a tag changes. -/
structure TagState where
  osError : OsResult
  tag : Zip32Tag
  tagOffset : Nat
  deriving DecidableEq, Repr

/-- The read behind a level. An error is a jump to `end`. -/
def nextTag (seedKey : Option Bytes) (s : TagState) : Except OsResult TagState :=
  if s.tagOffset ≥ (seedKey.getD []).length then .ok { s with osError := .success }
  else
    -- If tag sequence not found, use the same sequence
    let (osError, tag, tagOffset) := zip32ParseTlvTag tagSequenceStr seedKey s.tag s.tagOffset
    if osError ≠ .success ∧ osError ≠ .errNotFound then .error osError
    else .ok ⟨osError, tag, tagOffset⟩

structure RegisteredState where
  tags : TagState
  parent : HardSk
  outChild : HardSk

/-- One turn of the loop of `HDKEY_ZIP32_registered_derive`. -/
def registeredStep (hashes : Hashes) (seedKey : Option Bytes) (s : RegisteredState)
    (index : UInt32) : Except OsResult RegisteredState := do
  let outChild :=
    zip32HardenedDeriveChild hashes s.parent index tagRegisteredDomain 0 s.tags.tag
  let tags ← nextTag seedKey s.tags
  -- Child becomes parent
  return ⟨tags, outChild, outChild⟩

def zip32RegisteredDerive (hashes : Hashes) (seed : Seed) (params : Params) : OsResult × Output :=
  let osError := hardChecks params
  if osError ≠ .success then (osError, params.output)
  else
    -- Context_str is passed to params->seed
    let (osError, tag, tagOffset) := zip32ParseTlvTag tagContextStr params.seedKey none 0
    if osError ≠ .success then (osError, params.output)
    else
      -- path[0] contains ZipNumber + 2**31
      let parent := zip32HardenedSubtreeRootKey hashes (params.path.index 0) seed tag
      let (osError, tag, tagOffset) :=
        zip32ParseTlvTag tagSequenceStr params.seedKey tag tagOffset
      if osError ≠ .success then (osError, params.output)
      else
        match (params.path.indices.drop 1).foldlM (registeredStep hashes params.seedKey)
            ⟨⟨osError, tag, tagOffset⟩, parent, .zero⟩ with
        | .error osError => (osError, params.output)
        | .ok s => (s.tags.osError, writeHard params.output s.outChild)

-- ---------------------------------------------------------------------------
-- The reads apart from the keys
-- ---------------------------------------------------------------------------

/-- The tag sequences of `n` levels, and the state behind the last one. -/
def readTags (seedKey : Option Bytes) (s : TagState) :
    Nat → Except OsResult (List Zip32Tag × TagState)
  | 0 => .ok ([], s)
  | n + 1 =>
    match nextTag seedKey s with
    | .error osError => .error osError
    | .ok next => (readTags seedKey next n).map fun r => (s.tag :: r.1, r.2)

theorem readTags_succ (h : readTags seedKey s (n + 1) = .ok r) :
    ∃ next rest, nextTag seedKey s = .ok next ∧ readTags seedKey next n = .ok rest ∧
      r = (s.tag :: rest.1, rest.2) := by
  rw [readTags] at h
  cases hnext : nextTag seedKey s with
  | error osError =>
    rw [hnext] at h
    cases h
  | ok next =>
    simp only [hnext] at h
    cases hrest : readTags seedKey next n with
    | error osError =>
      rw [hrest] at h
      cases h
    | ok rest =>
      rw [hrest] at h
      cases h
      exact ⟨next, rest, rfl, hrest, rfl⟩

/-- The fold of the child derivation over levels, each an index and a tag sequence. -/
def deriveLevels (hashes : Hashes) (key : HardSk) (levels : List (UInt32 × Zip32Tag)) : HardSk :=
  levels.foldl (fun key level =>
    zip32HardenedDeriveChild hashes key level.1 tagRegisteredDomain 0 level.2) key

theorem registeredStep_eq (hashes : Hashes) (seedKey : Option Bytes) (s : RegisteredState)
    (index : UInt32) :
    registeredStep hashes seedKey s index =
      (nextTag seedKey s.tags).map fun tags =>
        let child := deriveLevels hashes s.parent [(index, s.tags.tag)]
        ⟨tags, child, child⟩ := by
  rw [registeredStep]
  cases nextTag seedKey s.tags with
  | error osError => rfl
  | ok tags => rfl

theorem foldlM_registeredStep (hashes : Hashes) (seedKey : Option Bytes) (s : TagState)
    (parent outChild : HardSk) (path : List UInt32) :
    path.foldlM (registeredStep hashes seedKey) ⟨s, parent, outChild⟩ =
      (readTags seedKey s path.length).map fun r =>
        let key := deriveLevels hashes parent (path.zip r.1)
        ⟨r.2, key, if path = [] then outChild else key⟩ := by
  induction path generalizing s parent outChild with
  | nil => rfl
  | cons index path ih =>
    rw [List.foldlM_cons, registeredStep_eq, List.length_cons, readTags]
    cases nextTag seedKey s with
    | error osError => rfl
    | ok next =>
      have hrest := ih next (deriveLevels hashes parent [(index, s.tag)])
        (deriveLevels hashes parent [(index, s.tag)])
      refine hrest.trans ?_
      show _ = Except.map _ (Except.map _ (readTags seedKey next path.length))
      cases readTags seedKey next path.length with
      | error osError => rfl
      | ok r =>
        cases path with
        | nil => rfl
        | cons _ _ => rfl

end Speculos.Hdkey
