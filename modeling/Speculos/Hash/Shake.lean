import Speculos.Hash.Keccak
import Speculos.Lib.Memory

/-!
# Outputs of SHAKE

The bytes that SHAKE writes are the first ones of one stream, however many are asked for. The
last block of a size that is a multiple of the rate is one that is left over, and not one
behind it.
-/

namespace Speculos.Hash

open Lib

-- ---------------------------------------------------------------------------
-- The end with its destination
-- ---------------------------------------------------------------------------

/-- The loop of the last part, where `digest` has come to `pos`. -/
def squeezeInto (perm : Sha3State → Sha3State) (blockSize : Nat) (hpos : 0 < blockSize)
    (acc : Sha3State) (blen : Nat) (digest : Region) (pos : Nat) : Region :=
  if _h : blen > blockSize then
    squeezeInto perm blockSize hpos (specCxSha3Block perm blockSize acc (List.replicate 200 0))
      (blen - blockSize) (digest.memcpy pos (wordsLE64 acc) blockSize) (pos + blockSize)
  else digest.memcpy pos (wordsLE64 acc) blen
termination_by blen
decreasing_by omega

/-- `spec_cx_sha3_final` and the memory behind `digest`. -/
def specCxSha3FinalInto (perm : Sha3State → Sha3State) (ctx : Sha3Context) (digest : Region) :
    Region :=
  let block := overwrite ctx.block ctx.blen (List.replicate (200 - ctx.blen) 0)
  if ctx.algo = .keccak ∨ ctx.algo = .sha3 then
    let block := orAt block ctx.blen (if ctx.algo = .keccak then 0x01 else 0x06)
    let block := orAt block (ctx.blockSize - 1) 0x80
    digest.memcpy 0 (wordsLE64 (specCxSha3Block perm ctx.blockSize ctx.acc block)) ctx.outputSize
  else
    let block := orAt block ctx.blen 0x1f
    let block := orAt block (ctx.blockSize - 1) 0x80
    squeezeInto perm ctx.blockSize ctx.blockSize_pos
      (specCxSha3Block perm ctx.blockSize ctx.acc block) ctx.outputSize digest 0

/-- The ways to start SHAKE. -/
inductive Shake
  | shake128
  | shake256
  | xof128
  | xof256
  deriving DecidableEq, Repr

def Shake.init : Shake → Nat → Option Sha3Context
  | .shake128, n => cxShake128Init (8 * n)
  | .shake256, n => cxShake256Init (8 * n)
  | .xof128, n => cxSha3XofInit 128 n
  | .xof256, n => cxSha3XofInit 256 n

def Shake.rate : Shake → Nat
  | .shake128 | .xof128 => 168
  | .shake256 | .xof256 => 136

/-- What is behind `digest` after a message in pieces. -/
def Shake.digest (shake : Shake) (perm : Sha3State → Sha3State) (n : Nat)
    (pieces : List (Piece 424)) (digest : Region) : Option (Except Failure Region) :=
  (shake.init n).map fun ctx =>
    (updates (specCxSha3Update perm) ctx pieces).map fun ctx => specCxSha3FinalInto perm ctx digest

-- ---------------------------------------------------------------------------
-- One stream
-- ---------------------------------------------------------------------------

section

variable {perm : Sha3State → Sha3State}

theorem squeezeInto_eq (hpos : 0 < rate) (hle : rate ≤ 200) (acc : Sha3State) (blen : Nat)
    (digest : Region) (pos : Nat) :
    squeezeInto perm rate hpos acc blen digest pos =
      digest.memcpy pos (squeezeLoop perm rate hpos acc blen) blen := by
  induction blen using Nat.strongRecOn generalizing acc digest pos with
  | _ blen ih =>
  rw [squeezeInto, squeezeLoop]
  by_cases hblen : blen > rate
  · have hlen : ((wordsLE64 acc).take rate).length = rate := by
      rw [List.length_take, length_wordsLE64]
      exact Nat.min_eq_left hle
    have hsplit := digest.memcpy_memcpy pos ((wordsLE64 acc).take rate)
      (squeezeLoop perm rate hpos (specCxSha3Block perm rate acc (List.replicate 200 0)) (blen - rate))
      (blen - rate)
    rw [hlen, Region.memcpy_take _ _ _ (Nat.le_refl rate),
      Nat.add_sub_of_le (Nat.le_of_lt hblen)] at hsplit
    rw [dif_pos hblen, dif_pos hblen, ih (blen - rate) (by omega), hsplit]
  · rw [dif_neg hblen, dif_neg hblen, Region.memcpy_take _ _ _ (Nat.le_refl blen)]

theorem specCxSha3FinalInto_eq (ctx : Sha3Context) (hle : ctx.blockSize ≤ 200) (digest : Region) :
    specCxSha3FinalInto perm ctx digest =
      digest.memcpy 0 (specCxSha3Final perm ctx) ctx.outputSize := by
  rw [specCxSha3FinalInto, specCxSha3Final]
  split
  · exact (Region.memcpy_take _ _ _ (Nat.le_refl _)).symm
  · exact squeezeInto_eq ctx.blockSize_pos hle ..

def Shake.stream (shake : Shake) (perm : Sha3State → Sha3State) (m : Bytes) (n : Nat) : Bytes :=
  spongeDigest perm shake.rate 0x1f n m

theorem Shake.length_stream (shake : Shake) (m : Bytes) (n : Nat) :
    (shake.stream perm m n).length = n := by
  simp [stream, spongeDigest, squeeze]

/-- Fewer bytes are the first ones of more bytes. -/
theorem Shake.take_stream (shake : Shake) (m : Bytes) (h : n ≤ k) :
    (shake.stream perm m k).take n = shake.stream perm m n := by
  simp only [stream, spongeDigest, squeeze]
  rw [← List.map_take, List.take_range, Nat.min_eq_left h]

theorem Shake.isRate (shake : Shake) : IsRate shake.rate := by
  cases shake <;> simp [rate, IsRate]

theorem Shake.init_eq (shake : Shake) (n : Nat) :
    ∃ algo hpos, shake.init n = some (sha3Zeroed algo n shake.rate hpos) ∧
      algo.firstBits = 0x1f ∧ ¬ (algo = .keccak ∨ algo = .sha3) := by
  cases shake with
  | shake128 =>
    refine ⟨.shake128, by decide, ?_, rfl, by decide⟩
    simp [init, cxShake128Init, rate]
  | shake256 =>
    refine ⟨.shake256, by decide, ?_, rfl, by decide⟩
    simp [init, cxShake256Init, rate]
  | xof128 => exact ⟨.shake128, by decide, rfl, rfl, by decide⟩
  | xof256 => exact ⟨.shake256, by decide, rfl, rfl, by decide⟩

/-- What is behind `digest` where all bytes are those of the stream. Beyond the limit of blocks
an update throws. -/
def Shake.outcome (shake : Shake) (perm : Sha3State → Sha3State) (m : Bytes) (n : Nat)
    (digest : Region) : Except Failure Region :=
  if m.length / shake.rate ≤ 65535 then .ok (digest.memcpy 0 (shake.stream perm m n) n)
  else .error .thrown

theorem Shake.digest_eq (shake : Shake) (n : Nat) (pieces : List (Piece 424)) (digest : Region) :
    shake.digest perm n pieces digest = some (shake.outcome perm (message pieces) n digest) := by
  obtain ⟨algo, hpos, hinit, hfirst, hother⟩ := shake.init_eq n
  rw [Shake.digest, hinit, Option.map_some, outcome]
  by_cases hlimit : (message pieces).length / shake.rate ≤ 65535
  · obtain ⟨ctx, hupdates, hctx⟩ := updates_sha3 perm shake.isRate algo n hpos pieces hlimit
    have hfinal := specCxSha3Final_eq shake.isRate hctx (fun h => absurd h hother)
    have hle : ctx.blockSize ≤ 200 := hctx.blockSize ▸ shake.isRate.le
    rw [if_pos hlimit, hupdates]
    refine congrArg (fun r => some (Except.ok r)) ?_
    show specCxSha3FinalInto perm ctx digest = _
    rw [specCxSha3FinalInto_eq ctx hle, hfinal, hctx.outputSize, hfirst]
    rfl
  · rw [if_neg hlimit, updates_sha3_thrown shake.isRate algo n hpos pieces hlimit]
    rfl

/-- The bytes of the stream are written for every message. -/
def WritesAlways (shake : Shake) (perm : Sha3State → Sha3State) : Prop :=
  ∀ (pieces : List (Piece 424)) (n : Nat) (digest : Region),
    shake.digest perm n pieces digest =
      some (.ok (digest.memcpy 0 (shake.stream perm (message pieces) n) n))

def manyBlocks : Piece 424 :=
  ⟨List.replicate (65536 * 168) 0, by rw [List.length_replicate]; norm_num⟩

/-- Behind 65535 blocks an update throws, and nothing is written. -/
theorem not_writesAlways_manyBlocks : ¬ WritesAlways .shake128 sha3Rounds := by
  intro h
  have hlength : (message [manyBlocks]).length = 65536 * 168 := by
    rw [message, List.flatMap_singleton, manyBlocks, List.length_replicate]
  have hthrown : Shake.shake128.outcome sha3Rounds (message [manyBlocks]) 32 .zeroed =
      .error .thrown := by
    rw [Shake.outcome, hlength]
    rfl
  have hdigest := h [manyBlocks] 32 .zeroed
  rw [Shake.digest_eq, hthrown] at hdigest
  cases hdigest

/-- For every message the bytes of a smaller output are the first ones of a larger one, as many
as asked for are written, and they are those that the sponge gives. -/
theorem shake_oneStream (shake : Shake) (perm : Sha3State → Sha3State) (pieces : List (Piece 424))
    (h : n ≤ k) (digest digest' : Region) :
    shake.digest perm n pieces digest = some (shake.outcome perm (message pieces) n digest) ∧
      shake.digest perm k pieces digest' = some (shake.outcome perm (message pieces) k digest') ∧
      (shake.stream perm (message pieces) n).length = n ∧
      (shake.stream perm (message pieces) k).length = k ∧
      shake.stream perm (message pieces) n = (shake.stream perm (message pieces) k).take n :=
  ⟨shake.digest_eq n pieces digest, shake.digest_eq k pieces digest', shake.length_stream _ n,
    shake.length_stream _ k, (shake.take_stream _ h).symm⟩

end

theorem shake_oneStream_twoBlocks :
    let pieces : List (Piece 424) := [⟨[0x61], by decide⟩]
    Shake.shake128.digest sha3Rounds 168 pieces .zeroed =
        some (Shake.shake128.outcome sha3Rounds [0x61] 168 .zeroed) ∧
      Shake.shake128.digest sha3Rounds 336 pieces .zeroed =
        some (Shake.shake128.outcome sha3Rounds [0x61] 336 .zeroed) ∧
      (Shake.shake128.stream sha3Rounds [0x61] 168).length = 168 ∧
      (Shake.shake128.stream sha3Rounds [0x61] 336).length = 336 ∧
      Shake.shake128.stream sha3Rounds [0x61] 168 =
        (Shake.shake128.stream sha3Rounds [0x61] 336).take 168 :=
  shake_oneStream .shake128 sha3Rounds [⟨[0x61], by decide⟩] (by decide) .zeroed .zeroed

end Speculos.Hash
