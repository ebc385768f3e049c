import Mathlib.Tactic.Ring
import Speculos.Hash.Sha3

/-!
# Streaming and one-shot digests

However a message is cut into updates, its digest is the one that the standard gives for
the whole message. The hashes that count blocks up to a limit throw beyond it; SHA-224
and SHA-256 do not, and give a wrong digest from 2^32 blocks on.
-/

namespace Speculos.Hash

open Lib

/-- The digest of a sponge whose init function succeeds. -/
def Sponges (perm : Sha3State → Sha3State) (init : Option Sha3Context) (rate : Nat) (first : UInt8)
    (outputSize : Nat) : Prop :=
  ∀ ctx, init = some ctx → ∀ pieces : List (Piece 424),
    streamed ctx (specCxSha3Update perm) (specCxSha3Final perm) pieces =
      if (message pieces).length / rate ≤ 65535 then
        .ok (spongeDigest perm rate first outputSize (message pieces))
      else .error .thrown

theorem outputSize_le_rate (h : CheckHashOutSize size) : size / 8 ≤ (1600 - 2 * size) / 8 := by
  rcases h with rfl | rfl | rfl | rfl | rfl <;> decide

theorem cxSha3Init_sponges (perm : Sha3State → Sha3State) (size : Nat) :
    Sponges perm (cxSha3Init size) ((1600 - 2 * size) / 8) 0x06 (size / 8) := by
  intro ctx hinit pieces
  rw [cxSha3Init] at hinit
  split at hinit
  · rename_i h
    cases hinit
    exact streamed_sha3 (isRate_of_size h) (fun _ => outputSize_le_rate h) pieces
  · cases hinit

theorem cxKeccakInit_sponges (perm : Sha3State → Sha3State) (size : Nat) :
    Sponges perm (cxKeccakInit size) ((1600 - 2 * size) / 8) 0x01 (size / 8) := by
  intro ctx hinit pieces
  rw [cxKeccakInit] at hinit
  split at hinit
  · rename_i h
    cases hinit
    exact streamed_sha3 (isRate_of_size h) (fun _ => outputSize_le_rate h) pieces
  · cases hinit

theorem shake128_sponges (perm : Sha3State → Sha3State) (outputSize : Nat) :
    Sponges perm (some (sha3Zeroed .shake128 outputSize 168 (by decide))) 168 0x1f outputSize := by
  intro ctx hinit pieces
  cases hinit
  exact streamed_sha3 (.inl rfl) (by rintro (h | h) <;> cases h) pieces

theorem shake256_sponges (perm : Sha3State → Sha3State) (outputSize : Nat) :
    Sponges perm (some (sha3Zeroed .shake256 outputSize 136 (by decide))) 136 0x1f outputSize := by
  intro ctx hinit pieces
  cases hinit
  exact streamed_sha3 (.inr (.inr (.inl rfl))) (by rintro (h | h) <;> cases h) pieces

theorem Sponges.of_init (h : Sponges perm (some ctx) rate first outputSize)
    (hinit : ∀ ctx', init = some ctx' → ctx' = ctx) : Sponges perm init rate first outputSize :=
  fun ctx' hctx' => h ctx' (congrArg some (hinit ctx' hctx').symm)

theorem cxShake128Init_sponges (perm : Sha3State → Sha3State) (size : Nat) :
    Sponges perm (cxShake128Init size) 168 0x1f (size / 8) := by
  refine (shake128_sponges perm (size / 8)).of_init fun ctx hinit => ?_
  rw [cxShake128Init] at hinit
  split at hinit
  · cases hinit
  · exact (Option.some.inj hinit).symm

theorem cxShake256Init_sponges (perm : Sha3State → Sha3State) (size : Nat) :
    Sponges perm (cxShake256Init size) 136 0x1f (size / 8) := by
  refine (shake256_sponges perm (size / 8)).of_init fun ctx hinit => ?_
  rw [cxShake256Init] at hinit
  split at hinit
  · cases hinit
  · exact (Option.some.inj hinit).symm

theorem cxSha3XofInit_sponges (perm : Sha3State → Sha3State) (size outLength : Nat)
    (h : size = 128 ∨ size = 256) :
    Sponges perm (cxSha3XofInit size outLength) ((1600 - 2 * size) / 8) 0x1f outLength := by
  rcases h with rfl | rfl
  · exact shake128_sponges perm outLength
  · exact shake256_sponges perm outLength

/-- The digest of SHA-224 or SHA-256 in pieces is the standard's, whatever the block function is. -/
def StreamsAs (init : Context (Vector UInt32 8)) (std : Standard (Vector UInt32 8))
    (pieces : List (Piece 108)) : Prop :=
  ∀ F, streamed init (specCxSha256Update F) (specCxSha256Final F) pieces =
    .ok (std.digest F.acc (message pieces))

theorem streamsAs_sha224_iff (pieces : List (Piece 108))
    (hlen : 8 * (message pieces).length < 2 ^ 64) :
    StreamsAs cxSha224Init sha224 pieces ↔ (message pieces).length / 64 < 2 ^ 32 :=
  streamed_sha256_iff (by decide) specCxSha256Final_sha224 hlen

theorem streamsAs_sha256_iff (pieces : List (Piece 108))
    (hlen : 8 * (message pieces).length < 2 ^ 64) :
    StreamsAs cxSha256Init sha256 pieces ↔ (message pieces).length / 64 < 2 ^ 32 :=
  streamed_sha256_iff (by decide) specCxSha256Final_sha256 hlen

/-- SHA-224 and SHA-256 are defined for messages of less than 2^64 bits, and the digest is right
exactly below 2^32 blocks. The other hashes give the standard's digest up to 65535 blocks. -/
theorem streaming_iff (perm : Sha3State → Sha3State) (size : Nat) :
    (∀ pieces : List (Piece 108), 8 * (message pieces).length < 2 ^ 64 →
      (StreamsAs cxSha224Init sha224 pieces ↔ (message pieces).length / 64 < 2 ^ 32) ∧
        (StreamsAs cxSha256Init sha256 pieces ↔ (message pieces).length / 64 < 2 ^ 32)) ∧
    (∀ F (pieces : List (Piece 204)),
      streamed cxSha384Init (specCxSha512Update F) (specCxSha512Final F) pieces =
          (if (message pieces).length / 128 ≤ 65535 then .ok (sha384.digest F.acc (message pieces))
            else .error .thrown) ∧
        streamed cxSha512Init (specCxSha512Update F) (specCxSha512Final F) pieces =
          (if (message pieces).length / 128 ≤ 65535 then .ok (sha512.digest F.acc (message pieces))
            else .error .thrown)) ∧
    (∀ F (pieces : List (Piece 96)),
      streamed cxRipemd160Init (specCxRipemd160Update F) (specCxRipemd160Final F) pieces =
        if (message pieces).length / 64 ≤ 65535 then .ok (ripemd160.digest F.acc (message pieces))
        else .error .thrown) ∧
    Sponges perm (cxSha3Init size) ((1600 - 2 * size) / 8) 0x06 (size / 8) ∧
      Sponges perm (cxKeccakInit size) ((1600 - 2 * size) / 8) 0x01 (size / 8) ∧
      Sponges perm (cxShake128Init size) 168 0x1f (size / 8) ∧
      Sponges perm (cxShake256Init size) 136 0x1f (size / 8) ∧
      ∀ outLength, size = 128 ∨ size = 256 →
        Sponges perm (cxSha3XofInit size outLength) ((1600 - 2 * size) / 8) 0x1f outLength := by
  refine ⟨fun pieces hlen => ⟨?_, ?_⟩, fun F pieces => ⟨?_, ?_⟩, streamed_ripemd160, ?_⟩
  · exact streamsAs_sha224_iff pieces hlen
  · exact streamsAs_sha256_iff pieces hlen
  · exact streamed_sha384 F pieces
  · exact streamed_sha512 F pieces
  · exact ⟨cxSha3Init_sponges perm size, cxKeccakInit_sponges perm size,
      cxShake128Init_sponges perm size, cxShake256Init_sponges perm size,
      cxSha3XofInit_sponges perm size⟩

def zeroPiece : Piece 108 where
  data := List.replicate (2 ^ 31) 0
  fits := by
    rw [List.length_replicate]
    decide

theorem length_message_replicate (k : Nat) (piece : Piece sizeof) :
    (message (List.replicate k piece)).length = k * piece.data.length := by
  induction k with
  | zero => rw [Nat.zero_mul]; rfl
  | succ k ih =>
    rw [List.replicate_succ, message_cons, List.length_append, ih]
    ring

theorem length_zeroPiece : zeroPiece.data.length = 2 ^ 31 := List.length_replicate

/-- 2^32 blocks: the counter is zero again. -/
theorem not_streamsAs_zeroPieces :
    ¬ StreamsAs cxSha256Init sha256 (List.replicate 128 zeroPiece) := by
  have hlen : (message (List.replicate 128 zeroPiece)).length = 128 * 2 ^ 31 := by
    rw [length_message_replicate, length_zeroPiece]
  intro h
  have hlt := (streamsAs_sha256_iff _ (by omega)).mp h
  omega

end Speculos.Hash
