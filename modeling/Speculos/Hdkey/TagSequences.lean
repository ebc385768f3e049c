import Speculos.Hdkey.RegisteredDerive
import Speculos.Hdkey.Zip32Fold
import Speculos.Lib.Tlv

/-!
# The tag sequence of every level

The seed key is a list of elements: a context string, then the tag sequences by
level. A level without a sequence at its position takes the last one that was
used. The code reads the elements one behind every level and stays in step with
the list as long as it meets tag sequences; of another element it reads only the
tag and the length.
-/

namespace Speculos.Hdkey

open Lib
open Speculos.Bip32 (OsResult Path)

-- ---------------------------------------------------------------------------
-- The sequences by position
-- ---------------------------------------------------------------------------

/-- A value as `hdkey_zip32_tag_t` holds it. -/
def Zip32Tag.ofValue (value : Bytes) : Zip32Tag := if value.length = 0 then none else some value

/-- What a read finds: a sequence, the two bytes of another element, or one that is cut off. -/
inductive Found
  | sequence (value : Bytes)
  | other
  | cut
  deriving DecidableEq, Repr

/-- The sequence of a level behind what was found before it. -/
def tagAfter (last : Zip32Tag) (found : List Found) : Zip32Tag :=
  found.foldl (fun last f =>
    match f with
    | .sequence value => .ofValue value
    | _ => last) last

/-- The reads of `n` levels fail, or give the sequences of what is found and end on it. -/
def ReadsGive (buffer : Bytes) (s : TagState) (found : List Found) (n : Nat) : Prop :=
  if .cut ∈ found.take n then ∃ osError, readTags (some buffer) s n = .error osError
  else ∃ state, readTags (some buffer) s n =
      .ok ((List.range n).map fun k => tagAfter s.tag (found.take k), state) ∧
    ∀ k, k + 1 = n → (state.osError = .success ↔ found[k]? ≠ some .other)

theorem ReadsGive.cons (h : ReadsGive buffer next found n)
    (hnext : nextTag (some buffer) s = .ok next) (hcut : f ≠ .cut)
    (htag : next.tag = tagAfter s.tag [f]) (hstatus : next.osError = .success ↔ f ≠ .other) :
    ReadsGive buffer s (f :: found) (n + 1) := by
  have hmem : .cut ∈ (f :: found).take (n + 1) ↔ .cut ∈ found.take n := by
    rw [List.take_succ_cons, List.mem_cons, or_iff_right (Ne.symm hcut)]
  rw [ReadsGive] at h ⊢
  rw [readTags, hnext]
  by_cases hfound : .cut ∈ found.take n
  · rw [if_pos hfound] at h
    rw [if_pos (hmem.mpr hfound)]
    obtain ⟨osError, herror⟩ := h
    exact ⟨osError, by simp only [herror, Except.map]⟩
  · rw [if_neg hfound] at h
    rw [if_neg (mt hmem.mp hfound)]
    obtain ⟨state, hstate, hlast⟩ := h
    refine ⟨state, ?_, fun k hk => ?_⟩
    · simp only [hstate, Except.map]
      rw [List.range_succ_eq_map, List.map_cons, List.map_map, htag]
      rfl
    · obtain rfl := Nat.succ.inj hk
      cases k with
      | zero =>
        cases hstate
        simpa using hstatus
      | succ k => simpa using hlast k rfl

theorem ReadsGive.nil (h : ReadsGive buffer next [] n) (hnext : nextTag (some buffer) s = .ok next)
    (htag : next.tag = s.tag) (hstatus : next.osError = .success) :
    ReadsGive buffer s [] (n + 1) := by
  simp only [ReadsGive, List.take_nil, List.not_mem_nil, if_false] at h ⊢
  obtain ⟨state, hstate, hlast⟩ := h
  refine ⟨state, ?_, fun k hk => ?_⟩
  · rw [readTags, hnext]
    simp only [hstate, Except.map]
    rw [List.range_succ_eq_map, List.map_cons, List.map_map, htag]
    rfl
  · obtain rfl := Nat.succ.inj hk
    cases k with
    | zero =>
      cases hstate
      simpa using hstatus
    | succ k => simpa using hlast k rfl

def tagInput (tag : Zip32Tag) : Bytes := (if tag ≠ none then [0] else []) ++ tag.getD []

/-- A hash that counts the levels in the chain code and marks the key at level `j`
if its tag sequence is `mark`. -/
def markHash (j : Nat) (mark : Zip32Tag) (person input : Bytes) : Bytes :=
  if person = personZExpand then
    let count := fromBE (input.take 32)
    let marked := input.getD 33 0 = 1 ∨ count = j ∧ input.drop 69 = tagInput mark
    ((if marked then 1 else 0) :: List.replicate 31 0) ++ toBE 32 (count + 1)
  else List.replicate 64 0

def markHashes (j : Nat) (mark : Zip32Tag) : Hashes where
  blake2b := markHash j mark
  hmacSha512 _ _ := List.replicate 64 0
  length_blake2b person input := by
    rw [markHash]
    split <;> simp
  length_hmacSha512 := orchardHashes.length_hmacSha512

theorem sized_deriveLevels (hkey : key.Sized) (hashes : Hashes)
    (levels : List (UInt32 × Zip32Tag)) : (deriveLevels hashes key levels).Sized := by
  induction levels generalizing key with
  | nil => exact hkey
  | cons level levels ih => exact ih (HardSk.sized_ofHash (hashes.length_blake2b _ _))

theorem sized_subtreeRootKey (hashes : Hashes) (zipnumber : UInt32) (seed : Seed)
    (contextStr : Zip32Tag) :
    (zip32HardenedSubtreeRootKey hashes zipnumber seed contextStr).Sized :=
  HardSk.sized_ofHash (hashes.length_blake2b _ _)

section

variable {params : Params} {context sequence : ByteTlv} {rest : List ByteTlv}
  (hcontext : context.tag = tagContextStr) (hsequence : sequence.tag = tagSequenceStr)
  (hseedKey : params.seedKey = some (ByteTlv.encodeAll (context :: sequence :: rest)))
include hcontext hsequence hseedKey

end

end Speculos.Hdkey
