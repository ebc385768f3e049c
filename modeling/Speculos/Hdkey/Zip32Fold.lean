import Speculos.Hdkey.Zip32

/-!
# ZIP 32 derivation as a fold

`Zip32` holds the derivations of the standard. Each step of the code is the one
of the standard, as long as the lock of the big number unit is free. The loops
over the path keep the parent and the child, and the result is read from the
child, which the first turn assigns: with an index in the path the result is the
fold of the child derivation over the path, without one it is the child that was
set to zero.
-/

namespace Speculos.Hdkey

open Lib
open Speculos.Bip32 (OsResult)

-- ---------------------------------------------------------------------------
-- The standard
-- ---------------------------------------------------------------------------

namespace Zip32

def toScalar (hash : Bytes) : Nat := fromLE hash % fromBE jubjubN

def addScalar (a b : Nat) : Nat := (a + b) % fromBE jubjubN

def saplingMaster (hashes : Hashes) (seed : Seed) : SaplingXsk :=
  let i := hashes.blake2b personZSapling seed.bytes
  let expand := zip32PrfExpand hashes (i.take 32)
  { ask := toLE 32 (toScalar (expand [0x00]))
    nsk := toLE 32 (toScalar (expand [0x01]))
    ovk := (expand [0x02]).take 32
    dk := (expand [0x10]).take 32
    chainCode := i.drop 32 }

def saplingChild (hashes : Hashes) (parent : SaplingXsk) (index : UInt32) : SaplingXsk :=
  let i := zip32PrfExpand hashes parent.chainCode
    (0x11 :: (parent.ask ++ parent.nsk ++ parent.ovk ++ parent.dk ++ u4le index))
  let expand := zip32PrfExpand hashes (i.take 32)
  { ask := toLE 32 (addScalar (toScalar (expand [0x13])) (fromLE parent.ask))
    nsk := toLE 32 (addScalar (toScalar (expand [0x14])) (fromLE parent.nsk))
    ovk := (expand (0x15 :: parent.ovk)).take 32
    dk := (expand (0x16 :: parent.dk)).take 32
    chainCode := i.drop 32 }

def sapling (hashes : Hashes) (seed : Seed) (path : List UInt32) : SaplingXsk :=
  path.foldl (saplingChild hashes) (saplingMaster hashes seed)

def orchard (hashes : Hashes) (seed : Seed) (path : List UInt32) : HardSk :=
  path.foldl (zip32OrchardDeriveChild hashes) (zip32OrchardMasterKey hashes seed)

end Zip32

theorem jubjubN_bounds : 0 < fromBE jubjubN ∧ fromBE jubjubN < 256 ^ 32 := by decide

theorem Zip32.toScalar_lt (hash : Bytes) : Zip32.toScalar hash < 256 ^ 32 :=
  Nat.lt_trans (Nat.mod_lt _ jubjubN_bounds.1) jubjubN_bounds.2

theorem zip32ToScalar_eq (hash : Bytes) :
    zip32ToScalar hash false = .ok (toLE 32 (Zip32.toScalar hash)) false := rfl

theorem zip32AddScalar_eq (a b : Bytes) :
    zip32AddScalar a b false = .ok (toLE 32 (Zip32.addScalar (fromLE a) (fromLE b))) false := rfl

theorem zip32SaplingMasterKey_eq (hashes : Hashes) (seed : Seed) :
    zip32SaplingMasterKey hashes seed false = .ok (Zip32.saplingMaster hashes seed) false := by
  rw [zip32SaplingMasterKey, bind_of_ok (zip32ToScalar_eq _), bind_of_ok (zip32ToScalar_eq _)]
  rfl

theorem zip32SaplingDeriveChild_eq (hashes : Hashes) (parent : SaplingXsk) (index : UInt32) :
    zip32SaplingDeriveChild hashes parent index false =
      .ok (Zip32.saplingChild hashes parent index) false := by
  rw [zip32SaplingDeriveChild, bind_of_ok (zip32ToScalar_eq _), bind_of_ok (zip32AddScalar_eq _ _),
    bind_of_ok (zip32ToScalar_eq _), bind_of_ok (zip32AddScalar_eq _ _),
    fromLE_toLE_of_lt (Zip32.toScalar_lt _), fromLE_toLE_of_lt (Zip32.toScalar_lt _)]
  rfl

-- ---------------------------------------------------------------------------
-- The loop over the path
-- ---------------------------------------------------------------------------

section
variable {deriveChild : κ → UInt32 → EStateM OsResult Bool κ} {child : κ → UInt32 → κ}
  {locked : Bool} (h : ∀ key index, deriveChild key index locked = .ok (child key index) locked)
include h

theorem pathStep_eq (outChild parent : κ) (index : UInt32) :
    pathStep deriveChild (outChild, parent) index locked =
      .ok (child parent index, child parent index) locked := by
  rw [pathStep, bind_of_ok (h parent index)]
  rfl

theorem foldlM_pathStep (key : κ) (path : List UInt32) :
    path.foldlM (pathStep deriveChild) (key, key) locked =
      .ok (path.foldl child key, path.foldl child key) locked := by
  induction path generalizing key with
  | nil => rfl
  | cons index path ih =>
    rw [List.foldlM_cons, bind_of_ok (pathStep_eq h key key index)]
    exact ih _

theorem pathLoop_eq (outChild parent : κ) (path : List UInt32) :
    pathLoop deriveChild outChild parent path locked =
      .ok (if path = [] then outChild else path.foldl child parent) locked := by
  cases path with
  | nil => rfl
  | cons index path =>
    rw [pathLoop, List.foldlM_cons, bind_assoc, bind_of_ok (pathStep_eq h outChild parent index),
      bind_of_ok (foldlM_pathStep h (child parent index) path)]
    rfl

end

-- ---------------------------------------------------------------------------
-- The buffers
-- ---------------------------------------------------------------------------

def Output.written (output : Output) (fields chainCode : Bytes) : Output where
  privateKey := output.privateKey.map fun privateKey => fields ++ privateKey.drop fields.length
  chain := output.chain.map fun _ => chainCode

theorem written_eq_iff {output : Output} {fields fields' : Bytes}
    (hkey : output.privateKey ≠ none) (hlen : fields.length = fields'.length) :
    output.written fields chainCode = output.written fields' chainCode' ↔
      fields = fields' ∧ (output.chain = none ∨ chainCode = chainCode') := by
  obtain ⟨privateKey, hkey⟩ := Option.ne_none_iff_exists'.mp hkey
  rw [Output.written, Output.written, hkey, Output.mk.injEq, Option.map_some, Option.map_some,
    Option.some.injEq, hlen]
  apply and_congr
  · rw [List.append_cancel_right_eq]
  · cases output.chain <;> simp

/-- The fields of the key in the order in which they are copied. -/
def SaplingXsk.fields (key : SaplingXsk) : Bytes := key.ask ++ key.nsk ++ key.ovk ++ key.dk

structure SaplingXsk.Sized (key : SaplingXsk) : Prop where
  ask : key.ask.length = 32
  nsk : key.nsk.length = 32
  ovk : key.ovk.length = 32
  dk : key.dk.length = 32
  chainCode : key.chainCode.length = 32

theorem SaplingXsk.Sized.fields {key : SaplingXsk} (h : key.Sized) : key.fields.length = 128 := by
  simp only [SaplingXsk.fields, List.length_append, h.ask, h.nsk, h.ovk, h.dk]

theorem SaplingXsk.sized_zero : SaplingXsk.zero.Sized := ⟨rfl, rfl, rfl, rfl, rfl⟩

theorem length_zip32PrfExpand (hashes : Hashes) (key input : Bytes) :
    (zip32PrfExpand hashes key input).length = 64 :=
  hashes.length_blake2b _ _

theorem Zip32.sized_saplingMaster (hashes : Hashes) (seed : Seed) :
    (Zip32.saplingMaster hashes seed).Sized := by
  constructor <;>
    simp [Zip32.saplingMaster, length_zip32PrfExpand, hashes.length_blake2b]

theorem Zip32.sized_saplingChild (hashes : Hashes) (parent : SaplingXsk) (index : UInt32) :
    (Zip32.saplingChild hashes parent index).Sized := by
  constructor <;> simp [Zip32.saplingChild, length_zip32PrfExpand]

theorem Zip32.sized_sapling (hashes : Hashes) (seed : Seed) (path : List UInt32) :
    (Zip32.sapling hashes seed path).Sized := by
  induction path using List.reverseRecOn with
  | nil => exact Zip32.sized_saplingMaster hashes seed
  | append_singleton path index _ =>
    rw [Zip32.sapling, List.foldl_concat]
    exact Zip32.sized_saplingChild hashes _ index

theorem writeSapling_eq {output : Output} {key : SaplingXsk} (hkey : key.Sized)
    (hprivate : ∀ b ∈ output.privateKey, 128 ≤ b.length)
    (hchain : ∀ b ∈ output.chain, b.length = 32) :
    writeSapling output key = output.written key.fields key.chainCode := by
  rw [writeSapling, Output.written, Output.mk.injEq]
  constructor
  · refine Option.map_congr fun b hb => ?_
    have hlen := hprivate b hb
    have hnsk := overwrite_overwrite b key.ask key.nsk (Nat.zero_le _) hkey.ask
    have hovk : overwrite (overwrite b 0 (key.ask ++ key.nsk)) (0 + 64) key.ovk = _ :=
      overwrite_overwrite b _ key.ovk (Nat.zero_le _)
        (by rw [List.length_append, hkey.ask, hkey.nsk])
    have hdk : overwrite (overwrite b 0 (key.ask ++ key.nsk ++ key.ovk)) (0 + 96) key.dk = _ :=
      overwrite_overwrite b _ key.dk (Nat.zero_le _)
        (by simp only [List.length_append, hkey.ask, hkey.nsk, hkey.ovk])
    rw [Nat.zero_add] at hnsk hovk hdk
    simp only [hnsk, hovk, hdk]
    exact overwrite_zero ..
  · refine Option.map_congr fun b hb => ?_
    rw [overwrite_zero, List.drop_of_length_le (by rw [hchain b hb, hkey.chainCode]),
      List.append_nil]

theorem writeHard_eq {output : Output} {key : HardSk} (hkey : key.chainCode.length = 32)
    (hchain : ∀ b ∈ output.chain, b.length = 32) :
    writeHard output key = output.written key.sk key.chainCode := by
  rw [writeHard, Output.written, Output.mk.injEq]
  constructor
  · exact Option.map_congr fun b _ => overwrite_zero ..
  · refine Option.map_congr fun b hb => ?_
    rw [overwrite_zero, List.drop_of_length_le (by rw [hchain b hb, hkey]), List.append_nil]

structure HardSk.Sized (key : HardSk) : Prop where
  sk : key.sk.length = 32
  chainCode : key.chainCode.length = 32

theorem HardSk.sized_zero : HardSk.zero.Sized := ⟨rfl, rfl⟩

theorem HardSk.sized_ofHash (h : i.length = 64) : (HardSk.ofHash i).Sized := by
  constructor <;> simp [HardSk.ofHash, h]

theorem Zip32.sized_orchard (hashes : Hashes) (seed : Seed) (path : List UInt32) :
    (Zip32.orchard hashes seed path).Sized := by
  induction path using List.reverseRecOn with
  | nil => exact HardSk.sized_ofHash (hashes.length_blake2b _ _)
  | append_singleton path index _ =>
    rw [Zip32.orchard, List.foldl_concat]
    exact HardSk.sized_ofHash (length_zip32PrfExpand hashes _ _)

-- ---------------------------------------------------------------------------
-- The derivations
-- ---------------------------------------------------------------------------

theorem length_of_getD {chain : Option Bytes} (h : (chain.map List.length).getD 32 = 32) :
    ∀ b ∈ chain, b.length = 32 := by
  rintro b rfl
  exact h

theorem saplingChecks_success (h : saplingChecks params = .success) :
    params.output.privateKey ≠ none ∧ (∀ b ∈ params.output.privateKey, 128 ≤ b.length) ∧
      ∀ b ∈ params.output.chain, b.length = 32 := by
  rw [saplingChecks] at h
  cases hkey : params.privateKey with
  | none =>
    rw [hkey] at h
    cases h
  | some privateKey =>
    simp only [hkey] at h
    split_ifs at h with hpath hchain hlen
    refine ⟨fun hnone => ?_, fun b hb => ?_, length_of_getD (not_not.mp hchain)⟩
    · exact Option.some_ne_none _ (hkey.symm.trans hnone)
    · rw [Option.mem_def, Params.output, hkey] at hb
      cases hb
      omega

theorem hardChecks_success (h : hardChecks params = .success) :
    params.output.privateKey ≠ none ∧ (∀ b ∈ params.output.privateKey, 32 ≤ b.length) ∧
      ∀ b ∈ params.output.chain, b.length = 32 := by
  rw [hardChecks] at h
  cases hkey : params.privateKey with
  | none =>
    rw [hkey] at h
    cases h
  | some privateKey =>
    simp only [hkey] at h
    split_ifs at h with hpath hlen hchain
    refine ⟨fun hnone => ?_, fun b hb => ?_, length_of_getD (not_not.mp hchain)⟩
    · exact Option.some_ne_none _ (hkey.symm.trans hnone)
    · rw [Option.mem_def, Params.output, hkey] at hb
      cases hb
      omega

theorem zip32SaplingDerive_locked (hashes : Hashes) (seed : Seed)
    (h : saplingChecks params = .success) :
    zip32SaplingDerive hashes seed true params = (.errCryptoInternal, params.output) := by
  rw [zip32SaplingDerive, h]
  rfl

theorem zip32SaplingDerive_eq (hashes : Hashes) (seed : Seed)
    (h : saplingChecks params = .success) :
    zip32SaplingDerive hashes seed false params =
      (.success, writeSapling params.output
        (if params.path.indices = [] then .zero
          else Zip32.sapling hashes seed params.path.indices)) := by
  simp only [zip32SaplingDerive, h, ne_eq, not_true_eq_false, if_false, EStateM.run]
  rw [bind_of_ok (zip32SaplingMasterKey_eq hashes seed),
    pathLoop_eq (zip32SaplingDeriveChild_eq hashes)]
  rfl

theorem zip32OrchardDerive_eq (hashes : Hashes) (seed : Seed) (locked : Bool)
    (h : hardChecks params = .success) :
    zip32OrchardDerive hashes seed locked params =
      (.success, writeHard params.output
        (if params.path.indices = [] then .zero
          else Zip32.orchard hashes seed params.path.indices)) := by
  have hchild (parent : HardSk) (index : UInt32) :
      (pure (zip32OrchardDeriveChild hashes parent index) : EStateM OsResult Bool HardSk) locked =
        .ok (zip32OrchardDeriveChild hashes parent index) locked := rfl
  simp only [zip32OrchardDerive, h, ne_eq, not_true_eq_false, if_false, EStateM.run]
  rw [pathLoop_eq hchild]
  rfl

/-- What a successful call writes is the fold of the child derivation. -/
def SaplingWritesFold (hashes : Hashes) (seed : Seed) (locked : Bool) (params : Params) : Prop :=
  ∀ output, zip32SaplingDerive hashes seed locked params = (.success, output) →
    let key := Zip32.sapling hashes seed params.path.indices
    output = params.output.written key.fields key.chainCode

def OrchardWritesFold (hashes : Hashes) (seed : Seed) (locked : Bool) (params : Params) : Prop :=
  ∀ output, zip32OrchardDerive hashes seed locked params = (.success, output) →
    let key := Zip32.orchard hashes seed params.path.indices
    output = params.output.written key.sk key.chainCode

/-- A call that does not succeed writes no other key. -/
theorem forall_written_of_ne_success {r : OsResult × Output} (h : r.1 ≠ .success)
    (P : Output → Prop) : ∀ output, r = (.success, output) → P output :=
  fun _ heq => absurd (congrArg Prod.fst heq) h

theorem forall_written_iff {output : Output} {zero key zeroChain chain : Bytes} {path : List UInt32}
    (hprivate : output.privateKey ≠ none) (hlen : zero.length = key.length)
    (hr : r = (.success, if path = [] then output.written zero zeroChain
      else output.written key chain)) :
    (∀ output', r = (OsResult.success, output') → output' = output.written key chain) ↔
      path ≠ [] ∨ zero = key ∧ (output.chain = none ∨ zeroChain = chain) := by
  rw [hr]
  simp only [Prod.mk.injEq, true_and, forall_eq']
  by_cases hpath : path = []
  · rw [if_pos hpath, written_eq_iff hprivate hlen]
    simp [hpath]
  · rw [if_neg hpath]
    simp [hpath]

theorem saplingWritesFold_iff (hashes : Hashes) (seed : Seed) (locked : Bool) (params : Params) :
    SaplingWritesFold hashes seed locked params ↔
      saplingChecks params ≠ .success ∨ locked = true ∨ params.path.indices ≠ [] ∨
        SaplingXsk.zero.fields = (Zip32.saplingMaster hashes seed).fields ∧
          (params.chain = none ∨
            SaplingXsk.zero.chainCode = (Zip32.saplingMaster hashes seed).chainCode) := by
  by_cases hchecks : saplingChecks params = .success
  · cases locked with
    | true =>
      refine iff_of_true (forall_written_of_ne_success ?_ _) (.inr (.inl rfl))
      rw [zip32SaplingDerive_locked hashes seed hchecks]
      exact OsResult.noConfusion
    | false =>
      obtain ⟨hprivate, hlen, hchain⟩ := saplingChecks_success hchecks
      have hkey := Zip32.sized_sapling hashes seed params.path.indices
      have hderive := zip32SaplingDerive_eq hashes seed hchecks
      rw [apply_ite (writeSapling params.output), writeSapling_eq SaplingXsk.sized_zero hlen hchain,
        writeSapling_eq hkey hlen hchain] at hderive
      refine (forall_written_iff hprivate (SaplingXsk.sized_zero.fields.trans hkey.fields.symm)
        hderive).trans ?_
      by_cases hpath : params.path.indices = []
      · rw [hpath]
        simp only [hchecks, ne_eq, not_true_eq_false, Bool.false_eq_true, false_or]
        rfl
      · simp [hpath]
  · refine iff_of_true (forall_written_of_ne_success ?_ _) (.inl hchecks)
    rw [zip32SaplingDerive, if_pos hchecks]
    exact hchecks

theorem orchardWritesFold_iff (hashes : Hashes) (seed : Seed) (locked : Bool) (params : Params) :
    OrchardWritesFold hashes seed locked params ↔
      hardChecks params ≠ .success ∨ params.path.indices ≠ [] ∨
        HardSk.zero.sk = (zip32OrchardMasterKey hashes seed).sk ∧
          (params.chain = none ∨
            HardSk.zero.chainCode = (zip32OrchardMasterKey hashes seed).chainCode) := by
  by_cases hchecks : hardChecks params = .success
  · obtain ⟨hprivate, hlen, hchain⟩ := hardChecks_success hchecks
    have hkey := Zip32.sized_orchard hashes seed params.path.indices
    have hderive := zip32OrchardDerive_eq hashes seed locked hchecks
    rw [apply_ite (writeHard params.output), writeHard_eq HardSk.sized_zero.chainCode hchain,
      writeHard_eq hkey.chainCode hchain] at hderive
    refine (forall_written_iff hprivate (HardSk.sized_zero.sk.trans hkey.sk.symm) hderive).trans ?_
    by_cases hpath : params.path.indices = []
    · rw [hpath]
      simp only [hchecks, ne_eq, not_true_eq_false, false_or]
      rfl
    · simp [hpath]
  · refine iff_of_true (forall_written_of_ne_success ?_ _) (.inl hchecks)
    rw [zip32OrchardDerive, if_pos hchecks]
    exact hchecks

/-- A successful call writes the fold exactly where the path has an index, or the
master key happens to be the one with all bytes zero. -/
theorem zip32_writesFold_iff (hashes : Hashes) (seed : Seed) (locked : Bool) (params : Params) :
    (SaplingWritesFold hashes seed locked params ↔
      saplingChecks params ≠ .success ∨ locked = true ∨ params.path.indices ≠ [] ∨
        SaplingXsk.zero.fields = (Zip32.saplingMaster hashes seed).fields ∧
          (params.chain = none ∨
            SaplingXsk.zero.chainCode = (Zip32.saplingMaster hashes seed).chainCode)) ∧
    (OrchardWritesFold hashes seed locked params ↔
      hardChecks params ≠ .success ∨ params.path.indices ≠ [] ∨
        HardSk.zero.sk = (zip32OrchardMasterKey hashes seed).sk ∧
          (params.chain = none ∨
            HardSk.zero.chainCode = (zip32OrchardMasterKey hashes seed).chainCode)) :=
  ⟨saplingWritesFold_iff hashes seed locked params, orchardWritesFold_iff hashes seed locked params⟩

/-- The hash of the seed `00 01 02 .. 3f` for Orchard. -/
def orchardHashes : Hashes where
  blake2b _ _ :=
    toBE 64 0xef001c419f955725d5a4a152a55c26615d0c42f5ed2bfda33d612c8f0aed056ca43650eaafa9cfc291d9c81d98eada8eec9e96e53df060dddf8dcd1f3b349483
  hmacSha512 _ _ := List.replicate 64 0
  length_blake2b _ _ := length_toBE 64 _
  length_hmacSha512 _ _ := rfl

/-- Orchard with an empty path and buffers of 32 bytes. -/
def noIndex : Params where
  mode := 0x20
  curve := .other
  path := ⟨[], 0, rfl⟩
  pathNull := false
  privateKey := some (List.replicate 32 0xFF)
  chain := none
  seedKey := none
  pathLength_lt := by decide

theorem orchard_no_index :
    ¬ OrchardWritesFold orchardHashes
      ⟨(List.range 64).map UInt8.ofNat, by decide⟩ false noIndex := by
  rw [orchardWritesFold_iff]
  decide

end Speculos.Hdkey
