import Mathlib.Data.List.GetD
import Speculos.Hash.Sha2
import Speculos.Lib.BlockFold

/-!
# SHA3, Keccak and SHAKE

The sponges: a block is added to the first words of the state, and the state is permuted.
The block of a context is an array of 200 bytes, of which the first `blockSize` are used.
-/

namespace Speculos.Hash

open Lib

-- ---------------------------------------------------------------------------
-- The block function
-- ---------------------------------------------------------------------------

abbrev Sha3State := Vector UInt64 25

def sha3Words (blockSize : Nat) : Nat :=
  if blockSize > 144 then 21
  else if blockSize > 136 then 18
  else if blockSize > 104 then 17
  else if blockSize > 72 then 13
  else 9

/-- `acc[i] ^= block[i]` for the first words. -/
def xorWords (words : Nat) (acc : Sha3State) (block : Bytes) : Sha3State :=
  .ofFn fun i => if i < words then acc[i] ^^^ UInt64.ofNat (fromLE ((block.drop (8 * i)).take 8))
    else acc[i]

/-- `perm` stands for the 24 rounds. -/
def specCxSha3Block (perm : Sha3State → Sha3State) (blockSize : Nat) (acc : Sha3State)
    (block : Bytes) :
    Sha3State :=
  perm (xorWords (sha3Words blockSize) acc block)

def sha3BlockFunction (perm : Sha3State → Sha3State) (blockSize : Nat) :
    BlockFunction Sha3State where
  acc := specCxSha3Block perm blockSize
  block _ b := b
  length_block _ _ := rfl

-- ---------------------------------------------------------------------------
-- Contexts
-- ---------------------------------------------------------------------------

/-- `cx_sha3_t` after an init function that succeeds. -/
structure Sha3Context extends Context Sha3State where
  outputSize : Nat
  blockSize : Nat
  blockSize_pos : 0 < blockSize

/-- `memset(hash, 0, sizeof(cx_sha3_t))` and the fields that are set. -/
def sha3Zeroed (algo : CxMd) (outputSize blockSize : Nat) (h : 0 < blockSize) : Sha3Context :=
  ⟨⟨algo, 0, 0, List.replicate 200 0, .replicate 25 0⟩, outputSize, blockSize, h⟩

def CheckHashOutSize (size : Nat) : Prop :=
  size = 128 ∨ size = 224 ∨ size = 256 ∨ size = 384 ∨ size = 512

instance : DecidablePred CheckHashOutSize := fun size => by
  unfold CheckHashOutSize
  infer_instance

theorem rate_pos (h : CheckHashOutSize size) : 0 < (1600 - 2 * size) / 8 := by
  rcases h with rfl | rfl | rfl | rfl | rfl <;> decide

def cxSha3Init (size : Nat) : Option Sha3Context :=
  if h : CheckHashOutSize size then some
    (sha3Zeroed .sha3 (size / 8) ((1600 - 2 * size) / 8) (rate_pos h))
  else none

def cxKeccakInit (size : Nat) : Option Sha3Context :=
  if h : CheckHashOutSize size then some
    (sha3Zeroed .keccak (size / 8) ((1600 - 2 * size) / 8) (rate_pos h))
  else none

def cxShake128Init (size : Nat) : Option Sha3Context :=
  if size % 8 ≠ 0 then none else some (sha3Zeroed .shake128 (size / 8) ((1600 - 2 * 128) / 8) (by decide))

def cxShake256Init (size : Nat) : Option Sha3Context :=
  if size % 8 ≠ 0 then none else some (sha3Zeroed .shake256 (size / 8) ((1600 - 2 * 256) / 8) (by decide))

def cxSha3XofInit (size outLength : Nat) : Option Sha3Context :=
  if size = 128 then some (sha3Zeroed .shake128 outLength ((1600 - 2 * 128) / 8) (by decide))
  else if size = 256 then some (sha3Zeroed .shake256 outLength ((1600 - 2 * 256) / 8) (by decide))
  else none

-- ---------------------------------------------------------------------------
-- Update and final
-- ---------------------------------------------------------------------------

def specCxSha3Update (perm : Sha3State → Sha3State) (ctx : Sha3Context) (data : Bytes) :
    Except Failure Sha3Context :=
  if ctx.blockSize > 200 then .error .refused
  else if ctx.blen ≥ ctx.blockSize then .error .refused
  else
    (append (sha3BlockFunction perm ctx.blockSize) true ctx.blockSize ctx.blockSize_pos ctx.toContext
      data).map fun c => { ctx with toContext := c }

/-- `block[i] |= b` -/
def orAt (block : Bytes) (i : Nat) (b : UInt8) : Bytes := block.modify i (· ||| b)

/-- The loop of the last part, where the block is zero. -/
def squeezeLoop (perm : Sha3State → Sha3State) (blockSize : Nat) (hpos : 0 < blockSize)
    (acc : Sha3State) (blen : Nat) : Bytes :=
  if _h : blen > blockSize then
    (wordsLE64 acc).take blockSize ++
      squeezeLoop perm blockSize hpos (specCxSha3Block perm blockSize acc (List.replicate 200 0))
        (blen - blockSize)
  else (wordsLE64 acc).take blen
termination_by blen
decreasing_by omega

def specCxSha3Final (perm : Sha3State → Sha3State) (ctx : Sha3Context) : Bytes :=
  let block := overwrite ctx.block ctx.blen (List.replicate (200 - ctx.blen) 0)
  if ctx.algo = .keccak ∨ ctx.algo = .sha3 then
    let block := orAt block ctx.blen (if ctx.algo = .keccak then 0x01 else 0x06)
    let block := orAt block (ctx.blockSize - 1) 0x80
    (wordsLE64 (specCxSha3Block perm ctx.blockSize ctx.acc block)).take ctx.outputSize
  else
    let block := orAt block ctx.blen 0x1f
    let block := orAt block (ctx.blockSize - 1) 0x80
    squeezeLoop perm ctx.blockSize ctx.blockSize_pos
      (specCxSha3Block perm ctx.blockSize ctx.acc block)
      ctx.outputSize

-- ---------------------------------------------------------------------------
-- The standard
-- ---------------------------------------------------------------------------

/-- The sizes of a block. -/
def IsRate (rate : Nat) : Prop := rate = 168 ∨ rate = 144 ∨ rate = 136 ∨ rate = 104 ∨ rate = 72

theorem isRate_of_size (h : CheckHashOutSize size) : IsRate ((1600 - 2 * size) / 8) := by
  rcases h with rfl | rfl | rfl | rfl | rfl
  · exact .inl rfl
  · exact .inr (.inl rfl)
  · exact .inr (.inr (.inl rfl))
  · exact .inr (.inr (.inr (.inl rfl)))
  · exact .inr (.inr (.inr (.inr rfl)))

/-- A block is added to the state, and the state is permuted. -/
def absorbWords (perm : Sha3State → Sha3State) (rate : Nat) (acc : Sha3State) (block : Bytes) :
    Sha3State :=
  perm (xorWords (rate / 8) acc block)

def stateByte (acc : Sha3State) (i : Nat) : UInt8 := (wordsLE64 acc).getD i 0

/-- The sponge that absorbs `m` and the first bits, and is squeezed. -/
def spongeDigest (perm : Sha3State → Sha3State) (rate : Nat) (first : UInt8) (outputSize : Nat)
    (m : Bytes) : Bytes :=
  squeeze perm stateByte rate
    (absorb (absorbWords perm rate) rate (.replicate 25 0) (m ++ spongePadding rate first m.length))
    outputSize

def CxMd.firstBits : CxMd → UInt8
  | .keccak => 0x01
  | .sha3 => 0x06
  | _ => 0x1f

-- ---------------------------------------------------------------------------
-- Blocks and states
-- ---------------------------------------------------------------------------

section

variable {perm : Sha3State → Sha3State} {rate : Nat} {acc : Sha3State} {b : Bytes}

theorem sha3Words_eq (h : IsRate rate) : sha3Words rate = rate / 8 := by
  rcases h with rfl | rfl | rfl | rfl | rfl <;> rfl

theorem xorWords_take (words : Nat) (acc : Sha3State) (b : Bytes) :
    xorWords words acc (b.take (8 * words)) = xorWords words acc b := by
  refine Vector.ext fun i hi => ?_
  simp only [xorWords, Vector.getElem_ofFn]
  by_cases h : i < words
  · have htake : ((b.take (8 * words)).drop (8 * i)).take 8 = (b.drop (8 * i)).take 8 := by
      rw [List.drop_take, List.take_take, Nat.min_eq_left (by omega)]
    rw [if_pos h, if_pos h, htake]
  · rw [if_neg h, if_neg h]

theorem xorWords_zero (words n : Nat) (acc : Sha3State) :
    xorWords words acc (List.replicate n 0) = acc := by
  refine Vector.ext fun i hi => ?_
  have hzero (k : Nat) : UInt64.ofNat (fromLE (List.replicate k 0)) = 0 := by
    rw [fromLE, List.reverse_replicate, fromBE_replicate_zero]
    rfl
  simp only [xorWords, Vector.getElem_ofFn, List.drop_replicate, List.take_replicate, hzero,
    UInt64.xor_zero]
  split <;> rfl

theorem sha3_reads (h : IsRate rate) :
    (sha3BlockFunction perm rate).Reads (absorbWords perm rate) rate 200 := by
  intro acc b _
  have hrate : 8 * (rate / 8) = rate := by
    rcases h with rfl | rfl | rfl | rfl | rfl <;> rfl
  have htake := xorWords_take (rate / 8) acc b
  rw [hrate] at htake
  show perm (xorWords (sha3Words rate) acc b) = perm (xorWords (rate / 8) acc (b.take rate))
  rw [sha3Words_eq h, htake]

theorem specCxSha3Block_zero (n : Nat) :
    specCxSha3Block perm rate acc (List.replicate n 0) = perm acc :=
  congrArg perm (xorWords_zero ..)

theorem length_wordsLE64 (acc : Vector UInt64 k) : (wordsLE64 acc).length = 8 * k := by
  have hlen (ws : List UInt64) : (ws.flatMap fun w => toLE 8 w.toNat).length = 8 * ws.length := by
    induction ws with
    | nil => rfl
    | cons w ws ih =>
      rw [List.flatMap_cons, List.length_append, ih, length_toLE, List.length_cons]
      omega
  rw [wordsLE64, hlen, Vector.length_toList]

theorem map_stateByte (h : d ≤ 200) : (List.range d).map
    (stateByte acc) = (wordsLE64 acc).take d := by
  have hlen : (wordsLE64 acc).length = 200 := length_wordsLE64 acc
  refine List.ext_getElem (by simp [hlen, h]) fun i hi _ => ?_
  rw [List.length_map, List.length_range] at hi
  rw [List.getElem_map, List.getElem_range, List.getElem_take]
  exact List.getD_eq_getElem _ _ (by omega)

theorem squeezeLoop_eq (hpos : 0 < rate) (hle : rate ≤ 200) (acc : Sha3State) (d : Nat) :
    squeezeLoop perm rate hpos acc d = squeeze perm stateByte rate acc d := by
  induction d using Nat.strongRecOn generalizing acc with
  | _ d ih =>
  rw [squeezeLoop]
  by_cases hd : d > rate
  · have hsplit : squeeze perm stateByte rate acc (rate + (d - rate)) = _ :=
      squeeze_add hpos acc (d - rate)
    rw [Nat.add_sub_cancel' (Nat.le_of_lt hd), map_stateByte hle] at hsplit
    rw [dif_pos hd, specCxSha3Block_zero, ih (d - rate) (by omega), hsplit]
  · rw [dif_neg hd, squeeze_of_le (Nat.not_lt.mp hd), map_stateByte (by omega)]

end

-- ---------------------------------------------------------------------------
-- Streaming
-- ---------------------------------------------------------------------------

theorem orAt_append (xs ys : Bytes) (y b : UInt8) (h : xs.length = i) :
    orAt (xs ++ y :: ys) i b = xs ++ (y ||| b) :: ys := by
  subst h
  induction xs with
  | nil => rfl
  | cons x xs ih => exact congrArg (x :: ·) ih

theorem take_padded (rest : Bytes) (first : UInt8) (hrest : rest.length < rate)
    (hrate : rate ≤ 200) :
    (orAt (orAt (rest ++ List.replicate (200 - rest.length) 0) rest.length first) (rate - 1) 0x80).take
        rate =
      rest ++ spongePadding rate first rest.length := by
  have hmod : rest.length % rate = rest.length := Nat.mod_eq_of_lt hrest
  rw [spongePadding, hmod]
  by_cases hlast : rest.length + 1 = rate
  · have hzeros : List.replicate (200 - rest.length) (0 : UInt8) =
        0 :: List.replicate (200 - rate) 0 := by
      rw [← List.replicate_succ]
      congr 1
      omega
    rw [hzeros, orAt_append _ _ _ _ rfl, orAt_append _ _ _ _ (by omega), if_pos hlast,
      UInt8.zero_or, ← List.singleton_append, ← List.append_assoc]
    exact List.take_left' (by simp; omega)
  · have hzeros : List.replicate (200 - rest.length) (0 : UInt8) =
        0 :: (List.replicate (rate - rest.length - 2) 0 ++ 0 :: List.replicate (200 - rate) 0) := by
      rw [← List.replicate_succ, ← List.replicate_add, ← List.replicate_succ]
      congr 1
      omega
    have hsecond := orAt_append (i := rate - 1)
      (rest ++ first :: List.replicate (rate - rest.length - 2) 0)
        (List.replicate (200 - rate) 0) 0 0x80
      (by simp; omega)
    rw [List.append_assoc, List.cons_append] at hsecond
    rw [hzeros, orAt_append _ _ _ _ rfl, UInt8.zero_or, hsecond, if_neg hlast, UInt8.zero_or]
    have hsplit : (rest ++ first :: List.replicate (rate - rest.length - 2) 0) ++
        0x80 :: List.replicate (200 - rate) 0 =
        (rest ++ first :: (List.replicate (rate - rest.length - 2) 0 ++ [0x80])) ++
          List.replicate (200 - rate) 0 := by
      simp only [List.append_assoc, List.cons_append, List.nil_append]
    rw [hsplit]
    exact List.take_left' (by simp; omega)

section

variable {perm : Sha3State → Sha3State} {rate outputSize : Nat} {hpos : 0 < rate} {algo : CxMd}
  {ctx ctx' : Sha3Context} {m data : Bytes}

/-- The context is one of this hash, and it stands for `m`. -/
structure Sha3Holds (perm : Sha3State → Sha3State) (algo : CxMd) (rate outputSize : Nat)
    (ctx : Sha3Context) (m : Bytes) : Prop where
  holds : Holds (absorbWords perm rate) rate 200 (.replicate 25 0) ctx.toContext m
  algo : ctx.algo = algo
  blockSize : ctx.blockSize = rate
  outputSize : ctx.outputSize = outputSize

theorem IsRate.le (h : IsRate rate) : rate ≤ 200 := by
  rcases h with rfl | rfl | rfl | rfl | rfl <;> decide

theorem specCxSha3Update_eq (hrate : IsRate rate)
    (hctx : Sha3Holds perm algo rate outputSize ctx m) :
    specCxSha3Update perm ctx data =
      (append (sha3BlockFunction perm ctx.blockSize) true ctx.blockSize ctx.blockSize_pos ctx.toContext
        data).map fun c => { ctx with toContext := c } := by
  have hlt := Nat.mod_lt m.length ctx.blockSize_pos
  have hle := hrate.le
  have hblock := hctx.blockSize
  rw [specCxSha3Update, if_neg (by omega), if_neg]
  rw [hctx.holds.blen, ← hblock]
  exact Nat.not_le.mpr hlt

theorem specCxSha3Update_ok (hrate : IsRate rate) (hctx : Sha3Holds perm algo rate outputSize ctx m)
    (hlimit : WithinLimit true ((m ++ data).length / rate)) (hdata : data.length + 424 ≤ 2 ^ 32) :
    ∃ ctx', specCxSha3Update perm ctx data = .ok ctx' ∧
      Sha3Holds perm algo rate outputSize ctx' (m ++ data) := by
  have hle := hrate.le
  obtain ⟨hholds, halgo, rfl, hsize⟩ := hctx
  obtain ⟨c, happend, hc, hcalgo⟩ := append_ok ctx.blockSize_pos (sha3_reads hrate) hle hholds
    hlimit (by omega)
  refine ⟨{ ctx with toContext := c }, ?_, ⟨hc, hcalgo.trans halgo, rfl, hsize⟩⟩
  rw [specCxSha3Update_eq hrate ⟨hholds, halgo, rfl, hsize⟩, happend]
  rfl

theorem specCxSha3Update_thrown (hrate : IsRate rate)
    (hctx : Sha3Holds perm algo rate outputSize ctx m) (hm : WithinLimit true (m.length / rate))
    (hover : ¬ WithinLimit true ((m ++ data).length / rate)) (hdata : data.length + 424 ≤ 2 ^ 32) :
    specCxSha3Update perm ctx data = .error .thrown := by
  have hle := hrate.le
  obtain ⟨hholds, halgo, rfl, hsize⟩ := hctx
  have hthrown := append_thrown ctx.blockSize_pos (sha3_reads hrate) hle hholds (hm rfl)
    (Nat.lt_of_not_le fun h => hover fun _ => h) (by omega)
  rw [specCxSha3Update_eq hrate ⟨hholds, halgo, rfl, hsize⟩, hthrown]
  rfl

theorem specCxSha3Final_eq (hrate : IsRate rate) (hctx : Sha3Holds perm algo rate outputSize ctx m)
    (hsize : algo = .keccak ∨ algo = .sha3 → outputSize ≤ rate) :
    specCxSha3Final perm ctx = spongeDigest perm rate algo.firstBits outputSize m := by
  have hle := hrate.le
  obtain ⟨hholds, rfl, rfl, rfl⟩ := hctx
  have hblen : ctx.blen < ctx.blockSize := hholds.blen ▸ Nat.mod_lt _ ctx.blockSize_pos
  have hrest : (leftover ctx.blockSize m).length = ctx.blen :=
    (length_leftover m).trans hholds.blen.symm
  have hfill : overwrite ctx.block ctx.blen (List.replicate (200 - ctx.blen) 0) =
      leftover ctx.blockSize m ++ List.replicate (200 - ctx.blen) 0 := by
    rw [overwrite_end _ _ (by rw [List.length_replicate, hholds.length_block]; omega), hholds.rest]
  have hpad (len : Nat) : spongePadding ctx.blockSize ctx.algo.firstBits (len % ctx.blockSize) =
      spongePadding ctx.blockSize ctx.algo.firstBits len := by
    rw [spongePadding, spongePadding, Nat.mod_mod]
  have hblock (first : UInt8) (hfirst : first = ctx.algo.firstBits) :
      specCxSha3Block perm ctx.blockSize ctx.acc
          (orAt (orAt (overwrite ctx.block ctx.blen (List.replicate (200 - ctx.blen) 0)) ctx.blen first)
            (ctx.blockSize - 1) 0x80) =
        absorb (absorbWords perm ctx.blockSize) ctx.blockSize (.replicate 25 0)
          (m ++ spongePadding ctx.blockSize ctx.algo.firstBits m.length) := by
    have hpadded := take_padded (leftover ctx.blockSize m) first (hrest ▸ hblen) hle
    rw [absorb_spongePadding ctx.blockSize_pos, hfill, ← hpad, ← length_leftover, ← hfirst,
      ← hpadded, hrest, ← hholds.acc]
    exact sha3_reads hrate _ _ (by simp [orAt, hrest]; omega)
  rw [spongeDigest]
  by_cases halgo : ctx.algo = .keccak ∨ ctx.algo = .sha3
  · have hfirst : (if ctx.algo = .keccak then 0x01 else 0x06) = ctx.algo.firstBits := by
      rcases halgo with h | h <;> rw [h] <;> rfl
    refine (if_pos halgo).trans ?_
    rw [squeeze_of_le (hsize halgo), map_stateByte (Nat.le_trans (hsize halgo) hle)]
    exact congrArg (fun acc => (wordsLE64 acc).take ctx.outputSize) (hblock _ hfirst)
  · have hfirst : 0x1f = ctx.algo.firstBits := by
      cases h : ctx.algo <;> simp_all [CxMd.firstBits]
    refine (if_neg halgo).trans ?_
    rw [← squeezeLoop_eq ctx.blockSize_pos hle]
    exact congrArg (squeezeLoop perm ctx.blockSize ctx.blockSize_pos · ctx.outputSize)
      (hblock _ hfirst)

theorem sha3Holds_init (algo : CxMd) (outputSize : Nat) (hpos : 0 < rate) :
    Sha3Holds perm algo rate outputSize (sha3Zeroed algo outputSize rate hpos) [] :=
  ⟨holds_init _ hpos _ _, rfl, rfl, rfl⟩

variable (perm) in
theorem updates_sha3 (hrate : IsRate rate) (algo : CxMd) (outputSize : Nat) (hpos : 0 < rate)
    (pieces : List (Piece 424)) (hlimit : (message pieces).length / rate ≤ 65535) :
    ∃ ctx, updates (specCxSha3Update perm) (sha3Zeroed algo outputSize rate hpos) pieces = .ok ctx ∧
      Sha3Holds perm algo rate outputSize ctx (message pieces) :=
  updates_ok _ (fun m => WithinLimit true (m.length / rate)) (fun _ _ => withinLimit_append)
    (fun _ _ _ hctx hlimit hdata => specCxSha3Update_ok hrate hctx hlimit hdata)
    (sha3Holds_init algo outputSize hpos)
    (show WithinLimit true ((message pieces).length / rate) from fun _ => hlimit)

/-- Beyond the limit an update throws. -/
theorem updates_sha3_thrown (hrate : IsRate rate) (algo : CxMd) (outputSize : Nat) (hpos : 0 < rate)
    (pieces : List (Piece 424)) (hlimit : ¬ (message pieces).length / rate ≤ 65535) :
    updates (specCxSha3Update perm) (sha3Zeroed algo outputSize rate hpos) pieces =
      .error .thrown :=
  updates_thrown _ (fun m => WithinLimit true (m.length / rate))
    (fun _ _ _ hctx hlimit hdata => specCxSha3Update_ok hrate hctx hlimit hdata)
    (fun _ _ _ hctx => specCxSha3Update_thrown hrate hctx) (sha3Holds_init algo outputSize hpos)
    (fun _ => by rw [List.length_nil, Nat.zero_div]; omega)
    (show ¬ WithinLimit true ((message pieces).length / rate) from fun h => hlimit (h rfl))

theorem streamed_sha3 (hrate : IsRate rate)
    (hsize : algo = .keccak ∨ algo = .sha3 → outputSize ≤ rate) (pieces : List (Piece 424)) :
    streamed (sha3Zeroed algo outputSize rate hpos) (specCxSha3Update perm)
      (specCxSha3Final perm) pieces =
      if (message pieces).length / rate ≤ 65535 then
        .ok (spongeDigest perm rate algo.firstBits outputSize (message pieces))
      else .error .thrown := by
  by_cases hlimit : (message pieces).length / rate ≤ 65535
  · obtain ⟨ctx, hupdates, hctx⟩ := updates_sha3 perm hrate algo outputSize hpos pieces hlimit
    rw [if_pos hlimit, streamed, hupdates]
    exact congrArg Except.ok (specCxSha3Final_eq hrate hctx hsize)
  · rw [if_neg hlimit, streamed, updates_sha3_thrown hrate algo outputSize hpos pieces hlimit]
    rfl

end

end Speculos.Hash
