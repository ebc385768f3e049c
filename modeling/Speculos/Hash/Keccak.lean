import Speculos.Hash.Fips180
import Speculos.Hash.Sha3
import Speculos.Lib.InPlace

/-!
# The rounds of Keccak

`cx_sha3_theta`, `cx_sha3_rho_pi`, `cx_sha3_chi` and `cx_sha3_iota` work on the words of the
state where they stand. Each of them is a step mapping of the standard, or two.
-/

namespace Speculos.Hash

open Lib
open Fips202 (StateArray)

local instance neZero_lanes : NeZero 5 := Fips202.neZero_sheet

local instance neZero_word : NeZero 64 := ⟨by decide⟩

-- ---------------------------------------------------------------------------
-- The code
-- ---------------------------------------------------------------------------

/-- `x + 5 * y` -/
def lane (x y : Fin 5) : Fin 25 := ⟨x + 5 * y, by omega⟩

/-- `S64(x, y)` -/
def s64 (state : Sha3State) (x y : Fin 5) : UInt64 := state.get (lane x y)

def setS64 (state : Sha3State) (x y : Fin 5) (v : UInt64) : Sha3State :=
  state.set (lane x y) v (lane x y).isLt

def cxRotl64 (x n : UInt64) : UInt64 := (x <<< n) ||| (x >>> (64 - n))

/-- The loop over `j`. -/
def addToColumn (d : UInt64) (state : Sha3State) (i : Fin 5) : Sha3State :=
  (List.finRange 5).foldl (fun state j => setS64 state i j (s64 state i j ^^^ d)) state

/-- `C[i]` -/
def columnSum (state : Sha3State) (i : Fin 5) : UInt64 :=
  s64 state i 0 ^^^ s64 state i 1 ^^^ s64 state i 2 ^^^ s64 state i 3 ^^^ s64 state i 4

def cxSha3Theta (state : Sha3State) : Sha3State :=
  let c := Vector.ofFn (columnSum state)
  (List.finRange 5).foldl
    (fun state i => addToColumn (c.get (i + 4) ^^^ cxRotl64 (c.get (i + 1)) 1) state i) state

def cxPiTable : List (Fin 25) :=
  [10, 7, 11, 17, 18, 3, 5, 16, 8, 21, 24, 4, 15, 23, 19, 13, 12, 2, 20, 14, 22, 9, 6, 1]

def cxRhoTable : List Nat :=
  [1, 3, 6, 10, 15, 21, 28, 36, 45, 55, 2, 14, 27, 41, 56, 8, 25, 43, 62, 18, 39, 61, 20, 44]

/-- The state and `A` after a turn of the loop. -/
def rhoPiTurn (s : Sha3State × UInt64) (i : Nat) : Sha3State × UInt64 :=
  let (state, a) := s
  let j := cxPiTable.getD i 0
  let tmp := state.get j
  (state.set j (cxRotl64 a (UInt64.ofNat (cxRhoTable.getD i 0))) j.isLt, tmp)

def cxSha3RhoPi (state : Sha3State) : Sha3State :=
  ((List.range 24).foldl rhoPiTurn (state, state.get 1)).1

/-- The loops over `i`. -/
def chiRow (state : Sha3State) (j : Fin 5) : Sha3State :=
  let c : Vector UInt64 5 := .ofFn fun i => s64 state i j
  (List.finRange 5).foldl
    (fun state i => setS64 state i j (s64 state i j ^^^ (~~~c.get (i + 1) &&& c.get (i + 2)))) state

def cxSha3Chi (state : Sha3State) : Sha3State := (List.finRange 5).foldl chiRow state

def cxIotaRC : List UInt64 :=
  [0x0000000000000001, 0x0000000000008082, 0x800000000000808a, 0x8000000080008000,
   0x000000000000808b, 0x0000000080000001, 0x8000000080008081, 0x8000000000008009,
   0x000000000000008a, 0x0000000000000088, 0x0000000080008009, 0x000000008000000a,
   0x000000008000808b, 0x800000000000008b, 0x8000000000008089, 0x8000000000008003,
   0x8000000000008002, 0x8000000000000080, 0x000000000000800a, 0x800000008000000a,
   0x8000000080008081, 0x8000000000008080, 0x0000000080000001, 0x8000000080008008]

def cxSha3Iota (state : Sha3State) (round : Nat) : Sha3State :=
  setS64 state 0 0 (s64 state 0 0 ^^^ cxIotaRC.getD round 0)

def sha3Round (acc : Sha3State) (r : Nat) : Sha3State :=
  cxSha3Iota (cxSha3Chi (cxSha3RhoPi (cxSha3Theta acc))) r

/-- The loop over `r`. -/
def sha3Rounds (acc : Sha3State) : Sha3State := (List.range 24).foldl sha3Round acc

-- ---------------------------------------------------------------------------
-- Words and bits
-- ---------------------------------------------------------------------------

def stateArray (state : Sha3State) : StateArray 64 :=
  fun x y z => (s64 state x y).toBitVec.getLsbD z

theorem exists_lane : ∀ k : Fin 25, ∃ x y, lane x y = k := by
  decide

theorem stateArray_injective (h : stateArray s = stateArray t) : s = t := by
  refine Vector.ext fun i hi => ?_
  obtain ⟨x, y, hlane⟩ := exists_lane ⟨i, hi⟩
  show s.get ⟨i, hi⟩ = t.get ⟨i, hi⟩
  rw [← hlane]
  refine UInt64.toBitVec_inj.mp (BitVec.eq_of_getLsbD_eq fun z hz => ?_)
  exact congrFun (congrFun (congrFun h x) y) ⟨z, hz⟩

theorem lane_inj : lane x y = lane x' y' ↔ x = x' ∧ y = y' := by
  revert x y x' y'
  decide

theorem s64_setS64 (state : Sha3State) (x y : Fin 5) (v : UInt64) (x' y' : Fin 5) :
    s64 (setS64 state x y v) x' y' = if x' = x ∧ y' = y then v else s64 state x' y' := by
  show (state.set (lane x y) v (lane x y).isLt)[(lane x' y').val] = _
  rw [Vector.getElem_set]
  simp only [Fin.val_inj, lane_inj, eq_comm (a := x), eq_comm (a := y)]
  rfl

theorem getLsbD_cxRotl64 (x : UInt64) {n : Nat} (hpos : 0 < n) (hlt : n < 64) (z : Fin 64) :
    (cxRotl64 x (UInt64.ofNat n)).toBitVec.getLsbD z =
      x.toBitVec.getLsbD (z - Fin.ofNat 64 n).val := by
  have hn : (UInt64.ofNat n).toNat = n := UInt64.toNat_ofNat_of_lt' (Nat.lt_trans hlt (by decide))
  have hle : UInt64.ofNat n ≤ 64 := by
    rw [UInt64.le_iff_toNat_le, hn]
    exact Nat.le_of_lt hlt
  have hsub : (64 - UInt64.ofNat n).toNat = 64 - n := by
    rw [UInt64.toNat_sub_of_le _ _ hle, hn]
    rfl
  have hval : (z - Fin.ofNat 64 n).val = if z.val < n then 64 - n + z.val else z.val - n := by
    rw [Fin.sub_def, Fin.val_ofNat, Nat.mod_eq_of_lt hlt]
    have hz := z.isLt
    split <;> simp <;> omega
  have hbit (y : UInt64) (i : Nat) : y.toBitVec.getLsbD i = y.toNat.testBit i := rfl
  rw [hval, hbit, hbit, cxRotl64, UInt64.toNat_or, UInt64.toNat_shiftRight, UInt64.toNat_shiftLeft,
    hn, hsub, Nat.mod_eq_of_lt hlt, Nat.mod_eq_of_lt (Nat.sub_lt (by decide) hpos), Nat.testBit_or,
    Nat.testBit_shiftRight]
  rw [Nat.testBit_mod_two_pow, Nat.testBit_shiftLeft]
  have hz := z.isLt
  have hhigh : x.toNat < 2 ^ 64 := x.toNat_lt
  split
  · rw [decide_eq_false (p := z.val ≥ n) (by omega)]
    simp
  · have hfalse : x.toNat.testBit (64 - n + z.val) = false :=
      Nat.testBit_lt_two_pow (Nat.lt_of_lt_of_le hhigh (Nat.pow_le_pow_right (by decide) (by omega)))
    rw [hfalse, decide_eq_true (p := z.val ≥ n) (by omega), decide_eq_true hz]
    simp

-- ---------------------------------------------------------------------------
-- Theta
-- ---------------------------------------------------------------------------

/-- The words of a column, and of a row. -/
def column (state : Sha3State) (x y : Fin 5) : UInt64 := s64 state x y

def row (state : Sha3State) (y x : Fin 5) : UInt64 := s64 state x y

theorem foldl_finRange {part : Sha3State → Fin 5 → Fin 5 → UInt64} (h : InPlace.OwnPart part step g)
    (state : Sha3State) (j : Fin 5) :
    part ((List.finRange 5).foldl step state) j = g j (part state j) :=
  h.foldl_of_mem (List.nodup_finRange 5) (List.mem_finRange j) state

theorem s64_addToColumn (d : UInt64) (state : Sha3State) (i x y : Fin 5) :
    s64 (addToColumn d state i) x y = if x = i then s64 state x y ^^^ d else s64 state x y := by
  have hown : InPlace.OwnPart row (fun state j => setS64 state i j (s64 state i j ^^^ d))
      fun _ words x => if x = i then words x ^^^ d else words x := by
    intro state j j'
    funext x
    by_cases hj : j' = j
    · subst hj
      by_cases hx : x = i <;> simp [row, s64_setS64, hx]
    · simp [row, s64_setS64, hj]
  exact congrFun (foldl_finRange hown state y) x

theorem s64_addToColumns (d : Fin 5 → UInt64) (state : Sha3State) (x y : Fin 5) :
    s64 ((List.finRange 5).foldl (fun state i => addToColumn (d i) state i) state) x y =
      s64 state x y ^^^ d x := by
  have hown : InPlace.OwnPart column (fun state i => addToColumn (d i) state i)
      fun i words y => words y ^^^ d i := by
    intro state i i'
    funext y
    by_cases hi : i' = i
    · simp [column, s64_addToColumn, hi]
    · simp [column, s64_addToColumn, hi]
  exact congrFun (foldl_finRange hown state x) y

theorem s64_cxSha3Theta (state : Sha3State) (x y : Fin 5) :
    s64 (cxSha3Theta state) x y =
      s64 state x y ^^^ (columnSum state (x + 4) ^^^ cxRotl64 (columnSum state (x + 1)) 1) := by
  have hget (i : Fin 5) : (Vector.ofFn (columnSum state)).get i = columnSum state i :=
    Vector.getElem_ofFn i.isLt
  have hadd := s64_addToColumns (fun i => (Vector.ofFn (columnSum state)).get (i + 4) ^^^
    cxRotl64 ((Vector.ofFn (columnSum state)).get (i + 1)) 1) state x y
  rw [hget, hget] at hadd
  exact hadd

theorem getLsbD_columnSum (state : Sha3State) (x : Fin 5) (z : Fin 64) :
    (columnSum state x).toBitVec.getLsbD z = Fips202.parity (stateArray state) x z := by
  simp only [columnSum, UInt64.toBitVec_xor, BitVec.getLsbD_xor, Fips202.parity, stateArray]

theorem cxSha3Theta_eq (state : Sha3State) :
    stateArray (cxSha3Theta state) = Fips202.theta (stateArray state) := by
  funext x y z
  have hx : x + 4 = x - 1 := by
    revert x
    decide
  have hrot : (cxRotl64 (columnSum state (x + 1)) 1).toBitVec.getLsbD z =
      Fips202.parity (stateArray state) (x + 1) (z - 1) :=
    (getLsbD_cxRotl64 (columnSum state (x + 1)) (n := 1) (by decide) (by decide) z).trans
      (getLsbD_columnSum state (x + 1) (z - 1))
  rw [stateArray, s64_cxSha3Theta, UInt64.toBitVec_xor, UInt64.toBitVec_xor, BitVec.getLsbD_xor,
    BitVec.getLsbD_xor, getLsbD_columnSum, hrot, hx]
  simp only [Fips202.theta, stateArray, Bool.xor_assoc]

-- ---------------------------------------------------------------------------
-- Rho and pi
-- ---------------------------------------------------------------------------

/-- The places of the walk, and what happens to a word there. -/
def rhoPiPlace (i : Nat) : Fin 25 := cxPiTable.getD i 0

def rhoPiChange (i : Nat) (v : UInt64) : UInt64 := cxRotl64 v (UInt64.ofNat (cxRhoTable.getD i 0))

theorem cxSha3RhoPi_eq_walk (state : Sha3State) :
    cxSha3RhoPi state = (InPlace.walk rhoPiPlace rhoPiChange (state, state.get 1) 24).1 := rfl

/-- The tables list the lanes along the path of the standard, each with its offset. -/
theorem rhoPi_tables :
    ∀ x y : Fin 5, (x = 0 ∧ y = 0) ∨ ∃ i < 24, rhoPiPlace i = lane x y ∧
      (if i = 0 then 1 else rhoPiPlace (i - 1)) = lane (x + 3 * y) x ∧
      0 < cxRhoTable.getD i 0 ∧ cxRhoTable.getD i 0 < 64 ∧
      Fips202.offset (x + 3 * y) x % 64 = cxRhoTable.getD i 0 := by
  decide

theorem rhoPiPlace_inj : ∀ j < 24, ∀ k < 24, rhoPiPlace j = rhoPiPlace k → j = k := by
  decide

theorem rhoPiPlace_ne_zero : ∀ k < 24, rhoPiPlace k ≠ lane 0 0 := by
  decide

/-- The walk starts with the word at which it ends. -/
theorem carried_eq (state : Sha3State) (i : Nat) :
    InPlace.carried rhoPiPlace state (state.get 1) i =
      state.get (if i = 0 then 1 else rhoPiPlace (i - 1)) := by
  cases i with
  | zero => rfl
  | succ i => rfl

theorem cxSha3RhoPi_eq (state : Sha3State) :
    stateArray (cxSha3RhoPi state) = Fips202.pi (Fips202.rho (stateArray state)) := by
  funext x y z
  rw [stateArray, s64, cxSha3RhoPi_eq_walk]
  rcases rhoPi_tables x y with ⟨rfl, rfl⟩ | ⟨i, hi, hplace, hfrom, hpos, hlt, hoffset⟩
  · rw [InPlace.walk_of_ne rhoPiPlace_ne_zero]
    have hz : z - Fin.ofNat 64 (Fips202.offset (0 + 3 * 0) 0) = z := by
      have hoffset : Fips202.offset (0 + 3 * 0) 0 = 0 := by decide
      rw [hoffset]
      revert z
      decide
    rw [Fips202.pi, Fips202.rho, hz]
    rfl
  · have hcount : Fin.ofNat 64 (Fips202.offset (x + 3 * y) x) =
        Fin.ofNat 64 (cxRhoTable.getD i 0) := by
      apply Fin.ext
      rw [Fin.val_ofNat, Fin.val_ofNat, hoffset, Nat.mod_eq_of_lt hlt]
    rw [← hplace, InPlace.walk_place rhoPiPlace_inj hi, carried_eq, hfrom, rhoPiChange,
      getLsbD_cxRotl64 _ hpos hlt, Fips202.pi, Fips202.rho, hcount]
    rfl

-- ---------------------------------------------------------------------------
-- Chi and iota
-- ---------------------------------------------------------------------------

theorem s64_chiRow (state : Sha3State) (j x y : Fin 5) :
    s64 (chiRow state j) x y =
      if y = j then s64 state x y ^^^ (~~~s64 state (x + 1) y &&& s64 state (x + 2) y)
      else s64 state x y := by
  have hget (i : Fin 5) : (Vector.ofFn fun i => s64 state i j).get i = s64 state i j :=
    Vector.getElem_ofFn i.isLt
  have hown : InPlace.OwnPart column
      (fun words i => setS64 words i j (s64 words i j ^^^
        (~~~(Vector.ofFn fun i => s64 state i j).get (i + 1) &&&
          (Vector.ofFn fun i => s64 state i j).get (i + 2))))
      fun i words y => if y = j then words y ^^^ (~~~s64 state (i + 1) j &&& s64 state (i + 2) j)
        else words y := by
    intro words i i'
    funext y
    by_cases hi : i' = i
    · subst hi
      by_cases hy : y = j <;> simp [column, s64_setS64, hy, hget]
    · simp [column, s64_setS64, hi]
  have hword := congrFun (foldl_finRange hown state x) y
  refine hword.trans ?_
  by_cases hy : y = j
  · subst hy
    simp [column]
  · simp [column, hy]

theorem s64_cxSha3Chi (state : Sha3State) (x y : Fin 5) :
    s64 (cxSha3Chi state) x y =
      s64 state x y ^^^ (~~~s64 state (x + 1) y &&& s64 state (x + 2) y) := by
  have hown : InPlace.OwnPart row chiRow
      fun _ words x => words x ^^^ (~~~words (x + 1) &&& words (x + 2)) := by
    intro words j j'
    funext x
    by_cases hj : j' = j
    · simp [row, s64_chiRow, hj]
    · simp [row, s64_chiRow, hj]
  exact congrFun (foldl_finRange hown state y) x

theorem cxSha3Chi_eq (state : Sha3State) :
    stateArray (cxSha3Chi state) = Fips202.chi (stateArray state) := by
  funext x y z
  rw [stateArray, s64_cxSha3Chi]
  simp [Fips202.chi, stateArray]

theorem roundConstant_eq :
    ∀ i < 24, ∀ z < 64, (cxIotaRC.getD i 0).toBitVec.getLsbD z = Fips202.roundConstant 6 i z := by
  decide

theorem cxSha3Iota_eq (state : Sha3State) (hround : i < 24) :
    stateArray (cxSha3Iota state i) = Fips202.iota 6 i (stateArray state) := by
  funext x y z
  rw [stateArray, cxSha3Iota, s64_setS64, Fips202.iota, ← roundConstant_eq i hround z z.isLt]
  by_cases hxy : x = 0 ∧ y = 0
  · obtain ⟨rfl, rfl⟩ := hxy
    simp [stateArray]
  · simp [stateArray, hxy]

-- ---------------------------------------------------------------------------
-- Rounds
-- ---------------------------------------------------------------------------

theorem sha3Round_eq (acc : Sha3State) (hround : r < 24) :
    stateArray (sha3Round acc r) = Fips202.rnd 6 (stateArray acc) r := by
  rw [sha3Round, cxSha3Iota_eq _ hround, cxSha3Chi_eq, cxSha3RhoPi_eq, cxSha3Theta_eq, Fips202.rnd]

theorem sha3Rounds_eq (acc : Sha3State) :
    stateArray (sha3Rounds acc) = Fips202.keccakF (stateArray acc) := by
  have hrounds (n : Nat) (hn : n ≤ 24) : stateArray ((List.range n).foldl sha3Round acc) =
      (List.range n).foldl (Fips202.rnd 6) (stateArray acc) := by
    induction n with
    | zero => rfl
    | succ n ih =>
      rw [List.range_succ, List.foldl_append, List.foldl_append, ← ih (Nat.le_of_succ_le hn)]
      exact sha3Round_eq _ hn
  exact hrounds 24 (Nat.le_refl 24)

-- ---------------------------------------------------------------------------
-- Blocks
-- ---------------------------------------------------------------------------

/-- The contexts that come out of the init functions, and of updates. -/
inductive Sha3Made : Sha3Context → Prop
  | sha3 (size : Nat) : cxSha3Init size = some ctx → Sha3Made ctx
  | keccak (size : Nat) : cxKeccakInit size = some ctx → Sha3Made ctx
  | shake128 (size : Nat) : cxShake128Init size = some ctx → Sha3Made ctx
  | shake256 (size : Nat) : cxShake256Init size = some ctx → Sha3Made ctx
  | xof (size outLength : Nat) : cxSha3XofInit size outLength = some ctx → Sha3Made ctx
  | update (data : Bytes) :
      Sha3Made ctx → specCxSha3Update sha3Rounds ctx data = .ok ctx' → Sha3Made ctx'

theorem specCxSha3Update_blockSize (h : specCxSha3Update perm ctx data = .ok ctx') :
    ctx'.blockSize = ctx.blockSize := by
  unfold specCxSha3Update at h
  split at h
  · cases h
  · split at h
    · cases h
    · cases happend : append (sha3BlockFunction perm ctx.blockSize) true ctx.blockSize
          ctx.blockSize_pos ctx.toContext data with
      | error e =>
        rw [happend] at h
        cases h
      | ok c =>
        rw [happend] at h
        cases h
        rfl

theorem Sha3Made.isRate (h : Sha3Made ctx) : IsRate ctx.blockSize := by
  induction h with
  | sha3 size h =>
    unfold cxSha3Init at h
    split at h
    · rename_i hsize
      cases h
      exact isRate_of_size hsize
    · cases h
  | keccak size h =>
    unfold cxKeccakInit at h
    split at h
    · rename_i hsize
      cases h
      exact isRate_of_size hsize
    · cases h
  | shake128 size h =>
    unfold cxShake128Init at h
    split at h
    · cases h
    · cases h
      exact .inl rfl
  | shake256 size h =>
    unfold cxShake256Init at h
    split at h
    · cases h
    · cases h
      exact .inr (.inr (.inl rfl))
  | xof size outLength h =>
    unfold cxSha3XofInit at h
    split at h
    · cases h
      exact .inl rfl
    · split at h
      · cases h
        exact .inr (.inr (.inl rfl))
      · cases h
  | update data _ hupdate ih =>
    rw [specCxSha3Update_blockSize hupdate]
    exact ih

/-- The thresholds give whole blocks for the sizes of the standard, and for no other size. -/
theorem sha3Words_exact (blockSize : Nat) :
    8 * sha3Words blockSize = blockSize ↔ IsRate blockSize := by
  constructor
  · intro h
    unfold sha3Words at h
    unfold IsRate
    split at h
    · omega
    · split at h
      · omega
      · split at h
        · omega
        · split at h <;> omega
  · rintro (rfl | rfl | rfl | rfl | rfl) <;> rfl

theorem ofString_wordsLE64 (state : Sha3State) :
    Fips202.ofString (wordsLE64 state) = stateArray state := by
  funext x y z
  have hlane : 64 * (5 * y.val + x.val) + z.val < 8 * 8 * state.toList.length := by
    rw [Vector.length_toList]
    omega
  have hdiv : (64 * (5 * y.val + x.val) + z.val) / (8 * 8) = (lane x y).val := by
    simp only [lane]
    omega
  have hmod : (64 * (5 * y.val + x.val) + z.val) % (8 * 8) = z.val := by omega
  have hword : (state.toList.map UInt64.toNat).getD (lane x y) 0 = (s64 state x y).toNat := by
    simp [s64, Vector.get]
  rw [Fips202.ofString, wordsLE64, stringBit_flatMap (by decide) _ hlane, hdiv, hmod, hword]
  rfl

theorem stateArray_xorWords (words : Nat) (acc : Sha3State) (block : Bytes) (x y : Fin 5)
    (z : Fin 64) :
    stateArray (xorWords words acc block) x y z =
      if (lane x y).val < words then
        stateArray acc x y z ^^ stringBit block (64 * (lane x y).val + z)
      else stateArray acc x y z := by
  have hget : s64 (xorWords words acc block) x y = if (lane x y).val < words then
      s64 acc x y ^^^ UInt64.ofNat (fromLE ((block.drop (8 * (lane x y).val)).take 8))
      else s64 acc x y := Vector.getElem_ofFn (lane x y).isLt
  have hz : z.val < 8 * 8 := z.isLt
  rw [stateArray, hget]
  split
  · have hbit (n : Nat) : (UInt64.ofNat n).toBitVec.getLsbD z = n.testBit z := by
      show (UInt64.ofNat n).toNat.testBit z = _
      rw [UInt64.toNat_ofNat', Nat.testBit_mod_two_pow, decide_eq_true z.isLt, Bool.true_and]
    rw [UInt64.toBitVec_xor, BitVec.getLsbD_xor, hbit, testBit_fromLE, stringBit_take _ hz,
      stringBit_drop, ← Nat.mul_assoc]
    rfl
  · rfl

theorem ofString_xorFirst (hrate : IsRate rate) (acc : Sha3State) (block : Bytes) :
    Fips202.ofString (xorFirst rate (wordsLE64 acc) block) =
      stateArray (xorWords (sha3Words rate) acc block) := by
  funext x y z
  have hexact := (sha3Words_exact rate).mpr hrate
  have hlane : (lane x y).val = 5 * y.val + x.val := Nat.add_comm ..
  have hbits : 64 * (5 * y.val + x.val) + z.val < 8 * (wordsLE64 acc).length := by
    rw [length_wordsLE64]
    omega
  have hfirst : 64 * (5 * y.val + x.val) + z.val < 8 * rate ↔ (lane x y).val < sha3Words rate := by
    rw [hlane]
    omega
  have hstate := congrFun (congrFun (congrFun (ofString_wordsLE64 acc) x) y) z
  rw [stateArray_xorWords, Fips202.ofString, stringBit_xorFirst _ _ _ hbits]
  rw [Fips202.ofString] at hstate
  simp only [hfirst, hstate, hlane]

theorem specCxSha3Block_eq (hrate : IsRate rate) (acc : Sha3State) (block : Bytes) :
    Fips202.ofString (wordsLE64 (specCxSha3Block sha3Rounds rate acc block)) =
      Fips202.keccakF (Fips202.ofString (xorFirst rate (wordsLE64 acc) block)) := by
  rw [ofString_wordsLE64, specCxSha3Block, sha3Rounds_eq, ofString_xorFirst hrate]

/-- The permutation in place, and its steps, are those of the standard, for every state and every
block of a context. -/
theorem keccak_inPlace (hctx : Sha3Made ctx) (state : Sha3State) (block : Bytes) :
    Fips202.ofString (wordsLE64 (specCxSha3Block sha3Rounds ctx.blockSize state block)) =
        Fips202.keccakF (Fips202.ofString (xorFirst ctx.blockSize (wordsLE64 state) block)) ∧
      stateArray (cxSha3RhoPi state) = Fips202.pi (Fips202.rho (stateArray state)) ∧
      stateArray (cxSha3Theta state) = Fips202.theta (stateArray state) ∧
      stateArray (cxSha3Chi state) = Fips202.chi (stateArray state) :=
  ⟨specCxSha3Block_eq hctx.isRate state block, cxSha3RhoPi_eq state, cxSha3Theta_eq state,
    cxSha3Chi_eq state⟩

theorem keccak_inPlace_empty :
    Fips202.ofString (wordsLE64 (specCxSha3Block sha3Rounds 136 (.replicate 25 0)
        (0x06 :: List.replicate 134 0 ++ [0x80]))) =
      Fips202.keccakF (Fips202.ofString (xorFirst 136 (wordsLE64 (.replicate 25 0))
        (0x06 :: List.replicate 134 0 ++ [0x80]))) :=
  have hctx : Sha3Made (sha3Zeroed .sha3 32 136 (by decide)) := .sha3 256 rfl
  (keccak_inPlace hctx _ _).1

end Speculos.Hash
