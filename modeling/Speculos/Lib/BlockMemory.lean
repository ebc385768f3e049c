import Mathlib.Data.List.Basic
import Speculos.Lib.BlockFold
import Speculos.Lib.Memory

/-!
# Memory transformed block by block

A loop that reads a block of `n` bytes behind one pointer and writes one behind another, with
a state that goes from block to block. The buffers may be one and the same.

The steps of the chain over any block cipher on a type with a sum that cancels. The state is
the last block of the ciphertext, at first the initialisation vector.
-/

namespace Lib

/-- A list transformed from the front, with a state. -/
def mapAccum (step : σ → α → σ × β) : σ → List α → List β
  | _, [] => []
  | s, a :: as => (step s a).2 :: mapAccum step (step s a).1 as

/-- Two systems that give the same answer in related states. -/
theorem mapAccum_eq_of_rel {R : σ → τ → Prop} {step : σ → α → σ × β} {step' : τ → α → τ × β}
    (hstep : ∀ s t a, R s t → (step s a).2 = (step' t a).2 ∧ R (step s a).1 (step' t a).1)
    (h : R s t) (as : List α) : mapAccum step s as = mapAccum step' t as := by
  induction as generalizing s t with
  | nil => rfl
  | cons a as ih =>
    obtain ⟨hanswer, hrel⟩ := hstep s t a h
    rw [mapAccum, mapAccum, hanswer, ih hrel]

/-- Two buffers of `len` bytes that are the same, or have no byte in common. -/
def SameOrApart (input output len : Nat) : Prop :=
  input = output ∨ input + len ≤ output ∨ output + len ≤ input

namespace Region

variable {n : Nat}

def block (n : Nat) (r : Region) (off : Nat) : Vector UInt8 n :=
  Vector.ofFn fun i => r.cell (off + i)

def storeBlock (r : Region) (off : Nat) (b : Vector UInt8 n) : Region := r.memcpy off b.toList n

def blocks (n : Nat) (r : Region) : Nat → Nat → List (Vector UInt8 n)
  | _, 0 => []
  | off, k + 1 => r.block n off :: blocks n r (off + n) k

def transform (step : σ → Vector UInt8 n → σ × Vector UInt8 n) :
    Nat → Region → Nat → Nat → σ → Region
  | 0, r, _, _, _ => r
  | k + 1, r, input, output, s =>
    transform step k (r.storeBlock output (step s (r.block n input)).2) (input + n) (output + n)
      (step s (r.block n input)).1

@[simp] theorem toList_block (r : Region) (off : Nat) : (r.block n off).toList = r.slice off n := by
  refine List.ext_getElem (by simp) fun i hi _ => ?_
  rw [getElem_slice, Vector.getElem_toList]
  exact Vector.getElem_ofFn _

theorem block_storeBlock_self (r : Region) (off : Nat) (b : Vector UInt8 n) :
    (r.storeBlock off b).block n off = b := by
  rw [← Vector.toList_inj, toList_block, storeBlock, slice_memcpy_eq _ _ _ (Vector.length_toList)]

theorem cell_storeBlock_of_out (r : Region) (off : Nat) (b : Vector UInt8 n)
    (h : i < off ∨ off + n ≤ i) : (r.storeBlock off b).cell i = r.cell i := by
  rw [storeBlock, cell_memcpy, if_neg (by omega)]

theorem block_congr {r r' : Region} (h : ∀ i, off ≤ i → i < off + n → r.cell i = r'.cell i) :
    r.block n off = r'.block n off := by
  rw [← Vector.toList_inj, toList_block, toList_block, slice_eq_iff]
  exact fun i hi => h _ (by omega) (by omega)

theorem blocks_congr {r r' : Region} (h : ∀ i, off ≤ i → i < off + k * n → r.cell i = r'.cell i) :
    r.blocks n off k = r'.blocks n off k := by
  induction k generalizing off with
  | zero => rfl
  | succ k ih =>
    rw [Nat.succ_mul] at h
    rw [blocks, blocks, block_congr fun i hlo hhi => h i hlo (by omega),
      ih fun i hlo hhi => h i (by omega) (by omega)]

theorem slice_blocks (r : Region) (off k : Nat) :
    r.slice off (k * n) = (r.blocks n off k).flatMap Vector.toList := by
  induction k generalizing off with
  | zero => simp [slice, blocks]
  | succ k ih =>
    rw [Nat.succ_mul, Nat.add_comm, slice_add, ih, blocks, List.flatMap_cons, toList_block]

variable {step : σ → Vector UInt8 n → σ × Vector UInt8 n}

theorem cell_transform_of_out (r : Region) (k input output : Nat) (s : σ)
    (h : i < output ∨ output + k * n ≤ i) :
    (transform step k r input output s).cell i = r.cell i := by
  induction k generalizing r input output s with
  | zero => rfl
  | succ k ih =>
    rw [Nat.succ_mul] at h
    rw [transform, ih _ _ _ _ (by omega), cell_storeBlock_of_out _ _ _ (by omega)]

theorem slice_congr {r r' : Region} (h : r.cell = r'.cell) (off k : Nat) :
    r.slice off k = r'.slice off k := by
  simp [slice, h]

theorem cell_storeBlock_congr {r r' : Region} (h : r.cell = r'.cell) (off : Nat)
    (b : Vector UInt8 n) :
    (r.storeBlock off b).cell = (r'.storeBlock off b).cell := by
  funext i
  simp only [storeBlock, cell_memcpy, h]

theorem cell_storeBlock_storeBlock (r : Region) (off : Nat) (b b' : Vector UInt8 n) :
    ((r.storeBlock off b).storeBlock off b').cell = (r.storeBlock off b').cell := by
  funext i
  simp only [storeBlock, cell_memcpy]
  split <;> rfl

theorem cell_transform_congr {r r' : Region} (h : r.cell = r'.cell) (k input output : Nat) (s : σ) :
    (transform step k r input output s).cell = (transform step k r' input output s).cell := by
  induction k generalizing r r' input output s with
  | zero => exact h
  | succ k ih =>
    have hblock : r.block n input = r'.block n input := block_congr fun i _ _ => congrFun h i
    rw [transform, transform, hblock]
    exact ih (cell_storeBlock_congr h output _) _ _ _

theorem blocks_transform (r : Region) (k input output : Nat) (s : σ)
    (h : SameOrApart input output (k * n)) :
    (transform step k r input output s).blocks n output k =
      mapAccum step s (r.blocks n input k) := by
  induction k generalizing r input output s with
  | zero => rfl
  | succ k ih =>
    rw [SameOrApart, Nat.succ_mul] at h
    have hfirst : (transform step (k + 1) r input output s).block n output =
        (step s (r.block n input)).2 := by
      refine Eq.trans (block_congr fun i hlo hhi => ?_) (r.block_storeBlock_self output _)
      exact cell_transform_of_out _ _ _ _ _ (.inl hhi)
    -- a block that is still to be read is not one that was written
    have hrest : (r.storeBlock output (step s (r.block n input)).2).blocks n (input + n) k =
        r.blocks n (input + n) k := by
      refine blocks_congr fun i hlo hhi => cell_storeBlock_of_out _ _ _ ?_
      rcases h with rfl | h | h
      · exact .inr hlo
      · exact .inl (by omega)
      · exact .inr (by omega)
    rw [blocks, hfirst, blocks, mapAccum, transform]
    refine congrArg _ ((ih _ _ _ _ ?_).trans (congrArg _ hrest))
    rcases h with rfl | h | h
    · exact .inl rfl
    · exact .inr (.inl (by omega))
    · exact .inr (.inr (by omega))

end Region

end Lib

-- ---------------------------------------------------------------------------
-- Cipher block chaining
-- ---------------------------------------------------------------------------

namespace Lib

variable {α : Type} (xor : α → α → α)

def cbcEncryptStep (enc : α → α) (iv p : α) : α × α := (enc (xor p iv), enc (xor p iv))

def cbcDecryptStep (dec : α → α) (iv c : α) : α × α := (c, xor (dec c) iv)

variable {xor}

theorem mapAccum_cbcDecryptStep {enc dec : α → α} (hxor : ∀ a b, xor (xor a b) b = a)
    (hdec : ∀ b, dec (enc b) = b) (iv : α) (ps : List α) :
    mapAccum (cbcDecryptStep xor dec) iv (mapAccum (cbcEncryptStep xor enc) iv ps) = ps := by
  induction ps generalizing iv with
  | nil => rfl
  | cons p ps ih => simp [mapAccum, cbcEncryptStep, cbcDecryptStep, hdec, hxor, ih]

end Lib
