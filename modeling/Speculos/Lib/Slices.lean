import Mathlib.Data.List.Basic
import Mathlib.Algebra.Order.Ring.Int

/-!
# Chunks and slices

`Chunks msg ds` says what a receiver may assume of the chunks of one message:
put together they are the message, only the last chunk may carry bytes after
it, and the last chunk is needed, so that a receiver that counts bytes is
complete exactly there.

`setSlice xs i j v` is the assignment `xs[i:j] = v` of a Python list or
bytearray: a negative index counts from the end, an index outside is moved to
the nearest end, and the sequence grows or shrinks where `v` is not as long as
the slice. Blocks of one size make a sequence of sequences, in which the slice
that starts and ends at blocks is a slice of blocks.
-/

namespace Lib

inductive Chunks : List α → List (List α) → Prop
  | last (rest pad : List α) : Chunks rest [rest ++ pad]
  | more (d : List α) : rest ≠ [] → Chunks rest ds → Chunks (d ++ rest) (d :: ds)

namespace Chunks

variable {msg d : List α} {ds : List (List α)}

theorem ne_nil (h : Chunks msg ds) : ds ≠ [] := by
  cases h <;> simp

theorem length_pos (h : Chunks msg ds) : 0 < ds.length :=
  List.length_pos_iff.mpr h.ne_nil

theorem singleton_iff : Chunks msg [d] ↔ d.take msg.length = msg := by
  constructor
  · intro h
    cases h with
    | last rest pad => simp
    | more d _ h => exact absurd rfl h.ne_nil
  · intro h
    have hd : d = msg ++ d.drop msg.length := by
      conv_lhs => rw [← List.take_append_drop msg.length d, h]
    rw [hd]
    exact .last msg _

theorem cons_iff_of_lt (hlt : d.length < msg.length) :
    Chunks msg (d :: ds) ↔ msg.take d.length = d ∧ Chunks (msg.drop d.length) ds := by
  constructor
  · intro h
    cases h with
    | last rest pad =>
      rw [List.length_append] at hlt
      omega
    | more d _ h => simpa using h
  · rintro ⟨ht, h⟩
    have hm : msg = d ++ msg.drop d.length := by
      conv_lhs => rw [← List.take_append_drop d.length msg, ht]
    rw [hm]
    refine .more d ?_ h
    intro hnil
    have := congrArg List.length hnil
    simp only [List.length_drop, List.length_nil] at this
    omega

theorem lt_of_cons (h : Chunks msg (d :: ds)) (hds : ds ≠ []) : d.length < msg.length := by
  cases h with
  | last rest pad => exact absurd rfl hds
  | more d hne _ =>
    rw [List.length_append]
    have := List.length_pos_iff.mpr hne
    omega

end Chunks

end Lib

-- ---------------------------------------------------------------------------
-- Slices of a mutable sequence
-- ---------------------------------------------------------------------------

namespace Lib

/-- Where the index `i` of a slice points to in a sequence of length `n`. -/
def sliceIndex (n : Nat) (i : Int) : Nat := if i < 0 then (i + n).toNat else min i.toNat n

def setSlice (xs : List α) (i j : Int) (v : List α) : List α :=
  let lo := sliceIndex xs.length i
  xs.take lo ++ v ++ xs.drop (max lo (sliceIndex xs.length j))

theorem sliceIndex_natCast (n k : Nat) : sliceIndex n (k : Int) = min k n := by
  rw [sliceIndex, if_neg (by omega), Int.toNat_natCast]

theorem setSlice_eq_set (xs : List α) (k : Nat) (a : α) (h : k < xs.length) :
    setSlice xs k (k + 1 : Nat) [a] = xs.set k a := by
  rw [setSlice, sliceIndex_natCast, sliceIndex_natCast, Nat.min_eq_left (by omega),
    Nat.min_eq_left (by omega), Nat.max_eq_right (by omega), List.set_eq_take_append_cons_drop,
    if_pos h, List.append_assoc, List.singleton_append]

theorem length_setSlice_of_le (xs v : List α) (i j : Nat) (hi : xs.length ≤ i) :
    (setSlice xs i j v).length = xs.length + v.length := by
  rw [setSlice, sliceIndex_natCast, sliceIndex_natCast, Nat.min_eq_right hi]
  simp only [List.length_append, List.length_take, List.length_drop]
  omega

/-- An index that counts from the end. That of the last place is left out: its slice ends at 0. -/
theorem setSlice_neg_eq_set (xs : List α) {i : Int} (a : α) (hlo : -(xs.length : Int) ≤ i)
    (hhi : i ≤ -2) :
    setSlice xs i (i + 1) [a] = xs.set (i + xs.length).toNat a := by
  have hi : sliceIndex xs.length i = (i + xs.length).toNat := if_pos (by omega)
  have hj : sliceIndex xs.length (i + 1) = (i + xs.length).toNat + 1 := by
    rw [sliceIndex, if_pos (by omega)]
    omega
  rw [setSlice, hi, hj, Nat.max_eq_right (Nat.le_succ _), List.set_eq_take_append_cons_drop,
    if_pos (by omega), List.append_assoc, List.singleton_append]

theorem length_setSlice_outside (xs : List α) {i : Int} (a : α)
    (hinside : ¬ (0 ≤ i ∧ i < xs.length)) (hback : ¬ (-(xs.length : Int) ≤ i ∧ i ≤ -2)) :
    (setSlice xs i (i + 1) [a]).length = xs.length + 1 := by
  have hempty : sliceIndex xs.length (i + 1) ≤ sliceIndex xs.length i := by
    rw [sliceIndex, sliceIndex]
    split <;> split <;> omega
  have hle : sliceIndex xs.length i ≤ xs.length := by
    rw [sliceIndex]
    split <;> omega
  rw [setSlice, Nat.max_eq_left hempty]
  simp only [List.length_append, List.length_take, List.length_drop, List.length_singleton]
  omega

theorem length_le_setSlice_succ (xs : List α) (i : Int) (a : α) :
    xs.length ≤ (setSlice xs i (i + 1) [a]).length := by
  have hstep : sliceIndex xs.length (i + 1) ≤ sliceIndex xs.length i + 1 := by
    rw [sliceIndex, sliceIndex]
    split <;> split <;> omega
  simp only [setSlice, List.length_append, List.length_take, List.length_drop,
    List.length_singleton]
  omega

-- ---------------------------------------------------------------------------
-- Blocks
-- ---------------------------------------------------------------------------

theorem toNat_natCast_mul (w : Nat) (m : Int) : ((w : Int) * m).toNat = w * m.toNat := by
  obtain ⟨n, rfl | rfl⟩ := Int.eq_nat_or_neg m
  · rw [← Nat.cast_mul, Int.toNat_natCast, Int.toNat_natCast]
  · rw [Int.mul_neg, ← Nat.cast_mul, Int.toNat_neg_natCast, Int.toNat_neg_natCast, Nat.mul_zero]

theorem sliceIndex_mul (hw : 0 < w) (n : Nat) (i : Int) :
    sliceIndex (w * n) (w * i) = w * sliceIndex n i := by
  rw [sliceIndex, sliceIndex]
  by_cases hi : i < 0
  · rw [if_pos hi, if_pos (Int.mul_neg_of_pos_of_neg (by omega) hi), Nat.cast_mul, ← Int.mul_add,
      toNat_natCast_mul]
  · rw [if_neg hi, if_neg (Int.not_lt.mpr (Int.mul_nonneg (by omega) (by omega))),
      toNat_natCast_mul, Nat.mul_min_mul_left]

section
variable {f : β → List α} {w : Nat} (hf : ∀ b, (f b).length = w)
include hf

theorem length_flatMap_blocks (bs : List β) : (bs.flatMap f).length = w * bs.length := by
  induction bs with
  | nil => rfl
  | cons b bs ih =>
    rw [List.flatMap_cons, List.length_append, ih, hf, List.length_cons, Nat.mul_succ, Nat.add_comm]

theorem take_flatMap_blocks (bs : List β) (i : Nat) :
    (bs.flatMap f).take (w * i) = (bs.take i).flatMap f := by
  induction bs generalizing i with
  | nil => simp
  | cons b bs ih =>
    cases i with
    | zero => simp
    | succ i =>
      rw [List.flatMap_cons, Nat.mul_succ, Nat.add_comm, ← hf b, List.take_length_add_append,
        List.take_succ_cons, List.flatMap_cons, hf b, ih]

theorem drop_flatMap_blocks (bs : List β) (i : Nat) :
    (bs.flatMap f).drop (w * i) = (bs.drop i).flatMap f := by
  induction bs generalizing i with
  | nil => simp
  | cons b bs ih =>
    cases i with
    | zero => simp
    | succ i =>
      rw [List.flatMap_cons, Nat.mul_succ, Nat.add_comm, ← hf b, List.drop_length_add_append,
        List.drop_succ_cons, hf b, ih]

theorem block_flatMap (bs : List β) (i : Nat) (h : bs[i]? = some b) :
    ((bs.flatMap f).drop (w * i)).take w = f b := by
  obtain ⟨hi, rfl⟩ := List.getElem?_eq_some_iff.mp h
  rw [drop_flatMap_blocks hf, List.drop_eq_getElem_cons hi, List.flatMap_cons,
    List.take_left' (hf _)]

theorem setSlice_flatMap (hw : 0 < w) (bs v : List β) (i j : Int) :
    setSlice (bs.flatMap f) (w * i) (w * j) (v.flatMap f) = (setSlice bs i j v).flatMap f := by
  rw [setSlice, setSlice, length_flatMap_blocks hf, sliceIndex_mul hw, sliceIndex_mul hw,
    Nat.mul_max_mul_left, take_flatMap_blocks hf, drop_flatMap_blocks hf, List.flatMap_append,
    List.flatMap_append]

end

theorem forall_eq_of_flatMap_eq {f g : β → List α} (hlen : ∀ b, (f b).length = (g b).length)
    {bs : List β} (h : bs.flatMap f = bs.flatMap g) : ∀ b ∈ bs, f b = g b := by
  induction bs with
  | nil =>
    intro b hb
    cases hb
  | cons b bs ih =>
    rw [List.flatMap_cons, List.flatMap_cons] at h
    obtain ⟨hhead, htail⟩ := List.append_inj h (hlen b)
    intro b' hb'
    rcases List.mem_cons.mp hb' with rfl | hb'
    · exact hhead
    · exact ih htail b' hb'

end Lib
