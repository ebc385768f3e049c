import Mathlib.Order.Lattice
import Mathlib.Order.Basic
import Mathlib.Data.List.Basic
import Mathlib.Data.List.TakeDrop

/-!
# Rasters and boxes

Boxes of the plane by their four edges, ordered by inclusion. The join of two boxes is the
smallest box around both.

Values are laid out one after the other by a walk, which knows of a place the
next one, or that it is the last. A walk along the lines of a rectangle comes to
the place `k` of a line length `m` in the line `k / m`.
-/

namespace Lib

/-- The cells from `left` to `right` and from `top` to `bottom`, the last two excluded. -/
@[ext] structure Box where
  left : Int
  top : Int
  right : Int
  bottom : Int
  deriving DecidableEq, Repr

namespace Box

instance : LE Box where
  le a b := b.left ≤ a.left ∧ b.top ≤ a.top ∧ a.right ≤ b.right ∧ a.bottom ≤ b.bottom

theorem le_def {a b : Box} :
    a ≤ b ↔ b.left ≤ a.left ∧ b.top ≤ a.top ∧ a.right ≤ b.right ∧ a.bottom ≤ b.bottom := Iff.rfl

instance (a b : Box) : Decidable (a ≤ b) := decidable_of_iff' _ le_def

instance : SemilatticeSup Box where
  le_refl _ := ⟨le_rfl, le_rfl, le_rfl, le_rfl⟩
  le_trans _ _ _ hab hbc :=
    ⟨hbc.1.trans hab.1, hbc.2.1.trans hab.2.1, hab.2.2.1.trans hbc.2.2.1,
      hab.2.2.2.trans hbc.2.2.2⟩
  le_antisymm _ _ hab hba :=
    Box.ext (hba.1.antisymm hab.1) (hba.2.1.antisymm hab.2.1) (hab.2.2.1.antisymm hba.2.2.1)
      (hab.2.2.2.antisymm hba.2.2.2)
  sup a b := ⟨min a.left b.left, min a.top b.top, max a.right b.right, max a.bottom b.bottom⟩
  le_sup_left _ _ := ⟨min_le_left _ _, min_le_left _ _, le_max_left _ _, le_max_left _ _⟩
  le_sup_right _ _ := ⟨min_le_right _ _, min_le_right _ _, le_max_right _ _, le_max_right _ _⟩
  sup_le _ _ _ hac hbc :=
    ⟨le_min hac.1 hbc.1, le_min hac.2.1 hbc.2.1, max_le hac.2.2.1 hbc.2.2.1,
      max_le hac.2.2.2 hbc.2.2.2⟩

theorem sup_def (a b : Box) : a ⊔ b =
    ⟨min a.left b.left, min a.top b.top, max a.right b.right, max a.bottom b.bottom⟩ := rfl

end Box

end Lib

-- ---------------------------------------------------------------------------
-- Raster order
-- ---------------------------------------------------------------------------

namespace Lib

-- ---------------------------------------------------------------------------
-- Walks
-- ---------------------------------------------------------------------------

/-- The values with their places, and the place behind the last of them, unless
the walk has ended. -/
def layOut (next : σ → Option σ) : List α → σ → List (α × σ) × Option σ
  | [], s => ([], some s)
  | a :: as, s =>
    match next s with
    | none => ([(a, s)], none)
    | some s' => ((a, s) :: (layOut next as s').1, (layOut next as s').2)

section
variable {next : σ → Option σ} {path : Nat → σ}

@[simp] theorem layOut_nil (s : σ) : layOut next ([] : List α) s = ([], some s) := rfl

theorem layOut_cons_of_none (h : next s = none) (a : α) (as : List α) :
    layOut next (a :: as) s = ([(a, s)], none) := by
  simp [layOut, h]

theorem layOut_cons_of_some (h : next s = some s') (a : α) (as : List α) :
    layOut next (a :: as) s = ((a, s) :: (layOut next as s').1, (layOut next as s').2) := by
  simp [layOut, h]

theorem layOut_append_of_none {as : List α} (h : (layOut next as s).2 = none) (bs : List α) :
    layOut next (as ++ bs) s = layOut next as s := by
  induction as generalizing s with
  | nil => cases h
  | cons a as ih =>
    rw [List.cons_append]
    cases hs : next s with
    | none => rw [layOut_cons_of_none hs, layOut_cons_of_none hs]
    | some s' =>
      rw [layOut_cons_of_some hs] at h ⊢
      rw [layOut_cons_of_some hs, ih h]

theorem layOut_append_of_some {as : List α} (h : (layOut next as s).2 = some s') (bs : List α) :
    layOut next (as ++ bs) s =
      ((layOut next as s).1 ++ (layOut next bs s').1, (layOut next bs s').2) := by
  induction as generalizing s with
  | nil =>
    cases h
    rfl
  | cons a as ih =>
    rw [List.cons_append]
    cases hs : next s with
    | none =>
      rw [layOut_cons_of_none hs] at h
      cases h
    | some t =>
      rw [layOut_cons_of_some hs] at h ⊢
      rw [layOut_cons_of_some hs, ih h]
      rfl

theorem layOut_of_endless (h : ∀ k, next (path k) = some (path (k + 1))) (as : List α) (k : Nat) :
    (layOut next as (path k)).1 = as.mapIdx fun i a => (a, path (k + i)) := by
  induction as generalizing k with
  | nil => rfl
  | cons a as ih =>
    rw [layOut_cons_of_some (h k), ih, List.mapIdx_cons]
    simp only [Nat.add_zero, Nat.add_assoc, Nat.add_comm 1]

theorem layOut_of_last (h : ∀ k, k + 1 < n → next (path k) = some (path (k + 1)))
    (hlast : ∀ k, k + 1 = n → next (path k) = none) (as : List α) (hk : k < n) :
    (layOut next as (path k)).1 = (as.take (n - k)).mapIdx fun i a => (a, path (k + i)) := by
  induction as generalizing k with
  | nil => simp
  | cons a as ih =>
    obtain ⟨m, hm⟩ : ∃ m, n - k = m + 1 := ⟨n - k - 1, by omega⟩
    rw [hm, List.take_succ_cons, List.mapIdx_cons]
    by_cases hend : k + 1 = n
    · have hzero : m = 0 := by omega
      rw [layOut_cons_of_none (hlast k hend), hzero]
      simp
    · rw [layOut_cons_of_some (h k (by omega)), ih (by omega), show n - (k + 1) = m by omega]
      simp only [Nat.add_zero, Nat.add_assoc, Nat.add_comm 1]

theorem layOut_end (h : ∀ k, k + 1 < n → next (path k) = some (path (k + 1)))
    (hlast : ∀ k, k + 1 = n → next (path k) = none) (as : List α) (hk : k < n) :
    (layOut next as (path k)).2 = if k + as.length < n then some (path (k + as.length))
      else none := by
  induction as generalizing k with
  | nil => simp [hk]
  | cons a as ih =>
    rw [List.length_cons]
    by_cases hend : k + 1 = n
    · rw [layOut_cons_of_none (hlast k hend), if_neg (by omega)]
    · rw [layOut_cons_of_some (h k (by omega)), ih (by omega), Nat.add_assoc k 1,
        Nat.add_comm 1]

end

-- ---------------------------------------------------------------------------
-- Lines
-- ---------------------------------------------------------------------------

/-- The line of the place `k`, and its number in the line. -/
def cell (m k : Nat) : Nat × Nat := (k / m, k % m)

theorem cell_mul_add (a : Nat) (hb : b < m) : cell m (m * a + b) = (a, b) := by
  rw [cell, Nat.mul_add_mod, Nat.mod_eq_of_lt hb, Nat.mul_add_div (Nat.zero_lt_of_lt hb),
    Nat.div_eq_of_lt hb, Nat.add_zero]

theorem cell_injective (h : cell m k = cell m k') : k = k' := by
  rw [← Nat.div_add_mod k m, ← Nat.div_add_mod k' m, show k / m = k' / m from congrArg Prod.fst h,
    show k % m = k' % m from congrArg Prod.snd h]

theorem cell_succ (hm : 0 < m) (k : Nat) :
    cell m (k + 1) = if (cell m k).2 + 1 < m then ((cell m k).1, (cell m k).2 + 1)
      else ((cell m k).1 + 1, 0) := by
  have hlt : k % m < m := Nat.mod_lt k hm
  have hdiv : m * (k / m) + k % m = k := Nat.div_add_mod k m
  split
  · next hnext =>
    rw [← cell_mul_add (cell m k).1 hnext]
    exact congrArg (cell m) (by simp only [cell]; omega)
  · next hnext =>
    rw [← cell_mul_add ((cell m k).1 + 1) hm]
    simp only [cell] at hnext ⊢
    rw [Nat.mul_succ, show m * (k / m) + m + 0 = k + 1 by omega]

theorem cell_lt {m k n : Nat} (hk : k < n * m) : (cell m k).1 < n ∧ (cell m k).2 < m := by
  have hm : 0 < m := Nat.pos_of_mul_pos_left (Nat.zero_lt_of_lt hk)
  exact ⟨(Nat.div_lt_iff_lt_mul hm).mpr hk, Nat.mod_lt k hm⟩

theorem index_lt_of_cell {a b m n : Nat} (ha : a < n) (hb : b < m) : m * a + b < n * m :=
  calc
    m * a + b < m * (a + 1) := Nat.add_lt_add_left hb _
    _ ≤ m * n := Nat.mul_le_mul_left m ha
    _ = n * m := Nat.mul_comm m n

theorem succ_lt_iff_cell {m k n : Nat} (hk : k < n * m) :
    k + 1 < n * m ↔ (cell m k).2 + 1 < m ∨ (cell m k).1 + 1 < n := by
  obtain ⟨ha, hb⟩ := cell_lt hk
  have hdiv : m * (cell m k).1 + (cell m k).2 = k := Nat.div_add_mod k m
  constructor
  · intro hnext
    by_cases hline : (cell m k).2 + 1 < m
    · exact .inl hline
    · have hcell := (cell_lt hnext).1
      rw [cell_succ (Nat.zero_lt_of_lt hb), if_neg hline] at hcell
      exact .inr hcell
  · rintro (hline | hlines)
    · have hindex := index_lt_of_cell ha hline
      omega
    · have hindex := index_lt_of_cell hlines (Nat.zero_lt_of_lt hb)
      rw [Nat.mul_succ] at hindex
      omega

end Lib
