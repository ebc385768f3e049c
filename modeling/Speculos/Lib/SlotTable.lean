import Mathlib.Algebra.BigOperators.Fin
import Mathlib.Algebra.Order.BigOperators.Group.Finset

/-!
# Tables of slots

A table with a fixed number of slots, of which some are live. An allocation takes the first
slot that is not live. The weight of a table is that of its live slots, and a slot that
is filled or cleared changes it by the weight of that slot only.
-/

namespace Lib

variable {n : Nat} {α : Type} (live : α → Bool) (weight : α → Nat)

namespace SlotTable

def firstFree (t : Fin n → α) : Option (Fin n) := (List.finRange n).find? fun i => !live (t i)

def slotWeight (a : α) : Nat := if live a then weight a else 0

def total (t : Fin n → α) : Nat := ∑ i, slotWeight live weight (t i)

variable {live weight} {t : Fin n → α}

theorem not_live_of_firstFree (h : firstFree live t = some i) : live (t i) = false := by
  simpa using List.find?_some h

@[simp] theorem slotWeight_of_live (h : live a = true) : slotWeight live weight a = weight a :=
  if_pos h

@[simp] theorem slotWeight_of_not_live (h : live a = false) : slotWeight live weight a = 0 := by
  simp [slotWeight, h]

theorem total_update (t : Fin n → α) (i : Fin n) (a : α) :
    total live weight (Function.update t i a) + slotWeight live weight (t i) =
      total live weight t + slotWeight live weight a := by
  have hrest : ∑ j ∈ Finset.univ.erase i, slotWeight live weight (Function.update t i a j) =
      ∑ j ∈ Finset.univ.erase i, slotWeight live weight (t j) :=
    Finset.sum_congr rfl fun j hj => by rw [Function.update_of_ne (Finset.ne_of_mem_erase hj)]
  have hnew := Finset.add_sum_erase Finset.univ
    (fun j => slotWeight live weight (Function.update t i a j)) (Finset.mem_univ i)
  have hold := Finset.add_sum_erase Finset.univ (fun j => slotWeight live weight (t j))
    (Finset.mem_univ i)
  simp only [Function.update_self] at hnew
  unfold total
  omega

theorem total_eq_zero (h : ∀ i, live (t i) = false) : total live weight t = 0 :=
  Finset.sum_eq_zero fun i _ => slotWeight_of_not_live (h i)

theorem total_congr {t' : Fin n → α}
    (h : ∀ i, slotWeight live weight (t i) = slotWeight live weight (t' i)) :
    total live weight t = total live weight t' :=
  Finset.sum_congr rfl fun i _ => h i

end SlotTable

end Lib
