import Mathlib.Data.List.Basic

/-!
# Run-length pairs

A list of pairs of a count and a value stands for the sequence in which each
value is repeated as often as its count says.
-/

namespace Lib

def expand (pairs : List (Nat × α)) : List α :=
  pairs.flatMap fun pair => List.replicate pair.1 pair.2

@[simp] theorem expand_nil : expand ([] : List (Nat × α)) = [] := rfl

@[simp] theorem expand_cons (pair : Nat × α) (pairs : List (Nat × α)) :
    expand (pair :: pairs) = List.replicate pair.1 pair.2 ++ expand pairs := rfl

@[simp] theorem expand_append (pairs pairs' : List (Nat × α)) :
    expand (pairs ++ pairs') = expand pairs ++ expand pairs' := by
  simp [expand]

theorem expand_map_one (values : List α) :
    expand (values.map fun value => (1, value)) = values := by
  induction values with
  | nil => rfl
  | cons value values ih => simp [ih]

/-- The counts into which a run is cut when no count may exceed `most`. -/
def splitRun (most : Nat) (hmost : 0 < most) (n : Nat) : List Nat :=
  if n > most then most :: splitRun most hmost (n - most)
  else if n ≠ 0 then [n]
  else []
termination_by n

theorem mem_splitRun (hmost : 0 < most) (h : k ∈ splitRun most hmost n) : 1 ≤ k ∧ k ≤ most := by
  induction n using Nat.strongRecOn with
  | ind n ih =>
    rw [splitRun] at h
    split at h
    · rcases List.mem_cons.mp h with rfl | h
      · omega
      · exact ih _ (by omega) h
    · split at h
      · rw [List.mem_singleton] at h
        omega
      · cases h

theorem expand_splitRun (hmost : 0 < most) (n : Nat) (value : α) :
    expand ((splitRun most hmost n).map fun k => (k, value)) = List.replicate n value := by
  induction n using Nat.strongRecOn with
  | ind n ih =>
    rw [splitRun]
    split
    · rw [List.map_cons, expand_cons, ih _ (by omega), ← List.replicate_add]
      congr 1
      omega
    · split
      · simp
      · simp_all

end Lib
