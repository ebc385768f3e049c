import Mathlib.Data.List.Nodup

/-!
# Maps computed in place

Loops that overwrite the state they read. Where every turn reads and writes a part of its own,
all parts change at once. Where a turn puts the value it carries in a place and carries on what
was there, every value moves one place along the way.
-/

namespace Lib.InPlace

-- ---------------------------------------------------------------------------
-- Parts of their own
-- ---------------------------------------------------------------------------

section

variable {σ ι β : Type} [DecidableEq ι] {part : σ → ι → β} {step : σ → ι → σ} {g : ι → β → β}

/-- A turn changes its own part, by what that part holds. -/
def OwnPart (part : σ → ι → β) (step : σ → ι → σ) (g : ι → β → β) : Prop :=
  ∀ s i j, part (step s i) j = if j = i then g i (part s i) else part s j

theorem OwnPart.self (h : OwnPart part step g) (s : σ) (i : ι) :
    part (step s i) i = g i (part s i) := by
  rw [h, if_pos rfl]

theorem OwnPart.other (h : OwnPart part step g) (s : σ) (hne : j ≠ i) :
    part (step s i) j = part s j := by
  rw [h, if_neg hne]

theorem OwnPart.foldl_of_notMem (h : OwnPart part step g) {is : List ι} (hmem : j ∉ is) (s : σ) :
    part (is.foldl step s) j = part s j := by
  induction is generalizing s with
  | nil => rfl
  | cons i is ih =>
    rw [List.mem_cons, not_or] at hmem
    rw [List.foldl_cons, ih hmem.2, h.other s hmem.1]

theorem OwnPart.foldl_of_mem (h : OwnPart part step g) {is : List ι} (hnodup : is.Nodup)
    (hmem : j ∈ is) (s : σ) : part (is.foldl step s) j = g j (part s j) := by
  induction is generalizing s with
  | nil => cases hmem
  | cons i is ih =>
    rw [List.nodup_cons] at hnodup
    rw [List.foldl_cons]
    rcases List.mem_cons.mp hmem with rfl | htail
    · rw [h.foldl_of_notMem hnodup.1, h.self]
    · have hne : j ≠ i := by
        rintro rfl
        exact hnodup.1 htail
      rw [ih hnodup.2 htail, h.other s hne]

end

-- ---------------------------------------------------------------------------
-- A walk
-- ---------------------------------------------------------------------------

section

variable {α : Type} {n : Nat} (place : Nat → Fin n) (change : Nat → α → α)

/-- The value that is carried is put down, changed, and what was there is carried on. -/
def turn (s : Vector α n × α) (k : Nat) : Vector α n × α :=
  (s.1.set (place k) (change k s.2) (place k).isLt, s.1.get (place k))

def walk (s : Vector α n × α) (t : Nat) : Vector α n × α :=
  (List.range t).foldl (turn place change) s

/-- The value that is carried to a turn: at first `a`, then what was at the place before. -/
def carried (s : Vector α n) (a : α) : Nat → α
  | 0 => a
  | k + 1 => s.get (place k)

variable {place change} {s : Vector α n} {a : α}

theorem get_turn (v : Vector α n × α) (k : Nat) (i : Fin n) :
    (turn place change v k).1.get i = if place k = i then change k v.2 else v.1.get i := by
  show ((v.1.set (place k) (change k v.2) (place k).isLt)[i.val]) = _
  rw [Vector.getElem_set]
  simp only [Fin.val_inj]
  rfl

theorem walk_succ (v : Vector α n × α) (t : Nat) :
    walk place change v (t + 1) = turn place change (walk place change v t) t := by
  rw [walk, List.range_succ, List.foldl_append]
  rfl

theorem walk_of_ne (h : ∀ k < t, place k ≠ i) : (walk place change (s, a) t).1.get i = s.get i := by
  induction t with
  | zero => rfl
  | succ t ih =>
    rw [walk_succ, get_turn, if_neg (h t (Nat.lt_succ_self t))]
    exact ih fun k hk => h k (Nat.lt_succ_of_lt hk)

theorem walk_snd (hinj : ∀ j < t, ∀ k < t, place j = place k → j = k) :
    (walk place change (s, a) t).2 = carried place s a t := by
  cases t with
  | zero => rfl
  | succ t =>
    rw [walk_succ]
    refine walk_of_ne fun k hk heq => ?_
    exact Nat.ne_of_lt hk (hinj k (Nat.lt_succ_of_lt hk) t (Nat.lt_succ_self t) heq)

theorem walk_place (hinj : ∀ j < t, ∀ k < t, place j = place k → j = k) (hk : k < t) :
    (walk place change (s, a) t).1.get (place k) = change k (carried place s a k) := by
  induction t with
  | zero => exact absurd hk (Nat.not_lt_zero k)
  | succ t ih =>
    have hinj' : ∀ j < t, ∀ k < t, place j = place k → j = k := fun j hj k hk =>
      hinj j (Nat.lt_succ_of_lt hj) k (Nat.lt_succ_of_lt hk)
    rw [walk_succ, get_turn]
    rcases Nat.lt_succ_iff_lt_or_eq.mp hk with hlt | rfl
    · have hne : place t ≠ place k := fun heq =>
        Nat.ne_of_gt hlt (hinj t (Nat.lt_succ_self t) k hk heq)
      rw [if_neg hne, ih hinj' hlt]
    · rw [if_pos rfl, walk_snd hinj']

end

end Lib.InPlace
