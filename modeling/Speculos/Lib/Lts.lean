import Mathlib.Algebra.BigOperators.Ring.List
import Mathlib.Algebra.Ring.Nat

/-!
# Runs of a transition system

`step s a` is the state after action `a`, or `none` where the action cannot be
taken. A run is a list of actions, so that a statement over every run is one
over every interleaving of the actions of all parties. The rules: an invariant
of every step holds after every run; the same where a guard restricts which
actions are taken in which state; an invariant kept exactly where a guard holds holds
all along exactly the guarded runs; states related by a bisimulation give the same
runs; and a run in which some actions are paid for by a potential reaches its
goal once the payments exceed it.
-/

namespace Lib

variable {S A : Type} (step : S → A → Option S)

def exec : S → List A → Option S
  | s, [] => some s
  | s, a :: as => (step s a).bind (exec · as)

/-- Every action of the run meets the guard in the state it is taken in. -/
def Guarded (guard : S → A → Prop) : S → List A → Prop
  | _, [] => True
  | s, a :: as => guard s a ∧ ∀ s' ∈ step s a, Guarded guard s' as

instance decidableGuarded (guard : S → A → Prop) [∀ s a, Decidable (guard s a)] :
    ∀ s as, Decidable (Guarded step guard s as)
  | _, [] => .isTrue trivial
  | s, a :: as =>
    have : ∀ s', Decidable (Guarded step guard s' as) := fun s' => decidableGuarded guard s' as
    inferInstanceAs (Decidable (guard s a ∧ ∀ s' ∈ step s a, Guarded step guard s' as))

variable {step} {s t : S}

theorem exec_nil (h : exec step s [] = some t) : t = s := by
  cases h
  rfl

theorem exec_cons (h : exec step s (a :: as) = some t) :
    ∃ s', step s a = some s' ∧ exec step s' as = some t :=
  Option.bind_eq_some_iff.mp h

theorem exec_append (s : S) (as bs : List A) :
    exec step s (as ++ bs) = (exec step s as).bind (exec step · bs) := by
  induction as generalizing s with
  | nil => rfl
  | cons a as ih =>
    rw [List.cons_append, exec, exec, Option.bind_assoc]
    congr
    funext s'
    exact ih s'

theorem guarded_of_forall {guard : S → A → Prop} (hall : ∀ s a, guard s a) (s : S) (as : List A) :
    Guarded step guard s as := by
  induction as generalizing s with
  | nil => trivial
  | cons a as ih => exact ⟨hall s a, fun s' _ => ih s'⟩

theorem guarded_iff_forall_split {guard : S → A → Prop} :
    Guarded step guard s as ↔ ∀ before a after s', as = before ++ a :: after →
      exec step s before = some s' → guard s' a := by
  induction as generalizing s with
  | nil => exact iff_of_true trivial fun before a after s' has => absurd has (by simp)
  | cons b as ih =>
    constructor
    · rintro ⟨hb, hrest⟩ before a after s' has hs'
      cases before with
      | nil =>
        obtain ⟨rfl, rfl⟩ := List.cons.inj has
        rw [exec_nil hs']
        exact hb
      | cons c before =>
        obtain ⟨rfl, rfl⟩ := List.cons.inj has
        obtain ⟨u, hu, hs'⟩ := exec_cons hs'
        exact ih.mp (hrest u hu) before a after s' rfl hs'
    · intro h
      refine ⟨h [] b as s rfl rfl, fun u hu => ih.mpr fun before a after s' has hs' => ?_⟩
      exact h (b :: before) a after s' (by rw [has]; rfl) (by rw [exec, hu]; exact hs')

theorem guarded_congr {I : S → Prop} {guard guard' : S → A → Prop}
    (hiff : ∀ s a, I s → (guard s a ↔ guard' s a))
    (hstep : ∀ s a s', I s → guard s a → step s a = some s' → I s') (hs : I s) :
    Guarded step guard s as ↔ Guarded step guard' s as := by
  induction as generalizing s with
  | nil => exact Iff.rfl
  | cons a as ih =>
    constructor
    · rintro ⟨ha, hrest⟩
      exact ⟨(hiff s a hs).mp ha, fun s' hs' => (ih (hstep s a s' hs ha hs')).mp (hrest s' hs')⟩
    · rintro ⟨ha', hrest⟩
      have ha := (hiff s a hs).mpr ha'
      exact ⟨ha, fun s' hs' => (ih (hstep s a s' hs ha hs')).mpr (hrest s' hs')⟩

theorem exec_invariant {I : S → Prop} (hstep : ∀ s a s', I s → step s a = some s' → I s')
    (hs : I s) (h : exec step s as = some t) : I t := by
  induction as generalizing s with
  | nil =>
    rw [exec_nil h]
    exact hs
  | cons a as ih =>
    obtain ⟨s', hs', h⟩ := exec_cons h
    exact ih (hstep s a s' hs hs') h

theorem exec_invariant_of_guarded {I : S → Prop} {guard : S → A → Prop}
    (hstep : ∀ s a s', I s → guard s a → step s a = some s' → I s')
    (hs : I s) (hg : Guarded step guard s as) (h : exec step s as = some t) : I t := by
  induction as generalizing s with
  | nil =>
    rw [exec_nil h]
    exact hs
  | cons a as ih =>
    obtain ⟨s', hs', h⟩ := exec_cons h
    exact ih (hstep s a s' hs hg.1 hs') (hg.2 s' hs') h

/-- An invariant that a step keeps exactly where a guard holds, and the run is one of
allowed actions: it holds in all states of the run exactly where the guard holds throughout. -/
theorem forall_prefix_iff_guarded {I : S → Prop} {allowed guard : S → A → Prop}
    (hstep : ∀ s a s', I s → allowed s a → step s a = some s' → (I s' ↔ guard s a))
    (hs : I s) (hallowed : Guarded step allowed s as) (h : exec step s as = some t) :
    (∀ before after s', as = before ++ after → exec step s before = some s' → I s') ↔
      Guarded step guard s as := by
  induction as generalizing s with
  | nil =>
    refine iff_of_true (fun before after s' has hs' => ?_) trivial
    obtain ⟨rfl, rfl⟩ := List.append_eq_nil_iff.mp has.symm
    rw [exec_nil hs']
    exact hs
  | cons a as ih =>
    obtain ⟨u, hu, h⟩ := exec_cons h
    have hiff := hstep s a u hs hallowed.1 hu
    constructor
    · intro hI
      have hu' : I u := hI [a] as u rfl (by rw [exec, hu]; rfl)
      refine ⟨hiff.mp hu', fun s' hs' => ?_⟩
      cases hu.symm.trans hs'
      refine (ih hu' (hallowed.2 u hu) h).mp fun before after s' has hs' => ?_
      exact hI (a :: before) after s' (by rw [has]; rfl) (by rw [exec, hu]; exact hs')
    · rintro ⟨hguard, hrest⟩ before after s' has hs'
      cases before with
      | nil =>
        rw [exec_nil hs']
        exact hs
      | cons b before =>
        obtain ⟨rfl, rfl⟩ := List.cons.inj has
        obtain ⟨u', hu', hs'⟩ := exec_cons hs'
        cases hu.symm.trans hu'
        exact (ih (hiff.mpr hguard) (hallowed.2 u hu) h).mpr (hrest u hu) before after s' rfl hs'

/-- States that are related by a bisimulation cannot be told apart by the runs
from them, as far as related states look the same. -/
theorem map_exec_eq_of_rel {O : Type} {R : S → S → Prop} {look : S → O}
    (hstep : ∀ s t a, R s t → Option.Rel R (step s a) (step t a))
    (hlook : ∀ s t, R s t → look s = look t) (hs : R s t) (as : List A) :
    (exec step s as).map look = (exec step t as).map look := by
  induction as generalizing s t with
  | nil => exact congrArg some (hlook s t hs)
  | cons a as ih =>
    have hrel := hstep s t a hs
    rw [exec, exec]
    generalize step s a = s', step t a = t' at hrel ⊢
    cases hrel with
    | none => rfl
    | some hs' => exact ih hs'

/-- While the goal is open, a guarded action lowers the potential by its charge
and raises it by its credit at most. Once the charges exceed the potential and
the credits, the goal has been met. -/
theorem exec_progress (Open Met : S → Prop) (potential : S → Nat) (charge credit : A → Nat)
    {guard : S → A → Prop} (hmet : ∀ s a s', Met s → step s a = some s' → Met s')
    (hopen : ∀ s a s', Open s → guard s a → step s a = some s' →
      Met s' ∨ Open s' ∧ charge a + potential s' ≤ potential s + credit a)
    (hs : Open s) (hg : Guarded step guard s as) (h : exec step s as = some t)
    (hcharge : potential s + (as.map credit).sum < (as.map charge).sum) : Met t := by
  induction as generalizing s with
  | nil => simp at hcharge
  | cons a as ih =>
    obtain ⟨s', hs', h⟩ := exec_cons h
    rw [List.map_cons, List.map_cons, List.sum_cons, List.sum_cons] at hcharge
    rcases hopen s a s' hs hg.1 hs' with hdone | ⟨hopen', hle⟩
    · exact exec_invariant hmet hdone h
    · exact ih hopen' (hg.2 s' hs') h (by omega)

end Lib
