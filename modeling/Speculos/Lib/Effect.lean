import Mathlib.Data.List.Basic

/-!
# Calls that may raise

A method that changes its object and may raise an exception is a computation
in `EStateM ε σ`: the changes made before the exception are kept. Here are the
rules by which a call is followed through its binds, and the rule that a
sequence of calls keeps an invariant which every call keeps, whether it
returns or raises.
-/

namespace Lib

variable {ε σ α β : Type}

def after : EStateM.Result ε σ α → σ
  | .ok _ s => s
  | .error _ s => s

def outcome : EStateM.Result ε σ α → Except ε α
  | .ok a _ => .ok a
  | .error e _ => .error e

@[simp] theorem after_ok (a : α) (s : σ) : after (.ok a s : EStateM.Result ε σ α) = s := rfl

@[simp] theorem outcome_ok (a : α) (s : σ) :
    outcome (.ok a s : EStateM.Result ε σ α) = .ok a := rfl

@[simp] theorem outcome_error (e : ε) (s : σ) :
    outcome (.error e s : EStateM.Result ε σ α) = .error e := rfl

theorem eq_ok_of_outcome {r : EStateM.Result ε σ α} (h : outcome r = .ok a) :
    r = .ok a (after r) := by
  cases r with
  | ok b s => simp_all
  | error e s => simp at h

theorem bind_of_ok {m : EStateM ε σ α} {f : α → EStateM ε σ β} {s s' : σ} {a : α}
    (h : m s = .ok a s') : (m >>= f) s = f a s' := by
  show EStateM.bind m f s = _
  rw [EStateM.bind, h]

theorem bind_of_error {m : EStateM ε σ α} {f : α → EStateM ε σ β} {s s' : σ} {e : ε}
    (h : m s = .error e s') : (m >>= f) s = .error e s' := by
  show EStateM.bind m f s = _
  rw [EStateM.bind, h]

@[simp] theorem pure_apply (a : α) (s : σ) : (pure a : EStateM ε σ α) s = .ok a s := rfl

@[simp] theorem throw_apply (e : ε) (s : σ) : (throw e : EStateM ε σ α) s = .error e s := rfl

@[simp] theorem modify_apply (f : σ → σ) (s : σ) :
    (modify f : EStateM ε σ PUnit) s = .ok ⟨⟩ (f s) := rfl

@[simp] theorem get_apply (s : σ) : (get : EStateM ε σ σ) s = .ok s s := rfl

-- ---------------------------------------------------------------------------
-- Calls that change nothing
-- ---------------------------------------------------------------------------

/-- A call leaves the object as it is and, if it returns, returns a `P`. -/
def Returns (P : α → Prop) (m : EStateM ε σ α) : Prop :=
  ∀ s, (∃ a, m s = .ok a s ∧ P a) ∨ ∃ e, m s = .error e s

namespace Returns

variable {P : α → Prop} {Q : β → Prop} {m m' : EStateM ε σ α} {f : α → EStateM ε σ β}

theorem pure {a : α} (h : P a) : Returns P (pure a : EStateM ε σ α) := fun _ => .inl ⟨a, rfl, h⟩

theorem throw (e : ε) : Returns P (throw e : EStateM ε σ α) := fun _ => .inr ⟨e, rfl⟩

theorem get : Returns (fun _ => True) (get : EStateM ε σ σ) := fun s => .inl ⟨s, rfl, trivial⟩

theorem bind (hm : Returns P m) (hf : ∀ a, P a → Returns Q (f a)) : Returns Q (m >>= f) := by
  intro s
  rcases hm s with ⟨a, h, ha⟩ | ⟨e, h⟩
  · rw [bind_of_ok h]
    exact hf a ha s
  · exact .inr ⟨e, bind_of_error h⟩

theorem ite {c : Prop} [Decidable c] (hm : Returns P m) (hm' : Returns P m') :
    Returns P (if c then m else m') := by
  split
  · exact hm
  · exact hm'

end Returns

-- ---------------------------------------------------------------------------
-- Invariants
-- ---------------------------------------------------------------------------

/-- A call keeps `I`, whether it returns or raises. -/
def Keeps (I : σ → Prop) (m : EStateM ε σ α) : Prop := ∀ s, I s → I (after (m s))

namespace Keeps

variable {I : σ → Prop} {m : EStateM ε σ α} {f : α → EStateM ε σ β}

theorem pure (a : α) : Keeps I (pure a : EStateM ε σ α) := fun _ h => h

theorem throw (e : ε) : Keeps I (throw e : EStateM ε σ α) := fun _ h => h

theorem get : Keeps I (get : EStateM ε σ σ) := fun _ h => h

theorem modify {g : σ → σ} (h : ∀ s, I s → I (g s)) :
    Keeps I (modify g : EStateM ε σ PUnit) := h

theorem bind (hm : Keeps I m) (hf : ∀ a, Keeps I (f a)) : Keeps I (m >>= f) := by
  intro s hs
  have hstep := hm s hs
  cases h : m s with
  | ok a s' =>
    rw [bind_of_ok h]
    rw [h] at hstep
    exact hf a s' hstep
  | error e s' =>
    rw [bind_of_error h]
    rw [h] at hstep
    exact hstep

theorem bind_returns {P : α → Prop} (hm : Returns P m) (hf : ∀ a, P a → Keeps I (f a)) :
    Keeps I (m >>= f) := by
  intro s hs
  rcases hm s with ⟨a, h, ha⟩ | ⟨e, h⟩
  · rw [bind_of_ok h]
    exact hf a ha s hs
  · rw [bind_of_error h]
    exact hs

theorem ite {c : Prop} [Decidable c] {m' : EStateM ε σ α} (hm : Keeps I m) (hm' : Keeps I m') :
    Keeps I (if c then m else m') := by
  split
  · exact hm
  · exact hm'

end Keeps

def afterAll (call : γ → EStateM ε σ α) (s : σ) (calls : List γ) : σ :=
  calls.foldl (fun s c => after (call c s)) s

def outcomes (call : γ → EStateM ε σ α) (s : σ) : List γ → List (Except ε α)
  | [] => []
  | c :: cs => outcome (call c s) :: outcomes call (after (call c s)) cs

theorem afterAll_keeps {call : γ → EStateM ε σ α} {I : σ → Prop} (h : ∀ c, Keeps I (call c))
    (hs : I s) (calls : List γ) : I (afterAll call s calls) := by
  induction calls generalizing s with
  | nil => exact hs
  | cons c cs ih => exact ih (h c s hs)

end Lib
