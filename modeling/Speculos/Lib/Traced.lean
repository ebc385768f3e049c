import Mathlib.Logic.Function.Iterate

/-!
# Computations with the accesses they make

A value together with the list of accesses that were made to get it, so that what a loop
reads or writes can be bounded. A property of all accesses of a sequence is one of the
accesses of its parts. A loop is given fuel: it comes to its end exactly where its turns come
to a state in which it stops, and an invariant bounds its accesses.
-/

namespace Lib

structure Traced (A α : Type) where
  value : α
  log : List A

namespace Traced

variable {A α β : Type}

/-- One access, and what it gives. -/
def access (a : A) (value : α) : Traced A α := ⟨value, [a]⟩

instance : Monad (Traced A) where
  pure value := ⟨value, []⟩
  bind x f := ⟨(f x.value).value, x.log ++ (f x.value).log⟩

/-- Every access has the property. -/
def All (P : A → Prop) (x : Traced A α) : Prop := ∀ a ∈ x.log, P a

@[simp] theorem value_pure (a : α) : (pure a : Traced A α).value = a := rfl

@[simp] theorem value_bind (x : Traced A α) (f : α → Traced A β) :
    (x >>= f).value = (f x.value).value := rfl

@[simp] theorem value_access (a : A) (b : α) : (access a b).value = b := rfl

theorem value_access_bind (a : A) (b : α) (f : α → Traced A β) :
    (access a b >>= f).value = (f b).value := rfl

variable {P : A → Prop}

@[simp] theorem all_pure (a : α) : (pure a : Traced A α).All P ↔ True :=
  iff_true_intro fun _ h => absurd h List.not_mem_nil

@[simp] theorem all_bind (x : Traced A α) (f : α → Traced A β) :
    (x >>= f).All P ↔ x.All P ∧ (f x.value).All P :=
  List.forall_mem_append

@[simp] theorem all_access (a : A) (b : α) : (access a b).All P ↔ P a := List.forall_mem_singleton

theorem all_access_bind (a : A) (b : α) (f : α → Traced A β) :
    (access a b >>= f).All P ↔ P a ∧ (f b).All P := by
  simp

def relabel {B : Type} (f : A → B) (x : Traced A α) : Traced B α := ⟨x.value, x.log.map f⟩

@[simp] theorem value_relabel {B : Type} (f : A → B) (x : Traced A α) :
    (x.relabel f).value = x.value := rfl

theorem all_foldlM {S B : Type} {I : S → Prop} {f : S → B → Traced A S} {bs : List B}
    {s : S}
    (hstep : ∀ s, ∀ b ∈ bs, I s → (f s b).All P ∧ I (f s b).value) (hs : I s) :
    (bs.foldlM f s).All P ∧ I (bs.foldlM f s).value := by
  induction bs generalizing s with
  | nil => exact ⟨(all_pure s).mpr trivial, hs⟩
  | cons b bs ih =>
    obtain ⟨hhead, hnext⟩ := hstep s b List.mem_cons_self hs
    obtain ⟨htail, hend⟩ := ih (fun s b hb => hstep s b (List.mem_cons_of_mem _ hb)) hnext
    rw [List.foldlM_cons, all_bind]
    exact ⟨⟨hhead, htail⟩, hend⟩

theorem value_foldlM {S B : Type} (f : S → B → Traced A S) (bs : List B) (s : S) :
    (bs.foldlM f s).value = bs.foldl (fun s b => (f s b).value) s := by
  induction bs generalizing s with
  | nil => rfl
  | cons b bs ih => exact ih (f s b).value

variable {S : Type} (cond : S → Prop) [DecidablePred cond] (body : S → Traced A S)

/-- `while (cond) body`, where the fuel bounds the turns. -/
def loop : Nat → S → Traced A (Option S)
  | 0, _ => return none
  | fuel + 1, s =>
    if cond s then do
      let s ← body s
      loop fuel s
    else return some s

variable {cond body}

theorem all_loop {I : S → Prop}
    (hbody : ∀ s, I s → cond s → (body s).All P ∧ I (body s).value) (hs : I s) (fuel : Nat) :
    (loop cond body fuel s).All P ∧
      ∀ t, (loop cond body fuel s).value = some t → I t ∧ ¬ cond t := by
  induction fuel generalizing s with
  | zero => exact ⟨(all_pure none).mpr trivial, fun t ht => by cases ht⟩
  | succ fuel ih =>
    rw [loop]
    split
    · rename_i hcond
      obtain ⟨hturn, hnext⟩ := hbody s hs hcond
      obtain ⟨hrest, hend⟩ := ih hnext
      exact ⟨(all_bind _ _).mpr ⟨hturn, hrest⟩, hend⟩
    · rename_i hstop
      refine ⟨(all_pure _).mpr trivial, fun t ht => ?_⟩
      cases ht
      exact ⟨hs, hstop⟩

theorem isSome_loop_iff (s : S) (fuel : Nat) :
    (loop cond body fuel s).value.isSome ↔
      ∃ turns < fuel, ¬ cond ((fun s => (body s).value)^[turns] s) := by
  induction fuel generalizing s with
  | zero => simp [loop]
  | succ fuel ih =>
    rw [loop]
    split
    · rename_i hcond
      rw [value_bind, ih]
      constructor
      · rintro ⟨turns, hlt, hstop⟩
        exact ⟨turns + 1, by omega, hstop⟩
      · rintro ⟨turns, hlt, hstop⟩
        cases turns with
        | zero => exact absurd hcond hstop
        | succ turns => exact ⟨turns, by omega, hstop⟩
    · rename_i hstop
      exact iff_of_true rfl ⟨0, Nat.succ_pos fuel, hstop⟩

theorem isSome_loop_of_variant (variant : S → Nat)
    (hbody : ∀ s, cond s → variant (body s).value < variant s) (s : S)
    (hfuel : variant s < fuel) : (loop cond body fuel s).value.isSome := by
  induction fuel generalizing s with
  | zero => exact absurd hfuel (Nat.not_lt_zero _)
  | succ fuel ih =>
    rw [loop]
    split
    · rename_i hcond
      have hlt := hbody s hcond
      exact ih (body s).value (by omega)
    · rfl

end Traced

end Lib
