import Mathlib.Logic.Function.Basic

/-!
# Straight-line programs over registers

An instruction combines two registers and writes a third one. What a program does to the
registers does not depend on their places as long as these are different, and it commutes
with a homomorphism of the values.
-/

namespace Lib

/-- `r := a op b` -/
structure Instr (ι Op : Type) where
  op : Op
  r : ι
  a : ι
  b : ι
  deriving DecidableEq, Repr

namespace Instr

variable {ι κ Op V W : Type} [DecidableEq ι] [DecidableEq κ]

def step (f : Op → V → V → V) (m : ι → V) (i : Instr ι Op) : ι → V :=
  Function.update m i.r (f i.op (m i.a) (m i.b))

def exec (f : Op → V → V → V) (program : List (Instr ι Op)) (m : ι → V) : ι → V :=
  program.foldl (step f) m

variable {f : Op → V → V → V}

theorem exec_cons (i : Instr ι Op) (program : List (Instr ι Op)) (m : ι → V) :
    exec f (i :: program) m = exec f program (step f m i) := rfl

theorem exec_of_not_written {program : List (Instr ι Op)} {k : ι}
    (h : ∀ i ∈ program, i.r ≠ k) (m : ι → V) : exec f program m k = m k := by
  induction program generalizing m with
  | nil => rfl
  | cons i program ih =>
    rw [exec_cons, ih fun j hj => h j (List.mem_cons_of_mem _ hj)]
    exact Function.update_of_ne (Ne.symm (h i List.mem_cons_self)) _ _

theorem exec_of_written {S : V → Prop} (hf : ∀ op a b, S (f op a b)) {program : List (Instr ι Op)}
    {k : ι} (h : ∃ i ∈ program, i.r = k) (m : ι → V) : S (exec f program m k) := by
  have hkeep (program : List (Instr ι Op)) (m : ι → V) (hm : S (m k)) : S (exec f program m k) := by
    induction program generalizing m with
    | nil => exact hm
    | cons i program ih =>
      refine ih _ ?_
      by_cases hi : k = i.r
      · rw [hi, step, Function.update_self]
        exact hf ..
      · rw [step, Function.update_of_ne hi]
        exact hm
  induction program generalizing m with
  | nil => simp at h
  | cons i program ih =>
    obtain ⟨j, hj, rfl⟩ := h
    rcases List.mem_cons.mp hj with rfl | hj
    · refine hkeep program _ ?_
      rw [step, Function.update_self]
      exact hf ..
    · exact ih ⟨j, hj, rfl⟩ _

def place (name : ι → κ) (i : Instr ι Op) : Instr κ Op := ⟨i.op, name i.r, name i.a, name i.b⟩

theorem exec_place {name : ι → κ} (hname : Function.Injective name) (program : List (Instr ι Op))
    (m : κ → V) : (exec f (program.map (place name)) m) ∘ name = exec f program (m ∘ name) := by
  induction program generalizing m with
  | nil => rfl
  | cons i program ih =>
    rw [List.map_cons, exec_cons, ih, exec_cons]
    congr 1
    exact Function.update_comp_eq_of_injective m hname i.r _

theorem map_exec {g : Op → W → W → W} {φ : V → W}
    (hφ : ∀ op a b, φ (f op a b) = g op (φ a) (φ b)) (program : List (Instr ι Op)) (m : ι → V) :
    φ ∘ exec f program m = exec g program (φ ∘ m) := by
  induction program generalizing m with
  | nil => rfl
  | cons i program ih =>
    rw [exec_cons, ih, exec_cons]
    congr 1
    rw [step, Function.comp_update, hφ]
    rfl

end Instr

end Lib
