import Mathlib.Data.List.Perm.Basic
import Speculos.Lib.Lts

/-!
# Parties joined by queues

A party reacts: in a state it either acts of its own accord or takes the next
item of its inbox, never both, and puts what it says at the end of the other
party's inbox. Two parties joined by two such queues may take turns in any
order, but the order is of no consequence: steps of different parties commute, so
that a run that has come to rest is the longest there is, every other run can be
continued to the state it ends in, and no run rests anywhere else.

A proof about every interleaving thus comes down to one run, and `Consumes`
describes the runs in which a party takes a whole list of items at a time.
-/

namespace Lib

-- ---------------------------------------------------------------------------
-- Steps that commute
-- ---------------------------------------------------------------------------

section Diamond

variable {S A : Type} {step : S → A → Option S} {s t u : S}

/-- Different actions that can be taken in one state can be taken one after the
other, with the same result in either order. -/
def Diamond (step : S → A → Option S) : Prop :=
  ∀ ⦃s a b t u⦄, a ≠ b → step s a = some t → step s b = some u →
    ∃ v, step t b = some v ∧ step u a = some v

/-- No action can be taken. -/
def Quiet (step : S → A → Option S) (s : S) : Prop := ∀ a, step s a = none

/-- An action that can be taken at the start of a run to a state of rest is taken
at some time in this run, and might as well come first. -/
theorem Diamond.advance [DecidableEq A] (hd : Diamond step) (hq : Quiet step t) {as : List A}
    (h : exec step s as = some t) {b : A} (hb : step s b = some u) :
    ∃ bs, exec step u bs = some t ∧ (b :: bs).Perm as := by
  induction as generalizing s u with
  | nil =>
    rw [exec_nil h] at hq
    rw [hq b] at hb
    contradiction
  | cons a as ih =>
    obtain ⟨v, hv, h⟩ := exec_cons h
    by_cases hab : a = b
    · subst hab
      cases hv.symm.trans hb
      exact ⟨as, h, .refl _⟩
    · obtain ⟨w, hw, hu⟩ := hd hab hv hb
      obtain ⟨bs, hbs, hperm⟩ := ih h hw
      refine ⟨a :: bs, ?_, ?_⟩
      · simp only [exec, hu, Option.bind_some, hbs]
      · exact (List.Perm.swap a b bs).trans (hperm.cons a)

/-- Every run can be continued to the state of rest that one run reaches, and takes
the same actions by then. -/
theorem Diamond.continues [DecidableEq A] (hd : Diamond step) (hq : Quiet step t) {as bs : List A}
    (h : exec step s as = some t) (hbs : exec step s bs = some u) :
    ∃ cs, exec step u cs = some t ∧ (bs ++ cs).Perm as := by
  induction bs generalizing s as with
  | nil =>
    rw [exec_nil hbs]
    exact ⟨as, h, .refl _⟩
  | cons b bs ih =>
    obtain ⟨v, hv, hbs⟩ := exec_cons hbs
    obtain ⟨as', h', hperm⟩ := hd.advance hq h hv
    obtain ⟨cs, hcs, hperm'⟩ := ih h' hbs
    exact ⟨cs, hcs, (hperm'.cons b).trans hperm⟩

/-- No run is longer than the one that comes to rest. -/
theorem Diamond.length_le [DecidableEq A] (hd : Diamond step) (hq : Quiet step t) {as bs : List A}
    (h : exec step s as = some t) (hbs : exec step s bs = some u) : bs.length ≤ as.length := by
  obtain ⟨cs, -, hperm⟩ := hd.continues hq h hbs
  have hlen := hperm.length_eq
  simp at hlen
  omega

theorem Quiet.exec_eq (hq : Quiet step u) {cs : List A} (h : exec step u cs = some t) : t = u := by
  cases cs with
  | nil => exact exec_nil h
  | cons c cs =>
    obtain ⟨v, hv, -⟩ := exec_cons h
    rw [hq c] at hv
    contradiction

theorem Diamond.rest_unique [DecidableEq A] (hd : Diamond step) (hq : Quiet step t)
    (hq' : Quiet step u) {as bs : List A} (h : exec step s as = some t)
    (hbs : exec step s bs = some u) : u = t := by
  obtain ⟨cs, hcs, -⟩ := hd.continues hq h hbs
  exact (hq'.exec_eq hcs).symm

end Diamond

-- ---------------------------------------------------------------------------
-- A party
-- ---------------------------------------------------------------------------

/-- A party with states `S` that takes items `I` and says items `O`. -/
structure Party (S I O : Type) where
  act : S → Option (S × List O)
  recv : S → I → S × List O

namespace Party

variable {S I O : Type} (P : Party S I O)

/-- One turn of a party with an inbox: its state and inbox after it, and what it says. -/
def turn (s : S) (inbox : List I) : Option (S × List I × List O) :=
  match P.act s with
  | some (s', said) => some (s', inbox, said)
  | none =>
    match inbox with
    | [] => none
    | i :: rest => some ((P.recv s i).1, rest, (P.recv s i).2)

variable {P}

theorem turn_act {s t : S} (h : P.act s = some (t, said)) (inbox : List I) :
    P.turn s inbox = some (t, inbox, said) := by
  simp [turn, h]

theorem turn_recv {s : S} (h : P.act s = none) (i : I) (rest : List I) :
    P.turn s (i :: rest) = some ((P.recv s i).1, rest, (P.recv s i).2) := by
  simp [turn, h]

theorem turn_append {s t : S} {inbox rest : List I} (h : P.turn s inbox = some (t, rest, said))
    (more : List I) : P.turn s (inbox ++ more) = some (t, rest ++ more, said) := by
  unfold turn at h ⊢
  cases hact : P.act s with
  | some next =>
    simp only [hact] at h
    cases h
    rfl
  | none =>
    cases inbox with
    | nil => simp [hact] at h
    | cons i rest =>
      simp only [hact] at h
      cases h
      rfl

variable (P)

/-- From `s` the party takes the items, acting in between, and is then in `t`,
having said `said`. -/
inductive Consumes : S → List I → S → List O → Prop
  | done : Consumes s [] s []
  | act : P.act s = some (t, said) → Consumes t items u more → Consumes s items u (said ++ more)
  | recv : P.act s = none → P.recv s i = (t, said) → Consumes t items u more →
      Consumes s (i :: items) u (said ++ more)

variable {P}

theorem Consumes.trans {s t u : S} (h : P.Consumes s items t said)
    (h' : P.Consumes t items' u said') :
    P.Consumes s (items ++ items') u (said ++ said') := by
  induction h with
  | done => exact h'
  | act hact _ ih =>
    rw [List.append_assoc]
    exact .act hact (ih h')
  | recv hact hrecv _ ih =>
    rw [List.append_assoc]
    exact .recv hact hrecv (ih h')

theorem Consumes.one {s t : S} (hact : P.act s = none) (hrecv : P.recv s i = (t, said)) :
    P.Consumes s [i] t said := by
  simpa using Consumes.recv hact hrecv .done

theorem Consumes.acts {s t : S} (hact : P.act s = some (t, said)) : P.Consumes s [] t said := by
  simpa using Consumes.act hact .done

end Party

-- ---------------------------------------------------------------------------
-- Two parties
-- ---------------------------------------------------------------------------

inductive Side
  | left
  | right
  deriving DecidableEq, Repr

/-- The states of two parties, and what each has been sent and not yet taken. -/
structure Network (S T A B : Type) where
  left : S
  right : T
  toLeft : List A
  toRight : List B

namespace Network

variable {S T A B : Type} (P : Party S A B) (Q : Party T B A)

def step (n : Network S T A B) : Side → Option (Network S T A B)
  | .left => (P.turn n.left n.toLeft).map fun (s, rest, said) =>
    { n with left := s, toLeft := rest, toRight := n.toRight ++ said }
  | .right => (Q.turn n.right n.toRight).map fun (t, rest, said) =>
    { n with right := t, toRight := rest, toLeft := n.toLeft ++ said }

variable {P Q} {n m : Network S T A B}

theorem step_left (h : P.turn n.left n.toLeft = some (s, rest, said)) :
    step P Q n .left =
      some { n with left := s, toLeft := rest, toRight := n.toRight ++ said } := by
  simp [step, h]

theorem step_right (h : Q.turn n.right n.toRight = some (t, rest, said)) :
    step P Q n .right =
      some { n with right := t, toRight := rest, toLeft := n.toLeft ++ said } := by
  simp [step, h]

theorem step_left_cases (h : step P Q n .left = some m) :
    ∃ s rest said, P.turn n.left n.toLeft = some (s, rest, said) ∧
      m = { n with left := s, toLeft := rest, toRight := n.toRight ++ said } := by
  simp only [step, Option.map_eq_some_iff] at h
  obtain ⟨⟨s, rest, said⟩, hturn, rfl⟩ := h
  exact ⟨s, rest, said, hturn, rfl⟩

theorem step_right_cases (h : step P Q n .right = some m) :
    ∃ t rest said, Q.turn n.right n.toRight = some (t, rest, said) ∧
      m = { n with right := t, toRight := rest, toLeft := n.toLeft ++ said } := by
  simp only [step, Option.map_eq_some_iff] at h
  obtain ⟨⟨t, rest, said⟩, hturn, rfl⟩ := h
  exact ⟨t, rest, said, hturn, rfl⟩

theorem step_commute {m' : Network S T A B} (h : step P Q n .left = some m)
    (h' : step P Q n .right = some m') :
    ∃ v, step P Q m .right = some v ∧ step P Q m' .left = some v := by
  obtain ⟨s, rest, said, hturn, rfl⟩ := step_left_cases h
  obtain ⟨t, rest', said', hturn', rfl⟩ := step_right_cases h'
  exact ⟨_, step_right (Party.turn_append hturn' said), step_left (Party.turn_append hturn said')⟩

theorem diamond (P : Party S A B) (Q : Party T B A) : Diamond (step P Q) := by
  intro n a b m m' hab h h'
  cases a with
  | left =>
    cases b with
    | left => contradiction
    | right => exact step_commute h h'
  | right =>
    cases b with
    | left =>
      obtain ⟨v, hv, hv'⟩ := step_commute h' h
      exact ⟨v, hv', hv⟩
    | right => contradiction

theorem quiet_of_waiting (hleft : P.act n.left = none) (hright : Q.act n.right = none)
    (hin : n.toLeft = []) (hin' : n.toRight = []) : Quiet (step P Q) n := by
  intro a
  cases a with
  | left => simp [step, Party.turn, hleft, hin]
  | right => simp [step, Party.turn, hright, hin']

-- ---------------------------------------------------------------------------
-- Whole inboxes
-- ---------------------------------------------------------------------------

/-- Some run leads from one state to the other. -/
def Reaches (P : Party S A B) (Q : Party T B A) (n m : Network S T A B) : Prop :=
  ∃ as, exec (step P Q) n as = some m

theorem Reaches.refl (n : Network S T A B) : Reaches P Q n n := ⟨[], rfl⟩

theorem Reaches.trans {v : Network S T A B} (h : Reaches P Q n m) (h' : Reaches P Q m v) :
    Reaches P Q n v := by
  obtain ⟨as, has⟩ := h
  obtain ⟨bs, hbs⟩ := h'
  exact ⟨as ++ bs, by rw [exec_append, has]; exact hbs⟩

theorem Reaches.cons {v : Network S T A B} {a : Side} (h : step P Q n a = some m)
    (h' : Reaches P Q m v) : Reaches P Q n v := by
  obtain ⟨as, has⟩ := h'
  exact ⟨a :: as, by rw [exec, h]; exact has⟩

theorem reaches_left {s t : S} (h : P.Consumes s items t said) (r : T) (rest : List A)
    (toRight : List B) :
    Reaches P Q ⟨s, r, items ++ rest, toRight⟩ ⟨t, r, rest, toRight ++ said⟩ := by
  induction h generalizing toRight with
  | done =>
    rw [List.append_nil]
    exact .refl _
  | act hact _ ih =>
    rw [← List.append_assoc]
    exact .cons (step_left (Party.turn_act hact _)) (ih _)
  | recv hact hrecv _ ih =>
    rw [← List.append_assoc]
    refine .cons (step_left (Party.turn_recv hact _ _)) ?_
    rw [hrecv]
    exact ih _

theorem reaches_right {t u : T} (h : Q.Consumes t items u said) (s : S) (rest : List B)
    (toLeft : List A) :
    Reaches P Q ⟨s, t, toLeft, items ++ rest⟩ ⟨s, u, toLeft ++ said, rest⟩ := by
  induction h generalizing toLeft with
  | done =>
    rw [List.append_nil]
    exact .refl _
  | act hact _ ih =>
    rw [← List.append_assoc]
    exact .cons (step_right (Party.turn_act hact _)) (ih _)
  | recv hact hrecv _ ih =>
    rw [← List.append_assoc]
    refine .cons (step_right (Party.turn_recv hact _ _)) ?_
    rw [hrecv]
    exact ih _

end Network

end Lib
