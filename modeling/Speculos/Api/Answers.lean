import Speculos.Api.ApduBridge

/-!
# Every exchange gets its own answer

The lock lets one exchange at a time clear the response, send and wait, but an
exchange that times out gives the lock back with its answer still to come. In
every run in which the response is cleared only when the device owes no answer,
what an exchange yields is the answer to its own APDU.
-/

namespace Speculos.Api

open Lib

def Phase.holds : Phase → Bool
  | .clearing _ | .sending _ | .checking _ | .waiting _ | .reading | .yielded => true
  | .idle | .locking _ | .done => false

/-- The exchange has cleared the response and still holds the lock. -/
def Phase.cleared : Phase → Bool
  | .sending _ | .checking _ | .waiting _ | .reading | .yielded => true
  | .idle | .locking _ | .clearing _ | .done => false

def Phase.isClearing : Phase → Bool
  | .clearing _ => true
  | _ => false

theorem Phase.holds_of_cleared {phase : Phase} (h : phase.cleared = true) :
    phase.holds = true := by
  cases phase <;> simp_all [cleared, holds]

namespace APDUBridge

variable {s s' : APDUBridge} {transport : TransportType} {requests : Nat → Request}

/-- The response is cleared only when no APDU is unanswered. -/
def Settled (s : APDUBridge) : Action → Prop
  | .exchange i => (s.phases i).isClearing = true → s.device = []
  | _ => True

instance (s : APDUBridge) : ∀ a, Decidable (s.Settled a)
  | .exchange i => inferInstanceAs (Decidable ((s.phases i).isClearing = true → s.device = []))
  | .tick | .answer _ _ => .isTrue trivial

/-- Whatever an exchange has yielded is the answer to its own APDU. -/
def OwnAnswers (s : APDUBridge) : Prop := ∀ p ∈ s.yielded, p.2.exchange = p.1

/-- What the runs in question keep: while an exchange is past the clearing,
only its own answer can come or have come. -/
structure Inv (s : APDUBridge) : Prop where
  lock : ∀ i, (s.phases i).holds = true → s.endpointLock = some i
  device : ∀ i, (s.phases i).cleared = true → s.device = [] ∨ s.device = [i]
  sending : ∀ i start, s.phases i = .sending start → s.device = []
  response : ∀ i answer, (s.phases i).cleared = true → s.response = some answer →
    answer.exchange = i
  own : s.OwnAnswers

theorem inv_new : Inv new := by
  refine ⟨?_, ?_, ?_, ?_, ?_⟩ <;> simp [new, Phase.holds, Phase.cleared, OwnAnswers]

theorem Inv.alone (hi : Inv s) (h : (s.phases i).holds = true) (hj : j ≠ i) :
    (s.phases j).holds = false := by
  by_contra hne
  have hlock := hi.lock j (by simpa using hne)
  rw [hi.lock i h, Option.some.injEq] at hlock
  exact hj hlock.symm

/-- Where no other exchange holds the lock, only the one that takes the step
has to be looked at. -/
theorem Inv.of_alone (i : Nat) (halone : ∀ j, j ≠ i → (s'.phases j).holds = false)
    (hlock : (s'.phases i).holds = true → s'.endpointLock = some i)
    (hdevice : (s'.phases i).cleared = true → s'.device = [] ∨ s'.device = [i])
    (hsending : ∀ start, s'.phases i = .sending start → s'.device = [])
    (hresponse : ∀ answer, (s'.phases i).cleared = true → s'.response = some answer →
      answer.exchange = i)
    (hown : s'.OwnAnswers) : Inv s' := by
  have hsame : ∀ j, (s'.phases j).holds = true → j = i := by
    intro j hj
    by_contra hne
    rw [halone j hne] at hj
    cases hj
  refine ⟨?_, ?_, ?_, ?_, hown⟩
  · intro j hj
    obtain rfl := hsame j hj
    exact hlock hj
  · intro j hj
    obtain rfl := hsame j (Phase.holds_of_cleared hj)
    exact hdevice hj
  · intro j start hj
    obtain rfl := hsame j (by rw [hj]; rfl)
    exact hsending start hj
  · intro j answer hj
    obtain rfl := hsame j (Phase.holds_of_cleared hj)
    exact hresponse answer hj

@[simp] theorem setPhase_self (s : APDUBridge) (i : Nat) (phase : Phase) :
    (s.setPhase i phase).phases i = phase := by
  simp [setPhase]

theorem setPhase_other (s : APDUBridge) (phase : Phase) (h : j ≠ i) :
    (s.setPhase i phase).phases j = s.phases j := by
  simp [setPhase, h]

theorem Inv.advance (hi : Inv s) (h : (s.phases i).cleared = true) (phase : Phase)
    (hphase : ∀ start, phase ≠ .sending start) : Inv (s.setPhase i phase) := by
  have hholds := Phase.holds_of_cleared h
  refine .of_alone i ?_ ?_ ?_ ?_ ?_ hi.own
  · intro j hj
    rw [setPhase_other s phase hj]
    exact hi.alone hholds hj
  · exact fun _ => hi.lock i hholds
  · exact fun _ => hi.device i h
  · intro start hs
    rw [setPhase_self] at hs
    exact absurd hs (hphase start)
  · exact fun answer _ ha => hi.response i answer h ha

theorem Inv.leave (hi : Inv s) (h : (s.phases i).holds = true) : Inv (s.leave i) := by
  have hdone : (s.leave i).phases i = .done := setPhase_self s i .done
  refine .of_alone i ?_ ?_ ?_ ?_ ?_ hi.own
  · intro j hj
    rw [show (s.leave i).phases j = s.phases j from setPhase_other s .done hj]
    exact hi.alone h hj
  all_goals simp [hdone, Phase.holds, Phase.cleared]

theorem Inv.readTicks (hi : Inv s) (i start : Nat) :
    Inv (s.setPhase i (.locking start)) := by
  have hphase : ∀ j, (s.setPhase i (.locking start)).phases j = s.phases j ∨
      j = i ∧ (s.setPhase i (.locking start)).phases j = .locking start := by
    intro j
    by_cases hj : j = i
    · rw [hj]
      exact .inr ⟨rfl, setPhase_self s i _⟩
    · exact .inl (setPhase_other s _ hj)
  refine ⟨?_, ?_, ?_, ?_, hi.own⟩
  · intro j hj
    rcases hphase j with hp | ⟨-, hp⟩ <;> rw [hp] at hj
    · exact hi.lock j hj
    · cases hj
  · intro j hj
    rcases hphase j with hp | ⟨-, hp⟩ <;> rw [hp] at hj
    · exact hi.device j hj
    · cases hj
  · intro j start' hj
    rcases hphase j with hp | ⟨-, hp⟩ <;> rw [hp] at hj
    · exact hi.sending j start' hj
    · cases hj
  · intro j answer hj
    rcases hphase j with hp | ⟨-, hp⟩ <;> rw [hp] at hj
    · exact hi.response j answer hj
    · cases hj

theorem Inv.acquire (hi : Inv s) (hlock : s.endpointLock = none) (start : Nat) :
    Inv { s.setPhase i (.clearing start) with endpointLock := some i } := by
  have hnone : ∀ j, (s.phases j).holds = false := by
    intro j
    by_contra hne
    have := hi.lock j (by simpa using hne)
    rw [hlock] at this
    cases this
  refine .of_alone i ?_ ?_ ?_ ?_ ?_ hi.own
  · intro j hj
    rw [show _ = s.phases j from setPhase_other s (.clearing start) hj]
    exact hnone j
  all_goals simp [Phase.cleared]

theorem Inv.clear (hi : Inv s) (h : s.phases i = .clearing start) (hdevice : s.device = []) :
    Inv { s.setPhase i (.sending start) with response := none } := by
  have hholds : (s.phases i).holds = true := by rw [h]; rfl
  refine .of_alone i ?_ ?_ ?_ ?_ ?_ hi.own
  · intro j hj
    rw [show _ = s.phases j from setPhase_other s (.sending start) hj]
    exact hi.alone hholds hj
  · exact fun _ => hi.lock i hholds
  · exact fun _ => .inl hdevice
  · exact fun _ _ => hdevice
  · intro answer _ ha
    cases ha

theorem Inv.sendApdu (hi : Inv s) (h : s.phases i = .sending start) :
    Inv { s.setPhase i (.checking start) with device := s.device ++ [i] } := by
  have hcleared : (s.phases i).cleared = true := by rw [h]; rfl
  have hholds := Phase.holds_of_cleared hcleared
  have hdevice := hi.sending i start h
  refine .of_alone i ?_ ?_ ?_ ?_ ?_ hi.own
  · intro j hj
    rw [show _ = s.phases j from setPhase_other s (.checking start) hj]
    exact hi.alone hholds hj
  · exact fun _ => hi.lock i hholds
  · intro _
    rw [hdevice]
    exact .inr rfl
  · intro start' hs
    rw [show _ = Phase.checking start from setPhase_self s i _] at hs
    cases hs
  · exact fun answer _ ha => hi.response i answer hcleared ha

theorem Inv.yield (hi : Inv s) (h : s.phases i = .reading) (ha : s.response = some answer) :
    Inv { s.setPhase i .yielded with yielded := s.yielded ++ [(i, answer)] } := by
  have hcleared : (s.phases i).cleared = true := by rw [h]; rfl
  obtain ⟨hlock, hdevice, hsending, hresponse, -⟩ :=
    hi.advance hcleared .yielded (by simp)
  refine ⟨hlock, hdevice, hsending, hresponse, ?_⟩
  intro p hp
  rcases List.mem_append.mp hp with hp | hp
  · exact hi.own p hp
  · rw [List.mem_singleton.mp hp]
    exact hi.response i answer hcleared ha

theorem Inv.exchange (hi : Inv s) (hsettled : Settled s (.exchange i))
    (h : s.exchange transport requests i = some s') : Inv s' := by
  unfold APDUBridge.exchange at h
  split at h <;> rename_i hphase
  · cases h
    exact hi.readTicks _ s.ticks
  · split at h
    · cases h
      exact hi.acquire ‹_› _
    · cases h
  · cases h
    exact hi.clear hphase (hsettled (by rw [hphase]; rfl))
  · split at h <;> cases h
    · exact hi.leave (by rw [hphase]; rfl)
    · exact hi.sendApdu hphase
    · exact hi.advance (by rw [hphase]; rfl) _ (by simp)
  · cases h
    exact hi.advance (by rw [hphase]; rfl) _ (by split <;> simp)
  · split at h <;> cases h
    · exact hi.leave (by rw [hphase]; rfl)
    · exact hi.advance (by rw [hphase]; rfl) _ (by simp)
  · split at h <;> cases h
    · exact hi.yield hphase ‹_›
    · exact hi.leave (by rw [hphase]; rfl)
  · cases h
    exact hi.leave (by rw [hphase]; rfl)
  · cases h

/-- The device answers the oldest APDU, which is that of the exchange past the
clearing if there is one. -/
theorem Inv.canRead (hi : Inv s) (h : s.canRead tag data = some s') : Inv s' := by
  unfold APDUBridge.canRead at h
  split at h
  · cases h
  · rename_i i device hdevice
    have hown : ∀ j, (s.phases j).cleared = true → device = [] ∧ i = j := by
      intro j hj
      rcases hi.device j hj with hd | hd <;> rw [hdevice] at hd
      · cases hd
      · cases hd
        exact ⟨rfl, rfl⟩
    have hkeep : Inv { s with device } := by
      refine ⟨hi.lock, fun j hj => .inl (hown j hj).1, ?_, hi.response, hi.own⟩
      exact fun j start hj => (hown j (by rw [hj]; rfl)).1
    dsimp only at h
    split at h
    · cases h
      exact hkeep
    · cases h
      refine ⟨hkeep.lock, hkeep.device, hkeep.sending, ?_, hkeep.own⟩
      intro j answer hj ha
      cases ha
      exact (hown j hj).2

theorem inv_step (hi : Inv s) (hsettled : Settled s a)
    (h : step transport requests s a = some s') : Inv s' := by
  cases a with
  | exchange i => exact hi.exchange hsettled h
  | tick =>
    cases h
    exact ⟨hi.lock, hi.device, hi.sending, hi.response, hi.own⟩
  | answer tag data => exact hi.canRead h

/-- In a run that clears the response only when the device owes no answer, each
exchange yields the answer to its own APDU. -/
theorem exec_ownAnswers (hg : Guarded (step transport requests) Settled new actions)
    (h : exec (step transport requests) new actions = some s) : OwnAnswers s :=
  (exec_invariant_of_guarded (fun _ _ _ hi hg h => inv_step hi hg h) inv_new hg h).own

def twoRequests (i : Nat) : Request :=
  { data := [0xe0, 0x01], tickTimeout := if i = 0 then 1 else 0 }

def answered : List Action :=
  [.exchange 0, .exchange 0, .exchange 0, .exchange 0, .exchange 0, .answer .rapdu [0x90, 0x00],
    .exchange 0, .exchange 0, .exchange 0]

theorem exec_ownAnswers_answered :
    ∃ s, exec (step .hid twoRequests) new answered = some s ∧
      s.yielded = [(0, ⟨0, [0x90, 0x00]⟩)] ∧ OwnAnswers s := by
  have hrun : (exec (step .hid twoRequests) new answered).map (·.yielded) =
      some [(0, ⟨0, [0x90, 0x00]⟩)] := by
    decide +kernel
  obtain ⟨s, hs, hyielded⟩ := Option.map_eq_some_iff.mp hrun
  exact ⟨s, hs, hyielded, exec_ownAnswers (by decide +kernel) hs⟩

/-- The first exchange times out, the second sends its APDU, and the answer to
the first comes. -/
def lateAnswer : List Action :=
  [.exchange 0, .exchange 0, .exchange 0, .exchange 0, .exchange 0, .tick, .tick, .exchange 0,
    .exchange 1, .exchange 1, .exchange 1, .exchange 1, .exchange 1, .answer .rapdu [0x90, 0x00],
    .exchange 1, .exchange 1, .exchange 1]

theorem lateAnswer_not_own :
    ∃ s, exec (step .hid twoRequests) new lateAnswer = some s ∧
      s.yielded = [(1, ⟨0, [0x90, 0x00]⟩)] ∧ ¬ OwnAnswers s := by
  have hrun : (exec (step .hid twoRequests) new lateAnswer).map (·.yielded) =
      some [(1, ⟨0, [0x90, 0x00]⟩)] := by
    decide +kernel
  obtain ⟨s, hs, hyielded⟩ := Option.map_eq_some_iff.mp hrun
  refine ⟨s, hs, hyielded, fun hown => ?_⟩
  have := hown (1, ⟨0, [0x90, 0x00]⟩) (by rw [hyielded]; simp)
  cases this

end APDUBridge

end Speculos.Api
