import Speculos.Lib.Lts

/-!
# The thread that emulates time

`TimeTickerDaemon` of `seproxyhal.py` with the threads that call `pause` and `resume`, as a
transition system: every access to a shared field is one step. A call of `pause` sets `paused`
and then polls `_paused`; a call of `resume` clears `paused` and notifies later. `run` is a
program counter; `wait_until_tick_is_processed` returns at any time. The lock of `_resume_cond`
is held for single steps only.

Two things can go wrong, both for a client that makes one call at a time. A notification between the
look of the thread at `paused` and its wait is lost, and the thread sleeps though time goes on.
And a call of `pause` that finds `_paused` set from the time before returns at once, with a tick
still to come.
-/

namespace Speculos.Mcu

open Lib

inductive TickerPc
  | check -- about to read `paused`
  | process -- in `wait_until_tick_is_processed`
  | mark -- about to set `_paused`
  | enter -- about to wait
  | waiting (notified : Bool)
  | unmark -- about to clear `_paused`
  | add -- about to call `add_tick`
  | sleep
  deriving DecidableEq, Repr

structure TimeTickerDaemon where
  paused : Bool
  reallyPaused : Bool -- `_paused`
  pc : TickerPc
  pausing : Nat -- the calls of `pause` that poll
  resuming : Nat -- the calls of `resume` that have not notified yet
  ticks : Nat -- the calls of `add_tick`
  promised : Bool -- a call of `pause` has returned, and none of `resume` has begun since
  deriving DecidableEq, Repr

inductive TickerAction
  | pause
  | poll
  | resume
  | notify
  | run
  deriving DecidableEq, Repr

namespace TimeTickerDaemon

/-- `TimeTickerDaemon.__init__` -/
def new : TimeTickerDaemon := ⟨false, false, .check, 0, 0, 0, false⟩

/-- The next step of `run`, and of `_wait_if_time_paused` in it. -/
def run (s : TimeTickerDaemon) : Option TimeTickerDaemon :=
  match s.pc with
  | .check => some { s with pc := if s.paused then .process else .unmark }
  | .process => some { s with pc := .mark }
  | .mark => some { s with reallyPaused := true, pc := .enter }
  | .enter => some { s with pc := .waiting false }
  | .waiting false => none
  | .waiting true => some { s with pc := .check }
  | .unmark => some { s with reallyPaused := false, pc := .add }
  | .add => some { s with ticks := s.ticks + 1, pc := .sleep }
  | .sleep => some { s with pc := .check }

/-- The call that polls `_paused` returns or sleeps. -/
def poll (s : TimeTickerDaemon) : Option TimeTickerDaemon :=
  if s.pausing = 0 then none
  else if s.reallyPaused then
    some { s with pausing := s.pausing - 1, promised := s.promised || s.paused }
  else some s

def notify (s : TimeTickerDaemon) : Option TimeTickerDaemon :=
  if s.resuming = 0 then none
  else
    some { s with
      resuming := s.resuming - 1
      pc := if s.pc = .waiting false then .waiting true else s.pc }

def step (s : TimeTickerDaemon) : TickerAction → Option TimeTickerDaemon
  | .pause => some { s with paused := true, pausing := s.pausing + 1 }
  | .poll => s.poll
  | .resume => some { s with paused := false, resuming := s.resuming + 1, promised := false }
  | .notify => s.notify
  | .run => s.run

-- ---------------------------------------------------------------------------
-- Notifications
-- ---------------------------------------------------------------------------

/-- On the way to its wait, the thread has read `paused` and is not yet there for a notification. -/
def Between (pc : TickerPc) : Prop := pc = .process ∨ pc = .mark ∨ pc = .enter

instance (pc : TickerPc) : Decidable (Between pc) := inferInstanceAs (Decidable (_ ∨ _ ∨ _))

/-- Time goes on, and nobody is left to tell the thread. -/
def Lost (s : TimeTickerDaemon) : Prop :=
  s.paused = false ∧ s.resuming = 0 ∧ (Between s.pc ∨ s.pc = .waiting false)

instance (s : TimeTickerDaemon) : Decidable s.Lost := inferInstanceAs (Decidable (_ ∧ _ ∧ (_ ∨ _)))

/-- The last notification finds the thread before its wait, with no new pause. -/
def Heard (s : TimeTickerDaemon) : TickerAction → Prop
  | .notify => s.paused = false → s.resuming = 1 → ¬ Between s.pc
  | _ => True

instance (s : TimeTickerDaemon) : ∀ a, Decidable (s.Heard a)
  | .notify => inferInstanceAs (Decidable (_ → _ → ¬ _))
  | .pause | .poll | .resume | .run => .isTrue trivial

theorem lost_step (hs : ¬ Lost s) (h : step s a = some s') : ¬ Lost s' ↔ Heard s a := by
  cases a with
  | pause =>
    cases h
    simp [Lost, Heard]
  | poll =>
    refine iff_of_true ?_ trivial
    simp only [step, poll] at h
    split at h
    · cases h
    split at h <;> cases h <;> exact hs
  | resume =>
    cases h
    simp [Lost, Heard]
  | notify =>
    simp only [step, notify] at h
    split at h
    · cases h
    · rename_i hresuming
      cases h
      simp only [Lost, Heard, Between] at hs ⊢
      by_cases hpc : s.pc = .waiting false
      · simp [hpc]
      · simp only [hpc, if_false, or_false]
        constructor
        · exact fun h hp hr hb => h ⟨hp, by omega, hb⟩
        · exact fun h ⟨hp, hr, hb⟩ => h hp (by omega) hb
  | run =>
    refine iff_of_true ?_ trivial
    simp only [step, run] at h
    simp only [Lost, Between] at hs ⊢
    split at h <;> rename_i hpc <;> simp only [hpc] at hs <;> cases h <;> simp_all

/-- Where time goes on, the thread ticks again by its own steps. -/
def Alive (s : TimeTickerDaemon) : Prop :=
  s.paused = false → s.resuming = 0 →
    ∃ n s', exec step s (List.replicate n .run) = some s' ∧ s.ticks < s'.ticks

theorem lost_run (hs : Lost s) (h : step s .run = some s') : Lost s' ∧ s'.ticks = s.ticks := by
  obtain ⟨hpaused, hresuming, (hpc | hpc | hpc) | hpc⟩ := hs <;>
    simp only [step, run, hpc] at h <;> cases h <;> simp [Lost, Between, hpaused, hresuming]

theorem Lost.exec_run (hs : Lost s) (h : exec step s (List.replicate n .run) = some s') :
    s'.ticks = s.ticks := by
  induction n generalizing s with
  | zero => rw [exec_nil h]
  | succ n ih =>
    obtain ⟨u, hu, h⟩ := exec_cons h
    obtain ⟨hlost, hticks⟩ := lost_run hs hu
    exact (ih hlost h).trans hticks

theorem alive_iff (s : TimeTickerDaemon) : Alive s ↔ ¬ Lost s := by
  constructor
  · rintro halive hlost
    obtain ⟨n, s', hexec, hlt⟩ := halive hlost.1 hlost.2.1
    exact Nat.ne_of_gt hlt (hlost.exec_run hexec)
  · intro hlost hpaused hresuming
    have hfrom (hpc : ¬ (Between s.pc ∨ s.pc = .waiting false)) :
        ∃ n s', exec step s (List.replicate n .run) = some s' ∧ s.ticks < s'.ticks := by
      obtain ⟨paused, reallyPaused, pc, pausing, resuming, ticks, promised⟩ := s
      cases hpaused
      cases pc with
      | check => exact ⟨3, _, rfl, Nat.lt_succ_self _⟩
      | process | mark | enter => exact absurd (by simp [Between]) hpc
      | waiting notified =>
        cases notified with
        | false => exact absurd (.inr rfl) hpc
        | true => exact ⟨4, _, rfl, Nat.lt_succ_self _⟩
      | unmark => exact ⟨2, _, rfl, Nat.lt_succ_self _⟩
      | add => exact ⟨1, _, rfl, Nat.lt_succ_self _⟩
      | sleep => exact ⟨4, _, rfl, Nat.lt_succ_self _⟩
    exact hfrom fun hpc => hlost ⟨hpaused, hresuming, hpc⟩

/-- In all states of a run, the thread ticks again where time goes on and no call of `resume` is
in progress, if and only if each last notification of the run finds the thread outside of the
way to its wait, or paused anew. -/
theorem alive_run_iff (actions : List TickerAction) (s : TimeTickerDaemon)
    (h : exec step new actions = some s) :
    (∀ before after s', actions = before ++ after → exec step new before = some s' → Alive s') ↔
      Guarded step Heard new actions := by
  simp only [alive_iff]
  exact forall_prefix_iff_guarded (fun _ _ _ hs (_ : True) hstep => lost_step hs hstep) (by decide)
    (guarded_of_forall (fun _ _ => trivial) _ _) h

/-- Time is paused and resumed by one client, and the notification comes before the wait. -/
theorem not_alive_resume_early :
    ¬ ∀ before after s', [TickerAction.pause, .run, .run, .run, .poll, .resume, .notify] = before ++
      after →
      exec step new before = some s' → Alive s' :=
  fun hall => absurd ((alive_run_iff _ _ rfl).mp hall) (by decide)

-- ---------------------------------------------------------------------------
-- Promises
-- ---------------------------------------------------------------------------

/-- No tick comes before the next call of `resume`. -/
def Kept (s : TimeTickerDaemon) : Prop :=
  s.promised = true → ∀ actions s', .resume ∉ actions → exec step s actions = some s' →
    s'.ticks = s.ticks

/-- The thread has seen time go on and is about to tick. -/
def Late (pc : TickerPc) : Prop := pc = .unmark ∨ pc = .add

instance (pc : TickerPc) : Decidable (Late pc) := inferInstanceAs (Decidable (_ ∨ _))

/-- A promise is one of a time that is to be paused, and the thread is not about to tick. -/
def Still (s : TimeTickerDaemon) : Prop := s.promised = true → s.paused = true ∧ ¬ Late s.pc

/-- A call of `pause` does not return while the thread is about to tick. -/
def Waits (s : TimeTickerDaemon) : TickerAction → Prop
  | .poll => s.reallyPaused = true → s.paused = true → ¬ Late s.pc
  | _ => True

instance (s : TimeTickerDaemon) : ∀ a, Decidable (s.Waits a)
  | .poll => inferInstanceAs (Decidable (_ → _ → ¬ _))
  | .pause | .notify | .resume | .run => .isTrue trivial

theorem still_step (hs : Still s) (h : step s a = some s') : Still s' ↔ Waits s a := by
  cases a with
  | pause =>
    cases h
    refine iff_of_true (fun hp => ⟨rfl, (hs hp).2⟩) trivial
  | poll =>
    simp only [step, poll] at h
    split at h
    · cases h
    split at h <;> rename_i hmark <;> cases h
    · simp only [Still, Waits, hmark, Bool.or_eq_true, true_implies]
      constructor
      · exact fun h hp => (h (.inr hp)).2
      · rintro h (hp | hp)
        · exact hs hp
        · exact ⟨hp, h hp⟩
    · simp [Waits, hmark, hs]
  | resume =>
    cases h
    simp [Still, Waits]
  | notify =>
    refine iff_of_true ?_ trivial
    simp only [step, notify] at h
    split at h <;> cases h
    intro hp
    obtain ⟨hpaused, hlate⟩ := hs hp
    refine ⟨hpaused, ?_⟩
    dsimp only
    split
    · simp [Late]
    · exact hlate
  | run =>
    refine iff_of_true ?_ trivial
    simp only [step, run] at h
    split at h <;> rename_i hpc <;> cases h <;> intro hp <;> have hpaused := hs hp <;>
      simp_all [Late]

/-- A promise is kept by every step but those of `resume`. -/
theorem Still.step_promised (hs : Still s) (hp : s.promised = true) (ha : a ≠ .resume)
    (h : step s a = some s') : s'.promised = true ∧ Still s' ∧ s'.ticks = s.ticks := by
  obtain ⟨hpaused, hlate⟩ := hs hp
  have hwaits : Waits s a := by
    cases a <;> first | trivial | exact fun _ _ => hlate
  have hstill := (still_step hs h).mpr hwaits
  refine (and_left_comm.mp ⟨hstill, ?_⟩)
  cases a with
  | pause =>
    cases h
    exact ⟨hp, rfl⟩
  | poll =>
    simp only [step, poll] at h
    split at h
    · cases h
    split at h <;> cases h <;> simp [hp]
  | resume => exact absurd rfl ha
  | notify =>
    simp only [step, notify] at h
    split at h <;> cases h
    exact ⟨hp, rfl⟩
  | run =>
    simp only [step, run] at h
    split at h <;> rename_i hpc <;> cases h <;> first | exact ⟨hp, rfl⟩ | exact absurd (.inr hpc) hlate

theorem Still.kept (hs : Still s) : Kept s := by
  intro hp actions s' hmem h
  induction actions generalizing s with
  | nil => rw [exec_nil h]
  | cons a actions ih =>
    obtain ⟨u, hu, h⟩ := exec_cons h
    rw [List.mem_cons, not_or] at hmem
    obtain ⟨hp', hs', hticks⟩ := hs.step_promised hp (Ne.symm hmem.1) hu
    exact (ih hs' hp' hmem.2 h).trans hticks

theorem kept_iff (hs : s.promised = true → s.paused = true) : Kept s ↔ Still s := by
  refine ⟨fun hkept hp => ⟨hs hp, ?_⟩, Still.kept⟩
  rintro (hpc | hpc)
  · have hticks := hkept hp [.run, .run] { s with reallyPaused := false, ticks := s.ticks + 1, pc := .sleep }
      (by decide) (by simp [exec, step, run, hpc])
    exact Nat.succ_ne_self _ hticks
  · have hticks := hkept hp [.run] { s with ticks := s.ticks + 1, pc := .sleep }
      (by decide) (by simp [exec, step, run, hpc])
    exact Nat.succ_ne_self _ hticks

theorem paused_of_promised {s s' : TimeTickerDaemon} (a : TickerAction)
    (hs : s.promised = true → s.paused = true) (h : step s a = some s') :
    s'.promised = true → s'.paused = true := by
  cases a with
  | pause =>
    cases h
    exact fun _ => rfl
  | poll =>
    simp only [step, poll] at h
    split at h
    · cases h
    split at h <;> cases h
    · simp only [Bool.or_eq_true]
      rintro (hp | hp)
      · exact hs hp
      · exact hp
    · exact hs
  | resume =>
    cases h
    simp
  | notify =>
    simp only [step, notify] at h
    split at h <;> cases h
    exact hs
  | run =>
    simp only [step, run] at h
    split at h <;> cases h <;> exact hs

/-- In all states of a run, no tick comes between the return of a call of `pause` and the next
call of `resume`, if and only if no call of `pause` returns while the thread is about to tick. -/
theorem kept_run_iff (actions : List TickerAction) (s : TimeTickerDaemon)
    (h : exec step new actions = some s) :
    (∀ before after s', actions = before ++ after → exec step new before = some s' → Kept s') ↔
      Guarded step Waits new actions := by
  have hpromised {before s'} (h : exec step new before = some s') : s'.promised = true →
      s'.paused = true :=
    exec_invariant (fun _ a _ => paused_of_promised a) (fun hp => by cases hp) h
  have hstill := forall_prefix_iff_guarded (fun _ _ _ hs (_ : True) hstep => still_step hs hstep)
    (show Still new from fun hp => by cases hp) (guarded_of_forall (fun _ _ => trivial) _ _) h
  rw [← hstill]
  constructor
  · exact fun hall before after s' has hs' => (kept_iff (hpromised hs')).mp
      (hall before after s' has hs')
  · exact fun hall before after s' has hs' => (hall before after s' has hs').kept

/-- Time is paused, resumed and paused again before the thread has noticed. -/
theorem not_kept_pause_again :
    ¬ ∀ before after s', [TickerAction.pause, .run, .run, .run, .run, .poll, .resume, .notify, .run,
        .run, .pause, .poll] = before ++ after → exec step new before = some s' → Kept s' :=
  fun hall => absurd ((kept_run_iff _ _ rfl).mp hall) (by decide)

end TimeTickerDaemon

end Speculos.Mcu
