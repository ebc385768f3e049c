import Speculos.Mcu.Steps

/-!
# Tick requests

`run` clears `tick_requested` two steps after it has sent a TICKER_EVENT. A
request made in between is forgotten. In every run without such a request no
tick is lost, and `add_tick` with `wait_until_tick_is_processed` returns only
after a tick it has requested.
-/

namespace Speculos.Mcu

open Lib

/-- A TICKER_EVENT was sent, as a tick or from the queue. -/
def Event.isTicker : Event → Bool
  | .sent packet => packet.tag == tickerEvent
  | _ => false

/-- A TICKER_EVENT was sent after the call had set the flag. -/
def served (call : Nat) : List Event → Bool
  | [] => false
  | e :: es => (e == .tickSet call && es.any Event.isTicker) || served call es

theorem served_append (h : served call trace = true) (events : List Event) :
    served call (trace ++ events) = true := by
  induction trace with
  | nil => cases h
  | cons e es ih =>
    simp only [served, List.cons_append, Bool.or_eq_true, Bool.and_eq_true, List.any_append] at h ⊢
    rcases h with ⟨he, ht⟩ | h
    · exact .inl ⟨he, .inl ht⟩
    · exact .inr (ih h)

theorem served_sent (hset : .tickSet call ∈ trace) (he : Event.isTicker e = true) :
    served call (trace ++ [e]) = true := by
  induction trace with
  | nil => cases hset
  | cons e' es ih =>
    simp only [served, List.cons_append, Bool.or_eq_true, Bool.and_eq_true]
    rcases List.mem_cons.mp hset with rfl | hset
    · exact .inl ⟨by simp, by simp [he]⟩
    · exact .inr (ih hset)

namespace SocketHelper

variable {s s' : SocketHelper}

/-- `run` has sent a TICKER_EVENT and not yet cleared the flag. -/
def Clearing (s : SocketHelper) : Prop := s.pc = .countTick ∨ s.pc = .clearTick

/-- No `add_tick` sets the flag while `run` is about to clear it. -/
def TickAllowed (s : SocketHelper) : Action → Prop
  | .addTick _ _ => ¬ s.Clearing
  | _ => True

instance (s : SocketHelper) : Decidable s.Clearing := inferInstanceAs (Decidable (_ ∨ _))

instance (s : SocketHelper) : ∀ a, Decidable (s.TickAllowed a)
  | .addTick _ _ => inferInstanceAs (Decidable (¬ s.Clearing))
  | .queuePacket _ _ _ | .notify | .tickCall _ | .status | .run => .isTrue trivial

/-- Every call that has set the flag finds it set, or a TICKER_EVENT was sent
since; a call that waits has returned only after that. -/
structure NoTickLost (s : SocketHelper) : Prop where
  requested : ∀ call, .tickSet call ∈ s.trace → s.tickRequested = true ∨ served call s.trace = true
  returned : ∀ n call, s.trace[n]? = some (.tickReturned call) →
    served call (s.trace.take n) = true

structure TickInv (s : SocketHelper) : Prop extends NoTickLost s where
  clearing : s.Clearing → ∀ call, .tickSet call ∈ s.trace → served call s.trace = true
  started : ∀ call, s.calls call ≠ .idle → .tickSet call ∈ s.trace
  checked : ∀ call, s.calls call = .readQueue ∨ s.calls call = .readStatus →
    served call s.trace = true

theorem tickInv_new : TickInv new := by
  refine ⟨⟨?_, ?_⟩, ?_, ?_, ?_⟩ <;> simp [new]

theorem NoTickLost.returned_append (hi : NoTickLost s) (events : List Event)
    (he : ∀ call, .tickReturned call ∉ events) (n call : Nat)
    (hn : (s.trace ++ events)[n]? = some (.tickReturned call)) :
    served call ((s.trace ++ events).take n) = true := by
  by_cases hlt : n < s.trace.length
  · rw [List.getElem?_append_left hlt] at hn
    rw [List.take_append_of_le_length (Nat.le_of_lt hlt)]
    exact hi.returned n call hn
  · rw [List.getElem?_append_right (Nat.le_of_not_lt hlt)] at hn
    exact absurd (List.mem_of_getElem? hn) (he call)

theorem TickInv.of_frame (hi : TickInv s) (events : List Event)
    (htrace : s'.trace = s.trace ++ events) (hset : ∀ call, .tickSet call ∉ events)
    (hret : ∀ call, .tickReturned call ∉ events) (hflag : s'.tickRequested = s.tickRequested)
    (hclearing : s'.Clearing → s.Clearing)
    (hidle : ∀ call, s'.calls call ≠ .idle → s.calls call ≠ .idle)
    (hchecked : ∀ call, s'.calls call = .readQueue ∨ s'.calls call = .readStatus →
      served call s.trace = true) : TickInv s' := by
  have hmem : ∀ call, .tickSet call ∈ s'.trace → .tickSet call ∈ s.trace := by
    intro call hc
    rw [htrace] at hc
    exact (List.mem_append.mp hc).resolve_right (hset call)
  refine ⟨⟨?_, ?_⟩, ?_, ?_, ?_⟩
  · intro call hc
    rw [hflag, htrace]
    exact (hi.requested call (hmem call hc)).imp_right fun h => served_append h events
  · rw [htrace]
    exact hi.returned_append events hret
  · intro hcl call hc
    rw [htrace]
    exact served_append (hi.clearing (hclearing hcl) call (hmem call hc)) events
  · intro call hc
    rw [htrace]
    exact List.mem_append_left _ (hi.started call (hidle call hc))
  · intro call hc
    rw [htrace]
    exact served_append (hchecked call hc) events

theorem TickInv.addTick (hi : TickInv s) (hcl : ¬ s.Clearing)
    (h : step s (.addTick call wait) = some s') : TickInv s' := by
  obtain ⟨-, rfl⟩ := step_addTick h
  refine ⟨⟨fun _ _ => .inl rfl, ?_⟩, fun h => absurd h hcl, ?_, ?_⟩
  · exact hi.returned_append _ (by simp)
  · intro other ho
    by_cases heq : other = call
    · simp [heq]
    · exact List.mem_append_left _ (hi.started other (by simpa [setCall, heq] using ho))
  · intro other ho
    by_cases heq : other = call
    · simp [setCall, heq] at ho
    · exact served_append (hi.checked other (by simpa [setCall, heq] using ho)) _

theorem TickInv.sendTicker (hi : TickInv s) (hp : packet.tag = tickerEvent) :
    TickInv { s with trace := s.trace ++ [.sent packet], pc := .countTick } := by
  have hticker : Event.isTicker (.sent packet) = true := by simp [Event.isTicker, hp]
  have hserved : ∀ call, .tickSet call ∈ s.trace ++ [.sent packet] →
      served call (s.trace ++ [.sent packet]) = true := by
    intro call hc
    exact served_sent (by simpa using hc) hticker
  refine ⟨⟨fun call hc => .inr (hserved call hc), ?_⟩, fun _ => hserved, ?_, ?_⟩
  · exact hi.returned_append _ (by simp)
  · exact fun call hc => List.mem_append_left _ (hi.started call hc)
  · exact fun call hc => served_append (hi.checked call hc) _

theorem TickInv.clearTick (hi : TickInv s) (hpc : s.pc = .clearTick) :
    TickInv { s with tickRequested := false, pc := .top } := by
  refine ⟨⟨fun call hc => .inr (hi.clearing (.inr hpc) call hc), hi.returned⟩, ?_, hi.started,
    hi.checked⟩
  simp [Clearing]

theorem TickInv.run (hi : TickInv s) (h : s.run = some s') : TickInv s' := by
  cases RunStep.of_run h with
  | sendTicker _ hp => exact hi.sendTicker hp
  | clearTick hpc => exact hi.clearTick hpc
  | sendOther hpc _ =>
    exact hi.of_frame [_] rfl (by simp) (by simp) rfl (by simp [Clearing]) (fun _ => id) hi.checked
  | countTick hpc =>
    exact hi.of_frame [] (by simp) (by simp) (by simp) rfl (fun _ => .inl hpc) (fun _ => id)
      hi.checked
  | _ =>
    exact hi.of_frame [] (by simp) (by simp) (by simp) rfl (by simp [Clearing]) (fun _ => id)
      hi.checked

theorem TickInv.setCall (hi : TickInv s) (hcall : s.calls call ≠ .idle)
    (hphase : phase = .readQueue ∨ phase = .readStatus → served call s.trace = true) :
    TickInv (s.setCall call phase) := by
  refine hi.of_frame [] (by simp [SocketHelper.setCall]) (by simp) (by simp) rfl id ?_ ?_
  · intro other ho
    by_cases heq : other = call
    · rwa [heq]
    · simpa [SocketHelper.setCall, heq] using ho
  · intro other ho
    by_cases heq : other = call
    · subst heq
      exact hphase (by simpa [SocketHelper.setCall] using ho)
    · exact hi.checked other (by simpa [SocketHelper.setCall, heq] using ho)

theorem TickInv.notify (hi : TickInv s) : TickInv s.notify := by
  unfold SocketHelper.notify
  split
  · exact hi.of_frame [] (by simp) (by simp) (by simp) rfl (by simp [Clearing]) (fun _ => id)
      hi.checked
  · exact hi

theorem TickInv.tickReturned (hi : TickInv s) (hserved : served call s.trace = true) :
    TickInv { s with trace := s.trace ++ [.tickReturned call] } := by
  refine ⟨⟨?_, ?_⟩, ?_, ?_, ?_⟩
  · intro other ho
    exact (hi.requested other (by simpa using ho)).imp_right fun h => served_append h _
  · intro n other hn
    rcases Nat.lt_trichotomy n s.trace.length with hlt | heq | hgt
    · dsimp only at hn ⊢
      rw [List.getElem?_append_left hlt] at hn
      rw [List.take_append_of_le_length (Nat.le_of_lt hlt)]
      exact hi.returned n other hn
    · subst heq
      simp only [List.getElem?_concat_length, Option.some.injEq, Event.tickReturned.injEq] at hn
      rw [List.take_left, ← hn]
      exact hserved
    · rw [List.getElem?_eq_none (by simp; omega)] at hn
      cases hn
  · intro hcl other ho
    exact served_append (hi.clearing hcl other (by simpa using ho)) _
  · exact fun other ho => List.mem_append_left _ (hi.started other ho)
  · exact fun other ho => served_append (hi.checked other ho) _

theorem TickInv.tickCall (hi : TickInv s) (h : s.tickCall call = some s') : TickInv s' := by
  have hidle : ∀ phase, s.calls call = phase → phase ≠ .idle → s.calls call ≠ .idle :=
    fun _ h hne => h ▸ hne
  unfold SocketHelper.tickCall at h
  split at h <;> rename_i hphase
  · cases h
  · split at h
    · cases h
    · cases h
      have hcall : s.notify.calls call ≠ .idle := by
        unfold SocketHelper.notify
        split <;> exact hidle _ hphase (by simp)
      exact hi.notify.setCall hcall (by split <;> simp)
  · cases h
    refine hi.setCall (hidle _ hphase (by simp)) ?_
    split <;> rename_i hflag
    · simp
    · -- the flag was read as cleared, so a tick came after the request
      have hset := hi.started call (hidle _ hphase (by simp))
      exact fun _ => (hi.requested call hset).resolve_left hflag
  · cases h
    refine hi.setCall (hidle _ hphase (by simp)) fun _ => hi.checked call (.inl hphase)
  · split at h
    · cases h
      have hserved := hi.checked call (.inr hphase)
      exact (hi.setCall (hidle _ hphase (by simp)) (fun _ => hserved)).tickReturned hserved
    · cases h
      exact hi.setCall (hidle _ hphase (by simp)) (by simp)
  · cases h
    exact hi.setCall (hidle _ hphase (by simp)) (by split <;> simp)
  · split at h
    · cases h
      exact hi.setCall (hidle _ hphase (by simp)) (by simp)
    · cases h
  · cases h

theorem TickInv.setStatus (hi : TickInv s) : TickInv s.setStatus := by
  refine hi.of_frame [.status] rfl (by simp) (by simp) rfl id ?_ ?_
  · intro call
    unfold SocketHelper.setStatus
    dsimp only
    split <;> simp_all
  · intro call hc
    refine hi.checked call ?_
    unfold SocketHelper.setStatus at hc
    dsimp only at hc
    split at hc <;> simp_all

theorem tickInv_step (hi : TickInv s) (hg : TickAllowed s a) (h : step s a = some s') :
    TickInv s' := by
  cases a with
  | queuePacket tag data priority =>
    cases h
    exact hi.of_frame [_] rfl (by simp) (by simp) rfl id (fun _ => id) hi.checked
  | notify =>
    rw [step] at h
    split at h
    · cases h
    · cases h
      exact hi.notify.of_frame [] (by simp) (by simp) (by simp) rfl id (fun _ => id)
        hi.notify.checked
  | addTick call wait => exact hi.addTick hg h
  | tickCall call => exact hi.tickCall h
  | status =>
    cases h
    exact hi.setStatus
  | run => exact hi.run h

/-- No tick is lost in a run in which no `add_tick` sets the flag between the
sending of a TICKER_EVENT and the clearing of the flag. -/
theorem exec_noTickLost (hg : Guarded step TickAllowed new actions)
    (h : exec step new actions = some s) : NoTickLost s :=
  (exec_invariant_of_guarded (fun _ _ _ hi hg h => tickInv_step hi hg h) tickInv_new hg h).toNoTickLost

def waitedTick : List Action :=
  [.status, .addTick 0 true, .run, .run, .run, .run, .run, .run, .run, .run, .run, .run,
    .status, .tickCall 0, .tickCall 0, .tickCall 0, .tickCall 0]

theorem exec_noTickLost_waitedTick :
    ∃ s, exec step new waitedTick = some s ∧ .tickReturned 0 ∈ s.trace ∧ NoTickLost s := by
  have hrun : (exec step new waitedTick).map (·.trace) =
      some [.status, .tickSet 0, .sent .tick, .status, .tickReturned 0] := by
    decide
  obtain ⟨s, hs, htrace⟩ := Option.map_eq_some_iff.mp hrun
  exact ⟨s, hs, by rw [htrace]; decide, exec_noTickLost (by decide) hs⟩

/-- `run` up to the sending of a tick, then the second call and the end of the
first tick. -/
def lostTick : List Action :=
  [.status, .addTick 0 false, .run, .run, .run, .run, .run, .run, .run, .run,
    .addTick 1 true, .run, .run, .status, .tickCall 1, .tickCall 1, .tickCall 1, .tickCall 1]

/-- The second call has returned, its request is gone, and no TICKER_EVENT was
sent for it. -/
theorem lostTick_lost :
    ∃ s, exec step new lostTick = some s ∧ .tickReturned 1 ∈ s.trace ∧ ¬ NoTickLost s := by
  have hrun : (exec step new lostTick).map (fun s => (s.tickRequested, s.trace)) =
      some (false, [.status, .tickSet 0, .sent .tick, .tickSet 1, .status, .tickReturned 1]) := by
    decide
  obtain ⟨s, hs, hobs⟩ := Option.map_eq_some_iff.mp hrun
  simp only [Prod.mk.injEq] at hobs
  refine ⟨s, hs, by rw [hobs.2]; decide, fun hlost => ?_⟩
  have hset := hlost.requested 1 (by rw [hobs.2]; decide)
  rw [hobs.1, hobs.2] at hset
  exact absurd hset (by decide)

end SocketHelper

end Speculos.Mcu
