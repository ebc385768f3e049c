import Speculos.Mcu.SocketHelper

/-!
# What a step of the sending thread can do

`RunStep` lists the steps of `SocketHelper.run`, one case for each branch, and
`Quiet` what a step of the waiting callers can change. The invariants are
proved from these and not from the transition function.
-/

namespace Speculos.Mcu.SocketHelper

open Lib

inductive RunStep (s : SocketHelper) : SocketHelper → Prop
  | acquire : s.pc = .top → RunStep s { s with pc := .checkQueue }
  | queueEmpty : s.pc = .checkQueue → s.queue = [] → RunStep s { s with pc := .checkTick }
  | queueReady : s.pc = .checkQueue → s.queue ≠ [] → RunStep s { s with pc := .checkStatus }
  | noTick : s.pc = .checkTick → s.tickRequested = false → RunStep s { s with pc := .blocked false }
  | tickReady : s.pc = .checkTick → s.tickRequested = true → RunStep s { s with pc := .checkStatus }
  | wake : s.pc = .blocked true → RunStep s { s with pc := .checkQueue }
  | noStatus : s.pc = .checkStatus → s.statusEvent = false → RunStep s { s with pc := .waitStatus }
  | statusReady : s.pc = .checkStatus → s.statusEvent = true →
      RunStep s { s with pc := .clearStatus }
  | statusCame : s.pc = .waitStatus → s.statusEvent = true → RunStep s { s with pc := .checkStatus }
  | clearStatus : s.pc = .clearStatus → RunStep s { s with statusEvent := false, pc := .pickQueue }
  | pickQueue : s.pc = .pickQueue → s.queue ≠ [] → RunStep s { s with pc := .pop }
  | pickNone : s.pc = .pickQueue → s.queue = [] → RunStep s { s with pc := .pickTick }
  | pop : s.pc = .pop → s.queue = packet :: rest →
      RunStep s { s with queue := rest, pc := .send (.queued packet) }
  | popEmpty : s.pc = .pop → s.queue = [] → RunStep s { s with pc := .raised .indexError }
  | pickTick : s.pc = .pickTick → s.tickRequested = true → RunStep s { s with pc := .send .tick }
  | noWork : s.pc = .pickTick → s.tickRequested = false →
      RunStep s { s with pc := .raised .runtimeError }
  | sendTicker : s.pc = .send packet → packet.tag = tickerEvent →
      RunStep s { s with trace := s.trace ++ [.sent packet], pc := .countTick }
  | sendOther : s.pc = .send packet → packet.tag ≠ tickerEvent →
      RunStep s { s with trace := s.trace ++ [.sent packet], pc := .top }
  | tooLong : s.pc = .send packet → ¬ packet.data.length < 65536 →
      RunStep s { s with pc := .raised .overflowError }
  | countTick : s.pc = .countTick →
      RunStep s { s with ticksCount := s.ticksCount + 1, pc := .clearTick }
  | clearTick : s.pc = .clearTick → RunStep s { s with tickRequested := false, pc := .top }

theorem RunStep.of_run (h : run s = some s') : RunStep s s' := by
  unfold run at h
  split at h
  all_goals rename_i hpc
  · cases h
    exact .acquire hpc
  · cases h
    split <;> rename_i hc
    · exact .queueEmpty hpc (by simpa using hc)
    · exact .queueReady hpc (by simpa using hc)
  · cases h
    split <;> rename_i hc
    · exact .noTick hpc (by simpa using hc)
    · exact .tickReady hpc (by simpa using hc)
  · split at h <;> rename_i hc
    · cases h
      exact .wake (by rw [hpc, hc])
    · cases h
  · cases h
    split <;> rename_i hc
    · exact .noStatus hpc (by simpa using hc)
    · exact .statusReady hpc (by simpa using hc)
  · split at h <;> rename_i hc
    · cases h
      exact .statusCame hpc hc
    · cases h
  · cases h
    exact .clearStatus hpc
  · cases h
    split <;> rename_i hc
    · exact .pickQueue hpc (by simpa using hc)
    · exact .pickNone hpc (by simpa using hc)
  · split at h <;> rename_i hc <;> cases h
    · exact .pop hpc hc
    · exact .popEmpty hpc hc
  · cases h
    split <;> rename_i hc
    · exact .pickTick hpc hc
    · exact .noWork hpc (by simpa using hc)
  · split at h <;> rename_i hlen <;> cases h
    · split <;> rename_i hc
      · exact .sendTicker hpc hc
      · exact .sendOther hpc hc
    · exact .tooLong hpc hlen
  · cases h
    exact .countTick hpc
  · cases h
    exact .clearTick hpc
  · cases h

/-- A step that leaves the queue, the flags and the packets alone: `run` may be
woken and a call of `add_tick` may return. -/
structure Quiet (s s' : SocketHelper) : Prop where
  queue : s'.queue = s.queue
  tickRequested : s'.tickRequested = s.tickRequested
  statusEvent : s'.statusEvent = s.statusEvent
  packets : s'.packets = s.packets
  pc : s'.pc = s.pc ∨ ∃ b, s.pc = .blocked b ∧ s'.pc = .blocked true
  trace : s'.trace = s.trace ∨ ∃ call, s'.trace = s.trace ++ [.tickReturned call]

theorem Quiet.notify (s : SocketHelper) : Quiet s s.notify := by
  unfold SocketHelper.notify
  split
  · exact ⟨rfl, rfl, rfl, rfl, .inr ⟨_, ‹_›, rfl⟩, .inl rfl⟩
  · exact ⟨rfl, rfl, rfl, rfl, .inl rfl, .inl rfl⟩

theorem Quiet.step_notify (h : step s .notify = some s') :
    Quiet s s' ∧ s.pc ≠ .checkTick ∧ s'.pc ≠ .blocked false := by
  rw [step] at h
  split at h
  · cases h
  · rename_i hn
    cases h
    obtain ⟨hq, ht, hs, hp, hpc, htr⟩ := Quiet.notify s
    refine ⟨⟨hq, ht, hs, hp, hpc, htr⟩, fun h => hn (.inr (.inr h)), ?_⟩
    intro h
    unfold SocketHelper.notify at h
    split at h <;> simp_all

theorem step_addTick (h : step s (.addTick call wait) = some s') :
    s.calls call = .idle ∧ s' = { s.setCall call (.notifying wait) with
      tickRequested := true
      trace := s.trace ++ [.tickSet call] } := by
  rw [step] at h
  split at h
  · cases h
    exact ⟨‹_›, rfl⟩
  · cases h

theorem notify_notifies (s : SocketHelper) : s.notify.notifies = s.notifies := by
  unfold notify
  split <;> rfl

theorem Quiet.tickCall (h : tickCall s call = some s') :
    Quiet s s' ∧ s'.notifies = s.notifies := by
  have hset : ∀ phase, Quiet s (s.setCall call phase) := fun phase =>
    ⟨rfl, rfl, rfl, rfl, .inl rfl, .inl rfl⟩
  unfold SocketHelper.tickCall at h
  split at h
  case h_2 wait _ =>
    split at h
    · cases h
    · cases h
      obtain ⟨hq, ht, hs, hp, hpc, htr⟩ := Quiet.notify s
      exact ⟨⟨hq, ht, hs, hp, hpc, htr⟩, notify_notifies s⟩
  case h_5 =>
    split at h
    · cases h
      exact ⟨⟨rfl, rfl, rfl, rfl, .inl rfl, .inr ⟨call, rfl⟩⟩, rfl⟩
    · cases h
      exact ⟨hset _, rfl⟩
  case h_7 =>
    split at h
    · cases h
      exact ⟨hset _, rfl⟩
    · cases h
  all_goals cases h
  all_goals exact ⟨hset _, rfl⟩

end Speculos.Mcu.SocketHelper
