import Speculos.Mcu.Steps

/-!
# Delivery of the queued packets

Over every interleaving, `run` never finds itself without anything to send,
and no packet goes out without a status. As long as no packet is queued whose
size does not fit the two bytes it is sent in, `run` does not raise at all, and
the packets sent, at hand and queued are at any time the packets queued so far,
each once and those without priority in order.
-/

namespace Speculos.Mcu

open Lib

-- ---------------------------------------------------------------------------
-- What a trace tells
-- ---------------------------------------------------------------------------

/-- The packets of the `queue_packet` calls, in the order of the calls. -/
def queuedPackets (trace : List Event) : List Packet :=
  trace.filterMap fun
    | .queued packet => some packet
    | _ => none

def sentPackets (trace : List Event) : List Outgoing :=
  trace.filterMap fun
    | .sent packet => some packet
    | _ => none

/-- What `run` has sent from the queue. -/
def sentQueued (trace : List Event) : List Packet :=
  (sentPackets trace).filterMap fun
    | .queued packet => some packet
    | .tick => none

def statuses (trace : List Event) : Nat := trace.count .status

/-- `run` has left the first wait and not yet looked for a packet. -/
def Pc.Waited : Pc → Prop
  | .checkStatus | .waitStatus | .clearStatus | .pickQueue => True
  | _ => False

/-- `run` has taken a status for a packet it has not sent yet. -/
def Pc.paid : Pc → Nat
  | .pickQueue | .pop | .pickTick | .send _ => 1
  | _ => 0

namespace SocketHelper

/-- The queued packet that `run` is about to send. -/
def inHand (s : SocketHelper) : List Packet :=
  match s.pc with
  | .send (.queued packet) => [packet]
  | _ => []

/-- The queued packets on their way, from the first that was sent to the last
in the queue. -/
def pipeline (s : SocketHelper) : List Packet :=
  sentQueued s.trace ++ (s.inHand ++ s.queue)

variable {s s' : SocketHelper}

-- ---------------------------------------------------------------------------
-- Control
-- ---------------------------------------------------------------------------

/-- What `run` has found out before stays true until it acts on it, and `run`
does not fall asleep on a packet that nobody will wake it for. -/
structure Control (s : SocketHelper) : Prop where
  work : s.pc.Waited → s.queue ≠ [] ∨ s.tickRequested = true
  pop : s.pc = .pop → s.queue ≠ []
  pickTick : s.pc = .pickTick → s.tickRequested = true
  clear : s.pc = .clearStatus → s.statusEvent = true
  raised : ∀ e, s.pc = .raised e → e = .overflowError
  awake : s.pc = .checkTick ∨ s.pc = .blocked false → s.queue ≠ [] → 0 < s.notifies

theorem control_new : Control new := by
  constructor <;> simp [new, Pc.Waited]

theorem Control.run (hc : Control s) (h : s.run = some s') : Control s' := by
  obtain ⟨hwork, hpop, htick, hclear, hraised, hawake⟩ := hc
  cases RunStep.of_run h
  all_goals constructor
  all_goals simp_all [Pc.Waited]

theorem Control.of_grow (hc : Control s) (hpc : s'.pc = s.pc)
    (hqueue : s'.queue = s.queue ∧ s'.notifies = s.notifies ∨ s'.queue ≠ [] ∧ 0 < s'.notifies)
    (htick : s.tickRequested = true → s'.tickRequested = true)
    (hstatus : s.statusEvent = true → s'.statusEvent = true) : Control s' := by
  have hne : s.queue ≠ [] → s'.queue ≠ [] := by
    rcases hqueue with ⟨h, -⟩ | ⟨h, -⟩
    · rw [h]
      exact id
    · exact fun _ => h
  refine ⟨?_, ?_, ?_, ?_, ?_, ?_⟩
  all_goals rw [hpc]
  · exact fun h => (hc.work h).imp hne htick
  · exact fun h => hne (hc.pop h)
  · exact fun h => htick (hc.pickTick h)
  · exact fun h => hstatus (hc.clear h)
  · exact hc.raised
  · intro h hq
    rcases hqueue with ⟨hqueue, hnotifies⟩ | ⟨-, hpos⟩
    · rw [hnotifies]
      exact hc.awake h (hqueue ▸ hq)
    · exact hpos

theorem Control.of_quiet (hc : Control s) (hq : Quiet s s')
    (hnotifies : s'.notifies = s.notifies ∨ s.pc ≠ .checkTick ∧ s'.pc ≠ .blocked false) :
    Control s' := by
  obtain ⟨hwork, hpop, htick, hclear, hraised, hawake⟩ := hc
  obtain ⟨hqueue, htr, hst, -, hpc, -⟩ := hq
  rcases hpc with hpc | ⟨b, hb, hpc⟩
  · constructor
    all_goals simp_all
    grind
  · constructor
    all_goals simp_all [Pc.Waited]

theorem control_step (hc : Control s) (h : step s a = some s') : Control s' := by
  cases a with
  | queuePacket tag data priority =>
    cases h
    refine hc.of_grow rfl (.inr ⟨?_, Nat.succ_pos _⟩) id id
    unfold queuePacket
    dsimp only
    split <;> simp
  | notify =>
    obtain ⟨hq, hpc⟩ := Quiet.step_notify h
    exact hc.of_quiet hq (.inr hpc)
  | addTick call wait =>
    obtain ⟨-, rfl⟩ := step_addTick h
    exact hc.of_grow rfl (.inl ⟨rfl, rfl⟩) (fun _ => rfl) id
  | tickCall call =>
    obtain ⟨hq, hn⟩ := Quiet.tickCall h
    exact hc.of_quiet hq (.inl hn)
  | status =>
    cases h
    exact hc.of_grow rfl (.inl ⟨rfl, rfl⟩) id (fun _ => rfl)
  | run => exact hc.run h

-- ---------------------------------------------------------------------------
-- Sizes
-- ---------------------------------------------------------------------------

/-- The size of a packet that is queued fits the two bytes it is sent in. -/
def SizeFits (_ : SocketHelper) : Action → Prop
  | .queuePacket _ data _ => data.length < 65536
  | _ => True

instance (s : SocketHelper) : ∀ a, Decidable (s.SizeFits a)
  | .queuePacket _ data _ => inferInstanceAs (Decidable (data.length < 65536))
  | .notify | .addTick _ _ | .tickCall _ | .status | .run => .isTrue trivial

/-- `run` has raised nothing and will not raise for a packet on its way. -/
structure Alive (s : SocketHelper) : Prop where
  raised : ∀ e, s.pc ≠ .raised e
  fits : ∀ packet ∈ s.inHand ++ s.queue, packet.data.length < 65536

theorem alive_new : Alive new := by
  constructor <;> simp [new, inHand]

theorem Alive.send (ha : Alive s) (hpc : s.pc = .send packet) : packet.data.length < 65536 := by
  cases packet with
  | queued packet => exact ha.fits packet (by simp [inHand, hpc])
  | tick => simp [Outgoing.data]

theorem Alive.run (hc : Control s) (ha : Alive s) (h : s.run = some s') : Alive s' := by
  have hqueue : ∀ packet ∈ s.queue, packet.data.length < 65536 :=
    fun packet hp => ha.fits packet (List.mem_append_right _ hp)
  cases RunStep.of_run h with
  | pop hpc hq =>
    rw [hq] at hqueue
    exact ⟨by simp, hqueue⟩
  | popEmpty hpc hq => exact absurd hq (hc.pop hpc)
  | noWork hpc htick => simp [hc.pickTick hpc] at htick
  | tooLong hpc hlen => exact absurd (ha.send hpc) hlen
  | _ => exact ⟨by simp, hqueue⟩

theorem Alive.of_eq (ha : Alive s) (hpc : s'.pc = s.pc) (hq : s'.queue = s.queue) : Alive s' := by
  refine ⟨?_, ?_⟩
  · rw [hpc]
    exact ha.raised
  · rw [inHand, hpc, hq]
    exact ha.fits

theorem Alive.of_quiet (ha : Alive s) (hq : Quiet s s') : Alive s' := by
  rcases hq.pc with hpc | ⟨b, hb, hpc⟩
  · exact ha.of_eq hpc hq.queue
  · refine ⟨by simp [hpc], ?_⟩
    intro packet hp
    rw [inHand, hpc, hq.queue] at hp
    exact ha.fits packet (List.mem_append_right _ hp)

theorem Alive.queuePacket (ha : Alive s) (tag : UInt8) (priority : Bool)
    (hdata : data.length < 65536) : Alive (s.queuePacket tag data priority) := by
  refine ⟨ha.raised, ?_⟩
  have hfits := ha.fits
  cases priority <;> simp_all [SocketHelper.queuePacket, inHand, or_imp, forall_and]

theorem alive_step (hc : Control s) (ha : Alive s) (hg : SizeFits s a) (h : step s a = some s') :
    Alive s' := by
  cases a with
  | queuePacket tag data priority =>
    cases h
    exact ha.queuePacket tag priority hg
  | notify => exact ha.of_quiet (Quiet.step_notify h).1
  | addTick call wait =>
    obtain ⟨-, rfl⟩ := step_addTick h
    exact ha.of_eq rfl rfl
  | tickCall call => exact ha.of_quiet (Quiet.tickCall h).1
  | status =>
    cases h
    exact ha.of_eq rfl rfl
  | run => exact Alive.run hc ha h

-- ---------------------------------------------------------------------------
-- Packets
-- ---------------------------------------------------------------------------

theorem queuedPackets_append (trace : List Event) (e : Event) (h : ∀ packet, e ≠ .queued packet) :
    queuedPackets (trace ++ [e]) = queuedPackets trace := by
  cases e <;> simp_all [queuedPackets]

theorem sentPackets_append (trace : List Event) (e : Event) (h : ∀ packet, e ≠ .sent packet) :
    sentPackets (trace ++ [e]) = sentPackets trace := by
  cases e <;> simp_all [sentPackets]

theorem statuses_append (trace : List Event) (e : Event) (h : e ≠ .status) :
    statuses (trace ++ [e]) = statuses trace := by
  simp [statuses, List.count_append, h]

theorem sentPackets_sent (trace : List Event) (packet : Outgoing) :
    sentPackets (trace ++ [.sent packet]) = sentPackets trace ++ [packet] := by
  simp [sentPackets]

theorem sentQueued_append (trace : List Event) (e : Event) (h : ∀ packet, e ≠ .sent packet) :
    sentQueued (trace ++ [e]) = sentQueued trace := by
  rw [sentQueued, sentPackets_append trace e h, sentQueued]

theorem pipeline_send (hpc : s.pc = .send packet) (hq : s'.queue = s.queue)
    (htr : s'.trace = s.trace ++ [.sent packet]) (hpc' : s'.inHand = []) :
    s'.pipeline = s.pipeline := by
  rw [pipeline, pipeline, hpc', hq, htr, sentQueued, sentPackets_sent, inHand, hpc]
  cases packet <;> simp [sentQueued]

theorem pipeline_run (ha : Alive s) (h : s.run = some s') : s'.pipeline = s.pipeline := by
  cases RunStep.of_run h with
  | tooLong hpc hlen => exact absurd (ha.send hpc) hlen
  | pop hpc hq => simp [pipeline, inHand, hpc, hq]
  | sendTicker hpc _ => exact pipeline_send hpc rfl rfl rfl
  | sendOther hpc _ => exact pipeline_send hpc rfl rfl rfl
  | _ => simp_all [pipeline, inHand]

theorem pipeline_of_event (hpc : s'.pc = s.pc) (hq : s'.queue = s.queue)
    (htr : s'.trace = s.trace ++ [e]) (he : ∀ packet, e ≠ .sent packet) :
    s'.pipeline = s.pipeline := by
  rw [pipeline, pipeline, inHand, inHand, hpc, hq, htr, sentQueued_append _ _ he]

theorem queuedPackets_run (h : s.run = some s') :
    queuedPackets s'.trace = queuedPackets s.trace ∧ s'.packets = s.packets := by
  cases RunStep.of_run h with
  | sendTicker _ _ => exact ⟨queuedPackets_append _ _ (by simp), rfl⟩
  | sendOther _ _ => exact ⟨queuedPackets_append _ _ (by simp), rfl⟩
  | _ => exact ⟨rfl, rfl⟩

theorem pipeline_of_quiet (hq : Quiet s s') : s'.pipeline = s.pipeline := by
  have hhand : s'.inHand = s.inHand := by
    unfold inHand
    rcases hq.pc with hpc | ⟨b, hb, hpc⟩
    · rw [hpc]
    · rw [hb, hpc]
  have htrace : sentQueued s'.trace = sentQueued s.trace := by
    rcases hq.trace with htr | ⟨call, htr⟩
    · rw [htr]
    · rw [htr, sentQueued_append _ _ (by simp)]
  rw [pipeline, pipeline, hhand, htrace, hq.queue]

theorem queuedPackets_of_quiet (hq : Quiet s s') :
    queuedPackets s'.trace = queuedPackets s.trace := by
  rcases hq.trace with htr | ⟨call, htr⟩
  · rw [htr]
  · rw [htr, queuedPackets_append _ _ (by simp)]

/-- The packets on their way are those queued, each once, and those without
priority in the order in which they were queued. -/
structure Kept (s : SocketHelper) : Prop where
  numbers : (queuedPackets s.trace).map (·.number) = List.range s.packets
  perm : s.pipeline.Perm (queuedPackets s.trace)
  order : s.pipeline.filter (!·.priority) = (queuedPackets s.trace).filter (!·.priority)

theorem kept_new : Kept new := ⟨rfl, .refl _, rfl⟩

theorem Kept.of_eq (hk : Kept s) (hp : s'.pipeline = s.pipeline)
    (hq : queuedPackets s'.trace = queuedPackets s.trace) (hn : s'.packets = s.packets) :
    Kept s' := by
  refine ⟨?_, ?_, ?_⟩
  · rw [hq, hn]
    exact hk.numbers
  · rw [hp, hq]
    exact hk.perm
  · rw [hp, hq]
    exact hk.order

theorem Kept.queuePacket (hk : Kept s) (tag : UInt8) (data : Bytes) (priority : Bool) :
    Kept (s.queuePacket tag data priority) := by
  obtain ⟨hnumbers, hperm, horder⟩ := hk
  have hqueued : queuedPackets (s.queuePacket tag data priority).trace =
      queuedPackets s.trace ++ [⟨s.packets, tag, data, priority⟩] := by
    simp [SocketHelper.queuePacket, queuedPackets]
  have hsent : sentQueued (s.queuePacket tag data priority).trace = sentQueued s.trace :=
    sentQueued_append _ _ (by simp)
  refine ⟨?_, ?_, ?_⟩
  · rw [hqueued, List.map_append, hnumbers]
    exact List.range_succ.symm
  · rw [hqueued, pipeline, hsent]
    cases priority with
    | false =>
      show (sentQueued s.trace ++ (s.inHand ++ (s.queue ++ [_]))).Perm _
      rw [← List.append_assoc s.inHand, ← List.append_assoc]
      exact hperm.append_right _
    | true =>
      show (sentQueued s.trace ++ (s.inHand ++ (_ :: s.queue))).Perm _
      rw [← List.append_assoc]
      refine (List.perm_middle.trans ?_).trans (List.perm_append_singleton _ _).symm
      rw [List.append_assoc]
      exact hperm.cons _
  · rw [hqueued, List.filter_append, ← horder, pipeline, pipeline, hsent]
    cases priority with
    | false =>
      show (sentQueued s.trace ++ (s.inHand ++ (s.queue ++ [_]))).filter _ = _
      simp
    | true =>
      show (sentQueued s.trace ++ (s.inHand ++ (_ :: s.queue))).filter _ = _
      simp

theorem kept_step (ha : Alive s) (hk : Kept s) (h : step s a = some s') : Kept s' := by
  cases a with
  | queuePacket tag data priority =>
    cases h
    exact hk.queuePacket tag data priority
  | notify =>
    obtain ⟨hq, -⟩ := Quiet.step_notify h
    exact hk.of_eq (pipeline_of_quiet hq) (queuedPackets_of_quiet hq) hq.packets
  | addTick call wait =>
    obtain ⟨-, rfl⟩ := step_addTick h
    exact hk.of_eq (pipeline_of_event rfl rfl rfl (by simp))
      (queuedPackets_append _ _ (by simp)) rfl
  | tickCall call =>
    obtain ⟨hq, -⟩ := Quiet.tickCall h
    exact hk.of_eq (pipeline_of_quiet hq) (queuedPackets_of_quiet hq) hq.packets
  | status =>
    cases h
    exact hk.of_eq (pipeline_of_event rfl rfl rfl (by simp))
      (queuedPackets_append _ _ (by simp)) rfl
  | run =>
    obtain ⟨hq, hn⟩ := queuedPackets_run h
    exact hk.of_eq (pipeline_run ha h) hq hn

-- ---------------------------------------------------------------------------
-- Statuses
-- ---------------------------------------------------------------------------

/-- The statuses that can still be used: the one `run` has taken and the one
that waits in the event. -/
def credit (s : SocketHelper) : Nat := s.pc.paid + s.statusEvent.toNat

/-- Every packet sent and every status at hand is paid for by a status received. -/
def Paced (s : SocketHelper) : Prop :=
  (sentPackets s.trace).length + s.credit ≤ statuses s.trace

theorem paced_new : Paced new := Nat.le_refl 0

theorem Paced.run (hc : Control s) (hp : Paced s) (h : s.run = some s') : Paced s' := by
  unfold Paced credit at hp ⊢
  cases RunStep.of_run h with
  | clearStatus hpc => simpa [hpc, hc.clear hpc, Pc.paid] using hp
  | sendTicker hpc _ | sendOther hpc _ =>
    rw [sentPackets_sent, statuses_append _ _ (by simp), List.length_append]
    rw [hpc] at hp
    simp only [Pc.paid, List.length_singleton] at hp ⊢
    omega
  | tooLong hpc _ =>
    -- the status is used up, with nothing sent for it
    rw [hpc] at hp
    simp only [Pc.paid] at hp ⊢
    omega
  | popEmpty hpc hq => exact absurd hq (hc.pop hpc)
  | noWork hpc htick => simp [hc.pickTick hpc] at htick
  | _ => simp_all [Pc.paid]

theorem Paced.of_quiet (hp : Paced s) (hq : Quiet s s') : Paced s' := by
  have hpaid : s'.pc.paid = s.pc.paid := by
    rcases hq.pc with hpc | ⟨b, hb, hpc⟩
    · rw [hpc]
    · rw [hb, hpc]
      rfl
  unfold Paced credit at hp ⊢
  rw [hpaid, hq.statusEvent]
  rcases hq.trace with htr | ⟨call, htr⟩
  · rwa [htr]
  · rwa [htr, sentPackets_append _ _ (by simp), statuses_append _ _ (by simp)]

theorem paced_step (hc : Control s) (hp : Paced s) (h : step s a = some s') : Paced s' := by
  cases a with
  | queuePacket tag data priority =>
    cases h
    unfold Paced at hp ⊢
    unfold queuePacket
    dsimp only
    rwa [sentPackets_append _ _ (by simp), statuses_append _ _ (by simp)]
  | notify => exact hp.of_quiet (Quiet.step_notify h).1
  | addTick call wait =>
    obtain ⟨-, rfl⟩ := step_addTick h
    unfold Paced at hp ⊢
    dsimp only
    rwa [sentPackets_append _ _ (by simp), statuses_append _ _ (by simp)]
  | tickCall call => exact hp.of_quiet (Quiet.tickCall h).1
  | status =>
    cases h
    unfold Paced credit at hp ⊢
    unfold setStatus
    have hle := s.statusEvent.toNat_le
    dsimp only
    rw [sentPackets_append _ _ (by simp), statuses, List.count_append]
    rw [statuses] at hp
    simp only [List.count_singleton_self, Bool.toNat_true]
    omega
  | run => exact Paced.run hc hp h

/-- Whatever is queued, `run` never lacks something to send, and every packet
sent has had a status of its own. -/
theorem exec_paced (h : exec step new actions = some s) :
    (∀ e, s.pc = .raised e → e = .overflowError) ∧
      (sentPackets s.trace).length ≤ statuses s.trace := by
  have hi : Control s ∧ Paced s := by
    refine exec_invariant (I := fun s => Control s ∧ Paced s) ?_ ⟨control_new, paced_new⟩ h
    rintro s a s' ⟨hc, hp⟩ h
    exact ⟨control_step hc h, paced_step hc hp h⟩
  exact ⟨hi.1.raised, Nat.le_trans (Nat.le_add_right _ _) hi.2⟩

-- ---------------------------------------------------------------------------
-- All together
-- ---------------------------------------------------------------------------

/-- What the runs that queue no packet too long keep. -/
structure Inv (s : SocketHelper) : Prop where
  control : Control s
  alive : Alive s
  kept : Kept s
  paced : Paced s

theorem inv_new : Inv new := ⟨control_new, alive_new, kept_new, paced_new⟩

theorem inv_step (hi : Inv s) (hg : SizeFits s a) (h : step s a = some s') : Inv s' := by
  obtain ⟨hc, ha, hk, hp⟩ := hi
  exact ⟨control_step hc h, alive_step hc ha hg h, kept_step ha hk h, paced_step hc hp h⟩

end SocketHelper

end Speculos.Mcu

/-!
## Every queued packet goes out

The steps that `run` can take while a packet is queued or at hand are bounded:
each lowers a potential, which only a further `queue_packet` raises. Where
`run` cannot take a step, it waits for a status that has not come, or a
notification that wakes it is still to be taken. A packet whose size does not
fit two bytes is never sent and ends `run`.
-/

namespace Speculos.Mcu

open Lib

def runs (actions : List Action) : Nat :=
  (actions.map fun
    | .run => 1
    | _ => 0).sum

def enqueues (actions : List Action) : Nat :=
  (actions.map fun
    | .queuePacket .. => 1
    | _ => 0).sum

namespace SocketHelper

variable {s s' : SocketHelper}

/-- The steps of `run` until it takes a packet out of a queue that is not
empty, or has sent the one at hand. A status turns a check into the last one. -/
def rank (s : SocketHelper) : Nat :=
  match s.pc with
  | .pickTick => 15
  | .send _ => 14
  | .countTick => 13
  | .clearTick => 12
  | .top => 11
  | .checkTick => 10
  | .blocked _ => 9
  | .checkQueue => 8
  | .checkStatus => if s.statusEvent then 5 else 7
  | .waitStatus => 6
  | .clearStatus => 4
  | .pickQueue => 3
  | .pop => 2
  | .raised _ => 0

theorem rank_le (s : SocketHelper) : s.rank ≤ 15 := by
  unfold rank
  split <;> (try split) <;> omega

def potential (s : SocketHelper) : Nat := 13 * s.queue.length + s.rank

def Busy (s : SocketHelper) : Prop := s.inHand ++ s.queue ≠ []

theorem potential_run (hb : s.Busy) (h : s.run = some s') : 1 + s'.potential ≤ s.potential := by
  have hqueue : (∀ packet, s.pc ≠ .send packet) → s.queue ≠ [] := by
    intro hpc hq
    apply hb
    rw [inHand, hq]
    split
    · exact absurd ‹_› (hpc _)
    · rfl
  unfold potential rank
  cases RunStep.of_run h with
  | queueEmpty hpc hq => exact absurd hq (hqueue (by simp [hpc]))
  | pickNone hpc hq => exact absurd hq (hqueue (by simp [hpc]))
  | popEmpty hpc hq => exact absurd hq (hqueue (by simp [hpc]))
  | queueReady hpc _ | tickReady hpc _ =>
    simp only [hpc]
    split <;> omega
  | pop hpc hq =>
    simp only [hpc, hq, List.length_cons]
    omega
  | _ =>
    simp_all
    omega

theorem potential_of_quiet (hq : Quiet s s') : s'.potential = s.potential := by
  have hrank : s'.rank = s.rank := by
    unfold rank
    rw [hq.statusEvent]
    rcases hq.pc with hpc | ⟨b, hb, hpc⟩
    · rw [hpc]
    · rw [hb, hpc]
  rw [potential, potential, hrank, hq.queue]

theorem potential_status (s : SocketHelper) : s.setStatus.potential ≤ s.potential := by
  have hrank : s.setStatus.rank ≤ s.rank := by
    unfold rank setStatus
    dsimp only
    split <;> simp_all
    split <;> omega
  exact Nat.add_le_add_left hrank _

/-- A step of `run` costs one, and only `queue_packet` pays. -/
theorem potential_step (hb : s.Busy) (h : step s a = some s') :
    runs [a] + s'.potential ≤ s.potential + 13 * enqueues [a] := by
  cases a with
  | queuePacket tag data priority =>
    cases h
    have hlen : (s.queuePacket tag data priority).queue.length = s.queue.length + 1 := by
      cases priority <;> simp [queuePacket]
    show 0 + (13 * (s.queuePacket tag data priority).queue.length + s.rank) ≤
      13 * s.queue.length + s.rank + 13 * 1
    omega
  | notify =>
    rw [potential_of_quiet (Quiet.step_notify h).1]
    exact Nat.le_of_eq (Nat.zero_add _)
  | addTick call wait =>
    obtain ⟨-, rfl⟩ := step_addTick h
    exact Nat.le_of_eq (Nat.zero_add _)
  | tickCall call =>
    rw [potential_of_quiet (Quiet.tickCall h).1]
    exact Nat.le_of_eq (Nat.zero_add _)
  | status =>
    cases h
    have := potential_status s
    show 0 + s.setStatus.potential ≤ s.potential + 0
    omega
  | run => exact potential_run hb h

theorem trace_step (h : step s a = some s') : ∃ events, s'.trace = s.trace ++ events := by
  have hquiet : Quiet s s' → ∃ events, s'.trace = s.trace ++ events := by
    intro hq
    rcases hq.trace with htr | ⟨call, htr⟩
    · exact ⟨[], by rw [htr, List.append_nil]⟩
    · exact ⟨_, htr⟩
  cases a with
  | queuePacket tag data priority =>
    cases h
    exact ⟨_, rfl⟩
  | notify => exact hquiet (Quiet.step_notify h).1
  | addTick call wait =>
    obtain ⟨-, rfl⟩ := step_addTick h
    exact ⟨_, rfl⟩
  | tickCall call => exact hquiet (Quiet.tickCall h).1
  | status =>
    cases h
    exact ⟨_, rfl⟩
  | run =>
    cases RunStep.of_run h with
    | sendTicker _ _ => exact ⟨_, rfl⟩
    | sendOther _ _ => exact ⟨_, rfl⟩
    | _ => exact ⟨[], (List.append_nil _).symm⟩

theorem sent_step (h : step s a = some s') (hp : packet ∈ sentQueued s.trace) :
    packet ∈ sentQueued s'.trace := by
  obtain ⟨events, htr⟩ := trace_step h
  rw [htr, sentQueued, sentPackets, List.filterMap_append, List.filterMap_append]
  exact List.mem_append_left _ hp

theorem Inv.mem_step (hi : Inv s) (h : step s a = some s') (hp : packet ∈ s.pipeline) :
    packet ∈ s'.pipeline := by
  obtain ⟨events, htr⟩ := trace_step h
  have hqueued : packet ∈ queuedPackets s.trace := hi.kept.perm.mem_iff.mp hp
  apply (kept_step hi.alive hi.kept h).perm.mem_iff.mpr
  rw [htr, queuedPackets, List.filterMap_append]
  exact List.mem_append_left _ hqueued

/-- A packet that is queued or at hand has been sent once `run` has taken more
steps than its potential and the packets queued meanwhile pay for. -/
theorem Inv.sent_of_runs (hi : Inv s) (hg : Guarded step SizeFits s actions)
    (h : exec step s actions = some t)
    (hruns : 13 * (s.queue.length + enqueues actions) + 15 < runs actions)
    (hp : packet ∈ s.inHand ++ s.queue) : packet ∈ sentQueued t.trace := by
  have hrank := rank_le s
  have hcredit : (actions.map fun a => 13 * enqueues [a]).sum = 13 * enqueues actions := by
    rw [List.sum_map_mul_left actions (fun a => enqueues [a]) 13]
    simp [enqueues]
  have hcharge : (actions.map fun a => runs [a]).sum = runs actions := by
    simp [runs]
  refine exec_progress (fun s => Inv s ∧ packet ∈ s.inHand ++ s.queue)
    (fun s => packet ∈ sentQueued s.trace) potential (fun a => runs [a])
    (fun a => 13 * enqueues [a]) (fun s a s' hs h => sent_step h hs) ?_ ⟨hi, hp⟩ hg h ?_
  · rintro s a s' ⟨hi, hp⟩ hg h
    have hpipe := hi.mem_step h (List.mem_append_right _ hp)
    rcases List.mem_append.mp hpipe with hsent | hopen
    · exact .inl hsent
    · refine .inr ⟨⟨inv_step hi hg h, hopen⟩, potential_step ?_ h⟩
      exact List.ne_nil_of_mem hp
  · rw [hcredit, hcharge, potential]
    omega

/-- With a packet queued or at hand, `run` stands still only for a status or a
notification still to come. -/
theorem Inv.run_none (hi : Inv s) (hb : s.Busy) (h : s.run = none) :
    s.pc = .waitStatus ∧ s.statusEvent = false ∨ (step s .notify).isSome := by
  unfold SocketHelper.run at h
  split at h
  case h_4 notified hpc =>
    have hfalse : notified = false := by
      cases notified with
      | true => simp at h
      | false => rfl
    have hqueue : s.queue ≠ [] := by simpa [Busy, inHand, hpc] using hb
    have hpos := hi.control.awake (.inr (by rw [hpc, hfalse])) hqueue
    right
    rw [step, if_neg]
    · rfl
    · simp only [Locked, hpc, not_or]
      exact ⟨Nat.pos_iff_ne_zero.mp hpos, by simp, by simp⟩
  case h_6 hpc =>
    left
    refine ⟨hpc, ?_⟩
    cases hs : s.statusEvent with
    | true => simp [hs] at h
    | false => rfl
  case h_9 hpc =>
    split at h <;> cases h
  case h_11 packet hpc =>
    split at h <;> cases h
  case h_14 e hpc => exact absurd hpc (hi.alive.raised e)
  all_goals cases h

-- ---------------------------------------------------------------------------
-- Any interleaving
-- ---------------------------------------------------------------------------

/-- Nothing was raised, every packet queued is sent, at hand or queued, once and
without priority in order, every packet sent had a status of its own, and the
packets not sent yet will be. -/
structure Delivers (s : SocketHelper) : Prop where
  raised : ∀ e, s.pc ≠ .raised e
  once : (sentQueued s.trace ++ (s.inHand ++ s.queue)).Perm (queuedPackets s.trace)
  distinct : ((queuedPackets s.trace).map (·.number)).Nodup
  order : (sentQueued s.trace ++ (s.inHand ++ s.queue)).filter (!·.priority) =
    (queuedPackets s.trace).filter (!·.priority)
  paced : (sentPackets s.trace).length ≤ statuses s.trace
  sent : ∀ actions t, Guarded step SizeFits s actions → exec step s actions = some t →
    13 * (s.queue.length + enqueues actions) + 15 < runs actions →
    ∀ packet ∈ s.inHand ++ s.queue, packet ∈ sentQueued t.trace
  standstill : s.inHand ++ s.queue ≠ [] → s.run = none →
    s.pc = .waitStatus ∧ s.statusEvent = false ∨ (step s .notify).isSome

/-- In a run in which the size of every packet queued fits its two bytes, every
packet is delivered. -/
theorem exec_delivers (hg : Guarded step SizeFits new actions)
    (h : exec step new actions = some s) : Delivers s := by
  have hi : Inv s :=
    exec_invariant_of_guarded (fun _ _ _ hi hg h => inv_step hi hg h) inv_new hg h
  refine ⟨hi.alive.raised, hi.kept.perm, ?_, hi.kept.order, ?_, ?_, ?_⟩
  · rw [hi.kept.numbers]
    exact List.nodup_range
  · exact Nat.le_trans (Nat.le_add_right _ _) hi.paced
  · exact fun actions t hg h hruns packet hp => hi.sent_of_runs hg h hruns hp
  · exact fun hb h => hi.run_none hb h

/-- A tick, a packet and a packet with priority are requested before the first
status; the packet with priority goes out. -/
def firstStatus : List Action :=
  [.addTick 0 false, .queuePacket 0x05 [1] false, .queuePacket 0x10 [] true, .run, .run, .status,
    .run, .run, .run, .run, .run]

theorem exec_delivers_firstStatus :
    ∃ s, exec step new firstStatus = some s ∧ Delivers s := by
  obtain ⟨s, hs⟩ := Option.isSome_iff_exists.mp
    (by decide : (exec step new firstStatus).isSome = true)
  exact ⟨s, hs, exec_delivers (by decide +kernel) hs⟩

/-- One packet is queued, a status comes, and `run` goes up to the sending. -/
def sendOne (data : Bytes) : List Action :=
  .queuePacket 0x16 data false :: .status :: List.replicate 7 .run

theorem exec_sendOne (data : Bytes) (hdata : ¬ data.length < 65536) :
    (exec step new (sendOne data)).map (fun s => (s.pc, s.queue, s.trace)) =
      some (.raised .overflowError, [], [.queued ⟨0, 0x16, data, false⟩, .status]) := by
  simp [sendOne, exec, step, queuePacket, setStatus, run, new, Outgoing.data, hdata]

theorem sendOne_not_delivered :
    ∃ s, exec step new (sendOne (List.replicate 65536 0)) = some s ∧ s.run = none ∧
      sentQueued s.trace = [] ∧ ¬ Delivers s := by
  have hdata : ¬ (List.replicate 65536 (0 : UInt8)).length < 65536 := by
    rw [List.length_replicate]
    exact Nat.lt_irrefl _
  obtain ⟨s, hs, hobs⟩ := Option.map_eq_some_iff.mp (exec_sendOne _ hdata)
  simp only [Prod.mk.injEq] at hobs
  obtain ⟨hpc, hq, htr⟩ := hobs
  have hsent : sentQueued s.trace = [] := by
    rw [htr]
    rfl
  refine ⟨s, hs, by rw [run, hpc], hsent, fun hd => ?_⟩
  -- the packet was queued and is nowhere
  have honce := hd.once.length_eq
  rw [hsent, inHand, hpc, hq, htr] at honce
  cases honce

end SocketHelper

end Speculos.Mcu
