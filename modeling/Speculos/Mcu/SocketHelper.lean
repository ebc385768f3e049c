import Speculos.Seph.Descriptor
import Speculos.Lib.Lts
import Speculos.Lib.Octets

/-!
# The sending thread of the MCU

`SocketHelper` of `seproxyhal.py` with the threads that call it, as a
transition system: every access to a shared field is one step. `run` is a
program counter; a call of `queue_packet` is the update of the queue and a
later notification, a call of `add_tick` has a phase of its own, and a
reception of GENERAL_STATUS sets the event. The lock of `queue_condition` is
held by `run` while it looks at the queue and the flag; the other threads hold
it for the single step of their notification.

The socket stays open, so `sendall` does not fail and `stop` stays false.
Queued packets carry the number of their `queue_packet` call and the priority
they were queued with, and `trace` records what happened, oldest first;
nothing reads these.

`_recvall` and `read_packet` of `seproxyhal.py`. What the socket answers to the
calls of `recv` is a list, as for the descriptor on the other side: no bytes
where it is closed, a failure for `ConnectionResetError`, and an interrupted call
is made again. A packet that is written to the socket is read back whole,
whatever pieces it comes in, and nothing behind it is taken.
-/

namespace Speculos.Mcu

open Lib

def tickerEvent : UInt8 := 0x0e

structure Packet where
  number : Nat
  tag : UInt8
  data : Bytes
  priority : Bool
  deriving DecidableEq, Repr

inductive Outgoing
  | queued (packet : Packet)
  | tick
  deriving DecidableEq, Repr

def Outgoing.tag : Outgoing → UInt8
  | queued packet => packet.tag
  | tick => tickerEvent

def Outgoing.data : Outgoing → Bytes
  | queued packet => packet.data
  | tick => []

inductive Event
  | queued (packet : Packet)
  | tickSet (call : Nat)
  | tickReturned (call : Nat)
  | status
  | sent (packet : Outgoing)
  deriving DecidableEq, Repr

/-- The exceptions that would end `run`. -/
inductive RunError
  | runtimeError
  | indexError
  | overflowError
  deriving DecidableEq, Repr

inductive Pc
  | top -- about to take `queue_condition`
  | checkQueue
  | checkTick
  | blocked (notified : Bool)
  | checkStatus
  | waitStatus
  | clearStatus
  | pickQueue
  | pop
  | pickTick
  | send (packet : Outgoing)
  | countTick
  | clearTick
  | raised (error : RunError)
  deriving DecidableEq, Repr

inductive TickPhase
  | idle
  | notifying (wait : Bool)
  | readTick
  | readQueue
  | readStatus
  | enterWait
  | waitStatus (notified : Bool)
  | returned
  deriving DecidableEq, Repr

structure SocketHelper where
  queue : List Packet
  tickRequested : Bool
  statusEvent : Bool
  ticksCount : Nat
  pc : Pc
  notifies : Nat -- the `queue_packet` calls that have not notified yet
  calls : Nat → TickPhase
  packets : Nat
  trace : List Event

inductive Action
  | queuePacket (tag : UInt8) (data : Bytes) (priority : Bool)
  | notify
  | addTick (call : Nat) (wait : Bool)
  | tickCall (call : Nat)
  | status
  | run
  deriving DecidableEq, Repr

namespace SocketHelper

/-- `SocketHelper.__init__`, with the event not set yet. -/
def new : SocketHelper :=
  { queue := []
    tickRequested := false
    statusEvent := false
    ticksCount := 0
    pc := .top
    notifies := 0
    calls := fun _ => .idle
    packets := 0
    trace := [] }

/-- `run` holds the lock of `queue_condition`. -/
def Locked (s : SocketHelper) : Prop := s.pc = .checkQueue ∨ s.pc = .checkTick

instance (s : SocketHelper) : Decidable s.Locked := inferInstanceAs (Decidable (_ ∨ _))

def notify (s : SocketHelper) : SocketHelper :=
  match s.pc with
  | .blocked _ => { s with pc := .blocked true }
  | _ => s

def setCall (s : SocketHelper) (call : Nat) (phase : TickPhase) : SocketHelper :=
  { s with calls := fun i => if i = call then phase else s.calls i }

/-- The update of the queue in `queue_packet`. -/
def queuePacket (s : SocketHelper) (tag : UInt8) (data : Bytes) (priority : Bool) : SocketHelper :=
  let packet : Packet := { number := s.packets, tag, data, priority }
  { s with
    queue := if ¬ priority then s.queue ++ [packet] else packet :: s.queue
    notifies := s.notifies + 1
    packets := s.packets + 1
    trace := s.trace ++ [.queued packet] }

/-- `status_event.set()`, which wakes every thread that waits for it. -/
def setStatus (s : SocketHelper) : SocketHelper :=
  { s with
    statusEvent := true
    calls := fun i => match s.calls i with
      | .waitStatus _ => .waitStatus true
      | phase => phase
    trace := s.trace ++ [.status] }

/-- The next step of a call of `add_tick` after it has set the flag, through
`wait_until_tick_is_processed` if it waits. -/
def tickCall (s : SocketHelper) (call : Nat) : Option SocketHelper :=
  match s.calls call with
  | .idle => none
  | .notifying wait =>
    if s.Locked then none
    else some (s.notify.setCall call (if wait then .readTick else .returned))
  | .readTick => some (s.setCall call (if s.tickRequested then .enterWait else .readQueue))
  | .readQueue =>
    some (s.setCall call (if s.queue.length ≠ 0 then .enterWait else .readStatus))
  | .readStatus =>
    if s.statusEvent then
      some { s.setCall call .returned with trace := s.trace ++ [.tickReturned call] }
    else some (s.setCall call .enterWait)
  | .enterWait =>
    some (s.setCall call (if s.statusEvent then .readTick else .waitStatus false))
  | .waitStatus notified => if notified then some (s.setCall call .readTick) else none
  | .returned => none

/-- The next step of `run`. -/
def run (s : SocketHelper) : Option SocketHelper :=
  match s.pc with
  | .top => some { s with pc := .checkQueue }
  -- wait for a event in the queue or a tick to be available
  | .checkQueue => some { s with pc := if s.queue.length = 0 then .checkTick else .checkStatus }
  | .checkTick => some { s with pc := if ¬ s.tickRequested then .blocked false else .checkStatus }
  | .blocked notified => if notified then some { s with pc := .checkQueue } else none
  -- wait for a status notification; no other thread clears the event
  | .checkStatus => some { s with pc := if ¬ s.statusEvent then .waitStatus else .clearStatus }
  | .waitStatus => if s.statusEvent then some { s with pc := .checkStatus } else none
  | .clearStatus => some { s with statusEvent := false, pc := .pickQueue }
  | .pickQueue => some { s with pc := if s.queue.length ≠ 0 then .pop else .pickTick }
  | .pop =>
    match s.queue with
    | packet :: queue => some { s with queue, pc := .send (.queued packet) }
    | [] => some { s with pc := .raised .indexError }
  | .pickTick =>
    some { s with pc := if s.tickRequested then .send .tick else .raised .runtimeError }
  | .send packet =>
    -- `len(data).to_bytes(2, "big")` raises for a longer packet
    if packet.data.length < 65536 then
      some { s with
        trace := s.trace ++ [.sent packet]
        pc := if packet.tag = tickerEvent then .countTick else .top }
    else some { s with pc := .raised .overflowError }
  | .countTick => some { s with ticksCount := s.ticksCount + 1, pc := .clearTick }
  | .clearTick => some { s with tickRequested := false, pc := .top }
  | .raised _ => none

def step (s : SocketHelper) : Action → Option SocketHelper
  | .queuePacket tag data priority => some (s.queuePacket tag data priority)
  | .notify =>
    if s.notifies = 0 ∨ s.Locked then none
    else some { s.notify with notifies := s.notifies - 1 }
  | .addTick call wait =>
    if s.calls call = .idle then
      some { s.setCall call (.notifying wait) with
        tickRequested := true
        trace := s.trace ++ [.tickSet call] }
    else none
  | .tickCall call => s.tickCall call
  | .status => some s.setStatus
  | .run => s.run

end SocketHelper

end Speculos.Mcu

-- ---------------------------------------------------------------------------
-- Receiving a packet
-- ---------------------------------------------------------------------------

namespace Speculos.Mcu.SocketHelper

open Lib
open Speculos.Seph (Answer)

/-- What `_recvall` returns, `none` where the socket is closed, and what is left
to receive. -/
def recvall : List Answer → Bytes → Nat → Option (Option Bytes × Bytes)
  | _, stream, 0 => some (some [], stream)
  | [], _, _ + 1 => none
  | .interrupted :: answers, stream, size + 1 => recvall answers stream (size + 1)
  | .failed :: _, stream, _ + 1 => some (none, stream)
  | .moved 0 :: _, stream, _ + 1 => some (none, stream)
  | .moved (n + 1) :: answers, stream, size + 1 =>
    if n ≤ size ∧ n < stream.length then
      (recvall answers (stream.drop (n + 1)) (size - n)).map fun (data, rest) =>
        (data.map (stream.take (n + 1) ++ ·), rest)
    else none

inductive ReadResult
  | closed -- `None, None, None`
  | packet (tag : UInt8) (size : Nat) (data : Bytes)
  | valueError
  deriving DecidableEq, Repr

/-- `read_packet`, with what the socket answers for the header and for the data. -/
def readPacket (header body : List Answer) (stream : Bytes) : Option (ReadResult × Bytes) := do
  match ← recvall header stream 3 with
  | (none, stream) => return (.closed, stream)
  | (some data, stream) =>
    let tag := data.headD 0
    let size := fromBE ((data.drop 1).take 2)
    match ← recvall body stream size with
    | (none, stream) => return (.closed, stream)
    | (some data, stream) =>
      if data.length ≠ size then return (.valueError, stream)
      else return (.packet tag size data, stream)

/-- Whatever the pieces, the next bytes are received in order. -/
theorem recvall_delivers (hsize : size ≤ stream.length) (h : Seph.Delivers size answers) :
    recvall answers stream size = some (some (stream.take size), stream.drop size) := by
  fun_induction recvall answers stream size with
  | case1 answers stream => rfl
  | case2 stream size => cases h
  | case3 answers stream size ih => exact ih hsize h.2
  | case4 answers stream size => exact h.elim
  | case5 answers stream size => exact absurd h.1 (Nat.lt_irrefl 0)
  | case6 n answers stream size hfits ih =>
    obtain ⟨hle, h⟩ := h.rest
    have htake : stream.take (n + 1) ++ (stream.drop (n + 1)).take (size - n) =
        stream.take (size + 1) := by
      rw [← List.take_add, show n + 1 + (size - n) = size + 1 by omega]
    rw [ih (by rw [List.length_drop]; omega) h, List.drop_drop,
      show n + 1 + (size - n) = size + 1 by omega]
    simp only [Option.map_some, htake]
  | case7 n answers stream size hfits =>
    have hle := h.rest.1
    omega

theorem readPacket_encode (p : Lib.Packet) (after : Bytes) (hheader : Seph.Delivers 3 header)
    (hbody : Seph.Delivers p.body.length body) :
    readPacket header body (p.encode ++ after) =
      some (.packet p.tag p.body.length p.body, after) := by
  obtain ⟨hi, lo, hencode, hsize⟩ := p.exists_header
  have htake : (p.encode ++ after).take 3 = [p.tag, hi, lo] := by rw [hencode]; rfl
  have hdrop : (p.encode ++ after).drop 3 = p.body ++ after := by rw [hencode]; rfl
  have hlen : 3 ≤ (p.encode ++ after).length := by
    rw [List.length_append, Lib.Packet.length_encode, Lib.Packet.size]
    omega
  have hfirst : recvall header (p.encode ++ after) 3 =
      some (some [p.tag, hi, lo], p.body ++ after) := by
    rw [recvall_delivers hlen hheader, htake, hdrop]
  have hsecond : recvall body (p.body ++ after) p.body.length = some (some p.body, after) := by
    rw [recvall_delivers (by rw [List.length_append]; omega) hbody, List.take_left, List.drop_left]
  have hread : fromBE (([p.tag, hi, lo].drop 1).take 2) = p.body.length := hsize
  rw [readPacket, hfirst]
  simp only [Option.bind_eq_bind, Option.bind_some, hread, hsecond]
  rw [if_neg (not_not.mpr rfl)]
  rfl

end Speculos.Mcu.SocketHelper
