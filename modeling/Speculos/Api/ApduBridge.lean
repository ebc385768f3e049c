import Mathlib.Data.Rat.Cast.Order
import Speculos.Lib.Lts
import Speculos.Transport.Nfc
import Speculos.Transport.Usb

/-!
# Exchanges over the REST API

`APDUBridge` of `apdu.py` as a transition system of any number of `exchange`
calls, the ticks and the device. The device answers the APDUs it has received
in the order of reception, each once and at any time; an answer carries the
number of the exchange it belongs to, which nothing reads, and `yielded`
records what the exchanges have yielded.

An exchange goes through the steps of the generator: it reads the tick count,
takes `endpoint_lock`, clears the response, sends its APDU and then waits until
there is a response or its ticks are used up. `response_condition` is held
within single steps only: nothing happens between the check of the response and
the wait.
-/

namespace Speculos.Api

open Lib Transport

inductive TransportType
  | hid
  | nfc
  | u2f
  deriving DecidableEq, Repr

def sephTags : Bytes :=
  [0x05, 0x0c, 0x0d, 0x0e, 0x16, 0x31, 0x34, 0x38, 0x44, 0x46, 0x4f, 0x50, 0x4a, 0x52, 0x53, 0x56,
    0x5e, 0x5f, 0x5a, 0x60, 0x00, 0x65, 0x66, 0x69, 0x01, 0x02, 0xf1, 0xf2, 0xf9, 0xfa, 0xfb, 0xfc,
    0xfd, 0xfe, 0xff, 0x5c]

def capduEvent : UInt8 := 0x16

def rawPrefix : Bytes := [0x52, 0x41, 0x57, 0x21]

/-- What comes of a packet: an exception, an APDU for the device, or nothing
that the device answers. -/
inductive ToApp
  | raised
  | apdu
  | other
  deriving DecidableEq, Repr

def ToApp.ofSend (packets : σ → List Bytes) : EStateM.Result PyError σ Unit → ToApp
  | .ok _ t => if packets t = [] then other else apdu
  | .error _ _ => raised

/-- `SeProxyHal.to_app`. Whether `send` raises depends on the packet alone, so
a new transport stands for the one in use. -/
def toApp (transport : TransportType) (packet : Bytes) : ToApp :=
  if packet.take 4 = rawPrefix ∧ packet.length > 4 then
    let tag := packet.getD 4 0
    if tag ∉ sephTags then .raised
    -- `send_packet` does not get a longer packet out
    else if tag = capduEvent ∧ (packet.drop 5).length < 65536 then .apdu
    else .other
  else match transport with
    | .hid => .ofSend (·.submitted) (HID.send packet HID.new)
    | .nfc => .ofSend (·.sent) (NFC.send packet NFC.new)
    | .u2f => .ofSend (·.submitted) (U2F.send packet U2F.new)

/-- The arguments of an exchange. The timeout is a JSON number. -/
structure Request where
  data : Bytes
  tickTimeout : ℚ

def Request.expired (r : Request) (exchangeTickCount : Nat) : Prop :=
  r.tickTimeout ≠ 0 ∧ (exchangeTickCount : ℚ) > r.tickTimeout

instance (r : Request) (exchangeTickCount : Nat) : Decidable (r.expired exchangeTickCount) :=
  inferInstanceAs (Decidable (_ ∧ _))

/-- A response of the device, and the exchange whose APDU it answers. -/
structure Answer where
  exchange : Nat
  data : Bytes
  deriving DecidableEq, Repr

inductive AnswerTag
  | rapdu
  | usbEpPrepare
  | nfcRapdu
  deriving DecidableEq, Repr

/-- Where an exchange stands. `start` is `tick_count_before_exchange`. -/
inductive Phase
  | idle
  | locking (start : Nat)
  | clearing (start : Nat)
  | sending (start : Nat)
  | checking (start : Nat)
  | waiting (start : Nat)
  | reading
  | yielded
  | done
  deriving DecidableEq, Repr

structure APDUBridge where
  endpointLock : Option Nat
  response : Option Answer
  ticks : Nat
  phases : Nat → Phase
  device : List Nat -- the exchanges whose APDUs are not answered yet, oldest first
  yielded : List (Nat × Answer)

inductive Action
  | exchange (i : Nat)
  | tick
  | answer (tag : AnswerTag) (data : Bytes)
  deriving DecidableEq, Repr

namespace APDUBridge

def new : APDUBridge :=
  { endpointLock := none
    response := none
    ticks := 0
    phases := fun _ => .idle
    device := []
    yielded := [] }

def setPhase (s : APDUBridge) (i : Nat) (phase : Phase) : APDUBridge :=
  { s with phases := fun j => if j = i then phase else s.phases j }

def leave (s : APDUBridge) (i : Nat) : APDUBridge :=
  { s.setPhase i .done with endpointLock := none }

/-- The next step of exchange `i`. -/
def exchange (transport : TransportType) (requests : Nat → Request) (s : APDUBridge) (i : Nat) :
    Option APDUBridge :=
  match s.phases i with
  | .idle => some (s.setPhase i (.locking s.ticks))
  | .locking start =>
    if s.endpointLock = none then
      some { s.setPhase i (.clearing start) with endpointLock := some i }
    else none
  | .clearing start => some { s.setPhase i (.sending start) with response := none }
  | .sending start =>
    match toApp transport (requests i).data with
    | .raised => some (s.leave i)
    | .apdu => some { s.setPhase i (.checking start) with device := s.device ++ [i] }
    | .other => some (s.setPhase i (.checking start))
  | .checking start =>
    some (s.setPhase i (if s.response = none then .waiting start else .reading))
  | .waiting start =>
    -- `wait(0.1)` returns, notified or not
    if (requests i).expired (s.ticks - start) then some (s.leave i)
    else some (s.setPhase i (.checking start))
  | .reading =>
    match s.response with
    | some answer => some { s.setPhase i .yielded with yielded := s.yielded ++ [(i, answer)] }
    | none => some (s.leave i)
  | .yielded => some (s.leave i)
  | .done => none

def sephApduCallback (s : APDUBridge) (answer : Answer) : APDUBridge :=
  { s with response := some answer }

/-- The response of the device to the oldest APDU, in `SeProxyHal.can_read`.
An empty one is dropped on the USB path. -/
def canRead (s : APDUBridge) (tag : AnswerTag) (data : Bytes) : Option APDUBridge :=
  match s.device with
  | [] => none
  | i :: device =>
    let s := { s with device }
    if tag = .usbEpPrepare ∧ data = [] then some s
    else some (s.sephApduCallback ⟨i, data⟩)

def step (transport : TransportType) (requests : Nat → Request) (s : APDUBridge) :
    Action → Option APDUBridge
  | .exchange i => s.exchange transport requests i
  | .tick => some { s with ticks := s.ticks + 1 }
  | .answer tag data => s.canRead tag data

end APDUBridge

end Speculos.Api
