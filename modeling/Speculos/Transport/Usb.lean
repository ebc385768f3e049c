import Speculos.Transport.Construct

/-!
# The USB transports of the emulator

`USBTransport` of `usb.py` with its subclasses `U2F` and `HID`. An object
keeps its own record of the calls of `send_cb`, each with the state of the
device at that moment, and of the packets that `send` and `_prepare` hand to
`_send_xfer`; the two records are never read. Logging is left out.
-/

namespace Speculos.Transport

open Lib

inductive USBReq
  | recipientDevice
  | setAddress
  | setConfiguration
  deriving DecidableEq, Repr

def USBReq.value : USBReq → Nat
  | recipientDevice => 0x00
  | setAddress => 0x05
  | setConfiguration => 0x09

inductive SephUSBTag
  | xferSetup
  | xferIn
  | xferOut
  | xferEvent
  | prepareDirIn
  deriving DecidableEq, Repr

def SephUSBTag.value : SephUSBTag → Nat
  | xferSetup => 0x01
  | xferIn => 0x02
  | xferOut => 0x04
  | xferEvent => 0x10
  | prepareDirIn => 0x20

inductive SephUSBConfig
  | connect
  | disconnect
  | addr
  | endpoints
  deriving DecidableEq, Repr

def SephUSBConfig.value : SephUSBConfig → Nat
  | connect => 0x01
  | disconnect => 0x02
  | addr => 0x03
  | endpoints => 0x04

/-- `SephUSBConfig(value)`, which raises for other values. -/
def SephUSBConfig.ofValue (value : UInt8) : Py σ SephUSBConfig :=
  if value = 0x01 then pure connect
  else if value = 0x02 then pure disconnect
  else if value = 0x03 then pure addr
  else if value = 0x04 then pure endpoints
  else throw (.valueError (toString value ++ " is not a valid SephUSBConfig"))

inductive SephUSBPrepare
  | setup
  | dirIn
  | dirOut
  | stall
  | unstall
  deriving DecidableEq, Repr

/-- `SephUSBPrepare(value)`, which raises for other values. -/
def SephUSBPrepare.ofValue (value : UInt8) : Py σ SephUSBPrepare :=
  if value = 0x10 then pure setup
  else if value = 0x20 then pure dirIn
  else if value = 0x30 then pure dirOut
  else if value = 0x40 then pure stall
  else if value = 0x80 then pure unstall
  else throw (.valueError (toString value ++ " is not a valid SephUSBPrepare"))

inductive HIDEndpoint
  | outAddr
  | inAddr
  deriving DecidableEq, Repr

def HIDEndpoint.value : HIDEndpoint → Nat
  | outAddr => 0x00
  | inAddr => 0x80

inductive USBDevState
  | disconnected
  | default
  | addressed
  | configured
  deriving DecidableEq, Repr

def USBDevState.value : USBDevState → Nat
  | disconnected => 0
  | default => 1
  | addressed => 2
  | configured => 3

inductive USBInterface
  | generic
  | u2f
  | hid
  deriving DecidableEq, Repr

def USBInterface.value : USBInterface → Nat
  | generic => 0
  | u2f => 1
  | hid => 2

def usbSize : Nat := 0x40

-- ---------------------------------------------------------------------------
-- Headers
-- ---------------------------------------------------------------------------

def usbHeaderBuild (endpoint tag length : Nat) : Py σ Bytes := do
  return (← int8ub endpoint) ++ (← int8ub tag) ++ (← int8ub length)

structure UsbHeader where
  endpoint : UInt8
  tag : UInt8
  length : UInt8

def usbHeaderParse : Bytes → Py σ UsbHeader
  | endpoint :: tag :: length :: _ => pure ⟨endpoint, tag, length⟩
  | _ => throw .streamError

def usbSetupBuild (bmreq breq wValue wIndex wLength : Nat) : Py σ Bytes := do
  return (← int8ub bmreq) ++ (← int8ub breq) ++ (← int16ul wValue) ++ (← int16ub wIndex) ++
    (← int16ub wLength)

def hidHeaderBuild (channel command seq length : Nat) : Py σ Bytes := do
  return (← int16ub channel) ++ (← int8ub command) ++ (← int16ub seq) ++ (← int16ub length)

structure HidHeader where
  channel : Nat
  command : UInt8
  seq : Nat
  length : Nat

def hidHeaderParse : Bytes → Py σ HidHeader
  | c0 :: c1 :: command :: s0 :: s1 :: l0 :: l1 :: _ =>
    pure ⟨fromBE [c0, c1], command, fromBE [s0, s1], fromBE [l0, l1]⟩
  | _ => throw .streamError

def usbHeaderSizeof : Nat := 3
def hidHeaderSizeof : Nat := 7

-- ---------------------------------------------------------------------------
-- Objects
-- ---------------------------------------------------------------------------

/-- The response being received. -/
structure HIDPacket where
  data : Bytes
  seq : Nat
  remainingSize : Nat
  deriving DecidableEq, Repr

namespace HIDPacket

def reset (size : Nat) : HIDPacket := { data := [], seq := 0, remainingSize := size }

def appendData (p : HIDPacket) (data : Bytes) : HIDPacket :=
  if data.length ≤ p.remainingSize then
    { data := p.data ++ data
      seq := p.seq + 1
      remainingSize := p.remainingSize - data.length }
  else
    { data := p.data ++ data.take p.remainingSize
      seq := p.seq + 1
      remainingSize := 0 }

def complete (p : HIDPacket) : Bool := p.remainingSize == 0

end HIDPacket

/-- The class of an object, with the attributes the subclass adds. -/
inductive Subclass
  | u2f
  | hid (hidPacket : HIDPacket)
  deriving DecidableEq, Repr

def Subclass.interface : Subclass → USBInterface
  | u2f => .u2f
  | hid _ => .hid

/-- One call of `send_cb`, and the state of the device when it was made. -/
structure SendCall where
  tag : SephUSBTag
  packet : Bytes
  state : USBDevState
  deriving DecidableEq, Repr

structure USBTransport where
  subclass : Subclass
  packetsToSend : List Bytes
  state : USBDevState
  sent : List SendCall
  submitted : List Bytes
  deriving DecidableEq, Repr

namespace USBTransport

def new (subclass : Subclass) : USBTransport :=
  { subclass, packetsToSend := [], state := .disconnected, sent := [], submitted := [] }

def endpointIn (t : USBTransport) : Nat :=
  HIDEndpoint.inAddr.value ||| t.subclass.interface.value

def endpointOut (t : USBTransport) : Nat :=
  HIDEndpoint.outAddr.value ||| t.subclass.interface.value

def sendCb (t : USBTransport) (tag : SephUSBTag) (packet : Bytes) : USBTransport :=
  { t with sent := t.sent ++ [{ tag, packet, state := t.state }] }

def sendXfer (t : USBTransport) (packet : Bytes) : USBTransport :=
  -- don't send packets until the endpoint is configured
  if t.state ≠ .configured ∨ t.packetsToSend.length > 0 then
    { t with packetsToSend := t.packetsToSend ++ [packet] }
  else t.sendCb .xferEvent packet

/-- The call of `_send_xfer` in `send` and `_prepare`. -/
def submit (t : USBTransport) (packet : Bytes) : USBTransport :=
  { t.sendXfer packet with submitted := t.submitted ++ [packet] }

def sendSetup (breq : USBReq) (wValue : Nat) : Py USBTransport Unit := do
  let header ← usbHeaderBuild (← get).endpointOut SephUSBTag.xferSetup.value 0
  let setup ← usbSetupBuild USBReq.recipientDevice.value breq.value wValue 0 0
  modify (·.sendCb .xferEvent (header ++ setup))

/-- `_flush_packets`: the queue is emptied and replayed. -/
def flushPackets (t : USBTransport) : USBTransport :=
  t.packetsToSend.foldl sendXfer { t with packetsToSend := [] }

end USBTransport

-- ---------------------------------------------------------------------------
-- U2F
-- ---------------------------------------------------------------------------

namespace U2F

def new : USBTransport := .new .u2f

def config (_tag : SephUSBConfig) : Py USBTransport Unit := pure ()

def buildXfer (tag : SephUSBTag) (data : Bytes) : Py USBTransport Bytes := do
  let header ← usbHeaderBuild (← get).endpointOut tag.value data.length
  return header ++ data

def send (data : Bytes) : Py USBTransport Unit := do
  if data.length ≠ usbSize then throw (.valueError "Data length does not match USB_SIZE")
  else
    let packet ← buildXfer .xferOut data
    modify (·.submit packet)

def prepare (data : Bytes) : Py USBTransport (Option Bytes) := do
  if data.length ≠ usbSize then throw (.valueError "Data length does not match USB_SIZE")
  else
    let packet ← buildXfer .xferIn []
    modify (·.submit packet)
    return some data

end U2F

-- ---------------------------------------------------------------------------
-- HID
-- ---------------------------------------------------------------------------

namespace HID

def usbChannel : Nat := 0x0101
def usbCommand : UInt8 := 0x05

def new : USBTransport := .new (.hid (.reset 0))

def buildHeader (length seq : Nat) : Py σ Bytes := do
  let header ← hidHeaderBuild usbChannel usbCommand.toNat seq length
  -- strip hid_header.length
  if seq ≠ 0 then return header.take (header.length - 2) else return header

def buildXfer (tag : SephUSBTag) (data : Bytes) (seq length : Nat) : Py USBTransport Bytes := do
  let header ← buildHeader length seq
  let size := header.length + data.length
  let packet ← usbHeaderBuild (← get).endpointOut tag.value size
  return packet ++ header ++ data

/-- The number of data bytes of packet `seq` in `HID.send`. -/
def chunkSize (seq : Nat) : Nat :=
  if seq ≠ 0 then usbSize - hidHeaderSizeof - 10 + 2 else usbSize - hidHeaderSizeof - 10

def ljust (chunk : Bytes) (size : Nat) : Bytes :=
  chunk ++ List.replicate (size - chunk.length) 0

theorem length_ljust_take (data : Bytes) (size : Nat) :
    (ljust (data.take size) size).length = size := by
  rw [ljust, List.length_append, List.length_replicate, List.length_take]
  omega

def sendFrom (data : Bytes) (seq offset : Nat) : Py USBTransport Unit := do
  if offset < data.length then
    let size := chunkSize seq
    let chunk := ljust ((data.drop offset).take size) size
    let length := if seq = 0 then data.length else chunk.length
    let packet ← buildXfer .xferOut chunk seq length
    modify (·.submit packet)
    sendFrom data (seq + 1) (offset + chunk.length)
  else return ()
termination_by data.length - offset
decreasing_by
  have h : 0 < chunkSize seq := by unfold chunkSize; split <;> decide
  rw [length_ljust_take]
  omega

def send (data : Bytes) : Py USBTransport Unit := sendFrom data 0 0

/-- `HID._config`. The tag is compared with a member of `USBDevState`. -/
def config (tag : SephUSBConfig) : Py USBTransport Unit := do
  if tag.value = USBDevState.disconnected.value then
    modify fun t => { t with subclass := .hid (.reset 0) }

/-- `HID._prepare` once the chunk has been cut out. -/
def receiveChunk (hidPacket : HIDPacket) (chunk : Bytes) : Py USBTransport (Option Bytes) := do
  let hidPacket := hidPacket.appendData chunk
  modify fun t => { t with subclass := .hid hidPacket }
  let packet ← buildXfer .xferIn [] hidPacket.seq usbSize
  modify (·.submit packet)
  if hidPacket.complete then
    modify fun t => { t with subclass := .hid (.reset 0) }
    return some hidPacket.data
  else return none

/-- The beginning of `HID._prepare`: the header, its channel and its command. -/
def parseChunk (data : Bytes) : Py σ HidHeader := do
  let hid ← hidHeaderParse data
  if hid.channel ≠ usbChannel then
    throw (.valueError "HID channel does not match USB_CHANNEL")
  else if hid.command ≠ usbCommand then
    throw (.valueError "HID command does not match USB_COMMAND")
  else return hid

def prepare (hidPacket : HIDPacket) (data : Bytes) : Py USBTransport (Option Bytes) := do
  let hid ← parseChunk data
  if hid.seq = 0 then
    receiveChunk (.reset hid.length) (data.drop hidHeaderSizeof)
  else if hid.seq ≠ hidPacket.seq then
    throw (.valueError "HID sequence does not match expected sequence")
  else receiveChunk hidPacket (data.drop (hidHeaderSizeof - 2))

end HID

-- ---------------------------------------------------------------------------
-- The methods of the base class
-- ---------------------------------------------------------------------------

namespace USBTransport

def configHook (tag : SephUSBConfig) : Py USBTransport Unit := do
  match (← get).subclass with
  | .u2f => U2F.config tag
  | .hid _ => HID.config tag

def prepareHook (data : Bytes) : Py USBTransport (Option Bytes) := do
  match (← get).subclass with
  | .u2f => U2F.prepare data
  | .hid hidPacket => HID.prepare hidPacket data

def send (data : Bytes) : Py USBTransport Unit := do
  match (← get).subclass with
  | .u2f => U2F.send data
  | .hid _ => HID.send data

def item (data : Bytes) (i : Nat) : Py σ UInt8 :=
  match data[i]? with
  | some b => pure b
  | none => throw .indexError

def config (data : Bytes) : Py USBTransport Unit := do
  let tag ← SephUSBConfig.ofValue (← item data 0)
  match tag with
  | .connect =>
    if (← get).state = .disconnected then
      modify fun t => { t with state := .addressed }
      sendSetup .setAddress 1
  | .disconnect =>
    modify fun t => { t with state := .disconnected }
    configHook tag
  | .addr =>
    if (← get).state = .addressed then
      modify fun t => { t with state := .configured }
      sendSetup .setConfiguration 1
  | .endpoints =>
    -- once the endpoint is configured, queued packets can be sent
    let endpoint ← item data 2
    if endpoint.toNat = (← get).endpointOut then modify flushPackets

def prepare (data : Bytes) : Py USBTransport (Option Bytes) := do
  let header ← usbHeaderParse (data.take 3)
  let tag ← SephUSBPrepare.ofValue header.tag
  if tag = .dirIn ∧ header.endpoint.toNat = (← get).endpointIn then
    if header.length.toNat ≠ usbSize then
      throw (.valueError "Header length does not match USB_SIZE")
    else prepareHook (data.drop usbHeaderSizeof)
  else return none

end USBTransport

end Speculos.Transport
