import Speculos.Exchange.Emulator
import Speculos.Usbd.Ctlreq

/-!
# The application's end of the connection

`os_io_rx_evt` and `os_io_tx_cmd` of `os_io.c` over the USB device, with an
application that waits for a command, answers it with a response and waits for
the next one. What the application does with a command is a function of its own
state. `G_io_seph_buffer` keeps behind a packet what it held before, and is where
`os_io_tx_cmd` has the events handled that it waits for: what comes of them is lost
to the application.

A state of the party is one in which `os_io_rx_evt` waits for a packet. The
`GENERAL_STATUS` it sends for it is left out, as are the events of other kinds
than the USB ones, for which the application is given the packet.
-/

namespace Speculos.Exchange

open Lib Protocol Usbd
open Emulator (outEvent inEvent prepareIn prepareOut outXfer xferEvent)

/-- `sizeof(G_io_seph_buffer)` and that of the buffer of the application. -/
def ioBufferSize : Nat := osIoBufferSize + 1

/-- Who waits for an event: the application, or `os_io_tx_cmd` for the one after `count`. -/
inductive Phase
  | application
  | sending (count : Nat)
  deriving DecidableEq, Repr

structure Application (σ : Type) where
  device : Device
  sephBuffer : Bytes
  phase : Phase
  state : σ
  received : List Bytes
  /-- The stack has looked behind its tables. -/
  failed : Bool

namespace Application

variable {σ : Type}

def start (info : DescInfo) (state : σ) : Application σ :=
  { device := { Device.started info with sent := [] }
    sephBuffer := List.replicate ioBufferSize 0
    phase := .application
    state
    received := []
    failed := false }

/-- `memcpy` to the beginning of the buffer. -/
def overwrite (buffer data : Bytes) : Bytes := data ++ buffer.drop data.length

/-- `os_io_rx_evt` on the packet that comes: its status, and what it puts into the
buffer it is given. -/
def rxEvt (a : Application σ) (packet : Bytes) : Option (Application σ × Int × Bytes) :=
  let sephBuffer := overwrite a.sephBuffer (0x01 :: packet)
  let a := { a with sephBuffer }
  if packet.getD 0 0 = 0x0F ∨ packet.getD 0 0 = 0x10 then
    (a.device.rxSephEvt sephBuffer (packet.length + 1) ioBufferSize).map
      fun (device, status, data) => ({ a with device }, status, data)
  else some (a, packet.length + 1, 0x01 :: packet)

/-- The loop of `os_io_tx_cmd`, after `count` events. -/
def wait (a : Application σ) (count : Nat) : Application σ :=
  { a with phase := if count < 5 ∧ a.device.isBusy then .sending count else .application }

/-- The application has been given `data`, which is a command if its type says so. -/
def give (handle : σ → Bytes → σ × Bytes) (a : Application σ) : Bytes → Application σ
  | type :: command =>
    if type = osIoPacketTypeUsbHidApdu then
      let (state, response) := handle a.state command
      { a with
        state
        received := a.received ++ [command]
        device := a.device.hidSendPacket response }.wait 0
    else a
  | [] => a

/-- What becomes of the outcome of `os_io_rx_evt`. -/
def take (handle : σ → Bytes → σ × Bytes) (a : Application σ) (status : Int) (data : Bytes) :
    Application σ :=
  match a.phase with
  | .application => if status > 0 then a.give handle data else a
  | .sending count => { a with sephBuffer := overwrite a.sephBuffer data }.wait (count + 1)

/-- What the calls of `os_io_tx_cmd` have sent. -/
def flush (a : Application σ) : Application σ × List Bytes :=
  ({ a with device := { a.device with sent := [] } }, a.device.sent)

def recv (handle : σ → Bytes → σ × Bytes) (a : Application σ) (packet : Bytes) :
    Application σ × List Bytes :=
  if a.failed then (a, [])
  else
    match a.rxEvt packet with
    | none => ({ a with failed := true }, [])
    | some (a, status, data) => (a.take handle status data).flush

def party (handle : σ → Bytes → σ × Bytes) : Party (Application σ) Bytes Bytes :=
  { act := fun _ => none, recv := recv handle }

-- ---------------------------------------------------------------------------
-- The stack
-- ---------------------------------------------------------------------------

variable {d : Device} {h : LedgerHid}

theorem transmitChunks_eq (chunks : List Bytes) (d : Device) (hlen : ∀ c ∈ chunks, c.length = 64) :
    d.transmitChunks chunks = { d with sent := d.sent ++ chunks.map prepareIn } := by
  induction chunks generalizing d with
  | nil => simp [Device.transmitChunks]
  | cons c chunks ih =>
    obtain ⟨hc, hlen⟩ := List.forall_mem_cons.mp hlen
    have hone : d.llTransmit ledgerHidEpinAddr c ledgerHidEpinSize =
        { d with sent := d.sent ++ [prepareIn c] } := by
      show d.tx (prepareIn (c.take 64)) = _
      rw [List.take_of_length_le hc.le]
      rfl
    have hrest := ih { d with sent := d.sent ++ [prepareIn c] } hlen
    simp only [Device.transmitChunks] at hrest
    simp only [Device.transmitChunks, List.foldl_cons, hone, hrest, List.map_cons,
      List.append_assoc, List.cons_append, List.nil_append]

theorem rxSephEvt_out (hd : d.devState = .configured) {packet : Bytes} (hlen : packet.length = 54)
    (rest : Bytes) :
    d.rxSephEvt (0x01 :: (outEvent packet ++ rest)) 61 ioBufferSize =
      some ((d.hidDataOut packet).dataReady ioBufferSize) := by
  have hevent : 0x01 :: (outEvent packet ++ rest) =
      0x01 :: 0x10 :: 0 :: 57 :: 0x02 :: 0x04 :: 54 :: (packet ++ rest) := by
    simp [outEvent, outXfer, xferEvent, sephPacket, hlen, be16]
  have htake : (packet ++ rest).take 54 = packet := by
    rw [← hlen, List.take_left]
  have hnum : ((0x02 : UInt8) &&& 0x7F).toNat < ioUsbMaxEndpoints := by decide
  rw [hevent, Device.rxSephEvt]
  simp only [List.getD_cons_succ, List.getD_cons_zero, List.drop_succ_cons, List.drop_zero]
  have hmin : (min ((54 : UInt8).toNat : Int) (((61 : Nat) : Int) - 6) % 2 ^ 16).toNat = 54 := by
    decide
  rw [if_neg (by decide), if_pos trivial, if_neg (by decide), if_neg (by decide), if_pos trivial,
    if_pos hnum, hmin, htake, Device.llDataOutStage, if_neg (by decide), if_pos hd,
    Device.classDataOut, if_pos (by decide)]

theorem rxSephEvt_in (hd : d.devState = .configured) (header rest : Bytes) (length : Nat) :
    d.rxSephEvt (0x01 :: (inEvent header ++ rest)) length ioBufferSize =
      some (d.hidDataIn, 0, []) := by
  have hnum : ((0x02 : UInt8) &&& 0x7F).toNat < ioUsbMaxEndpoints := by decide
  rw [Device.rxSephEvt]
  simp only [inEvent, xferEvent, sephPacket, be16, List.cons_append,
    List.nil_append, List.getD_cons_succ, List.getD_cons_zero]
  rw [if_neg (by decide), if_pos trivial, if_neg (by decide), if_pos trivial, if_pos hnum,
    Device.llDataInStage, if_neg (by decide), if_pos hd, Device.classDataIn, if_pos (by decide)]

-- ---------------------------------------------------------------------------
-- Events
-- ---------------------------------------------------------------------------

variable {a : Application σ} {handle : σ → Bytes → σ × Bytes} {s : σ} {received : List Bytes}

/-- The application waits for an event, with this handle of the class. -/
structure Serves (a : Application σ) (h : LedgerHid) (s : σ) (received : List Bytes) : Prop where
  failed : a.failed = false
  devState : a.device.devState = .configured
  hid : a.device.hid.toLedgerHid = h
  sent : a.device.sent = []
  phase : h.isBusy ∨ a.phase = .application
  state : a.state = s
  received : a.received = received

theorem rxEvt_event (packet : Bytes) {data : Bytes} {status : Int} {d : Device}
    (htag : packet.getD 0 0 = 0x10)
    (hevent : a.device.rxSephEvt (0x01 :: (packet ++ a.sephBuffer.drop (packet.length + 1)))
      (packet.length + 1) ioBufferSize = some (d, status, data)) :
    a.rxEvt packet = some ({ a with
      sephBuffer := 0x01 :: (packet ++ a.sephBuffer.drop (packet.length + 1)), device := d },
      status, data) := by
  unfold rxEvt
  dsimp only
  rw [if_pos (.inr htag)]
  show (a.device.rxSephEvt (0x01 :: (packet ++ a.sephBuffer.drop (packet.length + 1))) _ _).map _ =
    _
  rw [hevent]
  rfl

theorem recv_event (hfailed : a.failed = false) {packet data : Bytes} {status : Int}
    {a' : Application σ} (hevent : a.rxEvt packet = some (a', status, data)) :
    recv handle a packet = (a'.take handle status data).flush := by
  rw [recv, hfailed, if_neg (by decide), hevent]

theorem take_zero (hphase : a.phase = .application) (data : Bytes) : a.take handle 0 data = a := by
  rw [take, hphase]
  rfl

theorem take_pos (hphase : a.phase = .application) {status : Int} (hpos : status > 0)
    (data : Bytes) : a.take handle status data = a.give handle data := by
  rw [take, hphase]
  exact if_pos hpos

theorem dataReady_more {maxLength : Nat} (hstatus : d.hid.protocolData.rxApduStatus ≠ .complete) :
    d.dataReady maxLength = (d, 0, []) := by
  rw [Device.dataReady, Device.hidDataReady, if_neg hstatus]
  rfl

theorem take_sending {count : Nat} (hphase : a.phase = .sending count) (status : Int)
    (data : Bytes) :
    a.take handle status data =
      { a with sephBuffer := overwrite a.sephBuffer data }.wait (count + 1) := by
  rw [take, hphase]

theorem give_command {command response : Bytes} {s' : σ}
    (h : handle a.state command = (s', response)) :
    a.give handle (osIoPacketTypeUsbHidApdu :: command) =
      { a with
        state := s'
        received := a.received ++ [command]
        device := a.device.hidSendPacket response }.wait 0 := by
  rw [give, if_pos rfl, h]

def accepted (d : Device) : Device :=
  d.setHid { d.hid with protocolData := { d.hid.protocolData with rxApduStatus := .waiting } }

theorem dataReady_complete (maxLength : Nat) {command : Bytes}
    (hdel : d.hid.protocolData.toRxState.Delivered command)
    (hlen : command.length + 1 ≤ maxLength) :
    d.dataReady maxLength =
      (accepted d, ((command.length + 1 : Nat) : Int), d.hid.protocolData.type :: command) := by
  have hle : ¬ maxLength < d.hid.protocolData.rxApduLength.toNat := by
    rw [hdel.length]
    omega
  rw [Device.dataReady, Device.hidDataReady, if_pos hdel.status, if_neg hle, hdel.length,
    hdel.stored]
  exact if_pos (by omega)

theorem length_outEvent {packet : Bytes} (hlen : packet.length = 54) :
    (outEvent packet).length = 60 := by
  simp [outEvent, outXfer, xferEvent, sephPacket, hlen]

theorem hidSendPacket_eq {channel : Bytes} (hdev : d.devState = .configured)
    (hattached : d.hid.toLedgerHid.sender.Attached channel) (hidle : ¬ d.hid.isBusy)
    (response : Bytes) :
    d.hidSendPacket response = { d with
      hid := { d.hid with toLedgerHid := { d.hid.toLedgerHid.tx (some response)
        (UInt16.ofNat response.length) with state := .busy } }
      sent := d.sent ++ [prepareIn ((d.hid.toLedgerHid.opened response).paddedPacket 64)]
      } := by
  have hlen : ∀ c ∈ [(d.hid.toLedgerHid.opened response).paddedPacket 64], c.length = 64 := by
    intro c hc
    rw [List.mem_singleton.mp hc]
    exact Region.length_slice ..
  rw [Device.hidSendPacket, decide_eq_true hdev, LedgerHid.sendPacket_accepted hattached hidle]
  exact transmitChunks_eq _ _ hlen

theorem give_serves {channel command response : Bytes} {s' : σ} (hfailed : a.failed = false)
    (hdev : a.device.devState = .configured)
    (hattached : a.device.hid.toLedgerHid.sender.Attached channel) (hidle : ¬ a.device.hid.isBusy)
    (hresponse : handle a.state command = (s', response)) :
    ∃ a', (a.give handle (osIoPacketTypeUsbHidApdu :: command)).flush =
        (a', a.device.sent ++
          [prepareIn ((a.device.hid.toLedgerHid.opened response).paddedPacket 64)]) ∧
      Serves a' { a.device.hid.toLedgerHid.tx (some response) (UInt16.ofNat response.length) with
        state := .busy } s' (a.received ++ [command]) := by
  rw [give_command hresponse, hidSendPacket_eq hdev hattached hidle]
  exact ⟨_, rfl, hfailed, hdev, rfl, rfl, .inl rfl, rfl, rfl⟩

theorem wait_phase (a : Application σ) (count : Nat) :
    a.device.isBusy ∨ (a.wait count).phase = .application := by
  by_cases hbusy : a.device.isBusy
  · exact .inl hbusy
  · exact .inr (if_neg fun h => hbusy h.2)

theorem take_serves (hfailed : a.failed = false) (hdev : a.device.devState = .configured) :
    ∃ a', (a.take handle 0 []).flush = (a', a.device.sent) ∧
      Serves a' a.device.hid.toLedgerHid a.state a.received := by
  cases happ : a.phase with
  | application =>
    rw [take_zero happ]
    exact ⟨_, rfl, hfailed, hdev, rfl, rfl, .inr happ, rfl, rfl⟩
  | sending count =>
    rw [take_sending happ]
    exact ⟨_, rfl, hfailed, hdev, rfl, rfl, wait_phase _ _, rfl, rfl⟩

theorem recv_frame_more (handle : σ → Bytes → σ × Bytes) (ha : Serves a h s received)
    {packet : Bytes}
    (hlen : packet.length = 54) (hmore : (h.protocolData.rx packet).rxApduStatus ≠ .complete) :
    ∃ a', recv handle a (outEvent packet) = (a', [prepareOut]) ∧
      Serves a' { h with protocolData := h.protocolData.rx packet } s received := by
  obtain ⟨hfailed, hdev, rfl, hsent, -, rfl, rfl⟩ := ha
  have hlong : (outEvent packet).length = 60 := length_outEvent hlen
  have hready : (a.device.hidDataOut packet).dataReady ioBufferSize =
      (a.device.hidDataOut packet, 0, []) := dataReady_more hmore
  have hsaid : (a.device.hidDataOut packet).sent = [prepareOut] := by
    show a.device.sent ++ [prepareOut] = _
    rw [hsent, List.nil_append]
  have hevent := rxEvt_event (a := a) (outEvent packet) rfl
    (by rw [hlong, rxSephEvt_out hdev hlen, hready])
  rw [recv_event hfailed hevent, ← hsaid]
  exact take_serves hfailed hdev

/-- The last packet of a command. The application is given the command, and the first
chunk of its response is sent. -/
theorem recv_frame_last {channel command response packet : Bytes} {s' : σ}
    (ha : Serves a h s received) (hidle : ¬ h.isBusy)
    (hlen : packet.length = 54)
    (htype : (h.protocolData.rx packet).type = osIoPacketTypeUsbHidApdu)
    (hdel : (h.protocolData.rx packet).toRxState.Delivered command)
    (hfit : command.length ≤ osIoBufferSize)
    (hattached : (h.protocolData.rx packet).toTxState.Attached channel)
    (hresponse : handle s command = (s', response)) :
    ∃ a' h', recv handle a (outEvent packet) = (a', [prepareOut,
        prepareIn (((h.protocolData.rx packet).toTxState.tx (some response)
          (UInt16.ofNat response.length)).paddedPacket 64)]) ∧
      Serves a' h' s' (received ++ [command]) ∧ h'.isBusy ∧
      h'.sender = (h.protocolData.rx packet).toTxState.tx (some response)
        (UInt16.ofNat response.length) ∧
      h'.protocolData.toRxState =
        { (h.protocolData.rx packet).toRxState with rxApduStatus := .waiting } := by
  obtain ⟨hfailed, hdev, rfl, hsent, hphase, hstate, hreceived⟩ := ha
  have hlong : (outEvent packet).length = 60 := length_outEvent hlen
  have hready : (a.device.hidDataOut packet).dataReady ioBufferSize =
      (accepted (a.device.hidDataOut packet), ((command.length + 1 : Nat) : Int),
        osIoPacketTypeUsbHidApdu :: command) := by
    have hready := dataReady_complete (d := a.device.hidDataOut packet) ioBufferSize hdel
      (Nat.succ_le_succ hfit)
    rw [hready, show (a.device.hidDataOut packet).hid.protocolData.type = osIoPacketTypeUsbHidApdu
      from htype]
  have hevent := rxEvt_event (a := a) (outEvent packet) rfl
    (by rw [hlong, rxSephEvt_out hdev hlen, hready])
  obtain ⟨a', hgive, hserves⟩ := give_serves (a := { a with
      sephBuffer := 0x01 :: (outEvent packet ++
        a.sephBuffer.drop ((outEvent packet).length + 1))
      device := accepted (a.device.hidDataOut packet) })
    hfailed hdev hattached hidle ((congrArg (handle · command) hstate).trans hresponse)
  rw [recv_event hfailed hevent, take_pos (by exact hphase.resolve_left hidle) (by omega), hgive]
  refine ⟨a', _, Prod.ext rfl ?_, hreceived ▸ hserves, rfl, rfl, rfl⟩
  show (a.device.sent ++ [prepareOut]) ++ _ = _
  rw [hsent]
  rfl

theorem length_dataIn (h : LedgerHid) : ∀ c ∈ h.dataIn.2, c.length = 64 := by
  intro c hc
  unfold LedgerHid.dataIn at hc
  split at hc
  · dsimp only at hc
    split at hc
    · rw [List.mem_singleton.mp hc]
      exact Region.length_slice ..
    · cases hc
  · cases hc

theorem hidDataIn_eq (d : Device) :
    d.hidDataIn = { d with
      hid := d.hid.dataIn.1
      sent := d.sent ++ d.hid.toLedgerHid.dataIn.2.map prepareIn } :=
  transmitChunks_eq _ _ (length_dataIn _)

theorem recv_in (handle : σ → Bytes → σ × Bytes) (ha : Serves a h s received) (header : Bytes) :
    ∃ a', recv handle a (inEvent header) =
        (a', h.dataIn.2.map prepareIn) ∧ Serves a' h.dataIn.1 s received := by
  obtain ⟨hfailed, hdev, rfl, hsent, -, rfl, rfl⟩ := ha
  have hevent := rxEvt_event (a := a) (inEvent header) rfl
    (rxSephEvt_in hdev _ _ _)
  rw [hidDataIn_eq, hsent, List.nil_append] at hevent
  rw [recv_event hfailed hevent]
  exact take_serves hfailed hdev

theorem dataIn_more {channel c : Bytes} {chunks : List Bytes}
    (hattached : h.sender.Attached channel) (hdrains : h.sender.Drains (c :: chunks)) :
    h.dataIn.2 = [c] ∧ h.dataIn.1.sender.Attached channel ∧ h.dataIn.1.sender.Drains chunks ∧
      h.dataIn.1.protocolData.toRxState = h.protocolData.toRxState := by
  cases hbuf : h.sender.txApduBuffer with
  | none => cases (TxState.drains_none hbuf).mp hdrains
  | some data =>
    obtain ⟨rest, hcons, hrest⟩ := (TxState.drains_some hbuf).mp hdrains
    cases hcons
    obtain ⟨hattached', hdrains', -⟩ := LedgerHid.settle_sender
      (h := { h.tx none 0 with state := .busy }) (TxState.tx_none_cases hbuf hattached).1 hrest
    rw [LedgerHid.dataIn_some hattached hbuf]
    refine ⟨rfl, hattached', hdrains', ?_⟩
    unfold LedgerHid.settle
    split <;> rfl

theorem dataIn_last {channel : Bytes} (hattached : h.sender.Attached channel)
    (hdrains : h.sender.Drains []) :
    h.dataIn.2 = [] ∧ ¬ h.dataIn.1.isBusy ∧ h.dataIn.1.sender.Attached channel ∧
      h.dataIn.1.protocolData.toRxState = h.protocolData.toRxState := by
  cases hbuf : h.sender.txApduBuffer with
  | none =>
    rw [LedgerHid.dataIn_none hbuf, LedgerHid.settle_none hbuf]
    exact ⟨rfl, by simp [LedgerHid.isBusy],
      ⟨hattached.mtu, hattached.chunkSize, hattached.channel⟩, rfl⟩
  | some data =>
    obtain ⟨rest, hcons, -⟩ := (TxState.drains_some hbuf).mp hdrains
    cases hcons

end Application

end Speculos.Exchange
