import Speculos.Lib.Lts
import Speculos.Seph.Descriptor

/-!
# The seph calls

`sys_os_io_seph_tx` and `sys_os_io_seph_se_rx_event` of `io.c`. The state holds
`G_seph_info` and both directions of the descriptor. A null pointer is `none`;
other buffers are the bytes to be sent or a region of memory. A call that does
not return, because it blocks or ends the process, is `none`. The time-out and
`check_se_event`, which are not looked at, and what `catch_touch_info_from_seph`
keeps of a packet are left out.

`os_io_tx_cmd` for packets of type `OS_IO_PACKET_TYPE_SEPH` and `os_io_rx_evt` of
`os_io.c`, in the build of the emulator (USB and no BLE or NFC). A command that
is sent while an event is waited for makes the layer read the event first and
keep it in `G_io_seph_buffer`, which is also the buffer for events that are read.
What becomes of an USB or an ITC event is a parameter.
-/

namespace Speculos.Seph.Io

open Lib

def osIoSephBufferSize : Nat := 272

def osIoFlagCache : Nat := 1

def osIoPacketTypeSeph : UInt8 := 0x01

inductive State
  | idle
  | waitEvent
  | sendCmd
  deriving DecidableEq, Repr

structure SephInfo where
  txPacketLength : Nat
  txPacketOffset : Nat
  txPacketMaxLength : Nat
  txPacketTag : UInt8
  state : State
  rxPacketLength : Nat
  rxPacketMaxLength : Nat
  rxPacket : Region

def SephInfo.initial : SephInfo where
  state := .sendCmd
  txPacketTag := 0
  txPacketLength := 0
  txPacketOffset := 0
  txPacketMaxLength := osIoSephBufferSize
  rxPacketLength := 0
  rxPacketMaxLength := osIoSephBufferSize
  rxPacket := .zeroed

structure St where
  info : SephInfo
  outgoing : Bytes
  incoming : Bytes

def St.initial (incoming : Bytes) : St := { info := .initial, outgoing := [], incoming }

def isStatus (tag : UInt8) : Bool := tag &&& 0x60 == 0x60

-- ---------------------------------------------------------------------------
-- Sending
-- ---------------------------------------------------------------------------

/-- `length` more bytes of the packet are sent. -/
def SephInfo.advanced (info : SephInfo) (length : Nat) : SephInfo :=
  let txPacketOffset := info.txPacketOffset + length
  if txPacketOffset = info.txPacketLength then
    -- whole packet sent
    { info with
      txPacketOffset
      txPacketLength := 0
      txPacketTag := 0
      state := if isStatus info.txPacketTag then .waitEvent else info.state }
  else { info with txPacketOffset }

/-- A piece of the packet in progress. What `writeall` returns is not looked at. -/
def sephTxPiece (s : St) (buffer : Bytes) (answers : List Answer) : Option (St × Int) :=
  if s.info.txPacketOffset + buffer.length > s.info.txPacketLength then some (s, -24)
  else do
    let w ← writeall answers buffer s.outgoing
    return ({ s with outgoing := w.stream, info := s.info.advanced buffer.length },
      (buffer.length : Int))

/-- Start of the packet. The packet length has 16 bits. -/
def sephTxStart (s : St) (answers : List Answer) : Bytes → Option (St × Int)
  | tag :: hi :: lo :: rest =>
    let txPacketLength := (fromBE [hi, lo] + 3) % 65536
    if txPacketLength > s.info.txPacketMaxLength then
      some ({ s with info := { s.info with txPacketLength := 0 } }, -25)
    else
      sephTxPiece
        { s with info := { s.info with txPacketLength, txPacketTag := tag, txPacketOffset := 0 } }
        (tag :: hi :: lo :: rest) answers
  | _ => some (s, -23)

def sysOsIoSephTx (s : St) (answers : List Answer) : Option Bytes → Option (St × Int)
  | none => some (s, -22)
  | some [] => some (s, -22)
  | some (b :: rest) =>
    if s.info.state = .waitEvent then
      -- a status was sent before: a new one is ignored
      if s.info.txPacketLength = 0 ∧ isStatus b then some (s, ((b :: rest).length : Int))
      else some (s, -1)
    else if s.info.txPacketLength = 0 then sephTxStart s answers (b :: rest)
    else sephTxPiece s (b :: rest) answers

-- ---------------------------------------------------------------------------
-- Receiving
-- ---------------------------------------------------------------------------

/-- The body of a packet of which the header was read, handed over to the caller. -/
def sephRxBody (s : St) (buffer : Region) (r : Read) (body : List Answer) :
    Option (St × Region × Int) := do
  let length := fromBE [r.buf.cell 1, r.buf.cell 2]
  let r' ← readall body r.stream r.buf 3 length
  if r'.ret < 0 then none -- `_exit`
  else
    return (
      { s with
        incoming := r'.stream
        info := { s.info with
          rxPacket := r'.buf, rxPacketLength := length + 3, state := .sendCmd
          txPacketLength := 0 } },
      (buffer.store 0 osIoPacketTypeSeph).memcpy 1 (r'.buf.slice 0 (length + 3)) (length + 3),
      (length + 3 + 1 : Int))

/-- A packet is read: the header first, and the body if it fits. -/
def sephRxPacket (s : St) (buffer : Region) (header body : List Answer) :
    Option (St × Region × Int) := do
  let r ← readall header s.incoming s.info.rxPacket 0 3
  if r.ret < 0 then none -- `_exit`
  else if fromBE [r.buf.cell 1, r.buf.cell 2] > s.info.rxPacketMaxLength - 3 then
    return (
      { s with
        incoming := r.stream
        info := { s.info with
          rxPacket := r.buf, rxPacketLength := fromBE [r.buf.cell 1, r.buf.cell 2] } },
      buffer, -12)
  else sephRxBody s buffer r body

/-- `sys_os_io_seph_se_rx_event` on a buffer that is not null. -/
def sephRx (s : St) (buffer : Region) (maxLength flags : Nat) (header body : List Answer) :
    Option (St × Region × Int) :=
  if maxLength < s.info.rxPacketMaxLength then some (s, buffer, -26)
  else if flags &&& osIoFlagCache ≠ 0 then
    some (s, buffer.memcpy 0 (s.info.rxPacket.slice 0 s.info.rxPacketLength) s.info.rxPacketLength,
      (s.info.rxPacketLength : Int))
  else if s.info.state ≠ .waitEvent then some (s, buffer, -1)
  else sephRxPacket s buffer header body

def sysOsIoSephSeRxEvent (s : St) (buffer : Option Region) (maxLength flags : Nat)
    (header body : List Answer) : Option (St × Option Region × Int) :=
  match buffer with
  | none => some (s, none, -26)
  | some buffer =>
    (sephRx s buffer maxLength flags header body).map fun (s, buffer, ret) => (s, some buffer, ret)

inductive Call
  | tx (buffer : Option Bytes) (answers : List Answer)
  | rx (buffer : Option Region) (maxLength flags : Nat) (header body : List Answer)

/-- A call, with what it returns. -/
def call (s : St) : Call → Option (St × Int)
  | .tx buffer answers => sysOsIoSephTx s answers buffer
  | .rx buffer maxLength flags header body =>
    (sysOsIoSephSeRxEvent s buffer maxLength flags header body).map fun (s, _, ret) => (s, ret)

def step (s : St) (a : Call) : Option St := (call s a).map fun result => result.1

-- ---------------------------------------------------------------------------
-- What a call can do
-- ---------------------------------------------------------------------------

/-- The state when a piece is checked against the packet in progress: a first
piece has set its length and its tag. -/
inductive Opened (s : St) : Bytes → St → Prop
  | first (hstate : s.info.state ≠ .waitEvent) (hlength : s.info.txPacketLength = 0)
    (hmax : (fromBE [hi, lo] + 3) % 65536 ≤ s.info.txPacketMaxLength) :
    Opened s (tag :: hi :: lo :: rest)
      { s with info := { s.info with
        txPacketLength := (fromBE [hi, lo] + 3) % 65536, txPacketTag := tag, txPacketOffset := 0 } }
  | further (hstate : s.info.state ≠ .waitEvent) (hlength : s.info.txPacketLength ≠ 0) :
    Opened s buffer s

theorem sysOsIoSephTx_cases (h : sysOsIoSephTx s answers buffer = some (s', ret)) :
    s' = s ∨ ∃ bytes s₁, buffer = some bytes ∧ Opened s bytes s₁ ∧
      sephTxPiece s₁ bytes answers = some (s', ret) := by
  rcases buffer with _ | _ | ⟨b, rest⟩
  · cases h
    exact .inl rfl
  · cases h
    exact .inl rfl
  · rw [sysOsIoSephTx] at h
    split at h
    · split at h
      · cases h
        exact .inl rfl
      · cases h
        exact .inl rfl
    · rename_i hstate
      split at h
      · rename_i hlength
        rcases rest with _ | ⟨hi, _ | ⟨lo, rest⟩⟩
        · cases h
          exact .inl rfl
        · cases h
          exact .inl rfl
        · rw [sephTxStart] at h
          split at h
          · cases h
            rw [← hlength]
            exact .inl rfl
          · rename_i hmax
            exact .inr ⟨_, _, rfl, .first hstate hlength (Nat.le_of_not_lt hmax), h⟩
      · rename_i hlength
        exact .inr ⟨_, s, rfl, .further hstate hlength, h⟩

theorem sephTxPiece_cases (h : sephTxPiece s buffer answers = some (s', ret)) :
    s.info.txPacketLength < s.info.txPacketOffset + buffer.length ∧ s' = s ∨
      s.info.txPacketOffset + buffer.length ≤ s.info.txPacketLength ∧
        ret = (buffer.length : Int) ∧ ∃ w, writeall answers buffer s.outgoing = some w ∧
        s' = { s with outgoing := w.stream, info := s.info.advanced buffer.length } := by
  rw [sephTxPiece] at h
  split at h
  · rename_i hlt
    cases h
    exact .inl ⟨hlt, rfl⟩
  · rename_i hle
    obtain ⟨w, hw, h⟩ := Option.bind_eq_some_iff.mp h
    cases h
    exact .inr ⟨Nat.le_of_not_lt hle, rfl, w, hw, rfl⟩

/-- The call comes to read a packet from the descriptor. -/
def ReadsPacket (s : St) (maxLength flags : Nat) : Prop :=
  s.info.rxPacketMaxLength ≤ maxLength ∧ flags &&& osIoFlagCache = 0 ∧ s.info.state = .waitEvent

instance (s : St) (maxLength flags : Nat) : Decidable (ReadsPacket s maxLength flags) :=
  inferInstanceAs (Decidable (_ ∧ _ ∧ _))

theorem sephRx_cases (h : sephRx s buffer maxLength flags header body = some (s', buffer', ret)) :
    s' = s ∧ buffer' = buffer ∨
      s.info.rxPacketMaxLength ≤ maxLength ∧ s' = s ∧
        buffer' = buffer.memcpy 0 (s.info.rxPacket.slice 0 s.info.rxPacketLength)
          s.info.rxPacketLength ∨
      ReadsPacket s maxLength flags ∧ sephRxPacket s buffer header body =
        some (s', buffer', ret) := by
  rw [sephRx] at h
  split at h
  · cases h
    exact .inl ⟨rfl, rfl⟩
  · rename_i hmax
    split at h
    · cases h
      exact .inr (.inl ⟨Nat.le_of_not_lt hmax, rfl, rfl⟩)
    · rename_i hflags
      split at h
      · cases h
        exact .inl ⟨rfl, rfl⟩
      · rename_i hstate
        exact .inr (.inr ⟨⟨Nat.le_of_not_lt hmax, not_not.mp hflags, not_not.mp hstate⟩, h⟩)

theorem sephRx_of_readsPacket (h : ReadsPacket s maxLength flags) :
    sephRx s buffer maxLength flags header body = sephRxPacket s buffer header body := by
  obtain ⟨hmax, hflags, hstate⟩ := h
  rw [sephRx, if_neg (Nat.not_lt.mpr hmax), if_neg (not_not.mpr hflags),
    if_neg (not_not.mpr hstate)]

theorem sephRxPacket_cases (h : sephRxPacket s buffer header body = some (s', buffer', ret)) :
    ∃ r, readall header s.incoming s.info.rxPacket 0 3 = some r ∧ 0 ≤ r.ret ∧
      (s.info.rxPacketMaxLength - 3 < fromBE [r.buf.cell 1, r.buf.cell 2] ∧ buffer' = buffer ∧
          s' = { s with
            incoming := r.stream
            info := { s.info with
              rxPacket := r.buf, rxPacketLength := fromBE [r.buf.cell 1, r.buf.cell 2] } } ∨
        fromBE [r.buf.cell 1, r.buf.cell 2] ≤ s.info.rxPacketMaxLength - 3 ∧
          sephRxBody s buffer r body = some (s', buffer', ret)) := by
  obtain ⟨r, hr, h⟩ := Option.bind_eq_some_iff.mp h
  split at h
  · cases h
  · rename_i hret
    refine ⟨r, hr, Int.not_lt.mp hret, ?_⟩
    split at h
    · rename_i hlt
      cases h
      exact .inl ⟨hlt, rfl, rfl⟩
    · rename_i hle
      exact .inr ⟨Nat.le_of_not_lt hle, h⟩

theorem sephRxBody_cases (h : sephRxBody s buffer r body = some (s', buffer', ret)) :
    ∃ r', readall body r.stream r.buf 3 (fromBE [r.buf.cell 1, r.buf.cell 2]) = some r' ∧
      0 ≤ r'.ret ∧ ret = (fromBE [r.buf.cell 1, r.buf.cell 2] + 3 + 1 : Int) ∧
      buffer' = (buffer.store 0 osIoPacketTypeSeph).memcpy 1
        (r'.buf.slice 0 (fromBE [r.buf.cell 1, r.buf.cell 2] + 3))
        (fromBE [r.buf.cell 1, r.buf.cell 2] + 3) ∧
      s' = { s with
        incoming := r'.stream
        info := { s.info with
          rxPacket := r'.buf, rxPacketLength := fromBE [r.buf.cell 1, r.buf.cell 2] + 3
          state := .sendCmd, txPacketLength := 0 } } := by
  obtain ⟨r', hr', h⟩ := Option.bind_eq_some_iff.mp h
  split at h
  · cases h
  · rename_i hret
    cases h
    exact ⟨r', hr', Int.not_lt.mp hret, rfl, rfl, rfl⟩

theorem call_rx_cases (h : call s (.rx buffer maxLength flags header body) = some (s', ret)) :
    s' = s ∨ ∃ region buffer', buffer = some region ∧
      sephRx s region maxLength flags header body = some (s', buffer', ret) := by
  rw [call] at h
  obtain ⟨⟨s₂, buffer₂, ret₂⟩, hrx, h⟩ := Option.map_eq_some_iff.mp h
  cases h
  rcases buffer with _ | region
  · cases hrx
    exact .inl rfl
  · obtain ⟨⟨s₃, buffer₃, ret₃⟩, hrx, h⟩ := Option.map_eq_some_iff.mp hrx
    cases h
    exact .inr ⟨region, buffer₃, rfl, hrx⟩

end Speculos.Seph.Io

-- ---------------------------------------------------------------------------
-- The IO layer
-- ---------------------------------------------------------------------------

namespace Speculos.Seph.OsIo

open Lib Io

structure St where
  io : Io.St
  /-- `G_io_seph_buffer`. -/
  sephBuffer : Region
  /-- `G_io_seph_buffer_size`, which is 0 where no event is kept. -/
  sephBufferSize : Nat

def St.initial (incoming : Bytes) : St :=
  { io := .initial incoming, sephBuffer := .zeroed, sephBufferSize := 0 }

def osIoFlagNoItc : Nat := 2

/-- `sizeof(G_io_seph_buffer)`. -/
def sephBufferLength : Nat := osIoSephBufferSize + 1

/-- `os_io_seph_se_rx_event` into `G_io_seph_buffer`. -/
def seRxEvent (s : St) (flags : Nat) (header body : List Answer) : Option (St × Int) := do
  let (io, sephBuffer, status) ← sephRx s.io s.sephBuffer sephBufferLength flags header body
  return ({ s with io, sephBuffer }, status)

/-- What the kernel answers to a command: to its first `write`, to the reads of
an event, and to the `write` after them. -/
structure CmdAnswers where
  write : List Answer
  header : List Answer
  body : List Answer
  rewrite : List Answer

def osIoTxCmd (s : St) (buffer : Bytes) (answers : CmdAnswers) : Option (St × Int) := do
  let (io, status) ← sysOsIoSephTx s.io answers.write (some buffer)
  let s := { s with io }
  if status = -1 then
    -- wrong state, wait for an event from the MCU
    let (s, status) ← seRxEvent s osIoFlagNoItc answers.header answers.body
    if status ≥ 0 then
      let s := { s with sephBufferSize := status.toNat }
      let (io, status) ← sysOsIoSephTx s.io answers.rewrite (some buffer)
      return ({ s with io }, status)
    else return (s, status)
  else return (s, status)

def sephIoGeneralStatus : Bytes := [0x60, 0, 2, 0, 0]

def osIoSephCmdGeneralStatus (s : St) (answers : CmdAnswers) : Option (St × Int) :=
  osIoTxCmd s sephIoGeneralStatus answers

/-- What the kernel answers while an event is fetched: to the reads of an event,
to a general status, and to the reads after it. -/
structure EvtAnswers where
  header : List Answer
  body : List Answer
  status : CmdAnswers
  header' : List Answer
  body' : List Answer

/-- The first half of `os_io_rx_evt`: the event that is kept, or the next one. -/
def fetchEvent (s : St) (answers : EvtAnswers) : Option (St × Int) :=
  if s.sephBufferSize ≠ 0 then some ({ s with sephBufferSize := 0 }, (s.sephBufferSize : Int))
  else do
    let (s, status) ← seRxEvent s 0 answers.header answers.body
    if status = -1 then
      -- wrong state, send a command to the MCU
      let (s, status) ← osIoSephCmdGeneralStatus s answers.status
      if status < 0 then return (s, status)
      else seRxEvent s 0 answers.header' answers.body'
    else return (s, status)

/-- The length of an event, cut to the buffer of the caller. -/
def clipped (length bufferMaxLength : Nat) : Nat :=
  if bufferMaxLength ≤ length + 1 then (bufferMaxLength + 65535) % 65536 else length

/-- The tags of the events that are not handed over as they are. -/
def IsUsb (tag : UInt8) : Prop := tag = 0x0F ∨ tag = 0x10

def IsCapdu (tag : UInt8) : Prop := tag = 0x16

def IsItc (tag : UInt8) : Prop := tag = 0x1A

instance (tag : UInt8) : Decidable (IsUsb tag) := inferInstanceAs (Decidable (_ ∨ _))

instance (tag : UInt8) : Decidable (IsCapdu tag) := inferInstanceAs (Decidable (_ = _))

instance (tag : UInt8) : Decidable (IsItc tag) := inferInstanceAs (Decidable (_ = _))

section
variable (usbdLedgerRxSephEvt processItcEvent : St → Region → Nat → Option (St × Region × Int))

/-- The second half of `os_io_rx_evt`, on an event of `status` bytes. -/
def handOver (s : St) (buffer : Region) (bufferMaxLength : Nat) (status : Int) :
    Option (St × Region × Int) :=
  let tag := s.sephBuffer.cell 1
  let length := clipped status.toNat bufferMaxLength
  if IsUsb tag then usbdLedgerRxSephEvt s buffer bufferMaxLength
  else if IsCapdu tag then
    some (s, (buffer.store 0 0x10).memcpy 1 (s.sephBuffer.slice 4 length) length,
      (length : Int) - 3)
  else if IsItc tag then
    processItcEvent s (buffer.memcpy 0 (s.sephBuffer.slice 0 length) length) length
  else some (s, buffer.memcpy 0 (s.sephBuffer.slice 0 length) length, status)

def osIoRxEvt (s : St) (buffer : Region) (bufferMaxLength : Nat) (answers : EvtAnswers) :
    Option (St × Region × Int) := do
  let (s, status) ← fetchEvent s answers
  if status < 0 then return (s, buffer, status)
  else handOver usbdLedgerRxSephEvt processItcEvent s buffer bufferMaxLength status

-- ---------------------------------------------------------------------------
-- Runs
-- ---------------------------------------------------------------------------

inductive Call
  | txCmd (buffer : Bytes) (answers : CmdAnswers)
  | rxEvt (buffer : Region) (bufferMaxLength : Nat) (answers : EvtAnswers)

/-- The state and the events that were returned by `os_io_rx_evt`. -/
structure World where
  st : St
  returned : List Bytes

def World.initial (incoming : Bytes) : World := { st := .initial incoming, returned := [] }

def step (w : World) : Call → Option World
  | .txCmd buffer answers => do
    let (st, _) ← osIoTxCmd w.st buffer answers
    return { w with st }
  | .rxEvt buffer bufferMaxLength answers => do
    let (st, buffer, status) ←
      osIoRxEvt usbdLedgerRxSephEvt processItcEvent w.st buffer bufferMaxLength answers
    let event := if status > 0 then [buffer.slice 0 status.toNat] else []
    return { st, returned := w.returned ++ event }

end

end Speculos.Seph.OsIo
