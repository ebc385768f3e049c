import Speculos.Lib.Memory

/-!
# The Ledger transport protocol on the device

The functions of `ledger_protocol.c` over `ledger_protocol_t`. The handle is
kept in two halves: `process_apdu_chunk` reads and writes the receive half
only, `LEDGER_PROTOCOL_tx` the transmit half only, and `LEDGER_PROTOCOL_rx`
both. Pointers to buffers are `Region`s, `tx_apdu_buffer` is the caller's byte
string or `NULL`, and the 16-bit and 8-bit counters keep their width. A packet
is the byte string its pointer and 16-bit length denote; `NULL` handles and
packets, which every caller excludes, have no counterpart, and the sizes
subtracted from the chunk buffer's are naturals, every caller's buffer having
64 bytes or more. `mtu_negotiated` is read by no function and left out.

The format both ends agree on: channel, tag, sequence number, the total
length in packet number 0 only, then data. The senders and receivers of the
emulator and of the device are related to these packets, not to each other.
-/

namespace Speculos.Protocol

open Lib

inductive ApduStatus
  | waiting
  | needMoreData
  | complete
  deriving DecidableEq, Repr

def tagGetProtocolVersion : UInt8 := 0x00
def tagAllocateChannel : UInt8 := 0x01
def tagPing : UInt8 := 0x02
def tagApdu : UInt8 := 0x05
def tagMtu : UInt8 := 0x08

def protocolVersion : Bytes := [0x00, 0x00, 0x00, 0x00]

/-- The fields of `ledger_protocol_t` that reassemble a command. -/
structure RxState where
  type : UInt8
  rxApduBuffer : Region
  rxApduBufferSize : UInt16
  rxApduStatus : ApduStatus
  rxApduSequenceNumber : UInt16
  rxApduLength : UInt16
  rxApduOffset : UInt16

/-- The fields of `ledger_protocol_t` that cut a response into chunks. -/
structure TxState where
  txApduBuffer : Option Bytes
  txApduLength : UInt16
  txApduSequenceNumber : UInt16
  txApduOffset : UInt16
  txChunkBuffer : Region
  txChunkBufferSize : UInt8
  txChunkLength : UInt8
  mtu : UInt16

structure LedgerProtocol extends RxState, TxState

-- ---------------------------------------------------------------------------
-- Receiving
-- ---------------------------------------------------------------------------

namespace RxState

/-- The part of `process_apdu_chunk` after the header: clamp, copy, and
complete or wait for the next chunk. -/
def storeChunk (h : RxState) (data : Bytes) : RxState :=
  let length : UInt16 :=
    if h.rxApduOffset.toNat + data.length > h.rxApduLength.toNat then
      h.rxApduLength - h.rxApduOffset
    else UInt16.ofNat data.length
  let h := { h with
    rxApduBuffer := h.rxApduBuffer.memcpy (1 + h.rxApduOffset.toNat) data length.toNat
    rxApduOffset := h.rxApduOffset + length }
  if h.rxApduOffset = h.rxApduLength then
    { h with
      rxApduLength := h.rxApduLength + 1 -- include the type
      rxApduSequenceNumber := 0
      rxApduStatus := .complete }
  else
    { h with
      rxApduSequenceNumber := h.rxApduSequenceNumber + 1
      rxApduStatus := .needMoreData }

/-- A chunk with sequence number 0: total length, then data. -/
def firstChunk (h : RxState) : Bytes → RxState
  | l0 :: l1 :: data =>
    -- the type byte is stored before the declared length is checked
    let h := { h with
      rxApduBuffer := h.rxApduBuffer.store 0 h.type
      rxApduStatus := .needMoreData
      rxApduLength := UInt16.ofNat (fromBE [l0, l1]) }
    if h.rxApduLength > h.rxApduBufferSize then
      { h with rxApduStatus := .waiting, rxApduLength := h.rxApduBufferSize }
    else storeChunk { h with rxApduOffset := 0 } data
  | _ => { h with rxApduStatus := .waiting }

def processApduChunk (h : RxState) : Bytes → RxState
  | s0 :: s1 :: body =>
    if fromBE [s0, s1] ≠ h.rxApduSequenceNumber.toNat then
      { h with rxApduStatus := .waiting }
    else if h.rxApduSequenceNumber = 0 then h.firstChunk body
    else h.storeChunk body
  | _ => { h with rxApduStatus := .waiting }

end RxState

namespace TxState

/-- The two statements of `LEDGER_PROTOCOL_rx` before the switch: the chunk
buffer is cleared and the channel identifier copied into it. -/
def copyChannel (h : TxState) (packet : Bytes) : TxState :=
  { h with txChunkBuffer :=
      (h.txChunkBuffer.memset 0 0 h.txChunkBufferSize.toNat).memcpy 0 packet 2 }

def replyProtocolVersion (h : TxState) : TxState :=
  let length := min protocolVersion.length (h.txChunkBufferSize.toNat - 3)
  { h with
    txChunkBuffer :=
      (h.txChunkBuffer.store 2 tagGetProtocolVersion).memcpy 3 protocolVersion length
    txChunkLength := UInt8.ofNat length + 3 }

def replyAllocateChannel (h : TxState) : TxState :=
  { h with txChunkBuffer := h.txChunkBuffer.store 2 tagAllocateChannel, txChunkLength := 3 }

def replyPing (h : TxState) (packet : Bytes) : TxState :=
  let length := min h.txChunkBufferSize.toNat packet.length
  { h with
    txChunkBuffer := h.txChunkBuffer.memcpy 0 packet length
    txChunkLength := UInt8.ofNat length }

def replyMtu (h : TxState) : TxState :=
  let mtu := h.mtu - 2
  let reply : Bytes := [tagMtu, 0x00, 0x00, 0x00, 0x01, UInt8.ofNat mtu.toNat]
  -- bytes 4 and 5 are overwritten by the 16-bit field written last
  { h with
    txChunkBuffer := (h.txChunkBuffer.memcpy 2 reply 6).storeBE16 4 mtu.toNat
    txChunkLength := 8 }

end TxState

namespace LedgerProtocol

def init (h : LedgerProtocol) (type : UInt8) : LedgerProtocol :=
  { h with rxApduStatus := .waiting, rxApduSequenceNumber := 0, type := type }

/-- `LEDGER_PROTOCOL_rx`. The length argument has 16 bits, so only that many
bytes of the packet are seen. -/
def rx (h : LedgerProtocol) (buffer : Bytes) : LedgerProtocol :=
  let packet := buffer.take (buffer.length % 65536)
  match packet with
  | _ :: _ :: tag :: chunk =>
    let h := { h with toTxState := h.toTxState.copyChannel packet }
    if tag = tagGetProtocolVersion then { h with toTxState := h.toTxState.replyProtocolVersion }
    else if tag = tagAllocateChannel then { h with toTxState := h.toTxState.replyAllocateChannel }
    else if tag = tagPing then { h with toTxState := h.toTxState.replyPing packet }
    else if tag = tagApdu then { h with toRxState := h.toRxState.processApduChunk chunk }
    else if tag = tagMtu then { h with toTxState := h.toTxState.replyMtu }
    else h
  | _ => h

def rxAll (h : LedgerProtocol) (packets : List Bytes) : LedgerProtocol :=
  packets.foldl rx h

end LedgerProtocol

-- ---------------------------------------------------------------------------
-- Transmitting
-- ---------------------------------------------------------------------------

namespace TxState

/-- The opening of `LEDGER_PROTOCOL_tx`: a new buffer starts a new response. -/
def txStart (h : TxState) (buffer : Option Bytes) (length : UInt16) : TxState :=
  let h := match buffer with
    | some data => { h with
        txApduBuffer := some data
        txApduLength := length
        txApduSequenceNumber := 0
        txApduOffset := 0 }
    | none => h
  { h with txChunkBuffer := h.txChunkBuffer.memset 2 0 (h.txChunkBufferSize.toNat - 2) }

/-- The header of a chunk, and the offset after it. The channel identifier
has been filled in before. -/
def txHeader (h : TxState) : TxState × Nat :=
  let buffer := (h.txChunkBuffer.store 2 tagApdu).storeBE16 3 h.txApduSequenceNumber.toNat
  if h.txApduSequenceNumber = 0 then
    ({ h with txChunkBuffer := buffer.storeBE16 5 h.txApduLength.toNat }, 7)
  else ({ h with txChunkBuffer := buffer }, 5)

/-- The data of a chunk: as much as the `mtu` leaves room for, or all that
remains, which ends the response. -/
def txData (h : TxState) (data : Bytes) (txChunkOffset : Nat) : TxState :=
  let rest := data.drop h.txApduOffset.toNat
  if h.txApduLength.toNat + txChunkOffset > h.mtu.toNat + h.txApduOffset.toNat then
    let length := h.mtu.toNat - txChunkOffset
    { h with
      txChunkBuffer := h.txChunkBuffer.memcpy txChunkOffset rest length
      txApduOffset := h.txApduOffset + UInt16.ofNat length
      txApduSequenceNumber := h.txApduSequenceNumber + 1
      txChunkLength := UInt8.ofNat h.mtu.toNat }
  else
    let length := h.txApduLength.toNat - h.txApduOffset.toNat
    { h with
      txChunkBuffer := h.txChunkBuffer.memcpy txChunkOffset rest length
      txApduOffset := h.txApduLength
      txApduBuffer := none
      txChunkLength := UInt8.ofNat (txChunkOffset + length) }

/-- `LEDGER_PROTOCOL_tx`; `none` is the `NULL` buffer that asks for the next
chunk of the response in progress. -/
def tx (h : TxState) (buffer : Option Bytes) (length : UInt16) : TxState :=
  match buffer.or h.txApduBuffer with
  | none => h
  | some data =>
    let (h, txChunkOffset) := (h.txStart buffer length).txHeader
    h.txData data txChunkOffset

/-- `LEDGER_PROTOCOL_tx(NULL, 0)` until `tx_apdu_buffer` is `NULL`: the handle
after each call, or `none` if `fuel` calls do not reach the end. -/
def txDrain (h : TxState) : Nat → Option (List TxState)
  | 0 => if h.txApduBuffer = none then some [] else none
  | fuel + 1 =>
    if h.txApduBuffer = none then some []
    else (txDrain (h.tx none 0) fuel).map (h.tx none 0 :: ·)

/-- A whole response: `LEDGER_PROTOCOL_tx(buffer, length)` and the calls that
follow it, with the handle after each of them. -/
def txAll (h : TxState) (response : Bytes) (fuel : Nat) : Option (List TxState) :=
  let first := h.tx (some response) (UInt16.ofNat response.length)
  (first.txDrain fuel).map (first :: ·)

end TxState

-- ---------------------------------------------------------------------------
-- The handles in use
-- ---------------------------------------------------------------------------

def osIoBufferSize : Nat := 272
def osIoPacketTypeUsbHidApdu : UInt8 := 0x20
def osIoPacketTypeNfcApdu : UInt8 := 0x40

/-- A zeroed handle with its buffers attached, then `LEDGER_PROTOCOL_init`. -/
def LedgerProtocol.setUp (chunkBufferSize : Nat) (type : UInt8) : LedgerProtocol :=
  LedgerProtocol.init
    { type := 0
      rxApduBuffer := .zeroed
      rxApduBufferSize := UInt16.ofNat (osIoBufferSize + 1)
      rxApduStatus := .waiting
      rxApduSequenceNumber := 0
      rxApduLength := 0
      rxApduOffset := 0
      txApduBuffer := none
      txApduLength := 0
      txApduSequenceNumber := 0
      txApduOffset := 0
      txChunkBuffer := .zeroed
      txChunkBufferSize := UInt8.ofNat chunkBufferSize
      txChunkLength := 0
      mtu := UInt16.ofNat chunkBufferSize } type

def usbdLedgerHidInit : LedgerProtocol := .setUp 0x40 osIoPacketTypeUsbHidApdu

def nfcLedgerStart : LedgerProtocol := .setUp (156 + 2) osIoPacketTypeNfcApdu

end Speculos.Protocol

-- ---------------------------------------------------------------------------
-- The packets of the Ledger transport protocol
-- ---------------------------------------------------------------------------

namespace Speculos.Protocol

open Lib

/-- Packet number `seq` of a message of `total` bytes. -/
def frame (channel total seq : Nat) (data : Bytes) : Bytes :=
  be16 channel ++ tagApdu :: (be16 seq ++ ((if seq = 0 then be16 total else []) ++ data))

/-- The packets for the data chunks `ds`, numbered from `seq` on. -/
def frames (channel total : Nat) : Nat → List Bytes → List Bytes
  | _, [] => []
  | seq, d :: ds => frame channel total seq d :: frames channel total (seq + 1) ds

theorem length_frame (channel total seq : Nat) (data : Bytes) :
    (frame channel total seq data).length = (if seq = 0 then 7 else 5) + data.length := by
  by_cases h : seq = 0 <;> simp [frame, h] <;> omega

theorem frame_pos (channel total : Nat) {seq : Nat} (data : Bytes) (h : seq ≠ 0) :
    frame channel total seq data = be16 channel ++ tagApdu :: (be16 seq ++ data) := by
  simp [frame, h]

theorem frame_append (channel total seq : Nat) (data pad : Bytes) :
    frame channel total seq (data ++ pad) = frame channel total seq data ++ pad := by
  simp [frame]

@[simp] theorem frames_nil (channel total seq : Nat) : frames channel total seq [] = [] := rfl

@[simp] theorem frames_cons (channel total seq : Nat) (d : Bytes) (ds : List Bytes) :
    frames channel total seq (d :: ds) =
      frame channel total seq d :: frames channel total (seq + 1) ds := rfl

@[simp] theorem length_frames (channel total seq : Nat) (ds : List Bytes) :
    (frames channel total seq ds).length = ds.length := by
  induction ds generalizing seq with
  | nil => rfl
  | cons d ds ih => simp [ih]

theorem getElem?_frames (channel total seq i : Nat) (ds : List Bytes) :
    (frames channel total seq ds)[i]? = ds[i]?.map (frame channel total (seq + i)) := by
  induction ds generalizing seq i with
  | nil => simp
  | cons d ds ih =>
    cases i with
    | zero => rfl
    | succ i => simp [ih, Nat.add_assoc, Nat.add_comm 1]

theorem frames_append (channel total seq : Nat) (ds es : List Bytes) :
    frames channel total seq (ds ++ es) =
      frames channel total seq ds ++ frames channel total (seq + ds.length) es := by
  induction ds generalizing seq with
  | nil => simp
  | cons d ds ih => simp [ih, Nat.add_assoc, Nat.add_comm 1]

/-- Numbered from `seq` on, the packets of these chunks have 16-bit numbers and
16-bit lengths. -/
def Sendable (seq : Nat) (ds : List Bytes) : Prop :=
  seq + ds.length ≤ 65536 ∧ ∀ d ∈ ds, d.length + 7 < 65536

namespace Sendable

instance (seq : Nat) (ds : List Bytes) : Decidable (Sendable seq ds) :=
  inferInstanceAs (Decidable (_ ∧ _))

variable {seq : Nat} {d : Bytes} {ds : List Bytes}

theorem head (h : Sendable seq (d :: ds)) : d.length + 7 < 65536 := h.2 d (by simp)

theorem number (h : Sendable seq (d :: ds)) : seq < 65536 := by
  have := h.1
  rw [List.length_cons] at this
  omega

theorem tail (h : Sendable seq (d :: ds)) : Sendable (seq + 1) ds := by
  refine ⟨?_, fun e he => h.2 e (by simp [he])⟩
  have := h.1
  rw [List.length_cons] at this
  omega

theorem cons (h : Sendable (seq + 1) ds) (hd : d.length + 7 < 65536) : Sendable seq (d :: ds) := by
  refine ⟨?_, ?_⟩
  · have := h.1
    rw [List.length_cons]
    omega
  · intro e he
    rcases List.mem_cons.mp he with rfl | he
    · exact hd
    · exact h.2 e he

theorem take (h : Sendable seq ds) (k : Nat) : Sendable seq (ds.take k) := by
  refine ⟨?_, fun e he => h.2 e (List.mem_of_mem_take he)⟩
  have := h.1
  rw [List.length_take]
  omega

theorem drop (h : Sendable 0 ds) {k : Nat} (hk : k ≤ 65536) : Sendable k (ds.drop k) := by
  refine ⟨?_, fun e he => h.2 e (List.mem_of_mem_drop he)⟩
  have := h.1
  rw [List.length_drop]
  omega

end Sendable

end Speculos.Protocol
