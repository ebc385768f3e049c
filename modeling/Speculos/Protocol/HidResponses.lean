import Speculos.Lib.Lts
import Speculos.Protocol.Ledger
import Mathlib.Data.List.Forall2
import Speculos.Protocol.TxAlike

/-!
# The responses sent over USB HID

The functions of `usbd_ledger_hid.c` that send a response: `send_packet` sends
its first chunk, and `data_in`, called when the host has taken a chunk, the
next one. `USBD_LL_Transmit` passes on 64 bytes of the chunk buffer and returns
`USBD_OK`, the endpoint being a valid one. Of `pdev` only `dev_state` is read,
and of it only whether it is `USBD_STATE_CONFIGURED`; `NULL` arguments have no
counterpart. The requests of the control endpoint and the fields they use are
left out.

`send_packet` gives a packet to the protocol before it looks whether it can be
sent, so that a refused packet replaces what is left of the response in
progress. Where every refused packet leaves the same chunks to come (`Spares`),
the chunks transmitted are those of the accepted packets, one packet after the
other, and a refused call has no effect on what is transmitted later.
-/

namespace Speculos.Protocol

open Lib

inductive UsbdStatus
  | ok
  | busy
  | fail
  deriving DecidableEq, Repr

inductive LedgerHidState
  | idle
  | busy
  deriving DecidableEq, Repr

structure LedgerHid where
  state : LedgerHidState
  protocolData : LedgerProtocol

def ledgerHidEpinSize : Nat := 0x40

namespace LedgerHid

/-- `USBD_LEDGER_HID_init`. The chunk buffer is a global one, which is attached
with what it holds. -/
def init (chunkBuffer : Region) : LedgerHid :=
  { state := .idle, protocolData := { usbdLedgerHidInit with txChunkBuffer := chunkBuffer } }

/-- `LEDGER_PROTOCOL_tx` on `protocol_data`. -/
def tx (h : LedgerHid) (buffer : Option Bytes) (length : UInt16) : LedgerHid :=
  { h with protocolData :=
      { h.protocolData with toTxState := h.protocolData.toTxState.tx buffer length } }

/-- What `USBD_LL_Transmit` is given. -/
def chunk (h : LedgerHid) : Bytes := h.protocolData.txChunkBuffer.slice 0 ledgerHidEpinSize

/-- The end of `data_in`: nothing is left of the response. -/
def settle (h : LedgerHid) : LedgerHid :=
  if h.protocolData.txApduBuffer.isNone then
    { state := .idle, protocolData := { h.protocolData with txChunkLength := 0 } }
  else h

/-- `USBD_LEDGER_HID_data_in`, with the chunks it transmits. -/
def dataIn (h : LedgerHid) : LedgerHid × List Bytes :=
  if h.protocolData.txApduBuffer.isSome then
    let h := h.tx none 0
    if h.protocolData.txChunkLength ≥ 2 then ({ h with state := .busy }.settle, [h.chunk])
    else (h.settle, [])
  else (h.settle, [])

/-- `USBD_LEDGER_HID_send_packet`, with the chunks it transmits. The packet is
given to the protocol before anything is checked. -/
def sendPacket (h : LedgerHid) (configured : Bool) (packet : Bytes) :
    LedgerHid × List Bytes × UsbdStatus :=
  let h := h.tx (some packet) (UInt16.ofNat packet.length)
  if configured then
    if h.state = .idle then
      if h.protocolData.txChunkLength ≥ 2 then ({ h with state := .busy }, [h.chunk], .ok)
      else (h, [], .fail)
    else (h, [], .busy)
  else (h, [], .fail)

def isBusy (h : LedgerHid) : Bool := h.state = .busy

-- ---------------------------------------------------------------------------
-- Runs
-- ---------------------------------------------------------------------------

inductive Call
  | sendPacket (packet : Bytes) (configured : Bool)
  | dataIn

/-- The handle, the packets for which `send_packet` returned `USBD_OK` and the
chunks given to `USBD_LL_Transmit`. -/
structure World where
  handle : LedgerHid
  accepted : List Bytes
  transmitted : List Bytes

def World.initial (chunkBuffer : Region) : World :=
  { handle := .init chunkBuffer, accepted := [], transmitted := [] }

def step (w : World) : Call → Option World
  | .sendPacket packet configured =>
    let (handle, chunks, status) := w.handle.sendPacket configured packet
    some {
      handle
      accepted := if status = .ok then w.accepted ++ [packet] else w.accepted
      transmitted := w.transmitted ++ chunks }
  | .dataIn =>
    let (handle, chunks) := w.handle.dataIn
    some { w with handle, transmitted := w.transmitted ++ chunks }

end LedgerHid

end Speculos.Protocol

-- ---------------------------------------------------------------------------
-- The responses sent over USB HID
-- ---------------------------------------------------------------------------

namespace Speculos.Protocol.LedgerHid

open Lib

-- ---------------------------------------------------------------------------
-- What a call does
-- ---------------------------------------------------------------------------

def sender (h : LedgerHid) : TxState := h.protocolData.toTxState

variable {h g : LedgerHid} {channel : Bytes}

/-- The same after `LEDGER_PROTOCOL_tx(packet, packet_length)`. -/
def opened (h : LedgerHid) (packet : Bytes) : TxState :=
  h.sender.tx (some packet) (UInt16.ofNat packet.length)

theorem isBusy_iff (h : LedgerHid) : h.isBusy ↔ h.state ≠ .idle := by
  rw [isBusy]
  cases h.state <;> decide

theorem sendPacket_accepted (hh : h.sender.Attached channel) (hidle : ¬ h.isBusy)
    (packet : Bytes) :
    h.sendPacket true packet =
      ({ h.tx (some packet) (UInt16.ofNat packet.length) with state := .busy },
        [(h.opened packet).paddedPacket 64], .ok) := by
  rw [isBusy_iff, not_not] at hidle
  have hlen : (h.tx (some packet) (UInt16.ofNat packet.length)).protocolData.txChunkLength ≥ 2 :=
    (hh.tx_some_attached packet _).2
  have hstate : (h.tx (some packet) (UInt16.ofNat packet.length)).state = .idle := hidle
  rw [sendPacket]
  dsimp only
  rw [if_pos rfl, if_pos hstate, if_pos hlen]
  rfl

theorem sendPacket_refused (configured : Bool) (hrefused : ¬ (configured ∧ ¬ h.isBusy))
    (packet : Bytes) :
    h.sendPacket configured packet =
      (h.tx (some packet) (UInt16.ofNat packet.length), [],
        if configured then .busy else .fail) := by
  rw [sendPacket]
  cases configured with
  | false => rfl
  | true =>
    have hstate : (h.tx (some packet) (UInt16.ofNat packet.length)).state ≠ .idle := by
      rw [← isBusy_iff]
      exact not_not.mp fun hidle => hrefused ⟨rfl, hidle⟩
    rw [if_pos rfl, if_neg hstate]
    rfl

theorem dataIn_none (hnone : h.sender.txApduBuffer = none) : h.dataIn = (h.settle, []) := by
  rw [sender] at hnone
  rw [dataIn, hnone]
  rfl

theorem dataIn_some (hh : h.sender.Attached channel) (hbuf : h.sender.txApduBuffer = some data) :
    h.dataIn =
      ({ h.tx none 0 with state := .busy }.settle, [(h.sender.tx none 0).paddedPacket 64]) := by
  have hlen : (h.tx none 0).protocolData.txChunkLength ≥ 2 := (TxState.tx_none_cases hbuf hh).2
  have hsome : h.protocolData.txApduBuffer.isSome := Option.isSome_iff_exists.mpr ⟨data, hbuf⟩
  rw [dataIn, if_pos hsome]
  dsimp only
  rw [if_pos hlen]
  rfl

theorem settle_none (hnone : h.sender.txApduBuffer = none) :
    h.settle = { state := .idle, protocolData := { h.protocolData with txChunkLength := 0 } } := by
  rw [sender] at hnone
  rw [settle, hnone]
  rfl

theorem settle_some (hbuf : h.sender.txApduBuffer = some data) : h.settle = h := by
  rw [sender] at hbuf
  rw [settle, hbuf]
  rfl

-- ---------------------------------------------------------------------------
-- Calls on handles that send the same chunks
-- ---------------------------------------------------------------------------

structure Alike (channel : Bytes) (h g : LedgerHid) : Prop where
  state : h.state = g.state
  sender : TxState.Alike channel h.sender g.sender

theorem Alike.settle (ha : Alike channel h g) : Alike channel h.settle g.settle := by
  cases hbuf : h.sender.txApduBuffer with
  | none =>
    rw [settle_none hbuf, settle_none (ha.sender.none hbuf)]
    obtain ⟨hh, hg, -⟩ := ha.sender
    exact ⟨rfl, ⟨hh.mtu, hh.chunkSize, hh.channel⟩, ⟨hg.mtu, hg.chunkSize, hg.channel⟩,
      .inl ⟨hbuf, ha.sender.none hbuf⟩⟩
  | some data =>
    obtain ⟨data', hbuf'⟩ := ha.sender.some hbuf
    rw [settle_some hbuf, settle_some hbuf']
    exact ha

theorem Alike.dataIn (ha : Alike channel h g) :
    Alike channel h.dataIn.1 g.dataIn.1 ∧ h.dataIn.2 = g.dataIn.2 := by
  cases hbuf : h.sender.txApduBuffer with
  | none =>
    rw [dataIn_none hbuf, dataIn_none (ha.sender.none hbuf)]
    exact ⟨ha.settle, rfl⟩
  | some data =>
    obtain ⟨data', hbuf'⟩ := ha.sender.some hbuf
    obtain ⟨hnext, hchunk⟩ := ha.sender.tx_none hbuf
    rw [dataIn_some ha.sender.left hbuf, dataIn_some ha.sender.right hbuf', hchunk]
    exact ⟨Alike.settle ⟨rfl, hnext⟩, rfl⟩

theorem Alike.isBusy_eq (ha : Alike channel h g) : h.isBusy = g.isBusy := by
  rw [isBusy, isBusy, ha.state]

theorem Alike.sendPacket (ha : Alike channel h g) (configured : Bool) (packet : Bytes) :
    Alike channel (h.sendPacket configured packet).1 (g.sendPacket configured packet).1 ∧
      (h.sendPacket configured packet).2 = (g.sendPacket configured packet).2 := by
  obtain ⟨hopen, hchunk⟩ :=
    ha.sender.left.tx_some ha.sender.right packet (UInt16.ofNat packet.length)
  by_cases hidle : configured ∧ ¬ h.isBusy
  · obtain ⟨rfl, hidle⟩ := hidle
    rw [sendPacket_accepted ha.sender.left hidle,
      sendPacket_accepted ha.sender.right (ha.isBusy_eq ▸ hidle)]
    exact ⟨⟨rfl, hopen⟩, by rw [opened, opened, hchunk]⟩
  · rw [sendPacket_refused configured hidle,
      sendPacket_refused configured (ha.isBusy_eq ▸ hidle)]
    exact ⟨⟨ha.state, hopen⟩, rfl⟩

theorem step_sendPacket (w : World) (packet : Bytes) (configured : Bool) :
    step w (.sendPacket packet configured) = some {
      handle := (w.handle.sendPacket configured packet).1
      accepted := if (w.handle.sendPacket configured packet).2.2 = .ok then w.accepted ++ [packet]
        else w.accepted
      transmitted := w.transmitted ++ (w.handle.sendPacket configured packet).2.1 } := rfl

theorem step_dataIn (w : World) :
    step w .dataIn = some { w with
      handle := w.handle.dataIn.1
      transmitted := w.transmitted ++ w.handle.dataIn.2 } := rfl

structure World.Alike (channel : Bytes) (w v : World) : Prop where
  handle : LedgerHid.Alike channel w.handle v.handle
  accepted : w.accepted = v.accepted
  transmitted : w.transmitted = v.transmitted

theorem step_alike {w v : World} (ha : w.Alike channel v) (a : Call) :
    Option.Rel (World.Alike channel) (step w a) (step v a) := by
  cases a with
  | sendPacket packet configured =>
    obtain ⟨hhandle, hsame⟩ := ha.handle.sendPacket configured packet
    obtain ⟨hchunks, hstatus⟩ := Prod.ext_iff.mp hsame
    rw [step_sendPacket, step_sendPacket, hstatus, hchunks, ha.accepted, ha.transmitted]
    exact .some ⟨hhandle, rfl, rfl⟩
  | dataIn =>
    obtain ⟨hhandle, hchunks⟩ := ha.handle.dataIn
    rw [step_dataIn, step_dataIn, hchunks, ha.accepted, ha.transmitted]
    exact .some ⟨hhandle, rfl, rfl⟩

/-- The packets accepted and the chunks transmitted in a run. -/
def outcome (w : World) (as : List Call) : Option (List Bytes × List Bytes) :=
  (exec step w as).map fun t => (t.accepted, t.transmitted)

theorem outcome_alike {w v : World} (ha : w.Alike channel v) (as : List Call) :
    outcome w as = outcome v as := by
  refine map_exec_eq_of_rel (fun w v a ha => step_alike ha a) (fun w v ha => ?_) ha as
  rw [ha.accepted, ha.transmitted]

-- ---------------------------------------------------------------------------
-- The invariant
-- ---------------------------------------------------------------------------

/-- One chunk of a response has been sent, and the packet has the same length and
the same bytes after the 57 of this chunk. -/
def Repeats (h : TxState) (packet : Bytes) : Prop :=
  h.txApduSequenceNumber = 1 ∧ h.txApduOffset = 57 ∧ h.txApduLength.toNat = packet.length ∧
    57 < packet.length ∧ h.txApduBuffer.map (·.drop 57) = some (packet.drop 57)

/-- The call is accepted, or its packet leaves the same chunks to come: none where
none were left, or those of the response in progress. -/
def Spares (w : World) : Call → Prop
  | .sendPacket packet configured =>
    (configured ∧ ¬ w.handle.isBusy) ∨
      (w.handle.sender.txApduBuffer = none ∧ packet.length ≤ 57) ∨ Repeats w.handle.sender packet
  | .dataIn => True

/-- The length fits in `packet_length`. -/
def Sized : Call → Prop
  | .sendPacket packet _ => 1 ≤ packet.length ∧ packet.length ≤ 65535
  | .dataIn => True

instance (h : TxState) (packet : Bytes) : Decidable (Repeats h packet) :=
  inferInstanceAs (Decidable (_ ∧ _ ∧ _ ∧ _ ∧ _))

instance (w : World) : ∀ a, Decidable (Spares w a)
  | .sendPacket packet configured => inferInstanceAs (Decidable ((configured ∧ ¬ w.handle.isBusy) ∨
      (w.handle.sender.txApduBuffer = none ∧ packet.length ≤ 57) ∨ Repeats w.handle.sender packet))
  | .dataIn => inferInstanceAs (Decidable True)

instance : ∀ a, Decidable (Sized a)
  | .sendPacket packet _ => inferInstanceAs (Decidable (1 ≤ packet.length ∧ packet.length ≤ 65535))
  | .dataIn => inferInstanceAs (Decidable True)

theorem toNat_packetLength {packet : Bytes} (hlen : packet.length ≤ 65535) :
    (UInt16.ofNat packet.length).toNat = packet.length := by
  rw [UInt16.toNat_ofNat', Nat.mod_eq_of_lt (by omega)]

theorem opened_alike_of_short {packet : Bytes} (hh : h.sender.Attached channel)
    (hnone : h.sender.txApduBuffer = none) (hshort : packet.length ≤ 57) :
    TxState.Alike channel h.sender (h.opened packet) := by
  refine ⟨hh, (hh.tx_some_attached packet _).1, .inl ⟨hnone, ?_⟩⟩
  refine hh.tx_some_short packet ?_
  rw [toNat_packetLength (by omega)]
  exact hshort

theorem opened_alike_of_repeats {packet : Bytes} (hh : h.sender.Attached channel)
    (hlen : packet.length ≤ 65535) (hrepeats : Repeats h.sender packet) :
    TxState.Alike channel h.sender (h.opened packet) := by
  obtain ⟨hnumber, hoffset, hlength, hlong, hrest⟩ := hrepeats
  obtain ⟨hbuf', hlength', hnumber', hoffset'⟩ :=
    hh.tx_some_long packet (show 57 < (UInt16.ofNat packet.length).toNat by
      rwa [toNat_packetLength hlen])
  refine ⟨hh, (hh.tx_some_attached packet _).1, .inr ⟨?_, ?_, ?_, ?_⟩⟩
  · rw [opened, hlength', ← UInt16.toNat_inj, hlength, toNat_packetLength hlen]
  · rw [opened, hnumber', hnumber]
  · rw [opened, hoffset', hoffset]
  · rw [opened, hbuf', hoffset', hoffset]
    exact hrest

theorem refused_alike {w w' : World} (hh : w.handle.sender.Attached channel)
    (hsized : Sized (.sendPacket packet configured))
    (hspares : Spares w (.sendPacket packet configured))
    (hrefused : ¬ (configured ∧ ¬ w.handle.isBusy))
    (h : step w (.sendPacket packet configured) = some w') : w.Alike channel w' := by
  have hopened : TxState.Alike channel w.handle.sender (w.handle.opened packet) := by
    rcases hspares with haccepted | ⟨hnone, hshort⟩ | hrepeats
    · exact absurd haccepted hrefused
    · exact opened_alike_of_short hh hnone hshort
    · exact opened_alike_of_repeats hh hsized.2 hrepeats
  rw [step_sendPacket, sendPacket_refused configured hrefused] at h
  cases h
  refine ⟨⟨rfl, hopened⟩, ?_, ?_⟩
  · cases configured <;> rfl
  · exact (List.append_nil _).symm

/-- The chunks transmitted are the whole sequences of the packets accepted, but
for what is `unsent` of the last one. -/
structure SentWhole (start : TxState) (w : World) (sequences : List (List Bytes))
    (unsent : List Bytes) : Prop where
  whole : List.Forall₂ start.Whole w.accepted sequences
  sent : w.transmitted ++ unsent = sequences.flatten
  last : unsent = [] ∨ ∃ sent, sent ≠ [] ∧ sequences.getLast? = some (sent ++ unsent)

/-- The chunks that are unsent are those that the handle will put out. -/
structure Serving (start : TxState) (channel : Bytes) (w : World) (sequences : List (List Bytes))
    (unsent : List Bytes) : Prop where
  attached : w.handle.sender.Attached channel
  sentWhole : SentWhole start w sequences unsent
  drains : w.handle.sender.Drains unsent
  idle : ¬ w.handle.isBusy → unsent = []

theorem SentWhole.accept {start : TxState} {w : World} (hs : SentWhole start w sequences [])
    (hwhole : start.Whole packet (c :: rest)) (handle : LedgerHid) :
    SentWhole start
      { handle := handle, accepted := w.accepted ++ [packet], transmitted := w.transmitted ++ [c] }
      (sequences ++ [c :: rest]) rest where
  whole := List.rel_append hs.whole (.cons hwhole .nil)
  sent := by
    have hsent := hs.sent
    rw [List.append_nil] at hsent
    simp [hsent]
  last := .inr ⟨[c], List.cons_ne_nil _ _, by simp⟩

theorem SentWhole.next {start : TxState} {w : World}
    (hs : SentWhole start w sequences (c :: rest)) (handle : LedgerHid) :
    SentWhole start { w with handle := handle, transmitted := w.transmitted ++ [c] }
      sequences rest where
  whole := hs.whole
  sent := by
    rw [← hs.sent]
    simp
  last := by
    rcases hs.last with hnil | ⟨sent, -, hlast⟩
    · cases hnil
    · exact .inr ⟨sent ++ [c], by simp, by rw [hlast]; simp⟩

theorem settle_sender (hh : h.sender.Attached channel) (hd : h.sender.Drains unsent) :
    h.settle.sender.Attached channel ∧ h.settle.sender.Drains unsent ∧
      (¬ h.settle.isBusy → h.state = .busy → unsent = []) := by
  cases hbuf : h.sender.txApduBuffer with
  | none =>
    obtain rfl := (TxState.drains_none hbuf).mp hd
    rw [settle_none hbuf]
    exact ⟨⟨hh.mtu, hh.chunkSize, hh.channel⟩, (TxState.drains_none (by exact hbuf)).mpr rfl,
      fun _ _ => rfl⟩
  | some data =>
    rw [settle_some hbuf]
    refine ⟨hh, hd, fun hidle hbusy => ?_⟩
    rw [isBusy_iff, hbusy] at hidle
    exact absurd (by decide) hidle

theorem Serving.of_alike {start : TxState} {w w' : World}
    (hw : Serving start channel w sequences unsent) (ha : w.Alike channel w') :
    Serving start channel w' sequences unsent where
  attached := ha.handle.sender.right
  sentWhole :=
    ⟨ha.accepted ▸ hw.sentWhole.whole, ha.transmitted ▸ hw.sentWhole.sent, hw.sentWhole.last⟩
  drains := ha.handle.sender.drains hw.drains
  idle := ha.handle.isBusy_eq ▸ hw.idle

theorem Serving.accept {start : TxState} {w w' : World} (hstart : start.Attached channel)
    (hw : Serving start channel w sequences unsent) (hsized : Sized (.sendPacket packet true))
    (hidle : ¬ w.handle.isBusy) (h : step w (.sendPacket packet true) = some w') :
    ∃ sequences' unsent', Serving start channel w' sequences' unsent' := by
  obtain rfl := hw.idle hidle
  obtain ⟨chunks, hwhole⟩ := hstart.exists_whole packet hsized.1 hsized.2
  obtain ⟨rest, rfl, hdrains⟩ := hwhole.cases
  obtain ⟨halike, hchunk⟩ := hstart.tx_some hw.attached packet (UInt16.ofNat packet.length)
  rw [step_sendPacket, sendPacket_accepted hw.attached hidle] at h
  cases h
  rw [hchunk] at hwhole
  exact ⟨_, rest, halike.right, hw.sentWhole.accept hwhole _, halike.drains hdrains,
    fun hbusy => absurd rfl hbusy⟩

theorem Serving.dataIn {start : TxState} {w w' : World}
    (hw : Serving start channel w sequences unsent) (h : step w .dataIn = some w') :
    ∃ unsent', Serving start channel w' sequences unsent' := by
  rw [step_dataIn] at h
  cases hbuf : w.handle.sender.txApduBuffer with
  | none =>
    obtain rfl := (TxState.drains_none hbuf).mp hw.drains
    obtain ⟨hattached, hdrains, -⟩ := settle_sender hw.attached hw.drains
    rw [dataIn_none hbuf, List.append_nil] at h
    cases h
    exact ⟨[], hattached, ⟨hw.sentWhole.whole, hw.sentWhole.sent, .inl rfl⟩, hdrains, fun _ => rfl⟩
  | some data =>
    obtain ⟨rest, rfl, hrest⟩ := (TxState.drains_some hbuf).mp hw.drains
    rw [dataIn_some hw.attached hbuf] at h
    cases h
    obtain ⟨hattached, hdrains, hidle⟩ := settle_sender
      (h := { w.handle.tx none 0 with state := .busy })
      (TxState.tx_none_cases hbuf hw.attached).1 hrest
    exact ⟨rest, hattached, hw.sentWhole.next _, hdrains, fun hbusy => hidle hbusy rfl⟩

theorem step_serving {start : TxState} {w w' : World} (hstart : start.Attached channel)
    (hw : Serving start channel w sequences unsent) (hsized : Sized a) (hspares : Spares w a)
    (h : step w a = some w') :
    ∃ sequences' unsent', Serving start channel w' sequences' unsent' := by
  cases a with
  | sendPacket packet configured =>
    by_cases haccepted : configured ∧ ¬ w.handle.isBusy
    · obtain ⟨rfl, hidle⟩ := haccepted
      exact hw.accept hstart hsized hidle h
    · exact ⟨sequences, unsent,
        hw.of_alike (refused_alike hw.attached hsized hspares haccepted h)⟩
  | dataIn => exact ⟨sequences, hw.dataIn h⟩

theorem initial_serving (chunkBuffer : Region) :
    (LedgerHid.init chunkBuffer).sender.Attached (chunkBuffer.slice 0 2) ∧
      Serving (LedgerHid.init chunkBuffer).sender (chunkBuffer.slice 0 2) (.initial chunkBuffer)
        [] [] := by
  have hattached : (LedgerHid.init chunkBuffer).sender.Attached (chunkBuffer.slice 0 2) :=
    ⟨rfl, rfl, rfl⟩
  exact ⟨hattached, hattached, ⟨.nil, rfl, .inl rfl⟩, (TxState.drains_none rfl).mpr rfl,
    fun _ => rfl⟩

/-- In every run without a refused packet that replaces what is left of a
response: the chunks transmitted are those of the packets accepted, in order and
whole but for the last, and a refused call changes nothing of what any further
calls transmit. -/
theorem sendPacket_sentWhole (chunkBuffer : Region) (as : List Call) (w : World)
    (hcalls : Guarded step (fun w a => Sized a ∧ Spares w a) (.initial chunkBuffer) as)
    (hw : exec step (.initial chunkBuffer) as = some w) :
    (∃ sequences unsent, SentWhole (LedgerHid.init chunkBuffer).sender w sequences unsent) ∧
      ∀ packet configured w', Sized (.sendPacket packet configured) →
        Spares w (.sendPacket packet configured) →
        step w (.sendPacket packet configured) = some w' →
        (w.handle.sendPacket configured packet).2.2 ≠ .ok →
        ∀ later, outcome w' later = outcome w later := by
  obtain ⟨hstart, hinitial⟩ := initial_serving chunkBuffer
  obtain ⟨sequences, unsent, hserving⟩ : ∃ sequences unsent,
      Serving (LedgerHid.init chunkBuffer).sender (chunkBuffer.slice 0 2) w sequences unsent := by
    refine exec_invariant_of_guarded (I := fun w => ∃ sequences unsent,
      Serving (LedgerHid.init chunkBuffer).sender (chunkBuffer.slice 0 2) w sequences unsent)
      ?_ ⟨[], [], hinitial⟩ hcalls hw
    rintro w a w' ⟨sequences, unsent, hserving⟩ ⟨hsized, hspares⟩ h
    exact step_serving hstart hserving hsized hspares h
  refine ⟨⟨sequences, unsent, hserving.sentWhole⟩, ?_⟩
  intro packet configured w' hsized hspares h hrefused later
  have hidle : ¬ (configured ∧ ¬ w.handle.isBusy) := by
    rintro ⟨rfl, hidle⟩
    rw [sendPacket_accepted hserving.attached hidle] at hrefused
    exact hrefused rfl
  exact (outcome_alike (refused_alike hserving.attached hsized hspares hidle h) later).symm

/-- A response of two chunks that is sent again after the first one, and a short
packet before the device is configured. -/
theorem sendPacket_sentWhole_again :
    ∃ w w', exec step (.initial .zeroed) [.sendPacket (List.replicate 58 1) true,
        .sendPacket (List.replicate 58 1) true, .dataIn] = some w ∧
      step w (.sendPacket [2] false) = some w' ∧
      (∃ sequences unsent, SentWhole (LedgerHid.init .zeroed).sender w sequences unsent) ∧
      ∀ later, outcome w' later = outcome w later := by
  obtain ⟨hsent, hsame⟩ := sendPacket_sentWhole .zeroed [.sendPacket (List.replicate 58 1) true,
    .sendPacket (List.replicate 58 1) true, .dataIn] _ (by decide) rfl
  exact ⟨_, _, rfl, rfl, hsent, hsame [2] false _ (by decide) (by decide) rfl (by decide)⟩

/-- Two responses of two chunks, the second one refused. -/
def twoResponses : List Call :=
  [.sendPacket (List.replicate 58 1) true, .sendPacket (List.replicate 58 2) true, .dataIn]

/-- The second chunk transmitted is that of the response that was refused. -/
theorem sendPacket_mixed :
    ∃ w, Guarded step (fun _ a => Sized a) (.initial .zeroed) twoResponses ∧
      exec step (.initial .zeroed) twoResponses = some w ∧
      ¬ ∃ sequences unsent, SentWhole (LedgerHid.init .zeroed).sender w sequences unsent := by
  refine ⟨_, by decide, rfl, ?_⟩
  rintro ⟨sequences, unsent, hwhole, hsent, -⟩
  have hone : List.Forall₂ (LedgerHid.init .zeroed).sender.Whole [List.replicate 58 1] sequences :=
    hwhole
  obtain ⟨chunks, _, hchunks, hnil, rfl⟩ := List.forall₂_cons_left_iff.mp hone
  obtain rfl := List.forall₂_nil_left_iff.mp hnil
  obtain ⟨rest, rfl, hrest⟩ := hchunks.cases
  have hlong : 57 < (UInt16.ofNat (List.replicate 58 (1 : UInt8)).length).toNat := by decide
  have hbuf := ((initial_serving .zeroed).1.tx_some_long (List.replicate 58 1) hlong).1
  obtain ⟨rest, rfl, -⟩ := (TxState.drains_some hbuf).mp hrest
  -- the first data byte of the second chunk
  have hbyte := congrArg (fun chunks => chunks[1]?.bind (·[5]?)) hsent
  have heq : some (2 : UInt8) = some 1 := hbyte
  exact absurd heq (by decide)

end Speculos.Protocol.LedgerHid
