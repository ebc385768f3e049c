import Speculos.Api.ApduBridge
import Speculos.Lib.Network
import Speculos.Transport.Receive
import Speculos.Transport.Send
import Speculos.Transport.UsbQueue
import Speculos.Usbd.Handle

/-!
# The emulator's end of the connection

`SeProxyHal` with the HID transport and one client, as a party that takes the
packets of the device and says packets for it. The client sends a command and
waits for the response before it sends the next one; it sends the first one
after as many packets of the device as `delay` says, which is any moment of the
enumeration. An exception ends the party.

The queue of `SocketHelper` and the socket keep the order of the packets and are
the inbox of the device here. Packets that do not concern the transport are
passed over.
-/

namespace Speculos.Exchange

open Lib Protocol Transport Usbd

/-- The packet `SocketHelper.send_packet` writes. -/
def sephPacket (tag : UInt8) (data : Bytes) : Bytes := tag :: (be16 data.length ++ data)

structure Emulator where
  transport : USBTransport
  delay : Nat
  commands : List Bytes
  waiting : Bool
  responses : List Bytes
  error : Option PyError

namespace Emulator

def start (delay : Nat) (commands : List Bytes) : Emulator :=
  { transport := HID.new
    delay
    commands
    waiting := false
    responses := []
    error := none }

/-- What the calls of `send_cb` put into the queue. -/
def queued (calls : List SendCall) : List Bytes :=
  calls.map fun c => sephPacket (UInt8.ofNat c.tag.value) c.packet

def clear (t : USBTransport) : USBTransport := { t with sent := [], submitted := [] }

/-- The emulator after a call of a method of its transport, and what it says. -/
def after (e : Emulator) : EStateM.Result PyError USBTransport α → Emulator × List Bytes
  | .ok _ t => ({ e with transport := clear t }, queued t.sent)
  | .error error t => ({ e with transport := clear t, error := some error }, queued t.sent)

def toApp (e : Emulator) (packet : Bytes) : Emulator × List Bytes :=
  if packet.take 4 = Api.rawPrefix ∧ packet.length > 4 then
    let tag := packet.getD 4 0
    if tag ∈ Api.sephTags then (e, [sephPacket tag (packet.drop 5)])
    else ({ e with error := some (.valueError (toString tag ++ " is not a valid SephTag")) }, [])
  else e.after (HID.send packet e.transport)

/-- The callbacks get a response that is not empty. -/
def forward (e : Emulator) : EStateM.Result PyError USBTransport (Option Bytes) → Emulator
  | .ok (some (b :: response)) _ =>
    { e with responses := e.responses ++ [b :: response], waiting := false }
  | _ => e

/-- The branches of `can_read` for the packets of the USB stack. -/
def canRead (e : Emulator) : Bytes → Emulator × List Bytes
  | tag :: _ :: _ :: data =>
    if tag = tagUsbConfig then e.after (USBTransport.config data e.transport)
    else if tag = tagUsbEpPrepare then
      let r := USBTransport.prepare data e.transport
      (e.forward r).after r
    else (e, [])
  | _ => (e, [])

def recv (e : Emulator) (packet : Bytes) : Emulator × List Bytes :=
  if e.error = none then { e with delay := e.delay - 1 }.canRead packet else (e, [])

def act (e : Emulator) : Option (Emulator × List Bytes) :=
  if e.error = none ∧ e.waiting = false ∧ e.delay = 0 then
    match e.commands with
    | [] => none
    | command :: commands => some ({ e with commands, waiting := true }.toApp command)
  else none

def party : Party Emulator Bytes Bytes := { act, recv }

-- ---------------------------------------------------------------------------
-- The transport
-- ---------------------------------------------------------------------------

def usb (state : USBDevState) (queue : List Bytes) (hidPacket : HIDPacket) : USBTransport :=
  { subclass := .hid hidPacket, packetsToSend := queue, state, sent := [], submitted := [] }

/-- `_send_xfer` has passed on these packets. -/
def passed (t : USBTransport) (packets : List Bytes) : USBTransport :=
  { t with
    sent := t.sent ++ packets.map fun packet => ⟨.xferEvent, packet, .configured⟩
    submitted := t.submitted ++ packets }

/-- `_send_xfer` has kept them. -/
def kept (t : USBTransport) (packets : List Bytes) : USBTransport :=
  { t with
    packetsToSend := t.packetsToSend ++ packets
    submitted := t.submitted ++ packets }

theorem foldl_submit_of_configured (packets : List Bytes) (t : USBTransport)
    (h : t.state = .configured) (hq : t.packetsToSend = []) :
    packets.foldl USBTransport.submit t = passed t packets := by
  induction packets generalizing t with
  | nil => simp [passed]
  | cons packet packets ih =>
    have hone : t.submit packet = passed t [packet] := by
      simp [USBTransport.submit, USBTransport.sendXfer, USBTransport.sendCb, passed, h, hq]
    rw [List.foldl_cons, hone, ih (passed t [packet]) h hq]
    simp [passed]

theorem foldl_submit_of_not_configured (packets : List Bytes) (t : USBTransport)
    (h : t.state ≠ .configured) : packets.foldl USBTransport.submit t = kept t packets := by
  induction packets generalizing t with
  | nil => simp [kept]
  | cons packet packets ih =>
    have hone : t.submit packet = kept t [packet] := by
      simp [USBTransport.submit, USBTransport.sendXfer, kept, h]
    rw [List.foldl_cons, hone, ih (kept t [packet]) h]
    simp [kept]

variable {t : USBTransport} {p : HIDPacket}

/-- The transfer that `HID.send` makes of a packet. -/
def outXfer (packet : Bytes) : Bytes := [0x02, 0x04, UInt8.ofNat packet.length] ++ packet

theorem endpointOut_hid (ht : t.subclass = .hid p) : t.endpointOut = 0x02 := by
  rw [USBTransport.endpointOut, ht]
  show HIDEndpoint.outAddr.value ||| USBInterface.hid.value = 0x02
  decide

theorem endpointIn_hid (ht : t.subclass = .hid p) : t.endpointIn = 0x82 := by
  rw [USBTransport.endpointIn, ht]
  show HIDEndpoint.inAddr.value ||| USBInterface.hid.value = 0x82
  decide

theorem xfer_hid (ht : t.subclass = .hid p) (tag : SephUSBTag) (packet : Bytes) :
    t.xfer tag packet =
      [0x02, UInt8.ofNat tag.value, UInt8.ofNat packet.length] ++ packet := by
  rw [USBTransport.xfer, endpointOut_hid ht]
  rfl

theorem xfer_out (ht : t.subclass = .hid p) (packet : Bytes) :
    t.xfer .xferOut packet = outXfer packet := xfer_hid ht .xferOut packet

/-- The packets `HID.send` makes of a command have one length. -/
structure Cut (command : Bytes) (packets : List Bytes) : Prop where
  frames : ∃ ds, Chunks command ds ∧ Sendable 0 ds ∧
    packets = Protocol.frames HID.usbChannel command.length 0 ds
  length : ∀ packet ∈ packets, packet.length = 54

theorem sendFrom_submit (data : Bytes) (t : USBTransport) (ht : t.subclass = .hid p)
    (hlen : data.length < 65536) (hseq : seq ≤ offset) (hoff : offset < data.length) :
    ∃ ds, Chunks (data.drop offset) ds ∧ Sendable seq ds ∧
      (∀ packet ∈ frames HID.usbChannel data.length seq ds, packet.length = 54) ∧
      HID.sendFrom data seq offset t = .ok ()
        (((frames HID.usbChannel data.length seq ds).map outXfer).foldl
          USBTransport.submit t) := by
  -- on what is left of the command, which every packet makes shorter
  induction hn : data.length - offset using Nat.strong_induction_on
    generalizing seq offset t with
  | _ n ih =>
    obtain ⟨hpos, hmax⟩ := HID.chunkSize_bounds seq
    have hrest : (data.drop offset).length = data.length - offset := List.length_drop
    have hchunk := HID.length_ljust_take (data.drop offset) (HID.chunkSize seq)
    have hframe : ∀ d : Bytes, d.length = HID.chunkSize seq →
        (frame HID.usbChannel data.length seq d).length = 54 := by
      intro d hd
      rw [length_frame, hd, HID.chunkSize]
      split
      · subst seq
        rfl
      · rfl
    rw [HID.sendFrom_step data t hlen (by omega) hoff]
    by_cases hmore : offset + HID.chunkSize seq < data.length
    · rw [HID.ljust_take_of_le _ (by omega)] at hchunk ⊢
      have hseq' : seq + 1 ≤ offset + HID.chunkSize seq := by omega
      have hsub (packet : Bytes) : (t.submit packet).subclass = .hid p := by
        rw [USBTransport.submit_subclass, ht]
      obtain ⟨ds, hc, hs, hlong, hsend⟩ := ih _ (by omega) _ (hsub _) hseq' hmore rfl
      refine ⟨(data.drop offset).take (HID.chunkSize seq) :: ds, ?_, hs.cons (by omega), ?_, ?_⟩
      · rw [← List.drop_drop] at hc
        have hne : (data.drop offset).drop (HID.chunkSize seq) ≠ [] := by
          rw [← List.length_pos_iff, List.length_drop]
          omega
        have hmore := Chunks.more ((data.drop offset).take (HID.chunkSize seq)) hne hc
        rwa [List.take_append_drop] at hmore
      · rw [frames_cons, List.forall_mem_cons]
        exact ⟨hframe _ hchunk, hlong⟩
      · rw [hsend, xfer_out ht]
        rfl
    · rw [HID.ljust_take_of_ge _ (by omega)] at hchunk ⊢
      refine ⟨[data.drop offset ++ List.replicate (HID.chunkSize seq - (data.drop offset).length) 0],
        .last _ _, Sendable.cons ⟨by rw [List.length_nil]; omega, by simp⟩ (by omega), ?_, ?_⟩
      · rw [frames_cons, frames_nil, List.forall_mem_singleton]
        exact hframe _ hchunk
      · rw [HID.sendFrom_done _ _ (by omega), xfer_out ht]
        rfl

theorem send_submit (command : Bytes) (t : USBTransport) (ht : t.subclass = .hid p)
    (hpos : 1 ≤ command.length) (hlen : command.length < 65536) :
    ∃ packets, Cut command packets ∧
      HID.send command t = .ok () ((packets.map outXfer).foldl USBTransport.submit t) := by
  obtain ⟨ds, hc, hs, hlong, hsend⟩ := sendFrom_submit command t ht hlen (Nat.le_refl 0) hpos
  rw [List.drop_zero] at hc
  exact ⟨_, ⟨⟨ds, hc, hs, rfl⟩, hlong⟩, hsend⟩

-- ---------------------------------------------------------------------------
-- Steps
-- ---------------------------------------------------------------------------

def xferEvent (xfer : Bytes) : Bytes := sephPacket 0x10 xfer

def outEvent (packet : Bytes) : Bytes := xferEvent (outXfer packet)

/-- A command that `to_app` does not take for a packet of another kind. -/
def Plain (command : Bytes) : Prop :=
  1 ≤ command.length ∧ command.length ≤ osIoBufferSize ∧
    ¬ (command.take 4 = Api.rawPrefix ∧ command.length > 4)

instance (command : Bytes) : Decidable (Plain command) := inferInstanceAs (Decidable (_ ∧ _))

variable {state : USBDevState} {queue : List Bytes} {delay : Nat} {commands responses : List Bytes}
  {waiting : Bool}

theorem queued_passed (packets : List Bytes) :
    queued (packets.map fun packet => ⟨.xferEvent, packet, .configured⟩) =
      packets.map xferEvent := by
  rw [queued, List.map_map]
  rfl

theorem act_waiting (h : waiting = true ∨ 0 < delay ∨ commands = []) :
    act ⟨t, delay, commands, waiting, responses, none⟩ = none := by
  unfold act
  split
  · rename_i hready
    obtain ⟨-, hwaiting, hdelay⟩ := hready
    rcases h with rfl | hpos | rfl
    · contradiction
    · exact absurd hdelay hpos.ne'
    · rfl
  · rfl

theorem act_command (command : Bytes) (hplain : Plain command) (ht : t.subclass = .hid p) :
    ∃ packets, Cut command packets ∧ ∀ commands responses,
      act ⟨t, 0, command :: commands, false, responses, none⟩ =
        some (after ⟨t, 0, commands, true, responses, none⟩
          (.ok () ((packets.map outXfer).foldl USBTransport.submit t) :
            EStateM.Result PyError USBTransport Unit)) := by
  obtain ⟨hpos, hlen, hraw⟩ := hplain
  obtain ⟨packets, hcut, hsend⟩ := send_submit command t ht hpos
    (hlen.trans_lt (show osIoBufferSize < 65536 by decide))
  refine ⟨packets, hcut, fun commands responses => ?_⟩
  rw [act, if_pos ⟨rfl, rfl, rfl⟩]
  dsimp only
  rw [toApp, if_neg hraw, hsend]

theorem act_configured (command : Bytes) (hplain : Plain command) :
    ∃ packets, Cut command packets ∧ ∀ commands responses,
      act ⟨usb .configured [] p, 0, command :: commands, false, responses, none⟩ =
        some (⟨usb .configured [] p, 0, commands, true, responses, none⟩,
          packets.map outEvent) := by
  obtain ⟨packets, hcut, hact⟩ := act_command (t := usb .configured [] p) command hplain rfl
  refine ⟨packets, hcut, fun commands responses => ?_⟩
  rw [hact, foldl_submit_of_configured _ _ rfl rfl]
  show some (_, queued (List.map _ _)) = _
  rw [queued_passed, List.map_map]
  rfl

theorem act_not_configured (command : Bytes) (hplain : Plain command)
    (hstate : state ≠ .configured) :
    ∃ packets, Cut command packets ∧ ∀ commands responses,
      act ⟨usb state [] p, 0, command :: commands, false, responses, none⟩ =
        some (⟨usb state (packets.map outXfer) p, 0, commands, true, responses, none⟩, []) := by
  obtain ⟨packets, hcut, hact⟩ := act_command (t := usb state [] p) command hplain rfl
  refine ⟨packets, hcut, fun commands responses => ?_⟩
  rw [hact, foldl_submit_of_not_configured _ _ hstate]
  rfl

theorem recv_config {t' : USBTransport} (x y : UInt8) {data : Bytes}
    (h : USBTransport.config data t = .ok () t') :
    recv ⟨t, delay, commands, waiting, responses, none⟩ (tagUsbConfig :: x :: y :: data) =
      (⟨clear t', delay - 1, commands, waiting, responses, none⟩, queued t'.sent) := by
  rw [recv, if_pos rfl]
  dsimp only [canRead]
  rw [if_pos rfl, h]
  rfl

theorem recv_prepare (x y : UInt8) {data : Bytes}
    {r : EStateM.Result PyError USBTransport (Option Bytes)} (h : USBTransport.prepare data t = r) :
    recv ⟨t, delay, commands, waiting, responses, none⟩ (tagUsbEpPrepare :: x :: y :: data) =
      (forward ⟨t, delay - 1, commands, waiting, responses, none⟩ r).after r := by
  have hne : tagUsbEpPrepare ≠ tagUsbConfig := by decide
  rw [recv, if_pos rfl]
  dsimp only [canRead]
  rw [if_neg hne, if_pos rfl, h]

theorem consumes_one {e e' : Emulator} {packet : Bytes} {said : List Bytes} (hact : e.act = none)
    (hrecv : e.recv packet = (e', said)) : party.Consumes e [packet] e' said := .one hact hrecv

theorem consumes_act {e e' : Emulator} {said : List Bytes} (hact : e.act = some (e', said)) :
    party.Consumes e [] e' said := .acts hact

/-- A packet that changes nothing about the transport. -/
def Passive (state : USBDevState) (queue : List Bytes) (packet : Bytes) : Prop :=
  ∀ p delay commands waiting responses,
    recv ⟨usb state queue p, delay, commands, waiting, responses, none⟩ packet =
      (⟨usb state queue p, delay - 1, commands, waiting, responses, none⟩, [])

theorem consumes_passive (packets : List Bytes) (hpassive : ∀ packet ∈ packets,
    Passive state queue packet) (h : waiting = true ∨ packets.length ≤ delay ∨ commands = []) :
    party.Consumes ⟨usb state queue p, delay, commands, waiting, responses, none⟩ packets
      ⟨usb state queue p, delay - packets.length, commands, waiting, responses, none⟩ [] := by
  induction packets generalizing delay with
  | nil => exact .done
  | cons packet packets ih =>
    obtain ⟨hpacket, hrest⟩ := List.forall_mem_cons.mp hpassive
    rw [List.length_cons] at h ⊢
    have hact : waiting = true ∨ 0 < delay ∨ commands = [] := by
      rcases h with h | h | h
      · exact .inl h
      · exact .inr (.inl (by omega))
      · exact .inr (.inr h)
    have hlater : waiting = true ∨ packets.length ≤ delay - 1 ∨ commands = [] := by
      rcases h with h | h | h
      · exact .inl h
      · exact .inr (.inl (by omega))
      · exact .inr (.inr h)
    have hnext := ih hrest hlater
    rw [Nat.sub_sub, Nat.add_comm 1] at hnext
    exact .recv (act_waiting hact) (hpacket _ _ _ _ _) hnext

theorem consumes_passive_waiting (packets : List Bytes) (hpassive : ∀ packet ∈ packets,
    Passive state queue packet) :
    party.Consumes ⟨usb state queue p, 0, commands, true, responses, none⟩ packets
      ⟨usb state queue p, 0, commands, true, responses, none⟩ [] := by
  have hconsumes : party.Consumes ⟨usb state queue p, 0, commands, true, responses, none⟩ packets
      ⟨usb state queue p, 0 - packets.length, commands, true, responses, none⟩ [] :=
    consumes_passive packets hpassive (.inl rfl)
  rwa [Nat.zero_sub] at hconsumes

-- ---------------------------------------------------------------------------
-- Responses
-- ---------------------------------------------------------------------------

/-- The packets of the device that prepare its endpoints for data from the host and to it. -/
def prepareOut : Bytes := [tagUsbEpPrepare, 0, 3, 0x02, 0x30, 0x40]

def prepareIn (chunk : Bytes) : Bytes :=
  tagUsbEpPrepare :: be16 (3 + 64) ++ [0x82, 0x20, 64] ++ chunk

/-- The packet with which the emulator asks for the next chunk. -/
def inEvent (header : Bytes) : Bytes :=
  xferEvent ([0x02, 0x02, UInt8.ofNat header.length] ++ header)

theorem passive_prepareOut : Passive .configured [] prepareOut := fun _ _ _ _ _ =>
  recv_prepare 0 3 rfl

theorem prepare_in (chunk : Bytes) (ht : t.subclass = .hid p) :
    USBTransport.prepare ([0x82, 0x20, 64] ++ chunk) t = USBTransport.prepareHook chunk t := by
  have hheader : usbHeaderParse ((([0x82, 0x20, 64] : Bytes) ++ chunk).take 3) t =
      .ok ⟨0x82, 0x20, 64⟩ t := rfl
  have htag : SephUSBPrepare.ofValue 0x20 t = .ok .dirIn t := rfl
  have hsize : ¬ (64 : UInt8).toNat ≠ usbSize := by decide
  rw [USBTransport.prepare, bind_of_ok hheader, bind_of_ok htag, bind_of_ok (get_apply t),
    endpointIn_hid ht, if_pos ⟨rfl, rfl⟩, if_neg hsize]
  rfl

/-- A chunk that is taken is asked for the next one. -/
theorem receiveChunk_acked (q : HIDPacket) (chunk : Bytes)
    (hseq : (q.appendData chunk).seq < 65536) :
    ∃ header q', clear (Lib.after (HID.receiveChunk q chunk (usb .configured [] p))) =
        usb .configured [] q' ∧
      queued (Lib.after (HID.receiveChunk q chunk (usb .configured [] p))).sent =
        [inEvent header] := by
  have hsubmit (packet : Bytes) : (usb .configured [] (q.appendData chunk)).submit packet =
      passed (usb .configured [] (q.appendData chunk)) [packet] :=
    foldl_submit_of_configured [packet] _ rfl rfl
  rw [HID.receiveChunk, bind_of_ok (modify_apply _ _),
    bind_of_ok (HID.buildXfer_ok _ _ _ (by decide) hseq (by decide)), bind_of_ok (modify_apply _ _)]
  rw [show ({ usb .configured [] p with subclass := .hid (q.appendData chunk) } : USBTransport) =
    usb .configured [] (q.appendData chunk) from rfl, hsubmit, xfer_hid rfl]
  split
  · exact ⟨frame HID.usbChannel usbSize (q.appendData chunk).seq [], .reset 0, rfl, rfl⟩
  · exact ⟨frame HID.usbChannel usbSize (q.appendData chunk).seq [], q.appendData chunk, rfl, rfl⟩

theorem prepareHook_acked {data : Bytes} {t' : USBTransport} {r : Option Bytes}
    (hseq : p.seq + 1 < 65536)
    (h : USBTransport.prepareHook data (usb .configured [] p) = .ok r t') :
    ∃ header q', clear t' = usb .configured [] q' ∧ queued t'.sent = [inEvent header] := by
  have hprepare : HID.prepare p data (usb .configured [] p) = .ok r t' := h
  rw [HID.prepare] at hprepare
  have hparse := HID.parseChunk_eq data (usb .configured [] p)
  cases hc : HID.chunkHeader data with
  | error e =>
    rw [hc] at hparse
    rw [bind_of_error hparse] at hprepare
    cases hprepare
  | ok hid =>
    rw [hc] at hparse
    rw [bind_of_ok hparse] at hprepare
    split at hprepare
    · have hacked := receiveChunk_acked (p := p) (HIDPacket.reset hid.length)
        (data.drop hidHeaderSizeof) (by simp)
      rwa [hprepare] at hacked
    · split at hprepare
      · cases hprepare
      · have hacked := receiveChunk_acked (p := p) p (data.drop (hidHeaderSizeof - 2)) (by simpa)
        rwa [hprepare] at hacked

variable {total seq : Nat} {got rest d : Bytes}

theorem waits_sound (hw : HID.Waits total (usb .configured [] p) seq got rest)
    (hstart : seq = 0 → p.Sound) : p.Sound := by
  by_cases h0 : seq = 0
  · exact hstart h0
  · obtain ⟨-, p', hp', hbound⟩ := hw
    cases hp'
    rw [if_neg h0] at hbound
    obtain ⟨rfl, hbound⟩ := hbound
    exact .inr ⟨Nat.pos_of_ne_zero h0, hbound⟩

theorem recv_more (delay : Nat) (commands responses : List Bytes)
    (hw : HID.Waits total (usb .configured [] p) seq got (d ++ rest))
    (hp : p.Sound) (htotal : total < 65536) (hne : rest ≠ [])
    (hfits : HID.Fits total seq d) :
    ∃ header p', recv ⟨usb .configured [] p, delay, commands, waiting, responses, none⟩
          (prepareIn (frame HID.usbChannel total seq d)) =
        (⟨usb .configured [] p', delay - 1, commands, waiting, responses, none⟩, [inEvent header]) ∧
      HID.Waits total (usb .configured [] p') (seq + 1) (got ++ d) rest ∧ p'.Sound := by
  obtain ⟨t', hprepare, hwaits⟩ := hw.more htotal hne hfits
  obtain ⟨header, p', hclear, hqueued⟩ := prepareHook_acked hp.seq_lt hprepare
  have hwaits' : HID.Waits total (usb .configured [] p') (seq + 1) (got ++ d) rest := by
    rw [← hclear]
    exact hwaits
  refine ⟨header, p', ?_, hwaits', waits_sound hwaits' (fun h => absurd h (Nat.succ_ne_zero seq))⟩
  refine (recv_prepare 0 67 ((prepare_in _ rfl).trans hprepare)).trans ?_
  rw [← hclear, ← hqueued]
  rfl

theorem recv_last (delay : Nat) (commands responses : List Bytes)
    (hw : HID.Waits total (usb .configured [] p) seq got rest)
    (hp : p.Sound) (htotal : total < 65536) {pad : Bytes}
    (hfits : HID.Fits total seq (rest ++ pad)) (hne : got ++ rest ≠ []) :
    ∃ header, recv ⟨usb .configured [] p, delay, commands, waiting, responses, none⟩
          (prepareIn (frame HID.usbChannel total seq (rest ++ pad))) =
        (⟨usb .configured [] (.reset 0), delay - 1, commands, false,
          responses ++ [got ++ rest], none⟩, [inEvent header]) := by
  obtain ⟨t', hprepare, hready⟩ := hw.last htotal hfits
  obtain ⟨header, p', hclear, hqueued⟩ := prepareHook_acked hp.seq_lt hprepare
  have hp' : p' = .reset 0 := by
    have hsub : (clear t').subclass = .hid (.reset 0) := hready
    rw [hclear] at hsub
    cases hsub
    rfl
  obtain ⟨b, response, hresponse⟩ := List.exists_cons_of_ne_nil hne
  refine ⟨header, (recv_prepare 0 67 ((prepare_in _ rfl).trans hprepare)).trans ?_⟩
  rw [← hqueued, ← hp', ← hclear, hresponse]
  rfl

end Emulator

end Speculos.Exchange
