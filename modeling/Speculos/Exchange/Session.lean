import Speculos.Exchange.Application

/-!
# One exchange

A command on its way to the application and its response on the way back: the
emulator cuts the command into transfers, the device puts it together again, the
application answers it, and every chunk of the response that the emulator takes
makes the device send the next one.
-/

namespace Speculos.Exchange

open Lib Protocol Transport Usbd Application
open Emulator (usb outEvent inEvent prepareIn prepareOut Plain Cut)

-- ---------------------------------------------------------------------------
-- The command
-- ---------------------------------------------------------------------------

/-- A handle of the class that waits for a command. -/
structure Awaits (h : LedgerHid) : Prop where
  idle : ¬ h.isBusy
  sender : ∃ channel, h.sender.Attached channel
  number : h.protocolData.rxApduSequenceNumber = 0
  size : h.protocolData.rxApduBufferSize = UInt16.ofNat ioBufferSize
  type : h.protocolData.type = osIoPacketTypeUsbHidApdu

variable {σ : Type} {handle : σ → Bytes → σ × Bytes} {a : Application σ} {s s' : σ} {h : LedgerHid}
  {received : List Bytes} {command response : Bytes} {packets : List Bytes}

theorem consumes_more (handle : σ → Bytes → σ × Bytes) (ha : Serves a h s received)
    (hlen : ∀ packet ∈ packets, packet.length = 54)
    (hmore : ∀ k, 0 < k → k ≤ packets.length →
      (h.protocolData.rxAll (packets.take k)).rxApduStatus ≠ .complete) :
    ∃ a', (Application.party handle).Consumes a (packets.map outEvent) a'
        (packets.map fun _ => prepareOut) ∧
      Serves a' { h with protocolData := h.protocolData.rxAll packets } s received := by
  induction packets generalizing a h with
  | nil => exact ⟨a, .done, ha⟩
  | cons packet packets ih =>
    obtain ⟨hpacket, hlen⟩ := List.forall_mem_cons.mp hlen
    obtain ⟨b, hrecv, hb⟩ := recv_frame_more handle ha hpacket
      (hmore 1 Nat.one_pos (by simp))
    obtain ⟨a', hconsumes, ha'⟩ := ih hb hlen fun k hk hle =>
      hmore (k + 1) (Nat.succ_pos k) (Nat.succ_le_succ hle)
    exact ⟨a', .recv rfl hrecv hconsumes, ha'⟩

theorem rx_frame_attached {g : LedgerProtocol} {channel : Bytes} (hg : g.toTxState.Attached channel)
    (total seq : Nat) {d : Bytes} (hlen : d.length + 7 < 65536) :
    (g.rx (frame HID.usbChannel total seq d)).toTxState.Attached (be16 HID.usbChannel) := by
  have htake : (frame HID.usbChannel total seq d).take
      ((frame HID.usbChannel total seq d).length % 65536) = frame HID.usbChannel total seq d := by
    rw [Nat.mod_eq_of_lt (by rw [length_frame]; split <;> omega), List.take_length]
  refine ⟨?_, ?_, TxState.rx_frame_channel g HID.usbChannel total seq d hlen⟩
  all_goals rw [LedgerProtocol.rx, htake]
  · exact hg.mtu
  · exact hg.chunkSize

theorem rxAll_frames_attached {g : LedgerProtocol} {channel : Bytes}
    (hg : g.toTxState.Attached channel) (total seq : Nat) {ds : List Bytes} (hs : Sendable seq ds) :
    ∃ c, (g.rxAll (frames HID.usbChannel total seq ds)).toTxState.Attached c := by
  induction ds generalizing g channel seq with
  | nil => exact ⟨channel, hg⟩
  | cons d ds ih => exact ih (rx_frame_attached hg total seq hs.head) (seq + 1) hs.tail

/-- What the device makes of the last packet of a command. -/
structure Handed (h : LedgerHid) (command : Bytes) (packets : List Bytes) (last : Bytes) :
    Prop where
  length : ∀ packet ∈ packets ++ [last], packet.length = 54
  pending : ∀ k, 0 < k → k ≤ packets.length →
    (h.protocolData.rxAll (packets.take k)).rxApduStatus ≠ .complete
  delivered : ((h.protocolData.rxAll packets).rx last).toRxState.Delivered command
  size : ((h.protocolData.rxAll packets).rx last).rxApduBufferSize = UInt16.ofNat ioBufferSize
  type : ((h.protocolData.rxAll packets).rx last).type = osIoPacketTypeUsbHidApdu
  attached : ((h.protocolData.rxAll packets).rx last).toTxState.Attached (be16 HID.usbChannel)

theorem Awaits.handed (hh : Awaits h) (hplain : Plain command)
    (hcut : Cut command packets) :
    ∃ init last, packets = init ++ [last] ∧ Handed h command init last := by
  obtain ⟨⟨ds, hc, hs, rfl⟩, hlen⟩ := hcut
  obtain ⟨-, hfit, -⟩ := hplain
  have hsize : command.length + 1 ≤ h.protocolData.rxApduBufferSize.toNat := by
    rw [hh.size]
    exact Nat.succ_le_succ hfit
  obtain ⟨hdel, hmid⟩ := RxState.rxSteps_frames HID.usbChannel hh.number hsize hs hc
  have hds : ds.dropLast ++ [ds.getLast hc.ne_nil] = ds := List.dropLast_append_getLast hc.ne_nil
  have hlast : (ds.dropLast).length + 1 = ds.length := by
    rw [List.length_dropLast]
    have := hc.length_pos
    omega
  obtain ⟨channel, hsender⟩ := hh.sender
  have hframes : frames HID.usbChannel command.length 0 ds =
      frames HID.usbChannel command.length 0 ds.dropLast ++
        [frame HID.usbChannel command.length ds.dropLast.length (ds.getLast hc.ne_nil)] := by
    conv_lhs => rw [← hds, frames_append, Nat.zero_add]
    rfl
  rw [hframes] at hdel hlen ⊢
  rw [← LedgerProtocol.toRxState_rxAll, LedgerProtocol.rxAll_concat] at hdel
  refine ⟨_, _, rfl, hlen, ?_, hdel, ?_, ?_, ?_⟩
  · intro k hk hle
    rw [length_frames] at hle
    have hstatus := hmid k hk (by omega)
    rw [hframes, List.take_append_of_le_length (by rw [length_frames]; exact hle)] at hstatus
    show (h.protocolData.rxAll _).toRxState.rxApduStatus ≠ _
    rw [LedgerProtocol.toRxState_rxAll, hstatus]
    decide
  · rw [← LedgerProtocol.rxAll_concat, LedgerProtocol.rxAll_size, hh.size]
  · rw [← LedgerProtocol.rxAll_concat]
    show (h.protocolData.rxAll _).toRxState.type = _
    rw [LedgerProtocol.toRxState_rxAll, RxState.rxSteps_type]
    exact hh.type
  · have hs' : Sendable 0 ds.dropLast := by
      rw [List.dropLast_eq_take]
      exact hs.take _
    obtain ⟨c, hc'⟩ := rxAll_frames_attached hsender command.length 0 hs'
    exact rx_frame_attached hc' _ _ (hs.2 _ (List.getLast_mem hc.ne_nil))

theorem consumes_command (handle : σ → Bytes → σ × Bytes) (ha : Serves a h s received)
    (hh : Awaits h) (hplain : Plain command) (hcut : Cut command packets)
    (hresponse : handle s command = (s', response)) :
    ∃ a' h' n g, (Application.party handle).Consumes a (packets.map outEvent) a'
        (List.replicate n prepareOut ++ [prepareIn
          ((TxState.tx g (some response) (UInt16.ofNat response.length)).paddedPacket 64)]) ∧
      Serves a' h' s' (received ++ [command]) ∧ g.Attached (be16 HID.usbChannel) ∧
      h'.sender = g.tx (some response) (UInt16.ofNat response.length) ∧
      h'.protocolData.rxApduSequenceNumber = 0 ∧
      h'.protocolData.rxApduBufferSize = UInt16.ofNat ioBufferSize ∧
      h'.protocolData.type = osIoPacketTypeUsbHidApdu := by
  obtain ⟨init, last, rfl, hhanded⟩ := hh.handed hplain hcut
  obtain ⟨-, hfit, -⟩ := hplain
  have hlen := hhanded.length
  rw [List.forall_mem_append, List.forall_mem_singleton] at hlen
  obtain ⟨b, hmore, hb⟩ := consumes_more handle ha hlen.1 hhanded.pending
  obtain ⟨a', h', hlast, ha', -, hsender, hrx⟩ := recv_frame_last hb hh.idle hlen.2
    hhanded.type hhanded.delivered hfit hhanded.attached hresponse
  have hconsumes := hmore.trans (.one rfl hlast)
  rw [← List.map_singleton (f := outEvent), ← List.map_append, List.map_const'] at hconsumes
  refine ⟨a', h', init.length + 1, _, ?_, ha', hhanded.attached, hsender, ?_, ?_, ?_⟩
  · rw [List.replicate_succ', List.append_assoc]
    exact hconsumes
  · rw [show h'.protocolData.rxApduSequenceNumber =
      _ from congrArg RxState.rxApduSequenceNumber hrx]
    exact hhanded.delivered.number
  · rw [show h'.protocolData.rxApduBufferSize = _ from congrArg RxState.rxApduBufferSize hrx]
    exact hhanded.size
  · rw [show h'.protocolData.type = _ from congrArg RxState.type hrx]
    exact hhanded.type

-- ---------------------------------------------------------------------------
-- The response
-- ---------------------------------------------------------------------------

theorem tx_drains {g : TxState} (hg : g.Attached (be16 HID.usbChannel))
    (hpos : 1 ≤ response.length) (hlen : response.length ≤ 65535) :
    ∃ chunks es, Chunks response es ∧ Sendable 0 es ∧
      frames HID.usbChannel response.length 0 es =
        (g.tx (some response) (UInt16.ofNat response.length)).paddedPacket 64 :: chunks ∧
      (g.tx (some response) (UInt16.ofNat response.length)).Drains chunks ∧
      ∀ f ∈ frames HID.usbChannel response.length 0 es, 7 ≤ f.length := by
  obtain ⟨fuel, gs, hall, hemits⟩ := TxState.txAll_emits g response HID.usbChannel 64 (by decide)
    (by decide) hg.toNat_mtu (by rw [hg.chunkSize]; rfl) hg.channel hpos (Nat.lt_succ_of_le hlen)
  obtain ⟨es, hc, hs, hmap⟩ := hemits.padded
  have hwhole : g.Whole response (frames HID.usbChannel response.length 0 es) :=
    ⟨fuel, gs, hall, hmap⟩
  obtain ⟨chunks, hcons, hdrains⟩ := hwhole.cases
  refine ⟨chunks, es, hc, hs, hcons, hdrains, ?_⟩
  intro f hf
  rw [← hmap] at hf
  obtain ⟨g', -, rfl⟩ := List.mem_map.mp hf
  rw [TxState.paddedPacket, Region.length_slice]
  decide

abbrev System (σ : Type) := Network Emulator (Application σ) Bytes Bytes

/-- What the device does is known from its handle. -/
abbrev Leads (handle : σ → Bytes → σ × Bytes) (n m : System σ) : Prop :=
  Network.Reaches Emulator.party (Application.party handle) n m

theorem leads_left {e e' : Emulator} {packet : Bytes} {said : List Bytes}
    (hact : e.act = none) (hrecv : e.recv packet = (e', said)) :
    Leads handle ⟨e, a, [packet], []⟩ ⟨e', a, [], said⟩ :=
  Network.reaches_left (P := Emulator.party) (.one hact hrecv) a [] []

theorem leads_right {e : Emulator} {a' : Application σ} {packet : Bytes} {said : List Bytes}
    (hrecv : a.recv handle packet = (a', said)) (toLeft : List Bytes) :
    Leads handle ⟨e, a, toLeft, [packet]⟩ ⟨e, a', toLeft ++ said, []⟩ :=
  Network.reaches_right (Q := Application.party handle) (.one rfl hrecv) e [] toLeft

theorem leads_response (commands responses : List Bytes) {total seq : Nat} {got rest f : Bytes}
    {es fs : List Bytes} {p : HIDPacket} {channel : Bytes} (htotal : total < 65536)
    (hc : Chunks rest es) (hs : Sendable seq es) (hf : frames HID.usbChannel total seq es = f :: fs)
    (hlong : ∀ f ∈ frames HID.usbChannel total seq es, 7 ≤ f.length)
    (hw : HID.Waits total (usb .configured [] p) seq got rest) (hp : p.Sound)
    (hne : got ++ rest ≠ []) (ha : Serves a h s received) (hattached : h.sender.Attached channel)
    (hdrains : h.sender.Drains fs) :
    ∃ a' h', Leads handle
        ⟨⟨usb .configured [] p, 0, commands, true, responses, none⟩, a, [prepareIn f], []⟩
        ⟨⟨usb .configured [] (.reset 0), 0, commands, false, responses ++ [got ++ rest], none⟩, a',
          [], []⟩ ∧
      Serves a' h' s received ∧ ¬ h'.isBusy ∧ h'.sender.Attached channel ∧
      h'.protocolData.toRxState = h.protocolData.toRxState := by
  have hact : ∀ p, Emulator.act ⟨usb .configured [] p, 0, commands, true, responses, none⟩ = none :=
    fun _ => Emulator.act_waiting (.inl rfl)
  induction hc generalizing seq got a h p f fs with
  | last rest pad =>
    obtain ⟨rfl, rfl⟩ : frame HID.usbChannel total seq (rest ++ pad) = f ∧ [] = fs := by
      simpa using hf
    have hfits : HID.Fits total seq (rest ++ pad) := ⟨hs.number, hlong _ (by simp)⟩
    obtain ⟨header, hrecv⟩ := Emulator.recv_last 0 commands responses hw hp htotal hfits hne
    obtain ⟨hchunks, hidle, hattached', hrx⟩ := dataIn_last hattached hdrains
    obtain ⟨a', hrecv', ha'⟩ := recv_in handle ha header
    rw [hchunks] at hrecv'
    exact ⟨a', _, (leads_left (hact _) hrecv).trans (leads_right hrecv' []), ha', hidle, hattached',
      hrx⟩
  | @more rest es d hrest hc ih =>
    obtain ⟨rfl, rfl⟩ : frame HID.usbChannel total seq d = f ∧
        frames HID.usbChannel total (seq + 1) es = fs := by
      simpa using hf
    obtain ⟨f, fs, hfs⟩ : ∃ f fs, frames HID.usbChannel total (seq + 1) es = f :: fs := by
      refine List.exists_cons_of_ne_nil fun hnil => hc.ne_nil ?_
      rw [← List.length_eq_zero_iff, ← length_frames HID.usbChannel total (seq + 1), hnil]
      rfl
    rw [hfs] at hdrains
    rw [frames_cons, List.forall_mem_cons] at hlong
    obtain ⟨header, p', hrecv, hw', hp'⟩ := Emulator.recv_more 0 commands responses hw hp htotal
      hrest ⟨hs.number, hlong.1⟩
    obtain ⟨hchunks, hattached', hdrains', hrx⟩ := dataIn_more hattached hdrains
    obtain ⟨b, hrecv', hb⟩ := recv_in handle ha header
    rw [hchunks] at hrecv'
    rw [← List.append_assoc] at hne ⊢
    obtain ⟨a', h', hleads, ha', hidle, hlast, hrx'⟩ := ih hs.tail hfs hlong.2 hw' hp' hne hb
      hattached' hdrains'
    exact ⟨a', h', ((leads_left (hact _) hrecv).trans (leads_right hrecv' [])).trans hleads, ha',
      hidle, hlast, hrx'.trans hrx⟩

-- ---------------------------------------------------------------------------
-- Both
-- ---------------------------------------------------------------------------

/-- What the application is asked to answer with. -/
def Answers (handle : σ → Bytes → σ × Bytes) : Prop :=
  ∀ s command, 1 ≤ (handle s command).2.length ∧ (handle s command).2.length ≤ 65535

theorem leads_exchange (commands responses : List Bytes) (hanswers : Answers handle)
    (ha : Serves a h s received) (hh : Awaits h) (hplain : Plain command)
    (hcut : Cut command packets) :
    ∃ a' h', Leads handle
        ⟨⟨usb .configured [] (.reset 0), 0, commands, true, responses, none⟩, a, [],
          packets.map outEvent⟩
        ⟨⟨usb .configured [] (.reset 0), 0, commands, false,
          responses ++ [(handle s command).2], none⟩, a', [], []⟩ ∧
      Serves a' h' (handle s command).1 (received ++ [command]) ∧ Awaits h' := by
  obtain ⟨hpos, hlen⟩ := hanswers s command
  obtain ⟨b, g, n, tx, hconsumes, hb, htx, hsender, hnumber, hsize, htype⟩ :=
    consumes_command handle ha hh hplain hcut rfl
  obtain ⟨chunks, es, hc, hs, hframes, hdrains, hlong⟩ := tx_drains htx hpos hlen
  rw [← hsender] at hdrains
  have hattached : g.sender.Attached (be16 HID.usbChannel) := by
    rw [hsender]
    exact (htx.tx_some_attached _ _).1
  have hw : HID.Waits (handle s command).2.length (usb .configured [] (.reset 0)) 0 []
      (handle s command).2 := ⟨by simp, .reset 0, rfl, rfl⟩
  have hne : [] ++ (handle s command).2 ≠ [] := by
    rw [List.nil_append, ← List.length_pos_iff]
    exact hpos
  obtain ⟨a', h', hleads, ha', hidle, hattached', hrx⟩ := leads_response commands
    responses (Nat.lt_succ_of_le hlen) hc hs hframes hlong hw (.inl rfl) hne hb
    hattached hdrains
  have hignored : ∀ packet ∈ List.replicate n prepareOut, Emulator.Passive .configured [] packet :=
    fun packet hpacket => List.eq_of_mem_replicate hpacket ▸ Emulator.passive_prepareOut
  have hpassive : Emulator.party.Consumes
      ⟨usb .configured [] (.reset 0), 0, commands, true, responses, none⟩
        (List.replicate n prepareOut)
      ⟨usb .configured [] (.reset 0), 0, commands, true, responses, none⟩ [] :=
    Emulator.consumes_passive_waiting _ hignored
  have hdevice := Network.reaches_right (P := Emulator.party) hconsumes
    ⟨usb .configured [] (.reset 0), 0, commands, true, responses, none⟩ [] []
  have hignores := Network.reaches_left (Q := Application.party handle) hpassive b
    [prepareIn ((tx.tx (some (handle s command).2)
      (UInt16.ofNat (handle s command).2.length)).paddedPacket 64)] []
  rw [List.append_nil, List.nil_append] at hdevice
  refine ⟨a', h', (hdevice.trans hignores).trans hleads, ha', hidle, ⟨_, hattached'⟩, ?_, ?_, ?_⟩
  · rw [← hnumber]
    exact congrArg RxState.rxApduSequenceNumber hrx
  · rw [← hsize]
    exact congrArg RxState.rxApduBufferSize hrx
  · rw [← htype]
    exact congrArg RxState.type hrx

end Speculos.Exchange
