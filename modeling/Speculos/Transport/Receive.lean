import Speculos.Protocol.TxLaws
import Speculos.Transport.HidReceive
import Speculos.Transport.Nfc

/-!
# Responses on their way to the emulator

The packets of a response, handed to `HID._prepare` at full size or to
`NFC.handle_rapdu` at their own length, give `None` until the last one and
then the response.

`NFC.handle_rapdu` sets the expected number back to 0 only when a response is
complete, also where the packet at hand starts a new one. After any packets at
all, the next response comes through exactly when number 0 is expected.
-/

namespace Speculos.Transport

open Lib Protocol

/-- The results of `n` calls of which only the last returns the response. -/
def answers (n : Nat) (response : Bytes) : List (Except PyError (Option Bytes)) :=
  List.replicate (n - 1) (.ok none) ++ [.ok (some response)]

theorem answers_one (response : Bytes) : answers 1 response = [.ok (some response)] := rfl

theorem answers_succ (hn : 0 < n) (response : Bytes) :
    answers (n + 1) response = .ok none :: answers n response := by
  obtain ⟨m, rfl⟩ := Nat.exists_eq_succ_of_ne_zero (Nat.pos_iff_ne_zero.mp hn)
  simp [answers, List.replicate_succ]

section
variable {call : Bytes → Py σ (Option Bytes)} {channel total : Nat}
  {Waits : σ → Nat → Bytes → Bytes → Prop} {Done : σ → Prop} {Fits : Nat → Bytes → Prop}

/-- A receiver that keeps `Waits object number received missing` from packet to
packet answers with the whole message at the last one. Where the receiver
wants `bare` packets, the last one must not be padded. -/
theorem outcomes_frames (bare : Prop)
    (more : ∀ s seq got d rest, Waits s seq got (d ++ rest) → rest ≠ [] → Fits seq d →
      ∃ s', call (frame channel total seq d) s = .ok none s' ∧ Waits s' (seq + 1) (got ++ d) rest)
    (last : ∀ s seq got rest pad, Waits s seq got rest → Fits seq (rest ++ pad) →
      (bare → pad = []) →
      ∃ s', call (frame channel total seq (rest ++ pad)) s = .ok (some (got ++ rest)) s' ∧ Done s')
    (hc : Chunks rest ds) (hbare : bare → ds.flatten = rest)
    (hfits : ∀ i d, ds[i]? = some d → Fits (seq + i) d) (hw : Waits s seq got rest) :
    outcomes call s (frames channel total seq ds) = answers ds.length (got ++ rest) ∧
      Done (afterAll call s (frames channel total seq ds)) := by
  induction hc generalizing s seq got with
  | last rest pad =>
    have hpad : bare → pad = [] := fun h => by simpa using hbare h
    obtain ⟨s', hcall, hdone⟩ := last s seq got rest pad hw (hfits 0 _ rfl) hpad
    simp [outcomes, afterAll, hcall, answers_one, hdone]
  | more d hne hc ih =>
    rename_i rest ds
    obtain ⟨s', hcall, hw'⟩ := more s seq got d rest hw hne (hfits 0 d rfl)
    have hflat : bare → ds.flatten = rest := fun h => by simpa using hbare h
    have hfits' : ∀ i e, ds[i]? = some e → Fits (seq + 1 + i) e := by
      intro i e he
      have := hfits (i + 1) e he
      rwa [Nat.add_comm i, ← Nat.add_assoc] at this
    obtain ⟨hout, hdone⟩ := ih hflat hfits' hw'
    rw [List.append_assoc] at hout
    rw [frames_cons, outcomes, List.length_cons, answers_succ hc.length_pos, hcall]
    exact ⟨by rw [outcome_ok, after_ok, hout], by simpa [afterAll, hcall] using hdone⟩

end

-- ---------------------------------------------------------------------------
-- HID
-- ---------------------------------------------------------------------------

namespace HID

/-- `got` has been received of a message of `total` bytes and `rest` is
missing. The packet number 0 forgets what was there before. -/
def Waits (total : Nat) (t : USBTransport) (seq : Nat) (got rest : Bytes) : Prop :=
  got.length + rest.length = total ∧ ∃ p, t.subclass = .hid p ∧
    if seq = 0 then got = [] else p = ⟨got, seq, rest.length⟩ ∧ rest.length + 2 * seq ≤ 65537

def Ready (t : USBTransport) : Prop := t.subclass = .hid (.reset 0)

/-- The packet can be numbered, and is long enough for a header. -/
def Fits (total seq : Nat) (d : Bytes) : Prop :=
  seq < 65536 ∧ 7 ≤ (frame usbChannel total seq d).length

variable {t : USBTransport}

theorem Waits.prepareHook_eq (hw : Waits total t seq got rest) (htotal : total < 65536)
    (hf : Fits total seq d) :
    let r := USBTransport.prepareHook (frame usbChannel total seq d) t
    let q := HIDPacket.handOut (HIDPacket.appendData ⟨got, seq, rest.length⟩ d)
    outcome r = q.1 ∧ (after r).subclass = .hid q.2 := by
  obtain ⟨hlen, p, ht, hp⟩ := hw
  obtain ⟨hseq, hlong⟩ := hf
  by_cases h0 : seq = 0
  · subst h0
    rw [if_pos rfl] at hp
    subst hp
    have hnum : ∀ hid, chunkHeader (frame usbChannel total 0 d) = .ok hid → hid.seq = p.seq →
        p.seq + 1 < 65536 := by
      intro hid hc hp
      obtain ⟨hid', hc', hzero, -⟩ := chunkHeader_frame (by decide) htotal hlong
      rw [hc, Except.ok.injEq] at hc'
      rw [← hp, hc', hzero]
      decide
    have heq := HID.prepareHook_eq t _ ht hnum
    rw [HIDPacket.receive_frame_first p htotal] at heq
    rw [List.length_nil, Nat.zero_add] at hlen
    rw [hlen]
    exact heq
  · rw [if_neg h0] at hp
    obtain ⟨rfl, hbound⟩ := hp
    have heq := HID.prepareHook_eq t (frame usbChannel total seq d) ht
      (fun _ _ _ => show seq + 1 < 65536 by omega)
    rw [HIDPacket.receive_frame_next ⟨got, seq, rest.length⟩ hseq h0 htotal d hlong] at heq
    exact heq

theorem Waits.more (hw : Waits total t seq got (d ++ rest)) (htotal : total < 65536)
    (hne : rest ≠ []) (hf : Fits total seq d) :
    ∃ t', USBTransport.prepareHook (frame usbChannel total seq d) t = .ok none t' ∧
      Waits total t' (seq + 1) (got ++ d) rest := by
  obtain ⟨hout, hsub⟩ := hw.prepareHook_eq htotal hf
  obtain ⟨hlen, p, -, hp⟩ := hw
  have hpos := List.length_pos_iff.mpr hne
  rw [List.length_append] at hlen hp
  rw [HIDPacket.handOut_more _ _ (by simpa using hpos)] at hout hsub
  refine ⟨_, eq_ok_of_outcome hout, by rw [List.length_append]; omega, _, hsub, ?_⟩
  rw [if_neg (Nat.succ_ne_zero seq)]
  refine ⟨by simp, ?_⟩
  obtain ⟨-, hlong⟩ := hf
  rw [length_frame] at hlong
  by_cases h0 : seq = 0
  · omega
  · rw [if_neg h0] at hp hlong
    omega

theorem Waits.last (hw : Waits total t seq got rest) (htotal : total < 65536)
    (hf : Fits total seq (rest ++ pad)) :
    ∃ t', USBTransport.prepareHook (frame usbChannel total seq (rest ++ pad)) t =
      .ok (some (got ++ rest)) t' ∧ Ready t' := by
  obtain ⟨hout, hsub⟩ := hw.prepareHook_eq htotal hf
  rw [HIDPacket.handOut_last _ _ (by simp)] at hout hsub
  exact ⟨_, by simpa using eq_ok_of_outcome hout, hsub⟩

theorem outcomes_prepareHook (ht : t.subclass = .hid p) (htotal : response.length < 65536)
    (hc : Chunks response ds) (hs : Sendable 0 ds)
    (hlong : ∀ f ∈ frames usbChannel response.length 0 ds, 7 ≤ f.length) :
    outcomes USBTransport.prepareHook t (frames usbChannel response.length 0 ds) =
        answers ds.length response ∧
      Ready (afterAll USBTransport.prepareHook t (frames usbChannel response.length 0 ds)) := by
  have hfits : ∀ i d, ds[i]? = some d → Fits response.length (0 + i) d := by
    intro i d hd
    have hi := (List.getElem?_eq_some_iff.mp hd).1
    have hframe := getElem?_frames usbChannel response.length 0 i ds
    rw [hd] at hframe
    exact ⟨by have := hs.1; omega, hlong _ (List.mem_of_getElem? hframe)⟩
  have hw : Waits response.length t 0 [] response := ⟨by simp, p, ht, rfl⟩
  exact outcomes_frames False
    (fun _ _ _ _ _ hw hne hf => hw.more htotal hne hf)
    (fun _ _ _ _ _ hw hf _ => hw.last htotal hf) hc (fun h => h.elim) hfits hw

end HID

-- ---------------------------------------------------------------------------
-- NFC
-- ---------------------------------------------------------------------------

namespace NFC

def Waits (total : Nat) (nfc : NFC) (seq : Nat) (got rest : Bytes) : Prop :=
  got.length + rest.length = total ∧ nfc.rxSequence = seq ∧
    if seq = 0 then got = [] else nfc.rxData = got ∧ nfc.rxSize = total

def Ready (nfc : NFC) : Prop := nfc.rxSequence = 0

instance (nfc : NFC) : Decidable nfc.Ready := inferInstanceAs (Decidable (_ = _))

variable {nfc : NFC}

/-- A packet with another number than the expected one raises, and the expected
number stays. -/
theorem handleRapdu_unexpected (hseq : seq < 65536) (hne : nfc.rxSequence ≠ seq) (d : Bytes) :
    handleRapdu (frame channel total seq d) nfc =
      .error (.valueError ("Unexpected sequence number:" ++ toString seq)) nfc := by
  have htag : (frame channel total seq d)[2]? = some tagApdu := rfl
  have hnum : fromBE (((frame channel total seq d).drop 3).take 2) = seq := fromBE_be16 seq hseq
  rw [handleRapdu, htag]
  simp only [hnum]
  rw [if_neg (by decide), bind_of_ok (get_apply nfc), if_pos hne]
  rfl

theorem Waits.handleRapdu_eq (hw : Waits total nfc seq got rest) (htotal : total < 65536)
    (hseq : seq < 65536) (d : Bytes) :
    handleRapdu (frame channel total seq d) nfc =
      finishChunk { nfc with rxSize := total, rxData := got ++ d } := by
  obtain ⟨-, hnum, hgot⟩ := hw
  have htag : (frame channel total seq d)[2]? = some tagApdu := rfl
  have hsent : fromBE (((frame channel total seq d).drop 3).take 2) = seq := fromBE_be16 seq hseq
  rw [handleRapdu, htag]
  simp only [hsent]
  rw [if_neg (by decide), bind_of_ok (get_apply nfc), if_neg (by simpa using hnum)]
  by_cases h0 : seq = 0
  · subst h0
    rw [if_pos rfl] at hgot
    have hlength : fromBE (((frame channel total 0 d).drop 5).take 2) = total :=
      fromBE_be16 total htotal
    rw [if_pos rfl, bind_of_ok (modify_apply _ _), hlength, hgot]
    rfl
  · rw [if_neg h0] at hgot
    rw [if_neg h0, bind_of_ok (modify_apply _ _), frame_pos _ _ _ h0, ← hgot.1, ← hgot.2]
    rfl

theorem Waits.more (hw : Waits total nfc seq got (d ++ rest)) (htotal : total < 65536)
    (hne : rest ≠ []) (hseq : seq < 65536) :
    ∃ nfc', handleRapdu (frame channel total seq d) nfc = .ok none nfc' ∧
      Waits total nfc' (seq + 1) (got ++ d) rest := by
  rw [hw.handleRapdu_eq htotal hseq]
  obtain ⟨hlen, hnum, -⟩ := hw
  have hpos := List.length_pos_iff.mpr hne
  rw [List.length_append] at hlen
  refine ⟨{ nfc with rxSequence := seq + 1, rxSize := total, rxData := got ++ d }, ?_, ?_⟩
  · rw [finishChunk, bind_of_ok (get_apply _), if_neg (by simp; omega), ← hnum]
    rfl
  · exact ⟨by rw [List.length_append]; omega, rfl, by simp⟩

theorem Waits.last (hw : Waits total nfc seq got rest) (htotal : total < 65536)
    (hseq : seq < 65536) :
    ∃ nfc', handleRapdu (frame channel total seq rest) nfc = .ok (some (got ++ rest)) nfc' ∧
      nfc'.Ready := by
  rw [hw.handleRapdu_eq htotal hseq]
  refine ⟨{ nfc with rxSequence := 0, rxSize := total, rxData := got ++ rest }, ?_, rfl⟩
  rw [finishChunk, bind_of_ok (get_apply _), if_pos (by rw [List.length_append]; exact hw.1)]
  rfl

theorem outcomes_handleRapdu (channel : Nat) (hnum : nfc.Ready)
    (htotal : response.length < 65536) (hc : Chunks response ds) (hflat : ds.flatten = response)
    (hs : Sendable 0 ds) :
    outcomes handleRapdu nfc (frames channel response.length 0 ds) = answers ds.length response ∧
      (afterAll handleRapdu nfc (frames channel response.length 0 ds)).Ready := by
  have hfits : ∀ i d, ds[i]? = some d → 0 + i < 65536 := by
    intro i d hd
    have hi := (List.getElem?_eq_some_iff.mp hd).1
    have := hs.1
    omega
  have hw : Waits response.length nfc 0 [] response := ⟨by simp, hnum, rfl⟩
  refine outcomes_frames True (fun _ _ _ _ _ hw hne hf => hw.more htotal hne hf) ?_ hc
    (fun _ => hflat) hfits hw
  intro nfc seq got rest pad hw hf hpad
  rw [hpad trivial, List.append_nil]
  exact hw.last htotal hf

end NFC

-- ---------------------------------------------------------------------------
-- Both, sent by the device
-- ---------------------------------------------------------------------------

/-- A response of the device terminates and arrives. `LEDGER_PROTOCOL_tx`
leaves the channel identifier to `LEDGER_PROTOCOL_rx`, and HID checks it: its
chunk buffer starts with the channel of the command it answers. -/
theorem tx_received (h : TxState) (t : USBTransport) (p : HIDPacket) (nfc : NFC) (response : Bytes)
    (hpos : 1 ≤ response.length) (hlen : response.length ≤ 65535)
    (hmtu : h.mtu = 64 ∨ h.mtu = 158) (hsize : h.txChunkBufferSize.toNat = h.mtu.toNat)
    (ht : t.subclass = .hid p) (hnfc : nfc.Ready) :
    ∃ fuel hs, h.txAll response fuel = some hs ∧
      (h.mtu = 64 → h.txChunkBuffer.slice 0 2 = be16 HID.usbChannel →
        let chunks := hs.map fun g => HID.ljust g.packet usbSize
        outcomes USBTransport.prepareHook t chunks = answers hs.length response ∧
          HID.Ready (afterAll USBTransport.prepareHook t chunks)) ∧
      outcomes NFC.handleRapdu nfc (hs.map TxState.packet) = answers hs.length response ∧
      (afterAll NFC.handleRapdu nfc (hs.map TxState.packet)).Ready := by
  obtain ⟨channel, hlt, hchannel, fuel, hs, hall, hemit⟩ :=
    h.txAll_emits_of_mtu response hpos hlen hmtu hsize
  obtain ⟨⟨ds, hc, hflat, hsend, hmap⟩, ⟨es, hc', hsend', hmap'⟩, hzeros⟩ := hemit
  refine ⟨fuel, hs, hall, ?_, ?_⟩
  · intro h64 hchannel'
    rw [hchannel] at hchannel'
    obtain rfl := be16_injective hlt (by decide) hchannel'
    rw [h64] at hmap' hzeros
    have hchunks : (hs.map fun g => HID.ljust g.packet usbSize) =
        frames HID.usbChannel response.length 0 es := by
      rw [← hmap']
      exact List.map_congr_left fun g hg => (hzeros g hg).symm
    have hlong : ∀ f ∈ frames HID.usbChannel response.length 0 es, 7 ≤ f.length := by
      intro f hf
      rw [← hmap'] at hf
      obtain ⟨g, -, rfl⟩ := List.mem_map.mp hf
      rw [TxState.paddedPacket, Region.length_slice]
      decide
    rw [hchunks, ← TxState.length_eq_of_map hmap']
    exact HID.outcomes_prepareHook ht (Nat.lt_succ_of_le hlen) hc' hsend' hlong
  · rw [hmap, ← TxState.length_eq_of_map hmap]
    exact NFC.outcomes_handleRapdu channel hnfc (Nat.lt_succ_of_le hlen) hc hflat hsend

/-- The USB handle once a packet of a command has come in. -/
def commandReceived : LedgerProtocol := usbdLedgerHidInit.rx (frame HID.usbChannel 2 0 [0xe0, 0x01])

theorem tx_received_hid :
    ∃ fuel hs, commandReceived.txAll [0x90, 0x00] fuel = some hs ∧
      outcomes USBTransport.prepareHook HID.new (hs.map fun g => HID.ljust g.packet usbSize) =
        answers hs.length [0x90, 0x00] ∧
      HID.Ready (afterAll USBTransport.prepareHook HID.new
        (hs.map fun g => HID.ljust g.packet usbSize)) ∧
      outcomes NFC.handleRapdu NFC.new (hs.map TxState.packet) = answers hs.length [0x90, 0x00] ∧
      (afterAll NFC.handleRapdu NFC.new (hs.map TxState.packet)).Ready := by
  obtain ⟨fuel, hs, hall, hhid, hnfc⟩ := tx_received commandReceived.toTxState HID.new (.reset 0)
    NFC.new [0x90, 0x00] (by decide) (by decide) (by decide) (by decide) rfl rfl
  obtain ⟨hout, hready⟩ := hhid (by decide)
    (TxState.rx_frame_channel usbdLedgerHidInit _ 2 0 _ (by decide))
  exact ⟨fuel, hs, hall, hout, hready, hnfc⟩

end Speculos.Transport

-- ---------------------------------------------------------------------------
-- Recovery of the NFC transport
-- ---------------------------------------------------------------------------

namespace Speculos.Transport

open Lib Protocol

theorem not_error_mem_answers (n : Nat) (response : Bytes) (e : PyError) :
    .error e ∉ answers n response := by
  simp [answers, List.mem_replicate]

namespace NFC

/-- An object that expects a later number raises at the first packet of a
response, whatever follows. -/
theorem outcomes_frames_ne (channel total : Nat) {nfc : NFC} (hnum : ¬ nfc.Ready)
    (hds : ds ≠ []) (n : Nat) (response : Bytes) :
    outcomes handleRapdu nfc (frames channel total 0 ds) ≠ answers n response := by
  obtain ⟨d, ds, rfl⟩ := List.exists_cons_of_ne_nil hds
  intro heq
  rw [frames_cons, outcomes, handleRapdu_unexpected (by decide) hnum] at heq
  apply not_error_mem_answers n response
  rw [← heq]
  exact List.mem_cons_self

theorem tx_received_after_iff (h : TxState) (response : Bytes) (hpos : 1 ≤ response.length)
    (hlen : response.length ≤ 65535) (hmtu : h.mtu = 64 ∨ h.mtu = 158)
    (hsize : h.txChunkBufferSize.toNat = h.mtu.toNat) :
    ∃ fuel hs, h.txAll response fuel = some hs ∧ ∀ earlier : List Bytes,
      outcomes handleRapdu (afterAll handleRapdu new earlier) (hs.map TxState.packet) =
        answers hs.length response ↔ (afterAll handleRapdu new earlier).rxSequence = 0 := by
  obtain ⟨channel, -, -, fuel, hs, hall, hemit⟩ :=
    h.txAll_emits_of_mtu response hpos hlen hmtu hsize
  obtain ⟨ds, hc, hflat, hsend, hmap⟩ := hemit.exact
  refine ⟨fuel, hs, hall, fun earlier => ?_⟩
  rw [hmap, ← TxState.length_eq_of_map hmap]
  constructor
  · intro heq
    by_contra hnum
    exact outcomes_frames_ne channel response.length hnum hc.ne_nil _ _ heq
  · intro hnum
    exact (outcomes_handleRapdu channel hnum (Nat.lt_succ_of_le hlen) hc hflat hsend).1

theorem tx_received_after_iff_nfc :
    ∃ fuel hs, nfcLedgerStart.txAll [0x90, 0x00] fuel = some hs ∧ ∀ earlier : List Bytes,
      outcomes handleRapdu (afterAll handleRapdu new earlier) (hs.map TxState.packet) =
        answers hs.length [0x90, 0x00] ↔ (afterAll handleRapdu new earlier).rxSequence = 0 :=
  tx_received_after_iff nfcLedgerStart.toTxState [0x90, 0x00] (by decide) (by decide)
    (by decide) (by decide)

/-- The first packet of a response of 100 bytes that is never continued. -/
def cutShort : List Bytes := [frame 0 100 0 (List.replicate 47 0)]

theorem cutShort_not_received :
    ∃ hs, nfcLedgerStart.txAll [0x90, 0x00] 0 = some hs ∧
      outcomes handleRapdu (afterAll handleRapdu new cutShort) (hs.map TxState.packet) ≠
        answers hs.length [0x90, 0x00] := by
  refine ⟨[nfcLedgerStart.tx (some [0x90, 0x00]) 2], rfl, ?_⟩
  have hpacket : [nfcLedgerStart.tx (some [0x90, 0x00]) 2].map TxState.packet =
      frames 0 2 0 [[0x90, 0x00]] := by decide
  rw [hpacket]
  exact outcomes_frames_ne 0 2 (by decide) (by simp) _ _

end NFC

end Speculos.Transport
