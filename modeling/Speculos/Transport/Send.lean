import Speculos.Protocol.Reassembly
import Speculos.Transport.Nfc
import Speculos.Transport.UsbLaws

/-!
# Commands on their way to the device

`HID.send` and `NFC.send` cut a command into chunks of different sizes, the
one padding the last chunk and the other not. Both put the chunks into packets
of the protocol, so the device reassembles the command of either.
-/

namespace Speculos.Transport

open Lib Protocol

-- ---------------------------------------------------------------------------
-- HID
-- ---------------------------------------------------------------------------

namespace HID

theorem chunkSize_bounds (seq : Nat) : 0 < chunkSize seq ∧ chunkSize seq < 249 := by
  unfold chunkSize
  split <;> decide

theorem ljust_take_of_le (data : Bytes) (h : size ≤ data.length) :
    ljust (data.take size) size = data.take size := by
  simp [ljust, h]

theorem ljust_take_of_ge (data : Bytes) (h : data.length ≤ size) :
    ljust (data.take size) size = data ++ List.replicate (size - data.length) 0 := by
  rw [ljust, List.take_of_length_le h]

theorem frame_length_eq (channel total n seq : Nat) (data : Bytes) :
    frame channel (if seq = 0 then total else n) seq data = frame channel total seq data := by
  by_cases h : seq = 0 <;> simp [frame, h]

theorem sendFrom_step (data : Bytes) (t : USBTransport) (hlen : data.length < 65536)
    (hseq : seq < 65536) (hoff : offset < data.length) :
    sendFrom data seq offset t =
      sendFrom data (seq + 1) (offset + chunkSize seq) (t.submit (t.xfer .xferOut
        (frame usbChannel data.length seq
          (ljust ((data.drop offset).take (chunkSize seq)) (chunkSize seq))))) := by
  have hsize := chunkSize_bounds seq
  have hchunk := length_ljust_take (data.drop offset) (chunkSize seq)
  rw [sendFrom, if_pos hoff,
    bind_of_ok (buildXfer_ok t .xferOut _ (by split <;> omega) hseq (by omega)),
    bind_of_ok (modify_apply _ _), frame_length_eq, hchunk]

theorem sendFrom_done (data : Bytes) (t : USBTransport) (h : data.length ≤ offset) :
    sendFrom data seq offset t = .ok () t := by
  rw [sendFrom, if_neg (by omega)]
  rfl

/-- From `t` to `t'` the packets of a chunk sequence of `rest` were submitted. -/
def Submits (t t' : USBTransport) (total seq : Nat) (rest : Bytes) : Prop :=
  ∃ packets ds, t'.submitted = t.submitted ++ packets ∧ Chunks rest ds ∧ Sendable seq ds ∧
    packets.map (·.drop usbHeaderSizeof) = frames usbChannel total seq ds

theorem Submits.last (t : USBTransport) (rest pad : Bytes) (hseq : seq < 65536)
    (hlen : (rest ++ pad).length + 7 < 65536) :
    Submits t (t.submit (t.xfer .xferOut (frame usbChannel total seq (rest ++ pad))))
      total seq rest := by
  refine ⟨[t.xfer .xferOut (frame usbChannel total seq (rest ++ pad))], [rest ++ pad],
    USBTransport.submit_submitted .., .last rest pad, ?_, rfl⟩
  exact Sendable.cons ⟨Nat.succ_le_of_lt hseq, by simp⟩ hlen

theorem Submits.more {t t' : USBTransport} {d rest : Bytes} (hd : d.length + 7 < 65536)
    (hne : rest ≠ [])
    (h : Submits (t.submit (t.xfer .xferOut (frame usbChannel total seq d))) t'
      total (seq + 1) rest) :
    Submits t t' total seq (d ++ rest) := by
  obtain ⟨packets, ds, hsub, hc, hs, hmap⟩ := h
  refine ⟨t.xfer .xferOut (frame usbChannel total seq d) :: packets, d :: ds, ?_,
    .more d hne hc, hs.cons hd, ?_⟩
  · rw [hsub, USBTransport.submit_submitted, List.append_assoc]
    rfl
  · rw [List.map_cons, hmap, USBTransport.drop_xfer, frames_cons]

theorem sendFrom_ok (data : Bytes) (t : USBTransport) (hlen : data.length < 65536)
    (hseq : seq ≤ offset) (hoff : offset < data.length) :
    ∃ t', sendFrom data seq offset t = .ok () t' ∧
      Submits t t' data.length seq (data.drop offset) := by
  induction hn : data.length - offset using Nat.strong_induction_on
    generalizing seq offset t with
  | _ n ih =>
    obtain ⟨hpos, hmax⟩ := chunkSize_bounds seq
    have hrest : (data.drop offset).length = data.length - offset := List.length_drop
    have hchunk := length_ljust_take (data.drop offset) (chunkSize seq)
    rw [sendFrom_step data t hlen (by omega) hoff]
    by_cases hmore : offset + chunkSize seq < data.length
    · rw [ljust_take_of_le _ (by omega)] at hchunk ⊢
      have hseq' : seq + 1 ≤ offset + chunkSize seq := by omega
      obtain ⟨t', hsend, hsub⟩ := ih _ (by omega) (t.submit _) hseq' hmore rfl
      refine ⟨t', hsend, ?_⟩
      rw [← List.take_append_drop (chunkSize seq) (data.drop offset), List.drop_drop]
      refine .more (by omega) ?_ hsub
      rw [← List.length_pos_iff, List.length_drop]
      omega
    · rw [ljust_take_of_ge _ (by omega)] at hchunk ⊢
      exact ⟨_, sendFrom_done _ _ (by omega), .last t _ _ (by omega) (by omega)⟩

theorem send_ok (t : USBTransport) (apdu : Bytes) (hpos : 0 < apdu.length)
    (hlen : apdu.length < 65536) :
    ∃ t', send apdu t = .ok () t' ∧ Submits t t' apdu.length 0 apdu := by
  simpa [send] using sendFrom_ok apdu t hlen (Nat.le_refl 0) hpos

end HID

-- ---------------------------------------------------------------------------
-- NFC
-- ---------------------------------------------------------------------------

namespace NFC

theorem toBytes2_ok {n : Nat} (h : n < 65536) (s : σ) : toBytes2 n s = .ok (be16 n) s := by
  rw [toBytes2, if_pos h]
  rfl

theorem chunks_ok (data : Bytes) (hlen : data.length < 65536) (hseq : seq + data.length ≤ 65536)
    (hpos : 0 < data.length) : Chunks data (chunks data) ∧ Sendable seq (chunks data) := by
  induction hn : data.length using Nat.strong_induction_on generalizing seq data with
  | _ n ih =>
    have hmtu : mtu - 5 = 135 := rfl
    have htake : (data.take (mtu - 5)).length + 7 < 65536 := by
      rw [List.length_take]
      omega
    rw [chunks, dif_pos hpos]
    by_cases hmore : mtu - 5 < data.length
    · have hdrop : 0 < (data.drop (mtu - 5)).length := by
        rw [List.length_drop]
        omega
      have hseq' : seq + 1 + (data.drop (mtu - 5)).length ≤ 65536 := by
        rw [List.length_drop]
        omega
      obtain ⟨hc, hs⟩ := ih _ (by rw [List.length_drop]; omega) (data.drop (mtu - 5))
        (by omega) hseq' hdrop rfl
      have hcut := Chunks.more (data.take (mtu - 5)) (List.length_pos_iff.mp hdrop) hc
      rw [List.take_append_drop] at hcut
      exact ⟨hcut, hs.cons htake⟩
    · have hnil : data.drop (mtu - 5) = [] := List.drop_eq_nil_of_le (by omega)
      have hall : data.take (mtu - 5) = data := List.take_of_length_le (by omega)
      rw [hnil, hall, chunks, dif_neg (by simp)]
      refine ⟨by simpa using Chunks.last data [], Sendable.cons ⟨?_, by simp⟩ (by omega)⟩
      rw [List.length_nil]
      omega

theorem sendChunks_ok (nfc : NFC) (hlen : total < 65536) (hs : Sendable seq ds) :
    sendChunks total seq ds nfc =
      .ok () { nfc with sent := nfc.sent ++ frames 0 total seq ds } := by
  induction ds generalizing seq nfc with
  | nil => simp [sendChunks]
  | cons d ds ih =>
    rw [sendChunks, bind_of_ok (toBytes2_ok hs.number nfc)]
    by_cases h0 : seq = 0
    · rw [if_pos h0, bind_of_ok (toBytes2_ok hlen nfc)]
      dsimp only
      rw [bind_of_ok (modify_apply _ _), ih _ hs.tail]
      simp [frame, h0, be16, tagApdu]
    · rw [if_neg h0, bind_of_ok (pure_apply _ nfc)]
      dsimp only
      rw [bind_of_ok (modify_apply _ _), ih _ hs.tail]
      simp [frame, h0, be16, tagApdu]

theorem send_ok (nfc : NFC) (apdu : Bytes) (hpos : 0 < apdu.length) (hlen : apdu.length < 65536) :
    ∃ ds, Chunks apdu ds ∧ Sendable 0 ds ∧
      send apdu nfc = .ok () { nfc with sent := nfc.sent ++ frames 0 apdu.length 0 ds } := by
  have hseq : 0 + apdu.length ≤ 65536 := by omega
  obtain ⟨hc, hs⟩ := chunks_ok apdu hlen hseq hpos
  exact ⟨chunks apdu, hc, hs, sendChunks_ok nfc hlen hs⟩

end NFC

-- ---------------------------------------------------------------------------
-- Both, received by the device
-- ---------------------------------------------------------------------------

/-- Fed with the packets in order, the handle asks for more until the last one
and then holds the type byte followed by exactly `apdu`. -/
structure Receives (h : LedgerProtocol) (packets : List Bytes) (apdu : Bytes) : Prop where
  pending : ∀ k, 0 < k → k < packets.length →
    (h.rxAll (packets.take k)).rxApduStatus = .needMoreData
  status : (h.rxAll packets).rxApduStatus = .complete
  length : (h.rxAll packets).rxApduLength.toNat = apdu.length + 1
  buffer : (h.rxAll packets).rxApduBuffer.slice 0 (apdu.length + 1) = h.type :: apdu
  number : (h.rxAll packets).rxApduSequenceNumber = 0

theorem receives_frames (h : LedgerProtocol) (channel : Nat)
    (hnum : h.rxApduSequenceNumber = 0)
    (hfit : apdu.length + 1 ≤ h.rxApduBufferSize.toNat) (hs : Sendable 0 ds) (hc : Chunks apdu ds) :
    Receives h (frames channel apdu.length 0 ds) apdu := by
  obtain ⟨hdel, hmore⟩ := RxState.rxSteps_frames channel hnum hfit hs hc
  rw [← LedgerProtocol.toRxState_rxAll] at hdel
  refine ⟨?_, hdel.status, hdel.length, ?_, hdel.number⟩
  · intro k hk hlt
    rw [length_frames] at hlt
    rw [LedgerProtocol.toRxState_rxAll]
    exact hmore k hk hlt
  · rw [hdel.stored, LedgerProtocol.toRxState_rxAll, RxState.rxSteps_type]

/-- A command sent by either transport to a handle that expects a first packet
arrives there, whatever the transports have sent or queued before. -/
theorem send_receives (h : LedgerProtocol) (t : USBTransport) (nfc : NFC) (apdu : Bytes)
    (hpos : 1 ≤ apdu.length) (hfit : apdu.length + 1 ≤ h.rxApduBufferSize.toNat)
    (hnum : h.rxApduSequenceNumber = 0) :
    (∃ t' packets, HID.send apdu t = .ok () t' ∧ t'.submitted = t.submitted ++ packets ∧
      Receives h (packets.map (·.drop usbHeaderSizeof)) apdu) ∧
    (∃ nfc' packets, NFC.send apdu nfc = .ok () nfc' ∧ nfc'.sent = nfc.sent ++ packets ∧
      Receives h packets apdu) := by
  have hsize := h.rxApduBufferSize.toNat_lt
  constructor
  · obtain ⟨t', hsend, packets, ds, hsub, hc, hs, hmap⟩ := HID.send_ok t apdu hpos (by omega)
    refine ⟨t', packets, hsend, hsub, ?_⟩
    rw [hmap]
    exact receives_frames h _ hnum hfit hs hc
  · obtain ⟨ds, hc, hs, hsend⟩ := NFC.send_ok nfc apdu hpos (by omega)
    exact ⟨_, _, hsend, rfl, receives_frames h _ hnum hfit hs hc⟩

/-- A command of two packets over USB. -/
theorem send_receives_hid :
    let apdu : Bytes := [0xe0, 0x01, 0x00, 0x00, 95] ++ List.replicate 95 0x5a
    (∃ t' packets, HID.send apdu HID.new = .ok () t' ∧
      t'.submitted = HID.new.submitted ++ packets ∧
      Receives usbdLedgerHidInit (packets.map (·.drop usbHeaderSizeof)) apdu) ∧
    (∃ nfc' packets, NFC.send apdu NFC.new = .ok () nfc' ∧
      nfc'.sent = NFC.new.sent ++ packets ∧ Receives usbdLedgerHidInit packets apdu) := by
  intro apdu
  exact send_receives usbdLedgerHidInit HID.new NFC.new apdu (by decide) (by decide) rfl

end Speculos.Transport
