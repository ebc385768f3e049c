import Speculos.Protocol.Ledger
import Speculos.Transport.Usb

/-!
# The headers and the queue of the USB transports

What the header builders return, what handing a packet to `_send_xfer`
changes, and that `send` and `_prepare` change an object only by submitting
transfers and by what they note in `hid_packet`. Later modules follow the
methods through these lemmas only.
-/

namespace Speculos.Transport

open Lib Protocol

theorem usbHeaderBuild_ok (he : endpoint < 256) (ht : tag < 256) (hl : length < 256) (s : σ) :
    usbHeaderBuild endpoint tag length s =
      .ok [UInt8.ofNat endpoint, UInt8.ofNat tag, UInt8.ofNat length] s := by
  rw [usbHeaderBuild, bind_of_ok (int8ub_ok he s), bind_of_ok (int8ub_ok ht s),
    bind_of_ok (int8ub_ok hl s)]
  rfl

theorem SephUSBTag.value_lt (tag : SephUSBTag) : tag.value < 256 := by
  cases tag <;> decide

namespace USBTransport

theorem endpointOut_lt (t : USBTransport) : t.endpointOut < 256 := by
  rw [endpointOut]
  cases t.subclass with
  | u2f => decide
  | hid hidPacket => show HIDEndpoint.outAddr.value ||| USBInterface.hid.value < 256; decide

def xfer (t : USBTransport) (tag : SephUSBTag) (payload : Bytes) : Bytes :=
  [UInt8.ofNat t.endpointOut, UInt8.ofNat tag.value, UInt8.ofNat payload.length] ++ payload

theorem drop_xfer (t : USBTransport) (tag : SephUSBTag) (payload : Bytes) :
    (t.xfer tag payload).drop usbHeaderSizeof = payload := rfl

@[simp] theorem submit_submitted (t : USBTransport) (packet : Bytes) :
    (t.submit packet).submitted = t.submitted ++ [packet] := rfl

@[simp] theorem sendXfer_subclass (t : USBTransport) (packet : Bytes) :
    (t.sendXfer packet).subclass = t.subclass := by
  unfold sendXfer sendCb
  split <;> rfl

@[simp] theorem submit_subclass (t : USBTransport) (packet : Bytes) :
    (t.submit packet).subclass = t.subclass := sendXfer_subclass t packet

end USBTransport

namespace HID

theorem buildHeader_ok (hlength : length < 65536) (hseq : seq < 65536) (s : σ) :
    buildHeader length seq s = .ok (frame usbChannel length seq []) s := by
  rw [buildHeader, hidHeaderBuild, bind_of_ok (by
    rw [bind_of_ok (int16ub_ok (by decide) s), bind_of_ok (int8ub_ok (by decide) s),
      bind_of_ok (int16ub_ok hseq s), bind_of_ok (int16ub_ok hlength s)]
    rfl)]
  by_cases h : seq = 0
  · rw [if_neg (by simpa using h), h]
    rfl
  · rw [if_pos h, frame_pos _ _ _ h]
    rfl

theorem buildXfer_ok (t : USBTransport) (tag : SephUSBTag) (data : Bytes)
    (hlength : length < 65536) (hseq : seq < 65536) (hdata : data.length < 249) :
    buildXfer tag data seq length t =
      .ok (t.xfer tag (frame usbChannel length seq data)) t := by
  have hsize : (frame usbChannel length seq []).length + data.length =
      (frame usbChannel length seq data).length := by
    rw [← List.length_append, ← frame_append, List.nil_append]
  have hsize' : (frame usbChannel length seq data).length < 256 := by
    rw [length_frame]
    split <;> omega
  rw [buildXfer, bind_of_ok (buildHeader_ok hlength hseq t), bind_of_ok (get_apply t), hsize,
    bind_of_ok (usbHeaderBuild_ok t.endpointOut_lt tag.value_lt hsize' t), pure_apply,
    List.append_assoc, ← frame_append, List.nil_append]
  rfl

end HID

-- ---------------------------------------------------------------------------
-- Whatever the fields are
-- ---------------------------------------------------------------------------

theorem int8ub_returns (n : Nat) : Returns (· = [UInt8.ofNat n]) (int8ub n : Py σ Bytes) :=
  .ite (.pure rfl) (.throw _)

theorem int16ub_returns (n : Nat) : Returns (· = be16 n) (int16ub n : Py σ Bytes) :=
  .ite (.pure rfl) (.throw _)

theorem usbHeaderBuild_returns (endpoint tag length : Nat) :
    Returns (·[1]? = some (UInt8.ofNat tag))
      (usbHeaderBuild endpoint tag length : Py σ Bytes) := by
  refine .bind (int8ub_returns endpoint) ?_
  rintro _ rfl
  refine .bind (int8ub_returns tag) ?_
  rintro _ rfl
  refine .bind (int8ub_returns length) ?_
  rintro _ rfl
  exact .pure rfl

theorem usbSetupBuild_returns (bmreq breq wValue wIndex wLength : Nat) :
    Returns (fun _ => True) (usbSetupBuild bmreq breq wValue wIndex wLength : Py σ Bytes) := by
  have hul : Returns (fun _ => True) (int16ul wValue : Py σ Bytes) :=
    .ite (.pure trivial) (.throw _)
  exact .bind (int8ub_returns _) fun _ _ => .bind (int8ub_returns _) fun _ _ =>
    .bind hul fun _ _ => .bind (int16ub_returns _) fun _ _ =>
    .bind (int16ub_returns _) fun _ _ => .pure trivial

theorem HID.buildHeader_returns (length seq : Nat) :
    Returns (fun _ => True) (HID.buildHeader length seq : Py σ Bytes) := by
  have hbuild : Returns (fun _ => True)
      (hidHeaderBuild usbChannel usbCommand.toNat seq length : Py σ Bytes) :=
    .bind (int16ub_returns _) fun _ _ => .bind (int8ub_returns _) fun _ _ =>
      .bind (int16ub_returns _) fun _ _ => .bind (int16ub_returns _) fun _ _ => .pure trivial
  exact .bind hbuild fun _ _ => .ite (.pure trivial) (.pure trivial)

theorem usbHeaderParse_returns (data : Bytes) :
    Returns (fun _ => True) (usbHeaderParse data : Py σ UsbHeader) := by
  unfold usbHeaderParse
  split
  · exact .pure trivial
  · exact .throw _

theorem HID.parseChunk_returns (data : Bytes) :
    Returns (fun _ => True) (HID.parseChunk data : Py σ HidHeader) := by
  have hparse : Returns (fun _ => True) (hidHeaderParse data : Py σ HidHeader) := by
    unfold hidHeaderParse
    split
    · exact .pure trivial
    · exact .throw _
  exact .bind hparse fun _ _ => .ite (.throw _) (.ite (.throw _) (.pure trivial))

theorem SephUSBPrepare.ofValue_returns (value : UInt8) :
    Returns (fun _ => True) (SephUSBPrepare.ofValue value : Py σ SephUSBPrepare) :=
  .ite (.pure trivial) (.ite (.pure trivial) (.ite (.pure trivial) (.ite (.pure trivial)
    (.ite (.pure trivial) (.throw _)))))

theorem SephUSBConfig.ofValue_returns (value : UInt8) :
    Returns (fun _ => True) (SephUSBConfig.ofValue value : Py σ SephUSBConfig) :=
  .ite (.pure trivial) (.ite (.pure trivial) (.ite (.pure trivial) (.ite (.pure trivial)
    (.throw _))))

theorem USBTransport.item_returns (data : Bytes) (i : Nat) :
    Returns (fun _ => True) (USBTransport.item data i : Py σ UInt8) := by
  unfold USBTransport.item
  split
  · exact .pure trivial
  · exact .throw _

/-- The packet is a transfer: its `usb_header` has the tag `XFER_IN` or
`XFER_OUT`. -/
def isXfer (packet : Bytes) : Bool :=
  packet[1]? == some (UInt8.ofNat SephUSBTag.xferIn.value) ||
    packet[1]? == some (UInt8.ofNat SephUSBTag.xferOut.value)

theorem isXfer_append {header : Bytes} {tag : SephUSBTag}
    (hh : header[1]? = some (UInt8.ofNat tag.value)) (ht : tag = .xferIn ∨ tag = .xferOut)
    (data : Bytes) : isXfer (header ++ data) := by
  have hlen : 1 < header.length := (List.getElem?_eq_some_iff.mp hh).1
  rw [isXfer, List.getElem?_append_left hlen, hh]
  rcases ht with rfl | rfl <;> decide

theorem HID.buildXfer_returns {tag : SephUSBTag} (ht : tag = .xferIn ∨ tag = .xferOut)
    (data : Bytes) (seq length : Nat) :
    Returns (isXfer ·) (HID.buildXfer tag data seq length) := by
  refine .bind (HID.buildHeader_returns length seq) fun header _ => ?_
  refine .bind .get fun t _ => ?_
  refine .bind (usbHeaderBuild_returns _ _ _) fun packet hpacket => ?_
  rw [List.append_assoc]
  exact .pure (isXfer_append hpacket ht _)

theorem U2F.buildXfer_returns {tag : SephUSBTag} (ht : tag = .xferIn ∨ tag = .xferOut)
    (data : Bytes) : Returns (isXfer ·) (U2F.buildXfer tag data) := by
  refine .bind .get fun t _ => ?_
  refine .bind (usbHeaderBuild_returns _ _ _) fun packet hpacket => ?_
  exact .pure (isXfer_append hpacket ht _)

-- ---------------------------------------------------------------------------
-- What `send` and `_prepare` keep
-- ---------------------------------------------------------------------------

section
variable {I : USBTransport → Prop}

theorem HID.sendFrom_keeps (hsubmit : ∀ t packet, isXfer packet → I t → I (t.submit packet))
    (data : Bytes) (seq offset : Nat) : Keeps I (HID.sendFrom data seq offset) := by
  induction seq, offset using HID.sendFrom.induct data with
  | case1 seq offset h size chunk ih =>
    rw [HID.sendFrom, if_pos h]
    refine .bind_returns (HID.buildXfer_returns (.inr rfl) _ _ _) fun packet hpacket => ?_
    exact .bind (.modify fun t ht => hsubmit t packet hpacket ht) fun _ => ih
  | case2 seq offset h =>
    rw [HID.sendFrom, if_neg h]
    exact .pure ()

theorem USBTransport.send_keeps
    (hsubmit : ∀ t packet, isXfer packet → I t → I (t.submit packet)) (data : Bytes) :
    Keeps I (USBTransport.send data) := by
  refine .bind .get fun t => ?_
  split
  · refine .ite (.throw _) (.bind_returns (U2F.buildXfer_returns (.inr rfl) _) fun packet hp => ?_)
    exact .modify fun t ht => hsubmit t packet hp ht
  · exact HID.sendFrom_keeps hsubmit data 0 0

variable (hsubmit : ∀ t packet, isXfer packet → I t → I (t.submit packet))
  (hhid : ∀ t p, I t → I { t with subclass := .hid p })
include hsubmit hhid

theorem HID.receiveChunk_keeps (p : HIDPacket) (chunk : Bytes) :
    Keeps I (HID.receiveChunk p chunk) := by
  refine .bind (.modify fun t ht => hhid t _ ht) fun _ => ?_
  refine .bind_returns (HID.buildXfer_returns (.inl rfl) _ _ _) fun packet hpacket => ?_
  refine .bind (.modify fun t ht => hsubmit t packet hpacket ht) fun _ => ?_
  exact .ite (.bind (.modify fun t ht => hhid t _ ht) fun _ => .pure _) (.pure _)

theorem USBTransport.prepareHook_keeps (data : Bytes) :
    Keeps I (USBTransport.prepareHook data) := by
  refine .bind .get fun t => ?_
  split
  · refine .ite (.throw _) (.bind_returns (U2F.buildXfer_returns (.inl rfl) _) fun packet hp => ?_)
    exact .bind (.modify fun t ht => hsubmit t packet hp ht) fun _ => .pure _
  · refine .bind_returns (HID.parseChunk_returns data) fun hid _ => ?_
    refine .ite (HID.receiveChunk_keeps hsubmit hhid _ _) (.ite (.throw _) ?_)
    exact HID.receiveChunk_keeps hsubmit hhid _ _

omit hsubmit hhid

theorem USBTransport.prepare_keeps (hhook : ∀ data, Keeps I (USBTransport.prepareHook data))
    (data : Bytes) : Keeps I (USBTransport.prepare data) := by
  refine .bind_returns (usbHeaderParse_returns _) fun header _ => ?_
  refine .bind_returns (SephUSBPrepare.ofValue_returns _) fun tag _ => ?_
  exact .bind .get fun t => .ite (.ite (.throw _) (hhook _)) (.pure _)

theorem USBTransport.config_keeps (hstate : ∀ t state, I t → I { t with state })
    (hsetup : ∀ breq wValue, Keeps I (USBTransport.sendSetup breq wValue))
    (hhook : ∀ tag, Keeps I (USBTransport.configHook tag))
    (hflush : ∀ t, I t → I t.flushPackets) (data : Bytes) : Keeps I (USBTransport.config data) := by
  refine .bind_returns (item_returns data 0) fun value _ => ?_
  refine .bind_returns (SephUSBConfig.ofValue_returns value) fun tag _ => ?_
  cases tag with
  | connect =>
    refine .bind .get fun t => .ite (.bind (.modify fun t ht => hstate t _ ht) fun _ => ?_)
      (.pure _)
    exact hsetup _ _
  | disconnect => exact .bind (.modify fun t ht => hstate t _ ht) fun _ => hhook _
  | addr =>
    refine .bind .get fun t => .ite (.bind (.modify fun t ht => hstate t _ ht) fun _ => ?_)
      (.pure _)
    exact hsetup _ _
  | endpoints =>
    refine .bind_returns (item_returns data 2) fun endpoint _ => .bind .get fun t => ?_
    exact .ite (.modify fun t ht => hflush t ht) (.pure _)

end

end Speculos.Transport
