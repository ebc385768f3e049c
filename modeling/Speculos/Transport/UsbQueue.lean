import Speculos.Transport.HidReceive
import Speculos.Transport.UsbLaws

/-!
# The queue of the USB transports

Over any sequence of `send`, `prepare` and `config` calls, the transfers given
to `send_cb` and those still queued are together the transfers submitted, in
that order, and none is given to `send_cb` before the device is configured.

`HID._config` compares the tag of the event with a member of `USBDevState`
that no tag equals, so the response in progress survives. It shows exactly
when a later chunk continues it before another one starts a new response.
-/

namespace Speculos.Transport

open Lib

namespace USBTransport

inductive Call
  | send (data : Bytes)
  | prepare (data : Bytes)
  | config (data : Bytes)
  deriving DecidableEq, Repr

def call : Call → Py USBTransport (Option Bytes)
  | .send data => do send data; return none
  | .prepare data => prepare data
  | .config data => do config data; return none

def delivered (t : USBTransport) : List Bytes := (t.sent.map (·.packet)).filter isXfer

/-- Nothing is lost, duplicated or reordered, and nothing was sent early. -/
structure InOrder (t : USBTransport) : Prop where
  order : t.delivered ++ t.packetsToSend = t.submitted
  configured : ∀ c ∈ t.sent, isXfer c.packet → c.state = .configured

/-- What the methods keep: the queue holds transfers only. -/
structure Inv (t : USBTransport) : Prop extends InOrder t where
  queued : ∀ packet ∈ t.packetsToSend, isXfer packet

variable {t : USBTransport}

theorem inv_new (subclass : Subclass) : (new subclass).Inv :=
  ⟨⟨rfl, by simp [new]⟩, by simp [new]⟩

theorem delivered_sendCb_of_isXfer (t : USBTransport) (tag : SephUSBTag) (h : isXfer packet) :
    (t.sendCb tag packet).delivered = t.delivered ++ [packet] := by
  simp [delivered, sendCb, h]

theorem delivered_sendCb_of_not_isXfer (t : USBTransport) (tag : SephUSBTag) (h : ¬ isXfer packet) :
    (t.sendCb tag packet).delivered = t.delivered := by
  simp [delivered, sendCb, h]

theorem Inv.submit (hi : t.Inv) (hp : isXfer packet) : (t.submit packet).Inv := by
  unfold USBTransport.submit sendXfer
  split
  · refine ⟨⟨?_, hi.configured⟩, ?_⟩
    · show t.delivered ++ (t.packetsToSend ++ [packet]) = t.submitted ++ [packet]
      rw [← List.append_assoc, hi.order]
    · intro q hq
      rcases List.mem_append.mp hq with hq | hq
      · exact hi.queued q hq
      · rw [List.mem_singleton.mp hq]
        exact hp
  · rename_i hc
    obtain ⟨hstate, hempty⟩ := not_or.mp hc
    have hnil : t.packetsToSend = [] := by simpa using hempty
    refine ⟨⟨?_, ?_⟩, hi.queued⟩
    · show (t.sendCb .xferEvent packet).delivered ++ t.packetsToSend = t.submitted ++ [packet]
      rw [delivered_sendCb_of_isXfer t _ hp, ← hi.order, hnil]
      simp
    · intro c hc
      rcases List.mem_append.mp hc with hc | hc
      · exact hi.configured c hc
      · rw [List.mem_singleton.mp hc]
        exact fun _ => not_not.mp hstate

theorem Inv.sendCb (hi : t.Inv) (tag : SephUSBTag) (hp : ¬ isXfer packet) :
    (t.sendCb tag packet).Inv := by
  refine ⟨⟨?_, ?_⟩, hi.queued⟩
  · rw [delivered_sendCb_of_not_isXfer t tag hp]
    exact hi.order
  · intro c hc
    rcases List.mem_append.mp hc with hc | hc
    · exact hi.configured c hc
    · rw [List.mem_singleton.mp hc]
      exact fun h => absurd h hp

theorem foldl_sendXfer_of_not_configured (packets : List Bytes) (t : USBTransport)
    (h : t.state ≠ .configured) :
    packets.foldl sendXfer t = { t with packetsToSend := t.packetsToSend ++ packets } := by
  induction packets generalizing t with
  | nil => simp
  | cons packet packets ih =>
    rw [List.foldl_cons, sendXfer, if_pos (.inl h),
      ih { t with packetsToSend := t.packetsToSend ++ [packet] } h]
    simp

theorem foldl_sendXfer_of_configured (packets : List Bytes) (t : USBTransport)
    (h : t.state = .configured) (hq : t.packetsToSend = []) :
    packets.foldl sendXfer t =
      { t with sent := t.sent ++ packets.map fun packet => ⟨.xferEvent, packet, .configured⟩ } := by
  induction packets generalizing t with
  | nil => simp
  | cons packet packets ih =>
    rw [List.foldl_cons, sendXfer, if_neg (by simp [h, hq]), ih (t.sendCb .xferEvent packet) h hq]
    simp [USBTransport.sendCb, h]

theorem Inv.flushPackets (hi : t.Inv) : t.flushPackets.Inv := by
  rw [USBTransport.flushPackets]
  by_cases hstate : t.state = .configured
  · rw [foldl_sendXfer_of_configured _ { t with packetsToSend := [] } hstate rfl]
    refine ⟨⟨?_, ?_⟩, by simp⟩
    · rw [← show t.delivered ++ t.packetsToSend = t.submitted from hi.order]
      simp [delivered, List.filter_eq_self.mpr hi.queued, Function.comp_def]
    · intro c hc
      rcases List.mem_append.mp hc with hc | hc
      · exact hi.configured c hc
      · obtain ⟨packet, -, rfl⟩ := List.mem_map.mp hc
        exact fun _ => rfl
  · rw [foldl_sendXfer_of_not_configured _ { t with packetsToSend := [] } hstate]
    exact hi

theorem sendSetup_keeps (breq : USBReq) (wValue : Nat) :
    Keeps Inv (sendSetup breq wValue) := by
  refine .bind .get fun t => ?_
  refine .bind_returns (usbHeaderBuild_returns _ _ _) fun header hheader => ?_
  have hlen : 1 < header.length := (List.getElem?_eq_some_iff.mp hheader).1
  refine .bind_returns (usbSetupBuild_returns _ _ _ _ _) fun setup _ => .modify fun t ht => ?_
  refine ht.sendCb _ ?_
  rw [isXfer, List.getElem?_append_left hlen, hheader]
  decide

theorem Inv.of_eq {t' : USBTransport} (hi : t.Inv) (hsent : t'.sent = t.sent)
    (hq : t'.packetsToSend = t.packetsToSend) (hsub : t'.submitted = t.submitted) : t'.Inv := by
  refine ⟨⟨?_, ?_⟩, ?_⟩
  · rw [delivered, hsent, hq, hsub]
    exact hi.order
  · rw [hsent]
    exact hi.configured
  · rw [hq]
    exact hi.queued

theorem configHook_keeps (tag : SephUSBConfig) : Keeps Inv (configHook tag) := by
  refine .bind .get fun t => ?_
  split
  · exact .pure _
  · exact .ite (.modify fun t ht => ht.of_eq rfl rfl rfl) (.pure _)

theorem call_keeps (c : Call) : Keeps Inv (call c) := by
  have hsubmit : ∀ t packet, isXfer packet → Inv t → (t.submit packet).Inv :=
    fun _ _ hp ht => ht.submit hp
  have hhid : ∀ (t : USBTransport) p, Inv t → Inv { t with subclass := .hid p } :=
    fun _ _ ht => ht.of_eq rfl rfl rfl
  cases c with
  | send data => exact .bind (send_keeps hsubmit data) fun _ => .pure _
  | prepare data => exact prepare_keeps (prepareHook_keeps hsubmit hhid) data
  | config data =>
    refine .bind (config_keeps ?_ sendSetup_keeps configHook_keeps ?_ data) fun _ => .pure _
    · exact fun t state ht => ht.of_eq rfl rfl rfl
    · exact fun t ht => ht.flushPackets

/-- A new transport, HID or U2F, after any calls. -/
theorem afterAll_inOrder (calls : List Call) :
    (afterAll call HID.new calls).InOrder ∧ (afterAll call U2F.new calls).InOrder :=
  ⟨(afterAll_keeps call_keeps (inv_new _) calls).toInOrder,
    (afterAll_keeps call_keeps (inv_new _) calls).toInOrder⟩

example : (afterAll call HID.new [.send [0xe0, 0x01], .config [0x01], .config [0x03],
    .send [0xe0, 0x02], .config [0x04, 0x01, 0x02]]).delivered.length = 2 := by
  decide +kernel

end USBTransport

end Speculos.Transport

-- ---------------------------------------------------------------------------
-- A response in progress and a disconnection
-- ---------------------------------------------------------------------------

namespace Speculos.Transport

open Lib

namespace HIDPacket

/-- What `HID._prepare` answers to a sequence of chunks. -/
def receiveAll (p : HIDPacket) : List Bytes → List (Except PyError (Option Bytes))
  | [] => []
  | c :: cs => (p.receive c).1 :: (p.receive c).2.receiveAll cs

/-- No chunk continues a response at number `seq` before a chunk number 0. -/
def Unresumed (seq : Nat) : List Bytes → Prop
  | [] => True
  | c :: cs => match HID.chunkHeader c with
    | .error _ => Unresumed seq cs
    | .ok hid => hid.seq = 0 ∨ hid.seq ≠ seq ∧ Unresumed seq cs

theorem handOut_ne_error (p : HIDPacket) (e : PyError) : p.handOut.1 ≠ .error e := by
  unfold handOut
  split <;> simp

/-- A pending packet and a new one answer alike as long as the pending one is
not continued. -/
theorem receiveAll_eq_iff {p : HIDPacket} (hseq : p.seq ≠ 0) (later : List Bytes) :
    p.receiveAll later = (reset 0).receiveAll later ↔ Unresumed p.seq later := by
  induction later with
  | nil => simp [receiveAll, Unresumed]
  | cons c cs ih =>
    rw [receiveAll, receiveAll, Unresumed]
    cases hc : HID.chunkHeader c with
    | error e => simp [receive, hc, ih]
    | ok hid =>
      by_cases h0 : hid.seq = 0
      · simp [receive, hc, h0]
      · by_cases hp : hid.seq = p.seq
        · have hne := handOut_ne_error (p.appendData (c.drop (hidHeaderSizeof - 2)))
          simp [receive, hc, hp, hseq, hne]
        · simp [receive, hc, h0, hp, ih]

theorem Sound.receiveAll_eq_iff {p : HIDPacket} (hp : p.Sound) (later : List Bytes) :
    p.receiveAll later = (reset 0).receiveAll later ↔ p.seq = 0 ∨ Unresumed p.seq later := by
  by_cases hseq : p.seq = 0
  · rcases hp with rfl | ⟨hpos, -⟩
    · simp
    · omega
  · rw [HIDPacket.receiveAll_eq_iff hseq]
    simp [hseq]

end HIDPacket

namespace HID

open USBTransport (Call call)

/-- A HID object with a packet as `_prepare` leaves it. -/
def Receiving (t : USBTransport) : Prop := ∃ p, t.subclass = .hid p ∧ p.Sound

theorem outcomes_eq_receiveAll {t : USBTransport} (ht : t.subclass = .hid p) (hp : p.Sound)
    (later : List Bytes) : outcomes USBTransport.prepareHook t later = p.receiveAll later := by
  induction later generalizing t p with
  | nil => rfl
  | cons c cs ih =>
    obtain ⟨hout, hsub⟩ := prepareHook_eq t c ht fun _ _ _ => hp.seq_lt
    rw [outcomes, HIDPacket.receiveAll, hout, ih hsub (HIDPacket.receive_sound hp c)]

theorem prepareHook_keeps_receiving (data : Bytes) :
    Keeps Receiving (USBTransport.prepareHook data) := by
  rintro t ⟨p, ht, hp⟩
  exact ⟨_, (prepareHook_eq t data ht fun _ _ _ => hp.seq_lt).2, HIDPacket.receive_sound hp data⟩

theorem flushPackets_subclass (t : USBTransport) : t.flushPackets.subclass = t.subclass := by
  have hfold : ∀ (packets : List Bytes) (t : USBTransport),
      (packets.foldl USBTransport.sendXfer t).subclass = t.subclass := by
    intro packets
    induction packets with
    | nil => exact fun _ => rfl
    | cons packet packets ih =>
      intro t
      rw [List.foldl_cons, ih, USBTransport.sendXfer_subclass]
  exact hfold _ _

/-- No tag has the value `USBDevState.DISCONNECTED`: the reset is never reached. -/
theorem config_eq (tag : SephUSBConfig) : config tag = pure () := by
  cases tag <;> rfl

theorem config_keeps_packet (p : HIDPacket) (data : Bytes) :
    Keeps (fun t => t.subclass = .hid p) (USBTransport.config data) := by
  refine USBTransport.config_keeps (fun _ _ ht => ht) ?_ ?_ ?_ data
  · intro breq wValue
    refine .bind .get fun t => .bind_returns (usbHeaderBuild_returns _ _ _) fun header _ => ?_
    exact .bind_returns (usbSetupBuild_returns _ _ _ _ _) fun setup _ => .modify fun t ht => ht
  · intro tag t ht
    rw [USBTransport.configHook, bind_of_ok (get_apply t), ht]
    simp only [config_eq]
    exact ht
  · intro t ht
    rw [flushPackets_subclass]
    exact ht

theorem call_keeps_receiving (c : Call) : Keeps Receiving (call c) := by
  cases c with
  | send data =>
    refine .bind (USBTransport.send_keeps ?_ data) fun _ => .pure _
    rintro t packet - ⟨p, ht, hp⟩
    exact ⟨p, by rw [USBTransport.submit_subclass, ht], hp⟩
  | prepare data => exact USBTransport.prepare_keeps prepareHook_keeps_receiving data
  | config data =>
    refine .bind ?_ fun _ => .pure _
    rintro t ⟨p, ht, hp⟩
    exact ⟨p, config_keeps_packet p data t ht, hp⟩

/-- Any HID object, any chunks, a DISCONNECT event: the object then answers
every later sequence of chunks as a new one does exactly when no response was
in progress or none of the later chunks continues it. -/
theorem disconnect_forgets_iff (calls : List Call) (chunks : List Bytes) (rest : Bytes)
    (later : List Bytes) :
    ∃ p, (afterAll USBTransport.prepareHook (afterAll call HID.new calls) chunks).subclass =
        .hid p ∧
      (outcomes USBTransport.prepareHook
          (after (USBTransport.config (0x02 :: rest)
            (afterAll USBTransport.prepareHook (afterAll call HID.new calls) chunks))) later =
        outcomes USBTransport.prepareHook HID.new later ↔
          p.seq = 0 ∨ HIDPacket.Unresumed p.seq later) := by
  have hnew : Receiving HID.new := ⟨.reset 0, rfl, .inl rfl⟩
  obtain ⟨p, ht, hp⟩ := afterAll_keeps prepareHook_keeps_receiving
    (afterAll_keeps call_keeps_receiving hnew calls) chunks
  refine ⟨p, ht, ?_⟩
  rw [outcomes_eq_receiveAll (config_keeps_packet p _ _ ht) hp,
    outcomes_eq_receiveAll rfl (.inl rfl)]
  exact hp.receiveAll_eq_iff later

def firstChunk : Bytes := Protocol.frame usbChannel 100 0 (List.replicate 57 0)

def secondChunk : Bytes := Protocol.frame usbChannel 100 1 (List.replicate 59 1)

/-- The rest of a response is accepted after the disconnection, where a new
object raises. -/
theorem disconnect_not_forgotten :
    outcomes USBTransport.prepareHook
        (after (USBTransport.config [0x02]
          (afterAll USBTransport.prepareHook HID.new [firstChunk]))) [secondChunk] ≠
      outcomes USBTransport.prepareHook HID.new [secondChunk] := by
  decide

end HID

end Speculos.Transport
