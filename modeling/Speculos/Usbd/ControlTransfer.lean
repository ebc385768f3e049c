import Speculos.Usbd.Ctlreq

/-!
# Control reads

The data stage of a control transfer to the host. The device answers every
packet the host has fetched from endpoint 0 with the next one; the host stops at
a packet shorter than the largest, or once it has what it asked for. The two
agree on which packet is the last: the device goes over to the status stage
exactly when the host has stopped, and sends an empty packet where the data ends
with a full packet before the host has what it asked for.
-/

namespace Speculos.Usbd

open Lib

-- ---------------------------------------------------------------------------
-- The host
-- ---------------------------------------------------------------------------

/-- What a host that asked for `wanted` bytes reads out of the packets, and the packets
it leaves. -/
def readIn (size : Nat) : Nat → List Bytes → Option (Bytes × List Bytes)
  | _, [] => none
  | wanted, p :: ps =>
    if p.length < size ∨ wanted ≤ p.length then some (p, ps)
    else (readIn size (wanted - p.length) ps).map fun (data, rest) => (p ++ data, rest)

theorem readIn_last {size wanted : Nat} {p : Bytes} (h : p.length < size ∨ wanted ≤ p.length)
    (ps : List Bytes) : readIn size wanted (p :: ps) = some (p, ps) := by
  simp [readIn, h]

theorem readIn_more {size wanted : Nat} {p data : Bytes} {rest : List Bytes}
    (hfull : size ≤ p.length) (hmore : p.length < wanted) {ps : List Bytes}
    (h : readIn size (wanted - p.length) ps = some (data, rest)) :
    readIn size wanted (p :: ps) = some (p ++ data, rest) := by
  have hneg : ¬ (p.length < size ∨ wanted ≤ p.length) := by omega
  simp [readIn, hneg, h]

/-- The data packet for the host on endpoint 0 that a packet for the MCU carries. -/
def inPayload : Bytes → Option Bytes
  | tag :: _ :: _ :: epAddr :: dir :: _ :: payload =>
    if tag = tagUsbEpPrepare ∧ epAddr = 0x00 ∧ dir = 0x20 then some payload else none
  | _ => none

namespace Device

/-- The data packets for the host on endpoint 0, so far. -/
def inPackets (d : Device) : List Bytes := d.sent.filterMap inPayload

/-- The host has fetched a packet from endpoint 0, `n` times. -/
def fetched (d : Device) (n : Nat) : Device := (fun d => d.llDataInStage 0)^[n] d

theorem fetched_succ (d : Device) (n : Nat) : d.fetched (n + 1) = (d.llDataInStage 0).fetched n :=
  rfl

theorem llTransmit_eq (d : Device) (pbuf : Bytes) (size : Nat) :
    d.llTransmit 0x00 pbuf size =
      d.tx (tagUsbEpPrepare :: be16 (3 + size) ++ [0x00, 0x20, UInt8.ofNat size] ++
        pbuf.take size) := rfl

@[simp] theorem inPackets_llTransmit (d : Device) (pbuf : Bytes) (size : Nat) :
    (d.llTransmit 0x00 pbuf size).inPackets = d.inPackets ++ [pbuf.take size] := by
  rw [llTransmit_eq]
  simp [inPackets, tx, inPayload, be16, tagUsbEpPrepare]

@[simp] theorem inPackets_llPrepareReceive (d : Device) (ep : UInt8) (size : Nat) :
    (d.llPrepareReceive ep size).inPackets = d.inPackets := by
  unfold llPrepareReceive
  split
  · simp [inPackets, tx, inPayload, tagUsbEpPrepare]
  · rfl

@[simp] theorem epIn_setEpIn (d : Device) (i : Fin ioUsbMaxEndpoints) (f : Endpoint → Endpoint) :
    (d.setEpIn i f).epIn i = f (d.epIn i) := Function.update_self ..

-- ---------------------------------------------------------------------------
-- The device
-- ---------------------------------------------------------------------------

/-- The first packet of `data` has been sent in a transfer of which `wanted` bytes are
still to come for the host. -/
structure Sending (d : Device) (data : Bytes) (wanted : Nat) : Prop where
  state : d.ep0State = .dataIn
  maxpacket : (d.epIn 0).maxpacket = 64
  rem : (d.epIn 0).remLength = data.length
  pData : d.pData.take data.length = data
  total : data.length ≤ (d.epIn 0).totalLength
  wanted : d.ep0DataLen + data.length = (d.epIn 0).totalLength + wanted

variable {d : Device} {data : Bytes} {wanted : Nat}

theorem sending_ctlSendData (hmax : (d.epIn 0).maxpacket = 64) {pbuf : Bytes} {len : Nat}
    (hlen : len ≤ pbuf.length) :
    (d.ctlSendData pbuf len).Sending (pbuf.take len) d.ep0DataLen := by
  have htake : (pbuf.take len).length = len := by simp [hlen]
  exact {
    state := rfl
    maxpacket := hmax
    rem := htake.symm
    pData := by rw [htake]; rfl
    total := htake.le
    wanted := by rw [htake]; exact Nat.add_comm _ _ }

theorem inPackets_ctlSendData (hmax : (d.epIn 0).maxpacket = 64) (pbuf : Bytes) (len : Nat) :
    (d.ctlSendData pbuf len).inPackets = d.inPackets ++ [(pbuf.take len).take 64] := by
  simp only [ctlSendData, inPackets_llTransmit, epIn_setEpIn, hmax, List.take_take, Nat.min_comm]
  rfl

def advance (d : Device) : Device :=
  { d with pData := d.pData.drop (d.epIn 0).maxpacket }.setEpIn 0 fun ep =>
    { ep with remLength := ep.remLength - ep.maxpacket }

theorem llDataInStage_more (hstate : d.ep0State = .dataIn)
    (hgt : (d.epIn 0).remLength > (d.epIn 0).maxpacket) :
    d.llDataInStage 0 =
      (d.advance.llTransmit 0x00 d.advance.pData
        (min (d.advance.epIn 0).remLength (d.advance.epIn 0).maxpacket)).llPrepareReceive 0 0 := by
  rw [llDataInStage, if_pos rfl, if_pos hstate]
  exact if_pos hgt

theorem llDataInStage_empty (hstate : d.ep0State = .dataIn)
    (hle : ¬ (d.epIn 0).remLength > (d.epIn 0).maxpacket)
    (hempty : (d.epIn 0).maxpacket = (d.epIn 0).remLength ∧
      (d.epIn 0).totalLength ≥ (d.epIn 0).maxpacket ∧ (d.epIn 0).totalLength < d.ep0DataLen) :
    d.llDataInStage 0 =
      { d.llTransmit 0x00 [] (min 0 (d.epIn 0).maxpacket) with ep0DataLen := 0 }.llPrepareReceive
        0 0 := by
  rw [llDataInStage, if_pos rfl, if_pos hstate]
  exact (if_neg hle).trans (if_pos hempty)

theorem llDataInStage_status (hstate : d.ep0State = .dataIn)
    (hle : ¬ (d.epIn 0).remLength > (d.epIn 0).maxpacket)
    (hempty : ¬ ((d.epIn 0).maxpacket = (d.epIn 0).remLength ∧
      (d.epIn 0).totalLength ≥ (d.epIn 0).maxpacket ∧ (d.epIn 0).totalLength < d.ep0DataLen)) :
    d.llDataInStage 0 = d.ctlReceiveStatus := by
  rw [llDataInStage, if_pos rfl, if_pos hstate]
  exact (if_neg hle).trans (if_neg hempty)

theorem inPackets_ctlReceiveStatus : d.ctlReceiveStatus.inPackets = d.inPackets := by
  rw [ctlReceiveStatus, inPackets_llPrepareReceive]
  rfl

theorem Sending.more (h : d.Sending data wanted) (hmore : 64 < data.length)
    (hle : data.length ≤ wanted) :
    (d.llDataInStage 0).Sending (data.drop 64) (wanted - 64) ∧
      (d.llDataInStage 0).inPackets = d.inPackets ++ [(data.drop 64).take 64] := by
  obtain ⟨hstate, hmax, hrem, hpData, htotal, hwanted⟩ := h
  have hgt : (d.epIn 0).remLength > (d.epIn 0).maxpacket := by omega
  have hrem' : (d.advance.epIn 0).remLength = data.length - 64 := by simp [advance, hrem, hmax]
  have hmax' : (d.advance.epIn 0).maxpacket = 64 := by simp [advance, hmax]
  have htotal' : (d.advance.epIn 0).totalLength = (d.epIn 0).totalLength := by simp [advance]
  have hpData' : d.advance.pData = d.pData.drop 64 := congrArg d.pData.drop hmax
  have htake : d.advance.pData.take (data.length - 64) = data.drop 64 := by
    rw [hpData', ← List.drop_take, hpData]
  have hlen : (data.drop 64).length = data.length - 64 := List.length_drop
  rw [llDataInStage_more hstate hgt]
  refine ⟨⟨hstate, hmax', hrem'.trans hlen.symm, ?_, ?_, ?_⟩, ?_⟩
  · rw [hlen]
    exact htake
  · rw [hlen]
    exact (Nat.sub_le _ _).trans (htotal.trans htotal'.ge)
  · rw [hlen]
    show d.ep0DataLen + (data.length - 64) = (d.advance.epIn 0).totalLength + (wanted - 64)
    omega
  · rw [inPackets_llPrepareReceive, inPackets_llTransmit, hrem', hmax', ← htake, List.take_take,
      Nat.min_comm]
    rfl

theorem Sending.full (h : d.Sending data wanted) (hfull : data.length = 64) (hmore : 64 < wanted) :
    (d.fetched 1).ep0State = .dataIn ∧ (d.fetched 2).ep0State = .statusOut ∧
      (d.fetched 2).inPackets = d.inPackets ++ [[]] := by
  obtain ⟨hstate, hmax, hrem, -, htotal, hwanted⟩ := h
  have hone : d.fetched 1 =
      { d.llTransmit 0x00 [] (min 0 (d.epIn 0).maxpacket) with ep0DataLen := 0 }.llPrepareReceive
        0 0 := llDataInStage_empty hstate (by omega) (by omega)
  have hstate' : (d.fetched 1).ep0State = .dataIn := by
    rw [hone]
    exact hstate
  have hin : (d.fetched 1).epIn = d.epIn := by
    rw [hone]
    rfl
  have hlen : (d.fetched 1).ep0DataLen = 0 := by
    rw [hone]
    rfl
  have hle : ¬ ((d.fetched 1).epIn 0).remLength > ((d.fetched 1).epIn 0).maxpacket := by
    rw [hin]
    omega
  have hempty : ¬ (((d.fetched 1).epIn 0).maxpacket = ((d.fetched 1).epIn 0).remLength ∧
      ((d.fetched 1).epIn 0).totalLength ≥ ((d.fetched 1).epIn 0).maxpacket ∧
      ((d.fetched 1).epIn 0).totalLength < (d.fetched 1).ep0DataLen) := by
    rw [hlen]
    exact fun h => absurd h.2.2 (Nat.not_lt_zero _)
  have htwo : d.fetched 2 = (d.fetched 1).ctlReceiveStatus :=
    llDataInStage_status hstate' hle hempty
  refine ⟨hstate', ?_, ?_⟩
  · rw [htwo]
    rfl
  · rw [htwo, inPackets_ctlReceiveStatus, hone, inPackets_llPrepareReceive]
    exact inPackets_llTransmit d [] 0

theorem Sending.last (h : d.Sending data wanted) (hle : data.length ≤ 64)
    (hlast : data.length < 64 ∨ wanted ≤ 64) :
    (d.fetched 1).ep0State = .statusOut ∧ (d.fetched 1).inPackets = d.inPackets := by
  obtain ⟨hstate, hmax, hrem, -, htotal, hwanted⟩ := h
  have hone : d.fetched 1 = d.ctlReceiveStatus :=
    llDataInStage_status hstate (by omega) (by omega)
  rw [hone]
  exact ⟨rfl, inPackets_ctlReceiveStatus⟩

/-- The device goes over to the status stage on the packet with which the host stops
reading. -/
theorem Sending.ends (h : d.Sending data wanted) (hle : data.length ≤ wanted) :
    ∃ n packets, (d.fetched (n + 1)).ep0State = .statusOut ∧
      (∀ m ≤ n, (d.fetched m).ep0State = .dataIn) ∧
      (d.fetched (n + 1)).inPackets = d.inPackets ++ packets ∧
      readIn 64 wanted (data.take 64 :: packets) = some (data, []) := by
  -- on the length of the data: every packet but the last takes 64 bytes of it
  induction hlen : data.length using Nat.strong_induction_on generalizing d data wanted with
  | _ len ih =>
    subst hlen
    by_cases hmore : 64 < data.length
    · obtain ⟨hnext, hpacket⟩ := h.more hmore hle
      obtain ⟨n, packets, hend, hbefore, hsent, hread⟩ :=
        ih (data.drop 64).length (by simp; omega) hnext (by simp; omega) rfl
      refine ⟨n + 1, (data.drop 64).take 64 :: packets, hend, ?_, ?_, ?_⟩
      · intro m hm
        cases m with
        | zero => exact h.state
        | succ m => exact hbefore m (by omega)
      · rw [fetched_succ, hsent, hpacket, List.append_assoc]
        rfl
      · have htake : (data.take 64).length = 64 := by simp; omega
        have hread' : readIn 64 (wanted - (data.take 64).length)
            ((data.drop 64).take 64 :: packets) =
            some (data.drop 64, []) := by
          rw [htake]
          exact hread
        have happend := readIn_more htake.ge (by omega) hread'
        rwa [List.take_append_drop] at happend
    · have htake : data.take 64 = data := List.take_of_length_le (by omega)
      rw [htake]
      by_cases hfull : data.length = 64 ∧ 64 < wanted
      · obtain ⟨hone, htwo, hsent⟩ := h.full hfull.1 hfull.2
        refine ⟨1, [[]], htwo, ?_, hsent, ?_⟩
        · intro m hm
          obtain rfl | rfl : m = 0 ∨ m = 1 := by omega
          · exact h.state
          · exact hone
        · have hempty : readIn 64 (wanted - data.length) [[]] = some ([], []) :=
            readIn_last (.inl (by simp)) []
          have hread := readIn_more hfull.1.ge (by omega) hempty
          rwa [List.append_nil] at hread
      · obtain ⟨hend, hsent⟩ := h.last (by omega) (by omega)
        refine ⟨0, [], hend, ?_, by rw [hsent, List.append_nil], readIn_last (by omega) []⟩
        intro m hm
        obtain rfl := Nat.le_zero.mp hm
        exact h.state

def descriptorReq (wValue wIndex wLength : UInt16) : SetupReq :=
  { bmRequest := 0x80, bRequest := 0x06, wValue, wIndex, wLength }

theorem llSetupStage_getDescriptor {psetup : Bytes} {wValue wIndex wLength : UInt16}
    (hreq : parseSetupRequest psetup = descriptorReq wValue wIndex wLength) {desc : Bytes}
    (hfind : findDescriptor d.desc d.devSpeed wValue = some desc) (hdesc : desc ≠ [])
    (hlen : wLength ≠ 0) :
    d.llSetupStage psetup = some ((d.enterSetup (descriptorReq wValue wIndex wLength)).ctlSendData
      desc (min desc.length wLength.toNat)) := by
  have hpos : desc.length ≠ 0 := by simpa using hdesc
  have hfind' : findDescriptor (d.enterSetup (descriptorReq wValue wIndex wLength)).desc
      (d.enterSetup (descriptorReq wValue wIndex wLength)).devSpeed wValue = some desc := hfind
  have hrecipient : (0x80 : UInt8) &&& 0x1F = 0x00 := by decide
  have htype : (0x80 : UInt8) &&& 0x60 = 0x00 := by decide
  have hclass : ¬ ((0x00 : UInt8) = 0x20 ∨ (0x00 : UInt8) = 0x40) := by decide
  simp only [llSetupStage, hreq, stdDevReq, getDescriptor]
  simp only [descriptorReq] at hfind' ⊢
  simp only [hrecipient, htype, hclass, hfind', hlen, hpos, ne_eq, not_false_eq_true, if_true,
    if_false]

/-- The host reads a descriptor, up to the length it asked for, and the device takes as
many packets for it as the host. -/
theorem llSetupStage_read (d : Device) (psetup desc : Bytes) (wValue wIndex wLength : UInt16)
    (hmax : (d.epIn 0).maxpacket = 64)
    (hreq : parseSetupRequest psetup = descriptorReq wValue wIndex wLength)
    (hfind : findDescriptor d.desc d.devSpeed wValue = some desc) (hdesc : desc ≠ [])
    (hlen : wLength ≠ 0) :
    ∃ asked n packets, d.llSetupStage psetup = some asked ∧
      (asked.fetched (n + 1)).ep0State = .statusOut ∧
      (∀ m ≤ n, (asked.fetched m).ep0State = .dataIn) ∧
      (asked.fetched (n + 1)).inPackets = d.inPackets ++ packets ∧
      readIn 64 wLength.toNat packets = some (desc.take wLength.toNat, []) := by
  have hsetup := llSetupStage_getDescriptor hreq hfind hdesc hlen
  generalize hentered : d.enterSetup (descriptorReq wValue wIndex wLength) = entered at hsetup
  have htake : desc.take (min desc.length wLength.toNat) = desc.take wLength.toNat := by
    rw [Nat.min_comm, ← List.take_take, List.take_length]
  have hmax' : (entered.epIn 0).maxpacket = 64 := by
    rw [← hentered]
    exact hmax
  have hpackets : entered.inPackets = d.inPackets := by
    rw [← hentered]
    rfl
  have hsending := sending_ctlSendData hmax' (Nat.min_le_left desc.length wLength.toNat)
  have hfirst := inPackets_ctlSendData hmax' desc (min desc.length wLength.toNat)
  have hwanted : entered.ep0DataLen = wLength.toNat := by
    rw [← hentered]
    rfl
  rw [htake, hwanted] at hsending
  rw [htake, hpackets] at hfirst
  obtain ⟨n, packets, hend, hbefore, hsent, hread⟩ := hsending.ends (List.length_take_le _ _)
  refine ⟨_, n, (desc.take wLength.toNat).take 64 :: packets, hsetup, hend, hbefore, ?_, hread⟩
  rw [hsent, hfirst, List.append_assoc]
  rfl

/-- The configuration descriptor, of a device whose bus has been reset. -/
theorem llSetupStage_read_configuration :
    let d := (Device.started ⟨[], 0, 0, 0, false⟩).rxEvtReset
    ∃ asked n packets, d.llSetupStage [0x80, 0x06, 0, 2, 0, 0, 255, 0] = some asked ∧
      (asked.fetched (n + 1)).ep0State = .statusOut ∧
      (∀ m ≤ n, (asked.fetched m).ep0State = .dataIn) ∧
      (asked.fetched (n + 1)).inPackets = d.inPackets ++ packets ∧
      readIn 64 255 packets = some (getCfgDesc.take 255, []) :=
  llSetupStage_read (Device.started ⟨[], 0, 0, 0, false⟩).rxEvtReset
    [0x80, 0x06, 0, 2, 0, 0, 255, 0] getCfgDesc 0x0200 0 255 rfl rfl rfl (by decide) (by decide)

end Device

end Speculos.Usbd
