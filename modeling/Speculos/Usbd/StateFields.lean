import Speculos.Usbd.Ctlreq

/-!
# The fields that decide the state of the device

The device state and the one before a suspension, the configuration, the address,
whether the class has its data, and which endpoints are in use. What the stack does
to them is `Core.next` of an event: they change only on a reset, on suspension and
resumption, and on the requests to set the address and the configuration.
-/

namespace Speculos.Usbd

open Lib

-- ---------------------------------------------------------------------------
-- The events of the bus
-- ---------------------------------------------------------------------------

inductive BusEvent
  | reset
  | suspend
  | resume
  | setAddress (a : UInt8)
  | setConfiguration (n : Nat)
  | other
  deriving DecidableEq, Repr

def SetupReq.busEvent (req : SetupReq) : BusEvent :=
  if req.bmRequest &&& 0x1F = 0x00 ∧ req.bmRequest &&& 0x60 = 0x00 then
    if req.bRequest = 0x05 then
      if req.wIndex = 0 ∧ req.wLength = 0 ∧ req.wValue < 128 then
        .setAddress (lobyte req.wValue &&& 0x7F)
      else .other
    else if req.bRequest = 0x09 then
      if (lobyte req.wValue).toNat ≤ usbdMaxNumConfiguration then
        .setConfiguration (lobyte req.wValue).toNat
      else .other
    else .other
  else .other

def busEvent (sephBuffer : Bytes) : BusEvent :=
  let at' i := sephBuffer.getD i 0
  if at' 1 = 0x0F then
    if at' 4 = 0x01 then .reset
    else if at' 4 = 0x04 then .suspend
    else if at' 4 = 0x08 then .resume
    else .other
  else if at' 1 = 0x10 ∧ at' 5 = 0x01 then (parseSetupRequest (sephBuffer.drop 7)).busEvent
  else .other

-- ---------------------------------------------------------------------------
-- What decides the state
-- ---------------------------------------------------------------------------

structure Core where
  devState : DevState
  devOldState : DevState
  devConfig : Nat
  devAddress : UInt8
  hasClassData : Bool
  inUsed : Fin ioUsbMaxEndpoints → Bool
  outUsed : Fin ioUsbMaxEndpoints → Bool

def Device.core (d : Device) : Core :=
  { devState := d.devState
    devOldState := d.devOldState
    devConfig := d.devConfig
    devAddress := d.devAddress
    hasClassData := d.hasClassData
    inUsed := fun i => (d.epIn i).isUsed
    outUsed := fun i => (d.epOut i).isUsed }

namespace Core

/-- The endpoints of a number are used or not. -/
def setUsed (c : Core) (i : Fin ioUsbMaxEndpoints) (used : Bool) : Core :=
  { c with inUsed := Function.update c.inUsed i used, outUsed := Function.update c.outUsed i used }

/-- The class is set up or not. -/
def setClass (c : Core) (there : Bool) : Core := { c with hasClassData := there }.setUsed 2 there

def next (c : Core) : BusEvent → Core
  | .reset =>
    let c := { c with devState := .default, devConfig := 0 }
    (if c.hasClassData then c.setClass false else c).setUsed 0 true
  | .suspend => { c with devOldState := c.devState, devState := .suspended }
  | .resume => if c.devState = .suspended then { c with devState := c.devOldState } else c
  | .setAddress a =>
    if c.devState = .configured then c
    else { c with devAddress := a, devState := if a ≠ 0 then .addressed else .default }
  | .setConfiguration n =>
    match c.devState with
    | .addressed =>
      if n ≠ 0 then { c with devConfig := n, devState := .configured }.setClass true else c
    | .configured =>
      if n = 0 then { c with devState := .addressed, devConfig := n }.setClass false
      else if n ≠ c.devConfig then { c with devConfig := n }.setClass true
      else c
    | _ => c.setClass false
  | .other => c

end Core

namespace Device

variable (d : Device)

@[simp] theorem core_tx (packet : Bytes) : (d.tx packet).core = d.core := rfl

@[simp] theorem core_llOpenEp (ep : UInt8) (type : EpType) (mps : UInt8) :
    (d.llOpenEp ep type mps).core = d.core := by
  unfold llOpenEp
  split <;> rfl

@[simp] theorem core_llCloseEp (ep : UInt8) : (d.llCloseEp ep).core = d.core := by
  unfold llCloseEp
  split <;> rfl

@[simp] theorem core_llStallEp (ep : UInt8) : (d.llStallEp ep).core = d.core := by
  unfold llStallEp
  split
  · split <;> rfl
  · rfl

@[simp] theorem core_llClearStallEp (ep : UInt8) : (d.llClearStallEp ep).core = d.core := by
  unfold llClearStallEp
  split
  · split <;> rfl
  · rfl

@[simp] theorem core_llTransmit (ep : UInt8) (pbuf : Bytes) (size : Nat) :
    (d.llTransmit ep pbuf size).core = d.core := by
  unfold llTransmit
  split <;> rfl

@[simp] theorem core_llPrepareReceive (ep : UInt8) (size : Nat) :
    (d.llPrepareReceive ep size).core = d.core := by
  unfold llPrepareReceive
  split <;> rfl

@[simp] theorem core_ctlError : d.ctlError.core = d.core := by simp [ctlError]

theorem core_setEpIn (i : Fin ioUsbMaxEndpoints) {f : Endpoint → Endpoint}
    (h : ∀ ep, (f ep).isUsed = ep.isUsed) : (d.setEpIn i f).core = d.core := by
  simp only [core, setEpIn, Core.mk.injEq, true_and, and_true]
  funext j
  by_cases hj : j = i <;> simp [hj, h]

theorem core_setEpOut (i : Fin ioUsbMaxEndpoints) {f : Endpoint → Endpoint}
    (h : ∀ ep, (f ep).isUsed = ep.isUsed) : (d.setEpOut i f).core = d.core := by
  simp only [core, setEpOut, Core.mk.injEq, true_and]
  funext j
  by_cases hj : j = i <;> simp [hj, h]

theorem core_use (i : Fin ioUsbMaxEndpoints) (used : Bool) (f g : Endpoint → Endpoint)
    (hf : ∀ ep, (f ep).isUsed = used) (hg : ∀ ep, (g ep).isUsed = used) :
    ((d.setEpIn i f).setEpOut i g).core = d.core.setUsed i used := by
  simp only [core, setEpIn, setEpOut, Core.setUsed, Core.mk.injEq, true_and]
  constructor <;>
  · funext j
    by_cases hj : j = i
    · subst hj
      simp [hf, hg]
    · simp [hj]

@[simp] theorem core_ctlSendData (pbuf : Bytes) (len : Nat) :
    (d.ctlSendData pbuf len).core = d.core := by
  unfold ctlSendData
  simp only [core_llTransmit]
  exact core_setEpIn _ 0 (by intro; rfl)

@[simp] theorem core_ctlContinueSendData (pbuf : Bytes) (len : Nat) :
    (d.ctlContinueSendData pbuf len).core = d.core := by simp [ctlContinueSendData]

@[simp] theorem core_ctlSendStatus : d.ctlSendStatus.core = d.core := by
  simp only [ctlSendStatus, core_llTransmit]
  rfl

@[simp] theorem core_ctlReceiveStatus : d.ctlReceiveStatus.core = d.core := by
  simp only [ctlReceiveStatus, core_llPrepareReceive]
  rfl

@[simp] theorem core_transmitChunks (chunks : List Bytes) :
    (d.transmitChunks chunks).core = d.core := by
  unfold transmitChunks
  induction chunks generalizing d with
  | nil => rfl
  | cons chunk chunks ih => simp [ih]

@[simp] theorem core_setHid (h : HidHandle) : (d.setHid h).core = d.core := rfl

/-- A request to the class either is answered with data, or changes a setting or nothing. -/
theorem hidSetup_cases (req : SetupReq) :
    (∃ pbuf len, (d.hidSetup req).1 = d.ctlSendData pbuf len) ∨
      (∃ h : HidHandle, h.toLedgerHid = d.hid.toLedgerHid ∧ (d.hidSetup req).1 = d.setHid h) := by
  have hnone : ∃ h : HidHandle, h.toLedgerHid = d.hid.toLedgerHid ∧ d = d.setHid h :=
    ⟨d.hid, rfl, rfl⟩
  simp only [hidSetup]
  repeat' split
  all_goals first
    | exact .inl ⟨_, _, rfl⟩
    | exact .inr hnone
    | (refine .inr ⟨_, ?_, rfl⟩; rfl)

@[simp] theorem core_hidSetup (req : SetupReq) : (d.hidSetup req).1.core = d.core := by
  obtain ⟨pbuf, len, h⟩ | ⟨g, -, h⟩ := d.hidSetup_cases req <;> simp [h]

@[simp] theorem core_classSetup (req : SetupReq) : (d.classSetup req).1.core = d.core := by
  unfold classSetup
  split <;> simp

@[simp] theorem core_hidInit : d.hidInit.core = d.core := by simp [hidInit]

@[simp] theorem core_classInit : d.classInit.core = d.core.setClass true := by
  have hin : hasEp ledgerHidEpinAddr := by decide
  have hout : hasEp ledgerHidEpoutAddr := by decide
  simp only [classInit, core_hidInit, llOpenEp, hin, hout, if_true]
  exact core_use { d with hasClassData := true } 2 true (fun ep => { ep with isUsed := true })
    (fun ep => { ep with isUsed := true }) (fun _ => rfl) fun _ => rfl

@[simp] theorem core_classDeInit : d.classDeInit.core = d.core.setClass false := by
  have hin : hasEp ledgerHidEpinAddr := by decide
  have hout : hasEp ledgerHidEpoutAddr := by decide
  simp only [classDeInit, llCloseEp, hin, hout, if_true]
  exact core_use { d with hasClassData := false } 2 false (fun ep => { ep with isUsed := false })
    (fun ep => { ep with isUsed := false }) (fun _ => rfl) fun _ => rfl

@[simp] theorem core_hidDataIn : d.hidDataIn.core = d.core := by simp [hidDataIn]

@[simp] theorem core_hidDataOut (packet : Bytes) : (d.hidDataOut packet).core = d.core := by
  simp [hidDataOut]

@[simp] theorem core_hidSendPacket (packet : Bytes) :
    (d.hidSendPacket packet).core = d.core := by simp [hidSendPacket]

@[simp] theorem core_dataReady (maxLength : Nat) : (d.dataReady maxLength).1.core = d.core := by
  simp only [dataReady, hidDataReady]
  repeat' split
  all_goals rfl

-- ---------------------------------------------------------------------------
-- What a request does to it
-- ---------------------------------------------------------------------------

variable (req : SetupReq)

@[simp] theorem core_getDescriptor : (d.getDescriptor req).core = d.core := by
  unfold getDescriptor
  repeat' split
  all_goals simp

theorem core_setDevState (devState : DevState) :
    ({ d with devState := devState } : Device).core = { d.core with devState := devState } := rfl

@[simp] theorem core_setDevConfig (n : Nat) :
    ({ d with devConfig := n } : Device).core = { d.core with devConfig := n } := rfl

theorem core_setAddress (h : req.wIndex = 0 ∧ req.wLength = 0 ∧ req.wValue < 128) :
    (d.setAddress req).core = d.core.next (.setAddress (lobyte req.wValue &&& 0x7F)) := by
  simp only [setAddress, h, and_self, if_true, Core.next]
  have hstate : d.core.devState = d.devState := rfl
  rw [hstate]
  split
  · simp
  · rw [core_setDevState, core_ctlSendStatus, llSetUsbAddress, core_tx]
    rfl

theorem core_setAddress_other (h : ¬ (req.wIndex = 0 ∧ req.wLength = 0 ∧ req.wValue < 128)) :
    (d.setAddress req).core = d.core := by
  simp [setAddress, h]

theorem core_setConfig (h : (lobyte req.wValue).toNat ≤ usbdMaxNumConfiguration) :
    (d.setConfig req).core = d.core.next (.setConfiguration (lobyte req.wValue).toNat) := by
  simp only [setConfig, Nat.not_lt.mpr h, if_false, Core.next]
  have hstate : d.core.devState = d.devState := rfl
  have hconfig : d.core.devConfig = d.devConfig := rfl
  rw [hstate, hconfig]
  cases hd : d.devState with
  | addressed =>
    dsimp only
    split
    · rw [core_setDevState, core_ctlSendStatus, core_classInit]
      rfl
    · simp
  | configured =>
    dsimp only
    split
    · rw [core_ctlSendStatus, core_classDeInit]
      rfl
    · split
      · rw [core_ctlSendStatus, core_classInit, core_setDevConfig, core_classDeInit]
        simp [Core.setClass, Core.setUsed, hstate, hd]
      · simp
  | unset | default | suspended => simp

theorem core_setConfig_other (h : ¬ (lobyte req.wValue).toNat ≤ usbdMaxNumConfiguration) :
    (d.setConfig req).core = d.core := by
  simp [setConfig, Nat.not_le.mp h]

@[simp] theorem core_getConfig : (d.getConfig req).core = d.core := by
  unfold getConfig
  split
  · simp
  · split
    · rw [core_ctlSendData]
      rfl
    · rw [core_ctlSendData]
      rfl
    · simp
    · simp

@[simp] theorem core_getStatus : (d.getStatus req).core = d.core := by
  have hsent : (if req.wLength ≠ 2 then d.ctlError
      else ({ d with devConfigStatus := if d.devRemoteWakeup then 0x01 ||| 0x02 else 0x01 } :
        Device).ctlSendData [UInt8.ofNat (if d.devRemoteWakeup then 0x01 ||| 0x02 else 0x01), 0]
          2).core = d.core := by
    split
    · simp
    · rw [core_ctlSendData]
      rfl
  unfold getStatus
  split
  · exact hsent
  · exact hsent
  · exact hsent
  · simp

@[simp] theorem core_setFeature : (d.setFeature req).core = d.core := by
  unfold setFeature
  split
  · rw [core_ctlSendStatus]
    rfl
  · rfl

@[simp] theorem core_clrFeature : (d.clrFeature req).core = d.core := by
  have hcleared : ({ d with devRemoteWakeup := false } : Device).ctlSendStatus.core = d.core := by
    rw [core_ctlSendStatus]
    rfl
  unfold clrFeature
  repeat' split
  all_goals simp [hcleared]

theorem core_stdDevReq (h : req.bmRequest &&& 0x1F = 0x00) :
    (d.stdDevReq req).core = d.core.next req.busEvent := by
  simp only [stdDevReq, SetupReq.busEvent, h, true_and]
  by_cases hstd : req.bmRequest &&& 0x60 = 0x00
  · have hclass : ¬ ((0x00 : UInt8) = 0x20 ∨ (0x00 : UInt8) = 0x40) := by decide
    simp only [hstd, hclass, if_true, if_false]
    by_cases haddress : req.bRequest = 0x05
    · have hdescriptor : ¬ (0x05 : UInt8) = 0x06 := by decide
      simp only [haddress, hdescriptor, if_true, if_false]
      split
      · exact d.core_setAddress req ‹_›
      · exact d.core_setAddress_other req ‹_›
    · simp only [haddress, if_false]
      by_cases hconfig : req.bRequest = 0x09
      · have hdescriptor : ¬ (0x09 : UInt8) = 0x06 := by decide
        simp only [hconfig, hdescriptor, if_true, if_false]
        split
        · exact d.core_setConfig req ‹_›
        · exact d.core_setConfig_other req ‹_›
      · simp only [hconfig, if_false]
        repeat' split
        all_goals simp [Core.next]
  · simp only [hstd, if_false]
    split <;> simp [Core.next]

@[simp] theorem core_stdItfReq : (d.stdItfReq req).core = d.core := by
  unfold stdItfReq
  dsimp only
  split
  · cases d.devState with
    | default | addressed | configured =>
      dsimp only
      split
      · split <;> simp
      · simp
    | unset | suspended => simp
  · simp

@[simp] theorem core_stallAddressed (ep : UInt8) : (d.stallAddressed ep).core = d.core := by
  unfold stallAddressed
  split <;> simp

@[simp] theorem core_setEpFeature (ep : UInt8) : (d.setEpFeature req ep).core = d.core := by
  unfold setEpFeature
  cases d.devState with
  | configured =>
    dsimp only
    split <;> simp
  | unset | default | addressed | suspended => simp

@[simp] theorem core_clrEpFeature (ep : UInt8) : (d.clrEpFeature req ep).core = d.core := by
  unfold clrEpFeature
  cases d.devState with
  | configured =>
    dsimp only
    split
    · split <;> simp
    · rfl
  | unset | default | addressed | suspended => simp

@[simp] theorem core_sendEpStatus (ep : UInt8) (i : Fin ioUsbMaxEndpoints) (status : UInt32) :
    (d.sendEpStatus ep i status).core = d.core := by
  unfold sendEpStatus
  dsimp only
  split
  · rw [core_ctlSendData]
    exact core_setEpIn _ i (by intro; rfl)
  · rw [core_ctlSendData]
    exact core_setEpOut _ i (by intro; rfl)

theorem core_getEpStatus {d d' : Device} {ep : UInt8} (h : d.getEpStatus ep = some d') :
    d'.core = d.core := by
  unfold getEpStatus at h
  cases hstate : d.devState with
  | configured =>
    simp only [hstate] at h
    obtain ⟨i, -, h⟩ := Option.bind_eq_some_iff.mp h
    split at h
    · cases h
      simp
    · obtain ⟨j, -, rfl⟩ := Option.map_eq_some_iff.mp h
      simp
  | addressed =>
    simp only [hstate] at h
    split at h
    · cases h
      simp
    · obtain ⟨j, -, rfl⟩ := Option.map_eq_some_iff.mp h
      simp
  | unset | default | suspended =>
    simp only [hstate] at h
    cases h
    simp

theorem core_stdEpReq {d d' : Device} {req : SetupReq} (h : d.stdEpReq req = some d') :
    d'.core = d.core := by
  simp only [stdEpReq] at h
  split at h
  · cases h
    simp
  · split at h
    · split at h
      · cases h
        simp
      · split at h
        · cases h
          simp
        · split at h
          · exact core_getEpStatus h
          · cases h
            simp
    · cases h
      simp

-- ---------------------------------------------------------------------------
-- What a packet does to it
-- ---------------------------------------------------------------------------

theorem core_llSetupStage {d d' : Device} {psetup : Bytes} (h : d.llSetupStage psetup = some d') :
    d'.core = d.core.next (parseSetupRequest psetup).busEvent := by
  simp only [llSetupStage] at h
  generalize parseSetupRequest psetup = req at h ⊢
  split at h
  · rename_i hdevice
    cases h
    rw [core_stdDevReq _ _ hdevice]
    rfl
  · rename_i hdevice
    have hother : req.busEvent = .other := by simp [SetupReq.busEvent, hdevice]
    rw [hother]
    split at h
    · cases h
      rw [core_stdItfReq]
      rfl
    · split at h
      · exact (core_stdEpReq h :)
      · cases h
        rw [core_llStallEp]
        rfl

@[simp] theorem core_llDataInStage (epnum : UInt8) : (d.llDataInStage epnum).core = d.core := by
  simp only [llDataInStage]
  split
  · split
    · split
      · rw [core_llPrepareReceive, core_ctlContinueSendData]
        exact core_setEpIn _ 0 (by intro; rfl)
      · split
        · rw [core_llPrepareReceive]
          exact d.core_ctlContinueSendData [] 0
        · simp
    · rfl
  · unfold classDataIn
    split
    · split <;> simp
    · rfl

@[simp] theorem core_llDataOutStage (epnum : UInt8) (packet : Bytes) :
    (d.llDataOutStage epnum packet).core = d.core := by
  simp only [llDataOutStage]
  split
  · split
    · split
      · rw [ctlContinueRx, core_llPrepareReceive]
        exact core_setEpOut d 0 (by intro; rfl)
      · simp
    · rfl
  · unfold classDataOut
    split
    · split <;> simp
    · rfl

theorem core_llReset : d.llReset.core = d.core.next .reset := by
  have hout : hasEp 0x00 := by decide
  have hin : hasEp 0x80 := by decide
  have hopen (e : Device) (f g : Endpoint → Endpoint) (mps : UInt8)
      (hf : ∀ ep, (f ep).isUsed = true) (hg : ∀ ep, (g ep).isUsed = true) :
      (((e.llOpenEp 0x00 .ctrl mps).setEpOut 0 f).llOpenEp 0x80 .ctrl mps |>.setEpIn 0 g).core =
        e.core.setUsed 0 true := by
    simp only [llOpenEp, hin, hout, if_true]
    exact core_use e 0 true g f hg hf
  simp only [llReset, Core.next]
  rw [hopen _ _ _ _ (by intro; rfl) (by intro; rfl)]
  by_cases hthere : d.hasClassData = true
  · rw [if_pos hthere, if_pos (show d.core.hasClassData = true from hthere), core_classDeInit]
    rfl
  · rw [if_neg hthere, if_neg (show ¬ d.core.hasClassData = true from hthere)]
    rfl

theorem core_rxEvtReset : d.rxEvtReset.core = d.core.next .reset := core_llReset _

theorem core_rxSephEvt {d d' : Device} {sephBuffer : Bytes} {length maxLength : Nat}
    (h : d.rxSephEvt sephBuffer length maxLength = some (d', status, apdu)) :
    d'.core = d.core.next (busEvent sephBuffer) := by
  simp only [rxSephEvt] at h
  unfold busEvent
  dsimp only
  by_cases hevent : sephBuffer.getD 1 0 = 0x0F
  · simp only [hevent, if_true] at h ⊢
    by_cases hreset : sephBuffer.getD 4 0 = 0x01
    · simp only [hreset, if_true] at h ⊢
      cases h
      exact d.core_rxEvtReset
    · simp only [hreset, if_false] at h ⊢
      split at h
      · rename_i hsof
        cases h
        simp only [hsof]
        rfl
      · split at h
        · rename_i hsuspend
          cases h
          simp only [hsuspend, if_true]
          rfl
        · rename_i hsuspend
          simp only [hsuspend, if_false]
          split at h
          · rename_i hresume
            cases h
            simp only [hresume, if_true, Core.next, llResume]
            have hstate : d.core.devState = d.devState := rfl
            rw [hstate]
            split <;> rfl
          · rename_i hresume
            cases h
            simp only [hresume, if_false]
            rfl
  · simp only [hevent, if_false] at h ⊢
    by_cases hxfer : sephBuffer.getD 1 0 = 0x10
    · simp only [hxfer, if_true, true_and] at h ⊢
      by_cases hsetup : sephBuffer.getD 5 0 = 0x01
      · simp only [hsetup, if_true] at h ⊢
        obtain ⟨e, he, heq⟩ := Option.map_eq_some_iff.mp h
        cases heq
        exact core_llSetupStage he
      · simp only [hsetup, if_false] at h ⊢
        split at h
        · split at h
          · cases h
            exact d.core_llDataInStage _
          · cases h
            rfl
        · split at h
          · split at h
            · have hready := congrArg Prod.fst (Option.some.inj h)
              dsimp only at hready
              rw [← hready, core_dataReady]
              exact d.core_llDataOutStage _ _
            · cases h
              rfl
          · cases h
            rfl
    · simp only [hxfer, if_false, false_and] at h ⊢
      cases h
      rfl

end Device

end Speculos.Usbd
