import Speculos.Usbd.Descriptors

/-!
# Requests

`usbd_ctlreq.c`: what the stack does with a setup packet. The statuses that no
caller reads are left out. `ep_in` and `ep_out` have 6 entries, and a request that
makes the stack look behind them has no outcome (`none`).
-/

namespace Speculos.Usbd

open Lib

/-- `USBD_ParseSetupRequest`, of 8 bytes at `pdata`. -/
def parseSetupRequest (pdata : Bytes) : SetupReq :=
  let word i := UInt16.ofNat (fromLE [pdata.getD i 0, pdata.getD (i + 1) 0])
  { bmRequest := pdata.getD 0 0
    bRequest := pdata.getD 1 0
    wValue := word 2
    wIndex := word 4
    wLength := word 6 }

def usbdMaxNumInterfaces : Nat := 4
def usbdMaxNumConfiguration : Nat := 1

def epIndex (i : UInt8) : Option (Fin ioUsbMaxEndpoints) :=
  if h : i.toNat < ioUsbMaxEndpoints then some ⟨i.toNat, h⟩ else none

namespace Device

-- ---------------------------------------------------------------------------
-- Requests to the device
-- ---------------------------------------------------------------------------

def getDescriptor (d : Device) (req : SetupReq) : Device :=
  match findDescriptor d.desc d.devSpeed req.wValue with
  | none => d.ctlError
  | some pbuf =>
    if req.wLength ≠ 0 then
      if pbuf.length ≠ 0 then d.ctlSendData pbuf (min pbuf.length req.wLength.toNat)
      else d.ctlError
    else d.ctlSendStatus

def setAddress (d : Device) (req : SetupReq) : Device :=
  if req.wIndex = 0 ∧ req.wLength = 0 ∧ req.wValue < 128 then
    let devAddr := lobyte req.wValue &&& 0x7F
    if d.devState = .configured then d.ctlError
    else
      let d := ({ d with devAddress := devAddr }.llSetUsbAddress devAddr).ctlSendStatus
      { d with devState := if devAddr ≠ 0 then .addressed else .default }
  else d.ctlError

/-- `USBD_SetClassConfig` returns what the class does, `USBD_OK`. -/
def setConfig (d : Device) (req : SetupReq) : Device :=
  let cfgidx := (lobyte req.wValue).toNat
  if cfgidx > usbdMaxNumConfiguration then d.ctlError
  else
    match d.devState with
    | .addressed =>
      if cfgidx ≠ 0 then
        { ({ d with devConfig := cfgidx }.classInit).ctlSendStatus with devState := .configured }
      else d.ctlSendStatus
    | .configured =>
      if cfgidx = 0 then
        ({ d with devState := .addressed, devConfig := cfgidx }.classDeInit).ctlSendStatus
      else if cfgidx ≠ d.devConfig then
        ({ d.classDeInit with devConfig := cfgidx }.classInit).ctlSendStatus
      else d.ctlSendStatus
    | _ => d.ctlError.classDeInit

def getConfig (d : Device) (req : SetupReq) : Device :=
  if req.wLength ≠ 1 then d.ctlError
  else
    match d.devState with
    | .default | .addressed => { d with devDefaultConfig := 0 }.ctlSendData [0] 1
    | .configured => d.ctlSendData [UInt8.ofNat d.devConfig] 1
    | _ => d.ctlError

def getStatus (d : Device) (req : SetupReq) : Device :=
  match d.devState with
  | .default | .addressed | .configured =>
    if req.wLength ≠ 2 then d.ctlError
    else
      let d := { d with devConfigStatus := if d.devRemoteWakeup then 0x01 ||| 0x02 else 0x01 }
      d.ctlSendData [UInt8.ofNat d.devConfigStatus, 0] 2
  | _ => d.ctlError

def setFeature (d : Device) (req : SetupReq) : Device :=
  if req.wValue = 0x01 then { d with devRemoteWakeup := true }.ctlSendStatus else d

def clrFeature (d : Device) (req : SetupReq) : Device :=
  match d.devState with
  | .default | .addressed | .configured =>
    if req.wValue = 0x01 then { d with devRemoteWakeup := false }.ctlSendStatus else d
  | _ => d.ctlError

def stdDevReq (d : Device) (req : SetupReq) : Device :=
  let type := req.bmRequest &&& 0x60
  if type = 0x20 ∨ type = 0x40 then (d.classSetup req).1
  else if type = 0x00 then
    if req.bRequest = 0x06 then d.getDescriptor req
    else if req.bRequest = 0x05 then d.setAddress req
    else if req.bRequest = 0x09 then d.setConfig req
    else if req.bRequest = 0x08 then d.getConfig req
    else if req.bRequest = 0x00 then d.getStatus req
    else if req.bRequest = 0x03 then d.setFeature req
    else if req.bRequest = 0x01 then d.clrFeature req
    else (d.classSetup req).1
  else d.ctlError

-- ---------------------------------------------------------------------------
-- Requests to an interface and to an endpoint
-- ---------------------------------------------------------------------------

def stdItfReq (d : Device) (req : SetupReq) : Device :=
  let type := req.bmRequest &&& 0x60
  if type = 0x20 ∨ type = 0x40 ∨ type = 0x00 then
    match d.devState with
    | .default | .addressed | .configured =>
      if (lobyte req.wIndex).toNat ≤ usbdMaxNumInterfaces then
        let (d, ok) := d.classSetup req
        if req.wLength = 0 ∧ ok then d.ctlSendStatus else d
      else d.ctlError
    | _ => d.ctlError
  else d.ctlError

/-- `USB_REQ_SET_FEATURE` and, in the addressed state, `USB_REQ_CLEAR_FEATURE`. -/
def stallAddressed (d : Device) (epAddr : UInt8) : Device :=
  if epAddr ≠ 0x00 ∧ epAddr ≠ 0x80 then (d.llStallEp epAddr).llStallEp 0x80 else d.ctlError

def setEpFeature (d : Device) (req : SetupReq) (epAddr : UInt8) : Device :=
  match d.devState with
  | .addressed => d.stallAddressed epAddr
  | .configured =>
    let halts := req.wValue = 0 ∧ epAddr ≠ 0x00 ∧ epAddr ≠ 0x80 ∧ req.wLength = 0
    (if halts then d.llStallEp epAddr else d).ctlSendStatus
  | _ => d.ctlError

def clrEpFeature (d : Device) (req : SetupReq) (epAddr : UInt8) : Device :=
  match d.devState with
  | .addressed => d.stallAddressed epAddr
  | .configured =>
    if req.wValue = 0 then
      let d := if epAddr &&& 0x7F ≠ 0 then d.llClearStallEp epAddr else d
      (d.ctlSendStatus.classSetup req).1
    else d
  | _ => d.ctlError

def pep (d : Device) (epAddr : UInt8) (i : Fin ioUsbMaxEndpoints) : Endpoint :=
  if epAddr &&& 0x80 = 0x80 then d.epIn i else d.epOut i

/-- `pep->status` is set and sent. -/
def sendEpStatus (d : Device) (epAddr : UInt8) (i : Fin ioUsbMaxEndpoints) (status : UInt32) :
    Device :=
  let d :=
    if epAddr &&& 0x80 = 0x80 then d.setEpIn i fun ep => { ep with status := status }
    else d.setEpOut i fun ep => { ep with status := status }
  d.ctlSendData [status.toUInt8, (status >>> 8).toUInt8] 2

def getEpStatus (d : Device) (epAddr : UInt8) : Option Device :=
  match d.devState with
  | .addressed =>
    if epAddr ≠ 0x00 ∧ epAddr ≠ 0x80 then some d.ctlError
    else (epIndex (epAddr &&& 0x7F)).map fun i => d.sendEpStatus epAddr i 0
  | .configured =>
    -- the entry looked at is the one at the low 4 bits of the address
    (epIndex (epAddr &&& 0xF)).bind fun i =>
      if ¬ (d.pep epAddr i).isUsed then some d.ctlError
      else
        let halted := epAddr ≠ 0x00 ∧ epAddr ≠ 0x80 ∧ d.llIsStallEp epAddr
        (epIndex (epAddr &&& 0x7F)).map fun i =>
          d.sendEpStatus epAddr i (if halted then 1 else 0)
  | _ => some d.ctlError

def stdEpReq (d : Device) (req : SetupReq) : Option Device :=
  let epAddr := lobyte req.wIndex
  let type := req.bmRequest &&& 0x60
  if type = 0x20 ∨ type = 0x40 then some (d.classSetup req).1
  else if type = 0x00 then
    if req.bRequest = 0x03 then some (d.setEpFeature req epAddr)
    else if req.bRequest = 0x01 then some (d.clrEpFeature req epAddr)
    else if req.bRequest = 0x00 then d.getEpStatus epAddr
    else some d.ctlError
  else some d.ctlError

end Device

end Speculos.Usbd

/-!
## The USB device stack

`usbd_core.c` with the events of `usbd_ledger.c`: the stages of control
transfers, the reset, suspension and resumption of the bus, and the packets of
the MCU that bring them. The device is the one of a first start, with the HID
class and a name, a vendor and a product of its own. `seph_buffer` has the size
`OS_IO_SEPH_BUFFER_SIZE + 1`, so that the stack may look behind the end of a
packet but not of the buffer.
-/

namespace Speculos.Usbd

open Lib Protocol

namespace Device

-- ---------------------------------------------------------------------------
-- usbd_core.c
-- ---------------------------------------------------------------------------

def enterSetup (d : Device) (req : SetupReq) : Device :=
  { d with request := req, ep0State := .setup, ep0DataLen := req.wLength.toNat }

def llSetupStage (d : Device) (psetup : Bytes) : Option Device :=
  let req := parseSetupRequest psetup
  let d := d.enterSetup req
  let recipient := req.bmRequest &&& 0x1F
  if recipient = 0x00 then some (d.stdDevReq req)
  else if recipient = 0x01 then some (d.stdItfReq req)
  else if recipient = 0x02 then d.stdEpReq req
  else some (d.llStallEp (req.bmRequest &&& 0x80))

/-- `USBD_LL_DataOutStage`, with the packet `rx_evt_data_out` has left for the
class. The class does nothing about data on endpoint 0. -/
def llDataOutStage (d : Device) (epnum : UInt8) (packet : Bytes) : Device :=
  if epnum = 0 then
    if d.ep0State = .dataOut then
      let pep := d.epOut 0
      if pep.remLength > pep.maxpacket then
        let d := d.setEpOut 0 fun ep => { ep with remLength := ep.remLength - ep.maxpacket }
        d.ctlContinueRx (min (d.epOut 0).remLength (d.epOut 0).maxpacket)
      else d.ctlSendStatus
    else d
  else if d.devState = .configured then d.classDataOut epnum packet
  else d

def llDataInStage (d : Device) (epnum : UInt8) : Device :=
  if epnum = 0 then
    if d.ep0State = .dataIn then
      let pep := d.epIn 0
      if pep.remLength > pep.maxpacket then
        let d := { d with pData := d.pData.drop pep.maxpacket }.setEpIn 0 fun ep =>
          { ep with remLength := ep.remLength - ep.maxpacket }
        -- prepared for a premature end of the transfer
        (d.ctlContinueSendData d.pData (d.epIn 0).remLength).llPrepareReceive 0 0
      else if pep.maxpacket = pep.remLength ∧ pep.totalLength ≥ pep.maxpacket ∧
          pep.totalLength < d.ep0DataLen then
        { d.ctlContinueSendData [] 0 with ep0DataLen := 0 }.llPrepareReceive 0 0
      else d.ctlReceiveStatus
    else d
  else if d.devState = .configured then d.classDataIn epnum
  else d

def llReset (d : Device) : Device :=
  let d := { d with
    devState := .default, ep0State := .idle, devConfig := 0, devRemoteWakeup := false }
  let d := if d.hasClassData then d.classDeInit else d
  let d := (d.llOpenEp 0x00 .ctrl (UInt8.ofNat usbMaxEp0Size)).setEpOut 0 fun ep =>
    { ep with isUsed := true, maxpacket := usbMaxEp0Size }
  (d.llOpenEp 0x80 .ctrl (UInt8.ofNat usbMaxEp0Size)).setEpIn 0 fun ep =>
    { ep with isUsed := true, maxpacket := usbMaxEp0Size }

def llSetSpeed (d : Device) (speed : Speed) : Device := { d with devSpeed := speed }

def llSuspend (d : Device) : Device :=
  { d with devOldState := d.devState, devState := .suspended }

def llResume (d : Device) : Device :=
  if d.devState = .suspended then { d with devState := d.devOldState } else d

/-- `USBD_LL_SOF`: the class has no `SOF`. -/
def llSof (d : Device) : Device := d

-- ---------------------------------------------------------------------------
-- usbd_ledger.c
-- ---------------------------------------------------------------------------

/-- `usbd_ledger_data` after `memset`, `USBD_DESC_init`, `USBD_Init` and
`USBD_RegisterClass`. The buffers of the class are globals and hold zeros. -/
def initial (info : DescInfo) : Device :=
  { devConfig := 0
    devDefaultConfig := 0
    devConfigStatus := 0
    devSpeed := .high
    epIn := fun _ => .zeroed
    epOut := fun _ => .zeroed
    ep0State := .idle
    ep0DataLen := 0
    devState := .default
    devOldState := .unset
    devAddress := 0
    devRemoteWakeup := false
    request := { bmRequest := 0, bRequest := 0, wValue := 0, wIndex := 0, wLength := 0 }
    hasClassData := false
    pData := []
    epInStallStatus := 0
    epOutStallStatus := 0
    desc := info
    hid := { toLedgerHid := .init .zeroed, protocol := 0, idleState := 0, altSetting := 0 }
    sent := [] }

/-- `USBD_LEDGER_start` on it. -/
def started (info : DescInfo) : Device := (initial info).llInit.llStart

def rxEvtReset (d : Device) : Device := (d.llSetSpeed .full).llReset

/-- `USBD_LEDGER_rx_seph_evt` on the first `length` bytes of `sephBuffer`: the device, the
status, and what is put into a buffer of `maxLength` bytes. -/
def rxSephEvt (d : Device) (sephBuffer : Bytes) (length maxLength : Nat) :
    Option (Device × Int × Bytes) :=
  let at' i := sephBuffer.getD i 0
  if at' 1 = 0x0F then
    if at' 4 = 0x01 then some (d.rxEvtReset, 0, [])
    else if at' 4 = 0x02 then some (d.llSof, 0, [])
    else if at' 4 = 0x04 then some (d.llSuspend, 0, [])
    else if at' 4 = 0x08 then some (d.llResume, 0, [])
    else some (d, -1, [])
  else if at' 1 = 0x10 then
    let epnum := at' 4 &&& 0x7F
    -- The difference is an `int`, and what is below 0 wraps around in the `uint16_t`.
    let dataLength := (min ((at' 6).toNat : Int) ((length : Int) - 6) % 2 ^ 16).toNat
    if at' 5 = 0x01 then (d.llSetupStage (sephBuffer.drop 7)).map fun d => (d, 0, [])
    else if at' 5 = 0x02 then
      if epnum.toNat < ioUsbMaxEndpoints then some (d.llDataInStage epnum, 0, [])
      else some (d, -1, [])
    else if at' 5 = 0x04 then
      if epnum.toNat < ioUsbMaxEndpoints then
        some ((d.llDataOutStage epnum ((sephBuffer.drop 7).take dataLength)).dataReady maxLength)
      else some (d, -1, [])
    else some (d, -1, [])
  else some (d, -1, [])

end Device

end Speculos.Usbd
