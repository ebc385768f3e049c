import Mathlib.Data.Fin.VecNotation
import Speculos.Lib.Octets
import Speculos.Protocol.HidResponses

/-!
# The USB device handle

`USBD_HandleTypeDef` with the functions of `usbd_conf.c`, which turn what the
stack asks of the controller into packets for the MCU, and those of
`usbd_ioreq.c`, which open the stages of a control transfer. `sent` collects the
packets given to `os_io_tx_cmd`, each with its header; a transmission is the
packet of its two calls. The statuses these functions return are read by no
caller, but for the one of `USBD_LL_Transmit` in `send_packet`, and are left out,
as is the timeout of `USBD_LL_Transmit`, which every caller gives as zero.

`pData` is the byte string the pointer leads to. The objects it is ever set to
are changed by no function while a further packet of them is to come.
-/

namespace Speculos.Usbd

open Lib Protocol

abbrev ioUsbMaxEndpoints : Nat := 6

instance neZero_maxEndpoints : NeZero ioUsbMaxEndpoints := ⟨by decide⟩

def usbMaxEp0Size : Nat := 64

inductive DevState
  | unset
  | default
  | addressed
  | configured
  | suspended
  deriving DecidableEq, Repr

inductive Ep0State
  | idle
  | setup
  | dataIn
  | dataOut
  | statusIn
  | statusOut
  deriving DecidableEq, Repr

inductive Speed
  | high
  | full
  deriving DecidableEq, Repr

inductive EpType
  | ctrl
  | intr
  deriving DecidableEq, Repr

/-- `USBD_EndpointTypeDef`, but for `bInterval`, which nothing uses. -/
structure Endpoint where
  status : UInt32
  totalLength : Nat
  remLength : Nat
  maxpacket : Nat
  isUsed : Bool
  deriving DecidableEq, Repr

def Endpoint.zeroed : Endpoint :=
  { status := 0, totalLength := 0, remLength := 0, maxpacket := 0, isUsed := false }

/-- `USBD_SetupReqTypedef`. -/
structure SetupReq where
  bmRequest : UInt8
  bRequest : UInt8
  wValue : UInt16
  wIndex : UInt16
  wLength : UInt16
  deriving DecidableEq, Repr

/-- `ledger_hid_handle_t`. -/
structure HidHandle extends LedgerHid where
  protocol : UInt8
  idleState : UInt8
  altSetting : UInt8

/-- What `USBD_DESC_init` is given, the BOS descriptor apart. -/
structure DescInfo where
  productStr : Bytes
  vid : UInt16
  pid : UInt16
  bcdusb : UInt8
  iad : Bool
  deriving DecidableEq, Repr

/-- `usbd_handle` with the other variables of the stack. -/
structure Device where
  devConfig : Nat
  devDefaultConfig : Nat
  devConfigStatus : Nat
  devSpeed : Speed
  epIn : Fin ioUsbMaxEndpoints → Endpoint
  epOut : Fin ioUsbMaxEndpoints → Endpoint
  ep0State : Ep0State
  ep0DataLen : Nat
  devState : DevState
  devOldState : DevState
  devAddress : UInt8
  devRemoteWakeup : Bool
  request : SetupReq
  hasClassData : Bool
  pData : Bytes
  epInStallStatus : UInt8
  epOutStallStatus : UInt8
  desc : DescInfo
  hid : HidHandle
  sent : List Bytes

-- ---------------------------------------------------------------------------
-- usbd_conf.c
-- ---------------------------------------------------------------------------

def tagUsbConfig : UInt8 := 0x4F
def tagUsbEpPrepare : UInt8 := 0x50

namespace Device

/-- `os_io_tx_cmd(OS_IO_PACKET_TYPE_SEPH, …)`. -/
def tx (d : Device) (packet : Bytes) : Device := { d with sent := d.sent ++ [packet] }

def setEpIn (d : Device) (i : Fin ioUsbMaxEndpoints) (f : Endpoint → Endpoint) : Device :=
  { d with epIn := Function.update d.epIn i (f (d.epIn i)) }

def setEpOut (d : Device) (i : Fin ioUsbMaxEndpoints) (f : Endpoint → Endpoint) : Device :=
  { d with epOut := Function.update d.epOut i (f (d.epOut i)) }

def llInit (d : Device) : Device := { d with epInStallStatus := 0, epOutStallStatus := 0 }

def llStart (d : Device) : Device :=
  (d.tx [tagUsbConfig, 0, 2, 0x03, 0]).tx [tagUsbConfig, 0, 1, 0x01]

def llStop (d : Device) : Device := d.tx [tagUsbConfig, 0, 1, 0x02]

def hasEp (epAddr : UInt8) : Bool := epAddr &&& 0x7F < 8

def EpType.config : EpType → UInt8
  | .ctrl => 0x01
  | .intr => 0x02

def llOpenEp (d : Device) (epAddr : UInt8) (epType : EpType) (epMps : UInt8) : Device :=
  if hasEp epAddr then
    { d with epInStallStatus := 0, epOutStallStatus := 0 }.tx
      [tagUsbConfig, 0, 5, 0x04, 1, epAddr, EpType.config epType, epMps]
  else d

def llCloseEp (d : Device) (epAddr : UInt8) : Device :=
  if hasEp epAddr then d.tx [tagUsbConfig, 0, 5, 0x04, 1, epAddr, 0x00, 0] else d

def llStallEp (d : Device) (epAddr : UInt8) : Device :=
  if hasEp epAddr then
    let d :=
      if epAddr &&& 0x80 ≠ 0 then
        { d with epInStallStatus := d.epInStallStatus ||| 1 <<< (epAddr &&& 0x7F) }
      else { d with epOutStallStatus := d.epOutStallStatus ||| 1 <<< (epAddr &&& 0x7F) }
    d.tx [tagUsbEpPrepare, 0, 3, epAddr, 0x40, 0]
  else d

def llClearStallEp (d : Device) (epAddr : UInt8) : Device :=
  if hasEp epAddr then
    let d :=
      if epAddr &&& 0x80 ≠ 0 then
        { d with epInStallStatus := d.epInStallStatus &&& ~~~(1 <<< (epAddr &&& 0x7F)) }
      else { d with epOutStallStatus := d.epOutStallStatus &&& ~~~(1 <<< (epAddr &&& 0x7F)) }
    d.tx [tagUsbEpPrepare, 0, 3, epAddr, 0x80, 0]
  else d

def llIsStallEp (d : Device) (epAddr : UInt8) : Bool :=
  if hasEp epAddr then
    if epAddr &&& 0x80 ≠ 0 then d.epInStallStatus &&& 1 <<< (epAddr &&& 0x7F) ≠ 0
    else d.epOutStallStatus &&& 1 <<< (epAddr &&& 0x7F) ≠ 0
  else false

def llSetUsbAddress (d : Device) (devAddr : UInt8) : Device :=
  d.tx [tagUsbConfig, 0, 2, 0x03, devAddr]

/-- `size` bytes of `pbuf` for the host to fetch. -/
def llTransmit (d : Device) (epAddr : UInt8) (pbuf : Bytes) (size : Nat) : Device :=
  if hasEp epAddr then
    d.tx (tagUsbEpPrepare :: be16 (3 + size) ++ [epAddr, 0x20, UInt8.ofNat size] ++ pbuf.take size)
  else d

def llPrepareReceive (d : Device) (epAddr : UInt8) (size : Nat) : Device :=
  if hasEp epAddr then d.tx [tagUsbEpPrepare, 0, 3, epAddr, 0x30, UInt8.ofNat size] else d

-- ---------------------------------------------------------------------------
-- usbd_ioreq.c
-- ---------------------------------------------------------------------------

def ctlSendData (d : Device) (pbuf : Bytes) (len : Nat) : Device :=
  let d := { d with ep0State := .dataIn, pData := pbuf }.setEpIn 0 fun ep =>
    { ep with totalLength := len, remLength := len }
  d.llTransmit 0x00 pbuf (min len (d.epIn 0).maxpacket)

def ctlContinueSendData (d : Device) (pbuf : Bytes) (len : Nat) : Device :=
  d.llTransmit 0x00 pbuf (min len (d.epIn 0).maxpacket)

def ctlContinueRx (d : Device) (len : Nat) : Device := d.llPrepareReceive 0 len

def ctlSendStatus (d : Device) : Device := { d with ep0State := .statusIn }.llTransmit 0x00 [] 0

def ctlReceiveStatus (d : Device) : Device := { d with ep0State := .statusOut }.llPrepareReceive 0 0

def ctlError (d : Device) : Device := (d.llStallEp 0x80).llStallEp 0x00

end Device

end Speculos.Usbd
