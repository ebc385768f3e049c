import Speculos.Usbd.Handle

/-!
# Descriptors

The descriptors of `usbd_desc.c` and `usbd_ledger_hid.c`, and the two functions
of `usbd_ledger.c` that put the configuration and the BOS descriptor together out
of those of the classes. They write into a buffer of 256 bytes at an offset of 8
bits; the sizes are those of the tables. A table of strings is `NULL` nowhere, and
`name` is the string `usbd_ledger_data.name` holds, of 19 bytes at most.
-/

namespace Speculos.Usbd

open Lib

def lobyte (x : UInt16) : UInt8 := (x &&& 0xFF).toUInt8
def hibyte (x : UInt16) : UInt8 := (x >>> 8).toUInt8

def deviceDesc (info : DescInfo) : Bytes :=
  let ids : Bytes := if info.iad then [0xEF, 0x02, 0x01] else [0x00, 0x00, 0x00]
  [0x12, 0x01, info.bcdusb, 0x02] ++ ids ++ [UInt8.ofNat usbMaxEp0Size, lobyte info.vid,
    hibyte info.vid, lobyte info.pid, hibyte info.pid, 0x01, 0x02, 0x01, 0x02, 0x03, 1]

def langIdDesc : Bytes := [0x04, 0x03, 0x09, 0x04]

/-- `USBD_GetString`: `len` bytes of the buffer are then sent. -/
def getString (desc : Bytes) : Bytes :=
  let len := desc.length % 256 * 2 + 2
  (UInt8.ofNat len :: 0x03 :: desc.flatMap fun c => [c, 0]).take len

def manufacturerString : Bytes := [0x4C, 0x65, 0x64, 0x67, 0x65, 0x72]

def serialDesc : Bytes := [10, 0x03, 0x30, 0x00, 0x30, 0x00, 0x30, 0x00, 0x31, 0x00]

def deviceQualifierDesc : Bytes := [0x0A, 0x06, 0x00, 0x02, 0x00, 0x00, 0x00, 0x40, 0x01, 0x00]

-- ---------------------------------------------------------------------------
-- The HID class
-- ---------------------------------------------------------------------------

def ledgerHidEpinAddr : UInt8 := 0x82
def ledgerHidEpoutAddr : UInt8 := 0x02

def ledgerHidReportDescriptor : Bytes :=
  [0x06, 0xA0, 0xFF, 0x09, 0x01, 0xA1, 0x01,
    0x09, 0x03, 0x15, 0x00, 0x26, 0xFF, 0x00, 0x75, 0x08, 0x95, 0x40, 0x81, 0x08,
    0x09, 0x04, 0x15, 0x00, 0x26, 0xFF, 0x00, 0x75, 0x08, 0x95, 0x40, 0x91, 0x08,
    0xC0]

def ledgerHidDescriptors : Bytes :=
  [0x09, 0x04, 0x00, 0x00, 0x02, 0x03, 0x00, 0x00, 0x02,
    0x09, 0x21, 0x11, 0x01, 0x00, 0x01, 0x22, 34, 0x00,
    0x07, 0x05, 0x82, 0x03, 0x40, 0x00, 0x01,
    0x07, 0x05, 0x02, 0x03, 0x40, 0x00, 0x01]

-- ---------------------------------------------------------------------------
-- usbd_ledger.c
-- ---------------------------------------------------------------------------

/-- What `usbd_class_info_t` says of the descriptors of a class. -/
structure ClassInfo where
  cdcControl : Bool
  interfaceDescriptor : Bytes
  interfaceAssociationDescriptor : Option Bytes
  bosDescriptor : Option Bytes
  deriving DecidableEq, Repr

def hidClassInfo : ClassInfo :=
  { cdcControl := false
    interfaceDescriptor := ledgerHidDescriptors
    interfaceAssociationDescriptor := none
    bosDescriptor := none }

def interfaceDescriptor : Bytes := [0x09, 0x02, 0x00, 0x00, 0x00, 0x01, 0x02, 0xC0, 0x32]

def bosDescriptor : Bytes := [0x05, 0x0F, 0x00, 0x00, 0x00]

/-- `usbd_ledger_descriptor`, and the offset of what comes next in it. -/
structure Forged where
  descriptor : Region
  offset : UInt8

namespace Forged

/-- `memcpy(&usbd_ledger_descriptor[offset], …)` and `offset += …`. -/
def append (f : Forged) (desc : Bytes) : Forged :=
  { descriptor := f.descriptor.memcpy f.offset.toNat desc desc.length
    offset := f.offset + UInt8.ofNat desc.length }

def patch (f : Forged) (i : Nat) (b : UInt8) : Forged :=
  { f with descriptor := f.descriptor.store i b }

/-- `usbd_ledger_descriptor[4]++`. -/
def count (f : Forged) : Forged := f.patch 4 (f.descriptor.cell 4 + 1)

def association (f : Forged) (index : UInt8) : Option Bytes → Forged
  | some desc => { f.append desc with
      descriptor := ((f.append desc).patch (f.offset.toNat + 2) index).descriptor }
  | none => f

/-- One turn of the loop of `forge_configuration_descriptor`. -/
def classConfiguration (f : Forged) (index : UInt8) (c : ClassInfo) : Forged :=
  let f := f.association index c.interfaceAssociationDescriptor
  let g := (f.append c.interfaceDescriptor).patch (f.offset.toNat + 2) index
  let g :=
    if c.cdcControl then
      ((g.patch (f.offset.toNat + 18) (index + 1)).patch (f.offset.toNat + 26) index).patch
        (f.offset.toNat + 27) (index + 1)
    else g
  g.count

def configurations (f : Forged) (index : UInt8) : List ClassInfo → Forged
  | [] => f
  | c :: cs => (f.classConfiguration index c).configurations (index + 1) cs

/-- One turn of the loop of `forge_bos_descriptor`. -/
def classBos (f : Forged) (c : ClassInfo) : Forged :=
  match c.bosDescriptor with
  | some desc => (f.append desc).count
  | none => f

/-- `wTotalLength`. -/
def total (f : Forged) : Forged := (f.patch 2 f.offset).patch 3 0

end Forged

def forgeConfigurationDescriptor (classes : List ClassInfo) : Forged :=
  ((Forged.append ⟨.zeroed, 0⟩ interfaceDescriptor).configurations 0 classes).total

def forgeBosDescriptor (classes : List ClassInfo) : Forged :=
  ((classes.foldl Forged.classBos (Forged.append ⟨.zeroed, 0⟩ bosDescriptor)).total).patch 4 2

def getCfgDesc : Bytes :=
  let f := forgeConfigurationDescriptor [hidClassInfo]
  f.descriptor.slice 0 f.offset.toNat

def getBosDesc : Bytes :=
  let f := forgeBosDescriptor [hidClassInfo]
  f.descriptor.slice 0 f.offset.toNat

/-- What `USBD_GetDescriptor` finds for `wValue`, at the speed of the device: no
bytes where it leaves `len` zero, and nothing where it calls `USBD_CtlError`. -/
def findDescriptor (info : DescInfo) (speed : Speed) (wValue : UInt16) : Option Bytes :=
  match hibyte wValue with
  | 0x0F => some getBosDesc
  | 0x01 => some (deviceDesc info)
  | 0x02 => some getCfgDesc
  | 0x03 =>
    match lobyte wValue with
    | 0x00 => some langIdDesc
    | 0x01 => some (getString manufacturerString)
    | 0x02 => some (getString info.productStr)
    | 0x03 => some serialDesc
    | 0x04 => some (getString info.productStr)
    | 0x05 => some (getString info.productStr)
    | 0xEE => some []
    | _ => none
  | 0x06 =>
    match speed with
    | .high => some deviceQualifierDesc
    | .full => none
  | 0x07 =>
    match speed with
    | .high => some (getCfgDesc.set 1 0x07)
    | .full => none
  | _ => none

end Speculos.Usbd

/-!
## The class of the device

The functions of `usbd_ledger.c` that the stack calls for its class, with those
of `usbd_ledger_hid.c`. The emulator is built with one class, HID, whose index is
0; the loops over the classes are their one turn. `cookie` is the handle, and no
pointer is `NULL`. `OS_IO_BUFFER_SIZE` bytes and one are behind `rx_apdu_buffer`,
a global buffer that `USBD_LEDGER_HID_init` attaches with what it holds.
-/

namespace Speculos.Usbd

open Lib Protocol

namespace HidHandle

def dataIn (h : HidHandle) : HidHandle × List Bytes :=
  ({ h with toLedgerHid := h.toLedgerHid.dataIn.1 }, h.toLedgerHid.dataIn.2)

/-- What `USBD_LEDGER_HID_init` makes of the handle. -/
def init (h : HidHandle) : HidHandle :=
  let ledgerHid := LedgerHid.init h.protocolData.txChunkBuffer
  { toLedgerHid := { ledgerHid with
      protocolData := { ledgerHid.protocolData with rxApduBuffer := h.protocolData.rxApduBuffer } }
    protocol := 0
    idleState := 0
    altSetting := 0 }

/-- `LEDGER_PROTOCOL_rx` on `protocol_data`. -/
def rx (h : HidHandle) (packet : Bytes) : HidHandle :=
  { h with protocolData := h.protocolData.rx packet }

end HidHandle

namespace Device

-- ---------------------------------------------------------------------------
-- usbd_ledger_hid.c
-- ---------------------------------------------------------------------------

def setHid (d : Device) (h : HidHandle) : Device := { d with hid := h }

def hidInit (d : Device) : Device :=
  (d.setHid d.hid.init).llPrepareReceive ledgerHidEpoutAddr 0x40

/-- `USBD_LEDGER_HID_setup`, with whether it returns `USBD_OK`. -/
def hidSetup (d : Device) (req : SetupReq) : Device × Bool :=
  let configured := d.devState = .configured
  let request := req.bmRequest &&& 0x63
  if request = 0x01 then -- standard, interface
    if req.bRequest = 0x00 then
      if configured then (d.ctlSendData [0, 0] 2, true) else (d, false)
    else if req.bRequest = 0x06 then
      if req.wValue = 0x2100 then
        (d.ctlSendData (ledgerHidDescriptors.drop 9)
          (min (ledgerHidDescriptors.getD 9 0).toNat req.wLength.toNat), true)
      else if req.wValue = 0x2200 then
        (d.ctlSendData ledgerHidReportDescriptor
          (min ledgerHidReportDescriptor.length req.wLength.toNat), true)
      else (d, false)
    else if req.bRequest = 0x0A then
      if configured then (d.ctlSendData [d.hid.altSetting] 1, true) else (d, false)
    else if req.bRequest = 0x0B then
      if configured then (d.setHid { d.hid with altSetting := lobyte req.wValue }, true)
      else (d, false)
    else (d, req.bRequest = 0x01)
  else if request = 0x21 then -- class, interface
    if req.bRequest = 0x0B then (d.setHid { d.hid with protocol := lobyte req.wValue }, true)
    else if req.bRequest = 0x03 then (d.ctlSendData [d.hid.protocol] 1, true)
    else if req.bRequest = 0x0A then
      (d.setHid { d.hid with idleState := hibyte req.wValue }, true)
    else if req.bRequest = 0x02 then (d.ctlSendData [d.hid.idleState] 1, true)
    else (d, false)
  else (d, false)

/-- The chunks a function of the class passes to `USBD_LL_Transmit`. -/
def transmitChunks (d : Device) (chunks : List Bytes) : Device :=
  chunks.foldl (fun d chunk => d.llTransmit ledgerHidEpinAddr chunk ledgerHidEpinSize) d

def hidDataIn (d : Device) : Device :=
  (d.setHid d.hid.dataIn.1).transmitChunks d.hid.dataIn.2

def hidDataOut (d : Device) (packet : Bytes) : Device :=
  (d.setHid (d.hid.rx packet)).llPrepareReceive ledgerHidEpoutAddr 0x40

def hidSendPacket (d : Device) (packet : Bytes) : Device :=
  let (ledgerHid, chunks, _) := d.hid.toLedgerHid.sendPacket (d.devState = .configured) packet
  (d.setHid { d.hid with toLedgerHid := ledgerHid }).transmitChunks chunks

/-- `USBD_LEDGER_HID_data_ready`: its status, and the bytes it puts into a buffer of
`maxLength` bytes. -/
def hidDataReady (d : Device) (maxLength : Nat) : Device × Int × Bytes :=
  let h := d.hid.protocolData
  if h.rxApduStatus = .complete then
    let d := d.setHid { d.hid with protocolData := { h with rxApduStatus := .waiting } }
    if maxLength < h.rxApduLength.toNat then (d, -1, [])
    else (d, h.rxApduLength.toNat, h.rxApduBuffer.slice 0 h.rxApduLength.toNat)
  else (d, 0, [])

-- ---------------------------------------------------------------------------
-- usbd_ledger.c
-- ---------------------------------------------------------------------------

def classInit (d : Device) : Device :=
  let d := { d with hasClassData := true }
  let d := (d.llOpenEp ledgerHidEpinAddr .intr 0x40).setEpIn 2 fun ep => { ep with isUsed := true }
  let d := (d.llOpenEp ledgerHidEpoutAddr .intr 0x40).setEpOut 2 fun ep =>
    { ep with isUsed := true }
  d.hidInit

def classDeInit (d : Device) : Device :=
  let d := (d.llCloseEp ledgerHidEpinAddr).setEpIn 2 fun ep => { ep with isUsed := false }
  let d := (d.llCloseEp ledgerHidEpoutAddr).setEpOut 2 fun ep => { ep with isUsed := false }
  { d with hasClassData := false }

/-- `setup`, with whether it returns `USBD_OK`. -/
def classSetup (d : Device) (req : SetupReq) : Device × Bool :=
  if req.wIndex.toNat < 1 then d.hidSetup req else (d.ctlError, false)

def classDataIn (d : Device) (epNum : UInt8) : Device :=
  if ledgerHidEpinAddr &&& 0x7F = epNum &&& 0x7F then d.hidDataIn else d

def classDataOut (d : Device) (epNum : UInt8) (packet : Bytes) : Device :=
  if ledgerHidEpoutAddr &&& 0x7F = epNum &&& 0x7F then d.hidDataOut packet else d

def dataReady (d : Device) (maxLength : Nat) : Device × Int × Bytes :=
  let (d, status, apdu) := d.hidDataReady maxLength
  if status > 0 then (d, status, apdu) else (d, 0, apdu)

def isBusy (d : Device) : Bool := d.hid.isBusy

end Device

end Speculos.Usbd
