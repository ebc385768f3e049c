import Speculos.Exchange.Session

/-!
# The enumeration

What happens before the first command: the device connects, the host gives it an
address and a configuration, and the device opens its endpoints. The client may
hand in its first command at any time of it. The transport keeps the command
while the address is not set and sends it at once afterwards, so that it follows
the request for the configuration in either case.
-/

namespace Speculos.Exchange

open Lib Protocol Transport Usbd Application
open Emulator (usb endpointIn_hid endpointOut_hid outEvent inEvent prepareIn prepareOut Plain Cut
  outXfer xferEvent Passive)

-- ---------------------------------------------------------------------------
-- The packets
-- ---------------------------------------------------------------------------

def configAddr (address : UInt8) : Bytes := [tagUsbConfig, 0, 2, 0x03, address]

def configConnect : Bytes := [tagUsbConfig, 0, 1, 0x01]

/-- `SEPROXYHAL_TAG_USB_CONFIG_ENDPOINTS`. -/
def configEndpoint (epAddr : UInt8) : Bytes := [tagUsbConfig, 0, 5, 0x04, 1, epAddr, 0x02, 0x40]

def prepareStatus : Bytes := [tagUsbEpPrepare, 0, 3, 0x00, 0x20, 0]

def setupEvent (bRequest wValue : UInt8) : Bytes :=
  xferEvent [0x02, 0x01, 0, 0x00, bRequest, wValue, 0, 0, 0, 0, 0]

-- ---------------------------------------------------------------------------
-- The device
-- ---------------------------------------------------------------------------

variable {d : Device}

def setAddressReq : SetupReq :=
  { bmRequest := 0, bRequest := 0x05, wValue := 1, wIndex := 0, wLength := 0 }

def setConfigurationReq : SetupReq :=
  { bmRequest := 0, bRequest := 0x09, wValue := 1, wIndex := 0, wLength := 0 }

def withAddress (d : Device) : Device :=
  { ({ d.enterSetup setAddressReq with devAddress := 1 }.llSetUsbAddress 1).ctlSendStatus with
    devState := .addressed }

def withConfiguration (d : Device) : Device :=
  { ({ d.enterSetup setConfigurationReq with devConfig := 1 }.classInit).ctlSendStatus with
    devState := .configured }

theorem llSetupStage_setAddress (hdev : d.devState = .default) (rest : Bytes) :
    d.llSetupStage (0 :: 0x05 :: 1 :: 0 :: 0 :: 0 :: 0 :: 0 :: rest) = some (withAddress d) := by
  have hreq : parseSetupRequest (0 :: 0x05 :: 1 :: 0 :: 0 :: 0 :: 0 :: 0 :: rest) =
      setAddressReq := by
    simp only [parseSetupRequest, List.getD_cons_zero, List.getD_cons_succ]
    decide
  have hstate : (d.enterSetup setAddressReq).devState ≠ .configured := by
    rw [show (d.enterSetup setAddressReq).devState = d.devState from rfl, hdev]
    decide
  rw [Device.llSetupStage]
  simp only [hreq]
  rw [if_pos (by decide), Device.stdDevReq, if_neg (by decide), if_pos (by decide),
    if_neg (by decide), if_pos (by decide), Device.setAddress, if_pos (by decide)]
  exact congrArg some (if_neg hstate)

theorem llSetupStage_setConfiguration (hdev : d.devState = .addressed) (rest : Bytes) :
    d.llSetupStage (0 :: 0x09 :: 1 :: 0 :: 0 :: 0 :: 0 :: 0 :: rest) =
      some (withConfiguration d) := by
  have hreq : parseSetupRequest (0 :: 0x09 :: 1 :: 0 :: 0 :: 0 :: 0 :: 0 :: rest) =
      setConfigurationReq := by
    simp only [parseSetupRequest, List.getD_cons_zero, List.getD_cons_succ]
    decide
  have hstate : (d.enterSetup setConfigurationReq).devState = .addressed := hdev
  rw [Device.llSetupStage]
  simp only [hreq]
  rw [if_pos (by decide), Device.stdDevReq, if_neg (by decide), if_pos (by decide),
    if_neg (by decide), if_neg (by decide), if_pos (by decide), Device.setConfig,
    if_neg (by decide), hstate]
  rfl

variable {σ : Type} {handle : σ → Bytes → σ × Bytes} {a : Application σ}

theorem recv_setup (handle : σ → Bytes → σ × Bytes) {d : Device} {bRequest wValue : UInt8}
    (hfailed : a.failed = false)
    (happ : a.phase = .application)
    (hsetup : ∀ rest, a.device.llSetupStage
      (0 :: bRequest :: wValue :: 0 :: 0 :: 0 :: 0 :: 0 :: rest) = some d) :
    ∃ a', recv handle a (setupEvent bRequest wValue) = (a', d.sent) ∧
      a'.device = { d with sent := [] } ∧ a'.phase = .application ∧ a'.failed = false ∧
      a'.state = a.state ∧ a'.received = a.received := by
  have hstage : ∀ rest length, a.device.rxSephEvt (0x01 :: (setupEvent bRequest wValue ++ rest))
      length ioBufferSize = some (d, 0, []) := by
    intro rest length
    have hrx : a.device.rxSephEvt (0x01 :: (setupEvent bRequest wValue ++ rest)) length
        ioBufferSize = (a.device.llSetupStage
          (0 :: bRequest :: wValue :: 0 :: 0 :: 0 :: 0 :: 0 :: rest)).map fun d => (d, 0, []) := rfl
    rw [hrx, hsetup]
    rfl
  have hevent := rxEvt_event (a := a) (setupEvent bRequest wValue) rfl (hstage _ _)
  rw [recv_event hfailed hevent, take_zero (by exact happ)]
  exact ⟨_, rfl, rfl, happ, hfailed, rfl, rfl⟩

theorem enumerates (handle : σ → Bytes → σ × Bytes) (info : DescInfo) (s : σ) :
    ∃ b a' h, recv handle (.start info s) (setupEvent 0x05 1) = (b, [configAddr 1, prepareStatus]) ∧
      recv handle b (setupEvent 0x09 1) =
        (a', [configEndpoint 0x82, configEndpoint 0x02, prepareOut, prepareStatus]) ∧
      Serves a' h s [] ∧ Awaits h := by
  obtain ⟨b, hb, hdevice, happ, hfailed, hstate, hreceived⟩ := recv_setup handle
    (a := .start info s) rfl rfl (llSetupStage_setAddress rfl)
  have hdev : b.device.devState = .addressed := by
    rw [hdevice]
    rfl
  obtain ⟨a', ha', hdevice', happ', hfailed', hstate', hreceived'⟩ := recv_setup handle
    hfailed happ (llSetupStage_setConfiguration hdev)
  refine ⟨b, a', a'.device.hid.toLedgerHid, hb, ?_, ⟨hfailed', ?_, rfl, ?_, .inr happ',
    hstate'.trans hstate, hreceived'.trans hreceived⟩, ?_⟩
  · rw [ha', hdevice]
    rfl
  · rw [hdevice']
    rfl
  · rw [hdevice']
  · rw [hdevice', hdevice]
    exact ⟨Bool.false_ne_true, ⟨_, rfl, rfl, rfl⟩, rfl, rfl, rfl⟩

-- ---------------------------------------------------------------------------
-- The emulator
-- ---------------------------------------------------------------------------

variable {commands : List Bytes} {e : Emulator} {state state' : USBDevState} {p : HIDPacket}

/-- What the emulator does with a packet, with any command kept. -/
def Turns (state : USBDevState) (packet : Bytes) (state' : USBDevState) (said : List Bytes) :
    Prop :=
  ∀ queue delay commands waiting,
    Emulator.recv ⟨usb state queue (.reset 0), delay, commands, waiting, [], none⟩ packet =
      (⟨usb state' queue (.reset 0), delay - 1, commands, waiting, [], none⟩, said)

theorem turns_config (x y : UInt8) {data : Bytes} (calls : List SendCall)
    (h : ∀ queue, USBTransport.config data (usb state queue (.reset 0)) =
      .ok () { usb state' queue (.reset 0) with sent := calls }) :
    Turns state (tagUsbConfig :: x :: y :: data) state' (Emulator.queued calls) :=
  fun queue _ _ _ => Emulator.recv_config x y (h queue)

theorem sendSetup_eq (t : USBTransport) (ht : t.subclass = .hid p) (breq : USBReq) :
    USBTransport.sendSetup breq 1 t =
      .ok () (t.sendCb .xferEvent [0x02, 0x01, 0, 0, UInt8.ofNat breq.value, 1, 0, 0, 0, 0,
        0]) := by
  have hheader : usbHeaderBuild 0x02 SephUSBTag.xferSetup.value 0 t = .ok [0x02, 0x01, 0] t := rfl
  have hsetup : usbSetupBuild USBReq.recipientDevice.value breq.value 1 0 0 t =
      .ok [0, UInt8.ofNat breq.value, 1, 0, 0, 0, 0, 0] t := by
    cases breq <;> rfl
  rw [USBTransport.sendSetup, bind_of_ok (get_apply t), endpointOut_hid ht, bind_of_ok hheader,
    bind_of_ok hsetup]
  rfl

theorem turns_unaddressed : Turns .disconnected (configAddr 0) .disconnected [] :=
  turns_config 0 2 [] fun _ => rfl

theorem turns_connect : Turns .disconnected configConnect .addressed [setupEvent 0x05 1] :=
  turns_config 0 1 [⟨.xferEvent, [0x02, 0x01, 0, 0, 0x05, 1, 0, 0, 0, 0, 0], .addressed⟩]
    fun queue => sendSetup_eq (usb .addressed queue (.reset 0)) rfl .setAddress

theorem turns_addr : Turns .addressed (configAddr 1) .configured [setupEvent 0x09 1] :=
  turns_config 0 2 [⟨.xferEvent, [0x02, 0x01, 0, 0, 0x09, 1, 0, 0, 0, 0, 0], .configured⟩]
    fun queue => sendSetup_eq (usb .configured queue (.reset 0)) rfl .setConfiguration

theorem passive_prepare (queue : List Bytes) : Passive .configured queue prepareOut :=
  fun _ _ _ _ _ => Emulator.recv_prepare 0 3 rfl

theorem passive_status (queue : List Bytes) : Passive .configured queue prepareStatus := by
  intro p delay commands waiting responses
  have hheader : usbHeaderParse [0x00, 0x20, 0] (usb .configured queue p) =
      .ok ⟨0x00, 0x20, 0⟩ (usb .configured queue p) := rfl
  have htag : SephUSBPrepare.ofValue 0x20 (usb .configured queue p) =
      .ok .dirIn (usb .configured queue p) := rfl
  have hprepare : USBTransport.prepare [0x00, 0x20, 0] (usb .configured queue p) =
      .ok none (usb .configured queue p) := by
    rw [USBTransport.prepare, List.take_of_length_le (by decide), bind_of_ok hheader,
      bind_of_ok htag, bind_of_ok (get_apply _), endpointIn_hid rfl, if_neg (by decide)]
    rfl
  exact Emulator.recv_prepare 0 3 hprepare

theorem config_endpoint (epAddr : UInt8) (t : USBTransport) (ht : t.subclass = .hid p) :
    USBTransport.config [0x04, 1, epAddr, 0x02, 0x40] t =
      .ok () (if epAddr.toNat = 0x02 then t.flushPackets else t) := by
  have htag : USBTransport.item [0x04, 1, epAddr, 0x02, 0x40] 0 t = .ok 0x04 t := rfl
  have hconfig : SephUSBConfig.ofValue 0x04 t = .ok .endpoints t := rfl
  have hendpoint : USBTransport.item [0x04, 1, epAddr, 0x02, 0x40] 2 t = .ok epAddr t := rfl
  rw [USBTransport.config, bind_of_ok htag, bind_of_ok hconfig]
  dsimp only
  rw [bind_of_ok hendpoint, bind_of_ok (get_apply t), endpointOut_hid ht]
  split <;> rfl

theorem passive_endpointIn (queue : List Bytes) :
    Passive .configured queue (configEndpoint 0x82) :=
  fun p _ _ _ _ => Emulator.recv_config 0 5 (config_endpoint 0x82 (usb .configured queue p) rfl)

theorem recv_endpointOut (queue : List Bytes) (p : HIDPacket) (delay : Nat)
    (commands responses : List Bytes) (waiting : Bool) :
    Emulator.recv ⟨usb .configured queue p, delay, commands, waiting, responses, none⟩
        (configEndpoint 0x02) =
      (⟨usb .configured [] p, delay - 1, commands, waiting, responses, none⟩,
        queue.map xferEvent) := by
  have hflush : (usb .configured queue p).flushPackets =
      { usb .configured [] p with
        sent := queue.map fun packet => ⟨.xferEvent, packet, .configured⟩ } := by
    rw [USBTransport.flushPackets, USBTransport.foldl_sendXfer_of_configured _ _ rfl rfl]
    rfl
  refine (Emulator.recv_config 0 5
    (config_endpoint 0x02 (usb .configured queue p) rfl)).trans ?_
  rw [if_pos (by decide), hflush, ← Emulator.queued_passed]
  rfl

theorem passive_endpointOut : Passive .configured [] (configEndpoint 0x02) :=
  fun p delay commands waiting responses => recv_endpointOut [] p delay commands responses waiting

/-- The first command is still to come, after `delay` packets, or kept. -/
inductive Pending (state : USBDevState) (delay : Nat) (commands : List Bytes) : Emulator → Prop
  | coming (h : 0 < delay ∨ commands = []) :
    Pending state delay commands ⟨usb state [] (.reset 0), delay, commands, false, [], none⟩
  | kept (h : commands = command :: later) (hcut : Cut command packets) :
    Pending state delay commands
      ⟨usb state (packets.map outXfer) (.reset 0), 0, later, true, [], none⟩

theorem Pending.act_eq_none {delay : Nat} (h : Pending state delay commands e) : e.act = none := by
  cases h with
  | coming h => exact Emulator.act_waiting (.inr h)
  | kept => exact Emulator.act_waiting (.inl rfl)

theorem consumes_pending (state : USBDevState) (delay : Nat)
    (hplain : ∀ command ∈ commands, Plain command) (hstate : state ≠ .configured) :
    ∃ e, Emulator.party.Consumes
        ⟨usb state [] (.reset 0), delay, commands, false, [], none⟩ [] e [] ∧
      Pending state delay commands e := by
  cases commands with
  | nil => exact ⟨_, .done, .coming (.inr rfl)⟩
  | cons command later =>
    cases delay with
    | succ delay => exact ⟨_, .done, .coming (.inl (Nat.succ_pos delay))⟩
    | zero =>
      obtain ⟨packets, hcut, hact⟩ := Emulator.act_not_configured (p := .reset 0) command
        (hplain command List.mem_cons_self) hstate
      exact ⟨_, .acts (hact _ _), .kept rfl hcut⟩

theorem Turns.pending {packet : Bytes} {said : List Bytes} {delay : Nat}
    (ht : Turns state packet state' said) (hstate : state' ≠ .configured)
    (hplain : ∀ command ∈ commands, Plain command) (h : Pending state delay commands e) :
    ∃ e', Emulator.party.Consumes e [packet] e' said ∧ Pending state' (delay - 1) commands e' := by
  have hact := h.act_eq_none
  cases h with
  | coming h =>
    obtain ⟨e', hconsumes, he'⟩ := consumes_pending state' (delay - 1) hplain hstate
    have htaken := (Party.Consumes.one hact (ht _ _ _ _)).trans hconsumes
    exact ⟨e', by simpa using htaken, he'⟩
  | kept hcommands hcut => exact ⟨_, .one hact (ht _ _ _ _), .kept hcommands hcut⟩

/-- The enumeration is over, and the first command on its way. -/
inductive Underway (commands : List Bytes) : Emulator → List Bytes → Prop
  | idle (h : commands = []) :
    Underway commands ⟨usb .configured [] (.reset 0), 0, [], false, [], none⟩ []
  | sent (h : commands = command :: later) (hcut : Cut command packets) :
    Underway commands ⟨usb .configured [] (.reset 0), 0, later, true, [], none⟩
      (packets.map outEvent)

def opening : List Bytes :=
  [prepareStatus, configEndpoint 0x82, configEndpoint 0x02, prepareOut, prepareStatus]

theorem passive_opening : ∀ packet ∈ opening, Passive .configured [] packet := by
  simp only [opening, List.forall_mem_cons]
  exact ⟨passive_status _, passive_endpointIn _, passive_endpointOut, passive_prepare _,
    passive_status _, List.forall_mem_nil _⟩

theorem consumes_opening_coming {delay : Nat} (hdelay : delay ≤ opening.length)
    (hplain : ∀ command ∈ commands, Plain command) :
    ∃ e said, Emulator.party.Consumes
        ⟨usb .configured [] (.reset 0), delay, commands, false, [], none⟩ opening e said ∧
      Underway commands e said := by
  cases commands with
  | nil =>
    have hconsumes : Emulator.party.Consumes
        ⟨usb .configured [] (.reset 0), delay, [], false, [], none⟩ opening
        ⟨usb .configured [] (.reset 0), delay - opening.length, [], false, [], none⟩ [] :=
      Emulator.consumes_passive opening passive_opening (.inr (.inr rfl))
    rw [Nat.sub_eq_zero_of_le hdelay] at hconsumes
    exact ⟨_, _, hconsumes, .idle rfl⟩
  | cons command later =>
    obtain ⟨packets, hcut, hact⟩ := Emulator.act_configured (p := .reset 0) command
      (hplain command List.mem_cons_self)
    have htake : (opening.take delay).length = delay := by
      rw [List.length_take, Nat.min_eq_left hdelay]
    have hbefore : Emulator.party.Consumes
        ⟨usb .configured [] (.reset 0), delay, command :: later, false, [], none⟩
        (opening.take delay)
        ⟨usb .configured [] (.reset 0), delay - (opening.take delay).length, command :: later,
          false, [], none⟩ [] :=
      Emulator.consumes_passive _ (fun packet h => passive_opening packet (List.mem_of_mem_take h))
        (.inr (.inl htake.le))
    rw [htake, Nat.sub_self] at hbefore
    have hafter : Emulator.party.Consumes
        ⟨usb .configured [] (.reset 0), 0, later, true, [], none⟩ (opening.drop delay)
        ⟨usb .configured [] (.reset 0), 0, later, true, [], none⟩ [] :=
      Emulator.consumes_passive_waiting _ fun packet h =>
        passive_opening packet (List.mem_of_mem_drop h)
    have hconsumes := (hbefore.trans (.acts (hact _ _))).trans hafter
    rw [List.append_nil, List.take_append_drop, List.nil_append, List.append_nil] at hconsumes
    exact ⟨_, _, hconsumes, .sent rfl hcut⟩

theorem consumes_opening_kept (packets later : List Bytes) :
    Emulator.party.Consumes
      ⟨usb .configured (packets.map outXfer) (.reset 0), 0, later, true, [], none⟩ opening
      ⟨usb .configured [] (.reset 0), 0, later, true, [], none⟩ (packets.map outEvent) := by
  have hact : ∀ queue, Emulator.act
      ⟨usb .configured queue (.reset 0), 0, later, true, [], none⟩ = none :=
    fun _ => Emulator.act_waiting (.inl rfl)
  have hbefore : Emulator.party.Consumes
      ⟨usb .configured (packets.map outXfer) (.reset 0), 0, later, true, [], none⟩
      [prepareStatus, configEndpoint 0x82]
      ⟨usb .configured (packets.map outXfer) (.reset 0), 0, later, true, [], none⟩ [] :=
    Emulator.consumes_passive_waiting _ (by
      simp only [List.forall_mem_cons]
      exact ⟨passive_status _, passive_endpointIn _, List.forall_mem_nil _⟩)
  have hafter : Emulator.party.Consumes
      ⟨usb .configured [] (.reset 0), 0, later, true, [], none⟩ [prepareOut, prepareStatus]
      ⟨usb .configured [] (.reset 0), 0, later, true, [], none⟩ [] :=
    Emulator.consumes_passive_waiting _ (by
      simp only [List.forall_mem_cons]
      exact ⟨passive_prepare _, passive_status _, List.forall_mem_nil _⟩)
  have hflush : Emulator.party.Consumes
      ⟨usb .configured (packets.map outXfer) (.reset 0), 0, later, true, [], none⟩
      [configEndpoint 0x02] ⟨usb .configured [] (.reset 0), 0, later, true, [], none⟩
      ((packets.map outXfer).map xferEvent) :=
    Emulator.consumes_one (hact _) (recv_endpointOut _ _ _ _ _ _)
  have hconsumes := (hbefore.trans hflush).trans hafter
  rw [List.nil_append, List.append_nil, List.map_map] at hconsumes
  exact hconsumes

theorem Pending.consumes_addr {delay : Nat} (h : Pending .addressed delay commands e)
    (hdelay : delay ≤ 6) (hplain : ∀ command ∈ commands, Plain command) :
    ∃ e' e'' said, Emulator.party.Consumes e [configAddr 1] e' [setupEvent 0x09 1] ∧
      Emulator.party.Consumes e' opening e'' said ∧ Underway commands e'' said := by
  have hact := h.act_eq_none
  cases h with
  | coming h =>
    obtain ⟨e'', said, hconsumes, hunderway⟩ := consumes_opening_coming
      (show delay - 1 ≤ opening.length from Nat.sub_le_of_le_add hdelay) hplain
    exact ⟨_, e'', said, .one hact (turns_addr _ _ _ _), hconsumes, hunderway⟩
  | kept hcommands hcut =>
    exact ⟨_, _, _, .one hact (turns_addr _ _ _ _), consumes_opening_kept _ _, .sent hcommands hcut⟩

-- ---------------------------------------------------------------------------
-- Both
-- ---------------------------------------------------------------------------

def System.start (info : DescInfo) (s : σ) (delay : Nat) (commands : List Bytes) : System σ :=
  { left := .start delay commands
    right := .start info s
    toLeft := (Device.started info).sent
    toRight := [] }

theorem leads_enumeration (handle : σ → Bytes → σ × Bytes) (info : DescInfo) (s : σ) {delay : Nat}
    (hdelay : delay ≤ 8) (hplain : ∀ command ∈ commands, Plain command) :
    ∃ e a h said, Leads handle (System.start info s delay commands) ⟨e, a, [], said⟩ ∧
      Underway commands e said ∧ Serves a h s [] ∧ Awaits h := by
  obtain ⟨b, a, h, hb, ha, hserves, hawaits⟩ := enumerates handle info s
  obtain ⟨e₀, hstart, he₀⟩ := consumes_pending .disconnected delay hplain (by decide)
  obtain ⟨e₁, haddr, he₁⟩ := turns_unaddressed.pending (by decide) hplain he₀
  obtain ⟨e₂, hconnect, he₂⟩ := turns_connect.pending (by decide) hplain he₁
  obtain ⟨e₃, e, said, hset, hopening, he⟩ :=
    he₂.consumes_addr (show delay - 1 - 1 ≤ 6 by omega) hplain
  refine ⟨e, a, h, said, ?_, he, hserves, hawaits⟩
  have hfirst := Network.reaches_left (Q := Application.party handle)
    ((hstart.trans haddr).trans hconnect) (.start info s) [] []
  have hsecond := leads_right (e := e₂) hb []
  have hthird := Network.reaches_left (Q := Application.party handle) hset b [prepareStatus] []
  have hfourth := leads_right (e := e₃) ha [prepareStatus]
  have hfifth := Network.reaches_left (Q := Application.party handle) hopening a [] []
  exact (((hfirst.trans hsecond).trans hthird).trans hfourth).trans hfifth

end Speculos.Exchange
