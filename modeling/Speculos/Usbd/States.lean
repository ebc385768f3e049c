import Mathlib.Data.Fintype.Basic
import Mathlib.Tactic.FinCases
import Mathlib.Tactic.MkIffOfInductiveProp
import Speculos.Lib.Lts
import Speculos.Usbd.StateFields

/-!
# The states of the device

The device states of the USB specification, and what the stack keeps of them: the
endpoints of the class are open and its data is there in the configured state and
in no other. This holds as long as a suspended device is left alone: the stack
takes a request to set the address, which resumes the device without the class
being told, and one to set the configuration, which closes the class under a
device that is to be configured again on resumption; and a second suspension makes
it forget the state it was in. In a device whose state agrees, the only access
behind a table is that of a request for the status of an endpoint whose number, but
not its address, is one of those in use, or whose number is not in the table.
-/

namespace Speculos.Usbd

open Lib

-- ---------------------------------------------------------------------------
-- The states of the specification
-- ---------------------------------------------------------------------------

inductive Visible
  | default
  | address (a : UInt8)
  | configured (a : UInt8)
  deriving DecidableEq, Repr

structure BusState where
  visible : Visible
  suspended : Bool
  deriving DecidableEq, Repr

namespace BusState

def powered : BusState := ⟨.default, false⟩

/-- A suspended device takes no request. -/
def next (s : BusState) : BusEvent → BusState
  | .reset => powered
  | .suspend => { s with suspended := true }
  | .resume => { s with suspended := false }
  | .setAddress a =>
    match s.suspended, s.visible with
    | true, _ | _, .configured _ => s
    | false, _ => { s with visible := if a = 0 then .default else .address a }
  | .setConfiguration n =>
    match s.suspended, s.visible with
    | false, .address a => { s with visible := if n = 0 then .address a else .configured a }
    | false, .configured a => { s with visible := if n = 0 then .address a else .configured a }
    | _, _ => s
  | .other => s

/-- What the stack bears in a suspended device. -/
def Legal (s : BusState) : BusEvent → Prop
  | .suspend | .setAddress _ => ¬ s.suspended
  | .setConfiguration _ => s.suspended → ∀ a, s.visible ≠ .configured a
  | _ => True

end BusState

-- ---------------------------------------------------------------------------
-- The stack refines the states of the specification
-- ---------------------------------------------------------------------------

def Visible.devState : Visible → DevState
  | .default => .default
  | .address _ => .addressed
  | .configured _ => .configured

/-- The class is there in the configured state only. -/
def Visible.hasClass : Visible → Bool
  | .configured _ => true
  | _ => false

def Visible.addressed (a : UInt8) : Visible → Prop
  | .default => True
  | .address b | .configured b => a = b

/-- The endpoints in use: those of the control pipe and those of the class. -/
def endpoints (control cls : Bool) : Fin ioUsbMaxEndpoints → Bool
  | 0 => control
  | 2 => cls
  | _ => false

@[simp] theorem endpoints_inj {control cls control' cls' : Bool} :
    endpoints control cls = endpoints control' cls' ↔ control = control' ∧ cls = cls' := by
  refine ⟨fun h => ⟨congrFun h 0, congrFun h 2⟩, ?_⟩
  rintro ⟨rfl, rfl⟩
  rfl

@[simp] theorem endpoints_control (control cls : Bool) (i : Bool) :
    Function.update (endpoints control cls) 0 i = endpoints i cls := by
  funext j
  fin_cases j <;> rfl

@[simp] theorem endpoints_class (control cls : Bool) (i : Bool) :
    Function.update (endpoints control cls) 2 i = endpoints control i := by
  funext j
  fin_cases j <;> rfl

/-- What the stack keeps of a state of the specification. -/
@[mk_iff]
structure Refines (s : BusState) (c : Core) : Prop where
  state : if s.suspended then c.devState = .suspended ∧ c.devOldState = s.visible.devState
    else c.devState = s.visible.devState
  address : s.visible.addressed c.devAddress
  config : c.devConfig = if s.visible.hasClass then 1 else 0
  classThere : c.hasClassData = s.visible.hasClass
  used : ∃ control, c.inUsed = endpoints control s.visible.hasClass ∧
    c.outUsed = endpoints control s.visible.hasClass

theorem refines_started (info : DescInfo) : Refines .powered (Device.started info).core := by
  refine ⟨rfl, trivial, rfl, rfl, false, ?_, ?_⟩ <;>
  · funext j
    fin_cases j <;> rfl

/-- The event keeps the correspondence exactly where the stack bears it. -/
theorem refines_next {s : BusState} {c : Core} (h : Refines s c) {e : BusEvent}
    (hn : ∀ n, e = .setConfiguration n → n ≤ 1) : Refines (s.next e) (c.next e) ↔ s.Legal e := by
  obtain ⟨visible, suspended⟩ := s
  obtain ⟨devState, devOldState, devConfig, devAddress, hasClassData, inUsed, outUsed⟩ := c
  obtain ⟨hstate, haddress, hconfig, hclass, control, hin, hout⟩ := h
  dsimp only at hstate haddress hconfig hclass hin hout
  subst hconfig hclass hin hout
  cases e with
  | other => simp [refines_iff, BusState.Legal, BusState.next, Core.next, hstate, haddress]
  | reset =>
    cases visible <;> simp [refines_iff, BusState.Legal, BusState.next, BusState.powered, Core.next,
      Core.setClass, Core.setUsed, Visible.devState, Visible.addressed, Visible.hasClass]
  | suspend =>
    cases suspended with
    | false =>
      simp at hstate
      simp [refines_iff, BusState.Legal, BusState.next, Core.next, hstate, haddress]
    | true =>
      simp at hstate
      obtain ⟨rfl, rfl⟩ := hstate
      cases visible <;> simp [refines_iff, BusState.Legal, BusState.next, Core.next,
        Visible.devState]
  | resume =>
    cases suspended with
    | false =>
      simp at hstate
      subst hstate
      cases visible <;> simp [refines_iff, BusState.Legal, BusState.next, Core.next, haddress,
        Visible.devState]
    | true =>
      simp at hstate
      obtain ⟨rfl, rfl⟩ := hstate
      simp [refines_iff, BusState.Legal, BusState.next, Core.next, haddress]
  | setAddress a =>
    cases suspended with
    | false =>
      simp at hstate
      subst hstate
      cases visible with
      | configured b => simpa [refines_iff, BusState.Legal, BusState.next, Core.next,
          Visible.devState] using haddress
      | default | address b =>
        by_cases ha : a = 0 <;> simp [refines_iff, BusState.Legal, BusState.next, Core.next,
          Visible.devState, Visible.addressed, Visible.hasClass, ha]
    | true =>
      simp at hstate
      obtain ⟨rfl, rfl⟩ := hstate
      by_cases ha : a = 0 <;> simp [refines_iff, BusState.Legal, BusState.next, Core.next, ha]
  | setConfiguration n =>
    have hn : n = 0 ∨ n = 1 := by
      have := hn n rfl
      omega
    cases suspended with
    | false =>
      simp at hstate
      subst hstate
      cases visible with
      | default => simp [refines_iff, BusState.Legal, BusState.next, Core.next, Core.setClass,
          Core.setUsed, Visible.devState, Visible.addressed, Visible.hasClass]
      | address a | configured a =>
        obtain rfl | rfl := hn <;> simp_all [refines_iff, BusState.Legal, BusState.next, Core.next,
          Core.setClass, Core.setUsed, Visible.devState, Visible.addressed, Visible.hasClass]
    | true =>
      simp at hstate
      obtain ⟨rfl, rfl⟩ := hstate
      cases visible <;> simp_all [refines_iff, BusState.Legal, BusState.next, Core.next,
        Core.setClass, Core.setUsed, Visible.devState, Visible.addressed, Visible.hasClass]

-- ---------------------------------------------------------------------------
-- Runs
-- ---------------------------------------------------------------------------

/-- What happens to the stack: a packet of the MCU, or a response to send. -/
inductive Input
  | packet (sephBuffer : Bytes) (length maxLength : Nat)
  | send (response : Bytes)

def Input.busEvent : Input → BusEvent
  | .packet sephBuffer _ _ => Usbd.busEvent sephBuffer
  | .send _ => .other

/-- The stack, where it does not look behind a table. -/
def Device.take (d : Device) : Input → Option Device
  | .packet sephBuffer length maxLength => (d.rxSephEvt sephBuffer length maxLength).map (·.1)
  | .send response => some (d.hidSendPacket response)

def both (w : BusState × Device) (i : Input) : Option (BusState × Device) :=
  (w.2.take i).map fun d => (w.1.next i.busEvent, d)

theorem Device.core_take {d d' : Device} {i : Input} (h : d.take i = some d') :
    d'.core = d.core.next i.busEvent := by
  cases i with
  | packet sephBuffer length maxLength =>
    obtain ⟨⟨e, status, apdu⟩, he, rfl⟩ := Option.map_eq_some_iff.mp h
    exact core_rxSephEvt he
  | send response =>
    cases h
    exact d.core_hidSendPacket response

theorem setConfiguration_le {req : SetupReq} (h : req.busEvent = .setConfiguration n) : n ≤ 1 := by
  unfold SetupReq.busEvent at h
  split at h
  · split at h
    · split at h <;> cases h
    · split at h
      · split at h
        · cases h
          assumption
        · cases h
      · cases h
  · cases h

theorem Input.setConfiguration_le {i : Input} (h : i.busEvent = .setConfiguration n) : n ≤ 1 := by
  cases i with
  | packet sephBuffer length maxLength =>
    simp only [busEvent, Usbd.busEvent] at h
    repeat' split at h
    all_goals first | exact Usbd.setConfiguration_le h | cases h
  | send response => cases h

def Agree (w : BusState × Device) : Prop := Refines w.1 w.2.core

theorem agree_both {w w' : BusState × Device} {i : Input} (h : Agree w)
    (hstep : both w i = some w') : Agree w' ↔ w.1.Legal i.busEvent := by
  obtain ⟨d', hd', rfl⟩ := Option.map_eq_some_iff.mp hstep
  rw [Agree, Device.core_take hd']
  exact refines_next h fun n hn => i.setConfiguration_le hn

/-- No event of the run reaches the device in a state in which it cannot bear it. -/
def LegalRun (info : DescInfo) (inputs : List Input) : Prop :=
  Guarded both (fun w i => w.1.Legal i.busEvent) (.powered, Device.started info) inputs

/-- In a run of the stack from its start, the fields that decide the state are those
of the device of the specification all along, if and only if the run is legal. -/
theorem refines_run_iff (info : DescInfo) (inputs : List Input) (w : BusState × Device)
    (h : exec both (.powered, Device.started info) inputs = some w) :
    (∀ before after w', inputs = before ++ after →
        exec both (.powered, Device.started info) before = some w' → Agree w') ↔
      LegalRun info inputs :=
  forall_prefix_iff_guarded (fun _ _ _ hv (_ : True) hstep => agree_both hv hstep)
    (refines_started info) (guarded_of_forall (fun _ _ => trivial) _ _) h

instance (s : BusState) : ∀ e, Decidable (s.Legal e)
  | .suspend | .setAddress _ => inferInstanceAs (Decidable (¬ s.suspended))
  | .setConfiguration _ =>
    match hs : s.visible with
    | .configured a => decidable_of_iff (¬ s.suspended) (by simp [BusState.Legal, hs])
    | .default | .address _ => .isTrue (by simp [BusState.Legal, hs])
  | .reset | .resume | .other => .isTrue trivial

/-- Suspended twice, a device has forgotten the state it was in. -/
theorem refines_run_suspended : ¬ ∀ before after w',
    List.replicate 2 (Input.packet [0, 0x0F, 0, 0, 0x04] 5 272) = before ++ after →
      exec both (.powered, Device.started ⟨[], 0, 0, 0, false⟩) before = some w' →
        Agree w' :=
  fun hall => absurd ((refines_run_iff ⟨[], 0, 0, 0, false⟩ _ _ rfl).mp hall)
    (by unfold LegalRun; decide)

-- ---------------------------------------------------------------------------
-- The status of an endpoint
-- ---------------------------------------------------------------------------

theorem epIndex_of_lt {i : UInt8} (h : i.toNat < 6) : ∃ j, epIndex i = some j ∧ j.val = i.toNat :=
  ⟨⟨i.toNat, h⟩, dif_pos h, rfl⟩

theorem epIndex_of_ge {i : UInt8} (h : ¬ i.toNat < 6) : epIndex i = none := dif_neg h

/-- The number of an endpoint within the table, and nothing above it in the address of
one in use. -/
def InTable (control : Bool) (epAddr : UInt8) : Prop :=
  epAddr.toNat % 16 < 6 ∧
    (epAddr.toNat % 16 = 2 ∨ epAddr.toNat % 16 = 0 ∧ control → epAddr.toNat / 16 % 8 = 0)

instance (control : Bool) (epAddr : UInt8) : Decidable (InTable control epAddr) :=
  inferInstanceAs (Decidable (_ ∧ (_ → _)))

/-- A request for the status of an endpoint. -/
def SetupReq.AsksEpStatus (req : SetupReq) : Prop :=
  req.bmRequest &&& 0x1F = 0x02 ∧ req.bmRequest &&& 0x60 = 0x00 ∧ req.bRequest = 0x00

theorem toNat_and_15 (a : UInt8) : (a &&& 0xF).toNat = a.toNat % 16 := by
  simpa using Nat.and_two_pow_sub_one_eq_mod a.toNat 4

theorem toNat_and_127 (a : UInt8) : (a &&& 0x7F).toNat = a.toNat % 128 := by
  simpa using Nat.and_two_pow_sub_one_eq_mod a.toNat 7

theorem endpoints_eq_true_iff (control : Bool) (i : Fin ioUsbMaxEndpoints) :
    endpoints control true i = true ↔ i.val = 2 ∨ i.val = 0 ∧ control := by
  fin_cases i
  all_goals first | exact iff_of_true rfl (.inl rfl) | simp [endpoints]

theorem Device.getEpStatus_eq_none_iff {d : Device} {control : Bool}
    (hin : d.core.inUsed = endpoints control true) (hout : d.core.outUsed = endpoints control true)
    (a : UInt8) :
    d.getEpStatus a = none ↔ d.devState = .configured ∧ ¬ InTable control a := by
  have hused (i) : (d.pep a i).isUsed = endpoints control true i := by
    unfold pep
    split
    · exact congrFun hin i
    · exact congrFun hout i
  cases hstate : d.devState with
  | configured =>
    by_cases hlow : (a &&& 0xF).toNat < 6
    · obtain ⟨i, hi, hval⟩ := epIndex_of_lt hlow
      rw [toNat_and_15] at hlow hval
      simp only [getEpStatus, hstate, hi, Option.bind_some, hused, InTable, hlow, true_and]
      by_cases hu : a.toNat % 16 = 2 ∨ a.toNat % 16 = 0 ∧ control
      · have he : endpoints control true i = true := by
          rw [endpoints_eq_true_iff, hval]
          exact hu
        by_cases hhigh : (a &&& 0x7F).toNat < 6
        · obtain ⟨j, hj, -⟩ := epIndex_of_lt hhigh
          rw [toNat_and_127] at hhigh
          have hz : a.toNat / 16 % 8 = 0 := by omega
          simp [he, hj, hz]
        · have hj := epIndex_of_ge hhigh
          rw [toNat_and_127] at hhigh
          have hz : ¬ a.toNat / 16 % 8 = 0 := by omega
          simp [he, hj, hz, hu]
      · have he : endpoints control true i = false := by
          rw [← Bool.not_eq_true, endpoints_eq_true_iff, hval]
          exact hu
        simp [he, hu]
    · have hi := epIndex_of_ge hlow
      rw [toNat_and_15] at hlow
      simp [getEpStatus, hstate, hi, InTable, hlow]
  | addressed =>
    simp only [getEpStatus, hstate]
    split
    · simp
    · rename_i h
      have ha : (a &&& 0x7F).toNat < 6 := by
        obtain rfl | rfl : a = 0x00 ∨ a = 0x80 := by
          rw [not_and_or, not_not, not_not] at h
          exact h
        · decide
        · decide
      obtain ⟨i, hi, -⟩ := epIndex_of_lt ha
      simp [hi]
  | unset | default | suspended => simp [getEpStatus, hstate]

theorem Device.stdEpReq_eq_none_iff {d : Device} {req : SetupReq} :
    d.stdEpReq req = none ↔ req.bmRequest &&& 0x60 = 0x00 ∧ req.bRequest = 0x00 ∧
      d.getEpStatus (lobyte req.wIndex) = none := by
  simp only [stdEpReq]
  split
  · rename_i h
    obtain h | h := h <;> simp [h]
  · split
    · rename_i htype
      simp only [htype, true_and]
      repeat' split
      all_goals simp_all
    · rename_i htype
      simp [htype]

theorem Device.llSetupStage_eq_none_iff {d : Device} {control : Bool}
    (hin : d.core.inUsed = endpoints control true) (hout : d.core.outUsed = endpoints control true)
    (psetup : Bytes) :
    d.llSetupStage psetup = none ↔ (parseSetupRequest psetup).AsksEpStatus ∧
      d.devState = .configured ∧ ¬ InTable control (lobyte (parseSetupRequest psetup).wIndex) := by
  simp only [llSetupStage, SetupReq.AsksEpStatus]
  generalize parseSetupRequest psetup = req
  split
  · rename_i h
    simp [h]
  · split
    · rename_i h
      simp [h]
    · split
      · rename_i h
        rw [stdEpReq_eq_none_iff, getEpStatus_eq_none_iff (d := d.enterSetup req) hin hout]
        simp [h, and_assoc, enterSetup]
      · rename_i h
        simp [h]

/-- The packet is a request for the status of an endpoint that is not in the table. -/
def Input.Beyond (control : Bool) : Input → Prop
  | .packet sephBuffer _ _ =>
    sephBuffer.getD 1 0 = 0x10 ∧ sephBuffer.getD 5 0 = 0x01 ∧
      (parseSetupRequest (sephBuffer.drop 7)).AsksEpStatus ∧
      ¬ InTable control (lobyte (parseSetupRequest (sephBuffer.drop 7)).wIndex)
  | .send _ => False

theorem Device.take_eq_none_iff {d : Device} {control : Bool}
    (hin : d.core.inUsed = endpoints control true) (hout : d.core.outUsed = endpoints control true)
    (i : Input) : d.take i = none ↔ d.devState = .configured ∧ i.Beyond control := by
  cases i with
  | packet sephBuffer length maxLength =>
    simp only [take, Option.map_eq_none_iff, rxSephEvt, Input.Beyond]
    split
    · rename_i h
      simp only [h]
      repeat' split
      all_goals simp
    · split
      · rename_i h
        simp only [h, true_and]
        split
        · rename_i hsetup
          rw [Option.map_eq_none_iff, llSetupStage_eq_none_iff hin hout]
          simp only [hsetup, true_and]
          exact and_left_comm
        · rename_i hsetup
          simp only [hsetup, false_and, and_false, iff_false]
          repeat' split
          all_goals simp
      · rename_i h
        simp only [h, false_and, and_false]
        simp
  | send response => simp [take, Input.Beyond]

/-- A device that a run has brought into the configured state looks behind its tables
on those requests for the status of an endpoint, and on nothing else. The endpoints of
the control pipe are in use once the bus has been reset. -/
theorem beyond_tables_iff (info : DescInfo) (inputs : List Input) (w : BusState × Device)
    (h : exec both (.powered, Device.started info) inputs = some w)
    (hlegal : LegalRun info inputs) (hconfigured : w.2.devState = .configured) (i : Input) :
    w.2.take i = none ↔ i.Beyond (w.2.epIn 0).isUsed := by
  have hstart : Agree (.powered, Device.started info) := refines_started info
  have hagree : Agree w := exec_invariant_of_guarded
    (fun _ _ _ hv hlegal hstep => (agree_both hv hstep).mpr hlegal) hstart hlegal h
  obtain ⟨hstate, -, -, -, control, hin, hout⟩ := hagree
  have hclass : w.1.visible.hasClass = true := by
    rw [show w.2.core.devState = .configured from hconfigured] at hstate
    split at hstate
    · simp at hstate
    · cases hv : w.1.visible with
      | configured a => rfl
      | default | address a =>
        rw [hv] at hstate
        cases hstate
  rw [hclass] at hin hout
  have hcontrol : (w.2.epIn 0).isUsed = control := congrFun hin 0
  rw [hcontrol, Device.take_eq_none_iff hin hout]
  simp [hconfigured]

/-- The requests with which the host sets the address and the configuration, and one for
the status of endpoint 0x92, which has the number of the endpoint of the class. -/
def enumerating : List Input :=
  [.packet [0, 0x10, 0, 11, 0x02, 0x01, 0, 0x00, 0x05, 1, 0, 0, 0, 0, 0] 15 272,
    .packet [0, 0x10, 0, 11, 0x02, 0x01, 0, 0x00, 0x09, 1, 0, 0, 0, 0, 0] 15 272]

theorem beyond_tables_witness :
    ∃ w : BusState × Device, exec both (.powered, Device.started ⟨[], 0, 0, 0, false⟩) enumerating =
        some w ∧
      w.2.take (.packet [0, 0x10, 0, 11, 0x02, 0x01, 0, 0x82, 0x00, 0, 0, 0x92, 0, 2, 0] 15 272) =
        none :=
  ⟨_, rfl, (beyond_tables_iff ⟨[], 0, 0, 0, false⟩ enumerating _ rfl
    (by unfold LegalRun; decide) rfl _).mpr ⟨rfl, rfl, ⟨rfl, rfl, rfl⟩, by decide⟩⟩

end Speculos.Usbd
