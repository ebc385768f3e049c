import Speculos.Launcher.Launcher
import Speculos.Lib.Lts

/-!
# The handler of the syscalls

An svc instruction is undefined, so that executing it raises a signal whose handler
emulates the syscall. The handler mimics the stack of an interrupt, sets a try context
of its own around the syscall, and leaves through another exit after `os_lib_call`.
Its activations do not nest and all start at the top of the alternate stack, so that
the try context of each one is at the same address, `frame`.
-/

namespace Speculos.Svc

open Lib Launcher

-- ---------------------------------------------------------------------------
-- State
-- ---------------------------------------------------------------------------

/-- `struct sigcontext` -/
structure Sigcontext where
  trapNo : UInt32
  errorCode : UInt32
  oldmask : UInt32
  r0 : UInt32
  r1 : UInt32
  r2 : UInt32
  r3 : UInt32
  r4 : UInt32
  r5 : UInt32
  r6 : UInt32
  r7 : UInt32
  r8 : UInt32
  r9 : UInt32
  r10 : UInt32
  fp : UInt32
  ip : UInt32
  sp : UInt32
  lr : UInt32
  pc : UInt32
  cpsr : UInt32
  faultAddress : UInt32
  deriving DecidableEq, Repr

/-- `libcall_s` -/
structure LibCall where
  app : App
  sigcontext : Sigcontext
  trycontext : UInt32

/-- The emulated system: `libcalls` are the entries below `libcall_index`, the latest
first. -/
structure Os where
  running : Running
  context : Sigcontext
  tryContext : UInt32
  libcalls : List LibCall

-- ---------------------------------------------------------------------------
-- Try contexts and libraries
-- ---------------------------------------------------------------------------

def maxLibcall : Nat := 3

def pathMax : Nat := 1024

def sysTryContextSet (context : UInt32) (s : Os) : UInt32 × Os :=
  (s.tryContext, { s with tryContext := context })

def sysTryContextGet (s : Os) : UInt32 := s.tryContext

def setupContext (parameters f : UInt32) (s : Os) : Os :=
  { s with context := { s.context with r0 := parameters, pc := f } }

/-- `run_lib`. There is no code to return to if the library is not loaded. -/
def runLib (setup : Setup) (name : Bytes) (parameters : UInt32) (s : Os) : Option Os :=
  (loadApp setup name s.running.toHost).map fun running =>
    setupContext parameters (loadAddr &&& 0xfffffffe) { s with running }

/-- `sys_os_lib_call`, once the name of the library has been read. -/
def libCall (setup : Setup) (libname : Bytes) (parameters : UInt32) (s : Os) : Option Os :=
  if s.libcalls.length ≥ maxLibcall then none
  else
    let call : LibCall := ⟨s.running.currentApp, s.context, s.tryContext⟩
    runLib setup libname parameters { s with libcalls := call :: s.libcalls }

def sysOsLibCall (setup : Setup) (callParameters : UInt32) (s : Os) : Option (UInt32 × Os) :=
  let libname := s.running.memory.string (s.running.memory.loadWord callParameters) pathMax
  (libCall setup libname (callParameters + 4) s).map fun s => (0xdeadbeef, s)

def sysOsLibEnd (setup : Setup) (s : Os) : Option (UInt32 × Os) :=
  match s.libcalls with
  | [] => none
  | call :: libcalls =>
    (replaceCurrentCode setup call.app s.running.toHost).map fun running =>
      (0, { running, context := call.sigcontext, tryContext := call.trycontext, libcalls })

-- ---------------------------------------------------------------------------
-- Syscalls
-- ---------------------------------------------------------------------------

/-- `SYSCALL_os_lib_call_ID_IN` -/
def sysOsLibCallId : UInt32 := 0x01000067

/-- `SYSCALL_os_lib_end_ID_IN` -/
def sysOsLibEndId : UInt32 := 0x00000068

/-- `SYSCALL_try_context_get_ID_IN` -/
def sysTryContextGetId : UInt32 := 0x00000087

/-- `SYSCALL_try_context_set_ID_IN` -/
def sysTryContextSetId : UInt32 := 0x0100010b

/-- An exception, as it is kept in `ex`. -/
abbrev Exception := { e : UInt16 // e ≠ 0 }

/-- How any other syscall ends: it returns a value or throws, and may have changed the
memory and the files. -/
structure Emulated where
  outcome : Except Exception UInt32
  memory : AddressSpace
  files : Files

/-- An svc instruction that the application executes: the registers and the memory as it
has them, and how the syscall ends if it is not one of a library or a try context. -/
structure SvcInstr where
  context : Sigcontext
  memory : AddressSpace
  other : Emulated

def SvcInstr.syscall (svc : SvcInstr) : UInt32 := svc.context.r0

def SvcInstr.parameters (svc : SvcInstr) : UInt32 := svc.context.r1

def SvcInstr.isTryContext (svc : SvcInstr) : Prop :=
  svc.syscall = sysTryContextSetId ∨ svc.syscall = sysTryContextGetId

instance (svc : SvcInstr) : Decidable svc.isTryContext := inferInstanceAs (Decidable (_ ∨ _))

def Os.withMemory (s : Os) (memory : AddressSpace) : Os :=
  { s with running := { s.running with memory } }

/-- `emulate`, for a syscall that is not one of a try context. -/
def emulate (setup : Setup) (svc : SvcInstr) (s : Os) : Option (Except Exception UInt32 × Os) :=
  if svc.syscall = sysOsLibCallId then
    (sysOsLibCall setup (s.running.memory.loadWord svc.parameters) s).map fun r => (.ok r.1, r.2)
  else if svc.syscall = sysOsLibEndId then
    (sysOsLibEnd setup s).map fun r => (.ok r.1, r.2)
  else
    let running := { s.running with memory := svc.other.memory, files := svc.other.files }
    some (svc.other.outcome, { s with running })

/-- `emulate`, for a syscall of a try context. -/
def emulateTryContext (svc : SvcInstr) (s : Os) : UInt32 × Os :=
  if svc.syscall = sysTryContextSetId then
    sysTryContextSet (s.running.memory.loadWord svc.parameters) s
  else (sysTryContextGet s, s)

-- ---------------------------------------------------------------------------
-- The handler
-- ---------------------------------------------------------------------------

/-- The words that an svc and the system push, the first one pushed first. -/
def Sigcontext.pushed (c : Sigcontext) : List UInt32 :=
  [c.cpsr, c.pc, c.lr, c.ip, c.r3, c.r2, c.r1, c.r0,
    c.fp, c.r10, c.r9, c.r8, c.r7, c.r6, c.r5, c.r4]

def pushWords : List UInt32 → UInt32 → AddressSpace → AddressSpace
  | [], _, m => m
  | w :: ws, sp, m => pushWords ws (sp - 4) (m.storeWord (sp - 4) w)

/-- `update_svc_stack(true)` -/
def pushSvcStack (s : Os) : Os :=
  let s := s.withMemory (pushWords s.context.pushed s.context.sp s.running.memory)
  { s with context := { s.context with sp := s.context.sp - 64 } }

/-- `update_svc_stack(false)` -/
def popSvcStack (s : Os) : Os := { s with context := { s.context with sp := s.context.sp + 64 } }

/-- The emulation of a syscall in the try context of the handler, which ends the
processing of an exception: the value and the exception, zero if there is none. -/
def emulateInTry (frame : UInt32) (setup : Setup) (svc : SvcInstr) (s : Os) :
    Option (UInt32 × UInt32 × Os) := do
  let (previous, s) := sysTryContextSet frame s
  let (outcome, s) ← emulate setup svc s
  let (ret, errorR1, s) := match outcome with
    | .ok ret => (ret, 0, s)
    | .error e => (0, e.val.toUInt32, (sysTryContextSet previous s).2)
  let s := if sysTryContextGet s = frame then (sysTryContextSet previous s).2 else s
  return (ret, errorR1, s)

/-- The return from a syscall: the values, and the instruction behind the svc. -/
def finish (ret errorR1 : UInt32) (s : Os) : Os :=
  popSvcStack { s with context := { s.context with r0 := ret, r1 := errorR1, pc := s.context.pc + 2 } }

/-- The application has run up to an svc instruction, and the handler is entered. -/
def enterHandler (svc : SvcInstr) (s : Os) : Os :=
  pushSvcStack { s.withMemory svc.memory with context := svc.context }

/-- The exits of the handler: the context that `os_lib_call` has changed stays. -/
def leaveHandler (svc : SvcInstr) (ret errorR1 : UInt32) (s : Os) : Os :=
  if svc.syscall = sysOsLibCallId then s else finish ret errorR1 s

/-- `sigill_handler`. There is no state after a crash. -/
def sigillHandler (frame : UInt32) (setup : Setup) (s : Os) (svc : SvcInstr) : Option Os :=
  if svc.context.pc ∉ s.running.svcAddr then none
  else
    let s := enterHandler svc s
    let emulated :=
      if svc.isTryContext then
        let (ret, s) := emulateTryContext svc s
        some (ret, 0, s)
      else emulateInTry frame setup svc s
    emulated.map fun (ret, errorR1, s) => leaveHandler svc ret errorR1 s

end Speculos.Svc
