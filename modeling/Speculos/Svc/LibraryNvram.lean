import Speculos.Svc.LibraryCalls
import Speculos.Launcher.NvmWrite

/-!
# The NVRAM over library calls

What an application has written to its NVRAM is lost when a library that it calls
returns: its code is mapped from its file again, and the NVRAM with it. The NVRAM of
a library is loaded again at every call.
-/

namespace Speculos.Svc

open Lib Launcher

-- ---------------------------------------------------------------------------
-- Runs
-- ---------------------------------------------------------------------------

/-- What the NVRAM of an application is to hold, by offset: what the application has
written in this run, and what the last load has left. -/
structure Nvram where
  written : Nat → Option UInt8
  loaded : Nat → UInt8

namespace Nvram

def empty : Nvram := ⟨fun _ => none, fun _ => 0⟩

def value (n : Nvram) (i : Nat) : UInt8 := (n.written i).getD (n.loaded i)

def write (n : Nvram) (off : Nat) (bs : Bytes) : Nvram :=
  { n with written := fun i => if off ≤ i ∧ i < off + bs.length then bs[i - off]? else n.written i }

def load (n : Nvram) (app : App) (m : AddressSpace) : Nvram :=
  { n with loaded := fun i => m (app.nvramStart + UInt32.ofNat i) }

end Nvram

/-- The system, and beside it what the NVRAM of each application is to hold. -/
structure Tracked where
  os : Os
  nvram : Bytes → Nvram

def Tracked.set (t : Tracked) (os : Os) (name : Bytes) (n : Nvram) : Tracked :=
  ⟨os, fun name' => if name' = name then n else t.nvram name'⟩

/-- A call that writes, a library that is called or one that ends. -/
inductive NvramAction
  | nvm (c : NvmCall)
  | libCall (name : Bytes) (parameters : UInt32)
  | libEnd

def Tracked.app (t : Tracked) : App := t.os.running.currentApp

def step (setup : Setup) (t : Tracked) : NvramAction → Option Tracked
  | .nvm c =>
    match c.run t.os.running with
    | .ok _ running =>
      some (t.set { t.os with running } t.app.name
        ((t.nvram t.app.name).write (c.offset t.app) c.content))
    | .error _ _ => none
  | .libCall name parameters =>
    (libCall setup name parameters t.os).map fun os =>
      let app := os.running.currentApp
      t.set os app.name ((t.nvram app.name).load app os.running.memory)
  | .libEnd => (sysOsLibEnd setup t.os).map fun r => { t with os := r.2 }

/-- An application has been loaded, and runs. -/
def boot (running : Running) (context : Sigcontext) : Tracked :=
  let t : Tracked := ⟨⟨running, context, 0, []⟩, fun _ => .empty⟩
  let app := running.currentApp
  t.set t.os app.name (Nvram.empty.load app running.memory)

/-- The NVRAM of the running application holds what it is to hold. -/
def Holds (running : Running) (n : Nvram) : Prop :=
  running.currentApp.elf.appNvramAddr ≠ 0 → ∀ i < running.currentApp.nvramSize,
    running.memory (running.currentApp.nvramStart + UInt32.ofNat i) = n.value i

def Tracked.Survives (t : Tracked) : Prop := Holds t.os.running (t.nvram t.app.name)

/-- The writes are inside the NVRAM that the running application declares. -/
def InBounds (t : Tracked) : NvramAction → Prop
  | .nvm c => c.InBounds t.app
  | _ => True

/-- What is mapped or loaded again is what the application has left: at a call, what the
library is preloaded with holds what it has written before; at an end, the code of the
caller, with its svc instructions patched, holds in its NVRAM what the caller has. -/
def Returns (setup : Setup) (t : Tracked) : NvramAction → Prop
  | .nvm _ => True
  | .libCall name _ =>
    ∀ app preload, setup.searchAppByName name = some app → app.elf.appNvramAddr ≠ 0 →
      app.preload t.os.running.files = some preload →
      ∀ i < app.nvramSize, ∀ b, (t.nvram app.name).written i = some b → preload.getD i 0 = b
  | .libEnd =>
    ∀ call ∈ t.os.libcalls.head?, call.app.elf.appNvramAddr ≠ 0 →
      ∀ patched, patchApp setup.apiLevel call.app
          ⟨mmapCode call.app t.os.running.memory, t.os.running.svcAddr⟩ = some patched →
        ∀ i < call.app.nvramSize, patched.memory (call.app.nvramStart + UInt32.ofNat i) =
          (t.nvram call.app.name).value i

-- ---------------------------------------------------------------------------
-- One step
-- ---------------------------------------------------------------------------

variable {setup : Setup} {t t' : Tracked} {c : NvmCall}

theorem Tracked.survives_set (t : Tracked) (os : Os) (n : Nvram) :
    (t.set os os.running.currentApp.name n).Survives ↔ Holds os.running n := by
  show Holds os.running (if os.running.currentApp.name = os.running.currentApp.name then n else _) ↔
    _
  rw [if_pos rfl]

theorem Holds.write {running running' : Running} (h : Holds running n)
    (hin : c.InBounds running.currentApp) (hrun : c.run running = .ok () running') :
    Holds running' (n.write (c.offset running.currentApp) c.content) := by
  obtain ⟨hmemory, happ⟩ := NvmCall.run_ok hrun
  intro hdeclared i hi
  rw [happ] at hdeclared hi
  have hi' : i < 2 ^ 32 := Nat.lt_trans hi running.currentApp.nvramSize_lt
  rw [hmemory, happ, c.memcpy_at _ _ hin hi']
  show _ = ((if c.offset running.currentApp ≤ i ∧ i < c.offset running.currentApp + c.content.length
    then c.content[i - c.offset running.currentApp]? else n.written i).getD _)
  split
  · rename_i hwritten
    have hlt : i - c.offset running.currentApp < c.content.length := by omega
    rw [List.getElem?_eq_getElem hlt, List.getD_eq_getElem _ _ hlt]
    rfl
  · exact h hdeclared i hi

theorem holds_load_iff (running : Running) (n : Nvram) :
    Holds running (n.load running.currentApp running.memory) ↔
      (running.currentApp.elf.appNvramAddr ≠ 0 → ∀ i < running.currentApp.nvramSize, ∀ b,
        n.written i = some b →
          running.memory (running.currentApp.nvramStart + UInt32.ofNat i) = b) := by
  have hvalue (i : Nat) : running.memory (running.currentApp.nvramStart + UInt32.ofNat i) =
      (n.load running.currentApp running.memory).value i ↔
        ∀ b, n.written i = some b →
          running.memory (running.currentApp.nvramStart + UInt32.ofNat i) = b := by
    rw [Nvram.value, Nvram.load]
    cases n.written i with
    | none => exact iff_of_true rfl fun b hb => nomatch hb
    | some b => exact ⟨fun h b' hb' => h.trans (Option.some.inj hb'), fun h => h b rfl⟩
  simp only [Holds, hvalue]

theorem survives_nvm (hs : t.Survives) (hin : InBounds t (.nvm c))
    (h : step setup t (.nvm c) = some t') : t'.Survives := by
  rw [step] at h
  split at h
  · rename_i running hrun
    cases h
    have happ : running.currentApp = t.app := (NvmCall.run_ok hrun).2
    rw [← happ]
    refine (t.survives_set { t.os with running } _).mpr ?_
    rw [happ]
    exact Holds.write hs hin hrun
  · cases h

theorem survives_libCall (h : step setup t (.libCall name parameters) = some t') :
    t'.Survives ↔ Returns setup t (.libCall name parameters) := by
  obtain ⟨os, hos, rfl⟩ := Option.map_eq_some_iff.mp h
  obtain ⟨-, running, hload, rfl⟩ := libCall_cases hos
  obtain ⟨happ, memory, hnvram⟩ := loadApp_cases hload
  refine (t.survives_set _ _).trans ((holds_load_iff running _).trans ?_)
  constructor
  · intro hwritten app preload happ' hdeclared hpreload i hi b hb
    cases happ.symm.trans happ'
    obtain ⟨preload', hpreload', -, hat⟩ := App.updateNvram_cases hdeclared hnvram
    cases hpreload.symm.trans hpreload'
    rw [← hat i hi]
    exact hwritten hdeclared i hi b hb
  · intro hreturns hdeclared i hi b hb
    obtain ⟨preload, hpreload, -, hat⟩ := App.updateNvram_cases hdeclared hnvram
    rw [hat i hi]
    exact hreturns running.currentApp preload happ hdeclared hpreload i hi b hb

theorem survives_libEnd (h : step setup t .libEnd = some t') :
    t'.Survives ↔ Returns setup t .libEnd := by
  obtain ⟨r, hr, rfl⟩ := Option.map_eq_some_iff.mp h
  obtain ⟨call, libcalls, running, hcalls, hreplace, rfl⟩ := sysOsLibEnd_cases hr
  obtain ⟨patched, hpatched, hrunning⟩ := Option.bind_eq_some_iff.mp hreplace
  cases hrunning
  constructor
  · intro hsurvives call' hcall' hdeclared patched' hpatched' i hi
    rw [hcalls] at hcall'
    cases hcall'
    cases hpatched.symm.trans hpatched'
    exact hsurvives hdeclared i hi
  · intro hreturns hdeclared i hi
    exact hreturns call (by rw [hcalls]; rfl) hdeclared patched hpatched i hi

theorem survives_boot (running : Running) (context : Sigcontext) :
    (boot running context).Survives := by
  refine (Tracked.survives_set _ ⟨running, context, 0, []⟩ _).mpr
    ((holds_load_iff running _).mpr ?_)
  intro _ _ _ b hb
  cases hb

-- ---------------------------------------------------------------------------
-- Every run
-- ---------------------------------------------------------------------------

/-- In a run, the NVRAM of the running application holds what it is to hold in all states
exactly if every call and every end of a library returns what was left. -/
theorem nvram_survives_iff (hbounds : Guarded (step setup) InBounds (boot running context) actions)
    (h : exec (step setup) (boot running context) actions = some t) :
    (∀ before after t', actions = before ++ after →
        exec (step setup) (boot running context) before = some t' → t'.Survives) ↔
      Guarded (step setup) (Returns setup) (boot running context) actions := by
  refine forall_prefix_iff_guarded (fun t a t' hs hin hstep => ?_) (survives_boot running context)
    hbounds h
  cases a with
  | nvm c => exact iff_of_true (survives_nvm hs hin hstep) trivial
  | libCall name parameters => exact survives_libCall hstep
  | libEnd => exact survives_libEnd hstep

-- ---------------------------------------------------------------------------
-- A library that does nothing
-- ---------------------------------------------------------------------------

/-- An application with an svc instruction and an NVRAM of 16 bytes behind it. -/
def nvramApp : App :=
  { svcApp [0x6d] with
    file := [0x01, 0xdf, 0x17, 0, 0, 0, 0, 0, 0, 0, 0, 0, 0, 0, 0, 0, 0, 0]
    elf := { (svcApp [0x6d]).elf with
      loadSize := 18
      appNvramAddr := 0xc0de0002
      appNvramSize := 16 } }

def nvramSetup : Setup := ⟨22, [nvramApp, svcApp [0x6c]]⟩

def nvramHost : Host := ⟨fun _ => 0, [], false, fun _ => none⟩

/-- The first byte is written, and a library is called that returns at once. -/
def nvramActions : List NvramAction :=
  [.nvm (.write 0x40000002 (.bytes [0x42])), .libCall [0x6c] 0, .libEnd]

/-- The first byte is written as the file has it, and a library is called that returns. -/
def nvramKept : List NvramAction :=
  [.nvm (.write 0x40000002 (.bytes [0x17])), .libCall [0x6c] 0, .libEnd]

def nvramRunning : Running := (loadApp nvramSetup [0x6d] nvramHost).get (by decide +kernel)

theorem returns_nvramKept (t : Tracked)
    (h : exec (step nvramSetup) (boot nvramRunning (svcContext 0)) (nvramKept.take 2) = some t) :
    Returns nvramSetup t .libEnd := by
  have hkept : (exec (step nvramSetup) (boot nvramRunning (svcContext 0)) (nvramKept.take 2)).all
      (fun t => t.os.libcalls.head?.all fun call =>
        (patchApp nvramSetup.apiLevel call.app
          ⟨mmapCode call.app t.os.running.memory, t.os.running.svcAddr⟩).all fun patched =>
          decide (∀ i < call.app.nvramSize, patched.memory (call.app.nvramStart + UInt32.ofNat i) =
            (t.nvram call.app.name).value i)) = true := by
    decide +kernel
  rw [h] at hkept
  intro call hcall _ patched hpatched
  simp only [Option.all_some] at hkept
  rw [Option.mem_def.mp hcall, Option.all_some, hpatched, Option.all_some] at hkept
  exact of_decide_eq_true hkept

theorem nvram_survives_kept :
    ∃ t, exec (step nvramSetup) (boot nvramRunning (svcContext 0)) nvramKept = some t ∧
      t.Survives := by
  let run := exec (step nvramSetup) (boot nvramRunning (svcContext 0)) nvramKept
  have hrun : run = some (run.get (by decide +kernel)) := (Option.some_get _).symm
  have hin : Guarded (step nvramSetup) InBounds (boot nvramRunning (svcContext 0)) nvramKept :=
    ⟨⟨by decide +kernel, by decide +kernel⟩,
      fun _ _ => ⟨trivial, fun _ _ => ⟨trivial, fun _ _ => trivial⟩⟩⟩
  have hreturns : Guarded (step nvramSetup) (Returns nvramSetup)
      (boot nvramRunning (svcContext 0)) nvramKept := by
    refine ⟨trivial, fun t ht => ⟨?_, fun t' ht' => ⟨?_, fun _ _ => trivial⟩⟩⟩
    · intro app preload happ hdeclared
      cases happ
      exact absurd rfl hdeclared
    · refine returns_nvramKept t' ?_
      rw [nvramKept, List.take, exec, Option.mem_def.mp ht, Option.bind_some, List.take, exec,
        Option.mem_def.mp ht']
      rfl
  exact ⟨_, hrun, (nvram_survives_iff hin hrun).mpr hreturns _ [] _ (List.append_nil _).symm hrun⟩

theorem nvram_lost :
    ∃ running t, loadApp nvramSetup [0x6d] nvramHost = some running ∧
      Guarded (step nvramSetup) InBounds (boot running (svcContext 0)) nvramActions ∧
      exec (step nvramSetup) (boot running (svcContext 0)) nvramActions = some t ∧
      ¬ t.Survives := by
  let run := exec (step nvramSetup) (boot nvramRunning (svcContext 0)) nvramActions
  let t := run.get (by decide +kernel)
  refine ⟨nvramRunning, t, (Option.some_get _).symm,
    ⟨⟨by decide +kernel, by decide +kernel⟩,
      fun _ _ => ⟨trivial, fun _ _ => ⟨trivial, fun _ _ => trivial⟩⟩⟩,
    (Option.some_get _).symm, fun h => ?_⟩
  have hbyte := h (by decide +kernel) 0 (by decide +kernel)
  exact absurd hbyte (by decide +kernel)

end Speculos.Svc
