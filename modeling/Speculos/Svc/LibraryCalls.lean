import Speculos.Svc.SigillHandler

/-!
# What a library call restores

When a library ends, its caller has its registers and its code back. The try context
that `os_lib_call` keeps is the one of the handler, which the handler of `os_lib_end`
takes for its own and replaces by the one of the library.
-/

namespace Speculos.Svc

open Lib Launcher

variable {frame : UInt32} {setup : Setup} {s t : Os} {svc : SvcInstr}

-- ---------------------------------------------------------------------------
-- One syscall
-- ---------------------------------------------------------------------------

/-- The try context after the handler, where the syscall has left `context`. -/
def leftContext (frame previous context : UInt32) : UInt32 :=
  if context = frame then previous else context

theorem leftContext_frame (frame previous : UInt32) : leftContext frame previous frame = previous :=
  if_pos rfl

theorem emulateInTry_cases (h : emulateInTry frame setup svc s = some (ret, errorR1, t)) :
    ∃ outcome u, emulate setup svc { s with tryContext := frame } = some (outcome, u) ∧
      ((outcome = .ok ret ∧ errorR1 = 0 ∧
          t = { u with tryContext := leftContext frame s.tryContext u.tryContext }) ∨
        ((∃ e, outcome = .error e) ∧ t = { u with tryContext := s.tryContext })) := by
  obtain ⟨⟨outcome, u⟩, hu, h⟩ := Option.bind_eq_some_iff.mp h
  refine ⟨outcome, u, hu, ?_⟩
  cases outcome with
  | ok ret' =>
    left
    cases h
    refine ⟨rfl, rfl, ?_⟩
    show (if u.tryContext = frame then _ else u) = _
    rw [leftContext]
    split <;> rfl
  | error e =>
    right
    cases h
    refine ⟨⟨e, rfl⟩, ?_⟩
    show (if s.tryContext = frame then _ else _) = _
    split <;> rfl

theorem libCall_cases (h : libCall setup name parameters s = some t) :
    s.libcalls.length < maxLibcall ∧ ∃ running,
      loadApp setup name s.running.toHost = some running ∧
        t = setupContext parameters loadAddr
          { s with
            running
            libcalls := ⟨s.running.currentApp, s.context, s.tryContext⟩ :: s.libcalls } := by
  rw [libCall] at h
  by_cases hlen : s.libcalls.length ≥ maxLibcall
  · rw [if_pos hlen] at h
    cases h
  · rw [if_neg hlen] at h
    obtain ⟨running, hrunning, rfl⟩ := Option.map_eq_some_iff.mp h
    exact ⟨Nat.lt_of_not_le hlen, running, hrunning, rfl⟩

theorem sysOsLibEnd_cases (h : sysOsLibEnd setup s = some r) :
    ∃ call libcalls running, s.libcalls = call :: libcalls ∧
      replaceCurrentCode setup call.app s.running.toHost = some running ∧
      r = (0, { running, context := call.sigcontext, tryContext := call.trycontext, libcalls }) := by
  rw [sysOsLibEnd] at h
  split at h
  · cases h
  · rename_i call libcalls hcalls
    obtain ⟨running, hrunning, rfl⟩ := Option.map_eq_some_iff.mp h
    exact ⟨call, libcalls, running, hcalls, hrunning, rfl⟩

theorem emulate_cases (h : emulate setup svc s = some (result, t)) :
    (svc.syscall = sysOsLibCallId ∧ s.libcalls.length < maxLibcall ∧ result = .ok 0xdeadbeef ∧
      ∃ name parameters running, loadApp setup name s.running.toHost = some running ∧
        t = setupContext parameters loadAddr
          { s with
            running
            libcalls := ⟨s.running.currentApp, s.context, s.tryContext⟩ :: s.libcalls }) ∨
    (svc.syscall = sysOsLibEndId ∧ result = .ok 0 ∧ ∃ call libcalls running,
      s.libcalls = call :: libcalls ∧
      replaceCurrentCode setup call.app s.running.toHost = some running ∧
      t = { running, context := call.sigcontext, tryContext := call.trycontext, libcalls }) ∨
    (svc.syscall ≠ sysOsLibCallId ∧ svc.syscall ≠ sysOsLibEndId ∧
      ∃ running, running.currentApp = s.running.currentApp ∧ t = { s with running }) := by
  by_cases hcall : svc.syscall = sysOsLibCallId
  · rw [emulate, if_pos hcall] at h
    obtain ⟨⟨_, _⟩, hr, h⟩ := Option.map_eq_some_iff.mp h
    cases h
    obtain ⟨s', hs', h⟩ := Option.map_eq_some_iff.mp hr
    cases h
    obtain ⟨hlen, running, hrunning, rfl⟩ := libCall_cases hs'
    exact .inl ⟨hcall, hlen, rfl, _, _, running, hrunning, rfl⟩
  by_cases hend : svc.syscall = sysOsLibEndId
  · rw [emulate, if_neg hcall, if_pos hend] at h
    obtain ⟨r, hr, h⟩ := Option.map_eq_some_iff.mp h
    obtain ⟨call, libcalls, running, hcalls, hrunning, rfl⟩ := sysOsLibEnd_cases hr
    cases h
    exact .inr (.inl ⟨hend, rfl, call, libcalls, running, hcalls, hrunning, rfl⟩)
  · rw [emulate, if_neg hcall, if_neg hend] at h
    cases h
    let running := { s.running with memory := svc.other.memory, files := svc.other.files }
    exact .inr (.inr ⟨hcall, hend, running, rfl, rfl⟩)

theorem emulateTryContext_eq (svc : SvcInstr) (s : Os) :
    ∃ ret context, emulateTryContext svc s = (ret, { s with tryContext := context }) := by
  by_cases hset : svc.syscall = sysTryContextSetId
  · exact ⟨_, _, if_pos hset⟩
  · exact ⟨_, s.tryContext, if_neg hset⟩

theorem sigillHandler_cases (h : sigillHandler frame setup s svc = some t) :
    (svc.isTryContext ∧ ∃ ret context,
      t = finish ret 0 { enterHandler svc s with tryContext := context }) ∨
    (svc.syscall = sysOsLibCallId ∧ s.libcalls.length < maxLibcall ∧ ∃ name parameters running,
      loadApp setup name (enterHandler svc s).running.toHost = some running ∧
      t = setupContext parameters loadAddr
        { enterHandler svc s with
          running
          libcalls := ⟨s.running.currentApp, (enterHandler svc s).context, frame⟩ :: s.libcalls }) ∨
    (svc.syscall = sysOsLibEndId ∧ ∃ call libcalls running, s.libcalls = call :: libcalls ∧
      replaceCurrentCode setup call.app (enterHandler svc s).running.toHost = some running ∧
      t = finish 0 0 {
        running
        context := call.sigcontext
        tryContext := leftContext frame s.tryContext call.trycontext
        libcalls }) ∨
    (¬ svc.isTryContext ∧ svc.syscall ≠ sysOsLibCallId ∧ svc.syscall ≠ sysOsLibEndId ∧
      ∃ ret errorR1 running, running.currentApp = s.running.currentApp ∧
      t = finish ret errorR1 { enterHandler svc s with running }) := by
  rw [sigillHandler] at h
  split at h
  · cases h
  obtain ⟨⟨ret, errorR1, s'⟩, hs', rfl⟩ := Option.map_eq_some_iff.mp h
  show _ ∧ (∃ _ _, leaveHandler svc ret errorR1 s' = _) ∨ _
  by_cases htry : svc.isTryContext
  · obtain ⟨ret', context, heq⟩ := emulateTryContext_eq svc (enterHandler svc s)
    rw [if_pos htry, heq] at hs'
    cases hs'
    have hid : svc.syscall ≠ sysOsLibCallId := by
      rcases htry with hid | hid <;> rw [hid] <;> decide
    exact .inl ⟨htry, ret, context, if_neg hid⟩
  rw [if_neg htry] at hs'
  obtain ⟨outcome, u, hu, hs'⟩ := emulateInTry_cases hs'
  right
  rcases emulate_cases hu with ⟨hcall, hlen, rfl, name, parameters, running, hload, rfl⟩ |
    ⟨hend, rfl, call, libcalls, running, hcalls, hreplace, rfl⟩ | ⟨hcall, hend, running, happ, rfl⟩
  · obtain ⟨-, -, rfl⟩ | ⟨⟨e, he⟩, -⟩ := hs'
    · refine .inl ⟨hcall, hlen, name, parameters, running, hload, ?_⟩
      refine (if_pos hcall).trans ?_
      exact congrArg (fun c => { setupContext parameters loadAddr _ with tryContext := c })
        (leftContext_frame _ _)
    · cases he
  · have hcall : svc.syscall ≠ sysOsLibCallId := by
      rw [hend]
      decide
    obtain ⟨hret, rfl, rfl⟩ | ⟨⟨e, he⟩, -⟩ := hs'
    · cases hret
      refine .inr (.inl ⟨hend, call, libcalls, running, hcalls, hreplace, ?_⟩)
      exact if_neg hcall
    · cases he
  · refine .inr (.inr ⟨htry, hcall, hend, ret, errorR1, running, happ, ?_⟩)
    refine (if_neg hcall).trans ?_
    obtain ⟨-, -, rfl⟩ | ⟨-, rfl⟩ := hs'
    · exact congrArg (fun c => finish ret errorR1 { enterHandler svc s with running, tryContext := c })
        (leftContext_frame _ _)
    · rfl

-- ---------------------------------------------------------------------------
-- Nested calls
-- ---------------------------------------------------------------------------

/-- Syscalls in which every library that is called returns. -/
inductive Nested : List SvcInstr → Prop
  | nil : Nested []
  | other (hcall : first.syscall ≠ sysOsLibCallId) (hend : first.syscall ≠ sysOsLibEndId)
      (hrest : Nested rest) : Nested (first :: rest)
  | call (hcall : call.syscall = sysOsLibCallId) (hbody : Nested body)
      (hend : libEnd.syscall = sysOsLibEndId) (hrest : Nested rest) :
      Nested (call :: body ++ libEnd :: rest)

theorem SvcInstr.isTryContext.ne (h : svc.isTryContext) :
    svc.syscall ≠ sysOsLibCallId ∧ svc.syscall ≠ sysOsLibEndId := by
  rcases h with h | h <;> rw [h] <;> decide

theorem ne_sysOsLibEndId (h : svc.syscall = sysOsLibCallId) : svc.syscall ≠ sysOsLibEndId := by
  rw [h]
  decide

theorem handler_libcalls_call (hid : svc.syscall = sysOsLibCallId)
    (h : sigillHandler frame setup s svc = some t) :
    t.libcalls = ⟨s.running.currentApp, (enterHandler svc s).context, frame⟩ :: s.libcalls := by
  rcases sigillHandler_cases h with ⟨htry, -⟩ | ⟨-, -, name, parameters, running, -, rfl⟩ |
    ⟨hend, -⟩ | ⟨-, hcall, -⟩
  · exact absurd hid htry.ne.1
  · rfl
  · exact absurd hend (ne_sysOsLibEndId hid)
  · exact absurd hid hcall

theorem handler_libcalls_other (hcall : svc.syscall ≠ sysOsLibCallId)
    (hend : svc.syscall ≠ sysOsLibEndId) (h : sigillHandler frame setup s svc = some t) :
    t.libcalls = s.libcalls := by
  rcases sigillHandler_cases h with ⟨-, ret, context, rfl⟩ | ⟨hid, -⟩ | ⟨hid, -⟩ |
    ⟨-, -, -, ret, errorR1, running, -, rfl⟩
  · rfl
  · exact absurd hid hcall
  · exact absurd hid hend
  · rfl

/-- The handler of `os_lib_end` restores what the last call has kept, but for the try context. -/
theorem handler_libEnd (hid : svc.syscall = sysOsLibEndId) (hcalls : s.libcalls = call :: libcalls)
    (h : sigillHandler frame setup s svc = some t) :
    t.running.currentApp = call.app ∧ t.libcalls = libcalls ∧
      t.tryContext = leftContext frame s.tryContext call.trycontext ∧
      t.context = { call.sigcontext with
        r0 := 0, r1 := 0, pc := call.sigcontext.pc + 2, sp := call.sigcontext.sp + 64 } := by
  rcases sigillHandler_cases h with ⟨htry, -⟩ | ⟨hcall, -⟩ |
    ⟨-, call', libcalls', running, hcalls', hreplace, rfl⟩ | ⟨-, -, hend, -⟩
  · exact absurd hid htry.ne.2
  · exact absurd hid (ne_sysOsLibEndId hcall)
  · cases hcalls.symm.trans hcalls'
    obtain ⟨patched, -, hrunning⟩ := Option.bind_eq_some_iff.mp hreplace
    cases hrunning
    exact ⟨rfl, rfl, rfl, rfl⟩
  · exact absurd hid hend

theorem Nested.libcalls_eq (hnested : Nested svcs)
    (h : exec (sigillHandler frame setup) s svcs = some t) : t.libcalls = s.libcalls := by
  induction hnested generalizing s t with
  | nil => rw [exec_nil h]
  | other hcall hend _ ih =>
    obtain ⟨s', hs', h⟩ := exec_cons h
    rw [ih h, handler_libcalls_other hcall hend hs']
  | call hcall _ hend _ ihbody ihrest =>
    rw [List.cons_append] at h
    obtain ⟨s₁, hs₁, h⟩ := exec_cons h
    rw [exec_append] at h
    obtain ⟨s₂, hs₂, h⟩ := Option.bind_eq_some_iff.mp h
    obtain ⟨s₃, hs₃, h⟩ := exec_cons h
    have hcalls := (ihbody hs₂).trans (handler_libcalls_call hcall hs₁)
    rw [ihrest h]
    exact (handler_libEnd hend hcalls hs₃).2.1

/-- The caller has its try context, its code and its registers back, behind its call. -/
structure CallerRestored (s t : Os) (call : SvcInstr) : Prop where
  tryContext : t.tryContext = s.tryContext
  app : t.running.currentApp = s.running.currentApp
  context : t.context = { call.context with r0 := 0, r1 := 0, pc := call.context.pc + 2 }

/-- A library returns to a caller that is restored exactly if it has the try context of the
caller when it ends. -/
theorem callerRestored_iff (hcall : call.syscall = sysOsLibCallId) (hbody : Nested body)
    (hend : libEnd.syscall = sysOsLibEndId)
    (hm : exec (sigillHandler frame setup) s (call :: body) = some m)
    (h : sigillHandler frame setup m libEnd = some t) :
    CallerRestored s t call ↔ m.tryContext = s.tryContext := by
  obtain ⟨s₁, hs₁, hm⟩ := exec_cons hm
  have hcalls := (hbody.libcalls_eq hm).trans (handler_libcalls_call hcall hs₁)
  obtain ⟨happ, -, htry, hcontext⟩ := handler_libEnd hend hcalls h
  rw [leftContext_frame] at htry
  constructor
  · intro hrestored
    rw [← htry]
    exact hrestored.tryContext
  · intro hsame
    refine ⟨htry.trans hsame, happ, hcontext.trans ?_⟩
    have hsp : call.context.sp - 64 + 64 = call.context.sp := UInt32.sub_add_cancel ..
    simp only [enterHandler, pushSvcStack, Os.withMemory, hsp]

-- ---------------------------------------------------------------------------
-- A library that ends within a try
-- ---------------------------------------------------------------------------

def svcApp (name : Bytes) : App where
  name := name
  nvramFileName := name
  loadNvram := false
  saveNvram := false
  file := [0x01, 0xdf]
  elf := {
    loadOffset := 0
    loadSize := 2
    stackAddr := 0x20000000
    stackSize := 0x1000
    svcCallAddr := 0
    svcCxCallAddr := 0
    textLoadAddr := 0xc0de0000
    fontsAddr := 0
    fontsSize := 0
    appNvramAddr := 0
    appNvramSize := 0
    useNbgl := 0 }

/-- An application "m" and a library "l". -/
def svcSetup : Setup := ⟨22, [svcApp [0x6d], svcApp [0x6c]]⟩

/-- The parameters of the calls, which point to a pointer to "l". -/
def svcMemory : AddressSpace := fun a =>
  [0x04, 0x00, 0x00, 0x20, 0x08, 0x00, 0x00, 0x20, 0x6c].getD (a - 0x20000000).toNat 0

def svcContext (syscall : UInt32) : Sigcontext :=
  ⟨0, 0, 0, syscall, 0x20000000, 0, 0, 0, 0, 0, 0, 0, 0, 0, 0, 0, 0x20001000, 0, loadAddr, 0, 0⟩

def svcInstr (syscall : UInt32) : SvcInstr :=
  ⟨svcContext syscall, svcMemory, ⟨.ok 0, svcMemory, fun _ => none⟩⟩

/-- The application "m" runs, without a try context. -/
def svcBoot : Os where
  running := ⟨⟨svcMemory, [loadAddr], true, fun _ => none⟩, svcApp [0x6d]⟩
  context := svcContext 0
  tryContext := 0
  libcalls := []

/-- A library that sets a try context, calls a library itself and sets the context back. -/
def svcBody : List SvcInstr :=
  [svcInstr sysTryContextSetId, svcInstr sysOsLibCallId, svcInstr sysOsLibEndId,
    ⟨svcContext sysTryContextSetId, fun _ => 0, ⟨.ok 0, svcMemory, fun _ => none⟩⟩]

theorem nested_svcBody : Nested svcBody :=
  .other (by decide) (by decide) (.call rfl .nil rfl (.other (by decide) (by decide) .nil))

theorem callerRestored_nested :
    ∃ m t, exec (sigillHandler 0x7fffff00 svcSetup) svcBoot
        (svcInstr sysOsLibCallId :: svcBody) = some m ∧
      sigillHandler 0x7fffff00 svcSetup m (svcInstr sysOsLibEndId) = some t ∧
      CallerRestored svcBoot t (svcInstr sysOsLibCallId) := by
  let run := exec (sigillHandler 0x7fffff00 svcSetup) svcBoot (svcInstr sysOsLibCallId :: svcBody)
  let m := run.get (by decide +kernel)
  have hm : run = some m := (Option.some_get _).symm
  let last := sigillHandler 0x7fffff00 svcSetup m (svcInstr sysOsLibEndId)
  let t := last.get (by decide +kernel)
  have ht : last = some t := (Option.some_get _).symm
  have htry : m.tryContext = svcBoot.tryContext := by decide +kernel
  exact ⟨m, t, hm, ht, (callerRestored_iff rfl nested_svcBody rfl hm ht).mpr htry⟩

theorem libraryTry_not_restored :
    ∃ m t, exec (sigillHandler 0x7fffff00 svcSetup) svcBoot
        [svcInstr sysOsLibCallId, svcInstr sysTryContextSetId] = some m ∧
      sigillHandler 0x7fffff00 svcSetup m (svcInstr sysOsLibEndId) = some t ∧
      ¬ CallerRestored svcBoot t (svcInstr sysOsLibCallId) := by
  let run := exec (sigillHandler 0x7fffff00 svcSetup) svcBoot
    [svcInstr sysOsLibCallId, svcInstr sysTryContextSetId]
  let m := run.get (by decide +kernel)
  let last := sigillHandler 0x7fffff00 svcSetup m (svcInstr sysOsLibEndId)
  let t := last.get (by decide +kernel)
  refine ⟨m, t, (Option.some_get _).symm, (Option.some_get _).symm, fun h => ?_⟩
  exact absurd h.tryContext (by decide +kernel)

end Speculos.Svc
