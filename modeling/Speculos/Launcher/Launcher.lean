import Speculos.Svc.Patching

/-!
# The launcher

The applications that are opened, the memory they run in and the files on the host
that keep their NVRAM. Code is mapped from the file of the application, where the
svc instructions are patched. System calls of the host succeed; what is unmapped is
mapped again before it is read.
-/

namespace Speculos.Launcher

open Lib
open Svc (Patching patchSvc)

-- ---------------------------------------------------------------------------
-- Applications
-- ---------------------------------------------------------------------------

/-- `elf_info_s`, but for the derivation path. -/
structure ElfInfo where
  loadOffset : UInt32
  loadSize : UInt32
  stackAddr : UInt32
  stackSize : UInt32
  svcCallAddr : UInt32
  svcCxCallAddr : UInt32
  textLoadAddr : UInt32
  fontsAddr : UInt32
  fontsSize : UInt32
  appNvramAddr : UInt32
  appNvramSize : UInt32
  useNbgl : Int
  deriving DecidableEq, Repr

/-- `app_s`, where `file` is what the file descriptor gives. -/
structure App where
  name : Bytes
  nvramFileName : Bytes
  loadNvram : Bool
  saveNvram : Bool
  file : Bytes
  elf : ElfInfo
  deriving DecidableEq, Repr

/-- What the command line says: the API level and the applications. -/
structure Setup where
  apiLevel : Nat
  apps : List App
  deriving DecidableEq, Repr

def Setup.searchAppByName (setup : Setup) (name : Bytes) : Option App :=
  setup.apps.find? (·.name = name)

def loadAddr : UInt32 := 0x40000000

def linkRamAddr : UInt32 := 0xda7a0000

def loadRamAddr : UInt32 := 0x50000000

def pageSize : UInt32 := 4096

def getLowerPageAlignedAddr (vaddr : UInt32) : UInt32 := vaddr &&& ~~~(pageSize - 1)

def getUpperPageAlignedSize (vsize : UInt32) : UInt32 :=
  (vsize + pageSize - 1) &&& ~~~(pageSize - 1)

/-- `code + app_nvram_offset` -/
def App.nvramStart (app : App) : UInt32 := loadAddr + (app.elf.appNvramAddr - app.elf.textLoadAddr)

def App.nvramSize (app : App) : Nat := app.elf.appNvramSize.toNat

theorem App.nvramSize_lt (app : App) : app.nvramSize < 2 ^ 32 := app.elf.appNvramSize.toNat_lt

-- ---------------------------------------------------------------------------
-- Code
-- ---------------------------------------------------------------------------

/-- `patch_svc`, where the launcher goes on if it returns zero. -/
def patchCode (apiLevel : Nat) (p size : UInt32) (s : Patching) : Option Patching :=
  (patchSvc apiLevel (fun _ => true) p size s).value.bind fun (ret, s) =>
    if ret = 0 then some s else none

/-- The patches of an application: at the addresses of its syscall functions, and
everywhere if these are not known. -/
def patchApp (apiLevel : Nat) (app : App) (s : Patching) : Option Patching :=
  if app.elf.svcCallAddr ≠ 0 ∨ app.elf.svcCxCallAddr ≠ 0 then do
    let s ← if app.elf.svcCallAddr ≠ 0 then
        patchCode apiLevel (loadAddr + (app.elf.svcCallAddr - app.elf.textLoadAddr)) 2 s
      else some s
    if app.elf.svcCxCallAddr ≠ 0 then
      patchCode apiLevel (loadAddr + (app.elf.svcCxCallAddr - app.elf.textLoadAddr)) 2 s
    else some s
  else patchCode apiLevel loadAddr app.elf.loadSize s

/-- The `mmap` of the code, with an extra page. What follows the file is zero. -/
def mmapCode (app : App) (m : AddressSpace) : AddressSpace := fun a =>
  if (a - loadAddr).toNat < app.elf.loadSize.toNat + pageSize.toNat then
    app.file.getD (app.elf.loadOffset.toNat + (a - loadAddr).toNat) 0
  else m a

-- ---------------------------------------------------------------------------
-- NVRAM
-- ---------------------------------------------------------------------------

/-- The files of the host, by name. -/
abbrev Files := Bytes → Option Bytes

def Files.set (files : Files) (name : Bytes) (content : Option Bytes) : Files := fun name' =>
  if name' = name then content else files name'

@[simp] theorem Files.set_self (files : Files) (name : Bytes) (content : Option Bytes) :
    files.set name content name = content := if_pos rfl

@[simp] theorem Files.set_set (files : Files) (name : Bytes) (content content' : Option Bytes) :
    (files.set name content).set name content' = files.set name content' := by
  funext name'
  rw [set, set, set]
  split <;> rfl

def storageBackup : Bytes := [0x2e, 0x62, 0x61, 0x63, 0x6b, 0x75, 0x70]

def Files.rename (files : Files) (old new : Bytes) : Files :=
  match files old with
  | none => files
  | some content => (files.set new (some content)).set old none

/-- What is preloaded into the NVRAM. A file of 2 GiB has no size that `ftell` can give. -/
def App.preload (app : App) (files : Files) : Option Bytes :=
  if app.loadNvram then
    (files app.nvramFileName).filter fun buffer => buffer.length < 2 ^ 31
  else some []

/-- A write to memory, with the bytes that are written. -/
structure Write where
  dst : UInt32
  src : Bytes

/-- The writes of the NVRAM data update: zeros, and over them what is preloaded. -/
def App.nvramWrites (app : App) (preload : Bytes) : List Write :=
  [⟨app.nvramStart, List.replicate app.nvramSize 0⟩, ⟨app.nvramStart, preload⟩]

/-- What `save_nvram` does to the files: the current file is renamed, and a content that is
not empty is saved to a new one. -/
def App.saveInitial (app : App) (content : Bytes) (files : Files) : Files :=
  if app.saveNvram then
    let files := files.rename app.nvramFileName (app.nvramFileName ++ storageBackup)
    if content.length > 0 then files.set app.nvramFileName (some content) else files
  else files

/-- The NVRAM data update of `load_app`. -/
def App.updateNvram (app : App) (memory : AddressSpace) (files : Files) :
    Option (AddressSpace × Files) :=
  if app.elf.appNvramAddr ≠ 0 then
    (app.preload files).map fun preload =>
      let memory := (app.nvramWrites preload).foldl (fun m w => m.memcpy w.dst w.src) memory
      (memory, app.saveInitial (memory.read app.nvramStart preload.length) files)
  else some (memory, files)

-- ---------------------------------------------------------------------------
-- Loading
-- ---------------------------------------------------------------------------

/-- What the launcher holds before an application runs: `dataMapped` tells whether
`memory.data` is mapped. -/
structure Host where
  memory : AddressSpace
  svcAddr : List UInt32
  dataMapped : Bool
  files : Files

/-- An application runs. -/
structure Running extends Host where
  currentApp : App

/-- The address and the size of the data of an application. -/
def App.data (app : App) : UInt32 × UInt32 :=
  if app.elf.stackAddr = linkRamAddr then
    (loadRamAddr, getUpperPageAlignedSize app.elf.stackSize)
  else
    let dataAddr := getLowerPageAlignedAddr app.elf.stackAddr
    (dataAddr, getUpperPageAlignedSize (app.elf.stackSize + app.elf.stackAddr - dataAddr))

/-- The memory with the code of an application, and with its data unless data is mapped. -/
def Host.mapped (s : Host) (app : App) : AddressSpace :=
  if s.dataMapped then mmapCode app s.memory
  else (mmapCode app s.memory).memset app.data.1 0 app.data.2.toNat

/-- `load_app`, where the code that ran before is unmapped. -/
def loadApp (setup : Setup) (name : Bytes) (s : Host) : Option Running := do
  let app ← setup.searchAppByName name
  if app.elf.loadOffset.toNat > app.file.length ∨
      app.elf.loadSize.toNat > app.file.length - app.elf.loadOffset.toNat then none
  else
    let patched ← patchApp setup.apiLevel app ⟨s.mapped app, s.svcAddr⟩
    let (memory, files) ← app.updateNvram patched.memory s.files
    return ⟨⟨memory, patched.svcAddr, true, files⟩, app⟩

def replaceCurrentCode (setup : Setup) (app : App) (s : Host) : Option Running := do
  let patched ← patchApp setup.apiLevel app ⟨mmapCode app s.memory, s.svcAddr⟩
  return ⟨⟨patched.memory, patched.svcAddr, s.dataMapped, s.files⟩, app⟩

-- ---------------------------------------------------------------------------
-- The NVRAM that is loaded
-- ---------------------------------------------------------------------------

section

variable {app : App} {files files' : Files} {memory memory' : AddressSpace} {preload : Bytes}
  {setup : Setup} {name : Bytes} {s : Host} {r : Running}

theorem App.length_preload_lt (h : app.preload files = some preload) : preload.length < 2 ^ 31 := by
  rw [App.preload] at h
  split at h
  · exact of_decide_eq_true (Option.filter_eq_some_iff.mp h).2
  · cases h
    decide

theorem App.updateNvram_cases (hdeclared : app.elf.appNvramAddr ≠ 0)
    (h : app.updateNvram memory files = some (memory', files')) :
    ∃ preload, app.preload files = some preload ∧ files' = app.saveInitial preload files ∧
      ∀ j < app.nvramSize, memory' (app.nvramStart + UInt32.ofNat j) = preload.getD j 0 := by
  rw [updateNvram, if_pos hdeclared] at h
  obtain ⟨preload, hpreload, h⟩ := Option.map_eq_some_iff.mp h
  have hlen := length_preload_lt hpreload
  obtain ⟨rfl, rfl⟩ := Prod.mk.inj h
  refine ⟨preload, hpreload, ?_, fun j hj => ?_⟩
  · have hle : preload.length ≤ 2 ^ 32 := by omega
    exact congrArg (app.saveInitial · files) (AddressSpace.read_memcpy _ _ _ hle)
  · have hj' : j < 2 ^ 32 := Nat.lt_trans hj app.nvramSize_lt
    show ((memory.memcpy app.nvramStart (List.replicate app.nvramSize 0)).memcpy app.nvramStart
      preload) _ = _
    rw [AddressSpace.memcpy_start _ _ _ hj', AddressSpace.memcpy_start _ _ _ hj']
    simp [hj, List.getD_eq_getElem?_getD]

theorem loadApp_iff :
    loadApp setup name s = some r ↔ ∃ app patched memory files,
      setup.searchAppByName name = some app ∧
      ¬ (app.elf.loadOffset.toNat > app.file.length ∨
        app.elf.loadSize.toNat > app.file.length - app.elf.loadOffset.toNat) ∧
      patchApp setup.apiLevel app ⟨s.mapped app, s.svcAddr⟩ = some patched ∧
      app.updateNvram patched.memory s.files = some (memory, files) ∧
      r = ⟨⟨memory, patched.svcAddr, true, files⟩, app⟩ := by
  constructor
  · intro h
    obtain ⟨app, happ, h⟩ := Option.bind_eq_some_iff.mp h
    split at h
    · cases h
    · rename_i hsize
      obtain ⟨patched, hpatched, h⟩ := Option.bind_eq_some_iff.mp h
      obtain ⟨⟨memory, files⟩, hnvram, h⟩ := Option.bind_eq_some_iff.mp h
      cases h
      exact ⟨app, patched, memory, files, happ, hsize, hpatched, hnvram, rfl⟩
  · rintro ⟨app, patched, memory, files, happ, hsize, hpatched, hnvram, rfl⟩
    refine Option.bind_eq_some_iff.mpr ⟨app, happ, ?_⟩
    rw [if_neg hsize]
    exact Option.bind_eq_some_iff.mpr ⟨patched, hpatched,
      Option.bind_eq_some_iff.mpr ⟨(memory, files), hnvram, rfl⟩⟩

theorem loadApp_cases (h : loadApp setup name s = some r) :
    setup.searchAppByName name = some r.currentApp ∧
      ∃ memory, r.currentApp.updateNvram memory s.files = some (r.memory, r.files) := by
  obtain ⟨app, patched, memory, files, happ, -, -, hnvram, rfl⟩ := loadApp_iff.mp h
  exact ⟨happ, patched.memory, hnvram⟩

end

end Speculos.Launcher
