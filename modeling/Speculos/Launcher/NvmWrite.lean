import Speculos.Launcher.Launcher
import Speculos.Lib.Effect

/-!
# Writing to the NVRAM

A write changes the memory and, where the NVRAM is saved, the same bytes of a file.
The emulator stops at a write that is out of the boundaries, and at an erasure that
is to be saved: what would be written to the file is read through a null pointer.
-/

namespace Speculos.Launcher

open Lib

-- ---------------------------------------------------------------------------
-- Files
-- ---------------------------------------------------------------------------

/-- `fseek` and `fwrite`: a gap behind the end of the file is filled with zeros. -/
def writeAt (content : Bytes) (off : Nat) (bs : Bytes) : Bytes :=
  if bs = [] then content
  else content.take off ++ List.replicate (off - content.length) 0 ++ bs ++
    content.drop (off + bs.length)

theorem getD_writeAt (content : Bytes) (off : Nat) (bs : Bytes) (j : Nat) :
    (writeAt content off bs).getD j 0 =
      if off ≤ j ∧ j < off + bs.length then bs.getD (j - off) 0 else content.getD j 0 := by
  by_cases hbs : bs = []
  · subst hbs
    rw [writeAt, if_pos rfl, if_neg (by simp)]
  rw [writeAt, if_neg hbs]
  have hstart : (content.take off ++ List.replicate (off - content.length) 0).length = off := by
    simp
    omega
  rcases Nat.lt_or_ge j off with hlt | hge
  · rw [if_neg (by omega), List.append_assoc, List.append_assoc, ← List.append_assoc,
      List.getD_append _ _ _ _ (by omega)]
    rcases Nat.lt_or_ge j content.length with hin | hout
    · rw [List.getD_append _ _ _ _ (by simp; omega)]
      simp [List.getD_eq_getElem?_getD, hlt]
    · rw [List.getD_append_right _ _ _ _ (by simp; omega), List.getD_eq_default content 0 hout]
      simp only [List.getD_eq_getElem?_getD, List.getElem?_replicate]
      split <;> rfl
  · rw [List.append_assoc, List.getD_append_right _ _ _ _ (by omega), hstart]
    by_cases hin : j < off + bs.length
    · rw [if_pos ⟨hge, hin⟩, List.getD_append _ _ _ _ (by omega)]
    · rw [if_neg (fun h => hin h.2), List.getD_append_right _ _ _ _ (by omega)]
      simp only [List.getD_eq_getElem?_getD, List.getElem?_drop]
      congr 2
      omega

-- ---------------------------------------------------------------------------
-- The calls
-- ---------------------------------------------------------------------------

/-- Why the emulator stops. -/
inductive Stop
  /-- "App NVRAM write attempt out of boundaries" -/
  | outOfBoundaries
  /-- The application crashed with a signal. -/
  | crashed
  deriving DecidableEq, Repr

/-- What `src_addr` and `src_len` are: bytes that do not overlap what they are written
to, or no source and a length. -/
inductive Source
  | bytes (bs : Bytes)
  | null (len : Nat)
  deriving DecidableEq, Repr

def Source.content : Source → Bytes
  | .bytes bs => bs
  | .null len => List.replicate len 0

def Source.len (src : Source) : Nat := src.content.length

def App.outOfBoundaries (app : App) (dst : UInt32) (len : Nat) : Prop :=
  dst < app.nvramStart ∨ dst + UInt32.ofNat len ≥ app.nvramStart + app.elf.appNvramSize

instance (app : App) (dst : UInt32) (len : Nat) : Decidable (app.outOfBoundaries dst len) :=
  inferInstanceAs (Decidable (_ ∨ _))

def Running.openFile (s : Running) : Bytes := (s.files s.currentApp.nvramFileName).getD []

def Running.setFile (s : Running) (content : Bytes) : Running :=
  { s with files := s.files.set s.currentApp.nvramFileName (some content) }

/-- The write to the file, which is created if it is absent. -/
def saveToFile (off : Nat) (src : Source) : EStateM Stop Running Unit := do
  modify fun s => s.setFile s.openFile
  match src with
  | .bytes bs => modify fun s => s.setFile (writeAt s.openFile off bs)
  | .null len => if len > 0 then throw .crashed

def sysNvmWrite (dst : UInt32) (src : Source) : EStateM Stop Running Unit := do
  let app := (← get).currentApp
  if app.elf.appNvramAddr ≠ 0 ∧ app.outOfBoundaries dst src.len then throw .outOfBoundaries
  else
    modify fun s => { s with memory := s.memory.memcpy dst src.content }
    if app.elf.appNvramAddr ≠ 0 ∧ app.saveNvram then
      saveToFile (dst - app.nvramStart).toNat src

def sysNvmErase (dst : UInt32) (len : Nat) : EStateM Stop Running Unit :=
  sysNvmWrite dst (.null len)

-- ---------------------------------------------------------------------------
-- Calls
-- ---------------------------------------------------------------------------

/-- A call that writes to the NVRAM. -/
inductive NvmCall
  | write (dst : UInt32) (src : Source)
  | erase (dst : UInt32) (len : Nat)
  deriving DecidableEq, Repr

namespace NvmCall

def dst : NvmCall → UInt32
  | .write dst _ => dst
  | .erase dst _ => dst

def src : NvmCall → Source
  | .write _ src => src
  | .erase _ len => .null len

def content (c : NvmCall) : Bytes := c.src.content

def run : NvmCall → EStateM Stop Running Unit
  | .write dst src => sysNvmWrite dst src
  | .erase dst len => sysNvmErase dst len

def offset (c : NvmCall) (app : App) : Nat := (c.dst - app.nvramStart).toNat

/-- The call writes inside the NVRAM that the application declares. -/
def InBounds (c : NvmCall) (app : App) : Prop :=
  app.elf.appNvramAddr ≠ 0 ∧ c.offset app + c.content.length ≤ app.nvramSize

theorem run_eq (c : NvmCall) : c.run = sysNvmWrite c.dst c.src := by
  cases c <;> rfl

end NvmCall

section

variable {c : NvmCall} {s s' : Running}

theorem NvmCall.memcpy_at (c : NvmCall) (app : App) (m : AddressSpace) (h : c.InBounds app)
    (hj : j < 2 ^ 32) :
    m.memcpy c.dst c.content (app.nvramStart + UInt32.ofNat j) =
      if c.offset app ≤ j ∧ j < c.offset app + c.content.length
        then c.content.getD (j - c.offset app) 0
      else m (app.nvramStart + UInt32.ofNat j) := by
  have hsize := app.nvramSize_lt
  have hin : c.offset app + c.content.length ≤ 2 ^ 32 := Nat.le_trans h.2 (Nat.le_of_lt hsize)
  have hat := m.memcpy_at app.nvramStart c.content hin hj
  rwa [NvmCall.offset, AddressSpace.add_ofNat_sub] at hat

def Source.saved : Source → Bytes
  | .bytes bs => bs
  | .null _ => []

/-- Bytes are read through a null pointer. -/
def Source.crashes : Source → Bool
  | .bytes _ => false
  | .null len => len > 0

def Running.written (s : Running) (c : NvmCall) : Running :=
  { s with memory := s.memory.memcpy c.dst c.content }

theorem setFile_setFile (s : Running) (content content' : Bytes) :
    (s.setFile content).setFile content' = s.setFile content' := by
  simp only [Running.setFile, Files.set_set]

theorem openFile_setFile (s : Running) (content : Bytes) :
    (s.setFile content).openFile = content := by
  simp [Running.setFile, Running.openFile]

theorem saveToFile_eq (off : Nat) (src : Source) (s : Running) :
    saveToFile off src s =
      let s' := s.setFile (writeAt s.openFile off src.saved)
      if src.crashes then .error .crashed s' else .ok () s' := by
  cases src with
  | bytes bs =>
    rw [saveToFile, bind_of_ok (modify_apply ..)]
    show EStateM.Result.ok () (((s.setFile s.openFile).setFile _)) = .ok () _
    rw [openFile_setFile, setFile_setFile]
    rfl
  | null len =>
    have hnothing : writeAt s.openFile off (Source.null len).saved = s.openFile := if_pos rfl
    rw [saveToFile, bind_of_ok (modify_apply ..), hnothing]
    by_cases hlen : len > 0 <;> simp [Source.crashes, hlen]

theorem NvmCall.run_outOfBoundaries (hdeclared : s.currentApp.elf.appNvramAddr ≠ 0)
    (hout : s.currentApp.outOfBoundaries c.dst c.src.len) :
    c.run s = .error .outOfBoundaries s := by
  rw [run_eq, sysNvmWrite, bind_of_ok (get_apply s), if_pos ⟨hdeclared, hout⟩]
  rfl

theorem NvmCall.run_unsaved
    (hin : ¬ (s.currentApp.elf.appNvramAddr ≠ 0 ∧ s.currentApp.outOfBoundaries c.dst c.src.len))
    (hsave : ¬ (s.currentApp.elf.appNvramAddr ≠ 0 ∧ s.currentApp.saveNvram = true)) :
    c.run s = .ok () (s.written c) := by
  rw [run_eq, sysNvmWrite, bind_of_ok (get_apply s), if_neg hin, bind_of_ok (modify_apply ..),
    if_neg hsave]
  rfl

theorem NvmCall.run_saved
    (hin : ¬ (s.currentApp.elf.appNvramAddr ≠ 0 ∧ s.currentApp.outOfBoundaries c.dst c.src.len))
    (hsave : s.currentApp.elf.appNvramAddr ≠ 0 ∧ s.currentApp.saveNvram = true) :
    c.run s =
      let s' := (s.written c).setFile (writeAt s.openFile (c.offset s.currentApp) c.src.saved)
      if c.src.crashes then .error .crashed s' else .ok () s' := by
  rw [run_eq, sysNvmWrite, bind_of_ok (get_apply s), if_neg hin, bind_of_ok (modify_apply ..),
    if_pos hsave]
  exact saveToFile_eq (c.offset s.currentApp) c.src (s.written c)

theorem NvmCall.run_ok (h : c.run s = .ok () s') :
    s'.memory = s.memory.memcpy c.dst c.content ∧ s'.currentApp = s.currentApp := by
  by_cases hin : s.currentApp.elf.appNvramAddr ≠ 0 ∧ s.currentApp.outOfBoundaries c.dst c.src.len
  · rw [run_outOfBoundaries hin.1 hin.2] at h
    cases h
  by_cases hsave : s.currentApp.elf.appNvramAddr ≠ 0 ∧ s.currentApp.saveNvram = true
  · rw [run_saved hin hsave] at h
    by_cases hcrashes : c.src.crashes = true
    · simp only [hcrashes, if_true] at h
      cases h
    · simp only [hcrashes] at h
      cases h
      exact ⟨rfl, rfl⟩
  · rw [run_unsaved hin hsave] at h
    cases h
    exact ⟨rfl, rfl⟩

end

end Speculos.Launcher
