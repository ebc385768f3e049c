import Speculos.Launcher.NvmWrite
import Speculos.Lib.Lts

/-!
# The NVRAM over runs of the emulator

The file and the NVRAM hold the same from the load on, as long as every call has a
source: an erasure changes the memory, and stops before the file is written. The file
is only there if something was loaded or written, and a file that is longer than the
NVRAM is loaded beyond its end.
-/

namespace Speculos.Launcher

open Lib

-- ---------------------------------------------------------------------------
-- Two runs
-- ---------------------------------------------------------------------------

/-- The calls of a run, which ends where the emulator stops. -/
def runCalls : List NvmCall → EStateM Stop Running Unit
  | [] => pure ()
  | c :: calls => do
    c.run
    runCalls calls

def callStep (s : Running) (c : NvmCall) : Option Running :=
  match c.run s with
  | .ok _ s' => some s'
  | .error _ _ => none

/-- The same application, started with `load_nvram`. -/
def App.withLoad (app : App) : App := { app with loadNvram := true }

def Setup.withLoad (setup : Setup) : Setup :=
  { setup with apps := setup.apps.map App.withLoad }

/-- A second run on the files that the first one leaves has the NVRAM that the first one
leaves. -/
def Persists (setup : Setup) (name : Bytes) (host : Host) (s : Running) : Prop :=
  ∃ r, loadApp setup.withLoad name { host with files := s.files } = some r ∧
    ∀ j < s.currentApp.nvramSize, r.memory (s.currentApp.nvramStart + UInt32.ofNat j) =
      s.memory (s.currentApp.nvramStart + UInt32.ofNat j)

/-- All bytes that the NVRAM data update writes are in the NVRAM that is declared. -/
def WritesInside (app : App) (preload : Bytes) : Prop :=
  ∀ w ∈ app.nvramWrites preload, ∀ i < w.src.length,
    (w.dst + UInt32.ofNat i - app.nvramStart).toNat < app.nvramSize

/-- There is a file: a content was preloaded that is not empty, or the first call is one
that is not refused. -/
def FileLeft (app : App) (preload : Bytes) (calls : List NvmCall) : Prop :=
  preload ≠ [] ∨ ∃ c ∈ calls.head?, ¬ app.outOfBoundaries c.dst c.src.len

/-- A call without a source only erases zeros, unless it is refused. -/
def ErasesZeros (s : Running) (c : NvmCall) : Prop :=
  ¬ s.currentApp.outOfBoundaries c.dst c.src.len → c.src.crashes = true →
    ∀ j, c.offset s.currentApp ≤ j → j < c.offset s.currentApp + c.content.length →
      s.memory (s.currentApp.nvramStart + UInt32.ofNat j) = 0

/-- What a call saves ends below 2 GiB, so that the file has a size, unless it is refused. -/
def EndsBelow (s : Running) (c : NvmCall) : Prop :=
  ¬ s.currentApp.outOfBoundaries c.dst c.src.len → c.src.saved ≠ [] →
    c.offset s.currentApp + c.src.saved.length < 2 ^ 31

/-- What is in the file after the call is what the NVRAM holds. -/
def Kept (s : Running) (c : NvmCall) : Prop := ErasesZeros s c ∧ EndsBelow s c

-- ---------------------------------------------------------------------------
-- One call
-- ---------------------------------------------------------------------------

/-- The application declares an NVRAM and saves it. -/
structure Saves (app : App) : Prop where
  declared : app.elf.appNvramAddr ≠ 0
  save : app.saveNvram = true

/-- The file and the NVRAM hold the same. -/
def Matches (s : Running) : Prop :=
  ∀ j < s.currentApp.nvramSize,
    s.memory (s.currentApp.nvramStart + UInt32.ofNat j) = s.openFile.getD j 0

/-- The state behind a call that is not refused. -/
def Running.saved (s : Running) (c : NvmCall) : Running :=
  (s.written c).setFile (writeAt s.openFile (c.offset s.currentApp) c.src.saved)

variable {s : Running} {c : NvmCall} {calls : List NvmCall}

theorem length_writeAt (content : Bytes) (off : Nat) (bs : Bytes) :
    (writeAt content off bs).length =
      if bs = [] then content.length else max content.length (off + bs.length) := by
  rw [writeAt]
  split
  · rfl
  · simp only [List.length_append, List.length_take, List.length_replicate, List.length_drop]
    omega

theorem openFile_saved (s : Running) (c : NvmCall) :
    (s.saved c).openFile = writeAt s.openFile (c.offset s.currentApp) c.src.saved :=
  openFile_setFile (s.written c) _

theorem content_of_crashes (h : c.src.crashes = true) :
    c.src.saved = [] ∧ ∀ i, c.content.getD i 0 = 0 := by
  rw [NvmCall.content]
  cases hsrc : c.src with
  | bytes bs =>
    rw [hsrc] at h
    cases h
  | null len =>
    refine ⟨rfl, fun i => ?_⟩
    rw [Source.content, List.getD_eq_getElem?_getD, List.getElem?_replicate]
    split <;> rfl

theorem content_of_returns (h : c.src.crashes = false) : c.content = c.src.saved := by
  rw [NvmCall.content]
  cases hsrc : c.src with
  | bytes bs => rfl
  | null len =>
    rw [hsrc, Source.crashes, decide_eq_false_iff_not] at h
    obtain rfl : len = 0 := by omega
    rfl

/-- A call keeps the file and the NVRAM the same exactly if it erases zeros only. -/
theorem matches_saved_iff (hmatch : Matches s) (hin : c.InBounds s.currentApp)
    (hout : ¬ s.currentApp.outOfBoundaries c.dst c.src.len) :
    Matches (s.saved c) ↔ ErasesZeros s c := by
  have hat (j : Nat) (hj : j < s.currentApp.nvramSize) :
      (s.saved c).memory ((s.saved c).currentApp.nvramStart + UInt32.ofNat j) =
        if c.offset s.currentApp ≤ j ∧ j < c.offset s.currentApp + c.content.length then
          c.content.getD (j - c.offset s.currentApp) 0
        else s.memory (s.currentApp.nvramStart + UInt32.ofNat j) :=
    c.memcpy_at s.currentApp s.memory hin (Nat.lt_trans hj s.currentApp.nvramSize_lt)
  cases hcrashes : c.src.crashes with
  | true =>
    obtain ⟨hsaved, hzeros⟩ := content_of_crashes hcrashes
    have hfile : (s.saved c).openFile = s.openFile := by
      rw [openFile_saved, hsaved]
      exact if_pos rfl
    constructor
    · intro hsame _ _ j hle hlt
      have hj : j < s.currentApp.nvramSize := Nat.lt_of_lt_of_le hlt hin.2
      have hbyte := hsame j hj
      rw [hat j hj, if_pos ⟨hle, hlt⟩, hzeros, hfile] at hbyte
      rw [hmatch j hj, ← hbyte]
    · intro herases j hj
      rw [hat j hj, hfile]
      by_cases hwritten : c.offset s.currentApp ≤ j ∧ j < c.offset s.currentApp + c.content.length
      · rw [if_pos hwritten, hzeros, ← hmatch j hj,
          herases hout hcrashes j hwritten.1 hwritten.2]
      · rw [if_neg hwritten, hmatch j hj]
  | false =>
    refine iff_of_true (fun j hj => ?_) (fun _ h => absurd h (by rw [hcrashes]; decide))
    rw [hat j hj, openFile_saved, getD_writeAt, content_of_returns hcrashes, hmatch j hj]

theorem length_saved_iff (hout : ¬ s.currentApp.outOfBoundaries c.dst c.src.len) :
    (s.saved c).openFile.length < 2 ^ 31 ↔ s.openFile.length < 2 ^ 31 ∧ EndsBelow s c := by
  rw [openFile_saved, length_writeAt, EndsBelow]
  by_cases hsaved : c.src.saved = []
  · simp [hsaved]
  · simp only [hsaved, if_false, hout, not_false_eq_true, ne_eq, forall_const]
    omega

theorem run_cases (happ : Saves s.currentApp) (c : NvmCall) :
    (s.currentApp.outOfBoundaries c.dst c.src.len ∧ c.run s = .error .outOfBoundaries s) ∨
    (¬ s.currentApp.outOfBoundaries c.dst c.src.len ∧
      (c.src.crashes = true ∧ c.run s = .error .crashed (s.saved c) ∨
        c.src.crashes = false ∧ c.run s = .ok () (s.saved c))) := by
  by_cases hout : s.currentApp.outOfBoundaries c.dst c.src.len
  · exact .inl ⟨hout, NvmCall.run_outOfBoundaries happ.declared hout⟩
  · refine .inr ⟨hout, ?_⟩
    have hrun := NvmCall.run_saved (c := c) (fun h => hout h.2) ⟨happ.declared, happ.save⟩
    cases hcrashes : c.src.crashes with
    | true => exact .inl ⟨rfl, by rw [hrun, if_pos hcrashes]; rfl⟩
    | false => exact .inr ⟨rfl, by rw [hrun, hcrashes]; rfl⟩

-- ---------------------------------------------------------------------------
-- A run
-- ---------------------------------------------------------------------------

theorem runCalls_cons_ok (h : c.run s = .ok () s') :
    after (runCalls (c :: calls) s) = after (runCalls calls s') := by
  rw [runCalls, bind_of_ok h]

theorem runCalls_cons_error (h : c.run s = .error e s') :
    after (runCalls (c :: calls) s) = s' := by
  rw [runCalls, bind_of_error h]
  rfl

theorem callStep_ok (h : c.run s = .ok () s') : callStep s c = some s' := by
  rw [callStep, h]

theorem callStep_error (h : c.run s = .error e s') : callStep s c = none := by
  rw [callStep, h]

/-- A file does not become shorter. -/
theorem length_le_after_runCalls (happ : Saves s.currentApp) (calls : List NvmCall) :
    s.openFile.length ≤ (after (runCalls calls s)).openFile.length := by
  have hsaved (s : Running) (c : NvmCall) : s.openFile.length ≤ (s.saved c).openFile.length := by
    rw [openFile_saved, length_writeAt]
    split <;> omega
  induction calls generalizing s with
  | nil => exact Nat.le_refl _
  | cons c calls ih =>
    rcases run_cases happ c with ⟨-, hrun⟩ | ⟨-, ⟨-, hrun⟩ | ⟨-, hrun⟩⟩
    · rw [runCalls_cons_error hrun]
    · rw [runCalls_cons_error hrun]
      exact hsaved s c
    · rw [runCalls_cons_ok hrun]
      exact Nat.le_trans (hsaved s c) (ih happ)

/-- The file has a size, and holds the same as the NVRAM. -/
structure Loadable (s : Running) : Prop where
  same : Matches s
  size : s.openFile.length < 2 ^ 31

theorem loadable_saved_iff (h : Loadable s) (hin : c.InBounds s.currentApp)
    (hout : ¬ s.currentApp.outOfBoundaries c.dst c.src.len) :
    Loadable (s.saved c) ↔ Kept s c := by
  constructor
  · exact fun h' => ⟨(matches_saved_iff h.same hin hout).mp h'.same,
      ((length_saved_iff hout).mp h'.size).2⟩
  · exact fun hkept => ⟨(matches_saved_iff h.same hin hout).mpr hkept.1,
      (length_saved_iff hout).mpr ⟨h.size, hkept.2⟩⟩

theorem loadable_after_iff (happ : Saves s.currentApp) (h : Loadable s)
    (hbounds : ∀ c ∈ calls, c.InBounds s.currentApp) :
    Loadable (after (runCalls calls s)) ↔ Guarded callStep Kept s calls := by
  induction calls generalizing s with
  | nil => exact iff_of_true h trivial
  | cons c calls ih =>
    have hin := hbounds c List.mem_cons_self
    rcases run_cases happ c with ⟨hout, hrun⟩ | ⟨hout, ⟨-, hrun⟩ | ⟨hreturns, hrun⟩⟩
    · rw [runCalls_cons_error hrun, Guarded, callStep_error hrun]
      exact iff_of_true h ⟨⟨absurd hout, absurd hout⟩,
        fun s' h => absurd h (Option.some_ne_none s').symm⟩
    · rw [runCalls_cons_error hrun, Guarded, callStep_error hrun, loadable_saved_iff h hin hout]
      exact ⟨fun hkept => ⟨hkept, fun s' h => absurd h (Option.some_ne_none s').symm⟩,
        fun hguarded => hguarded.1⟩
    · rw [runCalls_cons_ok hrun, Guarded, callStep_ok hrun]
      have hbounds' (c' : NvmCall) (hc' : c' ∈ calls) : c'.InBounds (s.saved c).currentApp :=
        hbounds c' (List.mem_cons_of_mem c hc')
      by_cases hkept : Kept s c
      · have hsaved := (loadable_saved_iff h hin hout).mpr hkept
        rw [ih (s := s.saved c) happ hsaved hbounds']
        exact ⟨fun hrest => ⟨hkept, fun s' hs' => by cases hs'; exact hrest⟩,
          fun hguarded => hguarded.2 _ rfl⟩
      · refine iff_of_false (fun hend => hkept ?_) (fun hguarded => hkept hguarded.1)
        -- the call has a source, so that the file has become too long
        have hle := length_le_after_runCalls (s := s.saved c) happ calls
        have hsize := Nat.lt_of_le_of_lt hle hend.size
        refine ⟨fun _ hcrashes => ?_, ((length_saved_iff hout).mp hsize).2⟩
        rw [hreturns] at hcrashes
        cases hcrashes

theorem isSome_file_saved (s : Running) (c : NvmCall) :
    ((s.saved c).files s.currentApp.nvramFileName).isSome := by
  show ((s.files.set s.currentApp.nvramFileName _) s.currentApp.nvramFileName).isSome
  rw [Files.set_self]
  rfl

theorem isSome_file_after (happ : Saves s.currentApp)
    (h : (s.files s.currentApp.nvramFileName).isSome) (calls : List NvmCall) :
    ((after (runCalls calls s)).files s.currentApp.nvramFileName).isSome := by
  induction calls generalizing s with
  | nil => exact h
  | cons c calls ih =>
    rcases run_cases happ c with ⟨-, hrun⟩ | ⟨-, ⟨-, hrun⟩ | ⟨-, hrun⟩⟩
    · rwa [runCalls_cons_error hrun]
    · rw [runCalls_cons_error hrun]
      exact isSome_file_saved s c
    · rw [runCalls_cons_ok hrun]
      exact ih (s := s.saved c) happ (isSome_file_saved s c)

theorem isSome_file_after_iff (happ : Saves s.currentApp) (calls : List NvmCall) :
    ((after (runCalls calls s)).files s.currentApp.nvramFileName).isSome ↔
      (s.files s.currentApp.nvramFileName).isSome ∨
        ∃ c ∈ calls.head?, ¬ s.currentApp.outOfBoundaries c.dst c.src.len := by
  cases calls with
  | nil => simp [runCalls]
  | cons c calls =>
    have hhead : (∃ c' ∈ (c :: calls).head?, ¬ s.currentApp.outOfBoundaries c'.dst c'.src.len) ↔
        ¬ s.currentApp.outOfBoundaries c.dst c.src.len := by simp
    rw [hhead]
    rcases run_cases happ c with ⟨hout, hrun⟩ | ⟨hout, ⟨-, hrun⟩ | ⟨-, hrun⟩⟩
    · rw [runCalls_cons_error hrun, or_iff_left (not_not.mpr hout)]
    · rw [runCalls_cons_error hrun]
      exact iff_of_true (isSome_file_saved s c) (.inr hout)
    · rw [runCalls_cons_ok hrun]
      exact iff_of_true (isSome_file_after (s := s.saved c) happ (isSome_file_saved s c) calls)
        (.inr hout)

theorem currentApp_after (happ : Saves s.currentApp) (calls : List NvmCall) :
    (after (runCalls calls s)).currentApp = s.currentApp := by
  induction calls generalizing s with
  | nil => rfl
  | cons c calls ih =>
    rcases run_cases happ c with ⟨-, hrun⟩ | ⟨-, ⟨-, hrun⟩ | ⟨-, hrun⟩⟩
    · rw [runCalls_cons_error hrun]
    · rw [runCalls_cons_error hrun]
      rfl
    · rw [runCalls_cons_ok hrun]
      exact ih (s := s.saved c) happ

-- ---------------------------------------------------------------------------
-- The second run
-- ---------------------------------------------------------------------------

variable {setup : Setup} {name : Bytes} {host : Host} {running : Running} {preload : Bytes}

theorem searchAppByName_withLoad (setup : Setup) (name : Bytes) :
    setup.withLoad.searchAppByName name =
      (setup.searchAppByName name).map App.withLoad := by
  rw [Setup.searchAppByName, Setup.withLoad, List.find?_map]
  rfl

theorem loadApp_withLoad_iff (hload : loadApp setup name host = some running)
    (hdeclared : running.currentApp.elf.appNvramAddr ≠ 0) (files : Files) (m : Nat → UInt8) :
    (∃ r, loadApp setup.withLoad name { host with files } = some r ∧
      ∀ j < running.currentApp.nvramSize,
        r.memory (running.currentApp.nvramStart + UInt32.ofNat j) = m j) ↔
      ∃ content, files running.currentApp.nvramFileName = some content ∧ content.length < 2 ^ 31 ∧
        ∀ j < running.currentApp.nvramSize, content.getD j 0 = m j := by
  obtain ⟨app, patched, memory, files', happ, hsize, hpatched, -, rfl⟩ := loadApp_iff.mp hload
  have happ' : setup.withLoad.searchAppByName name = some app.withLoad := by
    rw [searchAppByName_withLoad, happ]
    rfl
  have hpreload (content : Bytes) : app.withLoad.preload files = some content ↔
      files app.nvramFileName = some content ∧ content.length < 2 ^ 31 := by
    show (files app.nvramFileName).filter _ = _ ↔ _
    rw [Option.filter_eq_some_iff, decide_eq_true_iff]
  have hdeclared' : app.withLoad.elf.appNvramAddr ≠ 0 := hdeclared
  constructor
  · rintro ⟨r, hr, hm⟩
    obtain ⟨hfound, memory', hnvram⟩ := loadApp_cases hr
    have hsame := Option.some.inj (happ'.symm.trans hfound)
    rw [← hsame] at hnvram
    obtain ⟨content, hcontent, -, hat⟩ := App.updateNvram_cases hdeclared' hnvram
    obtain ⟨hfile, hlen⟩ := (hpreload content).mp hcontent
    exact ⟨content, hfile, hlen, fun j hj => (hat j hj).symm.trans (hm j hj)⟩
  · rintro ⟨content, hfile, hlen, hm⟩
    have hnvram : app.withLoad.updateNvram patched.memory files = some _ :=
      (if_pos hdeclared').trans (Option.map_eq_some_iff.mpr
        ⟨content, (hpreload content).mpr ⟨hfile, hlen⟩, rfl⟩)
    refine ⟨_, loadApp_iff.mpr ⟨_, patched, _, _, happ', hsize, hpatched, hnvram, rfl⟩, ?_⟩
    intro j hj
    obtain ⟨content', hcontent', -, hat⟩ := App.updateNvram_cases hdeclared' hnvram
    cases ((hpreload content).mpr ⟨hfile, hlen⟩).symm.trans hcontent'
    exact (hat j hj).trans (hm j hj)

theorem loadable_of_loadApp (hload : loadApp setup name host = some running)
    (happ : Saves running.currentApp)
    (hpreload : running.currentApp.preload host.files = some preload) :
    Loadable running ∧
      ((running.files running.currentApp.nvramFileName).isSome ↔ preload ≠ []) := by
  obtain ⟨-, memory, hnvram⟩ := loadApp_cases hload
  obtain ⟨preload', hpreload', hfiles, hat⟩ := App.updateNvram_cases happ.declared hnvram
  cases hpreload.symm.trans hpreload'
  have hrename : host.files.rename running.currentApp.nvramFileName
      (running.currentApp.nvramFileName ++ storageBackup) running.currentApp.nvramFileName =
        none := by
    rw [Files.rename]
    cases hold : host.files running.currentApp.nvramFileName with
    | none => exact hold
    | some content => exact Files.set_self ..
  have hfile : running.files running.currentApp.nvramFileName =
      if preload = [] then none else some preload := by
    rw [hfiles, App.saveInitial, if_pos happ.save]
    by_cases hnil : preload = []
    · simpa [hnil] using hrename
    · simp [hnil, List.length_pos_iff.mpr hnil]
  have hopen : running.openFile = preload := by
    rw [Running.openFile, hfile]
    split
    · rename_i hnil
      exact hnil.symm
    · rfl
  refine ⟨⟨fun j hj => ?_, ?_⟩, ?_⟩
  · rw [hopen]
    exact hat j hj
  · rw [hopen]
    exact App.length_preload_lt hpreload
  · rw [hfile]
    split <;> simp_all

-- ---------------------------------------------------------------------------
-- The claims on the NVRAM
-- ---------------------------------------------------------------------------

theorem writesInside_iff (app : App) (hpreload : app.preload files = some preload) :
    WritesInside app preload ↔ preload.length ≤ app.nvramSize := by
  have hlen := App.length_preload_lt hpreload
  have hsize := app.nvramSize_lt
  constructor
  · intro h
    by_contra hlong
    have hin := h ⟨app.nvramStart, preload⟩ (by simp [App.nvramWrites]) app.nvramSize
      (Nat.lt_of_not_le hlong)
    rw [AddressSpace.toNat_sub_start _ hsize] at hin
    exact Nat.lt_irrefl _ hin
  · intro hle w hw i hi
    have hshape : w.dst = app.nvramStart ∧ w.src.length ≤ app.nvramSize := by
      simp only [App.nvramWrites, List.mem_cons, List.not_mem_nil, or_false] at hw
      rcases hw with rfl | rfl
      · exact ⟨rfl, by simp⟩
      · exact ⟨rfl, hle⟩
    rw [hshape.1, AddressSpace.toNat_sub_start _ (by omega)]
    omega

/-- A second run finds the NVRAM of the first exactly if there is a file and every call of the
first run is kept, and the NVRAM is loaded in its bounds exactly if the file is not longer. -/
theorem nvram_persists_iff (hload : loadApp setup name host = some running)
    (happ : Saves running.currentApp)
    (hpreload : running.currentApp.preload host.files = some preload)
    (hbounds : ∀ c ∈ calls, c.InBounds running.currentApp) :
    (Persists setup name host (after (runCalls calls running)) ↔
      FileLeft running.currentApp preload calls ∧ Guarded callStep Kept running calls) ∧
    (WritesInside running.currentApp preload ↔
      preload.length ≤ running.currentApp.nvramSize) := by
  refine ⟨?_, writesInside_iff _ hpreload⟩
  obtain ⟨hloadable, hsome⟩ := loadable_of_loadApp hload happ hpreload
  have hleft : FileLeft running.currentApp preload calls ↔
      ((after (runCalls calls running)).files running.currentApp.nvramFileName).isSome := by
    rw [isSome_file_after_iff happ, hsome]
    rfl
  have hcurrent := currentApp_after happ calls
  rw [Persists, hcurrent, loadApp_withLoad_iff hload happ.declared, hleft,
    ← loadable_after_iff happ hloadable hbounds]
  constructor
  · rintro ⟨content, hfile, hlen, hsame⟩
    have hopen : (after (runCalls calls running)).openFile = content := by
      rw [Running.openFile, hcurrent, hfile]
      rfl
    refine ⟨by rw [hfile]; rfl, fun j hj => ?_, by rwa [hopen]⟩
    rw [hcurrent] at hj ⊢
    rw [hopen, hsame j hj]
  · rintro ⟨hfile, hend⟩
    obtain ⟨content, hcontent⟩ := Option.isSome_iff_exists.mp hfile
    have hopen : (after (runCalls calls running)).openFile = content := by
      rw [Running.openFile, hcurrent, hcontent]
      rfl
    refine ⟨content, hcontent, by rw [← hopen]; exact hend.size, fun j hj => ?_⟩
    have hj' := hend.same j (by rwa [hcurrent])
    rw [hopen, hcurrent] at hj'
    exact hj'.symm

-- ---------------------------------------------------------------------------
-- An erasure
-- ---------------------------------------------------------------------------

/-- An application with an svc instruction and an NVRAM of 16 bytes behind it, that is saved. -/
def savedApp : App where
  name := [0x6d]
  nvramFileName := [0x6d]
  loadNvram := false
  saveNvram := true
  file := [0x01, 0xdf, 0, 0, 0, 0, 0, 0, 0, 0, 0, 0, 0, 0, 0, 0, 0, 0]
  elf := {
    loadOffset := 0
    loadSize := 18
    stackAddr := 0x20000000
    stackSize := 0x1000
    svcCallAddr := 0
    svcCxCallAddr := 0
    textLoadAddr := 0xc0de0000
    fontsAddr := 0
    fontsSize := 0
    appNvramAddr := 0xc0de0002
    appNvramSize := 16
    useNbgl := 0 }

def savedSetup : Setup := ⟨22, [savedApp]⟩

def savedHost : Host := ⟨fun _ => 0, [], false, fun _ => none⟩

def savedRunning : Running := (loadApp savedSetup [0x6d] savedHost).get (by decide +kernel)

theorem loadApp_saved : loadApp savedSetup [0x6d] savedHost = some savedRunning :=
  (Option.some_get _).symm

theorem currentApp_saved : savedRunning.currentApp = savedApp :=
  (Option.some.inj (loadApp_cases loadApp_saved).1).symm

theorem saves_saved : Saves savedRunning.currentApp := currentApp_saved ▸ ⟨by decide, rfl⟩

def savedWrites : List NvmCall := [.write 0x40000004 (.bytes [0x42, 0x43])]

theorem persists_write :
    ∃ running, loadApp savedSetup [0x6d] savedHost = some running ∧
      Persists savedSetup [0x6d] savedHost (after (runCalls savedWrites running)) := by
  have hpreload : savedRunning.currentApp.preload savedHost.files = some [] := by
    rw [currentApp_saved]
    rfl
  have hbounds : ∀ c ∈ savedWrites, c.InBounds savedRunning.currentApp := by
    intro c hc
    rw [List.mem_singleton.mp hc, currentApp_saved]
    exact ⟨by decide, by decide⟩
  refine ⟨savedRunning, loadApp_saved,
    (nvram_persists_iff loadApp_saved saves_saved hpreload hbounds).1.mpr ⟨.inr ⟨_, rfl, ?_⟩, ?_, ?_⟩⟩
  · rw [currentApp_saved]
    decide
  · exact ⟨fun _ h => absurd h (by decide), fun _ _ => by decide +kernel⟩
  · exact fun _ _ => trivial

/-- The first of the two bytes is erased. -/
theorem not_persists_erasure :
    ∃ running, loadApp savedSetup [0x6d] savedHost = some running ∧
      (∀ c ∈ savedWrites ++ [.erase 0x40000004 1], c.InBounds running.currentApp) ∧
      ¬ Persists savedSetup [0x6d] savedHost
        (after (runCalls (savedWrites ++ [.erase 0x40000004 1]) running)) := by
  refine ⟨savedRunning, loadApp_saved, ?_, ?_⟩
  · intro c hc
    rw [currentApp_saved]
    rcases List.mem_append.mp hc with hc | hc <;> cases List.mem_singleton.mp hc <;>
      exact ⟨by decide, by decide⟩
  · rintro ⟨r, hr, hsame⟩
    have hfile : (loadApp savedSetup.withLoad [0x6d] { savedHost with
        files := (after (runCalls (savedWrites ++ [.erase 0x40000004 1]) savedRunning)).files }).all
          fun r => r.memory 0x40000004 = 0x42 := by
      decide +kernel
    have herased : (after (runCalls (savedWrites ++ [.erase 0x40000004 1]) savedRunning)).memory
        0x40000004 = 0 := by
      decide +kernel
    rw [hr, Option.all_some] at hfile
    have hcurrent : (after (runCalls (savedWrites ++ [.erase 0x40000004 1]) savedRunning)).currentApp =
        savedApp := (currentApp_after saves_saved _).trans currentApp_saved
    have hbyte := hsame 2 (hcurrent ▸ by decide)
    rw [hcurrent] at hbyte
    exact absurd ((of_decide_eq_true hfile).symm.trans (hbyte.trans herased)) (by decide)

end Speculos.Launcher
