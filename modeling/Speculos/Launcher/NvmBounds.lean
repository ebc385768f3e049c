import Speculos.Launcher.NvramFile

/-!
# The boundaries of a write

`sys_nvm_write` asks the host for access to the pages of a write before it copies, and
takes the access back behind. What the host answers is a parameter. The end of a write
and the size of its pages are sums of 32 bits, which may wrap around: a write that wraps
around is refused by the host, unless the size wraps around as well.
-/

namespace Speculos.Launcher

open Lib

-- ---------------------------------------------------------------------------
-- The call on a host
-- ---------------------------------------------------------------------------

/-- The access to pages that is asked for. -/
inductive Prot
  /-- `PROT_WRITE` -/
  | write
  /-- `PROT_READ | PROT_EXEC` -/
  | readExec
  deriving DecidableEq, Repr

/-- Whether the host changes the access of the pages of `size` bytes. -/
abbrev Mprotect := UInt32 → UInt32 → Prot → Bool

/-- How a call ends: a crash leaves no state to speak of. -/
inductive Outcome
  | returned (s : Running)
  /-- Through `err` or `errx`. -/
  | exited (s : Running)
  | crashed

def pageOf (dst : UInt32) : UInt32 := dst &&& ~~~(pageSize - 1)

/-- `size`, which `mprotect` is called with. -/
def sizeFrom (dst : UInt32) (len : Nat) : UInt32 := UInt32.ofNat len + (dst - pageOf dst)

/-- `sys_nvm_write` -/
def sysNvmWriteOn (mprotect : Mprotect) (dst : UInt32) (src : Source) (s : Running) : Outcome :=
  let app := s.currentApp
  if app.elf.appNvramAddr ≠ 0 ∧ app.outOfBoundaries dst src.len then .exited s
  else if mprotect (pageOf dst) (sizeFrom dst src.len) .write = false then .exited s
  -- the copy meets the end of the address space
  else if 2 ^ 32 ≤ dst.toNat + src.len then .crashed
  else
    let s := { s with memory := s.memory.memcpy dst src.content }
    if mprotect (pageOf dst) (sizeFrom dst src.len) .readExec = false then .exited s
    else if app.elf.appNvramAddr ≠ 0 ∧ app.saveNvram then
      match saveToFile (dst - app.nvramStart).toNat src s with
      | .ok _ s => .returned s
      | .error _ _ => .crashed
    else .returned s

-- ---------------------------------------------------------------------------
-- What is asked of it
-- ---------------------------------------------------------------------------

/-- Every byte that is written lies in the declared NVRAM. -/
def App.Inside (app : App) (dst : UInt32) (len : Nat) : Prop :=
  ∀ i < len, app.nvramStart.toNat ≤ dst.toNat + i ∧
    dst.toNat + i < app.nvramStart.toNat + app.nvramSize

/-- The state behind a write: the file is written where it is saved. -/
def Running.performed (s : Running) (dst : UInt32) (src : Source) : Running :=
  if s.currentApp.saveNvram then s.saved (.write dst src) else s.written (.write dst src)

/-- A write is performed exactly inside the NVRAM, and else the emulator stops with
nothing changed. -/
def ExactlyInside (mprotect : Mprotect) (s : Running) (dst : UInt32) (src : Source) : Prop :=
  (sysNvmWriteOn mprotect dst src s = .returned (s.performed dst src) ↔
    s.currentApp.Inside dst src.len) ∧
  (¬ s.currentApp.Inside dst src.len → sysNvmWriteOn mprotect dst src s = .exited s)

/-- The host has mapped the pages of the NVRAM, and nothing where the address space ends. -/
structure Mprotect.Lawful (mprotect : Mprotect) (app : App) : Prop where
  grants : ∀ p size prot, p.toNat % 4096 = 0 → (pageOf app.nvramStart).toNat ≤ p.toNat →
    p.toNat + size.toNat ≤ app.nvramStart.toNat + app.nvramSize →
    p.toNat + size.toNat < 2 ^ 32 → mprotect p size prot = true
  refuses : ∀ p size prot, 2 ^ 32 ≤ p.toNat + size.toNat → mprotect p size prot = false

/-- A write that the code takes as it should: it ends before the last address of the NVRAM,
and is not an erasure that is to be saved. -/
structure App.Taken (app : App) (dst : UInt32) (src : Source) : Prop where
  start : app.nvramStart.toNat ≤ dst.toNat
  stop : dst.toNat + src.len < app.nvramStart.toNat + app.nvramSize
  mapped : app.nvramStart.toNat + app.nvramSize < 2 ^ 32
  source : app.saveNvram = true → src.crashes = false

/-- The size of the pages wraps around, and the end of the write comes to lie below the end of
the NVRAM. -/
structure App.WrapsAround (app : App) (dst : UInt32) (len : Nat) : Prop where
  start : app.nvramStart.toNat ≤ dst.toNat
  stop : dst.toNat + len - 2 ^ 32 < (app.nvramStart.toNat + app.nvramSize) % 2 ^ 32
  size : 2 ^ 32 ≤ len + dst.toNat % 4096

-- ---------------------------------------------------------------------------
-- Addresses
-- ---------------------------------------------------------------------------

theorem toNat_pageOf (dst : UInt32) : (pageOf dst).toNat = dst.toNat - dst.toNat % 4096 := by
  have hmask : (~~~(pageSize - 1)).toNat = 2 ^ 12 * (2 ^ 20 - 1) := rfl
  have hpage : dst.toNat - dst.toNat % 4096 = 2 ^ 12 * (dst.toNat / 2 ^ 12) := by omega
  have hlt := dst.toNat_lt
  rw [pageOf, UInt32.toNat_and, hmask, hpage]
  refine Nat.eq_of_testBit_eq fun i => ?_
  rw [Nat.testBit_and, Nat.testBit_two_pow_mul, Nat.testBit_two_pow_mul,
    Nat.testBit_two_pow_sub_one]
  by_cases hi : i ≥ 12
  · have hbit : (dst.toNat / 2 ^ 12).testBit (i - 12) = dst.toNat.testBit i := by
      rw [Nat.testBit_div_two_pow, Nat.sub_add_cancel hi]
    rw [hbit]
    by_cases htop : i < 32
    · simp [hi, show i - 12 < 20 by omega]
    · have hle : 2 ^ 32 ≤ 2 ^ i := Nat.pow_le_pow_right (by decide) (Nat.le_of_not_lt htop)
      simp [Nat.testBit_lt_two_pow (Nat.lt_of_lt_of_le hlt hle)]
  · simp [hi]

theorem toNat_sizeFrom (dst : UInt32) (len : Nat) :
    (sizeFrom dst len).toNat = (len + dst.toNat % 4096) % 2 ^ 32 := by
  have hle : pageOf dst ≤ dst := by
    rw [UInt32.le_iff_toNat_le, toNat_pageOf]
    exact Nat.sub_le ..
  have hoff : (dst - pageOf dst).toNat = dst.toNat % 4096 := by
    rw [UInt32.toNat_sub_of_le _ _ hle, toNat_pageOf]
    have := Nat.mod_le dst.toNat 4096
    omega
  rw [sizeFrom, UInt32.toNat_add, hoff, UInt32.toNat_ofNat']
  simp

theorem outOfBoundaries_iff {app : App} :
    app.outOfBoundaries dst len ↔ dst.toNat < app.nvramStart.toNat ∨
      (app.nvramStart.toNat + app.nvramSize) % 2 ^ 32 ≤ (dst.toNat + len) % 2 ^ 32 := by
  rw [App.outOfBoundaries, ge_iff_le, UInt32.lt_iff_toNat_lt, UInt32.le_iff_toNat_le,
    UInt32.toNat_add, UInt32.toNat_add, UInt32.toNat_ofNat', App.nvramSize]
  simp

section

variable {app : App} {dst : UInt32} {len : Nat}

theorem App.inside_iff : app.Inside dst len ↔
    len = 0 ∨ app.nvramStart.toNat ≤ dst.toNat ∧
      dst.toNat + len ≤ app.nvramStart.toNat + app.nvramSize := by
  constructor
  · intro h
    rcases Nat.eq_zero_or_pos len with hlen | hlen
    · exact .inl hlen
    · have hfirst := h 0 hlen
      have hlast := h (len - 1) (by omega)
      omega
  · rintro (rfl | hin) i hi
    · exact absurd hi (Nat.not_lt_zero i)
    · omega

theorem Mprotect.Lawful.grants_write {mprotect : Mprotect} (h : mprotect.Lawful app)
    (dst : UInt32) (len : Nat) (prot : Prot)
    (hstart : app.nvramStart.toNat ≤ dst.toNat)
    (hstop : dst.toNat - dst.toNat % 4096 + (len + dst.toNat % 4096) % 2 ^ 32 ≤
      app.nvramStart.toNat + app.nvramSize)
    (htop : dst.toNat - dst.toNat % 4096 + (len + dst.toNat % 4096) % 2 ^ 32 < 2 ^ 32) :
    mprotect (pageOf dst) (sizeFrom dst len) prot = true := by
  apply h.grants
  · rw [toNat_pageOf]
    omega
  · rw [toNat_pageOf, toNat_pageOf]
    omega
  · rwa [toNat_pageOf, toNat_sizeFrom]
  · rwa [toNat_pageOf, toNat_sizeFrom]

theorem Mprotect.Lawful.refuses_write {mprotect : Mprotect} (h : mprotect.Lawful app)
    (dst : UInt32) (len : Nat) (prot : Prot)
    (htop : 2 ^ 32 ≤ dst.toNat + len) (hsize : len + dst.toNat % 4096 < 2 ^ 32) :
    mprotect (pageOf dst) (sizeFrom dst len) prot = false := by
  apply h.refuses
  rw [toNat_pageOf, toNat_sizeFrom, Nat.mod_eq_of_lt hsize]
  have hle := Nat.mod_le dst.toNat 4096
  omega

end

-- ---------------------------------------------------------------------------
-- The outcome of a call
-- ---------------------------------------------------------------------------

section

variable {mprotect : Mprotect} {s : Running} {dst : UInt32} {src : Source}

theorem sysNvmWriteOn_out (hdeclared : s.currentApp.elf.appNvramAddr ≠ 0)
    (hout : s.currentApp.outOfBoundaries dst src.len) :
    sysNvmWriteOn mprotect dst src s = .exited s :=
  if_pos ⟨hdeclared, hout⟩

theorem sysNvmWriteOn_refused (hin : ¬ s.currentApp.outOfBoundaries dst src.len)
    (hwrite : mprotect (pageOf dst) (sizeFrom dst src.len) .write = false) :
    sysNvmWriteOn mprotect dst src s = .exited s :=
  (if_neg fun h => hin h.2).trans (if_pos hwrite)

theorem sysNvmWriteOn_over (hin : ¬ s.currentApp.outOfBoundaries dst src.len)
    (hwrite : mprotect (pageOf dst) (sizeFrom dst src.len) .write = true)
    (hover : 2 ^ 32 ≤ dst.toNat + src.len) :
    sysNvmWriteOn mprotect dst src s = .crashed := by
  rw [sysNvmWriteOn, if_neg fun h => hin h.2, hwrite, if_neg (by decide), if_pos hover]

/-- A write with access: it crashes if it is an erasure that is to be saved. -/
theorem sysNvmWriteOn_granted (hdeclared : s.currentApp.elf.appNvramAddr ≠ 0)
    (hin : ¬ s.currentApp.outOfBoundaries dst src.len)
    (hgrants : ∀ prot, mprotect (pageOf dst) (sizeFrom dst src.len) prot = true)
    (hover : dst.toNat + src.len < 2 ^ 32) :
    sysNvmWriteOn mprotect dst src s =
      if s.currentApp.saveNvram = true ∧ src.crashes = true then .crashed
      else .returned (s.performed dst src) := by
  rw [sysNvmWriteOn, if_neg fun h => hin h.2, hgrants, if_neg (by decide),
    if_neg (Nat.not_le.mpr hover)]
  simp only [hgrants, Running.performed, hdeclared, ne_eq, not_false_eq_true, true_and]
  cases hsave : s.currentApp.saveNvram
  · rfl
  · rw [saveToFile_eq]
    cases hcrashes : src.crashes <;> simp
    rfl

theorem Outcome.returned_ne_exited (s s' : Running) : Outcome.returned s ≠ .exited s' := nofun

end

-- ---------------------------------------------------------------------------
-- The claim on the boundaries
-- ---------------------------------------------------------------------------

section

variable {mprotect : Mprotect} {s : Running} {dst : UInt32} {src : Source}

theorem returned_iff_taken (hdeclared : s.currentApp.elf.appNvramAddr ≠ 0)
    (hhost : mprotect.Lawful s.currentApp) :
    sysNvmWriteOn mprotect dst src s = .returned (s.performed dst src) ↔
      s.currentApp.Taken dst src := by
  have hS := s.currentApp.nvramStart.toNat_lt
  have hN := s.currentApp.nvramSize_lt
  have hD := dst.toNat_lt
  have hoff := Nat.mod_le dst.toNat 4096
  constructor
  · intro hcall
    have hin : ¬ s.currentApp.outOfBoundaries dst src.len := by
      intro hout
      rw [sysNvmWriteOn_out hdeclared hout] at hcall
      exact Outcome.returned_ne_exited _ _ hcall.symm
    have hover : dst.toNat + src.len < 2 ^ 32 := by
      by_contra hover
      cases hwrite : mprotect (pageOf dst) (sizeFrom dst src.len) .write with
      | false =>
        rw [sysNvmWriteOn_refused hin hwrite] at hcall
        exact Outcome.returned_ne_exited _ _ hcall.symm
      | true =>
        rw [sysNvmWriteOn_over hin hwrite (Nat.le_of_not_lt hover)] at hcall
        cases hcall
    have hbounds := hin
    rw [outOfBoundaries_iff] at hbounds
    have hmapped : s.currentApp.nvramStart.toNat + s.currentApp.nvramSize < 2 ^ 32 := by
      -- else what is left of the end lies below the start
      omega
    refine ⟨by omega, by omega, hmapped, fun hsave => ?_⟩
    have hgrants := hhost.grants_write dst src.len
    rw [sysNvmWriteOn_granted hdeclared hin
      (fun prot => hgrants prot (by omega) (by omega) (by omega)) hover] at hcall
    cases hcrashes : src.crashes with
    | false => rfl
    | true =>
      rw [if_pos ⟨hsave, hcrashes⟩] at hcall
      cases hcall
  · intro htaken
    obtain ⟨hstart, hstop, hmapped, hsource⟩ := htaken
    have hin : ¬ s.currentApp.outOfBoundaries dst src.len := by
      rw [outOfBoundaries_iff]
      omega
    have hgrants := hhost.grants_write dst src.len
    rw [sysNvmWriteOn_granted hdeclared hin
      (fun prot => hgrants prot (by omega) (by omega) (by omega)) (by omega), if_neg]
    rintro ⟨hsave, hcrashes⟩
    rw [hsource hsave] at hcrashes
    cases hcrashes

theorem exited_iff_not_wrapsAround (hdeclared : s.currentApp.elf.appNvramAddr ≠ 0)
    (hhost : mprotect.Lawful s.currentApp) (hlen : src.len < 2 ^ 32)
    (hinside : ¬ s.currentApp.Inside dst src.len) :
    sysNvmWriteOn mprotect dst src s = .exited s ↔ ¬ s.currentApp.WrapsAround dst src.len := by
  have hS := s.currentApp.nvramStart.toNat_lt
  have hN := s.currentApp.nvramSize_lt
  have hD := dst.toNat_lt
  have hoff := Nat.mod_le dst.toNat 4096
  have hpage := Nat.mod_lt dst.toNat (show 4096 > 0 by decide)
  rw [App.inside_iff] at hinside
  by_cases hout : s.currentApp.outOfBoundaries dst src.len
  · rw [sysNvmWriteOn_out hdeclared hout]
    refine iff_of_true rfl fun ⟨hstart, hstop, hsize⟩ => ?_
    rw [outOfBoundaries_iff] at hout
    omega
  · have hbounds := hout
    rw [outOfBoundaries_iff] at hbounds
    by_cases hsize : 2 ^ 32 ≤ src.len + dst.toNat % 4096
    · have hwrite := hhost.grants_write dst src.len .write (by omega) (by omega)
        (by omega)
      rw [sysNvmWriteOn_over hout hwrite (by omega)]
      exact iff_of_false nofun (not_not.mpr ⟨by omega, by omega, hsize⟩)
    · have hwrite := hhost.refuses_write dst src.len .write (by omega)
        (Nat.lt_of_not_le hsize)
      rw [sysNvmWriteOn_refused hout hwrite]
      exact iff_of_true rfl fun h => hsize h.size

/-- The boundaries are exact for the writes inside that are taken, and for those outside whose
size does not wrap around. -/
theorem exactlyInside_iff (hdeclared : s.currentApp.elf.appNvramAddr ≠ 0)
    (hhost : mprotect.Lawful s.currentApp) (hlen : src.len < 2 ^ 32) :
    ExactlyInside mprotect s dst src ↔
      (s.currentApp.Inside dst src.len → s.currentApp.Taken dst src) ∧
      (¬ s.currentApp.Inside dst src.len → ¬ s.currentApp.WrapsAround dst src.len) := by
  by_cases hinside : s.currentApp.Inside dst src.len
  · rw [ExactlyInside, iff_true_right hinside, returned_iff_taken hdeclared hhost]
    simp [hinside]
  · have hexited := exited_iff_not_wrapsAround hdeclared hhost hlen hinside
    rw [ExactlyInside, hexited, iff_false_right hinside]
    simp only [hinside, not_false_eq_true, forall_const, false_imp_iff, true_and]
    constructor
    · exact fun h => h.2
    · intro hwraps
      refine ⟨fun hcall => ?_, hwraps⟩
      exact Outcome.returned_ne_exited _ _ (hcall.symm.trans (hexited.mpr hwraps))

end

-- ---------------------------------------------------------------------------
-- The last byte
-- ---------------------------------------------------------------------------

def onePage (p size : UInt32) (_ : Prot) : Bool :=
  0x40000000 ≤ p.toNat ∧ p.toNat + size.toNat ≤ 0x40001000

theorem onePage_lawful : Mprotect.Lawful onePage savedApp where
  grants p size prot _ hstart hstop _ := by
    have hend : savedApp.nvramStart.toNat + savedApp.nvramSize = 0x40000012 := rfl
    have hfirst : (pageOf savedApp.nvramStart).toNat = 0x40000000 := rfl
    rw [hend] at hstop
    rw [hfirst] at hstart
    exact decide_eq_true ⟨hstart, by omega⟩
  refuses p size prot htop := decide_eq_false fun h => by omega

theorem exactlyInside_write :
    ∃ running, loadApp savedSetup [0x6d] savedHost = some running ∧
      ExactlyInside onePage running 0x40000004 (.bytes [0x42, 0x43]) := by
  have hlawful : Mprotect.Lawful onePage savedRunning.currentApp :=
    currentApp_saved ▸ onePage_lawful
  refine ⟨savedRunning, loadApp_saved,
    (exactlyInside_iff saves_saved.declared hlawful (by decide)).mpr ?_⟩
  rw [currentApp_saved]
  exact ⟨fun _ => ⟨by decide, by decide, by decide, fun _ => rfl⟩,
    fun _ h => absurd h.size (by decide)⟩

/-- The last byte of the NVRAM is not written. -/
theorem not_exactlyInside_lastByte :
    ∃ running, loadApp savedSetup [0x6d] savedHost = some running ∧
      running.currentApp.Inside 0x40000011 1 ∧
      ¬ ExactlyInside onePage running 0x40000011 (.bytes [0x42]) := by
  have hinside : savedApp.Inside 0x40000011 1 := by
    rw [App.inside_iff]
    decide
  have hout : savedRunning.currentApp.outOfBoundaries 0x40000011 1 := by
    rw [currentApp_saved]
    decide
  rw [← currentApp_saved] at hinside
  refine ⟨savedRunning, loadApp_saved, hinside, fun h => ?_⟩
  exact Outcome.returned_ne_exited _ _
    ((h.1.mpr hinside).symm.trans (sysNvmWriteOn_out saves_saved.declared hout))

end Speculos.Launcher
