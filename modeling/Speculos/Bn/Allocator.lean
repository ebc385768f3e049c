import Speculos.Bn.Openssl
import Speculos.Lib.SlotTable

/-!
# The bignum allocator

The first part of `cx_mpi.c`. The numbers of an application are slots of one table, which is
there while the bignum unit is locked, and `mpi_total_memory` bounds what the slots take.
Sizes are 32-bit numbers, and so is their sum.
-/

namespace Speculos.Bn

open Lib

inductive CxErr
  | ok
  | carry
  | notLocked
  | notUnlocked
  | internalError
  | invalidParameterSize
  | invalidParameterValue
  | invalidParameter
  | overflow
  | memoryFull
  deriving DecidableEq, Repr

def CxErr.code : CxErr → UInt32
  | .ok => 0x00000000
  | .carry => 0xFFFFFF21
  | .notLocked => 0xFFFFFF83
  | .notUnlocked => 0xFFFFFF84
  | .internalError => 0xFFFFFF85
  | .invalidParameterSize => 0xFFFFFF86
  | .invalidParameterValue => 0xFFFFFF87
  | .invalidParameter => 0xFFFFFF88
  | .overflow => 0xFFFFFF8A
  | .memoryFull => 0xFFFFFF8B

/-- `MAX_MPI_ARRAY_ENTRIES` -/
abbrev Slot := Fin 64

instance slotsNeZero : NeZero 64 := ⟨by decide⟩

def maxMpiByteSize : UInt32 := 2048

def cxMpiWordByteSize : UInt32 := 16

/-- `struct cx_mpi`, with the number that `mpi` points to. -/
structure CxMpi where
  mpi : Option Int
  size : UInt32
  deriving DecidableEq, Repr

def CxMpi.empty : CxMpi := ⟨none, 0⟩

def CxMpi.live (x : CxMpi) : Bool := x.mpi.isSome

@[simp] theorem live_empty : CxMpi.empty.live = false := rfl

/-- The variables of `cx_mpi.c`. The unit is locked where `local_bn_ctx` is not null. -/
structure State where
  localBnCtx : Bool
  mpiArray : Slot → CxMpi
  mpiWordsCount : UInt32
  mpiWordSize : UInt32
  mpiTotalMemory : UInt32
  deriving DecidableEq

def State.initial : State := ⟨false, fun _ => .empty, 0, 0, 0⟩

-- ---------------------------------------------------------------------------
-- Sizes
-- ---------------------------------------------------------------------------

def sizeToMpiBytes (size : UInt32) : UInt32 :=
  let size := (size + cxMpiWordByteSize - 1) &&& ~~~(cxMpiWordByteSize - 1)
  if size = 0 then cxMpiWordByteSize else size

def sizeToMpiWordBytes (wordSize size : UInt32) : UInt32 :=
  if size = 0 then wordSize else (size + (wordSize - 1)) / wordSize * wordSize

-- ---------------------------------------------------------------------------
-- Slots
-- ---------------------------------------------------------------------------

def State.firstFree (s : State) : Option Slot := SlotTable.firstFree CxMpi.live s.mpiArray

/-- A slot that is not in use becomes the one of a new number. -/
def State.fill (s : State) (i : Slot) (size : UInt32) : State :=
  { s with
    mpiArray := Function.update s.mpiArray i ⟨some 0, size⟩
    mpiTotalMemory := s.mpiTotalMemory + size
    mpiWordsCount := s.mpiWordsCount + size / s.mpiWordSize }

def State.release (s : State) (i : Slot) : State :=
  { s with
    mpiArray := Function.update s.mpiArray i .empty
    mpiTotalMemory := s.mpiTotalMemory - (s.mpiArray i).size
    mpiWordsCount := s.mpiWordsCount - (s.mpiArray i).size / s.mpiWordSize }

def State.setValue (s : State) (i : Slot) (value : Int) : State :=
  { s with mpiArray := Function.update s.mpiArray i { s.mpiArray i with mpi := some value } }

@[simp] theorem mpiArray_fill (s : State) (i : Slot) (size : UInt32) :
    (s.fill i size).mpiArray = Function.update s.mpiArray i ⟨some 0, size⟩ := rfl

@[simp] theorem mpiArray_release (s : State) (i : Slot) :
    (s.release i).mpiArray = Function.update s.mpiArray i .empty := rfl

@[simp] theorem mpiArray_setValue (s : State) (i : Slot) (value : Int) :
    (s.setValue i value).mpiArray =
      Function.update s.mpiArray i { s.mpiArray i with mpi := some value } := rfl

-- ---------------------------------------------------------------------------
-- The calls
-- ---------------------------------------------------------------------------

/-- `cx_mpi_destroy` of an index of the table. The word size of a unit that is locked is
not 0. -/
def destroySlot (i : Slot) (s : State) : CxErr × State :=
  if (s.mpiArray i).live then
    if s.localBnCtx then (.ok, s.release i) else (.notLocked, s)
  else (.ok, s)

def cxMpiDestroy (bnX : Option UInt32) (s : State) : CxErr × State :=
  match bnX with
  | none => (.ok, s)
  | some index => if h : index.toNat < 64 then destroySlot ⟨index.toNat, h⟩ s else (.ok, s)

/-- The loop of `cx_mpi_unlock`. -/
def destroyAll (slots : List Slot) (s : State) : State :=
  slots.foldl (fun s i => (destroySlot i s).2) s

/-- The context freed, and the counters of it cleared. -/
def State.close (s : State) : State :=
  { s with localBnCtx := false, mpiTotalMemory := 0, mpiWordSize := 0, mpiWordsCount := 0 }

def cxMpiUnlock (s : State) : CxErr × State := (.ok, (destroyAll (List.finRange 64) s).close)

def cxMpiLock (ssl : Openssl) (wordSize : UInt32) (s : State) : CxErr × State :=
  if s.localBnCtx then (.notUnlocked, s)
  else if ¬ ssl.ctxNew then (.internalError, s)
  else
    (.ok, { s with
      localBnCtx := true
      mpiTotalMemory := 0
      mpiWordSize := sizeToMpiBytes wordSize
      mpiWordsCount := 0 })

/-- What an allocation gives: the handle, and the slot that the pointer is into. -/
structure Allocated where
  bnX : UInt32
  x : Option Slot
  deriving DecidableEq, Repr

/-- The handle of a slot, or -1. -/
def handle : Option Slot → UInt32
  | none => 0xFFFFFFFF
  | some i => UInt32.ofNat i

def Allocated.of (x : Option Slot) : Allocated := ⟨handle x, x⟩

/-- `cx_mpi_alloc`. There is no result where it divides by the word size of a unit that is
not locked. -/
def cxMpiAlloc (ssl : Openssl) (size : UInt32) (s : State) : Option (Allocated × State) :=
  if s.mpiWordSize = 0 ∧ size ≠ 0 then none
  else
    let size := sizeToMpiWordBytes s.mpiWordSize size
    if size + s.mpiTotalMemory ≤ maxMpiByteSize then
      match s.firstFree with
      | none => some (.of none, s)
      | some i =>
        if ¬ ssl.bnNew i then some (.of none, s)
        else if s.mpiWordSize = 0 then none
        else some (.of (some i), s.fill i size)
    else some (.of none, s)

/-- What `cx_mpi_alloc_init` does with the number it got. Where the number is given back,
its handle stays. -/
def initAllocated (ssl : Openssl) (bytes : Bytes) : Allocated × State → Allocated × State
  | (⟨bnX, none⟩, s) => (⟨bnX, none⟩, s)
  | (⟨bnX, some i⟩, s) =>
    let written := ssl.bin2bn bytes
    if written.ok then (⟨bnX, some i⟩, s.setValue i written.value)
    else (⟨bnX, none⟩, (cxMpiDestroy (some bnX) s).2)

def requestedInit (size nbytes : UInt32) : UInt32 := if nbytes > size then nbytes else size

/-- `cx_mpi_alloc_init`, where `bytes` is what stands behind the pointer. -/
def cxMpiAllocInit (ssl : Openssl) (size : UInt32) (bytes : Bytes) (nbytes : UInt32) (s : State) :
    Option (Allocated × State) :=
  let size := requestedInit size nbytes
  if s.mpiWordSize = 0 ∧ size ≠ 0 then none
  else
    (cxMpiAlloc ssl (sizeToMpiWordBytes s.mpiWordSize size) s).map
      (initAllocated ssl (bytes.take nbytes.toNat))

-- ---------------------------------------------------------------------------
-- What the calls do
-- ---------------------------------------------------------------------------

theorem cxMpiAlloc_cases (h : cxMpiAlloc ssl size s = some (x, s')) :
    x = .of none ∧ s' = s ∨
      ∃ i, s.firstFree = some i ∧ ssl.bnNew i = true ∧ s.mpiWordSize ≠ 0 ∧
        sizeToMpiWordBytes s.mpiWordSize size + s.mpiTotalMemory ≤ maxMpiByteSize ∧
        x = .of (some i) ∧ s' = s.fill i (sizeToMpiWordBytes s.mpiWordSize size) := by
  unfold cxMpiAlloc at h
  split at h
  · simp at h
  · simp only at h
    split at h
    · rename_i hfits
      split at h
      · simp at h
        exact .inl ⟨h.1.symm, h.2.symm⟩
      · rename_i i hi
        split at h
        · simp at h
          exact .inl ⟨h.1.symm, h.2.symm⟩
        · rename_i hnew
          split at h
          · simp at h
          · rename_i hword
            simp at h
            exact .inr ⟨i, hi, by simpa using hnew, hword, hfits, h.1.symm, h.2.symm⟩
    · simp at h
      exact .inl ⟨h.1.symm, h.2.symm⟩

theorem cxMpiAlloc_of_fits (hi : s.firstFree = some i) (hnew : ssl.bnNew i = true)
    (hword : s.mpiWordSize ≠ 0)
    (hfits : sizeToMpiWordBytes s.mpiWordSize size + s.mpiTotalMemory ≤ maxMpiByteSize) :
    cxMpiAlloc ssl size s =
      some (.of (some i), s.fill i (sizeToMpiWordBytes s.mpiWordSize size)) := by
  simp [cxMpiAlloc, hword, hfits, hi, hnew]

theorem cxMpiAlloc_isSome (hword : s.mpiWordSize ≠ 0) : (cxMpiAlloc ssl size s).isSome := by
  unfold cxMpiAlloc
  simp only [hword, false_and, if_false]
  split
  · split
    · rfl
    · split <;> rfl
  · rfl

theorem handle_some_toNat (i : Slot) : (handle (some i)).toNat = i :=
  UInt32.toNat_ofNat_of_lt' (Nat.lt_trans i.isLt (by decide))

theorem destroySlot_of_live (hlive : (s.mpiArray i).live = true) (hctx : s.localBnCtx = true) :
    destroySlot i s = (.ok, s.release i) := by
  rw [destroySlot, if_pos hlive, if_pos hctx]

theorem live_fill (s : State) (i : Slot) (size : UInt32) :
    ((s.fill i size).mpiArray i).live = true := by
  simp [CxMpi.live]

theorem cxMpiDestroy_handle (i : Slot) (s : State) :
    cxMpiDestroy (some (handle (some i))) s = destroySlot i s := by
  have hlt : (handle (some i)).toNat < 64 := by rw [handle_some_toNat]; exact i.isLt
  simp only [cxMpiDestroy, hlt, dif_pos]
  congr
  exact handle_some_toNat i

theorem cxMpiDestroy_cases (bnX : Option UInt32) (s : State) :
    (cxMpiDestroy bnX s).2 = s ∨
      ∃ i, (s.mpiArray i).live = true ∧ s.localBnCtx = true ∧
        (cxMpiDestroy bnX s).2 = s.release i := by
  unfold cxMpiDestroy destroySlot
  split
  · exact .inl rfl
  · split
    · split
      · split
        · exact .inr ⟨_, ‹_›, ‹_›, rfl⟩
        · exact .inl rfl
      · exact .inl rfl
    · exact .inl rfl

-- ---------------------------------------------------------------------------
-- The same slots
-- ---------------------------------------------------------------------------

/-- The same numbers are there, as large as before. -/
structure SameSlots (s s' : State) : Prop where
  live : ∀ i, (s'.mpiArray i).live = (s.mpiArray i).live
  size : ∀ i, (s.mpiArray i).live = true → (s'.mpiArray i).size = (s.mpiArray i).size
  totalMemory : s'.mpiTotalMemory = s.mpiTotalMemory

structure SameUnit (s s' : State) : Prop extends SameSlots s s' where
  localBnCtx : s'.localBnCtx = s.localBnCtx
  wordSize : s'.mpiWordSize = s.mpiWordSize
  wordsCount : s'.mpiWordsCount = s.mpiWordsCount

theorem SameUnit.refl (s : State) : SameUnit s s :=
  ⟨⟨fun _ => rfl, fun _ _ => rfl, rfl⟩, rfl, rfl, rfl⟩

theorem SameUnit.trans (h : SameUnit s s') (h' : SameUnit s' s'') : SameUnit s s'' where
  live i := (h'.live i).trans (h.live i)
  size i hi := (h'.size i ((h.live i).trans hi)).trans (h.size i hi)
  totalMemory := h'.totalMemory.trans h.totalMemory
  localBnCtx := h'.localBnCtx.trans h.localBnCtx
  wordSize := h'.wordSize.trans h.wordSize
  wordsCount := h'.wordsCount.trans h.wordsCount

theorem SameUnit.symm (h : SameUnit s s') : SameUnit s' s where
  live i := (h.live i).symm
  size i hi := (h.size i ((h.live i).symm.trans hi)).symm
  totalMemory := h.totalMemory.symm
  localBnCtx := h.localBnCtx.symm
  wordSize := h.wordSize.symm
  wordsCount := h.wordsCount.symm

theorem sameUnit_setValue (hlive : (s.mpiArray i).live = true) (value : Int) :
    SameUnit s (s.setValue i value) := by
  refine ⟨⟨fun j => ?_, fun j _ => ?_, rfl⟩, rfl, rfl, rfl⟩
  · by_cases hj : j = i
    · subst hj
      simpa [CxMpi.live] using hlive
    · simp [hj]
  · by_cases hj : j = i
    · subst hj
      simp
    · simp [hj]

/-- A number that is given back leaves no trace. -/
theorem sameUnit_release_fill (hfree : (s.mpiArray i).live = false) (size : UInt32) :
    SameUnit s ((s.fill i size).release i) := by
  refine ⟨⟨fun j => ?_, fun j hj => ?_, ?_⟩, rfl, rfl, ?_⟩
  · by_cases hj : j = i
    · subst hj
      simp [hfree]
    · simp [hj]
  · have hne : j ≠ i := fun h => by simp [h, hfree] at hj
    simp [hne]
  · simp [State.release, State.fill]
  · simp [State.release, State.fill]

-- ---------------------------------------------------------------------------
-- Unlocking
-- ---------------------------------------------------------------------------

@[simp] theorem mpiArray_close (s : State) : s.close.mpiArray = s.mpiArray := rfl

theorem live_destroySlot (i : Slot) (hs : s.localBnCtx = true) :
    ((destroySlot i s).2.mpiArray j).live = true ↔ (s.mpiArray j).live = true ∧ j ≠ i := by
  unfold destroySlot
  by_cases hj : j = i
  · subst hj
    split <;> simp_all [State.release]
  · split <;> simp [hs, State.release, hj]

theorem localBnCtx_destroySlot (i : Slot) (s : State) :
    (destroySlot i s).2.localBnCtx = s.localBnCtx := by
  unfold destroySlot
  split
  · split <;> rfl
  · rfl

theorem live_destroyAll (slots : List Slot) (hs : s.localBnCtx = true) :
    ((destroyAll slots s).mpiArray j).live = true ↔ (s.mpiArray j).live = true ∧ j ∉ slots := by
  induction slots generalizing s with
  | nil => simp [destroyAll]
  | cons i slots ih =>
    have hctx : (destroySlot i s).2.localBnCtx = true := by rw [localBnCtx_destroySlot, hs]
    have hrest := ih hctx
    rw [live_destroySlot i hs] at hrest
    rw [show destroyAll (i :: slots) s = destroyAll slots (destroySlot i s).2 from rfl, hrest]
    simp only [List.mem_cons, not_or, and_assoc]

theorem destroyAll_of_unlocked (slots : List Slot) (hs : s.localBnCtx = false) :
    destroyAll slots s = s := by
  induction slots with
  | nil => rfl
  | cons i slots ih =>
    have hstay : (destroySlot i s).2 = s := by
      simp only [destroySlot, hs]
      split <;> rfl
    rw [show destroyAll (i :: slots) s = destroyAll slots (destroySlot i s).2 from rfl, hstay, ih]

/-- A unit that was locked has no number left once it is unlocked. -/
theorem not_live_unlocked (hs : s.localBnCtx = true) (i : Slot) :
    ((destroyAll (List.finRange 64) s).close.mpiArray i).live = false := by
  refine Bool.eq_false_iff.mpr fun hlive => ?_
  rw [mpiArray_close, live_destroyAll _ hs] at hlive
  exact hlive.2 (List.mem_finRange i)

end Speculos.Bn
