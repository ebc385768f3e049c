import Speculos.Bn.Accounting
import Speculos.Bn.CxBn

/-!
# Slots that bignum syscalls leave

A syscall that is not there to allocate leaves the table of numbers as it was, with two
exceptions: the modular powers with an exponent in bytes keep the number they made of it.
-/

namespace Speculos.Bn

open Lib

-- ---------------------------------------------------------------------------
-- Operations
-- ---------------------------------------------------------------------------

/-- The syscalls of `cx_bn.c` that neither lock nor allocate for the application. -/
inductive BnOp
  | isLocked
  | isUnlocked
  | init (bnX : UInt32) (bytes : Bytes) (nbytes : UInt32)
  | exportBytes (bnX nbytes : UInt32)
  | copy (bnA bnB : UInt32)
  | nbytes (bnX : UInt32) (isNull : Bool)
  | setU32 (bnX n : UInt32)
  | getU32 (bnX : UInt32)
  | cmpU32 (bnA b : UInt32)
  | cmp (bnA bnB : UInt32)
  | rand (bnX : UInt32)
  | rng (bnR bnN : UInt32)
  | tstBit (bnX pos : UInt32)
  | setBit (bnX pos : UInt32)
  | clrBit (bnX pos : UInt32)
  | cntBits (bnX : UInt32)
  | shr (bnR n : UInt32)
  | shl (bnR n : UInt32)
  | xor (bnR bnA bnB : UInt32)
  | or (bnR bnA bnB : UInt32)
  | and (bnR bnA bnB : UInt32)
  | add (bnR bnA bnB : UInt32)
  | sub (bnR bnA bnB : UInt32)
  | mul (bnR bnA bnB : UInt32)
  | modAdd (bnR bnA bnB bnM : UInt32)
  | modSub (bnR bnA bnB bnM : UInt32)
  | modMul (bnR bnA bnB bnM : UInt32)
  | reduce (bnR bnD bnN : UInt32)
  | modSqrt (bnR bnA bnN sign : UInt32)
  | isOdd (bnA : UInt32)
  | modInvertNprime (bnR bnA bnN : UInt32)
  | modU32Invert (bnR e bnN : UInt32)
  | modPow (bnR bnA : UInt32) (bytesE : Bytes) (lenE bnN : UInt32)
  | modPowBn (bnR bnA bnE bnN : UInt32)
  | modPow2 (bnR bnA : UInt32) (bytesE : Bytes) (lenE bnN : UInt32)
  | isPrime (bnX : UInt32)
  | nextPrime (bnX : UInt32)
  | gf2NMul (bnR bnA bnB bnN bnH : UInt32)

/-- What a syscall does. There is no result where it goes past an array, or where a loop takes
more than `fuel` steps. -/
def run (ssl : Openssl) (stack : Bytes) (fuel : Nat) : BnOp → State → Option (Answer × State)
  | .isLocked => sysCxBnIsLocked
  | .isUnlocked => sysCxBnIsUnlocked
  | .init bnX bytes nbytes => sysCxBnInit ssl bnX bytes nbytes
  | .exportBytes bnX nbytes => sysCxBnExport ssl bnX nbytes
  | .copy bnA bnB => sysCxBnCopy ssl bnA bnB
  | .nbytes bnX isNull => sysCxBnNbytes ssl bnX isNull
  | .setU32 bnX n => sysCxBnSetU32 ssl bnX n
  | .getU32 bnX => sysCxBnGetU32 ssl bnX
  | .cmpU32 bnA b => sysCxBnCmpU32 ssl bnA b
  | .cmp bnA bnB => sysCxBnCmp ssl bnA bnB
  | .rand bnX => sysCxBnRand ssl bnX
  | .rng bnR bnN => sysCxBnRng ssl fuel bnR bnN
  | .tstBit bnX pos => sysCxBnTstBit ssl bnX pos
  | .setBit bnX pos => sysCxBnSetBit ssl bnX pos
  | .clrBit bnX pos => sysCxBnClrBit ssl bnX pos
  | .cntBits bnX => sysCxBnCntBits ssl stack bnX
  | .shr bnR n => sysCxBnShr ssl bnR n
  | .shl bnR n => sysCxBnShl ssl bnR n
  | .xor bnR bnA bnB => sysCxBnXor ssl bnR bnA bnB
  | .or bnR bnA bnB => sysCxBnOr ssl bnR bnA bnB
  | .and bnR bnA bnB => sysCxBnAnd ssl bnR bnA bnB
  | .add bnR bnA bnB => sysCxBnAdd ssl bnR bnA bnB
  | .sub bnR bnA bnB => sysCxBnSub ssl bnR bnA bnB
  | .mul bnR bnA bnB => sysCxBnMul ssl bnR bnA bnB
  | .modAdd bnR bnA bnB bnM => sysCxBnModAdd ssl bnR bnA bnB bnM
  | .modSub bnR bnA bnB bnM => sysCxBnModSub ssl bnR bnA bnB bnM
  | .modMul bnR bnA bnB bnM => sysCxBnModMul ssl bnR bnA bnB bnM
  | .reduce bnR bnD bnN => sysCxBnReduce ssl bnR bnD bnN
  | .modSqrt bnR bnA bnN sign => sysCxBnModSqrt ssl bnR bnA bnN sign
  | .isOdd bnA => sysCxBnIsOdd ssl bnA
  | .modInvertNprime bnR bnA bnN => sysCxBnModInvertNprime ssl bnR bnA bnN
  | .modU32Invert bnR e bnN => sysCxBnModU32Invert ssl bnR e bnN
  | .modPow bnR bnA bytesE lenE bnN => sysCxBnModPow ssl bnR bnA bytesE lenE bnN
  | .modPowBn bnR bnA bnE bnN => sysCxBnModPowBn ssl bnR bnA bnE bnN
  | .modPow2 bnR bnA bytesE lenE bnN => sysCxBnModPow2 ssl bnR bnA bytesE lenE bnN
  | .isPrime bnX => sysCxBnIsPrime ssl bnX
  | .nextPrime bnX => sysCxBnNextPrime ssl fuel bnX
  | .gf2NMul bnR bnA bnB bnN bnH => sysCxBnGf2NMul ssl bnR bnA bnB bnN bnH

/-- The powers that make a number of their exponent. -/
def BnOp.MakesExponent : BnOp → Prop
  | .modPow _ _ _ _ _ | .modPow2 _ _ _ _ _ => True
  | _ => False

/-- Any order of the calls of the allocator, with any numbers in the slots. -/
inductive Reachable : State → Prop
  | initial : Reachable .initial
  | lock (h : Reachable s) (ssl : Openssl) (wordSize : UInt32) :
    Reachable (cxMpiLock ssl wordSize s).2
  | unlock (h : Reachable s) : Reachable (cxMpiUnlock s).2
  | alloc (h : Reachable s) (halloc : cxMpiAlloc ssl size s = some (x, s')) : Reachable s'
  | destroy (h : Reachable s) (bnX : Option UInt32) : Reachable (cxMpiDestroy bnX s).2
  | values (h : Reachable s) (m : Mpis) : Reachable (s.withValues m)

-- ---------------------------------------------------------------------------
-- Numbers that are there
-- ---------------------------------------------------------------------------

theorem live_withValues (s : State) (m : Mpis) (i : Slot) :
    ((s.withValues m).mpiArray i).live = (s.mpiArray i).live := by
  simp [State.withValues, CxMpi.live]

theorem sameUnit_withValues (s : State) (m : Mpis) : SameUnit s (s.withValues m) :=
  ⟨⟨live_withValues s m, fun _ _ => rfl, rfl⟩, rfl, rfl, rfl⟩

/-- The numbers that are there may have new values. -/
def Writes (s s' : State) : Prop := s' = s ∨ ∃ m, s' = s.withValues m

theorem Writes.sameUnit (h : Writes s s') : SameUnit s s' := by
  obtain rfl | ⟨m, rfl⟩ := h
  · exact .refl _
  · exact sameUnit_withValues s m

theorem Writes.reachable (h : Writes s s') (hs : Reachable s) : Reachable s' := by
  obtain rfl | ⟨m, rfl⟩ := h
  · exact hs
  · exact hs.values m

theorem writes_onMpis (h : onMpis bns op s = some (answer, s')) : Writes s s' := by
  unfold onMpis at h
  split at h
  · simp at h
    exact .inl h.2.symm
  · obtain ⟨⟨_, m⟩, -, hs'⟩ := Option.map_eq_some_iff.mp h
    obtain ⟨-, rfl⟩ := Prod.mk.inj hs'
    exact .inr ⟨m, rfl⟩

theorem writes_writing (h : writing bns op s = some (answer, s')) : Writes s s' := writes_onMpis h

theorem writes_mayWrite (h : mayWrite bns op s = some (answer, s')) : Writes s s' := writes_onMpis h

theorem writes_reading (h : reading bns op s = some (answer, s')) : Writes s s' := writes_onMpis h

theorem writes_const (h : some (a, s) = some (answer, s')) : Writes s s' :=
  .inl (Prod.mk.inj (Option.some.inj h)).2.symm

theorem SameUnit.release (h : SameUnit s s') (hlive : (s.mpiArray i).live = true) :
    SameUnit (s.release i) (s'.release i) := by
  have hsize := h.size i hlive
  refine ⟨⟨fun j => ?_, fun j hj => ?_, ?_⟩, h.localBnCtx, h.wordSize, ?_⟩
  · by_cases hj : j = i
    · subst hj
      simp
    · simpa [hj] using h.live j
  · have hne : j ≠ i := fun heq => by simp [heq] at hj
    simp only [mpiArray_release, Function.update_of_ne hne] at hj ⊢
    exact h.size j hj
  · simp only [State.release, hsize, h.totalMemory]
  · simp only [State.release, hsize, h.wordsCount, h.wordSize]

theorem SameUnit.fill (h : SameUnit s s') (i : Slot) (size : UInt32) :
    SameUnit (s.fill i size) (s'.fill i size) := by
  refine ⟨⟨fun j => ?_, fun j hj => ?_, ?_⟩, h.localBnCtx, h.wordSize, ?_⟩
  · by_cases hj : j = i
    · simp [hj]
    · simpa [hj] using h.live j
  · by_cases hji : j = i
    · simp [hji]
    · simp only [mpiArray_fill, Function.update_of_ne hji] at hj ⊢
      exact h.size j hj
  · simp only [State.fill, h.totalMemory]
  · simp only [State.fill, h.wordsCount, h.wordSize]

theorem cxMpiAlloc_sameUnit (h : SameUnit s s') (halloc : cxMpiAlloc ssl size s = some (x, u)) :
    ∃ u', cxMpiAlloc ssl size s' = some (x, u') ∧ SameUnit u u' := by
  have hfree : s'.firstFree = s.firstFree := by
    simp only [State.firstFree, SlotTable.firstFree, h.live]
  rw [cxMpiAlloc, h.wordSize, h.totalMemory, hfree]
  rw [cxMpiAlloc] at halloc
  generalize sizeToMpiWordBytes s.mpiWordSize size = rounded at halloc ⊢
  have hsame (hnone : some (Allocated.of none, s) = some (x, u)) :
      ∃ u', some (Allocated.of none, s') = some (x, u') ∧ SameUnit u u' := by
    cases hnone
    exact ⟨s', rfl, h⟩
  by_cases hzero : s.mpiWordSize = 0 ∧ size ≠ 0
  · simp [hzero] at halloc
  by_cases hfits : rounded + s.mpiTotalMemory ≤ maxMpiByteSize
  · cases hi : s.firstFree with
    | none =>
      simp only [if_neg hzero, if_pos hfits, hi] at halloc ⊢
      exact hsame halloc
    | some i =>
      simp only [if_neg hzero, if_pos hfits, hi] at halloc ⊢
      split_ifs at halloc ⊢
      · cases halloc
        exact ⟨_, rfl, h.fill i _⟩
      · exact hsame halloc
  · simp only [if_neg hzero, if_neg hfits] at halloc ⊢
    exact hsame halloc

theorem wordSized_of_reachable (h : Reachable s) : WordSized s := by
  induction h with
  | initial => exact wordSized_initial
  | lock _ ssl wordSize ih => exact wordSized_cxMpiLock ssl wordSize ih
  | unlock => simp [WordSized, cxMpiUnlock, State.close]
  | alloc _ halloc ih =>
    obtain ⟨-, rfl⟩ | ⟨i, -, -, -, -, -, rfl⟩ := cxMpiAlloc_cases halloc
    · exact ih
    · exact ih
  | @destroy s _ bnX ih =>
    obtain hstay | ⟨i, -, -, hrelease⟩ := cxMpiDestroy_cases bnX s
    · rw [hstay]
      exact ih
    · rw [hrelease]
      exact ih
  | values _ m ih => exact (sameUnit_withValues _ m).wordSized ih

-- ---------------------------------------------------------------------------
-- Numbers for one call
-- ---------------------------------------------------------------------------

/-- `cx_mpi_mod_invert_nprime` gives its number back, on an error as well. -/
theorem sameUnit_cxMpiModInvertNprime (hw : WordSized s)
    (h : cxMpiModInvertNprime ssl r a n s = some (error, s')) : SameUnit s s' := by
  obtain ⟨⟨x, u⟩, halloc, hrest⟩ := Option.bind_eq_some_iff.mp h
  obtain ⟨rfl, rfl⟩ | ⟨i, hi, -, hword, -, rfl, rfl⟩ := cxMpiAlloc_cases halloc
  · obtain ⟨-, rfl⟩ := Prod.mk.inj (Option.some.inj hrest)
    exact .refl _
  · have hfree := SlotTable.not_live_of_firstFree hi
    simp only [Allocated.of, cxMpiDestroy_handle] at hrest
    generalize hm : powNMinus2 ssl r a n i (s.fill i _).values = m at hrest
    obtain ⟨_, m⟩ := m
    obtain ⟨-, rfl⟩ := Prod.mk.inj (Option.some.inj hrest)
    rw [destroySlot_of_live ((live_withValues _ m i).trans (live_fill s i _)) (hw.mpr hword)]
    exact (sameUnit_release_fill hfree _).trans
      ((sameUnit_withValues _ m).release (live_fill s i _))

-- ---------------------------------------------------------------------------
-- Numbers that stay
-- ---------------------------------------------------------------------------

theorem sysCxBnAlloc_cases (hctx : s.localBnCtx = true)
    (h : sysCxBnAlloc ssl size s = some ((error, bnX), s')) :
    error = .memoryFull ∧ s' = s ∧ cxMpiAlloc ssl size s = some (.of none, s) ∨
      ∃ i, error = .ok ∧ bnX = some (handle (some i)) ∧
        s' = s.fill i (sizeToMpiWordBytes s.mpiWordSize size) ∧ s.firstFree = some i ∧
        ssl.bnNew i = true ∧
        sizeToMpiWordBytes s.mpiWordSize size + s.mpiTotalMemory ≤ maxMpiByteSize := by
  rw [sysCxBnAlloc, if_neg (by simp [cxBnLocked, hctx])] at h
  obtain ⟨⟨x, u⟩, halloc, hx⟩ := Option.map_eq_some_iff.mp h
  obtain ⟨rfl, rfl⟩ | ⟨i, hi, hnew, -, hfits, rfl, rfl⟩ := cxMpiAlloc_cases halloc
  · simp [Allocated.of] at hx
    obtain ⟨⟨rfl, -⟩, rfl⟩ := hx
    exact .inl ⟨rfl, rfl, halloc⟩
  · simp [Allocated.of] at hx
    obtain ⟨⟨rfl, rfl⟩, rfl⟩ := hx
    exact .inr ⟨i, rfl, rfl, rfl, hi, hnew, hfits⟩

/-- Where the contents cannot be stored, the number is there all the same. -/
theorem sysCxBnAllocInit_cases (hctx : s.localBnCtx = true)
    (h : sysCxBnAllocInit ssl size bytes nbytes s = some ((error, bnX), s')) :
    error = .memoryFull ∧ s' = s ∧ cxMpiAlloc ssl size s = some (.of none, s) ∨
      ∃ i, SameUnit (s.fill i (sizeToMpiWordBytes s.mpiWordSize size)) s' ∧
        s.firstFree = some i ∧ ssl.bnNew i = true ∧
        sizeToMpiWordBytes s.mpiWordSize size + s.mpiTotalMemory ≤ maxMpiByteSize := by
  obtain ⟨⟨⟨error', bnX'⟩, u⟩, halloc, hinit⟩ := Option.bind_eq_some_iff.mp h
  obtain ⟨rfl, rfl, hnull⟩ | ⟨i, rfl, rfl, rfl, hi, hnew, hfits⟩ := sysCxBnAlloc_cases hctx halloc
  · obtain ⟨herror, rfl⟩ := Prod.mk.inj (Option.some.inj hinit)
    obtain ⟨rfl, -⟩ := Prod.mk.inj herror
    exact .inl ⟨rfl, rfl, hnull⟩
  · obtain ⟨⟨answer, v⟩, hwritten, hinit⟩ := Option.bind_eq_some_iff.mp hinit
    obtain ⟨-, rfl⟩ := Prod.mk.inj (Option.some.inj hinit)
    exact .inr ⟨i, (writes_writing hwritten).sameUnit, hi, hnew, hfits⟩

/-- There is a slot for a number of one word, and memory for it. -/
def RoomForWord (ssl : Openssl) (s : State) : Prop :=
  ∃ i ∈ s.firstFree, ssl.bnNew i = true ∧ s.mpiWordSize + s.mpiTotalMemory ≤ maxMpiByteSize

instance (ssl : Openssl) (s : State) : Decidable (RoomForWord ssl s) :=
  inferInstanceAs (Decidable (∃ _ ∈ _, _))

theorem rounded_cxGetBnSize (hword : s.mpiWordSize ≠ 0) :
    sizeToMpiWordBytes s.mpiWordSize (cxGetBnSize s) = s.mpiWordSize := by
  unfold cxGetBnSize
  by_cases hin : RoundsIn s.mpiWordSize s.mpiWordSize
  · rw [rounded_word hword hin, rounded_word hword hin]
  · rw [rounded_of_not_roundsIn hword hin]
    exact if_pos rfl

/-- `sys_cx_bn_mod_pow` makes a number of the exponent where there is room, and keeps it. -/
theorem sysCxBnModPow_cases (hw : WordSized s) (hctx : s.localBnCtx = true)
    (h : sysCxBnModPow ssl bnR bnA bytesE lenE bnN s = some (answer, s')) :
    ¬ RoomForWord ssl s ∧ s' = s ∨
      RoomForWord ssl s ∧ ∃ i, s.firstFree = some i ∧ SameUnit (s.fill i s.mpiWordSize) s' := by
  have hword := hw.mp hctx
  have hone := rounded_cxGetBnSize hword
  obtain ⟨⟨⟨error, bnE⟩, u⟩, hexponent, hpow⟩ := Option.bind_eq_some_iff.mp h
  obtain ⟨rfl, rfl, hnull⟩ | ⟨i, hsame, hi, hnew, hfits⟩ := sysCxBnAllocInit_cases hctx hexponent
  · obtain ⟨-, rfl⟩ := Prod.mk.inj (Option.some.inj hpow)
    refine .inl ⟨fun ⟨i, hi, hnew, hfits⟩ => ?_, rfl⟩
    rw [cxMpiAlloc_of_fits hi hnew hword (by rw [hone]; exact hfits)] at hnull
    simp [Allocated.of] at hnull
  · rw [hone] at hsame hfits
    refine .inr ⟨⟨i, hi, hnew, hfits⟩, i, hi, ?_⟩
    simp only at hpow
    split at hpow
    · obtain ⟨-, rfl⟩ := Prod.mk.inj (Option.some.inj hpow)
      exact hsame
    · exact hsame.trans ((writes_writing hpow).sameUnit)

-- ---------------------------------------------------------------------------
-- Every syscall
-- ---------------------------------------------------------------------------

theorem run_cases (h : run ssl stack fuel op s = some (answer, s')) :
    ¬ op.MakesExponent ∧ Writes s s' ∨
      ¬ op.MakesExponent ∧
        (∃ r a n error, cxMpiModInvertNprime ssl r a n s = some (error, s')) ∨
      op.MakesExponent ∧
        ∃ bnR bnA bytesE lenE bnN,
          sysCxBnModPow ssl bnR bnA bytesE lenE bnN s = some (answer, s') := by
  cases op
  all_goals simp only [run] at h
  case modPow bnR bnA bytesE lenE bnN | modPow2 bnR bnA bytesE lenE bnN =>
    exact .inr (.inr ⟨trivial, bnR, bnA, bytesE, lenE, bnN, h⟩)
  case modInvertNprime bnR bnA bnN =>
    rw [sysCxBnModInvertNprime] at h
    split at h
    · exact .inl ⟨id, writes_const h⟩
    · obtain ⟨⟨error, u⟩, hinvert, hu⟩ := Option.map_eq_some_iff.mp h
      obtain ⟨-, rfl⟩ := Prod.mk.inj hu
      exact .inr (.inl ⟨id, _, _, _, _, hinvert⟩)
  all_goals refine .inl ⟨id, ?_⟩
  case isLocked | isUnlocked => exact writes_const h
  case copy bnA bnB =>
    rw [sysCxBnCopy] at h
    split at h
    · exact writes_const h
    · exact writes_writing h
  case gf2NMul bnR bnA bnB bnN bnH =>
    rw [sysCxBnGf2NMul] at h
    split at h
    · exact writes_const h
    · exact writes_writing h
  case exportBytes | nbytes | getU32 | cmpU32 | cmp | tstBit | isOdd => exact writes_reading h
  case rng | and | nextPrime => exact writes_mayWrite h
  case cntBits | isPrime => exact writes_onMpis h
  -- the others write one number, and return
  all_goals exact writes_writing h

theorem reachable_cxMpiModInvertNprime (hs : Reachable s)
    (h : cxMpiModInvertNprime ssl r a n s = some (error, s')) : Reachable s' := by
  obtain ⟨⟨x, u⟩, halloc, hrest⟩ := Option.bind_eq_some_iff.mp h
  obtain ⟨rfl, rfl⟩ | ⟨i, hi, -, hword, -, rfl, rfl⟩ := cxMpiAlloc_cases halloc
  · obtain ⟨-, rfl⟩ := Prod.mk.inj (Option.some.inj hrest)
    exact hs.destroy _
  · obtain ⟨-, rfl⟩ := Prod.mk.inj (Option.some.inj hrest)
    exact ((hs.alloc halloc).values _).destroy _

theorem reachable_sysCxBnModPow (hs : Reachable s)
    (h : sysCxBnModPow ssl bnR bnA bytesE lenE bnN s = some (answer, s')) : Reachable s' := by
  obtain ⟨⟨⟨error, bnE⟩, u⟩, hexponent, hpow⟩ := Option.bind_eq_some_iff.mp h
  obtain ⟨⟨⟨error', bnX'⟩, v⟩, halloc, hinit⟩ := Option.bind_eq_some_iff.mp hexponent
  have hv : Reachable v := by
    rw [sysCxBnAlloc] at halloc
    split at halloc
    · exact (writes_const halloc).reachable hs
    · obtain ⟨⟨x, w⟩, hmpi, hx⟩ := Option.map_eq_some_iff.mp halloc
      obtain ⟨-, rfl⟩ := Prod.mk.inj hx
      exact hs.alloc hmpi
  have hu : Reachable u := by
    simp only at hinit
    split at hinit
    · exact (writes_const hinit).reachable hv
    · obtain ⟨⟨answer, w⟩, hwritten, hinit⟩ := Option.bind_eq_some_iff.mp hinit
      obtain ⟨-, rfl⟩ := Prod.mk.inj (Option.some.inj hinit)
      exact (writes_writing hwritten).reachable hv
  simp only at hpow
  split at hpow
  · exact (writes_const hpow).reachable hu
  · exact (writes_writing hpow).reachable hu

/-- A syscall does nothing to the table that the calls of the allocator cannot do. -/
theorem reachable_run (hs : Reachable s) (h : run ssl stack fuel op s = some (answer, s')) :
    Reachable s' := by
  obtain ⟨-, hwrites⟩ | ⟨-, r, a, n, error, hinvert⟩ | ⟨-, bnR, bnA, bytesE, lenE, bnN, hpow⟩ :=
    run_cases h
  · exact hwrites.reachable hs
  · exact reachable_cxMpiModInvertNprime hs hinvert
  · exact reachable_sysCxBnModPow hs hpow

theorem not_sameSlots_of_fill (hfree : (s.mpiArray i).live = false)
    (hsame : SameUnit (s.fill i size) s') : ¬ SameSlots s s' := by
  intro h
  have hlive := (h.live i).symm.trans (hsame.live i)
  rw [hfree, live_fill] at hlive
  exact Bool.false_ne_true hlive

/-- A syscall leaves the slots as they were exactly where it makes no number of an exponent. -/
theorem sameSlots_iff (hs : Reachable s) (hctx : s.localBnCtx = true)
    (h : run ssl stack fuel op s = some (answer, s')) :
    SameSlots s s' ↔ ¬ (op.MakesExponent ∧ RoomForWord ssl s) := by
  have hw := wordSized_of_reachable hs
  obtain ⟨hop, hwrites⟩ | ⟨hop, r, a, n, error, hinvert⟩ |
    ⟨hop, bnR, bnA, bytesE, lenE, bnN, hpow⟩ := run_cases h
  · exact iff_of_true hwrites.sameUnit.toSameSlots fun hboth => hop hboth.1
  · exact iff_of_true (sameUnit_cxMpiModInvertNprime hw hinvert).toSameSlots fun hboth =>
      hop hboth.1
  · obtain ⟨hfull, rfl⟩ | ⟨hroom, i, hi, hsame⟩ := sysCxBnModPow_cases hw hctx hpow
    · exact iff_of_true (SameUnit.refl s').toSameSlots fun hboth => hfull hboth.2
    · exact iff_of_false (not_sameSlots_of_fill (SlotTable.not_live_of_firstFree hi) hsame)
        fun hnot => hnot ⟨hop, hroom⟩

/-- The syscalls with a loop that the host ends, or that may go past an array. -/
def BnOp.MayNotReturn : BnOp → Prop
  | .rng _ _ | .nextPrime _ | .and _ _ _ | .cntBits _ => True
  | _ => False

theorem isSome_onMpis (hop : ∀ m, (op m).isSome) : (onMpis bns op s).isSome := by
  unfold onMpis
  split
  · rfl
  · rw [Option.isSome_map]
    exact hop _

theorem isSome_writing : (writing bns op s).isSome := isSome_onMpis fun _ => rfl

theorem isSome_reading : (reading bns op s).isSome := by
  refine isSome_onMpis fun m => ?_
  split <;> rfl

theorem isSome_bind {x : Option α} {f : α → Option β} (hx : x.isSome)
    (hf : ∀ a, (f a).isSome) : (x.bind f).isSome := by
  obtain ⟨a, rfl⟩ := Option.isSome_iff_exists.mp hx
  exact hf a

theorem isSome_sysCxBnAlloc (hw : WordSized s) : (sysCxBnAlloc ssl size s).isSome := by
  rw [sysCxBnAlloc]
  split
  · rfl
  · rename_i hlocked
    rw [Option.isSome_map]
    exact cxMpiAlloc_isSome (hw.mp (by simpa [cxBnLocked] using hlocked))

theorem isSome_sysCxBnModPow (hw : WordSized s) :
    (sysCxBnModPow ssl bnR bnA bytesE lenE bnN s).isSome := by
  have hinit : (sysCxBnAllocInit ssl (cxGetBnSize s) bytesE lenE s).isSome := by
    refine isSome_bind (isSome_sysCxBnAlloc hw) fun ⟨⟨error, bnX⟩, u⟩ => ?_
    simp only
    split
    · rfl
    · exact isSome_bind isSome_writing fun _ => rfl
  refine isSome_bind hinit fun ⟨⟨error, bnE⟩, u⟩ => ?_
  simp only
  split
  · rfl
  · exact isSome_writing

theorem isSome_sysCxBnModInvertNprime (hw : WordSized s) :
    (sysCxBnModInvertNprime ssl bnR bnA bnN s).isSome := by
  rw [sysCxBnModInvertNprime]
  split
  · rfl
  · rename_i hhandles
    have hctx : s.localBnCtx = true := by
      by_contra hno
      simp [cxBnsToMpi, cxBnLocked, hno] at hhandles
    rw [Option.isSome_map]
    exact isSome_bind (cxMpiAlloc_isSome (hw.mp hctx)) fun _ => rfl

theorem isSome_run (hs : Reachable s) (hop : ¬ op.MayNotReturn) :
    (run ssl stack fuel op s).isSome := by
  have hw := wordSized_of_reachable hs
  cases op
  all_goals simp only [run]
  case rng | nextPrime | and | cntBits => exact absurd trivial hop
  case isLocked | isUnlocked => rfl
  case modPow | modPow2 => exact isSome_sysCxBnModPow hw
  case modInvertNprime => exact isSome_sysCxBnModInvertNprime hw
  case copy bnA bnB =>
    rw [sysCxBnCopy]
    split
    · rfl
    · exact isSome_writing
  case gf2NMul bnR bnA bnB bnN bnH =>
    rw [sysCxBnGf2NMul]
    split
    · rfl
    · exact isSome_writing
  case exportBytes | nbytes | getU32 | cmpU32 | cmp | tstBit | isOdd => exact isSome_reading
  case isPrime => exact isSome_onMpis fun _ => rfl
  all_goals exact isSome_writing

-- ---------------------------------------------------------------------------
-- A power with room for its exponent
-- ---------------------------------------------------------------------------

theorem Reachable.fill (hs : Reachable s) {i : Slot} (hi : s.firstFree = some i)
    (hword : s.mpiWordSize ≠ 0) (hsize : sizeToMpiWordBytes s.mpiWordSize size = size)
    (hfits : size + s.mpiTotalMemory ≤ maxMpiByteSize) : Reachable (s.fill i size) := by
  have halloc : cxMpiAlloc .integers size s =
      some (.of (some i), s.fill i (sizeToMpiWordBytes s.mpiWordSize size)) :=
    cxMpiAlloc_of_fits hi rfl hword (hsize.symm ▸ hfits)
  rw [hsize] at halloc
  exact hs.alloc halloc

def lockedUnit : State := (cxMpiLock .integers 16 .initial).2

/-- A unit with one number, 3. -/
def oneNumber : State := (lockedUnit.fill 0 16).withValues fun _ => 3

theorem reachable_oneNumber : Reachable oneNumber := by
  have hlock : Reachable lockedUnit := Reachable.initial.lock .integers 16
  have halloc : cxMpiAlloc .integers 16 lockedUnit = some (.of (some 0), lockedUnit.fill 0 16) :=
    cxMpiAlloc_of_fits (by decide +kernel) rfl (by decide) (by decide)
  exact (hlock.alloc halloc).values _

theorem sameSlots_square :
    ∃ answer s', run .integers [] 0 (.mul 0 0 0) oneNumber = some (answer, s') ∧
      (SameSlots oneNumber s' ↔
        ¬ (BnOp.MakesExponent (.mul 0 0 0) ∧ RoomForWord .integers oneNumber)) := by
  obtain ⟨⟨answer, s'⟩, hrun⟩ := Option.isSome_iff_exists.mp
    (show (run .integers [] 0 (.mul 0 0 0) oneNumber).isSome from isSome_run reachable_oneNumber id)
  exact ⟨answer, s', hrun, sameSlots_iff reachable_oneNumber rfl hrun⟩

/-- `3 ^ 2 mod 3` -/
def power : BnOp := .modPow 0 0 [2] 1 0

theorem isSome_run_power : (run .integers [] 0 power oneNumber).isSome := by decide

theorem power_leaks :
    ¬ ∀ s ssl stack fuel op answer s', Reachable s → s.localBnCtx = true →
      run ssl stack fuel op s = some (answer, s') → SameSlots s s' := by
  intro hall
  have hsame := hall oneNumber .integers [] 0 power _ _ reachable_oneNumber rfl
    (Option.some_get isSome_run_power).symm
  have hlive := hsame.live 1
  exact absurd hlive (by decide)

end Speculos.Bn
