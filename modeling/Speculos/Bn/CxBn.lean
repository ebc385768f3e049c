import Speculos.Bn.CxMpi

/-!
# Bignum syscalls

`cx_bn.c`. A syscall finds the numbers of its handles and leaves the rest to `cx_mpi.c`. A
syscall that allocates is one with its own effect on the table; all others write numbers that
are there.
-/

namespace Speculos.Bn

open Lib

-- ---------------------------------------------------------------------------
-- Handles
-- ---------------------------------------------------------------------------

def slotOf (bn : UInt32) : Slot := Fin.ofNat 64 bn.toNat

theorem slotOf_handle (i : Slot) : slotOf (handle (some i)) = i := by
  rw [slotOf, handle_some_toNat]
  exact Fin.ofNat_val_eq_self i

def cxBnLocked (s : State) : CxErr := if s.localBnCtx then .ok else .notLocked

/-- `cx_bn_to_mpi`, `cx_bn_ab_to_mpi`, `cx_bn_rab_to_mpi` and `cx_bn_rabm_to_mpi`. -/
def cxBnsToMpi (bns : List UInt32) (s : State) : CxErr :=
  if cxBnLocked s ≠ .ok then cxBnLocked s
  else if bns.all (· < 64) then
    if bns.all fun bn => (s.mpiArray (slotOf bn)).live then .ok else .memoryFull
  else if bns.any (· = 0xFFFFFFFF) then .memoryFull
  else .invalidParameter

def State.values (s : State) : Mpis := fun i => (s.mpiArray i).mpi.getD 0

def State.withValues (s : State) (m : Mpis) : State :=
  { s with mpiArray := fun i => { s.mpiArray i with mpi := (s.mpiArray i).mpi.map fun _ => m i } }

-- ---------------------------------------------------------------------------
-- Answers
-- ---------------------------------------------------------------------------

/-- What a syscall writes to the memory of the application. -/
inductive Output
  | none
  | flag (b : Bool)
  | number (n : Int)
  | bytes (bs : Bytes)
  deriving DecidableEq, Repr

structure Answer where
  error : CxErr
  output : Output
  deriving DecidableEq, Repr

def Answer.of (error : CxErr) : Answer := ⟨error, .none⟩

def onMpis (bns : List UInt32) (op : Mpis → Option (Answer × Mpis)) (s : State) :
    Option (Answer × State) :=
  if cxBnsToMpi bns s ≠ .ok then some (.of (cxBnsToMpi bns s), s)
  else (op s.values).map fun (answer, m) => (answer, s.withValues m)

def writing (bns : List UInt32) (op : Mpis → CxErr × Mpis) : State → Option (Answer × State) :=
  onMpis bns fun m => some (.of (op m).1, (op m).2)

/-- A syscall that writes numbers, and may not return. -/
def mayWrite (bns : List UInt32) (op : Mpis → Option (CxErr × Mpis)) :
    State → Option (Answer × State) :=
  onMpis bns fun m => (op m).map fun (error, m) => (.of error, m)

def reading (bns : List UInt32) (op : Mpis → Except CxErr Output) :
    State → Option (Answer × State) :=
  onMpis bns fun m =>
    match op m with
    | .error error => some (.of error, m)
    | .ok output => some (⟨.ok, output⟩, m)

-- ---------------------------------------------------------------------------
-- Locks and allocations
-- ---------------------------------------------------------------------------

def sysCxBnIsLocked (s : State) : Option (Answer × State) :=
  some (⟨.ok, .flag s.localBnCtx⟩, s)

def sysCxBnIsUnlocked (s : State) : Option (Answer × State) :=
  some (⟨.ok, .flag !s.localBnCtx⟩, s)

variable (ssl : Openssl)

def sysCxBnLock (wordSize : UInt32) (s : State) : CxErr × State :=
  if s.localBnCtx then (.notUnlocked, s) else cxMpiLock ssl wordSize s

def sysCxBnUnlock (s : State) : CxErr × State :=
  if cxBnLocked s ≠ .ok then (cxBnLocked s, s) else cxMpiUnlock s

/-- `sys_cx_bn_alloc`: the error, and the handle where it is written. -/
def sysCxBnAlloc (size : UInt32) (s : State) : Option ((CxErr × Option UInt32) × State) :=
  if cxBnLocked s ≠ .ok then some ((cxBnLocked s, none), s)
  else
    (cxMpiAlloc ssl size s).map fun (x, s) =>
      ((if x.x.isSome then .ok else .memoryFull, some x.bnX), s)

def sysCxBnDestroy (bnX : Option UInt32) (s : State) : CxErr × State := cxMpiDestroy bnX s

def sysCxBnInit (bnX : UInt32) (bytes : Bytes) (nbytes : UInt32) (s : State) :
    Option (Answer × State) :=
  writing [bnX] (cxMpiInit ssl (slotOf bnX) bytes nbytes) s

/-- `sys_cx_bn_alloc_init`, which keeps the number where its contents cannot be stored. -/
def sysCxBnAllocInit (size : UInt32) (bytes : Bytes) (nbytes : UInt32) (s : State) :
    Option ((CxErr × Option UInt32) × State) := do
  let ((error, bnX), s) ← sysCxBnAlloc ssl size s
  if error ≠ .ok then return ((error, bnX), s)
  let (answer, s) ← sysCxBnInit ssl (bnX.getD 0xFFFFFFFF) bytes nbytes s
  return ((answer.error, bnX), s)

-- ---------------------------------------------------------------------------
-- Operations
-- ---------------------------------------------------------------------------

def sysCxBnExport (bnX nbytes : UInt32) (s : State) : Option (Answer × State) :=
  reading [bnX] (fun m => (cxMpiExport ssl s.mpiWordSize (m (slotOf bnX)) nbytes).map .bytes) s

def sysCxBnCopy (bnA bnB : UInt32) (s : State) : Option (Answer × State) :=
  if bnA = bnB then some (.of .ok, s)
  else writing [bnA, bnB] (cxMpiCopy ssl s.mpiWordSize (slotOf bnA) (slotOf bnB)) s

/-- `sys_cx_bn_nbytes`, where the pointer may be null. -/
def sysCxBnNbytes (bnX : UInt32) (isNull : Bool) (s : State) : Option (Answer × State) :=
  reading [bnX] (fun m =>
    if isNull then .error .invalidParameter
    else .ok (.number (cxMpiNbytes ssl s.mpiWordSize (m (slotOf bnX))).toNat)) s

def sysCxBnSetU32 (bnX n : UInt32) : State → Option (Answer × State) :=
  writing [bnX] fun m => (.ok, cxMpiSetU32 ssl (slotOf bnX) n m)

def sysCxBnGetU32 (bnX : UInt32) : State → Option (Answer × State) :=
  reading [bnX] fun m => .ok (.number (cxMpiGetU32 ssl (m (slotOf bnX))).toNat)

def sysCxBnCmpU32 (bnA b : UInt32) : State → Option (Answer × State) :=
  reading [bnA] fun m => .ok (.number (cxMpiCmpU32 ssl (m (slotOf bnA)) b))

def sysCxBnCmp (bnA bnB : UInt32) (s : State) : Option (Answer × State) :=
  reading [bnA, bnB]
    (fun m => .ok (.number (cxMpiCmp ssl s.mpiWordSize (m (slotOf bnA)) (m (slotOf bnB))))) s

def sysCxBnRand (bnX : UInt32) (s : State) : Option (Answer × State) :=
  writing [bnX] (cxMpiRand ssl s.mpiWordSize (slotOf bnX)) s

def sysCxBnRng (fuel : Nat) (bnR bnN : UInt32) : State → Option (Answer × State) :=
  mayWrite [bnR, bnN] (cxMpiRng ssl fuel (slotOf bnR) (slotOf bnN))

def sysCxBnTstBit (bnX pos : UInt32) (s : State) : Option (Answer × State) :=
  reading [bnX] (fun m => (cxMpiTstBit ssl s.mpiWordSize (m (slotOf bnX)) pos).map .flag) s

def sysCxBnSetBit (bnX pos : UInt32) (s : State) : Option (Answer × State) :=
  writing [bnX] (cxMpiSetBit ssl s.mpiWordSize (slotOf bnX) pos) s

def sysCxBnClrBit (bnX pos : UInt32) : State → Option (Answer × State) :=
  writing [bnX] (cxMpiClrBit ssl (slotOf bnX) pos)

def sysCxBnCntBits (stack : Bytes) (bnX : UInt32) : State → Option (Answer × State) :=
  onMpis [bnX] fun m =>
    (cxMpiCntBits ssl stack (m (slotOf bnX))).map fun nbits => (⟨.ok, .number nbits.toNat⟩, m)

def sysCxBnShr (bnR n : UInt32) (s : State) : Option (Answer × State) :=
  writing [bnR] (cxMpiShr ssl s.mpiWordSize (slotOf bnR) n) s

def sysCxBnShl (bnR n : UInt32) (s : State) : Option (Answer × State) :=
  writing [bnR] (cxMpiShl ssl s.mpiWordSize (slotOf bnR) n) s

def sysCxBnXor (bnR bnA bnB : UInt32) (s : State) : Option (Answer × State) :=
  writing [bnR, bnA, bnB] (cxMpiXor ssl s.mpiWordSize (slotOf bnR) (slotOf bnA) (slotOf bnB)) s

def sysCxBnOr (bnR bnA bnB : UInt32) (s : State) : Option (Answer × State) :=
  writing [bnR, bnA, bnB] (cxMpiOr ssl s.mpiWordSize (slotOf bnR) (slotOf bnA) (slotOf bnB)) s

def sysCxBnAnd (bnR bnA bnB : UInt32) (s : State) : Option (Answer × State) :=
  mayWrite [bnR, bnA, bnB] (cxMpiAnd ssl s.mpiWordSize (slotOf bnR) (slotOf bnA) (slotOf bnB)) s

def sysCxBnAdd (bnR bnA bnB : UInt32) (s : State) : Option (Answer × State) :=
  writing [bnR, bnA, bnB] (cxMpiAdd ssl s.mpiWordSize (slotOf bnR) (slotOf bnA) (slotOf bnB)) s

def sysCxBnSub (bnR bnA bnB : UInt32) (s : State) : Option (Answer × State) :=
  writing [bnR, bnA, bnB] (cxMpiSub ssl s.mpiWordSize (slotOf bnR) (slotOf bnA) (slotOf bnB)) s

def sysCxBnMul (bnR bnA bnB : UInt32) : State → Option (Answer × State) :=
  writing [bnR, bnA, bnB] (cxMpiMul ssl (slotOf bnR) (slotOf bnA) (slotOf bnB))

def sysCxBnModAdd (bnR bnA bnB bnM : UInt32) : State → Option (Answer × State) :=
  writing [bnR, bnA, bnB, bnM]
    (cxMpiModAdd ssl (slotOf bnR) (slotOf bnA) (slotOf bnB) (slotOf bnM))

def sysCxBnModSub (bnR bnA bnB bnM : UInt32) : State → Option (Answer × State) :=
  writing [bnR, bnA, bnB, bnM]
    (cxMpiModSub ssl (slotOf bnR) (slotOf bnA) (slotOf bnB) (slotOf bnM))

def sysCxBnModMul (bnR bnA bnB bnM : UInt32) : State → Option (Answer × State) :=
  writing [bnR, bnA, bnB, bnM]
    (cxMpiModMul ssl (slotOf bnR) (slotOf bnA) (slotOf bnB) (slotOf bnM))

def sysCxBnReduce (bnR bnD bnN : UInt32) : State → Option (Answer × State) :=
  writing [bnR, bnD, bnN] (cxMpiRem ssl (slotOf bnR) (slotOf bnD) (slotOf bnN))

def sysCxBnModSqrt (bnR bnA bnN sign : UInt32) : State → Option (Answer × State) :=
  writing [bnR, bnA, bnN] (cxMpiModSqrt ssl (slotOf bnR) (slotOf bnA) (slotOf bnN) sign)

def sysCxBnIsOdd (bnA : UInt32) : State → Option (Answer × State) :=
  reading [bnA] fun m => .ok (.flag (ssl.isOdd (m (slotOf bnA))))

def sysCxBnModU32Invert (bnR e bnN : UInt32) : State → Option (Answer × State) :=
  writing [bnR, bnN] (cxMpiModU32Invert ssl (slotOf bnR) e (slotOf bnN))

def sysCxBnModPowBn (bnR bnA bnE bnN : UInt32) : State → Option (Answer × State) :=
  writing [bnR, bnA, bnE, bnN]
    (cxMpiModPow ssl (slotOf bnR) (slotOf bnA) (slotOf bnE) (slotOf bnN))

def cxGetBnSize (s : State) : UInt32 := sizeToMpiWordBytes s.mpiWordSize s.mpiWordSize

/-- `sys_cx_bn_mod_pow`: the exponent is a number of its own. -/
def sysCxBnModPow (bnR bnA : UInt32) (bytesE : Bytes) (lenE bnN : UInt32) (s : State) :
    Option (Answer × State) := do
  let ((error, bnE), s) ← sysCxBnAllocInit ssl (cxGetBnSize s) bytesE lenE s
  if error ≠ .ok then return (.of error, s)
  sysCxBnModPowBn ssl bnR bnA (bnE.getD 0xFFFFFFFF) bnN s

def sysCxBnModPow2 (bnR bnA : UInt32) (bytesE : Bytes) (lenE bnN : UInt32) :
    State → Option (Answer × State) :=
  sysCxBnModPow ssl bnR bnA bytesE lenE bnN

/-- What `cx_mpi_mod_invert_nprime` does with the number `p` it got. -/
def powNMinus2 (r a n p : Slot) (m : Mpis) : CxErr × Mpis :=
  let copied := ssl.copy (m n)
  let m := m.set p copied.value
  if ¬ copied.ok then (.internalError, m)
  else
    let lowered := ssl.subWord (m p) 2
    let m := m.set p lowered.value
    if ¬ lowered.ok then (.internalError, m)
    else m.write r (ssl.modExp (m a) (m p) (m n))

/-- `cx_mpi_mod_invert_nprime`, with `n - 2` in a number of its own. -/
def cxMpiModInvertNprime (r a n : Slot) (s : State) : Option (CxErr × State) := do
  let (p, s) ← cxMpiAlloc ssl (cxMpiNbytes ssl s.mpiWordSize (s.values n)) s
  let (error, s) := match p.x with
    | none => (.memoryFull, s)
    | some p =>
      let (error, m) := powNMinus2 ssl r a n p s.values
      (error, s.withValues m)
  return (error, (cxMpiDestroy (some p.bnX) s).2)

def sysCxBnModInvertNprime (bnR bnA bnN : UInt32) (s : State) : Option (Answer × State) :=
  if cxBnsToMpi [bnR, bnA, bnN] s ≠ .ok then some (.of (cxBnsToMpi [bnR, bnA, bnN] s), s)
  else
    (cxMpiModInvertNprime ssl (slotOf bnR) (slotOf bnA) (slotOf bnN) s).map fun (error, s) =>
      (.of error, s)

def sysCxBnIsPrime (bnX : UInt32) : State → Option (Answer × State) :=
  onMpis [bnX] fun m =>
    let (error, prime) := cxMpiIsPrime ssl (m (slotOf bnX))
    some (⟨error, .flag prime⟩, m)

def sysCxBnNextPrime (fuel : Nat) (bnX : UInt32) (s : State) : Option (Answer × State) :=
  mayWrite [bnX] (cxMpiNextPrime ssl s.mpiWordSize fuel (slotOf bnX)) s

/-- `sys_cx_bn_gf2_n_mul`, which has five handles and finds their numbers in two steps. -/
def sysCxBnGf2NMul (bnR bnA bnB bnN bnH : UInt32) (s : State) : Option (Answer × State) :=
  if cxBnsToMpi [bnR, bnA, bnB] s ≠ .ok then some (.of (cxBnsToMpi [bnR, bnA, bnB] s), s)
  else
    writing [bnN, bnH] (cxMpiGf2NMul ssl (slotOf bnR) (slotOf bnA) (slotOf bnB) (slotOf bnN)) s

end Speculos.Bn
