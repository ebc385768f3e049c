import Speculos.Bn.Allocator

/-!
# Bignum arithmetic

The functions of `cx_mpi.c` on numbers that are there. A pointer to a number is the slot
that it is of, so that the result of an operation may be one of its operands: what is read
behind a write is the number as it was written.
-/

namespace Speculos.Bn

open Lib

/-- The numbers of the slots. -/
abbrev Mpis := Slot → Int

def Mpis.set (m : Mpis) (r : Slot) (value : Int) : Mpis := Function.update m r value

/-- A function of OpenSSL that writes `r`, whose failure is an internal error. -/
def Mpis.write (m : Mpis) (r : Slot) (w : Written) : CxErr × Mpis :=
  (if w.ok then .ok else .internalError, m.set r w.value)

/-- An error where a function returns an `int`. -/
def CxErr.toInt (error : CxErr) : Int := error.code.toInt32.toInt

variable (ssl : Openssl) (wordSize : UInt32)

def cxMpiNbytes (x : Int) : UInt32 :=
  sizeToMpiWordBytes wordSize (sizeToMpiBytes (ssl.numBytes x))

/-- Whether the bytes of a number overrun the arrays of `MAX_MPI_BYTE_SIZE` bytes. -/
def tooLong (x : Int) : Bool := maxMpiByteSize < cxMpiNbytes ssl wordSize x

-- ---------------------------------------------------------------------------
-- Bytes
-- ---------------------------------------------------------------------------

def cxMpiInit (x : Slot) (bytes : Bytes) (nbytes : UInt32) (m : Mpis) : CxErr × Mpis :=
  m.write x (ssl.bin2bn (bytes.take nbytes.toNat))

/-- `cx_mpi_export`: the bytes at `dst_ptr`, which are not written on an error. -/
def cxMpiExport (src : Int) (dstLen : UInt32) : Except CxErr Bytes :=
  let srcLen := cxMpiNbytes ssl wordSize src
  if tooLong ssl wordSize src then .error .invalidParameter
  else
    match ssl.bn2binpad src srcLen with
    | none => .error .internalError
    | some srcPtr =>
      if srcLen ≥ dstLen then .ok ((srcPtr.drop (srcLen - dstLen).toNat).take dstLen.toNat)
      else .ok (List.replicate (dstLen - srcLen).toNat 0 ++ srcPtr)

def cxMpiCopy (dst src : Slot) (m : Mpis) : CxErr × Mpis :=
  if dst = src then (.ok, m)
  else if tooLong ssl wordSize (m src) then (.invalidParameter, m)
  else
    match cxMpiExport ssl wordSize (m src) (cxMpiNbytes ssl wordSize (m src)) with
    | .error error => (error, m)
    | .ok bytes => m.write dst (ssl.bin2bn bytes)

def cxMpiSetU32 (x : Slot) (n : UInt32) (m : Mpis) : Mpis :=
  m.set x (ssl.bin2bn (toBE 4 n.toNat)).value

def lastBytes (bytes : Bytes) : UInt32 := UInt32.ofNat (fromBE (bytes.drop (bytes.length - 4)))

def cxMpiGetU32 (x : Int) : UInt32 :=
  if maxMpiByteSize < ssl.numBytes x then CxErr.invalidParameter.code
  else lastBytes (ssl.bn2bin x)

-- ---------------------------------------------------------------------------
-- Comparisons
-- ---------------------------------------------------------------------------

def cxMpiCmpU32 (a : Int) (b : UInt32) : Int :=
  if maxMpiByteSize < ssl.numBytes a then CxErr.invalidParameter.toInt
  else
    let bytes := ssl.bn2bin a
    -- only the last 4 bytes should contain something
    if (bytes.take (bytes.length - 4)).any (· ≠ 0) then 1
    else if lastBytes bytes < b then -1
    else if lastBytes bytes = b then 0
    else 1

/-- `memcmp`: the difference of the first bytes that are not the same. -/
def memcmp : Bytes → Bytes → Int
  | a :: as, b :: bs => if a = b then memcmp as bs else a.toNat - b.toNat
  | _, _ => 0

def cxMpiCmp (a b : Int) : Int :=
  let aLen := cxMpiNbytes ssl wordSize a
  let bLen := cxMpiNbytes ssl wordSize b
  if tooLong ssl wordSize a || tooLong ssl wordSize b then CxErr.invalidParameter.toInt
  else if aLen = bLen then
    match ssl.bn2binpad a aLen, ssl.bn2binpad b bLen with
    | some aPtr, some bPtr => memcmp aPtr bPtr
    | _, _ => -1
  else -1

-- ---------------------------------------------------------------------------
-- Bits
-- ---------------------------------------------------------------------------

def cxMpiTstBit (x : Int) (pos : UInt32) : Except CxErr Bool :=
  if pos > cxMpiNbytes ssl wordSize x * 8 - 1 then .error .invalidParameter
  else .ok (ssl.isBitSet x pos)

def cxMpiSetBit (x : Slot) (pos : UInt32) (m : Mpis) : CxErr × Mpis :=
  if pos > cxMpiNbytes ssl wordSize (m x) * 8 - 1 then (.invalidParameter, m)
  else m.write x (ssl.setBit (m x) pos)

def cxMpiClrBit (x : Slot) (pos : UInt32) (m : Mpis) : CxErr × Mpis :=
  m.write x (ssl.clearBit (m x) pos)

/-- The bits of a byte that is not 0, by `while ((b & 0x80) == 0)`. -/
def skipZeroBits (b : UInt8) : Nat → UInt32 → UInt32
  | 0, len => len
  | n + 1, len => if b &&& 0x80 = 0 then skipZeroBits (b <<< 1) n (len - 1) else len

/-- The loop over the leading zeros, which does not look at `len` before it has gone past
a byte. There is no result where it leaves the array. -/
def skipZeroBytes : Bytes → UInt32 → Option (Bytes × UInt32)
  | [], _ => none
  | b :: rest, len =>
    if b ≠ 0 then some (b :: rest, len)
    else if len - 1 = 0 then some (rest, 0)
    else skipZeroBytes rest (len - 1)

/-- `cx_mpi_cnt_bits`, where `stack` is what the array holds behind the bytes of the number. -/
def cxMpiCntBits (stack : Bytes) (x : Int) : Option UInt32 :=
  if maxMpiByteSize < ssl.numBytes x then some CxErr.invalidParameter.code
  else do
    let bytes := ssl.bn2bin x
    let (p, len) ← skipZeroBytes (bytes ++ stack.drop bytes.length) (UInt32.ofNat bytes.length)
    if len = 0 then return 0
    return skipZeroBits (p.headD 0) 7 (len * 8)

def cxMpiShr (x : Slot) (n : UInt32) (m : Mpis) : CxErr × Mpis :=
  if n > cxMpiNbytes ssl wordSize (m x) * 8 then (.invalidParameter, m)
  else m.write x (ssl.rshift (m x) n)

/-- `cx_mpi_shl`, which does not extend the number. -/
def cxMpiShl (x : Slot) (n : UInt32) (m : Mpis) : CxErr × Mpis :=
  let numBytes := cxMpiNbytes ssl wordSize (m x)
  if n > numBytes * 8 then (.invalidParameter, m)
  else
    let shifted := ssl.lshift (m x) n
    let m := m.set x shifted.value
    if ¬ shifted.ok then (.internalError, m)
    else if tooLong ssl wordSize (m x) then (.invalidParameter, m)
    else
      let bytes := ssl.bn2bin (m x)
      if cxMpiNbytes ssl wordSize (m x) > numBytes ∧ UInt32.ofNat bytes.length > numBytes then
        m.write x (ssl.bin2bn (bytes.drop (bytes.length - numBytes.toNat)))
      else (.ok, m)

/-- The bytes of two numbers combined from the end, and the first ones of the longer number. -/
def combine (op : UInt8 → UInt8 → UInt8) (lead : UInt8 → UInt8) (a b : Bytes) : Bytes :=
  if a.length ≥ b.length then
    (a.take (a.length - b.length)).map lead ++ List.zipWith op (a.drop (a.length - b.length)) b
  else
    (b.take (b.length - a.length)).map lead ++ List.zipWith op (b.drop (b.length - a.length)) a

/-- `cx_mpi_xor` and `cx_mpi_or`. -/
def bitwise (op : UInt8 → UInt8 → UInt8) (r a b : Slot) (m : Mpis) : CxErr × Mpis :=
  if tooLong ssl wordSize (m a) then (.invalidParameter, m)
  else
    match ssl.bn2binpad (m a) (cxMpiNbytes ssl wordSize (m a)) with
    | none => (.memoryFull, m)
    | some aPtr =>
      if tooLong ssl wordSize (m b) then (.invalidParameter, m)
      else
        match ssl.bn2binpad (m b) (cxMpiNbytes ssl wordSize (m b)) with
        | none => (.memoryFull, m)
        | some bPtr => m.write r (ssl.bin2bn (combine op id aPtr bPtr))

def cxMpiXor (r a b : Slot) (m : Mpis) : CxErr × Mpis := bitwise ssl wordSize (· ^^^ ·) r a b m

def cxMpiOr (r a b : Slot) (m : Mpis) : CxErr × Mpis := bitwise ssl wordSize (· ||| ·) r a b m

/-- `cx_mpi_and`, which does not compare the lengths with the size of its arrays: there is no
result where a number overruns them. -/
def cxMpiAnd (r a b : Slot) (m : Mpis) : Option (CxErr × Mpis) :=
  if tooLong ssl wordSize (m a) then none
  else
    match ssl.bn2binpad (m a) (cxMpiNbytes ssl wordSize (m a)) with
    | none => some (.memoryFull, m)
    | some aPtr =>
      if tooLong ssl wordSize (m b) then none
      else
        match ssl.bn2binpad (m b) (cxMpiNbytes ssl wordSize (m b)) with
        | none => some (.memoryFull, m)
        | some bPtr => some (m.write r (ssl.bin2bn (combine (· &&& ·) (fun _ => 0) aPtr bPtr)))

-- ---------------------------------------------------------------------------
-- Arithmetic
-- ---------------------------------------------------------------------------

def maxNbytes (a b : Int) : UInt32 :=
  if cxMpiNbytes ssl wordSize a < cxMpiNbytes ssl wordSize b then cxMpiNbytes ssl wordSize b
  else cxMpiNbytes ssl wordSize a

def cxMpiAdd (r a b : Slot) (m : Mpis) : CxErr × Mpis :=
  let sum := ssl.add (m a) (m b)
  let m := m.set r sum.value
  if ¬ sum.ok then (.internalError, m)
  else
    -- `a` and `b` behind the addition, which may have written one of them
    let len := maxNbytes ssl wordSize (m a) (m b)
    if ssl.numBytes (m r) > len then
      let masked := ssl.maskBits (m r) (8 * len)
      (if masked.ok then .carry else .internalError, m.set r masked.value)
    else (.ok, m)

def cxMpiInc (a : Slot) (m : Mpis) : CxErr × Mpis := m.write a (ssl.addWord (m a) 1)

def cxMpiDec (a : Slot) (m : Mpis) : CxErr × Mpis := m.write a (ssl.subWord (m a) 1)

def cxMpiNot (a : Slot) (m : Mpis) : CxErr × Mpis :=
  if tooLong ssl wordSize (m a) then (.invalidParameter, m)
  else
    match ssl.bn2binpad (m a) (cxMpiNbytes ssl wordSize (m a)) with
    | none => (.internalError, m)
    | some aPtr => m.write a (ssl.bin2bn (aPtr.map (~~~ ·)))

def cxMpiNeg (a : Slot) (m : Mpis) : CxErr × Mpis :=
  let (error, m) := cxMpiNot ssl wordSize a m
  if error ≠ .ok then (error, m) else cxMpiInc ssl a m

/-- What `cx_mpi_sub` does with a negative difference. -/
def subBorrow (r a b : Slot) (m : Mpis) : CxErr × Mpis :=
  let m := m.set r (ssl.setNegative (m r) false)
  let len := maxNbytes ssl wordSize (m a) (m b)
  let masked :=
    if ssl.numBytes (m r) > len then m.write r (ssl.maskBits (m r) (8 * len)) else (.ok, m)
  if masked.1 ≠ .ok then (.internalError, masked.2)
  else
    let (error, m) := cxMpiNeg ssl wordSize r masked.2
    (if error = .ok then .carry else error, m)

def cxMpiSub (r a b : Slot) (m : Mpis) : CxErr × Mpis :=
  let difference := ssl.sub (m a) (m b)
  let m := m.set r difference.value
  if ¬ difference.ok then (.internalError, m)
  else if ssl.isNegative (m r) then subBorrow ssl wordSize r a b m
  else (.ok, m)

def cxMpiMul (r a b : Slot) (m : Mpis) : CxErr × Mpis := m.write r (ssl.mul (m a) (m b))

def cxMpiRem (r d n : Slot) (m : Mpis) : CxErr × Mpis := m.write r (ssl.rem (m d) (m n))

def cxMpiRand (x : Slot) (m : Mpis) : CxErr × Mpis :=
  m.write x (ssl.rand (cxMpiNbytes ssl wordSize (m x) * 8))

/-- The loop of `cx_mpi_rng`, as far as `fuel` calls of `BN_rand_range` go. -/
def rngLoop (r : Slot) (n : Int) (m : Mpis) : Nat → Option (CxErr × Mpis)
  | 0 => none
  | fuel + 1 =>
    let drawn := ssl.randRange fuel n
    let m := m.set r drawn.value
    if ¬ drawn.ok then some (.internalError, m)
    else if ssl.isZero (m r) then rngLoop r n m fuel
    else some (.ok, m)

def cxMpiRng (fuel : Nat) (r n : Slot) (m : Mpis) : Option (CxErr × Mpis) :=
  if ssl.isOne (m n) || ssl.isZero (m n) then some (.invalidParameter, m)
  else rngLoop ssl r (m n) m fuel

-- ---------------------------------------------------------------------------
-- Modular arithmetic
-- ---------------------------------------------------------------------------

def cxMpiModU32Invert (r : Slot) (e : UInt32) (n : Slot) (m : Mpis) : CxErr × Mpis :=
  let m := cxMpiSetU32 ssl r e m
  m.write r (ssl.modInverse (m r) (m n))

def cxMpiModAdd (r a b n : Slot) (m : Mpis) : CxErr × Mpis :=
  m.write r (ssl.modAdd (m a) (m b) (m n))

def cxMpiModSub (r a b n : Slot) (m : Mpis) : CxErr × Mpis :=
  m.write r (ssl.modSub (m a) (m b) (m n))

def cxMpiModMul (r a b n : Slot) (m : Mpis) : CxErr × Mpis :=
  if ¬ ssl.isOdd (m n) then (.invalidParameterValue, m)
  else m.write r (ssl.modMul (m a) (m b) (m n))

/-- `cx_mpi_mod_sqrt`. There always is a bit 0, so that `set` is read. -/
def cxMpiModSqrt (r a n : Slot) (sign : UInt32) (m : Mpis) : CxErr × Mpis :=
  let root := ssl.modSqrt (m a) (m n)
  let m := m.set r root.value
  if ¬ root.ok then (.internalError, m)
  else if ssl.isBitSet (m r) 0 ≠ decide (sign ≠ 0) then m.write r (ssl.sub (m n) (m r))
  else (.ok, m)

def cxMpiModPow (r a e n : Slot) (m : Mpis) : CxErr × Mpis :=
  -- N must be odd
  if ¬ ssl.isOdd (m n) then (.invalidParameter, m)
  else m.write r (ssl.modExp (m a) (m e) (m n))

def cxMpiGf2NMul (r a b n : Slot) (m : Mpis) : CxErr × Mpis :=
  m.write r (ssl.gf2mModMul (m a) (m b) (m n))

-- ---------------------------------------------------------------------------
-- Primes
-- ---------------------------------------------------------------------------

/-- `cx_mpi_is_prime`: the error, and `*prime`. -/
def cxMpiIsPrime (x : Int) : CxErr × Bool :=
  if ssl.isPrimeEx x = 1 then (.ok, true)
  else if ssl.isPrimeEx x < 0 then (.internalError, false)
  else (.ok, false)

/-- The loop of `cx_mpi_next_prime`, as far as `fuel` steps go. -/
def nextPrimeLoop (x : Slot) (xSize : UInt32) (m : Mpis) : Nat → Option (CxErr × Mpis)
  | 0 => none
  | fuel + 1 =>
    let next := ssl.addWord (m x) 2
    let m := m.set x next.value
    if ¬ next.ok ∨ cxMpiNbytes ssl wordSize (m x) > xSize ∨ ssl.isPrimeEx (m x) < 0 then
      some (if cxMpiNbytes ssl wordSize (m x) > xSize then .overflow else .internalError, m)
    else if ssl.isPrimeEx (m x) = 0 then nextPrimeLoop x xSize m fuel
    else some (.ok, m)

def cxMpiNextPrime (fuel : Nat) (x : Slot) (m : Mpis) : Option (CxErr × Mpis) :=
  -- 2 is added each time, so be sure x is odd
  let odd := if ssl.isOdd (m x) then (.ok, m) else m.write x (ssl.addWord (m x) 1)
  if odd.1 ≠ .ok then some (.internalError, odd.2)
  else nextPrimeLoop ssl wordSize x (cxMpiNbytes ssl wordSize (odd.2 x)) odd.2 fuel

end Speculos.Bn
