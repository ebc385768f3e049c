import Speculos.Lib.Octets
import Speculos.Lib.RunLength

/-!
# Compression of glyphs

`RLECustom` of `rle_custom.py` with the two codecs it uses, `RLECustom3` for
pixels of 4 bits and `RLECustomA` for pixels of 1 bit, over the passes of
`RLECustomBase`. Python's integers are naturals and `bytes([n])` raises where
`n` is no byte. A codec is a record of what its subclass overrides; `verbose`,
which only writes to the standard output, is left out.
-/

namespace Speculos.Rle

open Lib

inductive RleError
  | valueError (message : String)
  | systemExit (code : Nat)
  deriving DecidableEq, Repr

/-- Tuples of a repeat count and a value. -/
abbrev Pairs := List (Nat × Nat)

/-- `bytes([n])`. -/
def toByte (n : Nat) : Except RleError UInt8 :=
  if n < 256 then .ok (UInt8.ofNat n)
  else .error (.valueError "bytes must be in range(0, 256)")

structure RLECustomBase where
  bpp : Nat
  encodePass2 : Pairs → Except RleError Bytes
  decodePass2 : Bytes → Pairs

namespace RLECustomBase

/-- From the last pair on, a pair is merged into the one before it. -/
def removeDuplicates : Pairs → Pairs
  | [] => []
  | pair :: pairs =>
    match removeDuplicates pairs with
    | [] => [pair]
    | next :: merged =>
      if pair.2 = next.2 then (pair.1 + next.1, pair.2) :: merged else pair :: next :: merged

def bpp4ToValues (data : Bytes) : List Nat :=
  data.flatMap fun byte => [(byte.toNat >>> 4) &&& 0x0F, byte.toNat &&& 0x0F]

def valuesToBpp4 : List Nat → Except RleError Bytes
  | [] => return []
  | [value] => return [← toByte ((value &&& 0x0F) <<< 4)] -- store it in the MSB
  | value :: value' :: rest =>
    return (← toByte (((value &&& 0x0F) <<< 4) ||| (value' &&& 0x0F))) :: (← valuesToBpp4 rest)

def bpp1ToValues (data : Bytes) : Except RleError (List Nat) :=
  let output := data.flatMap fun byte =>
    [7, 6, 5, 4, 3, 2, 1, 0].map fun shift => (byte.toNat >>> shift) &&& 1
  if output.length ≠ data.length * 8 then
    throw (.valueError "Output length does not match expected length")
  else return output

/-- The loop of `values_to_bpp1`. The next pixel goes to bit `bits` of `byte`. -/
def packPixels (bits byte : Nat) : List Nat → Except RleError Bytes
  | [] => if bits ≠ 7 then return [← toByte byte] else return []
  | value :: rest =>
    let byte := byte ||| ((value &&& 1) <<< bits)
    if bits = 0 then return (← toByte byte) :: (← packPixels 7 0 rest)
    else packPixels (bits - 1) byte rest

def valuesToBpp1 (data : List Nat) : Except RleError Bytes := do
  let output ← packPixels 7 0 data
  if output.length ≠ (data.length + 7) / 8 then
    throw (.valueError "Output length does not match expected length")
  else return output

/-- The loop of `encode_pass1`, with the run that is being counted. -/
def countRuns : Option (Nat × Nat) → List Nat → Pairs
  | run, [] => run.toList
  | none, value :: rest => countRuns (some (1, value)) rest
  | some (count, previous), value :: rest =>
    if value = previous then countRuns (some (count + 1, previous)) rest
    else (count, previous) :: countRuns (some (1, value)) rest

def encodePass1 (data : List Nat) : Pairs := countRuns none data

def decodePass1 (data : Pairs) : List Nat := expand data

variable (rle : RLECustomBase)

def bppToValues (data : Bytes) : Except RleError (List Nat) :=
  if rle.bpp = 4 then return bpp4ToValues data else bpp1ToValues data

def valuesToBpp (data : List Nat) : Except RleError Bytes :=
  if rle.bpp = 4 then valuesToBpp4 data else valuesToBpp1 data

def decode (data : Bytes) : Except RleError Bytes :=
  rle.valuesToBpp (decodePass1 (rle.decodePass2 data))

def encode (data : Bytes) : Except RleError Bytes := do
  let values ← rle.bppToValues data
  let encoded ← rle.encodePass2 (encodePass1 values)
  -- decode to check everything is fine
  let decompressed ← rle.decode encoded
  if decompressed ≠ data then throw (.systemExit 111) else return encoded

end RLECustomBase

-- ---------------------------------------------------------------------------
-- 4 bits per pixel
-- ---------------------------------------------------------------------------

namespace RLECustom2

theorem shortRun_pos : 0 < 8 := by decide

def encodePair (maxCount : Nat) (hmax : 0 < maxCount) : Nat × Nat → Except RleError Bytes
  | (count, value) =>
    if value = 0x0F then (splitRun maxCount hmax count).mapM fun n => toByte (0x80 ||| (n - 1))
    else (splitRun 8 shortRun_pos count).mapM fun n => toByte (((n - 1) <<< 4) ||| (value &&& 0x0F))

def encodePass2 (pairs : Pairs) (maxCount : Nat) (hmax : 0 < maxCount) : Except RleError Bytes :=
  return (← pairs.mapM (encodePair maxCount hmax)).flatten

end RLECustom2

namespace RLECustom3

/-- A byte of `RLECustom2` for a pixel that is not repeated and not white. -/
def isSingle (byte : UInt8) : Bool := byte.toNat &&& 0xF0 == 0x00

def groupSize (count : Nat) : Nat :=
  if count > 6 then
    if count = 8 then 5 else 6 -- 8 singles are stored as 5 and 3
  else count

/-- The quartets behind the first byte of a copy command. -/
def packSingles : Bytes → Except RleError Bytes
  | [] => return []
  | [byte] => return [← toByte (byte.toNat <<< 4)]
  | byte :: byte' :: rest =>
    return (← toByte ((byte.toNat <<< 4) ||| byte'.toNat)) :: (← packSingles rest)

/-- The second loop of `encode_pass2`, over the bytes of `RLECustom2`. -/
def groupSingles : Bytes → Except RleError Bytes
  | [] => return []
  | byte :: rest =>
    if ¬ isSingle byte then
      return (if byte &&& 0x80 ≠ 0 then byte ||| 0x40 else byte) :: (← groupSingles rest)
    else
      let count := groupSize (1 + (rest.takeWhile isSingle).length)
      if count ≥ 3 then do
        let first ← toByte (byte.toNat ||| (((count - 3) <<< 4) ||| 0x80))
        let packed ← packSingles (rest.take (count - 1))
        return first :: packed ++ (← groupSingles (rest.drop (count - 1)))
      else return byte :: (← groupSingles rest)
termination_by data => data.length
decreasing_by all_goals simp only [List.length_drop, List.length_cons]; omega

def encodePass2 (pairs : Pairs) : Except RleError Bytes := do
  groupSingles (← RLECustom2.encodePass2 pairs 64 (by decide))

/-- The inner loop of `decode_pass2`: up to `count` quartets, and what follows. -/
def copySingles : Nat → Bytes → Pairs × Bytes
  | 0, data => ([], data)
  | _ + 1, [] => ([], [])
  | 1, byte :: rest => ([(1, (byte.toNat >>> 4) &&& 0x0F)], rest)
  | count + 2, byte :: rest =>
    let (pairs, rest) := copySingles count rest
    ((1, (byte.toNat >>> 4) &&& 0x0F) :: (1, byte.toNat &&& 0x0F) :: pairs, rest)

theorem length_copySingles (count : Nat) (data : Bytes) :
    (copySingles count data).2.length ≤ data.length := by
  fun_induction copySingles count data with
  | case1 data => exact Nat.le_refl _
  | case2 => exact Nat.le_refl _
  | case3 byte rest => simp
  | case4 count byte rest pairs rest' h ih =>
    rw [h] at ih
    exact Nat.le_trans ih (Nat.le_succ _)

def decodeCommands : Bytes → Pairs
  | [] => []
  | byte :: rest =>
    if byte.toNat &&& 0x80 ≠ 0 then
      if byte.toNat &&& 0x40 ≠ 0 then
        -- 11RRRRRR
        (1 + (byte.toNat &&& 0x3F), 0x0F) :: decodeCommands rest
      else
        -- 10RRVVVV WWWWXXXX YYYYZZZZ
        let count := ((byte.toNat &&& 0x30) >>> 4) + 3
        (1, byte.toNat &&& 0x0F) :: (copySingles (count - 1) rest).1 ++
          decodeCommands (copySingles (count - 1) rest).2
    else
      -- 0RRRVVVV
      (1 + ((byte.toNat >>> 4) &&& 0x07), byte.toNat &&& 0x0F) :: decodeCommands rest
termination_by data => data.length
decreasing_by
  · simp
  · have := length_copySingles (((byte.toNat &&& 0x30) >>> 4) + 3 - 1) rest
    simp only [List.length_cons]
    omega
  · simp

def decodePass2 (data : Bytes) : Pairs := RLECustomBase.removeDuplicates (decodeCommands data)

def codec (bpp : Nat) : RLECustomBase := { bpp, encodePass2, decodePass2 }

end RLECustom3

-- ---------------------------------------------------------------------------
-- 1 bit per pixel
-- ---------------------------------------------------------------------------

namespace RLECustomA

/-- The counts of one pair: those that do not fit into a quartet are followed
by a count of 0 for the other value. -/
def splitCount (count : Nat) : List Nat :=
  if count > 15 then 15 :: 0 :: splitCount (count - 15)
  else if count ≠ 0 then [count]
  else []
termination_by count

/-- The first loop of `encode_pass2`. -/
def alternances : Nat → Pairs → List Nat
  | _, [] => []
  | nextPixel, (count, value) :: pairs =>
    let missing := if value ≠ nextPixel then [0] else []
    let nextPixel := if value ≠ nextPixel then nextPixel ^^^ 1 else nextPixel
    let nextPixel := if count ≠ 0 then nextPixel ^^^ 1 else nextPixel
    missing ++ splitCount count ++ alternances nextPixel pairs

/-- The second loop of `encode_pass2`. -/
def packCounts : List Nat → Except RleError Bytes
  | [] => return []
  | [zeros] => return [← toByte ((zeros <<< 4) ||| 0)]
  | zeros :: ones :: rest => return (← toByte ((zeros <<< 4) ||| ones)) :: (← packCounts rest)

def encodePass2 (pairs : Pairs) : Except RleError Bytes := packCounts (alternances 0 pairs)

def decodeCounts (data : Bytes) : Pairs :=
  data.flatMap fun byte =>
    let ones := byte.toNat &&& 0x0F
    let zeros := (byte.toNat >>> 4) &&& 0x0F
    (if zeros ≠ 0 then [(zeros, 0)] else []) ++ (if ones ≠ 0 then [(ones, 1)] else [])

def decodePass2 (data : Bytes) : Pairs := RLECustomBase.removeDuplicates (decodeCounts data)

def codec (bpp : Nat) : RLECustomBase := { bpp, encodePass2, decodePass2 }

end RLECustomA

-- ---------------------------------------------------------------------------
-- The entry points
-- ---------------------------------------------------------------------------

namespace RLECustom

/-- The method used, and the encoded data. -/
def encode (packedPixels : Bytes) (bpp : Nat) : Except RleError (Nat × Bytes) :=
  if bpp = 4 then return (1, ← (RLECustom3.codec bpp).encode packedPixels)
  else if bpp = 1 then return (1, ← (RLECustomA.codec bpp).encode packedPixels)
  else return (0, packedPixels)

def decode (method : Nat) (encodedData : Bytes) (bpp : Nat) : Except RleError Bytes :=
  if method ≠ 1 then return encodedData
  else if bpp = 4 then (RLECustom3.codec bpp).decode encodedData
  else if bpp = 1 then (RLECustomA.codec bpp).decode encodedData
  else return encodedData

end RLECustom

end Speculos.Rle
