import Speculos.Lib.Traced
import Speculos.Rle.Format
import Speculos.Rle.NbglRle

/-!
# What decompression accesses

The two decoders again, with the bytes they read. The stream is memory, of which
`buffer_len` bytes are the stream, and is read by index; the output is a region, which knows
the indices that were written. With a stream short of the last positions of 32 bits, the
output is the one of the decoders of a list.
-/

namespace Speculos.Rle

open Lib

/-- The reads of the stream, by index. -/
abbrev StreamReads (α : Type) := Traced Nat α

variable (buffer : Nat → UInt8)

def readByte (i : Nat) : StreamReads UInt8 := .access i (buffer i)

-- ---------------------------------------------------------------------------
-- 4 bits per pixel
-- ---------------------------------------------------------------------------

/-- Write pix by pix the `nbPix` pixels of a 'Copy' instruction. -/
def copyPixels (readCnt nbPix maxPixCnt : Nat) (s : Fill) : StreamReads Fill :=
  (List.range nbPix).foldlM (fun s i => do
    let byte ← readByte buffer (readCnt + (i + 1) / 2)
    let colorIndex := if i % 2 = 0 then byte &&& 0x0F else byte >>> 4
    return fill4bppPixelsColor colorIndex 1 maxPixCnt s) s

/-- `handle_4bpp_copy`, where `bytes_in` is `buffer + read_cnt`. -/
def handle4bppCopyReads (readCnt bytesInLen maxPixCnt : Nat) (s : Fill) :
    StreamReads (Nat × Fill) := do
  let byteIn ← readByte buffer readCnt
  let nbPix := ((byteIn.toNat &&& 0x30) >>> 4) + 3
  -- do not read outside of the bytes left
  if nbPix / 2 + 1 > bytesInLen then return (nbPix / 2 + 1, s)
  else do
    let s ← copyPixels buffer readCnt nbPix maxPixCnt s
    return (nbPix / 2 + 1, s)

/-- One instruction, with the position of the next one, a 32-bit number. -/
def instruction4bppReads (bufferLen maxPixCnt : Nat) : Fill × Nat → StreamReads (Fill × Nat)
  | (s, readCnt) => do
    let byte ← readByte buffer readCnt
    if byte.toNat &&& 0x80 ≠ 0 then
      if byte.toNat &&& 0x40 ≠ 0 then
        return (handle4bppRepeatWhite byte maxPixCnt s, (readCnt + 1) % 2 ^ 32)
      else do
        let copied ← handle4bppCopyReads buffer readCnt (bufferLen - readCnt) maxPixCnt s
        return (copied.2, (readCnt + copied.1) % 2 ^ 32)
    else return (handle4bppRepeatColor byte maxPixCnt s, (readCnt + 1) % 2 ^ 32)

/-- `nbgl_uncompress_rle_4bpp`, where the fuel bounds the instructions. -/
def nbglUncompressRle4bppReads (fuel : Nat) (area : NbglArea) (bufferLen : Nat)
    (outBuffer : Region) (outBufferLen : Nat) : StreamReads (Option Region) :=
  let maxPixCnt := area.width.toNat * area.height.toNat
  if maxPixCnt * 2 % 2 ^ 32 > outBufferLen then return some outBuffer
  else do
    let outBuffer := outBuffer.memset 0 0xFF outBufferLen
    let s ← Traced.loop (fun s => s.2 < bufferLen) (instruction4bppReads buffer bufferLen maxPixCnt)
      fuel (⟨0, 0, outBuffer⟩, 0)
    return s.map fun s => storeRemaining s.1

-- ---------------------------------------------------------------------------
-- 1 bit per pixel
-- ---------------------------------------------------------------------------

/-- The decoder between two pixels. The bytes of the stream are read at `index`, and not
kept in the state. -/
structure Scan where
  index : Nat
  unpack : Unpack

def firstScan (total : Nat) (outBuffer : Region) : Scan :=
  ⟨0, ⟨[], 0, 0, 0, 0, total, outBuffer, 0⟩⟩

/-- Reload the counts if needed. -/
def reloadReads (bufferLen index nbZeros nbOnes : Nat) : StreamReads (Nat × Nat × Nat) :=
  if nbZeros = 0 ∧ nbOnes = 0 ∧ index < bufferLen then do
    let byte ← readByte buffer index
    reloadReads bufferLen (index + 1) (byte.toNat >>> 4) (byte.toNat &&& 0x0F)
  else return (index, nbZeros, nbOnes)
termination_by bufferLen - index

def unpackPixelReads (bufferLen : Nat) (s : Scan) : StreamReads Scan := do
  let reloaded ← reloadReads buffer bufferLen s.index s.unpack.nbZeros s.unpack.nbOnes
  return ⟨reloaded.1, storePixels (nextPixel { s.unpack with
    nbZeros := reloaded.2.1
    nbOnes := reloaded.2.2 })⟩

/-- There are pixels that remain, and counts left or bytes to load them from. -/
def Scan.Goes (bufferLen : Nat) (s : Scan) : Prop :=
  s.unpack.remainingPixels > 0 ∧
    (s.index < bufferLen ∨ s.unpack.nbZeros ≠ 0 ∨ s.unpack.nbOnes ≠ 0)

instance (bufferLen : Nat) : DecidablePred (Scan.Goes bufferLen) := fun _ =>
  inferInstanceAs (Decidable (_ ∧ _))

/-- `nbgl_uncompress_rle_1bpp`, where the fuel bounds the pixels. -/
def nbglUncompressRle1bppReads (fuel : Nat) (area : NbglArea) (bufferLen : Nat)
    (outBuffer : Region) (outBufferLen : Nat) : StreamReads (Option Region) := do
  let outBuffer := outBuffer.memset 0 0 outBufferLen
  if bufferLen = 0 then return some outBuffer
  else do
    let s ← Traced.loop (Scan.Goes bufferLen) (unpackPixelReads buffer bufferLen) fuel
      (firstScan (area.width.toNat * area.height.toNat) outBuffer)
    return s.map fun s => storeRest s.unpack

/-- `nbgl_uncompress_rle` -/
def nbglUncompressRleReads (fuel : Nat) (area : NbglArea) (bufferLen : Nat)
    (outBuffer : Region) (outBufferLen : Nat) : StreamReads (Option Region) :=
  if area.bpp = 2 then
    nbglUncompressRle4bppReads buffer fuel area bufferLen outBuffer outBufferLen
  else if area.bpp = 0 then
    nbglUncompressRle1bppReads buffer fuel area bufferLen outBuffer outBufferLen
  else return some outBuffer

-- ---------------------------------------------------------------------------
-- The stream
-- ---------------------------------------------------------------------------

def instructionSize (byte : UInt8) : Nat :=
  if byte.toNat &&& 0x80 ≠ 0 ∧ ¬ byte.toNat &&& 0x40 ≠ 0 then
    (((byte.toNat &&& 0x30) >>> 4) + 3) / 2 + 1
  else 1

def nextInstruction (readCnt : Nat) : Nat :=
  (readCnt + instructionSize (buffer readCnt)) % 2 ^ 32

variable {buffer}

/-- The bytes of the stream from `index` on. -/
def rest (buffer : Nat → UInt8) (bufferLen index : Nat) : Bytes :=
  (List.range' index (bufferLen - index)).map buffer

theorem rest_of_lt (hlt : index < bufferLen) :
    rest buffer bufferLen index = buffer index :: rest buffer bufferLen (index + 1) := by
  rw [rest, rest, show bufferLen - index = bufferLen - (index + 1) + 1 by omega, List.range'_succ,
    List.map_cons]

theorem rest_eq_nil_iff : rest buffer bufferLen index = [] ↔ bufferLen ≤ index := by
  simp [rest]
  omega

theorem length_rest (bufferLen index : Nat) :
    (rest buffer bufferLen index).length = bufferLen - index := by
  simp [rest]

theorem getD_rest (hlt : index + i < bufferLen) :
    (rest buffer bufferLen index).getD i 0 = buffer (index + i) := by
  rw [List.getD_eq_getElem _ _ (by rw [length_rest]; omega)]
  simp [rest]

theorem drop_rest (bufferLen index n : Nat) :
    (rest buffer bufferLen index).drop n = rest buffer bufferLen (index + n) := by
  rw [rest, rest, ← List.map_drop, List.drop_range', Nat.sub_sub, Nat.mul_one]

theorem instructionSize_bounds (byte : UInt8) :
    1 ≤ instructionSize byte ∧ instructionSize byte ≤ 4 := by
  have hcount : (byte.toNat &&& 0x30) >>> 4 ≤ 3 := by
    rw [and_30 byte.toNat byte.toNat_lt]
    omega
  rw [instructionSize]
  split
  · omega
  · omega

theorem nextInstruction_of_lt (buffer : Nat → UInt8) (hlt : readCnt + 4 < 2 ^ 32) :
    nextInstruction buffer readCnt = readCnt + instructionSize (buffer readCnt) := by
  have hsize := instructionSize_bounds (buffer readCnt)
  exact Nat.mod_eq_of_lt (by omega)

-- ---------------------------------------------------------------------------
-- The output of the 4bpp decoder
-- ---------------------------------------------------------------------------

theorem handle4bppCopyReads_size (readCnt bytesInLen maxPixCnt : Nat) (s : Fill) :
    (handle4bppCopyReads buffer readCnt bytesInLen maxPixCnt s).value.1 =
      (((buffer readCnt).toNat &&& 0x30) >>> 4 + 3) / 2 + 1 := by
  rw [handle4bppCopyReads, readByte, Traced.value_access_bind]
  dsimp only
  split <;> rfl

theorem instruction4bppReads_next (bufferLen maxPixCnt : Nat) (s : Fill × Nat) :
    (instruction4bppReads buffer bufferLen maxPixCnt s).value.2 = nextInstruction buffer s.2 := by
  rw [instruction4bppReads, readByte, Traced.value_access_bind, nextInstruction, instructionSize]
  split
  · rename_i hmarked
    split
    · rename_i hwhite
      rw [if_neg fun h => h.2 hwhite]
      rfl
    · rename_i hcopy
      rw [if_pos ⟨hmarked, hcopy⟩, Traced.value_bind, Traced.value_pure, handle4bppCopyReads_size]
  · rename_i hcolor
    rw [if_neg fun h => hcolor h.1]
    rfl

theorem copyPixels_value (hfits : readCnt + nbPix / 2 < bufferLen) (s : Fill) :
    (copyPixels buffer readCnt nbPix maxPixCnt s).value =
      (List.range nbPix).foldl (fun s i =>
        fill4bppPixelsColor (copyColor (rest buffer bufferLen readCnt) i) 1 maxPixCnt s) s := by
  rw [copyPixels, Traced.value_foldlM]
  refine List.foldl_ext _ _ _ fun s i hi => ?_
  have hlt := List.mem_range.mp hi
  rw [copyColor, getD_rest (by omega), readByte, Traced.value_access_bind]
  rfl

theorem handle4bppCopyReads_value (hlt : readCnt < bufferLen) (s : Fill) :
    (handle4bppCopyReads buffer readCnt (bufferLen - readCnt) maxPixCnt s).value =
      handle4bppCopy (buffer readCnt) (rest buffer bufferLen (readCnt + 1)) maxPixCnt s := by
  have hlen : (rest buffer bufferLen (readCnt + 1)).length + 1 = bufferLen - readCnt := by
    rw [length_rest]
    omega
  rw [handle4bppCopyReads, handle4bppCopy, readByte, Traced.value_access_bind, hlen]
  dsimp only
  split
  · rfl
  · rw [Traced.value_bind, Traced.value_pure, copyPixels_value (show _ < bufferLen by omega),
      rest_of_lt hlt]

theorem uncompress4bpp_rest (hle : bufferLen + 4 ≤ 2 ^ 32) (fuel : Nat) {s t : Fill × Nat}
    (h : (Traced.loop (fun s => s.2 < bufferLen) (instruction4bppReads buffer bufferLen maxPixCnt)
      fuel s).value = some t) :
    uncompress4bpp maxPixCnt s.1 (rest buffer bufferLen s.2) = t.1 := by
  induction fuel generalizing s with
  | zero => cases h
  | succ fuel ih =>
    rw [Traced.loop] at h
    by_cases hlt : s.2 < bufferLen
    · rw [if_pos hlt] at h
      have hrest := ih h
      rw [instruction4bppReads_next, nextInstruction_of_lt buffer (by omega)] at hrest
      rw [← hrest, rest_of_lt hlt, uncompress4bpp, instruction4bppReads, readByte,
        Traced.value_access_bind, instructionSize]
      split
      · split
        · rename_i hmarked hwhite
          rw [if_neg fun h => h.2 hwhite]
          rfl
        · rename_i hmarked hcopy
          rw [if_pos ⟨hmarked, hcopy⟩, Traced.value_bind, Traced.value_pure,
            ← handle4bppCopyReads_value hlt, drop_rest, handle4bppCopyReads_size]
          congr 2
          omega
      · rename_i hcolor
        rw [if_neg fun h => hcolor h.1]
        rfl
    · rw [if_neg hlt] at h
      rw [rest_eq_nil_iff.mpr (Nat.le_of_not_lt hlt), uncompress4bpp]
      cases h
      rfl

-- ---------------------------------------------------------------------------
-- The output of the 1bpp decoder
-- ---------------------------------------------------------------------------

theorem reload_rest (bufferLen index nbZeros nbOnes : Nat) :
    reload (rest buffer bufferLen index) nbZeros nbOnes =
      (rest buffer bufferLen (reloadReads buffer bufferLen index nbZeros nbOnes).value.1,
        (reloadReads buffer bufferLen index nbZeros nbOnes).value.2) := by
  fun_induction reloadReads buffer bufferLen index nbZeros nbOnes with
  | case1 index nbZeros nbOnes hreload ih =>
    rw [rest_of_lt hreload.2.2, reload, if_pos ⟨hreload.1, hreload.2.1⟩, readByte,
      Traced.value_access_bind]
    exact ih (buffer index)
  | case2 index nbZeros nbOnes hleft =>
    rcases Nat.lt_or_ge index bufferLen with hlt | hge
    · rw [Traced.value_pure, rest_of_lt hlt, reload, if_neg fun h => hleft ⟨h.1, h.2, hlt⟩]
    · rw [Traced.value_pure, rest_eq_nil_iff.mpr hge, reload]

/-- The state of the decoder that holds the rest of the stream. -/
def Scan.toUnpack (buffer : Nat → UInt8) (bufferLen : Nat) (s : Scan) : Unpack :=
  { s.unpack with buffer := rest buffer bufferLen s.index }

theorem nextPixel_buffer (u : Unpack) (bytes : Bytes) :
    nextPixel { u with buffer := bytes } = { nextPixel u with buffer := bytes } := by
  rw [nextPixel, nextPixel]
  split
  · rfl
  · split <;> rfl

theorem storePixels_buffer (u : Unpack) (bytes : Bytes) :
    storePixels { u with buffer := bytes } = { storePixels u with buffer := bytes } := by
  rw [storePixels, storePixels]
  split <;> rfl

theorem unpackPixel_toUnpack (bufferLen : Nat) (s : Scan) :
    unpackPixel (s.toUnpack buffer bufferLen) =
      (unpackPixelReads buffer bufferLen s).value.toUnpack buffer bufferLen := by
  rw [unpackPixel, unpackPixelReads, Traced.value_bind, Traced.value_pure]
  simp only [Scan.toUnpack, reload_rest]
  rw [← storePixels_buffer, ← nextPixel_buffer]

theorem unpackLoop_toUnpack {s t : Scan} (fuel : Nat)
    (h : (Traced.loop (Scan.Goes bufferLen) (unpackPixelReads buffer bufferLen) fuel s).value =
      some t) :
    unpackLoop (s.toUnpack buffer bufferLen) = t.toUnpack buffer bufferLen := by
  have hgoes : ∀ s : Scan, s.Goes bufferLen ↔ (s.toUnpack buffer bufferLen).remainingPixels > 0 ∧
      HasCounts (s.toUnpack buffer bufferLen) := fun s => by
    simp only [Scan.Goes, HasCounts, Scan.toUnpack, ne_eq, rest_eq_nil_iff, Nat.not_le]
  induction fuel generalizing s with
  | zero => cases h
  | succ fuel ih =>
    rw [Traced.loop] at h
    rw [unpackLoop]
    by_cases hturn : s.Goes bufferLen
    · rw [if_pos hturn] at h
      rw [if_pos ((hgoes s).mp hturn), unpackPixel_toUnpack]
      exact ih h
    · rw [if_neg hturn] at h
      rw [if_neg (mt (hgoes s).mpr hturn)]
      cases h
      rfl

def stream (buffer : Nat → UInt8) (bufferLen : Nat) : Bytes := rest buffer bufferLen 0

theorem stream_eq_nil_iff : stream buffer bufferLen = [] ↔ bufferLen = 0 := by
  rw [stream, rest_eq_nil_iff, Nat.le_zero]

theorem nbglUncompressRle4bppReads_value (hle : bufferLen + 4 ≤ 2 ^ 32)
    (h : (nbglUncompressRle4bppReads buffer fuel area bufferLen outBuffer outBufferLen).value =
      some r) :
    r = nbglUncompressRle4bpp area (stream buffer bufferLen) outBuffer outBufferLen := by
  rw [nbglUncompressRle4bppReads] at h
  rw [nbglUncompressRle4bpp]
  dsimp only at h ⊢
  split
  · rename_i hlarge
    rw [if_pos hlarge] at h
    cases h
    rfl
  · rename_i hfits
    rw [if_neg hfits] at h
    obtain ⟨t, ht, rfl⟩ := Option.map_eq_some_iff.mp h
    have hend := uncompress4bpp_rest hle fuel ht
    split
    · rename_i hempty
      rw [← hend, rest_eq_nil_iff.mpr (Nat.le_of_eq (stream_eq_nil_iff.mp hempty)), uncompress4bpp]
      rfl
    · exact congrArg storeRemaining hend.symm

theorem nbglUncompressRle1bppReads_value
    (h : (nbglUncompressRle1bppReads buffer fuel area bufferLen outBuffer outBufferLen).value =
      some r) :
    r = nbglUncompressRle1bpp area (stream buffer bufferLen) outBuffer outBufferLen := by
  rw [nbglUncompressRle1bppReads] at h
  rw [nbglUncompressRle1bpp]
  simp only [stream_eq_nil_iff]
  split
  · rename_i hempty
    rw [if_pos hempty] at h
    cases h
    rfl
  · rename_i hlong
    rw [if_neg hlong] at h
    obtain ⟨t, ht, rfl⟩ := Option.map_eq_some_iff.mp h
    have hend := congrArg storeRest (unpackLoop_toUnpack fuel ht)
    exact hend.symm

theorem nbglUncompressRleReads_value (hle : bufferLen + 4 ≤ 2 ^ 32)
    (h : (nbglUncompressRleReads buffer fuel area bufferLen outBuffer outBufferLen).value =
      some r) :
    r = nbglUncompressRle area (stream buffer bufferLen) outBuffer outBufferLen := by
  rw [nbglUncompressRleReads] at h
  rw [nbglUncompressRle]
  split
  · rename_i hfour
    rw [if_pos hfour] at h
    exact nbglUncompressRle4bppReads_value hle h
  · rename_i hfour
    rw [if_neg hfour] at h
    split
    · rename_i hone
      rw [if_pos hone] at h
      exact nbglUncompressRle1bppReads_value h
    · rename_i hone
      rw [if_neg hone] at h
      cases h
      rfl

end Speculos.Rle
