import Mathlib.Algebra.Ring.Nat
import Speculos.Lib.Memory

/-!
# Decompression on the device

`nbgl_uncompress_rle` of `nbgl_rle.c`. A buffer and its length are one list of
bytes, of which a decoder holds what is still to be read, and the output is a
region of memory. The pixel counters of the 4bpp decoder do not exceed the
product of two 16-bit sizes, so that they are naturals; the counter of the 1bpp
decoder passes below zero and is a natural modulo 2^32.
-/

namespace Speculos.Rle

open Lib

/-- The fields of `nbgl_area_t` the decoders read. -/
structure NbglArea where
  width : UInt16
  height : UInt16
  bpp : UInt8
  deriving DecidableEq, Repr

def white4bpp : UInt8 := 0x0F

-- ---------------------------------------------------------------------------
-- 4 bits per pixel
-- ---------------------------------------------------------------------------

/-- What the decoder counts and keeps between two commands. `remaining` holds
the pixel of a byte that is not full. -/
structure Fill where
  pixCnt : Nat
  remaining : UInt8
  outBuffer : Region

/-- The first pixel, where it is the second one of a byte. -/
def completeByte (color : UInt8) (s : Fill) : Fill :=
  { pixCnt := s.pixCnt + 1, remaining := 0,
    outBuffer := s.outBuffer.store (s.pixCnt / 2) (s.remaining ||| (0x0F &&& color)) }

def writePairs (doublePix : UInt8) : Nat → Fill → Fill
  | 0, s => s
  | n + 1, s =>
    writePairs doublePix n
      { s with outBuffer := s.outBuffer.store (s.pixCnt / 2) doublePix, pixCnt := s.pixCnt + 2 }

/-- Save the last pixel, where it is the first one of a byte. -/
def saveLast (color : UInt8) (s : Fill) : Fill :=
  { s with remaining := color <<< 4, pixCnt := s.pixCnt + 1 }

/-- Write `nbPix` pixels of the same color, at least one. -/
def fill4bppPixelsColor (color : UInt8) (nbPix maxPixCnt : Nat) (s : Fill) : Fill :=
  if s.pixCnt + nbPix > maxPixCnt then s
  else
    let doublePix := (color <<< 4) ||| color
    let firstNonAligned := s.pixCnt % 2 ≠ 0
    let lastNonAligned := (s.pixCnt + nbPix) % 2 ≠ 0
    let nbPix' := if firstNonAligned then nbPix - 1 else nbPix
    let s' := if firstNonAligned then completeByte color s else s
    let s'' := writePairs doublePix (nbPix' / 2) s'
    if lastNonAligned then saveLast color s'' else s''

def handle4bppRepeatWhite (byteIn : UInt8) (maxPixCnt : Nat) (s : Fill) : Fill :=
  fill4bppPixelsColor white4bpp ((byteIn.toNat &&& 0x3F) + 1) maxPixCnt s

def handle4bppRepeatColor (byteIn : UInt8) (maxPixCnt : Nat) (s : Fill) : Fill :=
  fill4bppPixelsColor (byteIn &&& 0x0F) (((byteIn.toNat &&& 0x70) >>> 4) + 1) maxPixCnt s

/-- The pixel at index `i` of a 'Copy' instruction. -/
def copyColor (bytesIn : Bytes) (i : Nat) : UInt8 :=
  if i % 2 = 0 then bytesIn.getD ((i + 1) / 2) 0 &&& 0x0F else bytesIn.getD ((i + 1) / 2) 0 >>> 4

/-- The 'Copy' instruction, with the number of bytes it takes. -/
def handle4bppCopy (byteIn : UInt8) (rest : Bytes) (maxPixCnt : Nat) (s : Fill) : Nat × Fill :=
  let nbPix := ((byteIn.toNat &&& 0x30) >>> 4) + 3
  let nbBytesRead := nbPix / 2 + 1
  -- do not read outside of the bytes left
  if nbBytesRead > rest.length + 1 then (nbBytesRead, s)
  else
    (nbBytesRead, (List.range nbPix).foldl
      (fun s i => fill4bppPixelsColor (copyColor (byteIn :: rest) i) 1 maxPixCnt s) s)

/-- The loop over the instructions; each takes the byte it was told by and
maybe more. -/
def uncompress4bpp (maxPixCnt : Nat) (s : Fill) : Bytes → Fill
  | [] => s
  | byte :: rest =>
    if byte.toNat &&& 0x80 ≠ 0 then
      if byte.toNat &&& 0x40 ≠ 0 then
        uncompress4bpp maxPixCnt (handle4bppRepeatWhite byte maxPixCnt s) rest
      else
        uncompress4bpp maxPixCnt (handle4bppCopy byte rest maxPixCnt s).2
          (rest.drop ((handle4bppCopy byte rest maxPixCnt s).1 - 1))
    else uncompress4bpp maxPixCnt (handle4bppRepeatColor byte maxPixCnt s) rest
termination_by buffer => buffer.length
decreasing_by all_goals simp only [List.length_drop, List.length_cons]; omega

/-- Store the pixel of the last byte, if it is not full. -/
def storeRemaining (s : Fill) : Region :=
  if s.pixCnt % 2 ≠ 0 then s.outBuffer.store (s.pixCnt / 2) s.remaining else s.outBuffer

def nbglUncompressRle4bpp (area : NbglArea) (buffer : Bytes) (outBuffer : Region)
    (outBufferLen : Nat) : Region :=
  let maxPixCnt := area.width.toNat * area.height.toNat
  if maxPixCnt * 2 % 2 ^ 32 > outBufferLen then outBuffer
  else
    let outBuffer := outBuffer.memset 0 0xFF outBufferLen
    if buffer = [] then outBuffer
    else storeRemaining (uncompress4bpp maxPixCnt { pixCnt := 0, remaining := 0, outBuffer } buffer)

-- ---------------------------------------------------------------------------
-- 1 bit per pixel
-- ---------------------------------------------------------------------------

/-- The bytes from `index` on, the pixels counted by the last byte read, and the
byte that is being filled. `out` tells how far `out_buffer` has moved. -/
structure Unpack where
  buffer : Bytes
  nbZeros : Nat
  nbOnes : Nat
  pixels : UInt8
  nbPixels : Nat
  remainingPixels : Nat
  outBuffer : Region
  out : Nat

/-- Reload the counts if needed. -/
def reload : Bytes → Nat → Nat → Bytes × Nat × Nat
  | [], nbZeros, nbOnes => ([], nbZeros, nbOnes)
  | byte :: rest, nbZeros, nbOnes =>
    if nbZeros = 0 ∧ nbOnes = 0 then reload rest (byte.toNat >>> 4) (byte.toNat &&& 0x0F)
    else (byte :: rest, nbZeros, nbOnes)

def nextPixel (s : Unpack) : Unpack :=
  if s.nbZeros ≠ 0 then
    { s with nbZeros := s.nbZeros - 1, pixels := s.pixels <<< 1 ||| 0, nbPixels := s.nbPixels + 1 }
  else if s.nbOnes ≠ 0 then
    { s with nbOnes := s.nbOnes - 1, pixels := s.pixels <<< 1 ||| 1, nbPixels := s.nbPixels + 1 }
  else { s with pixels := s.pixels <<< 1, nbPixels := s.nbPixels + 1 }

def storePixels (s : Unpack) : Unpack :=
  if s.nbPixels = 8 then
    { s with
      outBuffer := s.outBuffer.store s.out s.pixels
      out := s.out + 1
      remainingPixels := (s.remainingPixels + (2 ^ 32 - 8)) % 2 ^ 32
      nbPixels := s.nbPixels - 8 }
  else s

def unpackPixel (s : Unpack) : Unpack :=
  storePixels (nextPixel { s with
    buffer := (reload s.buffer s.nbZeros s.nbOnes).1
    nbZeros := (reload s.buffer s.nbZeros s.nbOnes).2.1
    nbOnes := (reload s.buffer s.nbZeros s.nbOnes).2.2 })

/-- Whether there are counts left, or bytes to load them from. -/
def HasCounts (s : Unpack) : Prop := s.buffer ≠ [] ∨ s.nbZeros ≠ 0 ∨ s.nbOnes ≠ 0

instance (s : Unpack) : Decidable (HasCounts s) :=
  inferInstanceAs (Decidable (_ ∨ _))

theorem reload_cases (buffer : Bytes) (nbZeros nbOnes : Nat) :
    (reload buffer nbZeros nbOnes).1.length < buffer.length ∨
      reload buffer nbZeros nbOnes = (buffer, nbZeros, nbOnes) ∧
        (buffer = [] ∨ nbZeros ≠ 0 ∨ nbOnes ≠ 0) := by
  fun_induction reload buffer nbZeros nbOnes with
  | case1 nbZeros nbOnes => exact .inr ⟨rfl, .inl rfl⟩
  | case2 byte rest nbZeros nbOnes hempty ih =>
    rcases ih with hlt | ⟨heq, -⟩
    · exact .inl (Nat.lt_succ_of_lt hlt)
    · exact .inl (by rw [heq]; exact Nat.lt_succ_self _)
  | case3 byte rest nbZeros nbOnes hleft => exact .inr ⟨rfl, .inr (by omega)⟩

@[simp] theorem buffer_storePixels (s : Unpack) : (storePixels s).buffer = s.buffer := by
  rw [storePixels]
  split <;> rfl

@[simp] theorem counts_storePixels (s : Unpack) :
    (storePixels s).nbZeros + (storePixels s).nbOnes = s.nbZeros + s.nbOnes := by
  rw [storePixels]
  split <;> rfl

@[simp] theorem buffer_nextPixel (s : Unpack) : (nextPixel s).buffer = s.buffer := by
  rw [nextPixel]
  split
  · rfl
  · split <;> rfl

theorem counts_nextPixel (s : Unpack) :
    (nextPixel s).nbZeros + (nextPixel s).nbOnes = s.nbZeros + s.nbOnes - 1 := by
  rw [nextPixel]
  split
  · dsimp only
    omega
  · split
    · dsimp only
      omega
    · dsimp only
      omega

/-- A turn of the loop takes a byte or a counted pixel. -/
theorem unpackPixel_lt (s : Unpack) (h : HasCounts s) :
    Prod.Lex (· < ·) (· < ·)
      ((unpackPixel s).buffer.length, (unpackPixel s).nbZeros + (unpackPixel s).nbOnes)
      (s.buffer.length, s.nbZeros + s.nbOnes) := by
  rw [unpackPixel, buffer_storePixels, counts_storePixels, buffer_nextPixel, counts_nextPixel]
  rcases reload_cases s.buffer s.nbZeros s.nbOnes with hlt | ⟨heq, hleft⟩
  · exact .left _ _ hlt
  · rw [heq]
    refine .right _ ?_
    dsimp only
    rcases h with h | h
    · have := hleft.resolve_left h
      omega
    · omega

def unpackLoop (s : Unpack) : Unpack :=
  if s.remainingPixels > 0 ∧ HasCounts s then unpackLoop (unpackPixel s) else s
termination_by (s.buffer.length, s.nbZeros + s.nbOnes)
decreasing_by exact unpackPixel_lt s (by rename_i h; exact h.2)

/-- Put the remaining pixels on the most significant bits of a last byte. -/
def storeRest (s : Unpack) : Region :=
  if s.nbPixels ≠ 0 then s.outBuffer.store s.out (s.pixels <<< UInt8.ofNat (8 - s.nbPixels))
  else s.outBuffer

def nbglUncompressRle1bpp (area : NbglArea) (buffer : Bytes) (outBuffer : Region)
    (outBufferLen : Nat) : Region :=
  let outBuffer := outBuffer.memset 0 0 outBufferLen
  if buffer = [] then outBuffer
  else
    storeRest (unpackLoop
      { buffer, nbZeros := 0, nbOnes := 0, pixels := 0, nbPixels := 0,
        remainingPixels := area.width.toNat * area.height.toNat, outBuffer, out := 0 })

def nbglUncompressRle (area : NbglArea) (buffer : Bytes) (outBuffer : Region)
    (outBufferLen : Nat) : Region :=
  if area.bpp = 2 then nbglUncompressRle4bpp area buffer outBuffer outBufferLen
  else if area.bpp = 0 then nbglUncompressRle1bpp area buffer outBuffer outBufferLen
  else outBuffer

end Speculos.Rle
