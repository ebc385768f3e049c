import Speculos.Display.FrameBuffer
import Speculos.Lib.Memory
import Speculos.Lib.Raster
import Speculos.Rle.RleCustom

/-!
# Drawing NBGL images

`nbgl_area_t`, and the calls of `nbgl.c` that draw an image. A call is the list
of the buffers that it hands to `sys_io_seph_send`, of which the length is a
`uint16_t`. A bitmap is what is found behind its pointer. What
`get_character_from_bitmap` finds in the fonts is a parameter.

`hal_draw_image` and `hal_draw_image_file` of `nbgl.py`, up to the call of
`draw_image`. What `gzip.decompress` makes of a chunk is a parameter.
-/

namespace Speculos.Display

open Lib

structure NbglArea where
  x0 : Int16
  y0 : Int16
  width : UInt16
  height : UInt16
  color : UInt8
  bpp : UInt8
  deriving DecidableEq, Repr

namespace NbglArea

def sizeof : Nat := 10

/-- The structure in memory, and `nbgl_area_t.build`. -/
def build (area : NbglArea) : Bytes :=
  toLE 2 area.x0.toUInt16.toNat ++ toLE 2 area.y0.toUInt16.toNat ++ toLE 2 area.width.toNat ++
    toLE 2 area.height.toNat ++ [area.color, area.bpp]

@[simp] theorem length_build (area : NbglArea) : area.build.length = sizeof := rfl

end NbglArea

def pixels (area : NbglArea) : Nat := area.width.toNat * area.height.toNat

/-- What `sys_io_seph_send(buffer + offset, length)` is given. -/
def sent (buffer : Region) (offset length : Nat) : Bytes := buffer.slice offset (length % 65536)

theorem length_sent (buffer : Region) (offset length : Nat) :
    (sent buffer offset length).length = length % 65536 := Region.length_slice ..

theorem bytes_of_bits (n : Nat) : n / 8 + (if n % 8 > 0 then 1 else 0) = (n + 7) / 8 := by
  split <;> omega

namespace NbglSyscalls

def seproxyhalTagNbglDrawImage : UInt8 := 0xFD

def seproxyhalTagNbglDrawImageFile : UInt8 := 0xFE

def seproxyhalTagNbglDrawImageRle : UInt8 := 0xFF

/-- The tag, and the low sixteen bits of `len`. -/
def header (tag : UInt8) (len : Nat) : Bytes := tag :: be16 len

variable (area : NbglArea) (buffer : Region)

def drawImg (transformation colorMap : UInt8) (character : Nat) : List Bytes :=
  let bpp := (1 <<< area.bpp.toNat) % 256
  let nbPixs := pixels area * bpp % 2 ^ 32
  let bufferLen := nbPixs / 8 + if nbPixs % 8 > 0 then 1 else 0
  let len := NbglArea.sizeof + bufferLen + 1 + 1 + 4
  [header seproxyhalTagNbglDrawImage len, area.build, sent buffer 0 bufferLen, [transformation],
    [colorMap], toLE 4 character]

/-- The buffer starts at `offset` behind the pointer. -/
def drawImgRle (offset bufferLen : Nat) (foreColor nbSkippedBytes : UInt8) (character : Nat) :
    List Bytes :=
  let len := NbglArea.sizeof + bufferLen + 1 + 1 + 4
  [header seproxyhalTagNbglDrawImageRle len, area.build, sent buffer offset bufferLen, [foreColor],
    [nbSkippedBytes], toLE 4 character]

/-- The length of a compressed image, on three bytes. -/
def compressedLen : Nat := fromLE (buffer.slice 5 3)

def drawImgFile (colorMap : UInt8) (uzlibWorkBuffer : Bool) (character : Nat) : List Bytes :=
  let compressed := buffer.cell 4 &&& 0xF
  if compressed = 1 ∧ ¬ uzlibWorkBuffer then [] -- no uzlib work buffer provided, failing
  else
    -- force area bpp with the value from "file" to avoid some issues
    let area := { area with bpp := buffer.cell 4 >>> 4 }
    let send (bufferLen : Nat) : List Bytes :=
      let len := NbglArea.sizeof + 1 + bufferLen
      [header seproxyhalTagNbglDrawImageFile len, area.build, sent buffer 0 bufferLen, [colorMap]]
    if compressed = 0 then send (8 + (pixels area * (area.bpp.toNat + 1) + 7) / 8)
    else if compressed = 1 then send (compressedLen buffer + 8)
    else if compressed = 2 then
      drawImgRle area buffer 8 (compressedLen buffer) (colorMap &&& 0x3) 0 character
    else send 0

end NbglSyscalls

end Speculos.Display

-- ---------------------------------------------------------------------------
-- Drawing NBGL images
-- ---------------------------------------------------------------------------

namespace Speculos.Display

open Lib

/-- The exceptions of `nbgl.py`, and of the modules it uses. -/
inductive NbglError
  | assertionError
  | indexError
  | streamError -- of `construct`
  | badGzipFile
  deriving DecidableEq, Repr

namespace NbglArea

def parse (data : Bytes) : Except NbglError NbglArea :=
  if data.length < sizeof then .error .streamError
  else .ok
    { x0 := (UInt16.ofNat (fromLE (data.take 2))).toInt16
      y0 := (UInt16.ofNat (fromLE ((data.drop 2).take 2))).toInt16
      width := UInt16.ofNat (fromLE ((data.drop 4).take 2))
      height := UInt16.ofNat (fromLE ((data.drop 6).take 2))
      color := data.getD 8 0
      bpp := data.getD 9 0 }

theorem ofNat_fromLE_toLE (n : UInt16) : UInt16.ofNat (fromLE (toLE 2 n.toNat)) = n := by
  rw [fromLE_toLE_of_lt n.toNat_lt, UInt16.ofNat_toNat]

theorem parse_build (area : NbglArea) : parse area.build = .ok area := by
  have hx : fromLE (area.build.take 2) = fromLE (toLE 2 area.x0.toUInt16.toNat) := rfl
  have hy : fromLE ((area.build.drop 2).take 2) = fromLE (toLE 2 area.y0.toUInt16.toNat) := rfl
  have hw : fromLE ((area.build.drop 4).take 2) = fromLE (toLE 2 area.width.toNat) := rfl
  have hh : fromLE ((area.build.drop 6).take 2) = fromLE (toLE 2 area.height.toNat) := rfl
  rw [parse, if_neg (show ¬ area.build.length < sizeof from Nat.lt_irrefl _), hx, hy, hw, hh]
  simp only [ofNat_fromLE_toLE, Int16.toInt16_toUInt16]
  rfl

end NbglArea

namespace Nbgl

def assertArea (model : Model) (area : NbglArea) : Except NbglError Unit :=
  if area.x0.toInt > model.width ∨ area.x0.toInt + area.width.toNat > model.width then
    .error .assertionError
  -- on Nano, it's allowed to have y0 < 0 or y0 > HEIGHT (in menu list)
  else if model.height = 64 then .ok ()
  else if area.y0.toInt > model.height ∨ area.y0.toInt + area.height.toNat > model.height then
    .error .assertionError
  else .ok ()

def nbglBppToReadBpp (abpp : UInt8) : Nat :=
  if abpp = 0 then 1 else if abpp = 1 then 2 else if abpp = 2 then 4 else 0

/-- The arguments of `draw_image`. -/
structure DrawImage where
  area : NbglArea
  bpp : Nat
  transformation : UInt8
  buffer : Bytes
  colorMap : UInt8
  deriving DecidableEq, Repr

/-- `data[i]` -/
def byteAt (data : Bytes) (i : Nat) : Except NbglError UInt8 :=
  match data[i]? with
  | some b => .ok b
  | none => .error .indexError

def halDrawImage (model : Model) (data : Bytes) : Except NbglError DrawImage := do
  let area ← NbglArea.parse (data.take NbglArea.sizeof)
  assertArea model area
  let bpp := nbglBppToReadBpp area.bpp
  let bitSize := pixels area * bpp
  let bufferSize := bitSize / 8 + if bitSize % 8 > 0 then 1 else 0
  let buffer := (data.drop NbglArea.sizeof).take bufferSize
  let transformation ← byteAt data (NbglArea.sizeof + bufferSize)
  let colorMap ← byteAt data (NbglArea.sizeof + bufferSize + 1)
  return { area, bpp, transformation, buffer, colorMap }

variable (gunzip : Bytes → Except NbglError Bytes)

def decompressAll : Bytes → Except NbglError Bytes
  | [] => .ok []
  | [_] => .error .indexError
  | lo :: hi :: buffer => do
    let compressedChunkLen := 256 * hi.toNat + lo.toNat
    let chunk ← gunzip (buffer.take compressedChunkLen)
    return chunk ++ (← decompressAll (buffer.drop compressedChunkLen))
termination_by buffer => buffer.length
decreasing_by
  simp only [List.length_drop, List.length_cons]
  omega

/-- The image of a file, with the area of the file: no transformation, and the
colour map that the syscall appended. -/
def drawFileImage (model : Model) (area : NbglArea) (image : Bytes) (colorMap : UInt8) :
    Except NbglError DrawImage :=
  halDrawImage model (area.build ++ image ++ [0, colorMap])

def halDrawImageFile (model : Model) (data : Bytes) : Except NbglError DrawImage := do
  let area ← NbglArea.parse (data.take NbglArea.sizeof)
  assertArea model area
  let data := data.drop NbglArea.sizeof
  let area := { area with
    width := UInt16.ofNat (fromLE [← byteAt data 0, ← byteAt data 1])
    height := UInt16.ofNat (fromLE [← byteAt data 2, ← byteAt data 3])
    bpp := (← byteAt data 4) >>> 4 }
  let bpp := nbglBppToReadBpp area.bpp
  let compression := (← byteAt data 4) &&& 0xF
  if compression ≠ 0 then
    let bufferSize := fromLE [← byteAt data 5, ← byteAt data 6, ← byteAt data 7]
    let image ← decompressAll gunzip ((data.drop 8).take bufferSize)
    drawFileImage model area image (data.getLastD 0)
  else
    let bufferSize := (pixels area * bpp + 7) / 8
    drawFileImage model area ((data.drop 8).take bufferSize) (data.getLastD 0)

end Nbgl

end Speculos.Display

/-!
## The pixels of an NBGL image

`draw_image` of `nbgl.py`, with the colours of its pixel values, and
`hal_draw_image_rle` up to the call of it. The points drawn before a value that
has no colour are left out: whether a value has one depends on the image, not on
the value.
-/

namespace Speculos.Display

open Lib

inductive NbglColor
  | black
  | darkGray
  | lightGray
  | white
  deriving DecidableEq, Repr

/-- What ends `draw_image` early. -/
inductive DrawError
  | valueError
  | indexError
  | systemExit
  deriving DecidableEq, Repr

namespace Nbgl

/-- `NbglColor(color)` -/
def nbglColor (color : Nat) : Except DrawError NbglColor :=
  if color = 0 then .ok .black
  else if color = 1 then .ok .darkGray
  else if color = 2 then .ok .lightGray
  else if color = 3 then .ok .white
  else .error .valueError

def toScreenColor (color bpp : Nat) : Except DrawError Nat :=
  if bpp = 1 then .ok (color * 0xFFFFFF)
  else if bpp = 2 then .ok (color * 0x555555)
  else if bpp = 4 then .ok (color * 0x111111)
  else .error .valueError

def getColorFromColorMap (color colorMap bpp : Nat) : Except DrawError Nat :=
  toScreenColor ((colorMap >>> (color * 2)) &&& 0x3) bpp

def colorMaps4bpp : NbglColor → NbglColor → List Nat
  | .black, .white => [0, 1, 2, 3, 4, 5, 6, 7, 8, 9, 10, 11, 12, 13, 14, 15]
  | .white, .black => [15, 14, 13, 12, 11, 10, 9, 8, 7, 6, 5, 4, 3, 2, 1, 0]
  | .darkGray, .white => [5, 5, 6, 6, 7, 7, 8, 8, 9, 9, 10, 11, 12, 13, 14, 15]
  | .lightGray, .white => [10, 10, 11, 11, 12, 12, 13, 13, 13, 14, 14, 14, 15, 15, 15, 15]
  | .lightGray, .black => [10, 9, 8, 7, 6, 5, 4, 4, 3, 3, 2, 2, 1, 1, 0, 0]
  -- default computed colour maps
  | .black, .black => [0, 0, 0, 0, 0, 0, 0, 0, 0, 0, 0, 0, 0, 0, 0, 0]
  | .black, .darkGray => [0, 0, 1, 1, 1, 2, 2, 2, 3, 3, 4, 4, 4, 5, 5, 5]
  | .black, .lightGray => [0, 1, 2, 2, 3, 4, 4, 5, 6, 6, 7, 8, 8, 9, 10, 10]
  | .darkGray, .black => [5, 5, 4, 4, 4, 3, 3, 3, 2, 2, 1, 1, 1, 0, 0, 0]
  | .darkGray, .darkGray => [5, 5, 5, 5, 5, 5, 5, 5, 5, 5, 5, 5, 5, 5, 5, 5]
  | .darkGray, .lightGray => [5, 5, 6, 6, 6, 7, 7, 7, 8, 8, 9, 9, 9, 10, 10, 10]
  | .lightGray, .darkGray => [10, 10, 9, 9, 9, 8, 8, 8, 7, 7, 6, 6, 6, 5, 5, 5]
  | .lightGray, .lightGray => [10, 10, 10, 10, 10, 10, 10, 10, 10, 10, 10, 10, 10, 10, 10, 10]
  | .white, .darkGray => [15, 14, 13, 13, 12, 11, 11, 10, 9, 9, 8, 7, 7, 6, 5, 5]
  | .white, .lightGray => [15, 15, 14, 14, 14, 13, 13, 13, 12, 12, 11, 11, 11, 10, 10, 10]
  | .white, .white => [15, 15, 15, 15, 15, 15, 15, 15, 15, 15, 15, 15, 15, 15, 15, 15]

theorem length_colorMaps4bpp (front back : NbglColor) : (colorMaps4bpp front back).length = 16 := by
  cases front <;> cases back <;> rfl

def get4bppColorFromColorIndex (index frontColor backColor : Nat) : Except DrawError Nat := do
  let front ← nbglColor frontColor
  let back ← nbglColor backColor
  match (colorMaps4bpp front back)[index]? with
  | some mappedIndex => toScreenColor mappedIndex 4
  | none => .error .indexError

/-- How `draw_image` reads a buffer: `bit_step`, `mask`, and `color_map` and `bpp` as
it goes on with them. -/
structure Reading where
  bitStep : Nat
  mask : Nat
  colorMap : Nat
  bpp : Nat
  deriving DecidableEq, Repr

def DrawImage.reading (image : DrawImage) : Reading :=
  if image.bpp = 1 then
    { bitStep := 1, mask := 0x1, bpp := 2
      colorMap := image.colorMap.toNat <<< 2 ||| image.area.color.toNat }
  else if image.bpp = 2 then
    { bitStep := 2, mask := 0x3, bpp := image.bpp, colorMap := image.colorMap.toNat }
  else { bitStep := 4, mask := 0xF, bpp := image.bpp, colorMap := image.colorMap.toNat }

def DrawImage.pixelColor (image : DrawImage) (nib : Nat) : Except DrawError Nat :=
  let reading := image.reading
  if reading.colorMap ≠ 0 ∧ reading.bpp < 4 then
    getColorFromColorMap nib reading.colorMap reading.bpp
  else if reading.bpp = 4 then
    get4bppColorFromColorIndex nib reading.colorMap image.area.color.toNat
  else toScreenColor nib reading.bpp

def start (area : NbglArea) (transformation : UInt8) : Except DrawError Pixel :=
  let x0 := area.x0.toInt
  let y0 := area.y0.toInt
  let width := area.width.toNat
  let height := area.height.toNat
  if transformation = 0 then .ok (x0 + width - 1, y0)
  else if transformation = 1 then .ok (x0 + width - 1, y0 + height - 1) -- h mirror
  else if transformation = 2 then .ok (x0, y0) -- v mirror
  else if transformation = 3 then .ok (x0, y0 + height - 1) -- hw mirror
  else if transformation = 4 then .ok (x0, y0) -- 90 clockwise
  else .error .systemExit

/-- The point drawn after another one, unless `draw_image` returns. -/
def advance (area : NbglArea) (transformation : UInt8) (p : Pixel) : Option Pixel :=
  let (x, y) := p
  let x0 := area.x0.toInt
  let y0 := area.y0.toInt
  let width := area.width.toNat
  let height := area.height.toNat
  if transformation = 0 then
    if y < y0 + height - 1 then some (x, y + 1)
    else if x - 1 < x0 then none else some (x - 1, y0)
  else if transformation = 1 then -- h mirror
    if y > y0 then some (x, y - 1)
    else if x - 1 < x0 then none else some (x - 1, y0 + height - 1)
  else if transformation = 2 then -- v mirror
    if y < y0 + height - 1 then some (x, y + 1)
    else if x + 1 ≥ x0 + width then none else some (x + 1, y0)
  else if transformation = 3 then -- hw mirror
    if y > y0 then some (x, y - 1)
    else some (x + 1, y0 + height - 1)
  else if transformation = 4 then -- 90 clockwise
    if x < x0 + width - 1 then some (x + 1, y)
    else if y + 1 ≥ y0 + height then none else some (x0, y + 1)
  else some (x, y)

/-- The loop over the bits of a byte: what is drawn, and the next point unless
`draw_image` has returned. -/
def drawBits (image : DrawImage) (byte : UInt8) :
    List Nat → Pixel → Except DrawError (List Draw × Option Pixel)
  | [], p => return ([], some p)
  | i :: bits, p => do
    let nib := (byte.toNat >>> (8 - image.reading.bitStep - i)) &&& image.reading.mask
    let color ← image.pixelColor nib
    match advance image.area image.transformation p with
    | none => return ([.point p.1 p.2 color], none)
    | some next => do
      let rest ← drawBits image byte bits next
      return (.point p.1 p.2 color :: rest.1, rest.2)

def drawBuffer (image : DrawImage) : Bytes → Pixel → Except DrawError (List Draw)
  | [], _ => return []
  | byte :: buffer, p => do
    let bitStep := image.reading.bitStep
    let drawn ← drawBits image byte (List.range' 0 (8 / bitStep) bitStep) p
    match drawn.2 with
    | none => return drawn.1
    | some next => return drawn.1 ++ (← drawBuffer image buffer next)

/-- The calls that `draw_image` makes. -/
def drawImage (image : DrawImage) : Except DrawError (List Draw) := do
  let p ← start image.area image.transformation
  drawBuffer image image.buffer p

/-- `hal_draw_image_rle`, of which the errors of the decoder are on the right. -/
def halDrawImageRle (model : Model) (data : Bytes) :
    Except (NbglError ⊕ Rle.RleError) DrawImage := do
  let area ← (NbglArea.parse (data.take NbglArea.sizeof)).mapError .inl
  (assertArea model area).mapError .inl
  let bitmap := (data.take (data.length - (1 + 1 + 4))).drop NbglArea.sizeof
  let bpp := nbglBppToReadBpp area.bpp
  -- initial transparent pixels (bytes, in that case) may have to be skipped
  let nbSkippedBytes ← (byteAt data (NbglArea.sizeof + bitmap.length + 1)).mapError .inl
  let skipped := List.replicate nbSkippedBytes.toNat (if bpp = 4 then (0xFF : UInt8) else 0x00)
  let decoded ← (Rle.RLECustom.decode 1 bitmap bpp).mapError .inr
  let colorMap ← (byteAt data (NbglArea.sizeof + bitmap.length)).mapError .inl
  return { area, bpp, transformation := 0, buffer := skipped ++ decoded, colorMap }

end Nbgl

end Speculos.Display
