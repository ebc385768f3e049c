import Speculos.Display.Nbgl

/-!
# NBGL image files

An image file that is not compressed has its bitmap behind a header of eight
bytes. `nbgl.c` takes the code of the bits per pixel for their number less one,
`nbgl.py` looks the number up: for four bits per pixel the call sends three, and
the rest of the bitmap is missing. The first missing byte is taken to be the
colour map that follows, the next ones raise.
-/

namespace Speculos.Display

open Lib

namespace Nbgl

open NbglSyscalls

/-- An image file that is not compressed, with the size of the area, of which
the message has at most 65535 bytes. -/
structure ImageFile (area : NbglArea) (file : Region) : Prop where
  width : fromLE (file.slice 0 2) = area.width.toNat
  height : fromLE (file.slice 2 2) = area.height.toNat
  compression : file.cell 4 &&& 0xF = 0
  bpp : (file.cell 4 >>> 4).toNat ≤ 2
  length : NbglArea.sizeof + 1 + (8 + (pixels area * ((file.cell 4 >>> 4).toNat + 1) + 7) / 8) ≤
    65535

def bitmap (area : NbglArea) (file : Region) : Bytes :=
  file.slice 8 ((pixels area * 2 ^ (file.cell 4 >>> 4).toNat + 7) / 8)

def payload (area : NbglArea) (file : Region) (colorMap : UInt8) (uzlibWorkBuffer : Bool)
    (character : Nat) : Bytes :=
  (drawImgFile area file colorMap uzlibWorkBuffer character).tail.flatten

/-- The bitmap is drawn as it is, with the colour map. -/
def DrawsWhole (gunzip : Bytes → Except NbglError Bytes) (model : Model) (area : NbglArea)
    (file : Region) (colorMap : UInt8) (uzlibWorkBuffer : Bool) (character : Nat) : Prop :=
  ∃ call, halDrawImageFile gunzip model
      (payload area file colorMap uzlibWorkBuffer character) = .ok call ∧
    call.buffer = bitmap area file ∧ call.transformation = 0 ∧ call.colorMap = colorMap

-- ---------------------------------------------------------------------------
-- The payload
-- ---------------------------------------------------------------------------

variable {area : NbglArea} {file : Region}

def fileArea (area : NbglArea) (file : Region) : NbglArea := { area with bpp := file.cell 4 >>> 4 }

def sentBitmap (area : NbglArea) (file : Region) : Bytes :=
  file.slice 8 ((pixels area * ((file.cell 4 >>> 4).toNat + 1) + 7) / 8)

theorem ImageFile.payload_eq (h : ImageFile area file) (colorMap : UInt8) (uzlibWorkBuffer : Bool)
    (character : Nat) :
    payload area file colorMap uzlibWorkBuffer character =
      (fileArea area file).build ++ (file.slice 0 8 ++ sentBitmap area file ++ [colorMap]) := by
  have hlength := h.length
  have hparts : drawImgFile area file colorMap uzlibWorkBuffer character =
      [header seproxyhalTagNbglDrawImageFile (NbglArea.sizeof + 1 +
          (8 + (pixels area * ((file.cell 4 >>> 4).toNat + 1) + 7) / 8)),
        (fileArea area file).build,
        sent file 0 (8 + (pixels area * ((file.cell 4 >>> 4).toNat + 1) + 7) / 8), [colorMap]] := by
    rw [drawImgFile]
    simp only [h.compression]
    rw [if_neg fun hnone => absurd hnone.1 (by decide)]
    rfl
  have hsent : sent file 0 (8 + (pixels area * ((file.cell 4 >>> 4).toNat + 1) + 7) / 8) =
      file.slice 0 8 ++ sentBitmap area file := by
    rw [sent, Nat.mod_eq_of_lt (by omega), Region.slice_add]
    rfl
  rw [payload, hparts, List.tail_cons, hsent]
  simp only [List.flatten_cons, List.flatten_nil, List.append_nil]

-- ---------------------------------------------------------------------------
-- Drawing
-- ---------------------------------------------------------------------------

def bufferSize (area : NbglArea) : Nat := (pixels area * nbglBppToReadBpp area.bpp + 7) / 8

theorem byteAt_append (as bs : Bytes) (i : Nat) :
    byteAt (as ++ bs) (as.length + i) = byteAt bs i := by
  rw [byteAt, byteAt, List.getElem?_append_right (Nat.le_add_right _ _), Nat.add_sub_cancel_left]

theorem drawFileImage_eq (model : Model) (area : NbglArea) (image : Bytes) (colorMap : UInt8) :
    drawFileImage model area image colorMap = (do
      assertArea model area
      let transformation ← byteAt (image ++ [0, colorMap]) (bufferSize area)
      let color ← byteAt (image ++ [0, colorMap]) (bufferSize area + 1)
      return ⟨area, nbglBppToReadBpp area.bpp, transformation,
        (image ++ [0, colorMap]).take (bufferSize area), color⟩) := by
  have hsizeof : NbglArea.sizeof = area.build.length := rfl
  rw [drawFileImage, halDrawImage, List.append_assoc, hsizeof, List.take_left, NbglArea.parse_build]
  simp only [bind, Except.bind, List.drop_left, Nat.add_assoc, byteAt_append, bytes_of_bits]
  rfl

theorem drawFileImage_of_length_eq (hassert : assertArea model area = .ok ()) (image : Bytes)
    (hlen : image.length = bufferSize area) (colorMap : UInt8) :
    drawFileImage model area image colorMap =
      .ok ⟨area, nbglBppToReadBpp area.bpp, 0, image, colorMap⟩ := by
  have htransformation := byteAt_append image [0, colorMap] 0
  have hcolor := byteAt_append image [0, colorMap] 1
  rw [Nat.add_zero] at htransformation
  rw [drawFileImage_eq, hassert, ← hlen, htransformation, hcolor, List.take_left]
  rfl

theorem drawFileImage_of_length_lt (hassert : assertArea model area = .ok ()) (image : Bytes)
    (hlen : image.length < bufferSize area) (colorMap : UInt8) :
    drawFileImage model area image colorMap = .error .indexError := by
  have hpast : byteAt (image ++ [0, colorMap]) (bufferSize area + 1) = .error .indexError := by
    rw [byteAt, List.getElem?_eq_none]
    rw [List.length_append, List.length_cons, List.length_singleton]
    omega
  rw [drawFileImage_eq, hassert, hpast]
  simp only [bind, Except.bind, byteAt]
  cases (image ++ [0, colorMap])[bufferSize area]? with
  | none => rfl
  | some b => rfl

theorem ok_bind (a : α) (f : α → Except NbglError β) : (Except.ok a >>= f) = f a := rfl

/-- The payload is an image file again, drawn from the beginning of the bitmap and
the byte behind it. -/
theorem ImageFile.halDrawImageFile_eq (h : ImageFile area file)
    (gunzip : Bytes → Except NbglError Bytes) (model : Model) (colorMap : UInt8)
    (uzlibWorkBuffer : Bool) (character : Nat) :
    halDrawImageFile gunzip model (payload area file colorMap uzlibWorkBuffer character) = (do
      assertArea model (fileArea area file)
      drawFileImage model (fileArea area file)
        ((sentBitmap area file ++ [colorMap]).take (bufferSize (fileArea area file))) colorMap) := by
  have hsizeof : NbglArea.sizeof = (fileArea area file).build.length := rfl
  have hbyte (i : Nat) (hi : i < 8) :
      byteAt (file.slice 0 8 ++ sentBitmap area file ++ [colorMap]) i = .ok (file.cell i) := by
    have hlt : i < (file.slice 0 8).length := by rwa [Region.length_slice]
    rw [byteAt, List.append_assoc, List.getElem?_append_left hlt, List.getElem?_eq_getElem hlt,
      Region.getElem_slice, Nat.zero_add]
  have hwidth : UInt16.ofNat (fromLE [file.cell 0, file.cell 1]) = area.width := by
    have hslice : [file.cell 0, file.cell 1] = file.slice 0 2 := rfl
    rw [hslice, h.width, UInt16.ofNat_toNat]
  have hheight : UInt16.ofNat (fromLE [file.cell 2, file.cell 3]) = area.height := by
    have hslice : [file.cell 2, file.cell 3] = file.slice 2 2 := rfl
    rw [hslice, h.height, UInt16.ofNat_toNat]
  have hdrop : (file.slice 0 8 ++ sentBitmap area file ++ [colorMap]).drop 8 =
      sentBitmap area file ++ [colorMap] := by
    rw [List.append_assoc]
    exact List.drop_left' (Region.length_slice ..)
  have hlast : (file.slice 0 8 ++ sentBitmap area file ++ [colorMap]).getLastD 0 = colorMap := by
    rw [List.getLastD_concat]
  rw [halDrawImageFile, h.payload_eq, hsizeof, List.take_left, NbglArea.parse_build, List.drop_left]
  simp only [ok_bind, hbyte 0 (by decide), hbyte 1 (by decide), hbyte 2 (by decide),
    hbyte 3 (by decide), hbyte 4 (by decide), hwidth, hheight, h.compression, hdrop, hlast]
  rw [if_neg (not_not.mpr rfl)]
  rfl

-- ---------------------------------------------------------------------------
-- Whole bitmaps
-- ---------------------------------------------------------------------------

def sentSize (area : NbglArea) (file : Region) : Nat :=
  (pixels area * ((file.cell 4 >>> 4).toNat + 1) + 7) / 8

theorem ImageFile.readBpp (h : ImageFile area file) :
    nbglBppToReadBpp (fileArea area file).bpp = 2 ^ (file.cell 4 >>> 4).toNat := by
  have hcodes : ∀ code ≤ 2, nbglBppToReadBpp (UInt8.ofNat code) = 2 ^ code := by decide
  have hcode := hcodes _ h.bpp
  rwa [UInt8.ofNat_toNat] at hcode

theorem ImageFile.bitmap_eq (h : ImageFile area file) :
    bitmap area file = file.slice 8 (bufferSize (fileArea area file)) := by
  rw [bitmap, bufferSize, h.readBpp]
  rfl

/-- All of the bitmap is sent, or all but a last byte that the colour map stands
in for. -/
theorem ImageFile.drawsWhole_iff_size (h : ImageFile area file)
    (gunzip : Bytes → Except NbglError Bytes) (model : Model) (colorMap : UInt8)
    (uzlibWorkBuffer : Bool) (character : Nat) :
    DrawsWhole gunzip model area file colorMap uzlibWorkBuffer character ↔
      assertArea model area = .ok () ∧
        (bufferSize (fileArea area file) ≤ sentSize area file ∨
          bufferSize (fileArea area file) = sentSize area file + 1 ∧
            file.cell (8 + sentSize area file) = colorMap) := by
  have hsent : (sentBitmap area file).length = sentSize area file := Region.length_slice ..
  have hassert : assertArea model (fileArea area file) = assertArea model area := rfl
  rw [DrawsWhole, h.halDrawImageFile_eq, h.bitmap_eq, hassert]
  generalize hsize : bufferSize (fileArea area file) = size
  cases harea : assertArea model area with
  | error e =>
    constructor
    · rintro ⟨call, hcall, -⟩
      cases hcall
    · rintro ⟨hok, -⟩
      cases hok
  | ok =>
    simp only [bind, Except.bind, true_and]
    have hlen : ((sentBitmap area file ++ [colorMap]).take size).length =
        min size (sentSize area file + 1) := by
      rw [List.length_take, List.length_append, hsent, List.length_singleton]
    by_cases hshort : sentSize area file + 1 < size
    · have hraises := drawFileImage_of_length_lt (hassert.trans harea)
        ((sentBitmap area file ++ [colorMap]).take size) (by rw [hlen, hsize]; omega) colorMap
      constructor
      · rintro ⟨call, hcall, -⟩
        rw [hraises] at hcall
        cases hcall
      · intro hor
        omega
    · have hdraws := drawFileImage_of_length_eq (hassert.trans harea)
        ((sentBitmap area file ++ [colorMap]).take size) (by rw [hlen, hsize]; omega) colorMap
      have hwhole := Region.take_slice_concat_iff file 8 (sentSize area file) colorMap
        (Nat.le_of_not_lt hshort)
      constructor
      · rintro ⟨call, hcall, hbuffer, -⟩
        rw [hdraws] at hcall
        cases hcall
        exact hwhole.mp hbuffer
      · intro hor
        exact ⟨_, hdraws, hwhole.mpr hor, rfl, rfl⟩

/-- What a file needs to be drawn whole: one or two bits per pixel, or so few
pixels that nothing of the bitmap is missing, or only a last byte that is the
colour map. -/
def Complete (area : NbglArea) (file : Region) (colorMap : UInt8) : Prop :=
  (file.cell 4 >>> 4).toNat = 2 → pixels area ≤ 4 ∨ pixels area = 6 ∨
    pixels area ∈ [5, 7, 8, 9, 10, 11, 12, 14] ∧ (bitmap area file).getLast? = some colorMap

theorem getLast?_slice (r : Region) (off n : Nat) :
    (r.slice off (n + 1)).getLast? = some (r.cell (off + n)) := by
  rw [Region.slice_add, Region.slice_one, List.getLast?_concat]

/-- Where four bits per pixel take no more bytes than three, or one byte more. -/
theorem size_le_iff (n : Nat) : (n * 4 + 7) / 8 ≤ (n * 3 + 7) / 8 ↔ n ≤ 4 ∨ n = 6 := by
  have hfew : ∀ n < 16, ((n * 4 + 7) / 8 ≤ (n * 3 + 7) / 8 ↔ n ≤ 4 ∨ n = 6) := by decide
  by_cases h : n < 16
  · exact hfew n h
  · exact iff_of_false (by omega) (by omega)

theorem size_eq_succ_iff (n : Nat) :
    (n * 4 + 7) / 8 = (n * 3 + 7) / 8 + 1 ↔ n ∈ [5, 7, 8, 9, 10, 11, 12, 14] := by
  have hfew : ∀ n < 32, ((n * 4 + 7) / 8 = (n * 3 + 7) / 8 + 1 ↔
      n ∈ [5, 7, 8, 9, 10, 11, 12, 14]) := by decide
  by_cases h : n < 32
  · exact hfew n h
  · refine iff_of_false (by omega) fun hmem => ?_
    simp only [List.mem_cons, List.not_mem_nil, or_false] at hmem
    omega

theorem ImageFile.complete_iff (h : ImageFile area file) (colorMap : UInt8) :
    Complete area file colorMap ↔
      bufferSize (fileArea area file) ≤ sentSize area file ∨
        bufferSize (fileArea area file) = sentSize area file + 1 ∧
          file.cell (8 + sentSize area file) = colorMap := by
  have hbpp := h.bpp
  have hlast (hone : bufferSize (fileArea area file) = sentSize area file + 1) :
      (bitmap area file).getLast? = some (file.cell (8 + sentSize area file)) := by
    rw [h.bitmap_eq, hone, getLast?_slice]
  have hsize : bufferSize (fileArea area file) =
      (pixels area * 2 ^ (file.cell 4 >>> 4).toNat + 7) / 8 := by
    rw [bufferSize, h.readBpp]
    rfl
  have hsent : sentSize area file =
      (pixels area * ((file.cell 4 >>> 4).toNat + 1) + 7) / 8 := rfl
  rw [Complete]
  by_cases hfour : (file.cell 4 >>> 4).toNat = 2
  · rw [hfour] at hsize hsent
    have hle : bufferSize (fileArea area file) ≤ sentSize area file ↔
        pixels area ≤ 4 ∨ pixels area = 6 := by
      rw [hsize, hsent]
      exact size_le_iff (pixels area)
    have hone : bufferSize (fileArea area file) = sentSize area file + 1 ↔
        pixels area ∈ [5, 7, 8, 9, 10, 11, 12, 14] := by
      rw [hsize, hsent]
      exact size_eq_succ_iff (pixels area)
    rw [← hone, ← or_assoc, ← hle]
    constructor
    · intro hcomplete
      refine (hcomplete hfour).imp_right fun ⟨hone, hcolor⟩ => ?_
      rw [hlast hone] at hcolor
      exact ⟨hone, Option.some.inj hcolor⟩
    · intro hsizes _
      exact hsizes.imp_right fun ⟨hone, hcolor⟩ => ⟨hone, by rw [hlast hone, hcolor]⟩
  · refine iff_of_true (fun hbpp' => absurd hbpp' hfour) (.inl ?_)
    rcases (by omega : (file.cell 4 >>> 4).toNat = 0 ∨ (file.cell 4 >>> 4).toNat = 1) with h0 | h1
    · rw [h0] at hsize hsent
      omega
    · rw [h1] at hsize hsent
      omega

/-- Exactly the complete files are drawn whole, on an area that is accepted. -/
theorem ImageFile.drawsWhole_iff (h : ImageFile area file)
    (gunzip : Bytes → Except NbglError Bytes) (model : Model) (colorMap : UInt8)
    (uzlibWorkBuffer : Bool) (character : Nat) :
    DrawsWhole gunzip model area file colorMap uzlibWorkBuffer character ↔
      assertArea model area = .ok () ∧ Complete area file colorMap := by
  rw [h.complete_iff, h.drawsWhole_iff_size]

/-- Six pixels of two bits each. -/
theorem drawsWhole_twoBits :
    DrawsWhole (fun _ => .error .badGzipFile) .stax ⟨10, 20, 3, 2, 3, 0⟩
      (Region.zeroed.memcpy 0 [3, 0, 2, 0, 0x10, 0, 0, 0, 0xAB, 0xC0] 10) 0x1B false 0 :=
  (ImageFile.drawsWhole_iff ⟨by decide, by decide, by decide, by decide, by decide⟩ _ .stax 0x1B
    false 0).mpr ⟨rfl, fun hfour => absurd hfour (by decide)⟩

/-- Sixteen pixels of four bits each: six of eight bytes are sent. -/
theorem drawsWhole_fourBits :
    ImageFile ⟨10, 20, 4, 4, 3, 2⟩ (Region.zeroed.memcpy 0 [4, 0, 4, 0, 0x20] 5) ∧
      ¬ DrawsWhole (fun _ => .error .badGzipFile) .stax ⟨10, 20, 4, 4, 3, 2⟩
        (Region.zeroed.memcpy 0 [4, 0, 4, 0, 0x20] 5) 0x1B false 0 := by
  have hfile : ImageFile ⟨10, 20, 4, 4, 3, 2⟩ (Region.zeroed.memcpy 0 [4, 0, 4, 0, 0x20] 5) :=
    ⟨by decide, by decide, by decide, by decide, by decide⟩
  refine ⟨hfile, fun h => ?_⟩
  obtain ⟨-, hle | ⟨hone, -⟩⟩ := (hfile.drawsWhole_iff_size _ .stax 0x1B false 0).mp h
  · exact absurd hle (by decide)
  · exact absurd hone (by decide)

end Nbgl

end Speculos.Display
