import Mathlib.Data.List.Range
import Speculos.Display.Nbgl

/-!
# Filling the area of an image

The five transformations walk along the columns or the rows of the area, and the
values of the buffer are laid out on the walk. All of the walks but the third
end with the area, so values that are left over are drawn nowhere; the third one
draws them in further columns on the right.
-/

namespace Speculos.Display

open Lib

namespace Nbgl

def InArea (area : NbglArea) (p : Pixel) : Prop :=
  (area.x0.toInt ≤ p.1 ∧ p.1 < area.x0.toInt + area.width.toNat) ∧
    area.y0.toInt ≤ p.2 ∧ p.2 < area.y0.toInt + area.height.toNat

/-- The lines in which an area is drawn: its columns, or its rows for the last
transformation. -/
def lineCount (area : NbglArea) (transformation : UInt8) : Nat :=
  if transformation = 4 then area.height.toNat else area.width.toNat

def lineLength (area : NbglArea) (transformation : UInt8) : Nat :=
  if transformation = 4 then area.width.toNat else area.height.toNat

def place (area : NbglArea) (transformation : UInt8) (c : Nat × Nat) : Pixel :=
  let right := area.x0.toInt + area.width.toNat - 1
  let bottom := area.y0.toInt + area.height.toNat - 1
  if transformation = 0 then (right - c.1, area.y0.toInt + c.2)
  else if transformation = 1 then (right - c.1, bottom - c.2)
  else if transformation = 2 then (area.x0.toInt + c.1, area.y0.toInt + c.2)
  else if transformation = 3 then (area.x0.toInt + c.1, bottom - c.2)
  else (area.x0.toInt + c.2, area.y0.toInt + c.1)

/-- The pixel that a transformation assigns to the value `k`. -/
def assigned (area : NbglArea) (transformation : UInt8) (k : Nat) : Pixel :=
  place area transformation (cell (lineLength area transformation) k)

/-- The value `k` of a buffer with `bpp` bits a value, the first one in the highest
bits of a byte. -/
def pixelValue (bpp : Nat) (buffer : Bytes) (k : Nat) : Nat :=
  ((buffer.getD (k / (8 / bpp)) 0).toNat >>> (8 - bpp - k % (8 / bpp) * bpp)) &&& (2 ^ bpp - 1)

/-- Each pixel of the area is drawn once, in the colour of the value whose position it
is, and no other pixel is. -/
structure FillsArea (image : DrawImage) (calls : List Draw) : Prop where
  once : ∀ p, InArea image.area p → (calls.countP fun call => call.Covers p) = 1
  inside : ∀ call ∈ calls, ∀ p, call.Covers p → InArea image.area p
  value : ∀ k call, calls[k]? = some call →
    ∃ color, image.pixelColor (pixelValue image.bpp image.buffer k) = .ok color ∧
      call = .point (assigned image.area image.transformation k).1
        (assigned image.area image.transformation k).2 color

/-- An area that is not empty, with a buffer that is large enough for it. -/
structure IsImage (image : DrawImage) : Prop where
  width : 1 ≤ image.area.width.toNat
  height : 1 ≤ image.area.height.toNat
  bpp : image.bpp = 1 ∨ image.bpp = 2 ∨ image.bpp = 4
  transformation : image.transformation ≤ 4
  buffer : (pixels image.area * image.bpp + 7) / 8 ≤ image.buffer.length

/-- The colours of the image are among those with a colour map. -/
def KnownColors (image : DrawImage) : Prop :=
  image.bpp = 4 → image.colorMap.toNat < 4 ∧ image.area.color.toNat < 4

-- ---------------------------------------------------------------------------
-- The walk
-- ---------------------------------------------------------------------------

variable {area : NbglArea} {transformation : UInt8}

theorem transformation_cases (h : transformation ≤ 4) :
    transformation = 0 ∨ transformation = 1 ∨ transformation = 2 ∨ transformation = 3 ∨
      transformation = 4 := by
  have hle : transformation.toNat ≤ 4 := UInt8.le_iff_toNat_le.mp h
  simp only [← UInt8.toNat_inj, UInt8.reduceToNat]
  omega

variable (transformation) in
theorem lineCount_mul_lineLength :
    lineCount area transformation * lineLength area transformation = pixels area := by
  rw [lineCount, lineLength, pixels]
  split
  · exact Nat.mul_comm ..
  · rfl

theorem start_eq (h : transformation ≤ 4) :
    start area transformation = .ok (place area transformation (0, 0)) := by
  rcases transformation_cases h with rfl | rfl | rfl | rfl | rfl <;> simp [start, place]

theorem advance_place_of_lt (h : transformation ≤ 4)
    (hb : c.2 + 1 < lineLength area transformation) :
    advance area transformation (place area transformation c) =
      some (place area transformation (c.1, c.2 + 1)) := by
  rcases transformation_cases h with rfl | rfl | rfl | rfl | rfl
  all_goals
    simp [advance, place, lineLength] at hb ⊢
    rw [if_pos (by omega)]
    simp only [Option.some.injEq, Prod.mk.injEq, true_and, and_true]
    omega

/-- At the end of a line the walk goes on to the next one, and all walks but the third
end at the last line. -/
theorem advance_place_of_last (h : transformation ≤ 4)
    (ha : c.1 < lineCount area transformation ∨ transformation = 3)
    (hb : c.2 + 1 = lineLength area transformation) :
    advance area transformation (place area transformation c) =
      if transformation = 3 ∨ c.1 + 1 < lineCount area transformation then
        some (place area transformation (c.1 + 1, 0)) else none := by
  rcases transformation_cases h with rfl | rfl | rfl | rfl | rfl
  all_goals
    simp [advance, place, lineLength, lineCount] at ha hb ⊢
    rw [if_neg (by omega)]
    grind

-- ---------------------------------------------------------------------------
-- The calls
-- ---------------------------------------------------------------------------

section
variable (h : transformation ≤ 4) (hlength : 0 < lineLength area transformation)
include h hlength

theorem advance_assigned_of_lt (hk : k + 1 < pixels area) :
    advance area transformation (assigned area transformation k) =
      some (assigned area transformation (k + 1)) := by
  rw [← lineCount_mul_lineLength transformation] at hk
  have hlt : k < lineCount area transformation * lineLength area transformation := by omega
  obtain ⟨ha, hb⟩ := cell_lt hlt
  rw [assigned, assigned, cell_succ hlength]
  split
  · next hline => exact advance_place_of_lt h hline
  · next hline =>
    have hnext := ((succ_lt_iff_cell hlt).mp hk).resolve_left hline
    rw [advance_place_of_last h (.inl ha) (by omega), if_pos (.inr hnext)]

omit hlength in
theorem advance_assigned_of_last (h3 : transformation ≠ 3) (hk : k + 1 = pixels area) :
    advance area transformation (assigned area transformation k) = none := by
  rw [← lineCount_mul_lineLength transformation] at hk
  have hlt : k < lineCount area transformation * lineLength area transformation := by omega
  obtain ⟨ha, hb⟩ := cell_lt hlt
  have hend := mt (succ_lt_iff_cell hlt).mpr (Nat.not_lt.mpr (Nat.le_of_eq hk.symm))
  rw [not_or] at hend
  rw [assigned, advance_place_of_last h (.inl ha) (by omega), if_neg (not_or.mpr ⟨h3, hend.2⟩)]

/-- The third transformation goes on for ever. -/
theorem advance_assigned_of_eq (h3 : transformation = 3) (k : Nat) :
    advance area transformation (assigned area transformation k) =
      some (assigned area transformation (k + 1)) := by
  have hb : (cell (lineLength area transformation) k).2 < lineLength area transformation :=
    Nat.mod_lt k hlength
  rw [assigned, assigned, cell_succ hlength]
  split
  · next hline => exact advance_place_of_lt h hline
  · next hline => rw [advance_place_of_last h (.inr h3) (by omega), if_pos (.inl h3)]

end

-- ---------------------------------------------------------------------------
-- The values
-- ---------------------------------------------------------------------------

variable {image : DrawImage}

theorem reading_bitStep (hbpp : image.bpp = 1 ∨ image.bpp = 2 ∨ image.bpp = 4) :
    image.reading.bitStep = image.bpp ∧ image.reading.mask = 2 ^ image.bpp - 1 := by
  rcases hbpp with h | h | h <;> simp [DrawImage.reading, h]

def byteValues (image : DrawImage) (byte : UInt8) : List Nat :=
  (List.range' 0 (8 / image.reading.bitStep) image.reading.bitStep).map fun i =>
    (byte.toNat >>> (8 - image.reading.bitStep - i)) &&& image.reading.mask

theorem byteValues_eq (hbpp : image.bpp = 1 ∨ image.bpp = 2 ∨ image.bpp = 4) (byte : UInt8)
    (buffer : Bytes) :
    byteValues image byte =
      (List.range (8 / image.bpp)).map (pixelValue image.bpp (byte :: buffer)) := by
  obtain ⟨hstep, hmask⟩ := reading_bitStep hbpp
  rw [byteValues, hstep, hmask]
  rcases hbpp with h | h | h <;> rw [h] <;> rfl

theorem pixelValue_cons (hbpp : image.bpp = 1 ∨ image.bpp = 2 ∨ image.bpp = 4) (byte : UInt8)
    (buffer : Bytes) (k : Nat) :
    pixelValue image.bpp (byte :: buffer) (8 / image.bpp + k) =
      pixelValue image.bpp buffer k := by
  have hpos : 0 < 8 / image.bpp := by rcases hbpp with h | h | h <;> simp [h]
  rw [pixelValue, pixelValue, Nat.add_div_left _ hpos, Nat.add_mod_left, List.getD_cons_succ]

theorem flatMap_byteValues (hbpp : image.bpp = 1 ∨ image.bpp = 2 ∨ image.bpp = 4) (buffer : Bytes) :
    buffer.flatMap (byteValues image) =
      (List.range (buffer.length * (8 / image.bpp))).map (pixelValue image.bpp buffer) := by
  induction buffer with
  | nil => simp
  | cons byte buffer ih =>
    rw [List.flatMap_cons, ih, byteValues_eq hbpp byte buffer, List.length_cons, Nat.succ_mul,
      Nat.add_comm, List.range_add, List.map_append, List.map_map]
    simp only [Function.comp_def, pixelValue_cons hbpp]

theorem nbglColor_eq_ok_iff (color : Nat) : (∃ c, nbglColor color = .ok c) ↔ color < 4 := by
  unfold nbglColor
  split_ifs <;> simp <;> omega

theorem toScreenColor_ok (hbpp : bpp = 1 ∨ bpp = 2 ∨ bpp = 4) (color : Nat) :
    ∃ c, toScreenColor color bpp = .ok c := by
  rcases hbpp with rfl | rfl | rfl
  · exact ⟨_, rfl⟩
  · exact ⟨_, rfl⟩
  · exact ⟨_, rfl⟩

theorem get4bppColorFromColorIndex_ok_iff (hindex : index < 16) :
    (∃ c, get4bppColorFromColorIndex index front back = .ok c) ↔ front < 4 ∧ back < 4 := by
  rw [← nbglColor_eq_ok_iff front, ← nbglColor_eq_ok_iff back, get4bppColorFromColorIndex]
  cases nbglColor front with
  | error e => simp [bind, Except.bind]
  | ok f =>
    cases nbglColor back with
    | error e => simp [bind, Except.bind]
    | ok b =>
      have hmapped := List.getElem?_eq_getElem (l := colorMaps4bpp f b) (i := index)
        (by rwa [length_colorMaps4bpp])
      simp [bind, Except.bind, hmapped, toScreenColor]

theorem pixelColor_ok_iff (hbpp : image.bpp = 1 ∨ image.bpp = 2 ∨ image.bpp = 4)
    (hnib : nib ≤ image.reading.mask) :
    (∃ color, image.pixelColor nib = .ok color) ↔ KnownColors image := by
  rcases hbpp with h | h | h
  · have hknown : KnownColors image := fun h4 => by omega
    simp only [hknown, iff_true, DrawImage.pixelColor, DrawImage.reading, h]
    simp [getColorFromColorMap]
    split <;> exact toScreenColor_ok (by simp) _
  · have hknown : KnownColors image := fun h4 => by omega
    simp only [hknown, iff_true, DrawImage.pixelColor, DrawImage.reading, h]
    simp [getColorFromColorMap]
    split <;> exact toScreenColor_ok (by simp) _
  · simp [DrawImage.reading, h] at hnib
    simp [DrawImage.pixelColor, DrawImage.reading, h, KnownColors]
    exact get4bppColorFromColorIndex_ok_iff (by omega)

-- ---------------------------------------------------------------------------
-- The calls
-- ---------------------------------------------------------------------------

/-- The point of a value, in a colour that is total. -/
def point (image : DrawImage) (v : Nat × Pixel) : Draw :=
  .point v.2.1 v.2.2 ((image.pixelColor v.1).toOption.getD 0)

theorem drawBits_eq (hcolor : ∀ nib ≤ image.reading.mask, ∃ c, image.pixelColor nib = .ok c)
    (byte : UInt8) (bits : List Nat) (p : Pixel) :
    drawBits image byte bits p =
      let laidOut := layOut (advance image.area image.transformation) (bits.map fun i =>
        (byte.toNat >>> (8 - image.reading.bitStep - i)) &&& image.reading.mask) p
      .ok (laidOut.1.map (point image), laidOut.2) := by
  induction bits generalizing p with
  | nil => rfl
  | cons i bits ih =>
    obtain ⟨c, hc⟩ := hcolor ((byte.toNat >>> (8 - image.reading.bitStep - i)) &&&
      image.reading.mask) Nat.and_le_right
    rw [drawBits, hc, List.map_cons]
    cases hnext : advance image.area image.transformation p with
    | none =>
      rw [layOut_cons_of_none hnext]
      simp [bind, Except.bind, pure, Except.pure, point, hc, Except.toOption]
    | some next =>
      rw [layOut_cons_of_some hnext]
      simp [bind, Except.bind, pure, Except.pure, ih, point, hc, Except.toOption]

theorem drawBuffer_eq (hcolor : ∀ nib ≤ image.reading.mask, ∃ c, image.pixelColor nib = .ok c)
    (buffer : Bytes) (p : Pixel) :
    drawBuffer image buffer p =
      .ok ((layOut (advance image.area image.transformation)
        (buffer.flatMap (byteValues image)) p).1.map (point image)) := by
  induction buffer generalizing p with
  | nil => rfl
  | cons byte buffer ih =>
    rw [drawBuffer, drawBits_eq hcolor, List.flatMap_cons]
    cases hend : (layOut (advance image.area image.transformation) (byteValues image byte) p).2 with
    | none =>
      rw [layOut_append_of_none hend]
      simp only [byteValues] at hend ⊢
      simp only [bind, Except.bind, hend]
      rfl
    | some next =>
      rw [layOut_append_of_some hend, List.map_append]
      simp only [byteValues] at hend ⊢
      simp only [bind, Except.bind, hend, ih]
      rfl

/-- The number of the calls: the third transformation draws all values. -/
def drawnCount (image : DrawImage) : Nat :=
  if image.transformation = 3 then image.buffer.length * (8 / image.bpp) else pixels image.area

/-- The call for the value `k`. -/
def call (image : DrawImage) (k : Nat) : Draw :=
  point image (pixelValue image.bpp image.buffer k, assigned image.area image.transformation k)

namespace IsImage

variable (h : IsImage image)
include h

theorem lineLength_pos : 0 < lineLength image.area image.transformation := by
  have hwidth := h.width
  have hheight := h.height
  rw [lineLength]
  split <;> assumption

theorem pixels_pos : 0 < pixels image.area := Nat.mul_pos h.width h.height

theorem pixels_le : pixels image.area ≤ image.buffer.length * (8 / image.bpp) := by
  have hbuffer := h.buffer
  rcases h.bpp with hbpp | hbpp | hbpp <;> rw [hbpp] at hbuffer ⊢ <;> omega

theorem values_eq_iff : image.buffer.length * (8 / image.bpp) = pixels image.area ↔
    image.buffer.length * 8 = pixels image.area * image.bpp := by
  rcases h.bpp with hbpp | hbpp | hbpp <;> rw [hbpp] <;> omega

theorem drawImage_eq (hknown : KnownColors image) :
    drawImage image = .ok ((List.range (drawnCount image)).map (call image)) := by
  have hcolor (nib : Nat) (hnib : nib ≤ image.reading.mask) :
      ∃ c, image.pixelColor nib = .ok c := (pixelColor_ok_iff h.bpp hnib).mpr hknown
  have hstart : start image.area image.transformation =
      .ok (assigned image.area image.transformation 0) := by
    rw [start_eq h.transformation, assigned, cell, Nat.zero_div, Nat.zero_mod]
  rw [drawImage, hstart]
  refine (drawBuffer_eq hcolor _ _).trans (congrArg Except.ok ?_)
  rw [flatMap_byteValues h.bpp, drawnCount]
  split
  · next h3 =>
    rw [layOut_of_endless (advance_assigned_of_eq h.transformation h.lineLength_pos h3)]
    apply List.ext_getElem <;> simp [call]
  · next h3 =>
    rw [layOut_of_last (fun k => advance_assigned_of_lt h.transformation h.lineLength_pos)
      (fun k => advance_assigned_of_last h.transformation h3) _ h.pixels_pos]
    apply List.ext_getElem
    · simp [Nat.min_eq_left h.pixels_le]
    · intro k hk hk'
      simp [call]

theorem drawImage_of_not_known (hknown : ¬ KnownColors image) (calls : List Draw) :
    drawImage image ≠ .ok calls := by
  have h4 : image.bpp = 4 := by
    by_contra hne
    exact hknown fun h4 => absurd h4 hne
  have hbits : List.range' 0 (8 / image.reading.bitStep) image.reading.bitStep = [0, 4] := by
    rw [(reading_bitStep h.bpp).1, h4]
    rfl
  obtain ⟨byte, buffer, hbuffer⟩ : ∃ byte buffer, image.buffer = byte :: buffer := by
    have hpixels := h.pixels_pos
    have hlength := h.buffer
    rw [h4] at hlength
    exact List.length_pos_iff_exists_cons.mp (by omega)
  have hnone : ∃ e, image.pixelColor ((byte.toNat >>> (8 - image.reading.bitStep - 0)) &&&
      image.reading.mask) = .error e := by
    cases hcolor : image.pixelColor ((byte.toNat >>> (8 - image.reading.bitStep - 0)) &&&
        image.reading.mask) with
    | error e => exact ⟨e, rfl⟩
    | ok c => exact absurd ((pixelColor_ok_iff h.bpp Nat.and_le_right).mp ⟨c, hcolor⟩) hknown
  obtain ⟨e, he⟩ := hnone
  rw [Nat.sub_zero] at he
  rw [drawImage, start_eq h.transformation, hbuffer]
  simp [bind, Except.bind, drawBuffer, hbits, drawBits, he]

end IsImage

-- ---------------------------------------------------------------------------
-- The area
-- ---------------------------------------------------------------------------

theorem inArea_place (h : transformation ≤ 4) (ha : c.1 < lineCount area transformation)
    (hb : c.2 < lineLength area transformation) : InArea area (place area transformation c) := by
  rcases transformation_cases h with rfl | rfl | rfl | rfl | rfl
  all_goals
    simp [InArea, place, lineLength, lineCount] at ha hb ⊢
    omega

theorem place_injective (h : transformation ≤ 4)
    (hplace : place area transformation c = place area transformation c') : c = c' := by
  obtain ⟨a, b⟩ := c
  obtain ⟨a', b'⟩ := c'
  rcases transformation_cases h with rfl | rfl | rfl | rfl | rfl
  all_goals
    simp [place] at hplace ⊢
    omega

theorem exists_place (h : transformation ≤ 4) (hp : InArea area p) :
    ∃ a < lineCount area transformation, ∃ b < lineLength area transformation,
      p = place area transformation (a, b) := by
  obtain ⟨x, y⟩ := p
  obtain ⟨⟨hx, hx'⟩, hy, hy'⟩ := hp
  obtain ⟨i, hi⟩ := Int.eq_ofNat_of_zero_le (Int.sub_nonneg_of_le hx)
  obtain ⟨j, hj⟩ := Int.eq_ofNat_of_zero_le (Int.sub_nonneg_of_le hy)
  simp only at hx hx' hy hy' hi hj
  rcases transformation_cases h with rfl | rfl | rfl | rfl | rfl
  · refine ⟨area.width.toNat - 1 - i, ?_, j, ?_, ?_⟩ <;> simp [place, lineCount,
      lineLength] <;> omega
  · refine ⟨area.width.toNat - 1 - i, ?_, area.height.toNat - 1 - j, ?_, ?_⟩ <;>
      simp [place, lineCount, lineLength] <;> omega
  · refine ⟨i, ?_, j, ?_, ?_⟩ <;> simp [place, lineCount, lineLength] <;> omega
  · refine ⟨i, ?_, area.height.toNat - 1 - j, ?_, ?_⟩ <;>
      simp [place, lineCount, lineLength] <;> omega
  · refine ⟨j, ?_, i, ?_, ?_⟩ <;> simp [place, lineCount, lineLength] <;> omega

theorem inArea_assigned_iff (h : transformation ≤ 4) (k : Nat) :
    InArea area (assigned area transformation k) ↔ k < pixels area := by
  rw [← lineCount_mul_lineLength transformation]
  constructor
  · intro hin
    obtain ⟨a, ha, b, hb, heq⟩ := exists_place h hin
    rw [← Nat.div_add_mod k (lineLength area transformation)]
    have hcell := place_injective h heq
    rw [cell, Prod.mk.injEq] at hcell
    rw [hcell.1, hcell.2]
    exact index_lt_of_cell ha hb
  · intro hk
    obtain ⟨ha, hb⟩ := cell_lt hk
    exact inArea_place h ha hb

theorem assigned_injective (h : transformation ≤ 4)
    (heq : assigned area transformation k = assigned area transformation k') : k = k' :=
  cell_injective (place_injective h heq)

theorem exists_assigned (h : transformation ≤ 4) (hp : InArea area p) :
    ∃ k < pixels area, p = assigned area transformation k := by
  obtain ⟨a, ha, b, hb, rfl⟩ := exists_place h hp
  refine ⟨lineLength area transformation * a + b, ?_, ?_⟩
  · rw [← lineCount_mul_lineLength transformation]
    exact index_lt_of_cell ha hb
  · rw [assigned, cell_mul_add a hb]

theorem covers_call (image : DrawImage) (k : Nat) (p : Pixel) :
    (call image k).Covers p ↔ p = assigned image.area image.transformation k := Iff.rfl

theorem fillsArea_of_eq (h : IsImage image) (hknown : KnownColors image) :
    FillsArea image ((List.range (pixels image.area)).map (call image)) := by
  refine ⟨fun p hp => ?_, fun d hd p hp => ?_, fun k d hd => ?_⟩
  · obtain ⟨k, hk, rfl⟩ := exists_assigned h.transformation hp
    have hcongr (k' : Nat) :
        decide ((call image k').Covers (assigned image.area image.transformation k)) =
          (k' == k) := by
      rw [Bool.eq_iff_iff, decide_eq_true_iff, beq_iff_eq, covers_call]
      exact ⟨fun heq => (assigned_injective h.transformation heq).symm, fun heq => by rw [heq]⟩
    rw [List.countP_map]
    simp only [Function.comp_def, hcongr]
    exact List.count_eq_one_of_mem List.nodup_range (List.mem_range.mpr hk)
  · obtain ⟨k, hk, rfl⟩ := List.mem_map.mp hd
    rw [covers_call] at hp
    rw [hp, inArea_assigned_iff h.transformation]
    exact List.mem_range.mp hk
  · rw [List.getElem?_map, Option.map_eq_some_iff] at hd
    obtain ⟨i, hi, rfl⟩ := hd
    obtain ⟨hlt, rfl⟩ := List.getElem?_eq_some_iff.mp hi
    rw [List.getElem_range]
    have hmask : pixelValue image.bpp image.buffer k ≤ image.reading.mask := by
      rw [(reading_bitStep h.bpp).2]
      exact Nat.and_le_right
    obtain ⟨color, hcolor⟩ := (pixelColor_ok_iff h.bpp hmask).mpr hknown
    exact ⟨color, hcolor, by rw [call, point, hcolor]; rfl⟩

theorem drawImage_fills_of_count (h : IsImage image) (hknown : KnownColors image)
    (hcount : drawnCount image = pixels image.area) :
    ∃ calls, drawImage image = .ok calls ∧ FillsArea image calls := by
  refine ⟨_, h.drawImage_eq hknown, ?_⟩
  rw [hcount]
  exact fillsArea_of_eq h hknown

theorem bind_eq_ok {x : Except ε α} {f : α → Except ε β} (h : x >>= f = .ok b) :
    ∃ a, f a = .ok b := by
  cases x with
  | error e => cases h
  | ok a => exact ⟨a, h⟩

/-- A compressed image is not transformed. -/
theorem halDrawImageRle_transformation (h : halDrawImageRle model data = .ok image) :
    image.transformation = 0 := by
  obtain ⟨area, h⟩ := bind_eq_ok h
  obtain ⟨-, h⟩ := bind_eq_ok h
  obtain ⟨nbSkippedBytes, h⟩ := bind_eq_ok h
  obtain ⟨decoded, h⟩ := bind_eq_ok h
  obtain ⟨colorMap, h⟩ := bind_eq_ok h
  cases h
  rfl

theorem halDrawImageRle_fills (hrle : halDrawImageRle model data = .ok image) (h : IsImage image)
    (hknown : KnownColors image) :
    ∃ calls, drawImage image = .ok calls ∧ FillsArea image calls := by
  refine drawImage_fills_of_count h hknown ?_
  rw [drawnCount, halDrawImageRle_transformation hrle, if_neg (by decide)]

/-- An image fills its area, and nothing else, when its values have colours and the
third transformation has no value left over. -/
theorem drawImage_fills_iff (image : DrawImage) (h : IsImage image) :
    (∃ calls, drawImage image = .ok calls ∧ FillsArea image calls) ↔
      (image.bpp = 4 → image.colorMap.toNat < 4 ∧ image.area.color.toNat < 4) ∧
        (image.transformation = 3 → image.buffer.length * 8 = pixels image.area * image.bpp) := by
  constructor
  · rintro ⟨calls, hcalls, hfills⟩
    have hknown : KnownColors image := by
      by_contra hknown
      exact h.drawImage_of_not_known hknown calls hcalls
    refine ⟨hknown, fun h3 => ?_⟩
    rw [h.drawImage_eq hknown, drawnCount, if_pos h3] at hcalls
    rw [← h.values_eq_iff]
    refine Nat.le_antisymm (Nat.not_lt.mp fun hlt => ?_) h.pixels_le
    -- the value behind the last pixel is drawn outside
    have hmem : call image (pixels image.area) ∈ calls := by
      rw [← Except.ok.inj hcalls]
      exact List.mem_map_of_mem (List.mem_range.mpr hlt)
    have hin := hfills.inside _ hmem _ ((covers_call image _ _).mpr rfl)
    rw [inArea_assigned_iff h.transformation] at hin
    exact Nat.lt_irrefl _ hin
  · rintro ⟨hknown, h3⟩
    have hcount : drawnCount image = pixels image.area := by
      rw [drawnCount]
      split
      · next heq => exact h.values_eq_iff.mpr (h3 heq)
      · rfl
    exact drawImage_fills_of_count h hknown hcount

/-- Ten pixels of one bit in two columns, which are not transformed. -/
theorem drawImage_fills_pixel :
    ∃ calls, drawImage ⟨⟨3, 4, 2, 5, 0, 0⟩, 1, 0, [0x80, 0x40], 0⟩ = .ok calls ∧
      FillsArea ⟨⟨3, 4, 2, 5, 0, 0⟩, 1, 0, [0x80, 0x40], 0⟩ calls :=
  (drawImage_fills_iff _ ⟨by decide, by decide, by decide, by decide, by decide⟩).mpr
    ⟨by decide, by decide⟩

/-- With the third transformation the padding of the byte is drawn on the right of the
pixel. -/
theorem not_drawImage_fills_padding :
    ¬ ∀ image : DrawImage, IsImage image →
      ∃ calls, drawImage image = .ok calls ∧ FillsArea image calls := by
  intro hall
  obtain ⟨calls, hcalls, hfills⟩ := hall ⟨⟨0, 0, 1, 1, 0, 0⟩, 1, 3, [0x80], 0⟩
    ⟨by decide, by decide, by decide, by decide, by decide⟩
  have hmem : Draw.point 1 0 0 ∈ calls := by
    obtain rfl := Except.ok.inj hcalls
    decide
  exact absurd (hfills.inside _ hmem (1, 0) rfl).1 (by decide)

end Nbgl

end Speculos.Display
