import Speculos.Display.BaglDrawing

/-!
# A BAGL bitmap in packets

The first packet of a bitmap draws its whole rectangle, and the missing part of
the bitmap as zeros. The further packets are drawn below the rectangle, if that
is on the screen. So a bitmap is drawn whole exactly if it fits the first packet,
or if the rectangle ends with the screen and the rest of the bitmap has the
first colour.
-/

namespace Speculos.Display

open Lib

namespace BaglSyscalls

def capacity (bpp : Nat) : Nat := bufSize - (13 + 4 * 2 ^ bpp)

/-- The rectangle and the colours, in the first packet. -/
def rectangle (x y : Int) (width height : Nat) (colors : List Nat) (bpp character : Nat) : Bytes :=
  hbe x ++ hbe y ++ hbe width ++ hbe height ++ [UInt8.ofNat bpp] ++ toBE 4 character ++
    colors.flatMap (toLE 4)

theorem length_rectangle (x y : Int) (width height : Nat) (hcolors : colors.length = 2 ^ bpp)
    (character : Nat) :
    (rectangle x y width height colors bpp character).length = 13 + 4 * 2 ^ bpp := by
  rw [rectangle, List.length_append, length_flatMap_blocks fun _ => length_toLE 4 _, hcolors]
  rfl

theorem two_pow_le (hbpp : bpp ∈ [1, 2, 4]) : 2 ^ bpp ≤ 16 := by
  rcases Bagl.bpp_cases hbpp with rfl | rfl | rfl
  · decide
  · decide
  · decide

theorem drawBitmapWithinRect_eq (x y : Int) (width height : Nat) (hbpp : bpp ∈ [1, 2, 4])
    (hcolors : colors.length = 2 ^ bpp) (bitmap : Bytes) (bits character : Nat)
    (hbitmap : bitmap.length = (bits + 7) / 8) :
    drawBitmapWithinRect x y width height colors bpp bitmap bits character =
      some (drawBitmap 0x00 (rectangle x y width height colors bpp character ++
          bitmap.take (capacity bpp)) ::
        continuations bitmap bitmap.length (min (capacity bpp) bitmap.length)) := by
  have hle := two_pow_le hbpp
  have hlen : bits / 8 + (if bits % 8 ≠ 0 then 1 else 0) = bitmap.length := by
    rw [hbitmap]
    split <;> omega
  have hrect := length_rectangle x y width height hcolors character
  have hchunk : buildChunk 0 (capacity bpp) bitmap bitmap.length = bitmap.take (capacity bpp) := by
    rw [buildChunk, List.drop_zero, Nat.sub_zero, ← List.take_take, List.take_length]
  have hfirst : (hbe x ++ hbe y ++ hbe width ++ hbe height ++ [UInt8.ofNat bpp] ++
      toBE 4 character).length = 13 := rfl
  have hfits : ¬ 13 + colors.length * 4 > bufSize := by
    rw [hcolors, bufSize]
    omega
  rw [rectangle] at hrect
  rw [drawBitmapWithinRect]
  simp only [hfirst, if_neg hfits, hlen, hrect]
  rw [← capacity, hchunk]
  rfl

theorem mem_continuations (bitmap : Bytes) (offset : Nat)
    (h : packet ∈ continuations bitmap bitmap.length offset) :
    ∃ buf, packet = drawBitmap 0x01 buf ∧ buf ≠ [] ∧ buf.length ≤ bufSize := by
  rw [continuations] at h
  split at h
  · cases h
  · rename_i hlen
    rcases List.mem_cons.mp h with rfl | h
    · have hchunk : (buildChunk offset bufSize bitmap bitmap.length).length =
          min bufSize (bitmap.length - offset) := by
        rw [buildChunk, List.length_take, List.length_drop]
        omega
      refine ⟨_, rfl, ?_, by omega⟩
      rw [← List.length_pos_iff, hchunk]
      exact Nat.pos_of_ne_zero hlen
    · exact mem_continuations bitmap _ h
termination_by bitmap.length - offset
decreasing_by omega

theorem continuations_eq_nil_iff (bitmap : Bytes) (offset : Nat) :
    continuations bitmap bitmap.length offset = [] ↔ bitmap.length ≤ offset := by
  rw [continuations]
  by_cases h : min bufSize (bitmap.length - offset) = 0
  · rw [if_pos h]
    rw [bufSize] at h
    simp only [true_iff]
    omega
  · rw [if_neg h]
    simp only [reduceCtorEq, false_iff]
    omega

end BaglSyscalls

namespace Bagl

open BaglSyscalls

theorem packetData_drawBitmap (kind : UInt8) (buf : Bytes) :
    packetData (drawBitmap kind buf) = kind :: buf := rfl

theorem signedBE_hbe (h : v < 32768) : signedBE (hbe (v : Nat)) = v := by
  have hmod : ((v : Int) % 65536).toNat = v := by omega
  have hval : fromBE (hbe (v : Nat)) = v := by
    rw [hbe, hmod]
    exact fromBE_be16 v (by omega)
  have hlen : (hbe (v : Nat)).length = 2 := rfl
  rw [signedBE, hval, hlen, if_neg (by omega)]

theorem fromBE_hbe (h : v < 65536) : fromBE (hbe (v : Nat)) = v := by
  have hmod : ((v : Int) % 65536).toNat = v := by omega
  rw [hbe, hmod]
  exact fromBE_be16 v h

theorem fromBE_bpp (hbpp : bpp ∈ [1, 2, 4]) : fromBE [UInt8.ofNat bpp] = bpp := by
  rcases bpp_cases hbpp with rfl | rfl | rfl
  · rfl
  · rfl
  · rfl

theorem colors_flatMap (colors : List Nat) (hcolor : ∀ c ∈ colors, c < 2 ^ 32) (chunk : Bytes) :
    ((List.range colors.length).map fun i =>
      fromLE (((colors.flatMap (toLE 4) ++ chunk).drop (4 * i)).take 4)) = colors := by
  apply List.ext_getElem
  · rw [List.length_map, List.length_range]
  · intro i hi hi'
    have hblocks : (colors.flatMap (toLE 4)).length = 4 * colors.length :=
      length_flatMap_blocks (fun _ => length_toLE 4 _) colors
    have hblock := block_flatMap (fun c => length_toLE 4 c) colors i
      (List.getElem?_eq_getElem hi')
    rw [List.getElem_map, List.getElem_range, List.drop_append_of_le_length (by omega),
      List.take_append_of_le_length (by rw [List.length_drop]; omega), hblock]
    exact fromLE_toLE_of_lt (hcolor _ (List.getElem_mem hi'))

theorem displayAll_singleton (fuel : Nat) (bagl : Bagl) (packet : DrawBitmap) :
    displayAll fuel bagl [packet] = displayRawStatus fuel bagl (packetData packet) := by
  rw [displayAll]
  cases displayRawStatus fuel bagl (packetData packet) with
  | none => rfl
  | some result => cases result <;> rfl

theorem displayRawStatus_start (fuel : Nat) (bagl : Bagl) (hx : x < 32768) (hy : y < 32768)
    (hw : w < 65536) (hh : h < 65536) (hbpp : bpp ∈ [1, 2, 4]) (hcolors : colors.length = 2 ^ bpp)
    (hcolor : ∀ c ∈ colors, c < 2 ^ 32) (character : Nat) (chunk : Bytes) :
    displayRawStatus fuel bagl
        (0x00 :: (rectangle (x : Nat) (y : Nat) w h colors bpp character ++ chunk)) =
      halDrawBitmapWithinRect fuel bagl x y w h colors bpp chunk none := by
  let data : Bytes := 0x00 :: (rectangle (x : Nat) (y : Nat) w h colors bpp character ++ chunk)
  have hfields (i : Nat) : data.drop (14 + i) = (colors.flatMap (toLE 4) ++ chunk).drop i := by
    rw [← List.drop_drop]
    rfl
  have hxs : signedBE ((data.drop 1).take 2) = x := signedBE_hbe hx
  have hys : signedBE ((data.drop 3).take 2) = y := signedBE_hbe hy
  have hws : fromBE ((data.drop 5).take 2) = w := fromBE_hbe hw
  have hhs : fromBE ((data.drop 7).take 2) = h := fromBE_hbe hh
  have hbpps : fromBE ((data.drop 9).take 1) = bpp := fromBE_bpp hbpp
  have hchunk : data.drop (14 + 4 * 2 ^ bpp) = chunk := by
    rw [hfields, ← hcolors, List.drop_left'
      (length_flatMap_blocks (fun _ => length_toLE 4 _) colors)]
  have hread : ((List.range (2 ^ bpp)).map fun i =>
      fromLE ((data.drop (14 + 4 * i)).take 4)) = colors := by
    simp only [hfields, ← hcolors]
    exact colors_flatMap colors hcolor chunk
  have hstart : displayRawStatus fuel bagl data =
      halDrawBitmapWithinRect fuel bagl (signedBE ((data.drop 1).take 2))
        (signedBE ((data.drop 3).take 2)) (fromBE ((data.drop 5).take 2))
        (fromBE ((data.drop 7).take 2))
        ((List.range (2 ^ fromBE ((data.drop 9).take 1))).map fun i =>
          fromLE ((data.drop (14 + 4 * i)).take 4))
        (fromBE ((data.drop 9).take 1)) (data.drop (14 + 4 * 2 ^ fromBE ((data.drop 9).take 1)))
        none := rfl
  rw [hxs, hys, hws, hhs, hbpps, hread, hchunk] at hstart
  exact hstart

-- ---------------------------------------------------------------------------
-- One packet
-- ---------------------------------------------------------------------------

theorem clip_of_le (h : x + width ≤ screen) : clip x width screen = width :=
  if_neg (by omega)

section
variable (bagl : Bagl) {x y w h bpp : Nat} {colors : List Nat}
  (hx : x + w ≤ bagl.fb.model.width) (hy : y + h ≤ bagl.fb.model.height) (hbpp : bpp ∈ [1, 2, 4])
include hx hy hbpp

theorem halDrawBitmapWithinRect_eq (hx' : x < bagl.fb.model.width) (hy' : y < bagl.fb.model.height)
    (fuel : Nat) (bitmap : Bytes) (restore : Option (Int × Int)) :
    halDrawBitmapWithinRect fuel bagl x y w h colors bpp bitmap restore =
      (drawLoop x (w + x) (h + y) bpp colors fuel bagl.fb (restore.getD (x, y)).1
          (restore.getD (x, y)).2 bitmap).map fun result =>
        result.map fun (fb, xx, yy) => ⟨fb, x, y, w, h, colors, bpp, xx, yy⟩ := by
  have hbpp' : ¬ (bpp = 3 ∨ bpp > 4) := by
    have hcases := bpp_cases hbpp
    omega
  rw [halDrawBitmapWithinRect, if_neg hbpp', if_neg (by omega), clip_of_le (by omega),
    clip_of_le (by omega)]

theorem halDrawBitmapWithinRect_first (hcolors : colors.length = 2 ^ bpp) (hw : 0 < w)
    (hh : 0 < h) (chunk : Bytes) (fuel : Nat) (hfuel : w * h < fuel) :
    ∃ fb', halDrawBitmapWithinRect fuel bagl x y w h colors bpp chunk none =
        some (.ok ⟨fb', x, y, w, h, colors, bpp, x, (y + h : Nat)⟩) ∧
      Painted bagl.fb fb' x y w (fun k =>
        FrameBuffer.checkColor bagl.fb.model (colors.getD (group chunk bpp k) 0)) (w * h) := by
  obtain ⟨fb', hloop, hpainted⟩ := drawLoop_inside hx hy hbpp hcolors chunk (fun _ => rfl) fuel 0
    bagl.fb 0 0 hw hh rfl (by omega) (.refl ..)
  refine ⟨fb', ?_, hpainted⟩
  rw [halDrawBitmapWithinRect_eq _ hx hy hbpp (by omega) (by omega)]
  exact congrArg (Option.map _) hloop

theorem halDrawBitmapWithinRect_further (hcolors : colors.length = 2 ^ bpp) (hw : 0 < w)
    (hh : 0 < h) (bitmap : Bytes) (fuel : Nat) (hfuel : bitmap.length < fuel) (xx yy : Int)
    (hleft : x ≤ xx) (hdown : (y + h : Nat) ≤ yy) :
    ∃ fb' xx' yy', halDrawBitmapWithinRect fuel bagl x y w h colors bpp bitmap (some (xx, yy)) =
        some (.ok ⟨fb', x, y, w, h, colors, bpp, xx', yy'⟩) ∧
      Below x bagl.fb fb' xx yy xx' yy' ∧
      (bitmap ≠ [] → xx < bagl.fb.model.width → yy < bagl.fb.model.height →
        (fb'.pixels.get? (xx, yy)).isSome) := by
  obtain ⟨fb', xx', yy', hloop, hbelow, hsome⟩ := drawLoop_below (w := w) hbpp hcolors fuel
    bagl.fb xx yy (h + y) bitmap hfuel hleft (by omega)
  refine ⟨fb', xx', yy', ?_, hbelow, fun hne hxx hyy => hsome hne hxx (by omega) hyy⟩
  rw [halDrawBitmapWithinRect_eq _ hx hy hbpp (by omega) (by omega)]
  exact congrArg (Option.map _) hloop

end

-- ---------------------------------------------------------------------------
-- All packets
-- ---------------------------------------------------------------------------

/-- The further packets draw nothing if the rectangle ends with the screen, and
the first pixel below it otherwise. -/
theorem displayAll_further {x y w h bpp : Nat} {colors : List Nat} (hbpp : bpp ∈ [1, 2, 4])
    (hcolors : colors.length = 2 ^ bpp) (hw : 0 < w) (hh : 0 < h) (fuel : Nat)
    (hfuel : bufSize < fuel) (packets : List DrawBitmap)
    (hpackets : ∀ packet ∈ packets, ∃ buf, packet = drawBitmap 0x01 buf ∧ buf ≠ [] ∧
      buf.length ≤ bufSize) (fb : FrameBuffer) (xx yy : Int) (hx : x + w ≤ fb.model.width)
    (hy : y + h ≤ fb.model.height) (hleft : x ≤ xx) (hdown : (y + h : Nat) ≤ yy) :
    ∃ bagl', displayAll fuel ⟨fb, x, y, w, h, colors, bpp, xx, yy⟩ packets = some (.ok bagl') ∧
      DrawnFrom fb bagl'.fb yy ∧
      (packets ≠ [] → xx < fb.model.width → yy < fb.model.height →
        (bagl'.fb.pixels.get? (xx, yy)).isSome) := by
  induction packets generalizing fb xx yy with
  | nil => exact ⟨_, rfl, .refl fb yy, fun h => absurd rfl h⟩
  | cons packet packets ih =>
    obtain ⟨buf, rfl, hne, hlen⟩ := hpackets packet List.mem_cons_self
    obtain ⟨fb₁, xx₁, yy₁, hhal, hbelow, hsome⟩ := halDrawBitmapWithinRect_further
      ⟨fb, x, y, w, h, colors, bpp, xx, yy⟩ hx hy hbpp hcolors hw hh buf fuel (by omega)
      xx yy hleft hdown
    have hmodel := hbelow.drawn.model
    have hdown₁ := hbelow.down
    simp only at hmodel
    obtain ⟨bagl', hall, hdrawn, -⟩ :=
      ih (fun packet hp => hpackets packet (List.mem_cons_of_mem _ hp))
      fb₁ xx₁ yy₁ (by rwa [hmodel]) (by rwa [hmodel]) hbelow.left (by omega)
    refine ⟨bagl', ?_, hbelow.drawn.trans hdrawn hdown₁, fun _ hxx hyy => ?_⟩
    · rw [displayAll, packetData_drawBitmap]
      have hstatus : displayRawStatus fuel ⟨fb, x, y, w, h, colors, bpp, xx, yy⟩ (0x01 :: buf) =
          halDrawBitmapWithinRect fuel ⟨fb, x, y, w, h, colors, bpp, xx, yy⟩ x y w h colors bpp buf
            (some (xx, yy)) := rfl
      rw [hstatus, hhal]
      exact hall
    · exact hdrawn.keeps _ (hsome hne hxx hyy)

/-- Past the end of its part, the first packet draws zeros. -/
theorem group_take (hbpp : bpp ∈ [1, 2, 4]) (bitmap : Bytes) (size k : Nat) :
    group (bitmap.take size) bpp k = if k < size * (8 / bpp) then group bitmap bpp k else 0 := by
  have hlt : k / (8 / bpp) < size ↔ k < size * (8 / bpp) :=
    Nat.div_lt_iff_lt_mul (groups_pos hbpp)
  rw [group, List.getD_eq_getElem?_getD, List.getElem?_take]
  by_cases h : k < size * (8 / bpp)
  · rw [if_pos h, if_pos (hlt.mpr h), group, List.getD_eq_getElem?_getD]
  · rw [if_neg h, if_neg (mt hlt.mp h)]
    exact (congrArg (· &&& _) (Nat.zero_shiftRight _)).trans (Nat.zero_and _)

theorem covers_iff_position {x y w h : Nat} (p : Pixel) :
    (Draw.rect x y w h c).Covers p ↔ ∃ k < w * h, p = position x y w k := by
  obtain ⟨px, py⟩ := p
  constructor
  · rintro ⟨⟨hx, hx'⟩, hy, hy'⟩
    obtain ⟨i, rfl⟩ := Int.le.dest hx
    obtain ⟨j, rfl⟩ := Int.le.dest hy
    have hi : i < w := by omega
    exact ⟨w * j + i, index_lt hi (by omega), (position_eq x y j hi).symm⟩
  · rintro ⟨k, hk, hp⟩
    cases hp
    have hw : 0 < w := Nat.pos_of_mul_pos_right (Nat.zero_lt_of_lt hk)
    have hi := Nat.mod_lt k hw
    have hj := Nat.div_lt_of_lt_mul hk
    generalize k % w = i at *
    generalize k / w = j at *
    simp only [Draw.Covers]
    omega

-- ---------------------------------------------------------------------------
-- Whole bitmaps
-- ---------------------------------------------------------------------------

/-- Every pixel of the rectangle has the colour of its group, and no other pixel
changes. -/
structure Whole (fb fb' : FrameBuffer) (x y w h : Nat) (colors : List Nat) (bpp : Nat)
    (bitmap : Bytes) : Prop where
  inside : ∀ i < w, ∀ j < h, fb'.pixels.get? ((x + i : Nat), (y + j : Nat)) =
    some (FrameBuffer.checkColor fb.model (colors.getD (group bitmap bpp (j * w + i)) 0))
  outside : ∀ p, ¬ (Draw.rect x y w h 0).Covers p → fb'.pixels.get? p = fb.pixels.get? p

theorem Painted.whole_iff {fb fb' : FrameBuffer} {color : Nat → Nat}
    (hpainted : Painted fb fb' x y w color (w * h)) :
    Whole fb fb' x y w h colors bpp bitmap ↔ ∀ k < w * h, color k =
      FrameBuffer.checkColor fb.model (colors.getD (group bitmap bpp k) 0) := by
  constructor
  · intro hwhole k hk
    have hw : 0 < w := Nat.pos_of_mul_pos_right (Nat.zero_lt_of_lt hk)
    have hdrawn := hwhole.inside (k % w) (Nat.mod_lt k hw) (k / w) (Nat.div_lt_of_lt_mul hk)
    rw [Nat.mul_comm (k / w), Nat.div_add_mod] at hdrawn
    exact Option.some.inj ((hpainted.inside k hk).symm.trans hdrawn)
  · intro hcolor
    refine ⟨fun i hi j hj => ?_, fun p hp => ?_⟩
    · have hk := index_lt hi hj
      rw [Nat.mul_comm j, ← hcolor _ hk, ← hpainted.inside _ hk, position_eq x y j hi]
    · refine hpainted.outside p fun k hk heq => hp ?_
      exact (covers_iff_position p).mpr ⟨k, hk, heq⟩

/-- With enough turns, the packets of the bitmap are displayed, and it is whole. -/
def DrawnWhole (bagl : Bagl) (x y w h : Nat) (colors : List Nat) (bpp : Nat) (bitmap : Bytes)
    (character : Nat) : Prop :=
  ∃ packets, drawBitmapWithinRect x y w h colors bpp bitmap (w * h * bpp) character =
      some packets ∧
    ∃ turns, ∀ fuel ≥ turns, ∃ bagl', displayAll fuel bagl packets = some (.ok bagl') ∧
      Whole bagl.fb bagl'.fb x y w h colors bpp bitmap

section
variable {model : Model} {x y w h bpp : Nat} {colors : List Nat} (bitmap : Bytes)
  (hx : x + w ≤ model.width) (hy : y + h ≤ model.height) (hbpp : bpp ∈ [1, 2, 4])
  (hcolors : colors.length = 2 ^ bpp) (hcolor : ∀ c ∈ colors, c < 2 ^ 32)
include hx hy hbpp hcolors hcolor

theorem displayAll_first (fuel : Nat) (bagl : Bagl) (character : Nat) (chunk : Bytes)
    (packets : List DrawBitmap)
    (hdraw : halDrawBitmapWithinRect fuel bagl x y w h colors bpp chunk none = some (.ok bagl')) :
    displayAll fuel bagl (drawBitmap 0x00 (rectangle x y w h colors bpp character ++ chunk) ::
      packets) = displayAll fuel bagl' packets := by
  have hwidth := model.width_le
  have hheight := model.height_le
  rw [displayAll, packetData_drawBitmap, displayRawStatus_start fuel bagl (by omega) (by omega)
    (by omega) (by omega) hbpp hcolors hcolor, hdraw]

theorem displayAll_bitmap (hw : 0 < w) (hh : 0 < h) (character : Nat) (fuel : Nat)
    (hfuel : w * h + bufSize < fuel) (bagl : Bagl) (hmodel : bagl.fb.model = model) :
    ∃ fb₁ bagl', displayAll fuel bagl
        (drawBitmap 0x00 (rectangle x y w h colors bpp character ++ bitmap.take (capacity bpp)) ::
          continuations bitmap bitmap.length (min (capacity bpp) bitmap.length)) =
        some (.ok bagl') ∧
      Painted bagl.fb fb₁ x y w (fun k => FrameBuffer.checkColor model
        (colors.getD (group (bitmap.take (capacity bpp)) bpp k) 0)) (w * h) ∧
      DrawnFrom fb₁ bagl'.fb (y + h : Nat) ∧
      (bitmap.length ≤ capacity bpp → bagl'.fb = fb₁) ∧
      (capacity bpp < bitmap.length → y + h < model.height →
        (bagl'.fb.pixels.get? ((x : Nat), (y + h : Nat))).isSome) := by
  subst hmodel
  obtain ⟨fb₁, hfirst, hpainted⟩ := halDrawBitmapWithinRect_first bagl hx hy hbpp hcolors hw hh
    (bitmap.take (capacity bpp)) fuel (by omega)
  have hmodel := hpainted.model
  obtain ⟨bagl', hall, hdrawn, hsome⟩ := displayAll_further hbpp hcolors hw hh fuel (by omega)
    (continuations bitmap bitmap.length (min (capacity bpp) bitmap.length))
    (fun packet hp => mem_continuations bitmap _ hp) fb₁ x (y + h : Nat) (by rwa [hmodel])
    (by rwa [hmodel]) (Int.le_refl _) (Int.le_refl _)
  refine ⟨fb₁, bagl', ?_, hpainted, hdrawn, fun hfits => ?_, fun hlong hbelow => ?_⟩
  · rw [displayAll_first hx hy hbpp hcolors hcolor fuel bagl character _ _ hfirst, hall]
  · have hnil := (continuations_eq_nil_iff bitmap (min (capacity bpp) bitmap.length)).mpr (by omega)
    rw [hnil] at hall
    cases hall
    rfl
  · refine hsome ?_ (by rw [hmodel]; omega) (by rw [hmodel]; omega)
    rw [ne_eq, continuations_eq_nil_iff]
    omega

end

/-- A rectangle without pixels is left alone, but for one that has rows. -/
theorem halDrawBitmapWithinRect_empty (fuel : Nat) (bagl : Bagl) {x y w h : Nat}
    (hx : x + w ≤ bagl.fb.model.width) (hy : y + h ≤ bagl.fb.model.height) (hbpp : bpp ∈ [1, 2, 4])
    (hrows : h = 0 ∨ x = bagl.fb.model.width) :
    ∃ bagl', halDrawBitmapWithinRect (fuel + 1) bagl x y w h colors bpp [] none = some (.ok bagl') ∧
      bagl'.fb = bagl.fb := by
  by_cases hout : x = bagl.fb.model.width ∨ y = bagl.fb.model.height
  · refine ⟨bagl, ?_, rfl⟩
    rw [halDrawBitmapWithinRect]
    by_cases hbpp' : bpp = 3 ∨ bpp > 4
    · rw [if_pos hbpp']
    · rw [if_neg hbpp', if_pos (by omega)]
  · have hh : h = 0 := by omega
    subst hh
    refine ⟨⟨bagl.fb, x, y, w, 0, colors, bpp, x, y⟩, ?_, rfl⟩
    have hloop : drawLoop x (w + x) ((0 : Nat) + y) bpp colors (fuel + 1) bagl.fb x y [] =
        some (.ok (bagl.fb, x, y)) := by
      rw [drawLoop, if_neg (by simp only [ne_eq, not_true_eq_false, false_or]; omega)]
    rw [halDrawBitmapWithinRect_eq _ hx hy hbpp (by omega) (by omega)]
    exact congrArg (Option.map _) hloop

/-- Rows without columns are drawn all the same, one pixel wide. -/
theorem isSome_of_halDrawBitmapWithinRect {bagl bagl' : Bagl} {x y h : Nat}
    (hx : x < bagl.fb.model.width) (hy : y + h ≤ bagl.fb.model.height) (hh : 0 < h)
    (hbpp : bpp ∈ [1, 2, 4]) (hcolors : colors.length = 2 ^ bpp)
    (hdraw : halDrawBitmapWithinRect fuel bagl x y (0 : Nat) h colors bpp [] none =
      some (.ok bagl')) :
    (bagl'.fb.pixels.get? ((x : Nat), (y : Nat))).isSome := by
  rw [halDrawBitmapWithinRect_eq _ (by omega) hy hbpp hx (by omega), Option.getD_none,
    Option.map_eq_some_iff] at hdraw
  obtain ⟨result, hloop, hresult⟩ := hdraw
  cases result with
  | error e => cases hresult
  | ok drawn =>
    obtain ⟨fb', xx', yy'⟩ := drawn
    cases hresult
    have hstart := (isSome_of_drawLoop hbpp hcolors hloop (Int.le_refl _)).2
    exact hstart (by omega) (by omega) (by omega) (by omega)

theorem color_take_iff (hbpp : bpp ∈ [1, 2, 4]) (color : Nat → Nat) (bitmap : Bytes)
    (size n : Nat) :
    (∀ k < n, color (group (bitmap.take size) bpp k) = color (group bitmap bpp k)) ↔
      ∀ k < n, size * (8 / bpp) ≤ k → color (group bitmap bpp k) = color 0 := by
  constructor
  · intro h k hk hle
    rw [← h k hk, group_take hbpp, if_neg (Nat.not_lt.mpr hle)]
  · intro h k hk
    rw [group_take hbpp]
    by_cases hlt : k < size * (8 / bpp)
    · rw [if_pos hlt]
    · rw [if_neg hlt, h k hk (Nat.le_of_not_lt hlt)]

/-- What a bitmap needs to be drawn whole: a rectangle that is not rows without
columns, and a bitmap that fits the first packet, or whose rest has the first
colour and nothing below it on the screen. -/
structure Fits (model : Model) (x y w h : Nat) (colors : List Nat) (bpp : Nat) (bitmap : Bytes) :
    Prop where
  rows : 0 < w ∨ h = 0 ∨ x = model.width
  bitmap : bitmap.length ≤ capacity bpp ∨ y + h = model.height ∧
    ∀ k < w * h, capacity bpp * (8 / bpp) ≤ k →
      FrameBuffer.checkColor model (colors.getD (group bitmap bpp k) 0) =
        FrameBuffer.checkColor model (colors.getD 0 0)

section
variable {model : Model} {x y w h bpp : Nat} {colors : List Nat} {bitmap : Bytes}
  (hx : x + w ≤ model.width) (hy : y + h ≤ model.height) (hbpp : bpp ∈ [1, 2, 4])
  (hcolors : colors.length = 2 ^ bpp) (hcolor : ∀ c ∈ colors, c < 2 ^ 32)
  (hbitmap : bitmap.length = (w * h * bpp + 7) / 8) (character : Nat)
include hx hy hbpp hcolors hcolor hbitmap

theorem Fits.drawnWhole (hfits : Fits model x y w h colors bpp bitmap) (bagl : Bagl)
    (hmodel : bagl.fb.model = model) :
    DrawnWhole bagl x y w h colors bpp bitmap character := by
  refine ⟨_, drawBitmapWithinRect_eq x y w h hbpp hcolors bitmap _ character hbitmap,
    w * h + bufSize + 1, fun fuel hfuel => ?_⟩
  obtain ⟨fuel, rfl⟩ := Nat.exists_eq_succ_of_ne_zero (Nat.ne_zero_of_lt hfuel)
  by_cases hempty : w * h = 0
  · have hnil : bitmap = [] := by
      rw [← List.length_eq_zero_iff, hbitmap, hempty, Nat.zero_mul]
    have hrows : h = 0 ∨ x = model.width := by
      rcases Nat.mul_eq_zero.mp hempty with hw | hh
      · exact hfits.rows.resolve_left (by omega)
      · exact .inl hh
    subst hmodel hnil
    obtain ⟨bagl', hdraw, hfb⟩ := halDrawBitmapWithinRect_empty fuel bagl hx hy hbpp hrows
    refine ⟨bagl', ?_, fun i hi j hj => ?_, fun p _ => by rw [hfb]⟩
    · rw [List.take_nil, displayAll_first hx hy hbpp hcolors hcolor _ bagl character _ _ hdraw,
        (continuations_eq_nil_iff [] _).mpr (Nat.zero_le _)]
      rfl
    · exact absurd hempty (Nat.ne_zero_of_lt (index_lt hi hj))
  · obtain ⟨hw, hh⟩ := Nat.mul_ne_zero_iff.mp hempty
    obtain ⟨fb₁, bagl', hall, hpainted, hdrawn, hsame, -⟩ := displayAll_bitmap bitmap hx hy
      hbpp hcolors hcolor (Nat.pos_of_ne_zero hw) (Nat.pos_of_ne_zero hh) character (fuel + 1) hfuel
      bagl hmodel
    refine ⟨bagl', hall, ?_⟩
    subst hmodel
    rcases hfits.bitmap with hlen | ⟨hbottom, hrest⟩
    · rw [hsame hlen]
      rw [List.take_of_length_le hlen] at hpainted
      exact hpainted.whole_iff.mpr fun _ _ => rfl
    · rw [hdrawn.nothing (by rw [hpainted.model]; omega)]
      exact hpainted.whole_iff.mpr ((color_take_iff hbpp (fun c =>
        FrameBuffer.checkColor bagl.fb.model (colors.getD c 0)) bitmap _ _).mpr hrest)

theorem DrawnWhole.fits (hwhole : DrawnWhole (init model) x y w h colors bpp bitmap character) :
    Fits model x y w h colors bpp bitmap := by
  obtain ⟨packets, hpackets, turns, hturns⟩ := hwhole
  rw [drawBitmapWithinRect_eq x y w h hbpp hcolors bitmap _ character hbitmap] at hpackets
  cases hpackets
  obtain ⟨bagl', hall, hwhole⟩ := hturns (turns + (w * h + bufSize + 1)) (Nat.le_add_right _ _)
  -- a pixel outside the rectangle is not drawn
  have hblank (p : Pixel) (hp : ¬ (Draw.rect x y w h 0).Covers p) :
      ¬ (bagl'.fb.pixels.get? p).isSome := by
    rw [hwhole.outside p hp]
    exact Bool.false_ne_true
  by_cases hempty : w * h = 0
  · have hnil : bitmap = [] := by
      rw [← List.length_eq_zero_iff, hbitmap, hempty, Nat.zero_mul]
    subst hnil
    refine ⟨?_, .inl (Nat.zero_le _)⟩
    by_contra hrows
    obtain ⟨rfl, hh, hx'⟩ : w = 0 ∧ 0 < h ∧ x < model.width := by omega
    refine hblank ((x : Nat), (y : Nat)) (by simp only [Draw.Covers]; omega) ?_
    have hwidth := model.width_le
    have hheight := model.height_le
    rw [(continuations_eq_nil_iff [] _).mpr (Nat.zero_le _), displayAll_singleton,
      packetData_drawBitmap, displayRawStatus_start _ _ (by omega) (by omega) (by omega) (by omega)
      hbpp hcolors hcolor, List.take_nil] at hall
    exact isSome_of_halDrawBitmapWithinRect hx' hy hh hbpp hcolors hall
  · obtain ⟨hw, hh⟩ := Nat.mul_ne_zero_iff.mp hempty
    have hpos := Nat.pos_of_ne_zero hw
    obtain ⟨fb₁, bagl₁, hall₁, hpainted, hdrawn, -, hsome⟩ := displayAll_bitmap bitmap hx hy
      hbpp hcolors hcolor hpos (Nat.pos_of_ne_zero hh) character (turns + (w * h + bufSize + 1))
      (by omega) (init model) rfl
    cases hall.symm.trans hall₁
    refine ⟨.inl hpos, ?_⟩
    by_contra hlong
    rw [not_or, Nat.not_le, not_and] at hlong
    obtain ⟨hlong, hrest⟩ := hlong
    by_cases hbottom : y + h = model.height
    · rw [hdrawn.nothing (by rw [hpainted.model]; exact Int.ofNat_le.mpr (Nat.le_of_eq hbottom.symm))]
        at hwhole
      exact hrest hbottom ((color_take_iff hbpp (fun c =>
        FrameBuffer.checkColor model (colors.getD c 0)) bitmap _ _).mp
        (hpainted.whole_iff.mp hwhole))
    · exact hblank ((x : Nat), (y + h : Nat)) (by simp only [Draw.Covers]; omega)
        (hsome hlong (by omega))

/-- A bitmap is drawn whole, wherever it is drawn, exactly if it fits. -/
theorem drawnWhole_iff :
    (∀ bagl : Bagl, bagl.fb.model = model →
      DrawnWhole bagl x y w h colors bpp bitmap character) ↔
    Fits model x y w h colors bpp bitmap :=
  ⟨fun h => DrawnWhole.fits hx hy hbpp hcolors hcolor hbitmap character (h (init model) rfl),
    fun h => Fits.drawnWhole hx hy hbpp hcolors hcolor hbitmap character h⟩

end

/-- Eight pixels in two colours. -/
theorem drawnWhole_row : DrawnWhole (init .nanox) 4 2 8 1 [0x000000, 0xFFFFFF] 1 [0xA5] 0x1F :=
  (drawnWhole_iff (by decide) (by decide) (by decide) rfl (by decide) rfl 0x1F).mpr
    ⟨.inl (by decide), .inl (by decide)⟩ (init .nanox) rfl

/-- A white bitmap of half the screen goes on below its rectangle. -/
theorem drawnWhole_half : ¬ DrawnWhole (init .nanox) 0 0 128 32 [0x000000, 0xFFFFFF] 1
    (List.replicate 512 0xFF) 0 := by
  intro hwhole
  have hfits := hwhole.fits (by decide) (by decide) (by decide) rfl (by decide)
    List.length_replicate
  rcases hfits.bitmap with hlen | ⟨hbottom, -⟩
  · rw [List.length_replicate] at hlen
    exact absurd hlen (by decide)
  · exact absurd hbottom (by decide)

end Bagl

end Speculos.Display
