import Mathlib.Data.List.GetD
import Speculos.Display.FrameBuffer
import Speculos.Display.Shown
import Speculos.Lib.Raster

/-!
# BAGL bitmaps

`sys_bagl_hal_draw_bitmap_within_rect` of `bagl.c` cuts a bitmap into packets: a
first one with the rectangle, the colours and the beginning of the bitmap, and
further ones with the rest. `Bagl.display_raw_status` of `bagl.py` draws each
packet from the position that the last one left. A loop that is not through with
its turns is `none`.
-/

namespace Speculos.Display

open Lib

-- ---------------------------------------------------------------------------
-- The packets
-- ---------------------------------------------------------------------------

namespace BaglSyscalls

def seproxyhalTagBaglDrawBitmap : UInt8 := 0xF2

/-- The size limit in `io_seph_send`. -/
def bufSize : Nat := 300 - 4

/-- `HBE`: the low sixteen bits of an integer. -/
def hbe (value : Int) : Bytes := be16 (value % 65536).toNat

/-- A header, and the buffer that is sent after it. -/
structure DrawBitmap where
  header : Bytes
  buf : Bytes
  deriving DecidableEq, Repr

/-- The two calls of `sys_io_seph_send`, for a part of the bitmap. -/
def drawBitmap (kind : UInt8) (buf : Bytes) : DrawBitmap where
  header := seproxyhalTagBaglDrawBitmap :: (be16 (buf.length + 1) ++ [kind])
  buf := buf

/-- The bytes that `build_chunk` copies. -/
def buildChunk (offset size : Nat) (bitmap : Bytes) (bitmapLength : Nat) : Bytes :=
  (bitmap.drop offset).take (min size (bitmapLength - offset))

def continuations (bitmap : Bytes) (bitmapLength offset : Nat) : List DrawBitmap :=
  if min bufSize (bitmapLength - offset) = 0 then []
  else
    drawBitmap 0x01 (buildChunk offset bufSize bitmap bitmapLength) ::
      continuations bitmap bitmapLength (offset + min bufSize (bitmapLength - offset))
termination_by bitmapLength - offset
decreasing_by omega

/-- `none` where the colours do not fit the buffer. -/
def drawBitmapWithinRect (x y : Int) (width height : Nat) (colors : List Nat)
    (bitPerPixel : Nat) (bitmap : Bytes) (bitmapLengthBits character : Nat) :
    Option (List DrawBitmap) :=
  let buf := hbe x ++ hbe y ++ hbe width ++ hbe height ++ [UInt8.ofNat bitPerPixel] ++
    toBE 4 character
  if buf.length + colors.length * 4 > bufSize then none -- `errx`
  else
    let buf := buf ++ colors.flatMap (toLE 4)
    let bitmapLength := bitmapLengthBits / 8 + if bitmapLengthBits % 8 ≠ 0 then 1 else 0
    let len := min (bufSize - buf.length) bitmapLength
    some (drawBitmap 0x00 (buf ++ buildChunk 0 (bufSize - buf.length) bitmap bitmapLength) ::
      continuations bitmap bitmapLength len)

end BaglSyscalls

-- ---------------------------------------------------------------------------
-- Drawing
-- ---------------------------------------------------------------------------

structure DrawState where
  x : Int
  y : Int
  width : Int
  height : Int
  colors : List Nat
  bpp : Nat
  xx : Int
  yy : Int
  deriving DecidableEq, Repr

structure Bagl where
  fb : FrameBuffer
  drawState : DrawState

inductive BaglError
  | valueError -- `range` with step 0
  | indexError
  deriving DecidableEq, Repr

namespace Bagl

def init (model : Model) : Bagl where
  fb := .init model
  drawState := ⟨0, 0, 0, 0, [], 0, 0, 0⟩

/-- `if x + width > self.SCREEN_WIDTH: width = self.SCREEN_WIDTH - x` -/
def clip (x width screen : Int) : Int := if x + width > screen then screen - x else width

/-- A group is drawn where it is on the screen. -/
def drawGroup (colors : List Nat) (index : Nat) (fb : FrameBuffer) (xx yy : Int) :
    Except BaglError FrameBuffer :=
  if 0 ≤ xx ∧ xx < fb.model.width ∧ 0 ≤ yy ∧ yy < fb.model.height then
    match colors[index]? with
    | some color => .ok (fb.drawPoint xx yy color)
    | none => .error .indexError
  else .ok fb

/-- The loop of `_draw_bitmap_byte` over the shifts `i`. -/
def drawBitmapByte (ch : UInt8) (x requestedXw requestedYh : Int) (pixelMask : Nat)
    (colors : List Nat) :
    List Nat → FrameBuffer → Int → Int → Except BaglError (FrameBuffer × Int × Int × Bool)
  | [], fb, xx, yy => .ok (fb, xx, yy, false)
  | i :: shifts, fb, xx, yy => do
    let fb ← drawGroup colors ((ch.toNat >>> i) &&& pixelMask) fb xx yy
    if xx + 1 ≥ requestedXw then
      if yy + 1 ≥ requestedYh then return (fb, x, yy + 1, true)
      else drawBitmapByte ch x requestedXw requestedYh pixelMask colors shifts fb x (yy + 1)
    else drawBitmapByte ch x requestedXw requestedYh pixelMask colors shifts fb (xx + 1) yy

/-- `range(0, 8, bpp)` -/
def shifts (bpp : Nat) : List Nat := (List.range ((8 + bpp - 1) / bpp)).map (· * bpp)

/-- The loop of `hal_draw_bitmap_within_rect`. -/
def drawLoop (x requestedXw requestedYh : Int) (bpp : Nat) (colors : List Nat) :
    Nat → FrameBuffer → Int → Int → Bytes → Option (Except BaglError (FrameBuffer × Int × Int))
  | 0, _, _, _, _ => none
  | fuel + 1, fb, xx, yy, bitmap =>
    if bitmap ≠ [] ∨ yy < requestedYh then
      -- 0 = transparent pixel optimized out
      if bpp = 0 then some (.error .valueError)
      else
        match drawBitmapByte (bitmap.headD 0) x requestedXw requestedYh (2 ^ bpp - 1) colors
            (shifts bpp) fb xx yy with
        | .error e => some (.error e)
        | .ok (fb, xx, yy, done) =>
          if done then some (.ok (fb, xx, yy))
          else drawLoop x requestedXw requestedYh bpp colors fuel fb xx yy bitmap.tail
    else some (.ok (fb, xx, yy))

def halDrawBitmapWithinRect (fuel : Nat) (bagl : Bagl) (x y width height : Int)
    (colors : List Nat) (bpp : Nat) (bitmap : Bytes) (restore : Option (Int × Int)) :
    Option (Except BaglError Bagl) :=
  if bpp = 3 ∨ bpp > 4 then some (.ok bagl)
  else if x ≥ bagl.fb.model.width ∨ y ≥ bagl.fb.model.height then some (.ok bagl)
  else
    let width := clip x width bagl.fb.model.width
    let height := clip y height bagl.fb.model.height
    let (xx, yy) := restore.getD (x, y)
    (drawLoop x (width + x) (height + y) bpp colors fuel bagl.fb xx yy bitmap).map fun result =>
      result.map fun (fb, xx, yy) => ⟨fb, x, y, width, height, colors, bpp, xx, yy⟩

/-- `int.from_bytes(bs, byteorder="big", signed=True)` -/
def signedBE (bs : Bytes) : Int :=
  if 2 * fromBE bs ≥ 256 ^ bs.length ∧ bs ≠ [] then fromBE bs - 256 ^ bs.length else fromBE bs

def displayRawStatus (fuel : Nat) (bagl : Bagl) (data : Bytes) :
    Option (Except BaglError Bagl) :=
  match data with
  | [] => some (.error .indexError)
  | kind :: _ =>
    if kind = 0x00 then
      let x := signedBE ((data.drop 1).take 2)
      let y := signedBE ((data.drop 3).take 2)
      let w := fromBE ((data.drop 5).take 2)
      let h := fromBE ((data.drop 7).take 2)
      let bpp := fromBE ((data.drop 9).take 1)
      let colors := (List.range (2 ^ bpp)).map fun i => fromLE ((data.drop (14 + 4 * i)).take 4)
      let bitmap := data.drop (14 + 4 * 2 ^ bpp)
      halDrawBitmapWithinRect fuel bagl x y w h colors bpp bitmap none
    else
      let s := bagl.drawState
      halDrawBitmapWithinRect fuel bagl s.x s.y s.width s.height s.colors s.bpp (data.drop 1)
        (some (s.xx, s.yy))

/-- The data that is read from a packet: the last byte of the header, and the buffer. -/
def packetData (packet : BaglSyscalls.DrawBitmap) : Bytes := packet.header.drop 3 ++ packet.buf

def displayAll (fuel : Nat) (bagl : Bagl) :
    List BaglSyscalls.DrawBitmap → Option (Except BaglError Bagl)
  | [] => some (.ok bagl)
  | packet :: packets =>
    match displayRawStatus fuel bagl (packetData packet) with
    | some (.ok bagl) => displayAll fuel bagl packets
    | result => result

end Bagl

end Speculos.Display

/-!
## BAGL rectangles

`sys_bagl_hal_draw_rect` of `bagl.c` sends a component, and `Bagl.display_status`
of `bagl.py` draws it. Coordinates that are signed in the component are read
without a sign. What is drawn is a list of calls; the corners of a rectangle with
a radius, its text, and components that are no rectangles are parameters.
-/

namespace Speculos.Display

open Lib

-- ---------------------------------------------------------------------------
-- The component
-- ---------------------------------------------------------------------------

namespace BaglSyscalls

def seproxyhalTagBaglDrawRect : UInt8 := 0xF1

def baglFill : UInt8 := 1

def baglRectangle : UInt8 := 3

structure BaglComponent where
  type : UInt8
  userid : UInt8
  x : Int16
  y : Int16
  width : UInt16
  height : UInt16
  stroke : UInt8
  radius : UInt8
  fill : UInt8
  fgcolor : UInt32
  bgcolor : UInt32
  fontId : UInt16
  iconId : UInt8
  deriving DecidableEq, Repr

/-- The structure in memory, with its padding. -/
def BaglComponent.bytes (c : BaglComponent) : Bytes :=
  [c.type, c.userid] ++ toLE 2 c.x.toUInt16.toNat ++ toLE 2 c.y.toUInt16.toNat ++
    toLE 2 c.width.toNat ++ toLE 2 c.height.toNat ++ [c.stroke, c.radius, c.fill, 0, 0, 0] ++
    toLE 4 c.fgcolor.toNat ++ toLE 4 c.bgcolor.toNat ++ toLE 2 c.fontId.toNat ++ [c.iconId, 0]

@[simp] theorem BaglComponent.length_bytes (c : BaglComponent) : c.bytes.length = 28 := rfl

def halDrawRect (color : UInt32) (x y : Int32) (width height : UInt32) : Bytes × Bytes :=
  let c : BaglComponent :=
    { type := baglRectangle, userid := 0, x := x.toInt16, y := y.toInt16, width := width.toUInt16
      height := height.toUInt16, stroke := 0, radius := 0, fill := baglFill, fgcolor := color
      bgcolor := 0, fontId := 0, iconId := 0 }
  (seproxyhalTagBaglDrawRect :: be16 c.bytes.length, c.bytes)

end BaglSyscalls

namespace Bagl

/-- `bagl_component_t` of `bagl.py` -/
structure Component where
  type : Nat
  userid : Nat
  x : Nat
  y : Nat
  width : Nat
  height : Nat
  stroke : Nat
  radius : Nat
  fill : Nat
  fgcolor : Nat
  bgcolor : Nat
  fontId : Nat
  iconId : Nat
  deriving DecidableEq, Repr

def Component.sizeof : Nat := 28

/-- `none` where the data is too short. -/
def Component.parse (data : Bytes) : Option Component :=
  if data.length < sizeof then none
  else
    let field (offset size : Nat) := fromLE ((data.drop offset).take size)
    some
      { type := field 0 1, userid := field 1 1, x := field 2 2, y := field 4 2, width := field 6 2
        height := field 8 2, stroke := field 10 1, radius := field 11 1, fill := field 12 1
        fgcolor := field 16 4, bgcolor := field 20 4, fontId := field 24 2, iconId := field 26 1 }

-- ---------------------------------------------------------------------------
-- Drawing
-- ---------------------------------------------------------------------------

/-- The loop of `_hal_draw_rect` over the pixels, `i` of which are left. -/
def drawRectLoop (screenWidth : Int) (color : Nat) (x width : Int) :
    Nat → Int → Int → Int → Int → Int → List Draw
  | 0, _, _, _, _, _ => []
  | i + 1, y, height, yx, yxLineMax, xx =>
    .point xx y color ::
      if yx + 1 ≥ yxLineMax then
        let yx := (y + 1) / 8 * screenWidth + x
        if height - 1 = 0 then []
        else drawRectLoop screenWidth color x width i (y + 1) (height - 1) yx (yx + width) x
      else if height = 0 then []
      else drawRectLoop screenWidth color x width i y height (yx + 1) yxLineMax (xx + 1)

/-- The size that is drawn, `none` where nothing is. -/
def clipRect (x width screen : Int) : Option Int :=
  if x + width > screen ∨ x < 0 then if x > screen then none else some (screen - x)
  else some width

def halDrawRect (model : Model) (color : Nat) (x y width height : Int) : List Draw :=
  match clipRect x width model.width with
  | none => []
  | some width =>
    match clipRect y height model.height with
    | none => []
    | some height =>
      let yx := y / 8 * model.width + x
      drawRectLoop model.width color x width (width * height).toNat y height yx (yx + width) x

def drawRectangleOutline (model : Model) (c : Component) (radius : Int) : List Draw :=
  [(c.x + radius, (c.y : Int), c.width - 2 * radius, (c.height : Int)),
    (c.x, c.y + radius, radius, c.height - 2 * radius),
    (c.x + c.width - radius - 1, c.y + radius, radius, c.height - 2 * radius)].flatMap
      (fun (x, y, width, height) => halDrawRect model c.bgcolor x y width height) ++
  -- outline: top, bottom, left, right (last pixel of each corner excluded)
  [(c.x + radius, (c.y : Int), c.width - 2 * radius, (c.stroke : Int)),
    (c.x + radius, c.y + c.height - 1, c.width - 2 * radius, c.stroke),
    (c.x, c.y + radius, c.stroke, c.height - 2 * radius),
    (c.x + c.width - 1, c.y + radius, c.stroke, c.height - 2 * radius)].flatMap
      (fun (x, y, width, height) => halDrawRect model c.fgcolor x y width height)

/-- One turn of the loop of `_draw_rectangle_filled`. -/
def drawFilled (model : Model) (color : Nat) (x y width height : Int) : List Draw :=
  if x = 0 ∧ y = 0 ∧ width = model.width ∧ height = model.height then
    [.rect x y width height color]
  else halDrawRect model color x y width height

def drawRectangleFilled (model : Model) (c : Component) (radius : Int) : List Draw :=
  [(c.x + radius, (c.y : Int), c.width - 2 * radius, (c.height : Int)),
    (c.x, c.y + radius, radius, c.height - 2 * radius),
    (c.x + c.width - radius, c.y + radius, radius, c.height - 2 * radius)].flatMap
      fun (x, y, width, height) => drawFilled model c.fgcolor x y width height

/-- What of the display of a component is not looked into. -/
structure Others where
  drawCircleCorners : Component → (radius radiusint : Nat) → List Draw
  drawString : Component → (context : Bytes) → List Draw
  displayOther : Component → (context : Bytes) → List Draw

variable (others : Others)

def displayBaglRectangle (model : Model) (c : Component) (context : Bytes) : List Draw :=
  let radius := min c.radius (min (c.width / 2) (c.height / 2))
  (if c.fill ≠ BaglSyscalls.baglFill.toNat then drawRectangleOutline model c radius
    else drawRectangleFilled model c radius) ++
  (if radius > 1 then
    others.drawCircleCorners c radius (if c.fill ≠ BaglSyscalls.baglFill.toNat ∧ c.stroke < radius
      then radius - c.stroke else 0)
    else []) ++
  if context ≠ [] then others.drawString c context else []

/-- `display_status`, without the text events. -/
def displayStatus (model : Model) (data : Bytes) : Option (List Draw) :=
  (Component.parse data).map fun c =>
    let context := data.drop Component.sizeof
    if c.type &&& 0x7F = BaglSyscalls.baglRectangle.toNat then
      displayBaglRectangle others model c context
    else others.displayOther c context

end Bagl

end Speculos.Display

/-!
## Clipping of BAGL rectangles

A rectangle is painted where it is on the screen, unless an origin is negative:
the component is read without signs, which puts the rectangle on the right of the
screen or below it.
-/

namespace Speculos.Display

open Lib

/-- On the screen some pixels have a colour and the others keep theirs, and nothing is
drawn outside of the screen. -/
structure Paints (fb fb' : FrameBuffer) (color : Pixel → Option Nat) : Prop where
  onScreen : ∀ p, OnScreen fb.model p → fb'.shown p = (color p).getD (fb.shown p)
  offScreen : ∀ p, ¬ OnScreen fb.model p →
    fb'.pixels.get? p = none ∨ fb'.pixels.get? p = fb.pixels.get? p

-- ---------------------------------------------------------------------------
-- Calls of one colour
-- ---------------------------------------------------------------------------

/-- Some call covers the pixel. -/
def Covered (draws : List Draw) (p : Pixel) : Prop := ∃ d ∈ draws, d.Covers p

instance (draws : List Draw) (p : Pixel) : Decidable (Covered draws p) :=
  inferInstanceAs (Decidable (∃ d ∈ draws, d.Covers p))

theorem covered_append (draws draws' : List Draw) (p : Pixel) :
    Covered (draws ++ draws') p ↔ Covered draws p ∨ Covered draws' p := by
  simp only [Covered, List.mem_append, or_and_right, exists_or]

theorem shown_foldl_draw (draws : List Draw) (hcolor : ∀ d ∈ draws, d.color = color)
    (fb : FrameBuffer) (hp : OnScreen fb.model p) :
    (draws.foldl FrameBuffer.draw fb).shown p =
      if Covered draws p then FrameBuffer.checkColor fb.model color else fb.shown p := by
  induction draws generalizing fb with
  | nil => rfl
  | cons d draws ih =>
    have hrest := ih (fun d' hd' => hcolor d' (List.mem_cons_of_mem _ hd')) (fb.draw d)
      (by rwa [model_draw])
    rw [List.foldl_cons, hrest, model_draw, FrameBuffer.shown_draw fb d hp,
      hcolor d List.mem_cons_self]
    by_cases hrest : Covered draws p
    · have hall : Covered (d :: draws) p := (covered_append [d] draws p).mpr (.inr hrest)
      rw [if_pos hrest, if_pos hall]
    · by_cases hd : d.Covers p
      · have hall : Covered (d :: draws) p := ⟨d, List.mem_cons_self, hd⟩
        rw [if_neg hrest, if_pos hd, if_pos hall]
      · have hall : ¬ Covered (d :: draws) p := by
          rintro ⟨d', hd', hcovers⟩
          rcases List.mem_cons.mp hd' with rfl | hd'
          · exact hd hcovers
          · exact hrest ⟨d', hd', hcovers⟩
        rw [if_neg hrest, if_neg hd, if_neg hall]

theorem get?_foldl_draw (draws : List Draw) (fb : FrameBuffer) (hp : ¬ Covered draws p) :
    (draws.foldl FrameBuffer.draw fb).pixels.get? p = none ∨
      (draws.foldl FrameBuffer.draw fb).pixels.get? p = fb.pixels.get? p := by
  induction draws generalizing fb with
  | nil => exact .inr rfl
  | cons d draws ih =>
    have hd : ¬ d.Covers p := fun hcovers => hp ⟨d, List.mem_cons_self, hcovers⟩
    have hrest : ¬ Covered draws p := fun ⟨d', hd', hcovers⟩ =>
      hp ⟨d', List.mem_cons_of_mem _ hd', hcovers⟩
    have hone : (fb.draw d).pixels.get? p = none ∨
        (fb.draw d).pixels.get? p = fb.pixels.get? p := by
      by_cases hfull : d.FullScreen fb.model
      · rw [draw_of_fullScreen fb hfull]
        exact .inl rfl
      · rw [get?_pixels_draw fb hfull, if_neg hd]
        exact .inr rfl
    rw [List.foldl_cons]
    rcases ih (fb.draw d) hrest with hnone | hsame
    · exact .inl hnone
    · rwa [hsame]

theorem paints_foldl_draw (draws : List Draw) (hcolor : ∀ d ∈ draws, d.color = color)
    (fb : FrameBuffer) (honScreen : ∀ p, Covered draws p → OnScreen fb.model p) :
    Paints fb (draws.foldl FrameBuffer.draw fb) fun p =>
      if Covered draws p then some (FrameBuffer.checkColor fb.model color) else none := by
  refine ⟨fun p hp => ?_, fun p hp => get?_foldl_draw draws fb (mt (honScreen p) hp)⟩
  rw [shown_foldl_draw draws hcolor fb hp]
  split <;> rfl

namespace Bagl

-- ---------------------------------------------------------------------------
-- The loop
-- ---------------------------------------------------------------------------

theorem drawRectLoop_eq (screenWidth x y : Int) (color : Nat) {w : Nat} (hw : 0 < w) (h i k : Nat)
    (hk : k + i = h * w) :
    drawRectLoop screenWidth color x w i (y + (cell w k).1) (h - (cell w k).1)
        ((y + (cell w k).1) / 8 * screenWidth + x + (cell w k).2)
        ((y + (cell w k).1) / 8 * screenWidth + x + w) (x + (cell w k).2) =
      (List.range' k i).map fun k => .point (x + (cell w k).2) (y + (cell w k).1) color := by
  induction i generalizing k with
  | zero => rfl
  | succ i ih =>
    have hlt : k < h * w := by omega
    obtain ⟨ha, hb⟩ := cell_lt hlt
    have hnext := ih (k + 1) (by omega)
    have hlast := succ_lt_iff_cell hlt
    rw [cell_succ hw] at hnext
    rw [drawRectLoop, List.range'_succ, List.map_cons]
    congr 1
    by_cases hline : (cell w k).2 + 1 < w
    · rw [if_pos hline] at hnext
      rw [if_neg (by omega), if_neg (by omega), ← hnext]
      simp only [Nat.cast_add, Nat.cast_one, ← add_assoc]
    · rw [if_neg hline] at hnext
      rw [if_pos (by omega)]
      by_cases hrows : (cell w k).1 + 1 < h
      · rw [if_neg (by omega), ← hnext]
        simp only [Nat.cast_add, Nat.cast_one, Nat.cast_zero, ← add_assoc, add_zero, sub_sub]
      · have hi : i = 0 := by omega
        rw [if_pos (by omega), hi]
        rfl

theorem clipRect_natCast (x w screen : Nat) :
    clipRect x w screen = if x > screen then none else some ((min w (screen - x) : Nat) : Int) := by
  rw [clipRect]
  split_ifs <;> first | rfl | omega | (congr 1; omega)

theorem covers_point (x y : Int) (color : Nat) (p : Pixel) :
    (Draw.point x y color).Covers p ↔ p = (x, y) := Iff.rfl

/-- A rectangle that starts on the screen or on its right, or below it, is drawn where it is on
the screen. -/
theorem covered_halDrawRect (model : Model) (color x y w h : Nat) (p : Pixel) :
    Covered (halDrawRect model color x y w h) p ↔
      (Draw.rect x y w h color).Covers p ∧ OnScreen model p := by
  obtain ⟨px, py⟩ := p
  simp only [halDrawRect, clipRect_natCast, Draw.Covers, OnScreen]
  by_cases hx : x > model.width
  · rw [if_pos hx]
    simp [Covered]
    omega
  by_cases hy : y > model.height
  · rw [if_neg hx, if_pos hy]
    simp [Covered]
    omega
  rw [if_neg hx, if_neg hy]
  by_cases hw : min w (model.width - x) = 0
  · simp [hw, drawRectLoop, Covered]
    omega
  have hw' : 0 < min w (model.width - x) := by omega
  have hloop := drawRectLoop_eq model.width x y color hw' (min h (model.height - y))
    (min h (model.height - y) * min w (model.width - x)) 0 (Nat.zero_add _)
  simp only [cell, Nat.zero_div, Nat.zero_mod, Nat.cast_zero, add_zero, sub_zero] at hloop
  dsimp only
  rw [← Nat.cast_mul, Int.toNat_natCast, Nat.mul_comm, hloop]
  simp only [Covered, List.mem_map, List.mem_range'_1, exists_exists_and_eq_and, covers_point,
    Prod.mk.injEq]
  constructor
  · rintro ⟨k, ⟨-, hk⟩, rfl, rfl⟩
    have hcell := cell_lt (Nat.zero_add _ ▸ hk)
    simp only [cell] at hcell
    generalize k / min w (model.width - x) = a at hcell ⊢
    generalize k % min w (model.width - x) = b at hcell ⊢
    omega
  · rintro ⟨⟨hpx, hpy⟩, honx, hony⟩
    obtain ⟨i, rfl⟩ : ∃ i : Nat, px = x + i := ⟨(px - x).toNat, by omega⟩
    obtain ⟨j, rfl⟩ : ∃ j : Nat, py = y + j := ⟨(py - y).toNat, by omega⟩
    have hi : i < min w (model.width - x) := by omega
    have hj : j < min h (model.height - y) := by omega
    have hcell := cell_mul_add j hi
    rw [cell, Prod.mk.injEq] at hcell
    refine ⟨min w (model.width - x) * j + i, ⟨Nat.zero_le _, ?_⟩, ?_, ?_⟩
    · rw [Nat.zero_add]
      exact index_lt_of_cell hj hi
    · rw [hcell.2]
    · rw [hcell.1]

theorem color_drawRectLoop (screenWidth : Int) (color : Nat) (x width : Int) (i : Nat)
    (y height yx yxLineMax xx : Int) :
    ∀ d ∈ drawRectLoop screenWidth color x width i y height yx yxLineMax xx, d.color = color := by
  induction i generalizing y height yx yxLineMax xx with
  | zero => simp [drawRectLoop]
  | succ i ih =>
    intro d hd
    rw [drawRectLoop] at hd
    rcases List.mem_cons.mp hd with rfl | hd
    · rfl
    · split at hd
      · split at hd
        · cases hd
        · exact ih _ _ _ _ _ d hd
      · split at hd
        · cases hd
        · exact ih _ _ _ _ _ d hd

theorem color_halDrawRect (model : Model) (color : Nat) (x y width height : Int) :
    ∀ d ∈ halDrawRect model color x y width height, d.color = color := by
  rw [halDrawRect]
  cases clipRect x width model.width with
  | none => simp
  | some width =>
    cases clipRect y height model.height with
    | none => simp
    | some height =>
      intro d hd
      exact color_drawRectLoop _ color _ _ _ _ _ _ _ _ d hd

theorem covered_drawFilled (model : Model) (color x y w h : Nat) (p : Pixel) :
    Covered (drawFilled model color x y w h) p ↔
      (Draw.rect x y w h color).Covers p ∧ OnScreen model p := by
  rw [drawFilled]
  split
  · next hfull =>
    have hscreen := @Draw.covers_iff_of_fullScreen
      model (.rect x y w h color) hfull p
    simp only [Covered, List.mem_singleton, exists_eq_left]
    exact ⟨fun hcovers => ⟨hcovers, hscreen.mp hcovers⟩, fun hboth => hboth.1⟩
  · exact covered_halDrawRect ..

theorem color_drawFilled (model : Model) (color : Nat) (x y width height : Int) :
    ∀ d ∈ drawFilled model color x y width height, d.color = color := by
  rw [drawFilled]
  split
  · simp [Draw.color]
  · exact color_halDrawRect model color x y width height

theorem covered_drawRectangleFilled (model : Model) (c : Component) (p : Pixel) :
    Covered (drawRectangleFilled model c 0) p ↔
      (Draw.rect c.x c.y c.width c.height c.fgcolor).Covers p ∧ OnScreen model p := by
  have hleft := covered_drawFilled model c.fgcolor c.x c.y 0 c.height p
  have hright := covered_drawFilled model c.fgcolor (c.x + c.width) c.y 0 c.height p
  have hmiddle := covered_drawFilled model c.fgcolor c.x c.y c.width c.height p
  simp only [Nat.cast_add, Nat.cast_zero] at hleft hright
  simp only [drawRectangleFilled, List.flatMap_cons, List.flatMap_nil, List.append_nil, mul_zero,
    add_zero, sub_zero, covered_append, hleft, hright, hmiddle, Draw.Covers,
    OnScreen]
  omega

theorem color_drawRectangleFilled (model : Model) (c : Component) (radius : Int) :
    ∀ d ∈ drawRectangleFilled model c radius, d.color = c.fgcolor := by
  intro d hd
  obtain ⟨⟨x, y, width, height⟩, -, hd⟩ := List.mem_flatMap.mp hd
  exact color_drawFilled model c.fgcolor x y width height d hd

-- ---------------------------------------------------------------------------
-- The system call
-- ---------------------------------------------------------------------------

open BaglSyscalls

theorem parse_bytes (c : BaglComponent) :
    Component.parse c.bytes = some
      { type := c.type.toNat, userid := c.userid.toNat, x := c.x.toUInt16.toNat
        y := c.y.toUInt16.toNat, width := c.width.toNat, height := c.height.toNat
        stroke := c.stroke.toNat, radius := c.radius.toNat, fill := c.fill.toNat
        fgcolor := c.fgcolor.toNat, bgcolor := c.bgcolor.toNat, fontId := c.fontId.toNat
        iconId := c.iconId.toNat } := by
  have h16 (n : UInt16) : fromLE (toLE 2 n.toNat) = n.toNat := fromLE_toLE_of_lt n.toNat_lt
  have h32 (n : UInt32) : fromLE (toLE 4 n.toNat) = n.toNat := fromLE_toLE_of_lt n.toNat_lt
  have h8 (n : UInt8) : fromLE [n] = n.toNat := by simp [fromLE, fromBE]
  rw [Component.parse, if_neg (show ¬ c.bytes.length < Component.sizeof from Nat.lt_irrefl 28)]
  refine congrArg some ?_
  rw [← h16 c.x.toUInt16, ← h16 c.y.toUInt16, ← h16 c.width, ← h16 c.height, ← h16 c.fontId,
    ← h32 c.fgcolor, ← h32 c.bgcolor, ← h8 c.type, ← h8 c.userid, ← h8 c.stroke, ← h8 c.radius,
    ← h8 c.fill, ← h8 c.iconId]
  rfl

/-- The component of the system call, as it is read. -/
def rectComponent (color : UInt32) (x y : Int16) (width height : UInt32) : Component where
  type := 3
  userid := 0
  x := x.toUInt16.toNat
  y := y.toUInt16.toNat
  width := width.toUInt16.toNat
  height := height.toUInt16.toNat
  stroke := 0
  radius := 0
  fill := 1
  fgcolor := color.toNat
  bgcolor := 0
  fontId := 0
  iconId := 0

theorem displayStatus_halDrawRect (others : Others) (model : Model) (color : UInt32) (x y : Int16)
    (width height : UInt32) :
    displayStatus others model
        (BaglSyscalls.halDrawRect color x.toInt32 y.toInt32 width height).2 =
      some (drawRectangleFilled model (rectComponent color x y width height) 0) := by
  have hcomponent : Component.parse
      (BaglSyscalls.halDrawRect color x.toInt32 y.toInt32 width height).2 =
        some (rectComponent color x y width height) := by
    rw [BaglSyscalls.halDrawRect, parse_bytes, Int16.toInt16_toInt32, Int16.toInt16_toInt32]
    rfl
  have hradius : min (rectComponent color x y width height).radius
      (min ((rectComponent color x y width height).width / 2)
        ((rectComponent color x y width height).height / 2)) = 0 := Nat.zero_min _
  have htype : (rectComponent color x y width height).type &&& 0x7F = baglRectangle.toNat := by
    simp [rectComponent, baglRectangle]
  rw [displayStatus, hcomponent, Option.map_some]
  dsimp only
  rw [if_pos htype, displayBaglRectangle, hradius]
  exact congrArg some ((List.append_nil _).trans (List.append_nil _))

theorem toNat_toUInt16 (x : Int16) : (x.toUInt16.toNat : Int) = x.toInt % 65536 := by
  have hlt := x.toBitVec.isLt
  show (x.toBitVec.toNat : Int) = x.toBitVec.toInt % 65536
  rw [BitVec.toInt_eq_toNat_cond]
  split <;> omega

theorem covered_rectComponent (model : Model) (color : UInt32) (x y : Int16)
    (width height : UInt32) (p : Pixel) :
    Covered (drawRectangleFilled model (rectComponent color x y width height) 0) p ↔
      (Draw.rect (x.toInt % 65536) (y.toInt % 65536) (width.toNat % 65536 : Nat)
        (height.toNat % 65536 : Nat) 0).Covers p ∧ OnScreen model p := by
  rw [← toNat_toUInt16, ← toNat_toUInt16, covered_drawRectangleFilled]
  exact Iff.rfl

/-- The rectangle is painted, and nothing else. -/
def PaintsRect (others : Others) (model : Model) (color : UInt32) (x y : Int16)
    (width height : UInt32) : Prop :=
  ∀ fb : FrameBuffer, fb.model = model → ∃ draws,
    displayStatus others model
      (BaglSyscalls.halDrawRect color x.toInt32 y.toInt32 width height).2 = some draws ∧
    Paints fb (draws.foldl FrameBuffer.draw fb) fun p =>
      if (Draw.rect x.toInt y.toInt width.toNat height.toNat 0).Covers p then
        some (FrameBuffer.checkColor model color.toNat) else none

/-- A part of the rectangle is on the screen. -/
def Visible (model : Model) (x y : Int) (width height : Nat) : Prop :=
  ∃ p, OnScreen model p ∧ (Draw.rect x y width height 0).Covers p

/-- A rectangle that is to be seen has no negative origin, and its size keeps what is on
the screen when it is cut to sixteen bits. -/
def RectExact (model : Model) (x y : Int) (width height : Nat) : Prop :=
  Visible model x y width height → (0 ≤ x ∧ 0 ≤ y) ∧
    (width < 65536 ∨ model.width ≤ x + (width % 65536 : Nat)) ∧
    (height < 65536 ∨ model.height ≤ y + (height % 65536 : Nat))

theorem rectExact_iff (model : Model) (hx : -32768 ≤ x ∧ x < 32768) (hy : -32768 ≤ y ∧ y < 32768)
    (width height : Nat) :
    RectExact model x y width height ↔ ∀ p, OnScreen model p →
      ((Draw.rect x y width height 0).Covers p ↔ (Draw.rect (x % 65536) (y % 65536)
        (width % 65536 : Nat) (height % 65536 : Nat) 0).Covers p) := by
  have hwidth := model.width_le
  have hheight := model.height_le
  constructor
  · intro hexact p hp
    by_cases hvisible : Visible model x y width height
    · have hconds := hexact hvisible
      simp only [Draw.Covers, OnScreen] at hp ⊢
      omega
    · have hnot : ¬ (Draw.rect x y width height 0).Covers p := fun h => hvisible ⟨p, hp, h⟩
      simp only [Draw.Covers, OnScreen] at hp hnot ⊢
      omega
  · rintro hsame ⟨p, hp, hcovers⟩
    have hcovers' := (hsame p hp).mp hcovers
    have hright := hsame (x + (width % 65536 : Nat), p.2)
    have hbelow := hsame (p.1, y + (height % 65536 : Nat))
    simp only [Draw.Covers, OnScreen] at hp hcovers hcovers' hright hbelow
    omega

theorem paintsRect_iff (others : Others) (model : Model) (color : UInt32) (x y : Int16)
    (width height : UInt32) :
    PaintsRect others model color x y width height ↔
      RectExact model x.toInt y.toInt width.toNat height.toNat := by
  rw [rectExact_iff model ⟨x.le_toInt, x.toInt_lt⟩ ⟨y.le_toInt, y.toInt_lt⟩]
  have hcolor := color_drawRectangleFilled model (rectComponent color x y width height) 0
  constructor
  · intro hpaints p hp
    -- a display in another colour
    obtain ⟨draws, hdraws, hpaints⟩ := hpaints
      { FrameBuffer.init model with
        defaultColor := FrameBuffer.checkColor model color.toNat + 1 } rfl
    rw [displayStatus_halDrawRect, Option.some.injEq] at hdraws
    subst hdraws
    have hshown := hpaints.onScreen p hp
    rw [shown_foldl_draw _ hcolor _ hp] at hshown
    have hdefault : FrameBuffer.shown { FrameBuffer.init model with
        defaultColor := FrameBuffer.checkColor model color.toNat + 1 } p =
        FrameBuffer.checkColor model color.toNat + 1 := rfl
    have hcovered := covered_rectComponent model color x y width height p
    rw [hdefault] at hshown
    rw [and_iff_left hp] at hcovered
    rw [← hcovered]
    by_cases hrect : (Draw.rect x.toInt y.toInt width.toNat height.toNat 0).Covers p
    · simp only [hrect, if_true, Option.getD_some, true_iff] at hshown ⊢
      by_contra hnot
      rw [if_neg hnot] at hshown
      exact Nat.succ_ne_self _ hshown
    · simp only [hrect, if_false, Option.getD_none, false_iff] at hshown ⊢
      intro hdrawn
      rw [if_pos hdrawn] at hshown
      exact Nat.succ_ne_self _ hshown.symm
  · intro hsame fb hmodel
    subst hmodel
    refine ⟨_, displayStatus_halDrawRect .., ?_⟩
    have hpaints := paints_foldl_draw _ hcolor fb
      fun p hp => ((covered_rectComponent fb.model color x y width height p).mp hp).2
    refine ⟨fun p hp => ?_, hpaints.offScreen⟩
    rw [hpaints.onScreen p hp]
    simp only [covered_rectComponent, hsame p hp, hp, and_true]
    rfl

end Bagl

end Speculos.Display
