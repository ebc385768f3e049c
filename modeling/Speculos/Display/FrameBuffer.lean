import Mathlib.Data.Int.Range
import Speculos.Lib.Dict
import Speculos.Lib.Octets
import Speculos.Lib.Slices

/-!
# The frame buffer

`FrameBuffer` of `display.py`: the pixels drawn since the last update, the pixels
of the screenshot, and the default colour of all other pixels. An image is the
default colour all over, into which every pixel of the screenshot is written by
a slice at its position; a colour of more than three bytes raises. The public
screenshot of Stax and Flex is left out.
-/

namespace Speculos.Display

open Lib

inductive Model
  | nanox
  | nanosp
  | stax
  | flex
  | apexP
  deriving DecidableEq, Repr

/-- `MODELS[model].screen_size` -/
def Model.screenSize : Model → Nat × Nat
  | .nanox => (128, 64)
  | .nanosp => (128, 64)
  | .stax => (400, 672)
  | .flex => (480, 600)
  | .apexP => (300, 400)

def Model.width (model : Model) : Nat := model.screenSize.1

def Model.height (model : Model) : Nat := model.screenSize.2

theorem Model.width_le (model : Model) : model.width ≤ 480 := by
  cases model <;> decide

theorem Model.height_le (model : Model) : model.height ≤ 672 := by
  cases model <;> decide

/-- `FrameBuffer.COLORS` -/
def Model.color : Model → Nat
  | .nanox => 0xDDDDDD
  | .nanosp => 0xDDDDDD
  | .stax => 0xDDDDDD
  | .flex => 0xDDDDDD
  | .apexP => 0xFFFFFF

abbrev Pixel := Int × Int

abbrev PixelColorMapping := Dict Pixel Nat

structure TextEvent where
  text : String
  x : Int
  y : Int
  w : Int
  h : Int
  clear : Bool
  deriving DecidableEq, Repr

structure FrameBuffer where
  model : Model
  pixels : PixelColorMapping
  screenshotPixels : PixelColorMapping
  defaultColor : Nat
  drawDefaultColor : Bool
  resetScreenshotPixels : Bool

/-- What `int.to_bytes` raises. -/
inductive PyError
  | overflowError
  deriving DecidableEq, Repr

namespace FrameBuffer

def init (model : Model) : FrameBuffer where
  model := model
  pixels := .empty
  screenshotPixels := .empty
  defaultColor := 0
  drawDefaultColor := false
  resetScreenshotPixels := false

def checkColor (model : Model) (color : Nat) : Nat :=
  if model ≠ .stax ∧ model ≠ .flex then if color ≠ 0x000000 then model.color else color
  else color

def drawPoint (fb : FrameBuffer) (x y : Int) (color : Nat) : FrameBuffer :=
  { fb with pixels := fb.pixels.set (x, y) (checkColor fb.model color) }

def drawHorizontalLine (fb : FrameBuffer) (x0 y width : Int) (color : Nat) : FrameBuffer :=
  { fb with
    pixels := (Int.range x0 (x0 + width)).foldl
      (fun pixels x => pixels.set (x, y) (checkColor fb.model color)) fb.pixels }

def drawRect (fb : FrameBuffer) (x0 y0 width height : Int) (color : Nat) :
    FrameBuffer × List TextEvent :=
  let color := checkColor fb.model color
  if x0 = 0 ∧ y0 = 0 ∧ width = fb.model.width ∧ height = fb.model.height then
    ({ fb with
        defaultColor := color
        drawDefaultColor := true
        pixels := .empty
        resetScreenshotPixels := true }, [⟨"", 0, 0, 0, 0, true⟩])
  else
    ({ fb with
        pixels := (Int.range x0 (x0 + width)).foldl
          (fun pixels x => (Int.range y0 (y0 + height)).foldl
            (fun pixels y => pixels.set (x, y) color) pixels) fb.pixels }, [])

/-- `color.to_bytes(3, "big")` -/
def toBytes3 (color : Nat) : Except PyError Bytes :=
  if color < 2 ^ 24 then .ok (toBE 3 color) else .error .overflowError

/-- One turn of the loop of `_get_image`. -/
def writePixel (width : Nat) (data : Bytes) (item : Pixel × Nat) : Except PyError Bytes := do
  let ((x, y), color) := item
  let pos : Int := 3 * (y * width + x)
  return setSlice data pos (pos + 3) (← toBytes3 color)

def getImage (fb : FrameBuffer) : Except PyError Bytes := do
  let fill ← toBytes3 fb.defaultColor
  let data := (List.replicate (fb.model.width * fb.model.height) fill).flatten
  fb.screenshotPixels.items.foldlM (writePixel fb.model.width) data

def takeScreenshot (fb : FrameBuffer) : Except PyError ((Nat × Nat) × Bytes) := do
  return (fb.model.screenSize, ← fb.getImage)

def updateScreenshot (fb : FrameBuffer) : FrameBuffer :=
  let fb := if fb.resetScreenshotPixels then
    { fb with screenshotPixels := .empty, resetScreenshotPixels := false } else fb
  { fb with screenshotPixels := fb.screenshotPixels.update fb.pixels }

end FrameBuffer

-- ---------------------------------------------------------------------------
-- Drawing
-- ---------------------------------------------------------------------------

/-- A call that draws. -/
inductive Draw
  | point (x y : Int) (color : Nat)
  | horizontalLine (x0 y width : Int) (color : Nat)
  | rect (x0 y0 width height : Int) (color : Nat)
  deriving DecidableEq, Repr

def FrameBuffer.draw (fb : FrameBuffer) : Draw → FrameBuffer
  | .point x y color => fb.drawPoint x y color
  | .horizontalLine x0 y width color => fb.drawHorizontalLine x0 y width color
  | .rect x0 y0 width height color => (fb.drawRect x0 y0 width height color).1

namespace Draw

def color : Draw → Nat
  | .point _ _ color => color
  | .horizontalLine _ _ _ color => color
  | .rect _ _ _ _ color => color

/-- The pixels that the call covers. -/
def Covers : Draw → Pixel → Prop
  | .point x y _, p => p = (x, y)
  | .horizontalLine x0 y width _, p => (x0 ≤ p.1 ∧ p.1 < x0 + width) ∧ p.2 = y
  | .rect x0 y0 width height _, p =>
    (x0 ≤ p.1 ∧ p.1 < x0 + width) ∧ y0 ≤ p.2 ∧ p.2 < y0 + height

instance : ∀ (d : Draw) (p : Pixel), Decidable (d.Covers p)
  | .point x y _, p => inferInstanceAs (Decidable (p = (x, y)))
  | .horizontalLine _ _ _ _, _ => inferInstanceAs (Decidable (_ ∧ _))
  | .rect _ _ _ _ _, _ => inferInstanceAs (Decidable (_ ∧ _))

/-- A rectangle as large as the screen. -/
def FullScreen (model : Model) : Draw → Prop
  | .rect x0 y0 width height _ =>
    x0 = 0 ∧ y0 = 0 ∧ width = model.width ∧ height = model.height
  | _ => False

instance (model : Model) : ∀ d : Draw, Decidable (d.FullScreen model)
  | .point .. => inferInstanceAs (Decidable False)
  | .horizontalLine .. => inferInstanceAs (Decidable False)
  | .rect .. => inferInstanceAs (Decidable (_ ∧ _))

end Draw

/-- A pixel of the screen. -/
def OnScreen (model : Model) (p : Pixel) : Prop :=
  (0 ≤ p.1 ∧ p.1 < model.width) ∧ 0 ≤ p.2 ∧ p.2 < model.height

instance (model : Model) (p : Pixel) : Decidable (OnScreen model p) :=
  inferInstanceAs (Decidable (_ ∧ _))

theorem column_row_of_position {x y x' y' width : Nat} (hx : x < width) (hx' : x' < width)
    (h : y * width + x = y' * width + x') : x = x' ∧ y = y' := by
  have hmod := congrArg (· % width) h
  have hdiv := congrArg (· / width) h
  simp only [Nat.mul_comm _ width, Nat.mul_add_mod, Nat.mod_eq_of_lt hx,
    Nat.mod_eq_of_lt hx'] at hmod
  simp only [Nat.mul_comm _ width, Nat.mul_add_div (Nat.zero_lt_of_lt hx), Nat.div_eq_of_lt hx,
    Nat.div_eq_of_lt hx', Nat.add_zero] at hdiv
  exact ⟨hmod, hdiv⟩

theorem Draw.covers_iff_of_fullScreen {d : Draw} (h : d.FullScreen model) (p : Pixel) :
    d.Covers p ↔ OnScreen model p := by
  cases d with
  | point x y color => cases h
  | horizontalLine x0 y width color => cases h
  | rect x0 y0 width height color =>
    obtain ⟨rfl, rfl, rfl, rfl⟩ := h
    rw [Draw.Covers, OnScreen, Int.zero_add, Int.zero_add]

theorem drawRect_of_not_fullScreen (fb : FrameBuffer)
    (h : ¬ (Draw.rect x0 y0 width height color).FullScreen fb.model) :
    fb.drawRect x0 y0 width height color =
      ({ fb with
        pixels := (Int.range x0 (x0 + width)).foldl
          (fun pixels x => (Int.range y0 (y0 + height)).foldl
            (fun pixels y => pixels.set (x, y) (FrameBuffer.checkColor fb.model color)) pixels)
          fb.pixels }, []) :=
  if_neg h

/-- What a call that is not full-screen draws. -/
theorem get?_pixels_draw (fb : FrameBuffer) {d : Draw} (h : ¬ d.FullScreen fb.model) (p : Pixel) :
    (fb.draw d).pixels.get? p =
      if d.Covers p then some (FrameBuffer.checkColor fb.model d.color) else fb.pixels.get? p := by
  obtain ⟨px, py⟩ := p
  cases d with
  | point x y color => exact Dict.get?_set ..
  | horizontalLine x0 y width color =>
    refine (Dict.get?_foldl (fun x p => p = (x, y)) _ (fun _ _ => Dict.get?_set ..) ..).trans
      (if_congr ?_ rfl rfl)
    simp only [Draw.Covers, Int.mem_range_iff, Prod.mk.injEq]
    constructor
    · rintro ⟨x, hx, rfl, hy⟩
      exact ⟨hx, hy⟩
    · rintro ⟨hx, hy⟩
      exact ⟨px, hx, rfl, hy⟩
  | rect x0 y0 width height color =>
    have hcolumn (pixels : PixelColorMapping) (x : Int) :
        ((Int.range y0 (y0 + height)).foldl (fun pixels y =>
          pixels.set (x, y) (FrameBuffer.checkColor fb.model color)) pixels).get? (px, py) =
        if ∃ y ∈ Int.range y0 (y0 + height), (px, py) = (x, y) then
          some (FrameBuffer.checkColor fb.model color) else pixels.get? (px, py) :=
      Dict.get?_foldl (fun (y : Int) (p : Pixel) => p = (x, y)) (px, py)
        (fun _ _ => Dict.get?_set ..) _ _
    rw [FrameBuffer.draw, drawRect_of_not_fullScreen fb h]
    refine (Dict.get?_foldl (fun x p => ∃ y ∈ Int.range y0 (y0 + height), p = (x, y)) _
      hcolumn ..).trans (if_congr ?_ rfl rfl)
    simp only [Draw.Covers, Int.mem_range_iff, Prod.mk.injEq]
    constructor
    · rintro ⟨x, hx, y, hy, rfl, rfl⟩
      exact ⟨hx, hy⟩
    · rintro ⟨hx, hy⟩
      exact ⟨px, hx, py, hy, rfl, rfl⟩

theorem draw_eq (fb : FrameBuffer) {d : Draw} (h : ¬ d.FullScreen fb.model) :
    fb.draw d = { fb with pixels := (fb.draw d).pixels } := by
  cases d with
  | point x y color => rfl
  | horizontalLine x0 y width color => rfl
  | rect x0 y0 width height color => rw [FrameBuffer.draw, drawRect_of_not_fullScreen fb h]

theorem draw_of_fullScreen (fb : FrameBuffer) {d : Draw} (h : d.FullScreen fb.model) :
    fb.draw d =
      { fb with
        defaultColor := FrameBuffer.checkColor fb.model d.color
        drawDefaultColor := true
        pixels := .empty
        resetScreenshotPixels := true } := by
  cases d with
  | point x y color => cases h
  | horizontalLine x0 y width color => cases h
  | rect x0 y0 width height color => exact congrArg Prod.fst (if_pos h)

@[simp] theorem model_draw (fb : FrameBuffer) (d : Draw) : (fb.draw d).model = fb.model := by
  by_cases h : d.FullScreen fb.model
  · rw [draw_of_fullScreen fb h]
  · rw [draw_eq fb h]

end Speculos.Display
