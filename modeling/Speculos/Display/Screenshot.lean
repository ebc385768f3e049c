import Speculos.Display.FrameBuffer
import Speculos.Lib.Memory

/-!
# Screenshots

`HeadlessPaintWidget` of `headless.py`, `VNC.redraw` of `vnc.py` and the loop of
`vnc_server.c` that reads its records. A redraw sends a record for every pixel of
the screen, also for those that were not drawn; the server writes each record
into its own frame buffer, which is white at first.

An image is a list of cells: a cell is a pixel of the screenshot, or shows the
default colour. A pixel outside the screen lands in the cell of another pixel,
or makes the list longer. While all pixels drawn are on the screen, a screenshot
shows the last call that covered each pixel, up to the last update.
-/

namespace Speculos.Display

open Lib

-- ---------------------------------------------------------------------------
-- The records
-- ---------------------------------------------------------------------------

/-- `VNC`, with the bytes written to the server so far. -/
structure Vnc where
  width : Nat
  height : Nat
  sent : Bytes
  deriving DecidableEq, Repr

def record (x y color : Nat) : Bytes :=
  [UInt8.ofNat y, UInt8.ofNat (y >>> 8), UInt8.ofNat x, UInt8.ofNat (x >>> 8), UInt8.ofNat color,
    UInt8.ofNat (color >>> 8), UInt8.ofNat (color >>> 16), UInt8.ofNat (color >>> 24), 0x0A]

def Vnc.redraw (vnc : Vnc) (pixels : PixelColorMapping) (defaultColor : Nat) : Vnc :=
  { vnc with
    sent := vnc.sent ++ (List.range vnc.width).flatMap fun x => (List.range vnc.height).flatMap
      fun y => record x y ((pixels.get? (x, y)).getD defaultColor) }

namespace VncServer

def drawPoint (width : Nat) (framebuffer : Region) (x y color : Nat) : Region :=
  let framebuffer := framebuffer.store ((y + width * x) * 4 + 0) (UInt8.ofNat (color >>> 16))
  let framebuffer := framebuffer.store ((y + width * x) * 4 + 1) (UInt8.ofNat (color >>> 8))
  framebuffer.store ((y + width * x) * 4 + 2) (UInt8.ofNat (color >>> 0))

/-- The loop over the records on the standard input: `event.x`, `event.y`,
`event.color` and `event.eol`. It waits for the rest of a record. -/
def receive (width : Nat) : Bytes → Region → Region
  | x0 :: x1 :: y0 :: y1 :: c0 :: c1 :: c2 :: c3 :: _ :: rest, framebuffer =>
    receive width rest (drawPoint width framebuffer (fromLE [x0, x1]) (fromLE [y0, y1])
      (fromLE [c0, c1, c2, c3]))
  | _, framebuffer => framebuffer

def init (width height : Nat) : Region := Region.zeroed.memset 0 0xFF (width * height * 4)

end VncServer

-- ---------------------------------------------------------------------------
-- The widget
-- ---------------------------------------------------------------------------

structure HeadlessPaintWidget extends FrameBuffer where
  vnc : Option Vnc

namespace HeadlessPaintWidget

def init (model : Model) (vnc : Option Vnc) : HeadlessPaintWidget :=
  { FrameBuffer.init model with vnc := vnc }

def redraw (m : HeadlessPaintWidget) : HeadlessPaintWidget :=
  { m.updateScreenshot with vnc := m.vnc.map (·.redraw m.pixels m.defaultColor) }

def pending (m : HeadlessPaintWidget) : Bool := !m.pixels.isEmpty || m.drawDefaultColor

def update (m : HeadlessPaintWidget) : HeadlessPaintWidget × Bool :=
  if m.pending then ({ m.redraw with pixels := .empty, drawDefaultColor := false }, true)
  else (m, false)

end HeadlessPaintWidget

inductive Call
  | draw (d : Draw)
  | update
  deriving DecidableEq, Repr

namespace HeadlessPaintWidget

def step (m : HeadlessPaintWidget) : Call → HeadlessPaintWidget
  | .draw d => { m.toFrameBuffer.draw d with vnc := m.vnc }
  | .update => m.update.1

def run (m : HeadlessPaintWidget) (calls : List Call) : HeadlessPaintWidget :=
  calls.foldl step m

theorem run_concat (m : HeadlessPaintWidget) (calls : List Call) (call : Call) :
    m.run (calls ++ [call]) = (m.run calls).step call := by
  rw [run, List.foldl_append]
  rfl

theorem update_of_pending {m : HeadlessPaintWidget} (h : m.pending = true) :
    m.update.1 =
      { m with
        screenshotPixels :=
          (if m.resetScreenshotPixels then .empty else m.screenshotPixels).update m.pixels
        resetScreenshotPixels := false
        pixels := .empty
        drawDefaultColor := false
        vnc := m.vnc.map (·.redraw m.pixels m.defaultColor) } := by
  rw [update, if_pos h]
  simp only [redraw, FrameBuffer.updateScreenshot]
  cases hreset : m.resetScreenshotPixels with
  | true => rfl
  | false => rw [if_neg Bool.false_ne_true, hreset]; rfl

theorem update_of_not_pending {m : HeadlessPaintWidget} (h : m.pending = false) :
    m.update.1 = m := by
  rw [update, h]
  rfl

theorem not_pending_iff (m : HeadlessPaintWidget) :
    m.pending = false ↔ m.pixels = .empty ∧ m.drawDefaultColor = false := by
  rw [pending, Bool.or_eq_false_iff, Bool.not_eq_false', Dict.isEmpty_iff]

@[simp] theorem model_step (m : HeadlessPaintWidget) (call : Call) :
    (m.step call).model = m.model := by
  cases call with
  | draw d => exact model_draw m.toFrameBuffer d
  | update =>
    by_cases h : m.pending = true
    · rw [step, update_of_pending h]
    · rw [step, update_of_not_pending (Bool.not_eq_true _ ▸ h)]

end HeadlessPaintWidget

end Speculos.Display

-- ---------------------------------------------------------------------------
-- Screenshots
-- ---------------------------------------------------------------------------

namespace Speculos.Display

open Lib

namespace FrameBuffer

-- ---------------------------------------------------------------------------
-- The cells of an image
-- ---------------------------------------------------------------------------

def writeCell (width : Nat) (cells : List (Option Nat)) (item : Pixel × Nat) :
    List (Option Nat) :=
  let ((x, y), color) := item
  setSlice cells (y * width + x) (y * width + x + 1) [some color]

/-- The cells of the image. A cell that shows the default colour is `none`. -/
def cells (fb : FrameBuffer) : List (Option Nat) :=
  fb.screenshotPixels.items.foldl (writeCell fb.model.width)
    (List.replicate (fb.model.width * fb.model.height) none)

def cellBytes (defaultColor : Nat) (cell : Option Nat) : Bytes := toBE 3 (cell.getD defaultColor)

theorem length_cellBytes (defaultColor : Nat) (cell : Option Nat) :
    (cellBytes defaultColor cell).length = 3 :=
  length_toBE 3 _

/-- Every colour of the image has three bytes. -/
def Encodable (fb : FrameBuffer) : Prop :=
  fb.defaultColor < 2 ^ 24 ∧ ∀ item ∈ fb.screenshotPixels.items, item.2 < 2 ^ 24

theorem writePixel_flatMap (width defaultColor : Nat) (cells : List (Option Nat))
    (item : Pixel × Nat) (h : item.2 < 2 ^ 24) :
    writePixel width (cells.flatMap (cellBytes defaultColor)) item =
      .ok ((writeCell width cells item).flatMap (cellBytes defaultColor)) := by
  obtain ⟨⟨x, y⟩, color⟩ := item
  have hcell := setSlice_flatMap (length_cellBytes defaultColor) (by decide) cells [some color]
    (y * width + x) (y * width + x + 1)
  rw [Int.mul_add _ _ 1, Int.mul_one, List.flatMap_singleton] at hcell
  rw [writePixel, toBytes3, if_pos h]
  exact congrArg Except.ok hcell

theorem foldlM_writePixel (width defaultColor : Nat) (items : List (Pixel × Nat))
    (h : ∀ item ∈ items, item.2 < 2 ^ 24) (cells : List (Option Nat)) :
    items.foldlM (writePixel width) (cells.flatMap (cellBytes defaultColor)) =
      .ok ((items.foldl (writeCell width) cells).flatMap (cellBytes defaultColor)) := by
  induction items generalizing cells with
  | nil => rfl
  | cons item items ih =>
    rw [List.foldlM_cons, writePixel_flatMap _ _ _ _ (h item List.mem_cons_self)]
    exact ih (fun item hitem => h item (List.mem_cons_of_mem _ hitem)) _

theorem getImage_of_encodable (fb : FrameBuffer) (h : fb.Encodable) :
    fb.getImage = .ok (fb.cells.flatMap (cellBytes fb.defaultColor)) := by
  have hfill : (List.replicate (fb.model.width * fb.model.height) (toBE 3 fb.defaultColor)).flatten =
      (List.replicate (fb.model.width * fb.model.height) none).flatMap
        (cellBytes fb.defaultColor) := by
    rw [List.flatMap, List.map_replicate]
    rfl
  rw [getImage, toBytes3, if_pos h.1, cells, ← foldlM_writePixel _ _ _ h.2, ← hfill]
  rfl

theorem foldlM_writePixel_error (width : Nat) {items : List (Pixel × Nat)}
    (h : ∃ item ∈ items, ¬ item.2 < 2 ^ 24) (data : Bytes) :
    items.foldlM (writePixel width) data = .error .overflowError := by
  induction items generalizing data with
  | nil =>
    obtain ⟨item, hitem, -⟩ := h
    cases hitem
  | cons item items ih =>
    rw [List.foldlM_cons, writePixel, toBytes3]
    by_cases hcolor : item.2 < 2 ^ 24
    · rw [if_pos hcolor]
      obtain ⟨item', hitem, hlarge⟩ := h
      rcases List.mem_cons.mp hitem with rfl | hitem
      · exact absurd hcolor hlarge
      · exact ih ⟨item', hitem, hlarge⟩ _
    · rw [if_neg hcolor]
      rfl

theorem getImage_of_not_encodable (fb : FrameBuffer) (h : ¬ fb.Encodable) :
    fb.getImage = .error .overflowError := by
  rw [getImage, toBytes3]
  by_cases hdefault : fb.defaultColor < 2 ^ 24
  · rw [if_pos hdefault]
    refine foldlM_writePixel_error _ ?_ _
    by_contra hall
    push Not at hall
    exact h ⟨hdefault, hall⟩
  · rw [if_neg hdefault]
    rfl

-- ---------------------------------------------------------------------------
-- Between updates
-- ---------------------------------------------------------------------------

/-- The default colour cannot be told from the image: it is the same, or no cell
shows it, or there is no image with either. -/
def Hidden (fb : FrameBuffer) (color : Nat) : Prop :=
  color = fb.defaultColor ∨ (fb.Encodable ∧ color < 2 ^ 24 ∧ none ∉ fb.cells) ∨
    (¬ fb.Encodable ∧ ¬ Encodable { fb with defaultColor := color })

theorem flatMap_cellBytes_iff (cells : List (Option Nat)) (hc : c < 2 ^ 24) (hd : d < 2 ^ 24) :
    cells.flatMap (cellBytes c) = cells.flatMap (cellBytes d) ↔ c = d ∨ none ∉ cells := by
  constructor
  · intro h
    by_cases hnone : none ∈ cells
    · have heq : toBE 3 c = toBE 3 d :=
        forall_eq_of_flatMap_eq (fun _ => (length_cellBytes ..).trans (length_cellBytes ..).symm) h
          none hnone
      exact .inl (toBE_injective_of_lt hc hd heq)
    · exact .inr hnone
  · rintro (rfl | hnone)
    · rfl
    · refine List.flatMap_congr fun cell hcell => ?_
      cases cell with
      | none => exact absurd hcell hnone
      | some color => rfl

theorem takeScreenshot_eq_iff (fb fb' : FrameBuffer) (h : fb.model = fb'.model) :
    fb.takeScreenshot = fb'.takeScreenshot ↔ fb.getImage = fb'.getImage := by
  rw [takeScreenshot, takeScreenshot, h]
  cases fb.getImage <;> cases fb'.getImage <;> simp [bind, Except.bind, pure, Except.pure]

theorem takeScreenshot_defaultColor_iff (fb : FrameBuffer) (color : Nat) :
    takeScreenshot { fb with defaultColor := color } = fb.takeScreenshot ↔ fb.Hidden color := by
  have hcells : cells { fb with defaultColor := color } = fb.cells := rfl
  refine (takeScreenshot_eq_iff { fb with defaultColor := color } fb rfl).trans ?_
  rw [Hidden]
  by_cases hold : fb.Encodable
  · by_cases hcolor : color < 2 ^ 24
    · have hnew : Encodable { fb with defaultColor := color } := ⟨hcolor, hold.2⟩
      rw [getImage_of_encodable _ hnew, getImage_of_encodable _ hold, hcells, Except.ok.injEq,
        flatMap_cellBytes_iff _ hcolor hold.1]
      simp only [hold, hcolor, true_and, not_true_eq_false, false_and, or_false]
    · have hnew : ¬ Encodable { fb with defaultColor := color } := fun h => hcolor h.1
      have hne : color ≠ fb.defaultColor := fun h => hcolor (h ▸ hold.1)
      rw [getImage_of_not_encodable _ hnew, getImage_of_encodable _ hold]
      simp only [hold, hcolor, hne, reduceCtorEq, false_and, and_false, not_true_eq_false, or_false]
  · rw [getImage_of_not_encodable _ hold]
    by_cases hnew : Encodable { fb with defaultColor := color }
    · have hne : color ≠ fb.defaultColor := fun h => hold (by rwa [h] at hnew)
      rw [getImage_of_encodable _ hnew]
      simp [hold, hnew, hne]
    · rw [getImage_of_not_encodable _ hnew]
      simp [hold, hnew]

def fullScreenColor (model : Model) (draws : List Draw) : Option Nat :=
  draws.foldl (fun color d => if d.FullScreen model then some (checkColor model d.color) else color)
    none

theorem foldl_draw_frame (fb : FrameBuffer) (draws : List Draw) :
    let fb' := draws.foldl draw fb
    fb'.model = fb.model ∧ fb'.screenshotPixels = fb.screenshotPixels ∧
      fb'.defaultColor = (fullScreenColor fb.model draws).getD fb.defaultColor := by
  intro fb'
  induction draws using List.reverseRecOn with
  | nil => exact ⟨rfl, rfl, rfl⟩
  | append_singleton draws d ih =>
    obtain ⟨hmodel, hpixels, hcolor⟩ := ih
    have hfb' : fb' = (draws.foldl draw fb).draw d := List.foldl_concat ..
    rw [hfb', fullScreenColor, List.foldl_concat]
    by_cases h : d.FullScreen fb.model
    · rw [draw_of_fullScreen _ (hmodel ▸ h), if_pos h]
      exact ⟨hmodel, hpixels, congrArg (checkColor · d.color) hmodel⟩
    · rw [draw_eq _ (hmodel ▸ h), if_neg h]
      exact ⟨hmodel, hpixels, hcolor⟩

theorem takeScreenshot_foldl_draw (fb : FrameBuffer) (draws : List Draw) :
    (draws.foldl draw fb).takeScreenshot =
      takeScreenshot
        { fb with defaultColor := (fullScreenColor fb.model draws).getD fb.defaultColor } := by
  obtain ⟨hmodel, hpixels, hcolor⟩ := foldl_draw_frame fb draws
  rw [takeScreenshot, takeScreenshot, getImage, getImage, hmodel, hpixels, hcolor]

/-- Calls that draw leave the screenshot alone exactly where the colour of the
last full-screen rectangle cannot be told from the image. -/
theorem takeScreenshot_draws_iff (fb : FrameBuffer) (draws : List Draw) :
    (draws.foldl draw fb).takeScreenshot = fb.takeScreenshot ↔
      ∀ color ∈ fullScreenColor fb.model draws, fb.Hidden color := by
  rw [takeScreenshot_foldl_draw]
  cases fullScreenColor fb.model draws with
  | none => simp
  | some color => simpa using takeScreenshot_defaultColor_iff fb color

/-- A white screen before any update. -/
theorem takeScreenshot_not_updated :
    ([Draw.rect 0 0 400 672 0xFFFFFF].foldl draw (init .stax)).takeScreenshot ≠
      (init .stax).takeScreenshot := by
  have hcolor : fullScreenColor .stax [.rect 0 0 400 672 0xFFFFFF] = some 0xFFFFFF := by decide
  have hencodable : (init .stax).Encodable := ⟨by decide, fun item hitem => (nomatch hitem)⟩
  rw [takeScreenshot_foldl_draw, show (init .stax).model = .stax from rfl, hcolor]
  intro h
  rcases (takeScreenshot_defaultColor_iff (init .stax) 0xFFFFFF).mp h with
    hsame | ⟨-, -, hnone⟩ | ⟨hraises, -⟩
  · exact absurd hsame (by decide)
  · exact hnone (List.mem_replicate.mpr ⟨by decide, rfl⟩)
  · exact hraises hencodable

end FrameBuffer

end Speculos.Display
