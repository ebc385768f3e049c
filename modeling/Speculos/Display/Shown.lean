import Speculos.Display.Screenshot

/-!
# What a screenshot shows

The delta map, the map of the screenshot, the default colour and the pending
reset together say which colour each pixel has once the display is updated
(`shown`): it is the colour of the last call that covered the pixel. The image has
exactly these colours where the pixels that are stored off the screen add no cell to
it and hide no pixel of the screen.
-/

namespace Speculos.Display

open Lib

/-- The pixels that the call covers are on the screen, and their colour has three
bytes. -/
def Draw.Drawable (model : Model) (d : Draw) : Prop :=
  ∀ p, d.Covers p → OnScreen model p ∧ FrameBuffer.checkColor model d.color < 2 ^ 24

/-- The checked colour of the last call that covered the pixel. -/
def lastColor (model : Model) (calls : List Call) (p : Pixel) : Nat :=
  calls.foldl (fun color call =>
    match call with
    | .draw d => if d.Covers p then FrameBuffer.checkColor model d.color else color
    | .update => color) 0

namespace FrameBuffer

def shown (fb : FrameBuffer) (p : Pixel) : Nat :=
  ((fb.pixels.get? p).or
    (if fb.resetScreenshotPixels then none else fb.screenshotPixels.get? p)).getD fb.defaultColor

theorem shown_draw (fb : FrameBuffer) (d : Draw) (h : OnScreen fb.model p) :
    (fb.draw d).shown p = if d.Covers p then checkColor fb.model d.color else fb.shown p := by
  by_cases hfull : d.FullScreen fb.model
  · rw [if_pos ((Draw.covers_iff_of_fullScreen hfull p).mpr h), draw_of_fullScreen fb hfull]
    rfl
  · have hpixels := get?_pixels_draw fb hfull p
    rw [draw_eq fb hfull, shown]
    simp only [hpixels]
    split
    · rfl
    · rfl

/-- The image has the given colour at every pixel of the screen, and no more pixels. -/
def Shows (fb : FrameBuffer) (color : Pixel → Nat) : Prop :=
  ∃ data, fb.takeScreenshot = .ok (fb.model.screenSize, data) ∧
    data.length = 3 * fb.model.width * fb.model.height ∧
    ∀ x y : Nat, x < fb.model.width → y < fb.model.height →
      (data.drop (3 * (y * fb.model.width + x))).take 3 = toBE 3 (color (x, y))

/-- Every pixel is on the screen, with a colour of three bytes. -/
structure Valid (fb : FrameBuffer) : Prop where
  pixels : ∀ p color, fb.pixels.get? p = some color → OnScreen fb.model p ∧ color < 2 ^ 24
  screenshotPixels : ∀ p color, fb.screenshotPixels.get? p = some color →
    OnScreen fb.model p ∧ color < 2 ^ 24
  defaultColor : fb.defaultColor < 2 ^ 24

-- ---------------------------------------------------------------------------
-- The image
-- ---------------------------------------------------------------------------

section
variable {model : Model} {p q : Pixel}

def place (width : Nat) (p : Pixel) : Nat := (p.2 * width + p.1).toNat

theorem place_natCast (width x y : Nat) : place width (x, y) = y * width + x := by
  show ((y : Int) * width + x).toNat = _
  rw [← Nat.cast_mul, ← Nat.cast_add, Int.toNat_natCast]

theorem natCast_of_onScreen (h : OnScreen model p) :
    ∃ x y : Nat, p = ((x : Int), (y : Int)) ∧ x < model.width ∧ y < model.height := by
  obtain ⟨px, py⟩ := p
  obtain ⟨⟨hx, hx'⟩, hy, hy'⟩ := h
  obtain ⟨x, rfl⟩ := Int.eq_ofNat_of_zero_le hx
  obtain ⟨y, rfl⟩ := Int.eq_ofNat_of_zero_le hy
  exact ⟨x, y, rfl, Int.ofNat_lt.mp hx', Int.ofNat_lt.mp hy'⟩

theorem onScreen_natCast {x y : Nat} (hx : x < model.width) (hy : y < model.height) :
    OnScreen model (x, y) :=
  ⟨⟨Int.natCast_nonneg x, Int.ofNat_lt.mpr hx⟩, Int.natCast_nonneg y, Int.ofNat_lt.mpr hy⟩

theorem place_lt {x y width height : Nat} (hx : x < width) (hy : y < height) :
    y * width + x < width * height := by
  have hrow : (y + 1) * width ≤ height * width := Nat.mul_le_mul_right width hy
  rw [Nat.add_mul, Nat.one_mul, Nat.mul_comm height] at hrow
  omega

theorem place_injective (hp : OnScreen model p) (hq : OnScreen model q)
    (h : place model.width p = place model.width q) : p = q := by
  obtain ⟨x, y, rfl, hx, -⟩ := natCast_of_onScreen hp
  obtain ⟨x', y', rfl, hx', -⟩ := natCast_of_onScreen hq
  rw [place_natCast, place_natCast] at h
  obtain ⟨rfl, rfl⟩ := column_row_of_position hx hx' h
  rfl

/-- The cell of the image that a stored pixel is written to. A position before the first cell
counts from the end; the others make the image longer, and so does the position -1, whose slice
ends at 0. -/
def cell (model : Model) (p : Pixel) : Option Nat :=
  let pos := p.2 * model.width + p.1
  let size : Int := model.width * model.height
  if 0 ≤ pos ∧ pos < size then some pos.toNat
  else if -size ≤ pos ∧ pos ≤ -2 then some (pos + size).toNat
  else none

theorem cell_of_onScreen (h : OnScreen model p) : cell model p = some (place model.width p) := by
  obtain ⟨x, y, rfl, hx, hy⟩ := natCast_of_onScreen h
  have hlt := place_lt hx hy
  have hpos : (0 : Int) ≤ (y : Int) * model.width + x ∧
      (y : Int) * model.width + x < model.width * model.height := by
    rw [← Nat.cast_mul, ← Nat.cast_mul, ← Nat.cast_add]
    exact ⟨Int.natCast_nonneg _, Int.ofNat_lt.mpr hlt⟩
  exact if_pos hpos

theorem writeCell_eq (cells : List (Option Nat)) (hlen : cells.length = model.width * model.height)
    (item : Pixel × Nat) :
    match cell model item.1 with
    | some k => writeCell model.width cells item = cells.set k (some item.2)
    | none => (writeCell model.width cells item).length = cells.length + 1 := by
  obtain ⟨⟨x, y⟩, color⟩ := item
  have hsize : ((model.width : Int) * model.height) = (cells.length : Nat) := by
    rw [hlen, Nat.cast_mul]
  rw [cell, writeCell, hsize]
  generalize y * (model.width : Int) + x = pos
  by_cases hinside : 0 ≤ pos ∧ pos < cells.length
  · obtain ⟨k, rfl⟩ := Int.eq_ofNat_of_zero_le hinside.1
    rw [if_pos hinside]
    exact setSlice_eq_set cells k (some color) (by omega)
  · rw [if_neg hinside]
    by_cases hback : -(cells.length : Int) ≤ pos ∧ pos ≤ -2
    · rw [if_pos hback]
      exact setSlice_neg_eq_set cells (some color) hback.1 hback.2
    · rw [if_neg hback]
      exact length_setSlice_outside cells (some color) hinside hback

theorem length_foldl_writeCell_le (width : Nat) (items : List (Pixel × Nat))
    (cells : List (Option Nat)) :
    cells.length ≤ (items.foldl (writeCell width) cells).length := by
  induction items generalizing cells with
  | nil => exact Nat.le_refl _
  | cons item items ih => exact Nat.le_trans (length_le_setSlice_succ ..) (ih _)

theorem length_foldl_writeCell_iff (items : List (Pixel × Nat)) (cells : List (Option Nat))
    (hlen : cells.length = model.width * model.height) :
    (items.foldl (writeCell model.width) cells).length = model.width * model.height ↔
      ∀ item ∈ items, (cell model item.1).isSome := by
  induction items generalizing cells with
  | nil => simp [hlen]
  | cons item items ih =>
    rw [List.foldl_cons, List.forall_mem_cons]
    have hwrite := writeCell_eq cells hlen item
    split at hwrite
    · rename_i k hk
      rw [hk, hwrite, ih _ (by rw [List.length_set, hlen])]
      simp
    · rename_i hk
      have hle := length_foldl_writeCell_le model.width items (writeCell model.width cells item)
      refine iff_of_false (by omega) fun h => ?_
      rw [hk] at h
      cases h.1

/-- The colour that is written last into the cell of a pixel. -/
def lastWritten (model : Model) (items : List (Pixel × Nat)) (p : Pixel) : Option Nat :=
  items.foldl (fun color item => if cell model item.1 = cell model p then some item.2
    else color) none

theorem lastWritten_mem (h : lastWritten model items p = some color) :
    ∃ item ∈ items, item.2 = color := by
  induction items using List.reverseRecOn with
  | nil => cases h
  | append_singleton items item ih =>
    rw [lastWritten, List.foldl_concat] at h
    split at h
    · cases h
      exact ⟨item, List.mem_append_right _ List.mem_cons_self, rfl⟩
    · obtain ⟨item', hitem, hcolor⟩ := ih h
      exact ⟨item', List.mem_append_left _ hitem, hcolor⟩

theorem getElem?_foldl_writeCell (items : List (Pixel × Nat)) (cells : List (Option Nat))
    (hcells : cells = List.replicate (model.width * model.height) none)
    (hall : ∀ item ∈ items, (cell model item.1).isSome) (hp : OnScreen model p) :
    (items.foldl (writeCell model.width) cells)[place model.width p]? =
      some (lastWritten model items p) := by
  have hlt : place model.width p < model.width * model.height := by
    obtain ⟨x, y, rfl, hx, hy⟩ := natCast_of_onScreen hp
    rw [place_natCast]
    exact place_lt hx hy
  have hlen : cells.length = model.width * model.height := hcells ▸ List.length_replicate
  induction items using List.reverseRecOn with
  | nil =>
    rw [List.foldl_nil, hcells, List.getElem?_replicate, if_pos hlt]
    rfl
  | append_singleton items item ih =>
    have hitems : ∀ item ∈ items, (cell model item.1).isSome :=
      fun item hitem => hall item (List.mem_append_left _ hitem)
    have hlen' := (length_foldl_writeCell_iff items cells hlen).mpr hitems
    obtain ⟨k, hk⟩ := Option.isSome_iff_exists.mp
      (hall item (List.mem_append_right _ List.mem_cons_self))
    have hwrite := writeCell_eq (items.foldl (writeCell model.width) cells) hlen' item
    rw [hk] at hwrite
    rw [List.foldl_concat, hwrite, lastWritten, List.foldl_concat, ← lastWritten, hk,
      cell_of_onScreen hp]
    by_cases heq : k = place model.width p
    · rw [heq, if_pos rfl, List.getElem?_set_self (by rwa [hlen'])]
    · rw [if_neg (fun h => heq (Option.some.inj h)), List.getElem?_set_ne heq, ih hitems]

end

theorem Valid.encodable {fb : FrameBuffer} (h : fb.Valid) : fb.Encodable :=
  ⟨h.defaultColor, fun item hitem =>
    (h.screenshotPixels item.1 item.2 (Dict.get?_eq_some_iff.mpr hitem)).2⟩

/-- What is stored shows on the screen: the colours have three bytes, every pixel has a cell of the
image, and no pixel of the screen is hidden by one of another colour in its cell. -/
structure StoredRight (fb : FrameBuffer) : Prop where
  encodable : fb.Encodable
  cell : ∀ item ∈ fb.screenshotPixels.items, (cell fb.model item.1).isSome
  last : ∀ p, OnScreen fb.model p →
    (lastWritten fb.model fb.screenshotPixels.items p).getD fb.defaultColor =
      (fb.screenshotPixels.get? p).getD fb.defaultColor

theorem takeScreenshot_of_encodable {fb : FrameBuffer} (h : fb.Encodable) :
    fb.takeScreenshot = .ok (fb.model.screenSize,
      fb.cells.flatMap (cellBytes fb.defaultColor)) := by
  rw [takeScreenshot, getImage_of_encodable fb h]
  rfl

theorem shows_iff (fb : FrameBuffer) :
    fb.Shows (fun p => (fb.screenshotPixels.get? p).getD fb.defaultColor) ↔ fb.StoredRight := by
  by_cases henc : fb.Encodable
  · have himage := takeScreenshot_of_encodable henc
    have hlength : (fb.cells.flatMap (cellBytes fb.defaultColor)).length =
        3 * fb.model.width * fb.model.height ↔
        ∀ item ∈ fb.screenshotPixels.items, (cell fb.model item.1).isSome := by
      rw [length_flatMap_blocks (length_cellBytes _), Nat.mul_assoc, Nat.mul_right_inj (by decide),
        cells, length_foldl_writeCell_iff _ _ List.length_replicate]
    -- the block of a pixel holds the colour that is written last
    have hblock (hall : ∀ item ∈ fb.screenshotPixels.items,
      (cell fb.model item.1).isSome) {x y : Nat}
        (hx : x < fb.model.width) (hy : y < fb.model.height) :
        ((fb.cells.flatMap (cellBytes fb.defaultColor)).drop (3 * (y * fb.model.width + x))).take 3 =
          toBE 3 ((lastWritten fb.model fb.screenshotPixels.items (x,
            y)).getD fb.defaultColor) := by
      have hcell := getElem?_foldl_writeCell fb.screenshotPixels.items _ rfl hall
        (onScreen_natCast hx hy)
      rw [place_natCast] at hcell
      exact block_flatMap (length_cellBytes _) _ _ hcell
    constructor
    · rintro ⟨data, hdata, hlen, hpixels⟩
      cases himage.symm.trans hdata
      have hall := hlength.mp hlen
      refine ⟨henc, hall, fun p hp => ?_⟩
      obtain ⟨x, y, rfl, hx, hy⟩ := natCast_of_onScreen hp
      have heq := (hblock hall hx hy).symm.trans (hpixels x y hx hy)
      refine toBE_injective_of_lt ?_ ?_ heq
      · cases hlast : lastWritten fb.model fb.screenshotPixels.items (x, y) with
        | none => exact henc.1
        | some color =>
          obtain ⟨item, hitem, rfl⟩ := lastWritten_mem hlast
          exact henc.2 item hitem
      · cases hget : fb.screenshotPixels.get? (x, y) with
        | none => exact henc.1
        | some color => exact henc.2 _ (Dict.get?_eq_some_iff.mp hget)
    · rintro ⟨-, hall, hlast⟩
      refine ⟨_, himage, hlength.mpr hall, fun x y hx hy => ?_⟩
      rw [hblock hall hx hy, hlast _ (onScreen_natCast hx hy)]
  · refine iff_of_false ?_ fun h => henc h.encodable
    rintro ⟨data, hdata, -⟩
    rw [takeScreenshot, getImage_of_not_encodable fb henc] at hdata
    cases hdata

theorem lastWritten_of_onScreen {model : Model} {d : PixelColorMapping}
    (h : ∀ item ∈ d.items, OnScreen model item.1) (hp : OnScreen model p) :
    lastWritten model d.items p = d.get? p := by
  have hfold : lastWritten model d.items p = d.items.foldl
      (fun color item => if item.1 = p then some item.2 else color) none := by
    refine List.foldl_ext _ _ _ fun color item hitem => if_congr ?_ rfl rfl
    rw [cell_of_onScreen (h item hitem), cell_of_onScreen hp, Option.some.injEq]
    exact ⟨place_injective (h item hitem) hp, fun heq => heq ▸ rfl⟩
  rw [hfold, Dict.foldl_last]

theorem Valid.storedRight {fb : FrameBuffer} (h : fb.Valid) : fb.StoredRight := by
  have hitems : ∀ item ∈ fb.screenshotPixels.items, OnScreen fb.model item.1 := fun item hitem =>
    (h.screenshotPixels item.1 item.2 (Dict.get?_eq_some_iff.mpr hitem)).1
  refine ⟨h.encodable, fun item hitem => ?_, fun p hp => ?_⟩
  · rw [cell_of_onScreen (hitems item hitem)]
    rfl
  · rw [lastWritten_of_onScreen hitems hp]

theorem Valid.shows {fb : FrameBuffer} (h : fb.Valid) :
    fb.Shows fun p => (fb.screenshotPixels.get? p).getD fb.defaultColor :=
  (shows_iff fb).mpr h.storedRight

end FrameBuffer

-- ---------------------------------------------------------------------------
-- A run
-- ---------------------------------------------------------------------------

namespace HeadlessPaintWidget

theorem shown_step (m : HeadlessPaintWidget) (call : Call) (h : OnScreen m.model p) :
    (m.step call).shown p =
      match call with
      | .draw d => if d.Covers p then FrameBuffer.checkColor m.model d.color else m.shown p
      | .update => m.shown p := by
  cases call with
  | draw d => exact FrameBuffer.shown_draw m.toFrameBuffer d h
  | update =>
    by_cases hpending : m.pending = true
    · simp only [step, update_of_pending hpending, FrameBuffer.shown, Dict.get?_update,
        Dict.get?_empty, Option.none_or]
      cases m.resetScreenshotPixels with
      | true => rfl
      | false => rfl
    · simp only [step, update_of_not_pending (Bool.not_eq_true _ ▸ hpending)]

@[simp] theorem model_run (m : HeadlessPaintWidget) (calls : List Call) :
    (m.run calls).model = m.model := by
  induction calls using List.reverseRecOn with
  | nil => rfl
  | append_singleton calls call ih => rw [run_concat, model_step, ih]

theorem shown_run (model : Model) (vnc : Option Vnc) (calls : List Call) (h : OnScreen model p) :
    ((init model vnc).run calls).shown p = lastColor model calls p := by
  induction calls using List.reverseRecOn with
  | nil => rfl
  | append_singleton calls call ih =>
    have hmodel : ((init model vnc).run calls).model = model := model_run _ _
    have hp : OnScreen ((init model vnc).run calls).model p := by rwa [hmodel]
    rw [run_concat, shown_step _ _ hp, lastColor, List.foldl_concat, ← lastColor, ih, hmodel]

/-- A reset is always updated together with the default colour. -/
def ResetPending (m : HeadlessPaintWidget) : Prop :=
  m.resetScreenshotPixels = true → m.drawDefaultColor = true

theorem resetPending_step (m : HeadlessPaintWidget) (call : Call) (h : m.ResetPending) :
    (m.step call).ResetPending := by
  cases call with
  | draw d =>
    by_cases hfull : d.FullScreen m.model
    · simp only [ResetPending, step, draw_of_fullScreen m.toFrameBuffer hfull, implies_true]
    · rw [ResetPending, step, draw_eq m.toFrameBuffer hfull]
      exact h
  | update =>
    by_cases hpending : m.pending = true
    · simp [ResetPending, step, update_of_pending hpending]
    · rwa [step, update_of_not_pending (Bool.not_eq_true _ ▸ hpending)]

theorem onScreen_origin (model : Model) : OnScreen model (0, 0) := by
  cases model <;> decide

theorem valid_draw (fb : FrameBuffer) (d : Draw) (hfb : fb.Valid) (h : d.Drawable fb.model) :
    (fb.draw d).Valid := by
  by_cases hfull : d.FullScreen fb.model
  · rw [draw_of_fullScreen fb hfull]
    have hcovers := (Draw.covers_iff_of_fullScreen hfull _).mpr (onScreen_origin fb.model)
    exact ⟨fun p color hp => (nomatch hp), hfb.screenshotPixels, (h _ hcovers).2⟩
  · have hpixels := get?_pixels_draw fb hfull
    rw [draw_eq fb hfull]
    refine ⟨fun p color hp => ?_, hfb.screenshotPixels, hfb.defaultColor⟩
    simp only [hpixels] at hp
    split at hp
    · rename_i hcovers
      cases hp
      exact h p hcovers
    · exact hfb.pixels p color hp

theorem valid_step (m : HeadlessPaintWidget) (call : Call) (hm : m.Valid)
    (h : ∀ d, call = .draw d → d.Drawable m.model) : (m.step call).Valid := by
  cases call with
  | draw d => exact valid_draw m.toFrameBuffer d hm (h d rfl)
  | update =>
    by_cases hpending : m.pending = true
    · simp only [step, update_of_pending hpending]
      refine ⟨fun p color hp => ?_, fun p color hp => ?_, hm.defaultColor⟩
      · cases hp
      · simp only [Dict.get?_update] at hp
        rcases Option.or_eq_some_iff.mp hp with hp | ⟨-, hp⟩
        · exact hm.pixels p color hp
        · split at hp
          · cases hp
          · exact hm.screenshotPixels p color hp
    · rwa [step, update_of_not_pending (Bool.not_eq_true _ ▸ hpending)]

theorem valid_run (model : Model) (vnc : Option Vnc) (calls : List Call)
    (h : ∀ d, .draw d ∈ calls → d.Drawable model) : ((init model vnc).run calls).Valid := by
  induction calls using List.reverseRecOn with
  | nil => exact ⟨fun p color hp => (nomatch hp), fun p color hp => (nomatch hp),
    Nat.two_pow_pos 24⟩
  | append_singleton calls call ih =>
    rw [run_concat]
    refine valid_step _ _ (ih fun d hd => h d (List.mem_append_left _ hd)) ?_
    rintro d rfl
    rw [model_run]
    exact h d (List.mem_append_right _ List.mem_cons_self)

theorem resetPending_run (model : Model) (vnc : Option Vnc) (calls : List Call) :
    ((init model vnc).run calls).ResetPending := by
  induction calls using List.reverseRecOn with
  | nil => exact fun h => (nomatch h)
  | append_singleton calls call ih =>
    rw [run_concat]
    exact resetPending_step _ _ ih

theorem shown_update (m : HeadlessPaintWidget) (h : m.ResetPending) (p : Pixel) :
    ((m.step .update).screenshotPixels.get? p).getD (m.step .update).defaultColor =
      (m.step .update).shown p := by
  by_cases hpending : m.pending = true
  · simp [step, update_of_pending hpending, FrameBuffer.shown]
  · have hnot : m.pending = false := Bool.not_eq_true _ ▸ hpending
    obtain ⟨hpixels, hdraw⟩ := (not_pending_iff m).mp hnot
    have hreset : m.resetScreenshotPixels = false := by
      by_contra hreset
      rw [h (Bool.not_eq_false _ ▸ hreset)] at hdraw
      cases hdraw
    rw [step, update_of_not_pending hnot, FrameBuffer.shown, hpixels, hreset]
    rfl

end HeadlessPaintWidget

theorem FrameBuffer.Shows.congr {fb : FrameBuffer} (h : fb.Shows color)
    (heq : ∀ p, OnScreen fb.model p → color p = color' p) : fb.Shows color' := by
  obtain ⟨data, hdata, hlen, hpixels⟩ := h
  refine ⟨data, hdata, hlen, fun x y hx hy => ?_⟩
  rw [hpixels x y hx hy, heq _ (onScreen_natCast hx hy)]

/-- After an update the screenshot shows the last call that covered each pixel exactly where what
is stored shows. -/
theorem takeScreenshot_lastColor_iff (model : Model) (vnc : Option Vnc) (calls : List Call) :
    ((HeadlessPaintWidget.init model vnc).run (calls ++ [.update])).Shows
        (lastColor model (calls ++ [.update])) ↔
      ((HeadlessPaintWidget.init model vnc).run (calls ++ [.update])).StoredRight := by
  rw [← FrameBuffer.shows_iff]
  have hcolor (p : Pixel) (hp : OnScreen model p) :
      lastColor model (calls ++ [.update]) p =
        (((HeadlessPaintWidget.init model vnc).run (calls ++
          [.update])).screenshotPixels.get? p).getD
          ((HeadlessPaintWidget.init model vnc).run (calls ++ [.update])).defaultColor := by
    rw [← HeadlessPaintWidget.shown_run model vnc _ hp, HeadlessPaintWidget.run_concat]
    exact (HeadlessPaintWidget.shown_update _ (HeadlessPaintWidget.resetPending_run model vnc calls) p).symm
  constructor
  · refine fun h => h.congr fun p hp => hcolor p ?_
    rwa [HeadlessPaintWidget.model_run] at hp
  · refine fun h => h.congr fun p hp => (hcolor p ?_).symm
    rwa [HeadlessPaintWidget.model_run] at hp

theorem storedRight_run (model : Model) (vnc : Option Vnc) (calls : List Call)
    (h : ∀ d, .draw d ∈ calls → d.Drawable model) :
    ((HeadlessPaintWidget.init model vnc).run calls).StoredRight :=
  (HeadlessPaintWidget.valid_run model vnc calls h).storedRight

/-- A pixel below the screen makes the image longer. -/
theorem takeScreenshot_below :
    ¬ ((HeadlessPaintWidget.init .nanosp none).run [.draw (.point 0 64 1), .update]).Shows
      (lastColor .nanosp [.draw (.point 0 64 1), .update]) := by
  rintro ⟨data, hdata, hlen, -⟩
  generalize hfb :
    ((HeadlessPaintWidget.init .nanosp none).run [.draw (.point 0 64 1), .update]).toFrameBuffer =
      fb at hdata hlen
  have hmodel : fb.model = .nanosp := hfb ▸ rfl
  have hitems : fb.screenshotPixels.items = [((0, 64), 0xDDDDDD)] := hfb ▸ rfl
  have hcolor : fb.defaultColor = 0 := hfb ▸ rfl
  have hencodable : fb.Encodable := by
    rw [FrameBuffer.Encodable, hitems, hcolor]
    decide
  have hcells : fb.cells = setSlice (List.replicate 8192 none) (8192 : Nat) (8193 : Nat)
      [some 0xDDDDDD] := by
    rw [FrameBuffer.cells, hitems, hmodel, List.foldl_cons, List.foldl_nil, FrameBuffer.writeCell]
    rfl
  have himage : fb.takeScreenshot =
      .ok (fb.model.screenSize, fb.cells.flatMap (FrameBuffer.cellBytes fb.defaultColor)) := by
    rw [FrameBuffer.takeScreenshot, FrameBuffer.getImage_of_encodable fb hencodable]
    rfl
  rw [himage] at hdata
  cases hdata
  rw [length_flatMap_blocks (FrameBuffer.length_cellBytes _), hcells,
    length_setSlice_of_le _ _ _ _ (Nat.le_of_eq List.length_replicate), List.length_replicate,
    hmodel] at hlen
  exact absurd hlen (by decide)

end Speculos.Display
