import Speculos.Display.Bagl
import Speculos.Display.BaglDrawing

/-!
# Clipping of BAGL bitmaps

A bitmap that reaches over the right edge of the screen is read in rows as long
as what is left of the screen, so that its rows run into each other. Everywhere
else the part of it on the screen is painted as it is.
-/

namespace Speculos.Display

open Lib

namespace Bagl

-- ---------------------------------------------------------------------------
-- The walk
-- ---------------------------------------------------------------------------

/-- The next position of `_draw_bitmap_byte`. -/
def nextPosition (x requestedXw requestedYh : Int) (p : Pixel) : Option Pixel :=
  if p.1 + 1 ≥ requestedXw then
    if p.2 + 1 ≥ requestedYh then none else some (x, p.2 + 1)
  else some (p.1 + 1, p.2)

/-- A group is plotted where it is on the screen. -/
def plot (colors : List Nat) (fb : FrameBuffer) (v : Nat × Pixel) : FrameBuffer :=
  if OnScreen fb.model v.2 then fb.drawPoint v.2.1 v.2.2 (colors.getD v.1 0) else fb

@[simp] theorem model_plot (colors : List Nat) (fb : FrameBuffer) (v : Nat × Pixel) :
    (plot colors fb v).model = fb.model := by
  rw [plot]
  split <;> rfl

section
variable {colors : List Nat} {bpp : Nat} (hcolors : colors.length = 2 ^ bpp)
include hcolors

theorem drawGroup_eq_plot (fb : FrameBuffer) (bits : Nat) (p : Pixel) :
    drawGroup colors (bits &&& (2 ^ bpp - 1)) fb p.1 p.2 =
      .ok (plot colors fb (bits &&& (2 ^ bpp - 1), p)) := by
  have hlt : bits &&& (2 ^ bpp - 1) < colors.length := by
    rw [hcolors, Nat.and_two_pow_sub_one_eq_mod]
    exact Nat.mod_lt _ (Nat.two_pow_pos bpp)
  rw [drawGroup, plot, List.getElem?_eq_getElem hlt, List.getD_eq_getElem _ _ hlt]
  simp only [OnScreen, and_assoc]
  split <;> rfl

theorem drawBitmapByte_eq (ch : UInt8) (x requestedXw requestedYh : Int) (is : List Nat)
    (fb : FrameBuffer) (p : Pixel) :
    let laidOut := layOut (nextPosition x requestedXw requestedYh)
      (is.map fun i => (ch.toNat >>> i) &&& (2 ^ bpp - 1)) p
    ∃ xx yy, drawBitmapByte ch x requestedXw requestedYh (2 ^ bpp - 1) colors is fb p.1 p.2 =
        .ok (laidOut.1.foldl (plot colors) fb, xx, yy, laidOut.2.isNone) ∧
      ∀ q, laidOut.2 = some q → q = (xx, yy) := by
  induction is generalizing fb p with
  | nil =>
    refine ⟨p.1, p.2, rfl, ?_⟩
    rintro q ⟨⟩
    rfl
  | cons i is ih =>
    rw [List.map_cons, drawBitmapByte, drawGroup_eq_plot hcolors]
    simp only [bind, Except.bind]
    by_cases hrow : p.1 + 1 ≥ requestedXw
    · rw [if_pos hrow]
      by_cases hend : p.2 + 1 ≥ requestedYh
      · have hnext : nextPosition x requestedXw requestedYh p = none := by
          rw [nextPosition, if_pos hrow, if_pos hend]
        rw [if_pos hend, layOut_cons_of_none hnext]
        exact ⟨x, p.2 + 1, rfl, fun q hq => by cases hq⟩
      · have hnext : nextPosition x requestedXw requestedYh p = some (x, p.2 + 1) := by
          rw [nextPosition, if_pos hrow, if_neg hend]
        rw [if_neg hend, layOut_cons_of_some hnext]
        exact ih _ (x, p.2 + 1)
    · have hnext : nextPosition x requestedXw requestedYh p = some (p.1 + 1, p.2) := by
        rw [nextPosition, if_neg hrow]
      rw [if_neg hrow, layOut_cons_of_some hnext]
      exact ih _ (p.1 + 1, p.2)

end

/-- The position of the group `k` in rows of `m` pixels. -/
def gridPosition (x y : Int) (m k : Nat) : Pixel := (x + (cell m k).2, y + (cell m k).1)

theorem gridPosition_injective (h : gridPosition x y m k = gridPosition x y m k') : k = k' := by
  simp only [gridPosition, Prod.mk.injEq, add_right_inj, Nat.cast_inj] at h
  exact cell_injective (Prod.ext h.2 h.1)

/-- The groups of the bitmap that are plotted from the group `k` on. -/
def plotFrom (x y : Int) (m : Nat) (colors : List Nat) (bpp : Nat) (bitmap : Bytes) (k count : Nat)
    (fb : FrameBuffer) : FrameBuffer :=
  (List.range' k count).foldl
    (fun fb k => plot colors fb (group bitmap bpp k, gridPosition x y m k)) fb

theorem plotFrom_add (x y : Int) (m : Nat) (colors : List Nat) (bpp : Nat) (bitmap : Bytes)
    (k count count' : Nat) (fb : FrameBuffer) :
    plotFrom x y m colors bpp bitmap (k + count) count'
        (plotFrom x y m colors bpp bitmap k count fb) =
      plotFrom x y m colors bpp bitmap k (count + count') fb := by
  rw [plotFrom, plotFrom, plotFrom, ← List.foldl_append, List.range'_append_1]

/-- The groups before `count` are plotted on the screen, and nothing else. -/
structure Plotted (fb fb' : FrameBuffer) (position : Nat → Pixel) (color : Nat → Nat)
    (count : Nat) :
    Prop where
  rest : fb' = { fb with pixels := fb'.pixels }
  inside : ∀ k < count, OnScreen fb.model (position k) →
    fb'.pixels.get? (position k) = some (color k)
  outside : ∀ p, (∀ k < count, p = position k → ¬ OnScreen fb.model p) →
    fb'.pixels.get? p = fb.pixels.get? p

theorem Plotted.shown {fb fb' : FrameBuffer} {position : Nat → Pixel}
    (h : Plotted fb fb' position color count) (p : Pixel) :
    fb'.shown p = ((fb'.pixels.get? p).or
      (if fb.resetScreenshotPixels then none else fb.screenshotPixels.get? p)).getD
        fb.defaultColor := by
  rw [h.rest]
  rfl

theorem plotted_plotFrom (x y : Int) (m : Nat) (colors : List Nat) (bpp : Nat) (bitmap : Bytes)
    (count : Nat) (fb : FrameBuffer) :
    Plotted fb (plotFrom x y m colors bpp bitmap 0 count fb) (gridPosition x y m)
      (fun k => FrameBuffer.checkColor fb.model (colors.getD (group bitmap bpp k) 0)) count := by
  induction count with
  | zero => exact ⟨rfl, fun k hk => absurd hk (Nat.not_lt_zero k), fun _ _ => rfl⟩
  | succ count ih =>
    rw [← plotFrom_add, Nat.zero_add]
    generalize plotFrom x y m colors bpp bitmap 0 count fb = fb' at ih ⊢
    have hmodel : fb'.model = fb.model := by rw [ih.rest]
    have hone : plotFrom x y m colors bpp bitmap count 1 fb' =
        plot colors fb' (group bitmap bpp count, gridPosition x y m count) := rfl
    rw [hone, plot, hmodel]
    split
    · next hon =>
      refine ⟨?_, fun k hk hkon => ?_, fun p hp => ?_⟩
      · rw [FrameBuffer.drawPoint, ih.rest]
      · rw [FrameBuffer.drawPoint, Dict.get?_set, hmodel]
        by_cases heq : k = count
        · rw [heq, if_pos rfl]
        · rw [if_neg fun h => heq (gridPosition_injective h)]
          exact ih.inside k (by omega) hkon
      · rw [FrameBuffer.drawPoint, Dict.get?_set,
          if_neg fun heq => hp count (Nat.lt_succ_self count) heq (heq ▸ hon)]
        exact ih.outside p fun k hk => hp k (Nat.lt_succ_of_lt hk)
    · next hoff =>
      refine ⟨ih.rest, fun k hk hkon => ?_, fun p hp => ih.outside p fun k hk => hp k
        (Nat.lt_succ_of_lt hk)⟩
      have hne : k ≠ count := fun heq => hoff (heq ▸ hkon)
      exact ih.inside k (by omega) hkon

section
variable {x y requestedXw : Int} {m n : Nat} (hm : 0 < m)
  (hxw : ∀ b < m, x + b + 1 < requestedXw ↔ b + 1 < m)
include hm hxw

theorem nextPosition_of_lt (hk : k + 1 < n * m) :
    nextPosition x requestedXw (n + y) (gridPosition x y m k) =
      some (gridPosition x y m (k + 1)) := by
  have hlt : k < n * m := by omega
  obtain ⟨ha, hb⟩ := cell_lt hlt
  have hrow := hxw _ hb
  have hnext := (succ_lt_iff_cell hlt).mp hk
  rw [nextPosition]
  by_cases hline : (cell m k).2 + 1 < m
  · have hxx : ¬ (gridPosition x y m k).1 + 1 ≥ requestedXw := not_le.mpr (hrow.mpr hline)
    rw [if_neg hxx, gridPosition, gridPosition, cell_succ hm, if_pos hline]
    simp [add_assoc]
  · have hxx : (gridPosition x y m k).1 + 1 ≥ requestedXw := not_lt.mp (mt hrow.mp hline)
    have hyy : ¬ (gridPosition x y m k).2 + 1 ≥ n + y := by
      rw [gridPosition]
      omega
    rw [if_pos hxx, if_neg hyy, gridPosition, gridPosition, cell_succ hm, if_neg hline]
    simp [add_assoc]

omit hm in
theorem nextPosition_of_last (hk : k + 1 = n * m) :
    nextPosition x requestedXw (n + y) (gridPosition x y m k) = none := by
  have hlt : k < n * m := by omega
  obtain ⟨ha, hb⟩ := cell_lt hlt
  have hrow := hxw _ hb
  have hend := mt (succ_lt_iff_cell hlt).mpr (Nat.not_lt.mpr (Nat.le_of_eq hk.symm))
  rw [not_or] at hend
  have hxx : (gridPosition x y m k).1 + 1 ≥ requestedXw := not_lt.mp (mt hrow.mp hend.1)
  have hyy : (gridPosition x y m k).2 + 1 ≥ n + y := by
    rw [gridPosition]
    omega
  rw [nextPosition, if_pos hxx, if_pos hyy]

-- ---------------------------------------------------------------------------
-- The loop
-- ---------------------------------------------------------------------------

variable {colors : List Nat} {bpp : Nat} (hbpp : bpp ∈ [1, 2, 4])
  (hcolors : colors.length = 2 ^ bpp) (bitmap : Bytes)
include hbpp hcolors

omit hcolors in
theorem layOut_groups (b : Nat) (hk : 8 / bpp * b < n * m) :
    let laidOut := layOut (nextPosition x requestedXw (n + y))
      ((shifts bpp).map fun i => (((bitmap.drop b).headD 0).toNat >>> i) &&& (2 ^ bpp - 1))
      (gridPosition x y m (8 / bpp * b))
    laidOut.1 = (List.range' (8 / bpp * b) (min (n * m - 8 / bpp * b) (8 / bpp))).map
        (fun k => (group bitmap bpp k, gridPosition x y m k)) ∧
      laidOut.2 = if 8 / bpp * (b + 1) < n * m then some (gridPosition x y m (8 / bpp * (b + 1)))
        else none := by
  have hnext (k : Nat) := nextPosition_of_lt (y := y) (n := n) (k := k) hm hxw
  have hlast (k : Nat) := nextPosition_of_last (y := y) (n := n) (k := k) hxw
  constructor
  · rw [layOut_of_last hnext hlast _ hk]
    apply List.ext_getElem
    · simp [length_shifts hbpp]
    · intro j hj hj'
      rw [List.length_mapIdx, List.length_take, List.length_map] at hj
      have hgroup := bits_eq_group hbpp bitmap b j (by omega)
      simp only [List.getElem_mapIdx, List.getElem_take, List.getElem_map, List.getElem_range',
        one_mul, hgroup]
  · rw [layOut_end hnext hlast _ hk, List.length_map, length_shifts hbpp, Nat.mul_succ]

theorem drawLoop_eq (fuel b : Nat) (fb : FrameBuffer) (hk : 8 / bpp * b < n * m)
    (hfuel : n * m - 8 / bpp * b ≤ fuel) :
    ∃ xx yy, drawLoop x requestedXw (n + y) bpp colors fuel fb
        (gridPosition x y m (8 / bpp * b)).1 (gridPosition x y m (8 / bpp * b)).2 (bitmap.drop b) =
      some (.ok (plotFrom x y m colors bpp bitmap (8 / bpp * b) (n * m - 8 / bpp * b) fb,
        xx, yy)) := by
  have hgroups := groups_pos hbpp
  induction fuel generalizing b fb with
  | zero => omega
  | succ fuel ih =>
    have hrows : (gridPosition x y m (8 / bpp * b)).2 < n + y := by
      have ha := (cell_lt hk).1
      rw [gridPosition]
      omega
    obtain ⟨hlaidOut, hend⟩ := layOut_groups (y := y) hm hxw hbpp bitmap b hk
    obtain ⟨xx, yy, hbyte, hposition⟩ := drawBitmapByte_eq hcolors ((bitmap.drop b).headD 0) x
      requestedXw (n + y) (shifts bpp) fb (gridPosition x y m (8 / bpp * b))
    rw [drawLoop, if_pos (.inr hrows), if_neg (bpp_ne_zero hbpp), hbyte]
    dsimp only
    rw [hlaidOut, List.foldl_map]
    by_cases hmore : 8 / bpp * (b + 1) < n * m
    · rw [if_pos hmore] at hend
      obtain ⟨hxx, hyy⟩ := Prod.mk.inj (hposition _ hend)
      obtain ⟨xx', yy', hrest⟩ := ih (b + 1) (plotFrom x y m colors bpp bitmap (8 / bpp * b)
        (min (n * m - 8 / bpp * b) (8 / bpp)) fb) hmore (by rw [Nat.mul_succ] at hmore ⊢; omega)
      refine ⟨xx', yy', ?_⟩
      rw [hend, Option.isNone_some, if_neg Bool.false_ne_true, List.tail_drop, ← hxx, ← hyy]
      have hcount : 8 / bpp ≤ n * m - 8 / bpp * b := by
        rw [Nat.mul_succ] at hmore
        omega
      rw [Nat.min_eq_right hcount, Nat.mul_succ, plotFrom_add, Nat.sub_add_eq,
        Nat.add_sub_cancel' hcount] at hrest
      rw [Nat.min_eq_right hcount, Nat.mul_succ]
      exact hrest
    · rw [if_neg hmore] at hend
      refine ⟨xx, yy, ?_⟩
      rw [hend, Option.isNone_none, if_pos rfl,
        Nat.min_eq_left (by rw [Nat.mul_succ] at hmore; omega)]
      rfl

end

-- ---------------------------------------------------------------------------
-- The bitmap
-- ---------------------------------------------------------------------------

/-- A bitmap of its size, with its colours. -/
structure WholeBitmap (width height : Nat) (colors : List Nat) (bpp : Nat) (bitmap : Bytes) :
    Prop where
  depth : bpp ∈ [1, 2, 4]
  palette : colors.length = 2 ^ bpp
  length : bitmap.length = (width * height * bpp + 7) / 8

/-- The colour of the pixel `k` of the bitmap. -/
def bitmapColor (model : Model) (colors : List Nat) (bpp : Nat) (bitmap : Bytes) (k : Nat) : Nat :=
  FrameBuffer.checkColor model (colors.getD (group bitmap bpp k) 0)

/-- With enough turns the bitmap is painted, and nothing else. -/
def PaintsBitmap (model : Model) (x y : Int) (width height : Nat) (colors : List Nat) (bpp : Nat)
    (bitmap : Bytes) : Prop :=
  ∀ bagl : Bagl, bagl.fb.model = model → ∃ turns, ∀ fuel ≥ turns, ∃ bagl',
    halDrawBitmapWithinRect fuel bagl x y width height colors bpp bitmap none =
      some (.ok bagl') ∧
    Paints bagl.fb bagl'.fb fun p =>
      if (Draw.rect x y width height 0).Covers p then
        some (bitmapColor model colors bpp bitmap
          ((p.2 - y).toNat * width + (p.1 - x).toNat)) else none

/-- Rows without columns are not to be seen where a column would be, and what is on the
screen has the same colours in rows that end with the screen. -/
structure BitmapExact (model : Model) (x y : Int) (width height : Nat) (colors : List Nat)
    (bpp : Nat) (bitmap : Bytes) : Prop where
  columns : width = 0 → ¬ Visible model x y 1 height
  rows : ∀ i < width, ∀ j < height, OnScreen model (x + i, y + j) →
    bitmapColor model colors bpp bitmap (j * min width (model.width - x).toNat + i) =
      bitmapColor model colors bpp bitmap (j * width + i)

def rowLength (model : Model) (x : Int) (width : Nat) : Nat :=
  max 1 (min width (model.width - x).toNat)

def groupCount (model : Model) (x y : Int) (width height : Nat) : Nat :=
  if x ≥ model.width ∨ y ≥ model.height then 0
  else min height (model.height - y).toNat * rowLength model x width

theorem clip_natCast (x : Int) (width screen : Nat) (h : x < screen) :
    clip x width screen = (min width (screen - x).toNat : Nat) := by
  rw [clip]
  split <;> omega

section
variable {model : Model} {width height : Nat}

theorem gridPosition_of_onScreen {x y : Int} {i j : Nat} (hi : i < width) (hj : j < height)
    (hon : OnScreen model (x + i, y + j)) :
    j * min width (model.width - x).toNat + i < groupCount model x y width height ∧
      gridPosition x y (rowLength model x width) (j * min width (model.width - x).toNat + i) =
        (x + i, y + j) := by
  simp only [OnScreen] at hon
  have hlength : rowLength model x width = min width (model.width - x).toNat := by
    rw [rowLength]
    omega
  have hcolumn : i < min width (model.width - x).toNat := by omega
  have hrow : j < min height (model.height - y).toNat := by omega
  rw [groupCount, if_neg (by omega), hlength, Nat.mul_comm j, gridPosition, cell_mul_add j hcolumn]
  exact ⟨index_lt_of_cell hrow hcolumn, rfl⟩

/-- What is drawn is in the rectangle, or in the column of one without columns. -/
theorem covers_gridPosition {x y : Int} {k : Nat} (hk : k < groupCount model x y width height) :
    (Draw.rect x y (max 1 width : Nat) height 0).Covers
      (gridPosition x y (rowLength model x width) k) := by
  rw [groupCount] at hk
  split at hk
  · exact absurd hk (Nat.not_lt_zero k)
  · obtain ⟨ha, hb⟩ := cell_lt hk
    have hlength : rowLength model x width ≤ max 1 width := by
      rw [rowLength]
      omega
    simp only [Draw.Covers, gridPosition]
    omega

end

section
variable {model : Model} {width height bpp : Nat} {colors : List Nat} {bitmap : Bytes}
  (hwhole : WholeBitmap width height colors bpp bitmap)
include hwhole

theorem halDrawBitmapWithinRect_plotted (x y : Int) (bagl : Bagl) (hmodel : bagl.fb.model = model)
    (fuel : Nat) (hfuel : groupCount model x y width height + 1 ≤ fuel) :
    ∃ bagl', halDrawBitmapWithinRect fuel bagl x y width height colors bpp bitmap none =
        some (.ok bagl') ∧
      Plotted bagl.fb bagl'.fb (gridPosition x y (rowLength model x width))
        (bitmapColor model colors bpp bitmap) (groupCount model x y width height) := by
  have hdepth : ¬ (bpp = 3 ∨ bpp > 4) := by
    rcases bpp_cases hwhole.depth with rfl | rfl | rfl <;> decide
  subst hmodel
  rw [halDrawBitmapWithinRect, if_neg hdepth]
  rw [groupCount] at hfuel ⊢
  split
  · next hoff => exact ⟨bagl, rfl, rfl, fun k hk => absurd hk (Nat.not_lt_zero k), fun _ _ => rfl⟩
  next hon =>
  rw [if_neg hon] at hfuel
  rw [not_or, not_le, not_le] at hon
  rw [clip_natCast x width _ hon.1, clip_natCast y height _ hon.2]
  have hm : 0 < rowLength bagl.fb.model x width := by
    rw [rowLength]
    omega
  have hxw (b : Nat) (hb : b < rowLength bagl.fb.model x width) :
      x + b + 1 < (min width (bagl.fb.model.width - x).toNat : Nat) + x ↔
        b + 1 < rowLength bagl.fb.model x width := by
    rw [rowLength] at hb ⊢
    omega
  suffices hloop : ∃ fb' xx yy,
      drawLoop x ((min width (bagl.fb.model.width - x).toNat : Nat) + x)
          ((min height (bagl.fb.model.height - y).toNat : Nat) + y) bpp colors fuel bagl.fb x y
          bitmap = some (.ok (fb', xx, yy)) ∧
        Plotted bagl.fb fb' (gridPosition x y (rowLength bagl.fb.model x width))
          (bitmapColor bagl.fb.model colors bpp bitmap)
          (min height (bagl.fb.model.height - y).toNat * rowLength bagl.fb.model x width) by
    obtain ⟨fb', xx, yy, hloop, hplotted⟩ := hloop
    refine ⟨⟨fb', x, y, (min width (bagl.fb.model.width - x).toNat : Nat),
      (min height (bagl.fb.model.height - y).toNat : Nat), colors, bpp, xx, yy⟩, ?_, hplotted⟩
    simp only [Option.getD_none, hloop]
    rfl
  by_cases hempty : min height (bagl.fb.model.height - y).toNat *
      rowLength bagl.fb.model x width = 0
  · have hrows := (Nat.mul_eq_zero.mp hempty).resolve_right (Nat.ne_of_gt hm)
    have hnil : bitmap = [] := by
      have hheight : height = 0 := by omega
      rw [← List.length_eq_zero_iff, hwhole.length, hheight]
      simp
    obtain ⟨fuel, rfl⟩ := Nat.exists_eq_succ_of_ne_zero (Nat.ne_zero_of_lt hfuel)
    refine ⟨bagl.fb, x, y, ?_, ?_⟩
    · rw [drawLoop, hrows, hnil, if_neg (by simp)]
    · rw [hempty]
      exact ⟨rfl, fun k hk => absurd hk (Nat.not_lt_zero k), fun _ _ => rfl⟩
  · have hloop := drawLoop_eq (y := y) hm hxw hwhole.depth hwhole.palette bitmap fuel 0 bagl.fb
      (Nat.pos_of_ne_zero hempty) (by omega)
    have hstart : gridPosition x y (rowLength bagl.fb.model x width) (8 / bpp * 0) = (x, y) := by
      simp [gridPosition, cell]
    rw [hstart] at hloop
    obtain ⟨xx, yy, hloop⟩ := hloop
    exact ⟨_, xx, yy, hloop, plotted_plotFrom ..⟩

/-- A bitmap is painted wherever that is exact. -/
theorem BitmapExact.paints {x y : Int}
    (hexact : BitmapExact model x y width height colors bpp bitmap) :
    PaintsBitmap model x y width height colors bpp bitmap := by
  intro bagl hmodel
  refine ⟨groupCount model x y width height + 1, fun fuel hfuel => ?_⟩
  obtain ⟨bagl', hdrawn, hplotted⟩ :=
    halDrawBitmapWithinRect_plotted hwhole x y bagl hmodel fuel hfuel
  subst hmodel
  refine ⟨bagl', hdrawn, fun p hp => ?_, fun p hp => .inr (hplotted.outside p fun _ _ _ => hp)⟩
  rw [hplotted.shown]
  by_cases hcovers : (Draw.rect x y width height 0).Covers p
  · obtain ⟨i, hi⟩ := Int.eq_ofNat_of_zero_le (Int.sub_nonneg_of_le hcovers.1.1)
    obtain ⟨j, hj⟩ := Int.eq_ofNat_of_zero_le (Int.sub_nonneg_of_le hcovers.2.1)
    obtain ⟨px, py⟩ := p
    obtain rfl : px = x + i := by omega
    obtain rfl : py = y + j := by omega
    have hi' : i < width := by
      have hlt := hcovers.1.2
      omega
    have hj' : j < height := by
      have hlt := hcovers.2.2
      omega
    obtain ⟨hk, hposition⟩ := gridPosition_of_onScreen hi' hj' hp
    have hinside := hplotted.inside _ hk (hposition ▸ hp)
    rw [hposition] at hinside
    rw [hinside, if_pos hcovers, hexact.rows i hi' j hj' hp]
    simp
  · have hunchanged : bagl'.fb.pixels.get? p = bagl.fb.pixels.get? p := by
      refine hplotted.outside p fun k hk heq _ => ?_
      have hdrawnAt := covers_gridPosition hk
      rw [← heq] at hdrawnAt
      by_cases hwidth : width = 0
      · rw [hwidth] at hdrawnAt
        exact hexact.columns hwidth ⟨p, hp, hdrawnAt⟩
      · rw [show max 1 width = width by omega] at hdrawnAt
        exact hcovers hdrawnAt
    rw [hunchanged, if_neg hcovers]
    rfl

theorem PaintsBitmap.color_eq {x y : Int} {k : Nat}
    (hpaints : PaintsBitmap model x y width height colors bpp bitmap) (fb : FrameBuffer)
    (hmodel : fb.model = model) (hk : k < groupCount model x y width height)
    (hp : p = gridPosition x y (rowLength model x width) k) (hon : OnScreen model p) :
    (if (Draw.rect x y width height 0).Covers p then
        some (bitmapColor model colors bpp bitmap ((p.2 - y).toNat * width + (p.1 - x).toNat))
      else none).getD (fb.shown p) = bitmapColor model colors bpp bitmap k := by
  obtain ⟨turns, hturns⟩ := hpaints ⟨fb, 0, 0, 0, 0, [], 0, 0, 0⟩ hmodel
  obtain ⟨bagl, hdrawn, hpaints⟩ := hturns (max turns (groupCount model x y width height + 1))
    (le_max_left ..)
  obtain ⟨bagl', hdrawn', hplotted⟩ := halDrawBitmapWithinRect_plotted hwhole x y
    ⟨fb, 0, 0, 0, 0, [], 0, 0, 0⟩ hmodel _ (le_max_right turns _)
  rw [hdrawn, Option.some.injEq, Except.ok.injEq] at hdrawn'
  subst hdrawn' hp
  rw [← hpaints.onScreen _ (hmodel ▸ hon), hplotted.shown,
    hplotted.inside k hk (hmodel ▸ hon)]
  simp

theorem PaintsBitmap.exact {x y : Int}
    (hpaints : PaintsBitmap model x y width height colors bpp bitmap) :
    BitmapExact model x y width height colors bpp bitmap := by
  refine ⟨?_, fun i hi j hj hon => ?_⟩
  · rintro rfl ⟨p, hp, hcovers⟩
    have hempty : ¬ (Draw.rect x y (0 : Nat) height 0).Covers p := by
      simp only [Draw.Covers]
      omega
    have hlength : rowLength model x 0 = 1 := by
      rw [rowLength]
      omega
    obtain ⟨px, py⟩ := p
    simp only [Draw.Covers, OnScreen] at hcovers hp
    have hk : (py - y).toNat < groupCount model x y 0 height := by
      rw [groupCount, if_neg (by omega), hlength]
      omega
    have hposition : (px, py) = gridPosition x y (rowLength model x 0) (py - y).toNat := by
      rw [hlength]
      simp only [gridPosition, cell, Nat.mod_one, Nat.div_one, Prod.mk.injEq]
      omega
    -- a display in another colour than that of the column
    have hcolor := hpaints.color_eq hwhole
      { FrameBuffer.init model with
        defaultColor := bitmapColor model colors bpp bitmap (py - y).toNat + 1 } rfl hk hposition hp
    rw [if_neg hempty] at hcolor
    exact Nat.succ_ne_self _ hcolor
  · obtain ⟨hk, hposition⟩ := gridPosition_of_onScreen hi hj hon
    have hcolor := hpaints.color_eq hwhole (FrameBuffer.init model) rfl hk hposition.symm hon
    have hcovers : (Draw.rect x y width height 0).Covers (x + i, y + j) := by
      simp only [Draw.Covers]
      omega
    rw [if_pos hcovers] at hcolor
    simpa using hcolor.symm

theorem paintsBitmap_iff (x y : Int) :
    PaintsBitmap model x y width height colors bpp bitmap ↔
      BitmapExact model x y width height colors bpp bitmap :=
  ⟨fun hpaints => PaintsBitmap.exact hwhole hpaints, fun hexact => hexact.paints hwhole⟩

end

-- ---------------------------------------------------------------------------
-- Both
-- ---------------------------------------------------------------------------

/-- A rectangle is painted, unless signs or sizes that are lost move it on the screen;
a bitmap is painted, unless rows that are cut on the right show other pixels. -/
theorem clipping_exact_iff (others : Others) (model : Model) (color : UInt32) (x y : Int16)
    (width height : UInt32) (bitmapWidth bitmapHeight : Nat) (colors : List Nat) (bpp : Nat)
    (bitmap : Bytes) (hwhole : WholeBitmap bitmapWidth bitmapHeight colors bpp bitmap) :
    (PaintsRect others model color x y width height ↔
      RectExact model x.toInt y.toInt width.toNat height.toNat) ∧
    (PaintsBitmap model x.toInt y.toInt bitmapWidth bitmapHeight colors bpp bitmap ↔
      BitmapExact model x.toInt y.toInt bitmapWidth bitmapHeight colors bpp bitmap) :=
  ⟨paintsRect_iff .., paintsBitmap_iff hwhole ..⟩

/-- A row of two pixels that reaches over the left edge is painted as a bitmap, while a
rectangle in the corner on the right is painted as far as it goes. -/
theorem clipping_exact_corner :
    PaintsRect ⟨fun _ _ _ => [], fun _ _ => [], fun _ _ => []⟩ .nanox 0xFFFFFF 120 60 20 20 ∧
    PaintsBitmap .nanox (-1) 0 2 1 [0x000000, 0xFFFFFF] 1 [0x02] := by
  refine ⟨(clipping_exact_iff _ .nanox 0xFFFFFF 120 60 20 20 0 0 [0, 0] 1 []
      ⟨by decide, rfl, rfl⟩).1.mpr fun _ => by decide,
    (clipping_exact_iff ⟨fun _ _ _ => [], fun _ _ => [], fun _ _ => []⟩ .nanox 0 (-1) 0 0 0 2 1
      [0x000000, 0xFFFFFF] 1 [0x02] ⟨by decide, rfl, rfl⟩).2.mpr ⟨by simp, ?_⟩⟩
  intro i hi j hj hon
  rfl

/-- A rectangle that reaches over the left edge is not painted, and a bitmap of two rows that
reaches over the right edge is painted wrongly. -/
theorem not_clipping_exact :
    ¬ PaintsRect ⟨fun _ _ _ => [], fun _ _ => [], fun _ _ => []⟩ .nanox 0xFFFFFF (-1) 0 2 1 ∧
    ¬ PaintsBitmap .nanox 127 0 2 2 [0x000000, 0xFFFFFF] 1 [0x04] := by
  constructor
  · intro hpaints
    have hexact := (paintsRect_iff ..).mp hpaints ⟨(0, 0), by decide, by decide⟩
    exact absurd hexact.1.1 (by decide)
  · intro hpaints
    have hwhole : WholeBitmap 2 2 [0x000000, 0xFFFFFF] 1 [0x04] := ⟨by decide, rfl, rfl⟩
    have hexact := hpaints.exact hwhole
    exact absurd (hexact.rows 0 (by decide) 1 (by decide) (by decide)) (by decide)

end Bagl

end Speculos.Display
