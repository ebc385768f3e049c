import Mathlib.Data.List.GetD
import Speculos.Display.Bagl

/-!
# Drawing a BAGL bitmap

The groups of bits of a bitmap are drawn row after row. A first packet draws the
whole rectangle: where its part of the bitmap ends, the missing groups are zero.
A further packet starts below the rectangle and never reaches it again.
-/

namespace Speculos.Display

open Lib

namespace Bagl

/-- The group `k` of `bpp` bits; past the end of the bitmap it is zero. -/
def group (bitmap : Bytes) (bpp k : Nat) : Nat :=
  ((bitmap.getD (k / (8 / bpp)) 0).toNat >>> (k % (8 / bpp) * bpp)) &&& (2 ^ bpp - 1)

theorem group_lt (bitmap : Bytes) (bpp k : Nat) : group bitmap bpp k < 2 ^ bpp := by
  rw [group, Nat.and_two_pow_sub_one_eq_mod]
  exact Nat.mod_lt _ (Nat.two_pow_pos bpp)

theorem bpp_cases (h : bpp ∈ [1, 2, 4]) : bpp = 1 ∨ bpp = 2 ∨ bpp = 4 := by
  simpa using h

theorem bpp_ne_zero (h : bpp ∈ [1, 2, 4]) : bpp ≠ 0 := by
  rintro rfl
  exact absurd h (by decide)

theorem shifts_eq (h : bpp ∈ [1, 2, 4]) : shifts bpp = (List.range (8 / bpp)).map (· * bpp) := by
  rcases bpp_cases h with rfl | rfl | rfl
  · rfl
  · rfl
  · rfl

theorem length_shifts (h : bpp ∈ [1, 2, 4]) : (shifts bpp).length = 8 / bpp := by
  rw [shifts_eq h, List.length_map, List.length_range]

theorem groups_pos (h : bpp ∈ [1, 2, 4]) : 0 < 8 / bpp := by
  rcases bpp_cases h with rfl | rfl | rfl
  · decide
  · decide
  · decide

theorem shifts_ne_nil (h : bpp ∈ [1, 2, 4]) : shifts bpp ≠ [] := by
  rw [← List.length_pos_iff, length_shifts h]
  exact groups_pos h

theorem bits_eq_group (h : bpp ∈ [1, 2, 4]) (bitmap : Bytes) (b j : Nat)
    (hj : j < (shifts bpp).length) :
    (((bitmap.drop b).headD 0).toNat >>> (shifts bpp)[j]) &&& (2 ^ bpp - 1) =
      group bitmap bpp (8 / bpp * b + j) := by
  have hbyte : (bitmap.drop b).headD 0 = bitmap.getD b 0 := by
    rw [List.headD_eq_head?_getD, List.head?_drop, List.getD_eq_getElem?_getD]
  have hlt : j < 8 / bpp := by rwa [length_shifts h] at hj
  rw [group, Nat.mul_add_mod, Nat.mod_eq_of_lt hlt, Nat.mul_add_div (groups_pos h),
    Nat.div_eq_of_lt hlt, Nat.add_zero, hbyte]
  simp only [shifts_eq h, List.getElem_map, List.getElem_range]

theorem index_lt {i j : Nat} (hi : i < w) (hj : j < h) : w * j + i < w * h :=
  calc
    w * j + i < w * (j + 1) := Nat.add_lt_add_left hi _
    _ ≤ w * h := Nat.mul_le_mul_left w hj

/-- The pixel of the group `k` in a rectangle of width `w`. -/
def position (x y w k : Nat) : Pixel := (((x + k % w : Nat) : Int), ((y + k / w : Nat) : Int))

theorem position_eq (x y q : Nat) (hr : r < w) :
    position x y w (w * q + r) = (((x + r : Nat) : Int), ((y + q : Nat) : Int)) := by
  rw [position, Nat.mul_add_mod, Nat.mod_eq_of_lt hr, Nat.mul_add_div (Nat.zero_lt_of_lt hr),
    Nat.div_eq_of_lt hr, Nat.add_zero]

theorem position_injective (h : position x y w k = position x y w k') : k = k' := by
  have hx := Int.ofNat.inj (congrArg Prod.fst h)
  have hy := Int.ofNat.inj (congrArg Prod.snd h)
  rw [← Nat.div_add_mod k w, ← Nat.div_add_mod k' w, Nat.add_left_cancel hx, Nat.add_left_cancel hy]

variable {fb₀ fb : FrameBuffer} {color : Nat → Nat}

/-- The groups before `k` are drawn, and nothing else. -/
structure Painted (fb₀ fb : FrameBuffer) (x y w : Nat) (color : Nat → Nat) (k : Nat) : Prop where
  model : fb.model = fb₀.model
  inside : ∀ k' < k, fb.pixels.get? (position x y w k') = some (color k')
  outside : ∀ p, (∀ k' < k, p ≠ position x y w k') → fb.pixels.get? p = fb₀.pixels.get? p

theorem Painted.refl (fb : FrameBuffer) (x y w : Nat) (color : Nat → Nat) :
    Painted fb fb x y w color 0 :=
  ⟨rfl, fun _ h => (nomatch h), fun _ _ => rfl⟩

theorem Painted.drawPoint (h : Painted fb₀ fb x y w color k)
    (hc : FrameBuffer.checkColor fb.model c = color k) :
    Painted fb₀ (fb.drawPoint (position x y w k).1 (position x y w k).2 c) x y w color (k + 1) := by
  refine ⟨h.model, fun k' hk' => ?_, fun p hp => ?_⟩
  · simp only [FrameBuffer.drawPoint, Dict.get?_set, hc]
    by_cases heq : k' = k
    · rw [heq, if_pos rfl]
    · rw [if_neg fun hposition => heq (position_injective hposition), h.inside k' (by omega)]
  · simp only [FrameBuffer.drawPoint, Dict.get?_set]
    rw [if_neg (hp k (Nat.lt_succ_self k))]
    exact h.outside p fun k' hk' => hp k' (Nat.lt_succ_of_lt hk')

-- ---------------------------------------------------------------------------
-- Inside the rectangle
-- ---------------------------------------------------------------------------

section
variable {x y w h bpp mask : Nat} {colors : List Nat} (hw : x + w ≤ fb₀.model.width)
    (hh : y + h ≤ fb₀.model.height)
include hw hh

theorem drawGroup_inside (hr : r < w) (hq : q < h) (bits : Nat)
    (hpainted : Painted fb₀ fb x y w color (w * q + r)) (hc : colors[bits]? = some c)
    (hcheck : FrameBuffer.checkColor fb₀.model c = color (w * q + r)) :
    ∃ fb', drawGroup colors bits fb (x + r : Nat) (y + q : Nat) = .ok fb' ∧
      Painted fb₀ fb' x y w color (w * q + r + 1) := by
  have hon : 0 ≤ ((x + r : Nat) : Int) ∧ ((x + r : Nat) : Int) < fb.model.width ∧
      0 ≤ ((y + q : Nat) : Int) ∧ ((y + q : Nat) : Int) < fb.model.height := by
    rw [hpainted.model]
    omega
  have hnext := hpainted.drawPoint (c := c) (by rw [hpainted.model]; exact hcheck)
  rw [position_eq x y q hr] at hnext
  refine ⟨_, ?_, hnext⟩
  rw [drawGroup, if_pos hon, hc]

theorem drawBitmapByte_inside (ch : UInt8) (is : List Nat) (fb : FrameBuffer) (q r : Nat)
    (hr : r < w) (hq : q < h) (hpainted : Painted fb₀ fb x y w color (w * q + r))
    (hcolor : ∀ j (hj : j < is.length), ∃ c, colors[(ch.toNat >>> is[j]) &&& mask]? = some c ∧
      FrameBuffer.checkColor fb₀.model c = color (w * q + r + j)) :
    ∃ fb' q' r', drawBitmapByte ch x (w + x) (h + y) mask colors is fb (x + r : Nat) (y + q : Nat) =
        .ok (fb', (x + r' : Nat), (y + q' : Nat), decide (w * h ≤ w * q + r + is.length)) ∧
      r' < w ∧ w * q' + r' = min (w * q + r + is.length) (w * h) ∧
      Painted fb₀ fb' x y w color (w * q' + r') := by
  have hrow (q : Nat) (hq : q < h) : w * q + w ≤ w * h := by
    rw [← Nat.mul_succ]
    exact Nat.mul_le_mul_left w hq
  induction is generalizing fb q r with
  | nil =>
    have hlt := hrow q hq
    refine ⟨fb, q, r, ?_, hr, ?_, hpainted⟩
    · rw [drawBitmapByte, decide_eq_false (by simp only [List.length_nil]; omega)]
    · simp only [List.length_nil]
      omega
  | cons i is ih =>
    have hlt := hrow q hq
    obtain ⟨c, hc, hcheck⟩ := hcolor 0 (Nat.zero_lt_succ _)
    obtain ⟨fb₁, hgroup, hnext⟩ := drawGroup_inside hw hh hr hq _ hpainted hc hcheck
    rw [drawBitmapByte, show drawGroup colors ((ch.toNat >>> i) &&& mask) fb (x + r : Nat)
      (y + q : Nat) = .ok fb₁ from hgroup]
    simp only [bind, Except.bind]
    have hrest (k : Nat) (hk : k = w * q + r + 1) (j : Nat) (hj : j < is.length) :
        ∃ c, colors[(ch.toNat >>> is[j]) &&& mask]? = some c ∧
          FrameBuffer.checkColor fb₀.model c = color (k + j) := by
      obtain ⟨c', hc', hcheck'⟩ := hcolor (j + 1) (Nat.succ_lt_succ hj)
      exact ⟨c', hc', by rw [hcheck', hk, Nat.add_right_comm _ 1, Nat.add_assoc _ j]⟩
    by_cases hend : r + 1 = w
    · have hk : w * (q + 1) + 0 = w * q + r + 1 := by
        rw [Nat.mul_succ]
        omega
      rw [if_pos (show ((x + r : Nat) : Int) + 1 ≥ (w : Int) + x by omega)]
      by_cases hlast : q + 1 = h
      · -- the last group of the rectangle
        rw [if_pos (show ((y + q : Nat) : Int) + 1 ≥ (h : Int) + y by omega)]
        have hk' : w * h + 0 = w * q + r + 1 := by rw [← hlast, hk]
        refine ⟨_, h, 0, ?_, by omega, ?_, hk' ▸ hnext⟩
        · rw [decide_eq_true (by rw [List.length_cons]; omega), ← hlast]
          rfl
        · rw [List.length_cons]
          omega
      · rw [if_neg (show ¬ ((y + q : Nat) : Int) + 1 ≥ (h : Int) + y by omega)]
        obtain ⟨fb', q', r', hbyte, hr', hk', hpainted'⟩ := ih _ (q + 1) 0 (by omega) (by omega)
          (hk ▸ hnext) (hrest _ hk)
        refine ⟨fb', q', r', ?_, hr', ?_, hpainted'⟩
        · rw [List.length_cons, ← Nat.add_assoc, Nat.add_right_comm, ← hk, ← hbyte]
          rfl
        · rw [hk', List.length_cons, hk, Nat.add_right_comm _ 1, Nat.add_assoc]
    · have hk : w * q + (r + 1) = w * q + r + 1 := rfl
      rw [if_neg (show ¬ ((x + r : Nat) : Int) + 1 ≥ (w : Int) + x by omega)]
      obtain ⟨fb', q', r', hbyte, hr', hk', hpainted'⟩ := ih _ q (r + 1) (by omega) hq hnext
        (hrest _ hk)
      refine ⟨fb', q', r', ?_, hr', ?_, hpainted'⟩
      · rw [List.length_cons, ← Nat.add_assoc, Nat.add_right_comm, ← hk, ← hbyte]
        rfl
      · rw [hk', List.length_cons, hk, Nat.add_right_comm _ 1, Nat.add_assoc]

theorem drawLoop_inside (hbpp : bpp ∈ [1, 2, 4]) (hcolors : colors.length = 2 ^ bpp)
    (bitmap : Bytes) (hcolor : ∀ k, color k =
      FrameBuffer.checkColor fb₀.model (colors.getD (group bitmap bpp k) 0))
    (fuel b : Nat) (fb : FrameBuffer) (q r : Nat) (hr : r < w) (hq : q < h)
    (hb : 8 / bpp * b = w * q + r) (hfuel : w * h < fuel + (w * q + r))
    (hpainted : Painted fb₀ fb x y w color (w * q + r)) :
    ∃ fb', drawLoop x (w + x) (h + y) bpp colors fuel fb (x + r : Nat) (y + q : Nat)
        (bitmap.drop b) = some (.ok (fb', x, (y + h : Nat))) ∧
      Painted fb₀ fb' x y w color (w * h) := by
  have hgroups := groups_pos hbpp
  have hzero := bpp_ne_zero hbpp
  induction fuel generalizing b fb q r with
  | zero =>
    have hlt := index_lt hr hq
    omega
  | succ fuel ih =>
    have hbits (j : Nat) (hj : j < (shifts bpp).length) :
        ∃ c, colors[(((bitmap.drop b).headD 0).toNat >>> (shifts bpp)[j]) &&& (2 ^ bpp - 1)]? =
            some c ∧
          FrameBuffer.checkColor fb₀.model c = color (w * q + r + j) := by
      have hlt := hcolors ▸ group_lt bitmap bpp (w * q + r + j)
      refine ⟨_, ?_, (hcolor _).symm⟩
      rw [bits_eq_group hbpp, hb, List.getElem?_eq_getElem hlt, List.getD_eq_getElem _ _ hlt]
    obtain ⟨fb', q', r', hbyte, hr', hk', hpainted'⟩ := drawBitmapByte_inside hw hh
      ((bitmap.drop b).headD 0) (shifts bpp) fb q r hr hq hpainted hbits
    rw [length_shifts hbpp] at hbyte hk'
    rw [drawLoop, if_pos (.inr (by omega)), if_neg hzero, hbyte]
    by_cases hdone : w * h ≤ w * q + r + 8 / bpp
    · rw [Nat.min_eq_right hdone] at hk'
      have hend : w * h + 0 = w * q' + r' := hk'.symm
      rw [Nat.mul_comm w h, Nat.mul_comm w q'] at hend
      obtain ⟨rfl, rfl⟩ := column_row_of_position (by omega) hr' hend
      refine ⟨fb', ?_, hpainted'⟩
      simp only [decide_eq_true hdone, if_true, Nat.add_zero]
    · rw [Nat.min_eq_left (by omega)] at hk'
      have hq' : q' < h := by
        by_contra hge
        have hle := Nat.mul_le_mul_left w (Nat.le_of_not_lt hge)
        omega
      obtain ⟨fb'', hloop, hpainted''⟩ := ih (b + 1) fb' q' r' hr' hq'
        (by rw [hk', Nat.mul_succ, hb]) (by omega) hpainted'
      refine ⟨fb'', ?_, hpainted''⟩
      simp only [decide_eq_false hdone, Bool.false_eq_true, if_false, List.tail_drop]
      exact hloop

end

-- ---------------------------------------------------------------------------
-- Below the rectangle
-- ---------------------------------------------------------------------------

/-- What is drawn from the row `yy` on: nothing below the screen, and no pixel is
taken back. -/
structure DrawnFrom (fb fb' : FrameBuffer) (yy : Int) : Prop where
  model : fb'.model = fb.model
  keeps : ∀ p, (fb.pixels.get? p).isSome → (fb'.pixels.get? p).isSome
  nothing : fb.model.height ≤ yy → fb' = fb

theorem DrawnFrom.refl (fb : FrameBuffer) (yy : Int) : DrawnFrom fb fb yy :=
  ⟨rfl, fun _ h => h, fun _ => rfl⟩

theorem DrawnFrom.trans {fb₁ fb₂ fb₃ : FrameBuffer} (h₁ : DrawnFrom fb₁ fb₂ yy)
    (h₂ : DrawnFrom fb₂ fb₃ yy') (hle : yy ≤ yy') : DrawnFrom fb₁ fb₃ yy := by
  refine ⟨h₂.model.trans h₁.model, fun p hp => h₂.keeps p (h₁.keeps p hp), fun hyy => ?_⟩
  rw [h₂.nothing (by rw [h₁.model]; omega), h₁.nothing hyy]

theorem isSome_drawPoint (fb : FrameBuffer) (xx yy : Int) (c : Nat) (p : Pixel)
    (h : p = (xx, yy) ∨ (fb.pixels.get? p).isSome) :
    ((fb.drawPoint xx yy c).pixels.get? p).isSome := by
  rw [FrameBuffer.drawPoint, Dict.get?_set]
  by_cases hp : p = (xx, yy)
  · rw [if_pos hp]
    rfl
  · rw [if_neg hp]
    exact h.resolve_left hp

/-- Where a further packet leaves off, and what it draws. -/
structure Below (x : Nat) (fb fb' : FrameBuffer) (xx yy xx' yy' : Int) : Prop where
  left : x ≤ xx'
  down : yy ≤ yy'
  drawn : DrawnFrom fb fb' yy

theorem Below.refl {x : Nat} (hleft : (x : Int) ≤ xx) (fb : FrameBuffer) (yy : Int) :
    Below x fb fb xx yy xx yy :=
  ⟨hleft, Int.le_refl yy, .refl fb yy⟩

section
variable {x w : Nat} {colors : List Nat} {mask : Nat}
  (hcolors : ∀ bits, ∃ c, colors[bits &&& mask]? = some c)
include hcolors

theorem drawGroup_from (bits : Nat) (fb : FrameBuffer) (xx yy : Int) :
    ∃ fb', drawGroup colors (bits &&& mask) fb xx yy = .ok fb' ∧ DrawnFrom fb fb' yy ∧
      (0 ≤ xx → xx < fb.model.width → 0 ≤ yy → yy < fb.model.height →
        (fb'.pixels.get? (xx, yy)).isSome) := by
  obtain ⟨c, hc⟩ := hcolors bits
  rw [drawGroup, hc]
  by_cases hon : 0 ≤ xx ∧ xx < fb.model.width ∧ 0 ≤ yy ∧ yy < fb.model.height
  · refine ⟨fb.drawPoint xx yy c, if_pos hon, ⟨rfl, fun p hp => ?_, fun hyy => ?_⟩, ?_⟩
    · exact isSome_drawPoint fb xx yy c p (.inr hp)
    · omega
    · exact fun _ _ _ _ => isSome_drawPoint fb xx yy c _ (.inl rfl)
  · refine ⟨fb, if_neg hon, .refl fb yy, fun hxx hxx' hyy hyy' => ?_⟩
    exact absurd ⟨hxx, hxx', hyy, hyy'⟩ hon

theorem drawBitmapByte_below (ch : UInt8) (is : List Nat) (fb : FrameBuffer) (xx yy yh : Int)
    (hleft : x ≤ xx) :
    ∃ fb' xx' yy' done, drawBitmapByte ch x (w + x) yh mask colors is fb xx yy =
        .ok (fb', xx', yy', done) ∧
      Below x fb fb' xx yy xx' yy' ∧
      (is ≠ [] → xx < fb.model.width → 0 ≤ yy → yy < fb.model.height →
        (fb'.pixels.get? (xx, yy)).isSome) := by
  induction is generalizing fb xx yy with
  | nil => exact ⟨fb, xx, yy, false, rfl, .refl hleft fb yy, fun h => absurd rfl h⟩
  | cons i is ih =>
    obtain ⟨fb₁, hgroup, hdrawn, hsome⟩ := drawGroup_from hcolors (ch.toNat >>> i) fb xx yy
    have hmodel := hdrawn.model
    rw [drawBitmapByte, hgroup]
    simp only [bind, Except.bind]
    by_cases hend : xx + 1 ≥ w + x
    · rw [if_pos hend]
      by_cases hlast : yy + 1 ≥ yh
      · rw [if_pos hlast]
        exact ⟨fb₁, x, yy + 1, true, rfl, ⟨Int.le_refl _, by omega, hdrawn⟩, fun _ =>
          hsome (by omega)⟩
      · rw [if_neg hlast]
        obtain ⟨fb', xx', yy', done, hbyte, hbelow, -⟩ := ih fb₁ x (yy + 1) (Int.le_refl _)
        have hdown := hbelow.down
        refine ⟨fb', xx', yy', done, hbyte, ⟨hbelow.left, by omega,
          hdrawn.trans hbelow.drawn (by omega)⟩, fun _ hxx hyy hyy' => ?_⟩
        exact hbelow.drawn.keeps _ (hsome (by omega) hxx hyy hyy')
    · rw [if_neg hend]
      obtain ⟨fb', xx', yy', done, hbyte, hbelow, -⟩ := ih fb₁ (xx + 1) yy (by omega)
      refine ⟨fb', xx', yy', done, hbyte, ⟨hbelow.left, hbelow.down,
        hdrawn.trans hbelow.drawn (Int.le_refl yy)⟩, fun _ hxx hyy' hyy'' => ?_⟩
      exact hbelow.drawn.keeps _ (hsome (by omega) hxx hyy' hyy'')

end

theorem colors_some {colors : List Nat} (h : colors.length = 2 ^ bpp) (bits : Nat) :
    ∃ c, colors[bits &&& (2 ^ bpp - 1)]? = some c := by
  have hlt : bits &&& (2 ^ bpp - 1) < colors.length := by
    rw [h, Nat.and_two_pow_sub_one_eq_mod]
    exact Nat.mod_lt _ (Nat.two_pow_pos bpp)
  exact ⟨_, List.getElem?_eq_getElem hlt⟩

theorem drawLoop_below {x w : Nat} {colors : List Nat} (hbpp : bpp ∈ [1, 2, 4])
    (hcolors : colors.length = 2 ^ bpp) (fuel : Nat) (fb : FrameBuffer) (xx yy yh : Int)
    (bitmap : Bytes) (hfuel : bitmap.length < fuel) (hleft : x ≤ xx) (hyy : yh ≤ yy) :
    ∃ fb' xx' yy', drawLoop x (w + x) yh bpp colors fuel fb xx yy bitmap =
        some (.ok (fb', xx', yy')) ∧
      Below x fb fb' xx yy xx' yy' ∧
      (bitmap ≠ [] → xx < fb.model.width → 0 ≤ yy → yy < fb.model.height →
        (fb'.pixels.get? (xx, yy)).isSome) := by
  have hzero := bpp_ne_zero hbpp
  have hshifts := shifts_ne_nil hbpp
  induction bitmap generalizing fuel fb xx yy with
  | nil =>
    obtain ⟨fuel, rfl⟩ := Nat.exists_eq_succ_of_ne_zero (Nat.ne_zero_of_lt hfuel)
    refine ⟨fb, xx, yy, ?_, .refl hleft fb yy, fun h => absurd rfl h⟩
    rw [drawLoop, if_neg (by simp only [ne_eq, not_true_eq_false, false_or]; omega)]
  | cons ch bitmap ih =>
    obtain ⟨fuel, rfl⟩ := Nat.exists_eq_succ_of_ne_zero (Nat.ne_zero_of_lt hfuel)
    obtain ⟨fb₁, xx₁, yy₁, done, hbyte, hbelow, hsome⟩ := drawBitmapByte_below
      (colors_some hcolors) ch (shifts bpp) fb xx yy yh hleft
    rw [drawLoop, if_pos (.inl (List.cons_ne_nil _ _)), if_neg hzero, List.headD_cons, hbyte]
    cases done with
    | true => exact ⟨fb₁, xx₁, yy₁, rfl, hbelow, fun _ => hsome hshifts⟩
    | false =>
      have hdown := hbelow.down
      obtain ⟨fb', xx', yy', hloop, hbelow', -⟩ :=
        ih fuel fb₁ xx₁ yy₁ (Nat.lt_of_succ_lt_succ hfuel)
        hbelow.left (by omega)
      refine ⟨fb', xx', yy', hloop, ⟨hbelow'.left,
        Int.le_trans hbelow.down hbelow'.down, hbelow.drawn.trans hbelow'.drawn hdown⟩, ?_⟩
      exact fun _ hxx hyy' hyy'' => hbelow'.drawn.keeps _ (hsome hshifts hxx hyy' hyy'')

/-- A packet that is drawn at all starts with its first group, wherever that is. -/
theorem isSome_of_drawLoop {x w : Nat} {colors : List Nat} (hbpp : bpp ∈ [1, 2, 4])
    (hcolors : colors.length = 2 ^ bpp)
    (h : drawLoop x (w + x) yh bpp colors fuel fb xx yy bitmap = some (.ok (fb', xx', yy')))
    (hleft : x ≤ xx) :
    (∀ p, (fb.pixels.get? p).isSome → (fb'.pixels.get? p).isSome) ∧
      (yy < yh → xx < fb.model.width → 0 ≤ yy → yy < fb.model.height →
        (fb'.pixels.get? (xx, yy)).isSome) := by
  have hshifts := shifts_ne_nil hbpp
  have hzero := bpp_ne_zero hbpp
  induction fuel generalizing fb xx yy bitmap with
  | zero => cases h
  | succ fuel ih =>
    obtain ⟨fb₁, xx₁, yy₁, done, hbyte, hbelow, hsome⟩ := drawBitmapByte_below
      (colors_some hcolors) (bitmap.headD 0) (shifts bpp) fb xx yy yh hleft
    rw [drawLoop] at h
    by_cases hmore : bitmap ≠ [] ∨ yy < yh
    · rw [if_pos hmore, if_neg hzero, hbyte] at h
      cases done with
      | true =>
        cases h
        exact ⟨hbelow.drawn.keeps, fun _ => hsome hshifts⟩
      | false =>
        obtain ⟨hkeeps, -⟩ := ih h hbelow.left
        exact ⟨fun p hp => hkeeps p (hbelow.drawn.keeps p hp), fun _ hxx hyy hyy' =>
          hkeeps _ (hsome hshifts hxx hyy hyy')⟩
    · rw [if_neg hmore] at h
      cases h
      exact ⟨fun _ hp => hp, fun hyy => absurd (.inr hyy) hmore⟩

end Bagl

end Speculos.Display
