import Mathlib.Data.List.ProdSigma
import Speculos.Display.Shown

/-!
# The view of the VNC server

A redraw overwrites the whole frame buffer of the server: with the pixels drawn
since the last update, and with the default colour everywhere else. A screenshot
keeps the pixels of earlier updates. The two agree after an update exactly where
every pixel that is kept has the default colour or was drawn again.
-/

namespace Speculos.Display

open Lib

namespace VncServer

-- ---------------------------------------------------------------------------
-- Receiving records
-- ---------------------------------------------------------------------------

theorem drawPoint_eq (width : Nat) (framebuffer : Region) (x y color : Nat) :
    drawPoint width framebuffer x y color =
      framebuffer.memcpy ((y + width * x) * 4) (toBE 3 color) 3 := by
  have hbytes : toBE 3 color =
      [UInt8.ofNat (color >>> 16), UInt8.ofNat (color >>> 8), UInt8.ofNat (color >>> 0)] := by
    simp only [toBE, List.nil_append, List.cons_append,
      Nat.shiftRight_eq_div_pow, Nat.div_div_eq_div_mul, Nat.reduceMul, Nat.reducePow, Nat.div_one]
  rw [hbytes]
  rfl

theorem fromLE_record {n : Nat} (h : n < 65536) :
    fromLE [UInt8.ofNat n, UInt8.ofNat (n >>> 8)] = n := by
  simp only [fromLE, List.reverse_cons, List.reverse_nil, List.nil_append, List.singleton_append,
    fromBE_pair, UInt8.toNat_ofNat', Nat.shiftRight_eq_div_pow]
  omega

theorem toBE_fromLE_color (color : Nat) :
    toBE 3 (fromLE [UInt8.ofNat color, UInt8.ofNat (color >>> 8), UInt8.ofNat (color >>> 16),
      UInt8.ofNat (color >>> 24)]) = toBE 3 color := by
  apply fromBE_injective
  · rw [length_toBE, length_toBE]
  · rw [fromBE_toBE, fromBE_toBE]
    simp only [fromLE, fromBE, Nat.shiftRight_eq_div_pow, Nat.reducePow, List.reverse_cons,
      List.reverse_nil, List.nil_append, List.cons_append, List.foldl_cons, List.foldl_nil,
      UInt8.toNat_ofNat']
    omega

theorem receive_nil (width : Nat) (framebuffer : Region) :
    receive width [] framebuffer = framebuffer := by
  rw [receive]
  exact fun _ _ _ _ _ _ _ _ _ _ h => (nomatch h)

theorem receive_record (width : Nat) (hx : x < 65536) (hy : y < 65536) (color : Nat)
    (rest : Bytes) (framebuffer : Region) :
    receive width (record x y color ++ rest) framebuffer =
      receive width rest (framebuffer.memcpy ((x + width * y) * 4) (toBE 3 color) 3) := by
  rw [record, List.cons_append, List.cons_append, List.cons_append, List.cons_append,
    List.cons_append, List.cons_append, List.cons_append, List.cons_append, List.cons_append,
    List.nil_append, receive, fromLE_record hx, fromLE_record hy, drawPoint_eq, toBE_fromLE_color]

section
variable (width : Nat) (color : Nat × Nat → Nat) {ps : List (Nat × Nat)}
  (hps : ∀ p ∈ ps, p.1 < 65536 ∧ p.2 < 65536)
include hps

theorem receive_records (rest : Bytes) (framebuffer : Region) :
    receive width (ps.flatMap (fun p => record p.1 p.2 (color p)) ++ rest) framebuffer =
      receive width rest (ps.foldl (fun framebuffer p =>
        framebuffer.memcpy ((p.1 + width * p.2) * 4) (toBE 3 (color p)) 3) framebuffer) := by
  induction ps generalizing framebuffer with
  | nil => rfl
  | cons p ps ih =>
    obtain ⟨hx, hy⟩ := hps p List.mem_cons_self
    rw [List.flatMap_cons, List.append_assoc, receive_record width hx hy, List.foldl_cons]
    exact ih (fun p hp => hps p (List.mem_cons_of_mem _ hp)) _

end

theorem slice_foldl_memcpy (color : Nat × Nat → Nat) (ps : List (Nat × Nat))
    (hps : ∀ p ∈ ps, p.1 < width) (hx : x < width) (framebuffer : Region) :
    (ps.foldl (fun framebuffer p =>
        framebuffer.memcpy ((p.1 + width * p.2) * 4) (toBE 3 (color p)) 3) framebuffer).slice
      ((x + width * y) * 4) 3 =
    if (x, y) ∈ ps then toBE 3 (color (x, y)) else framebuffer.slice ((x + width * y) * 4) 3 := by
  induction ps generalizing framebuffer with
  | nil => rfl
  | cons p ps ih =>
    rw [List.foldl_cons, ih fun p hp => hps p (List.mem_cons_of_mem _ hp)]
    by_cases hmem : (x, y) ∈ ps
    · rw [if_pos hmem, if_pos (List.mem_cons_of_mem _ hmem)]
    · by_cases hp : (x, y) = p
      · subst hp
        rw [if_neg hmem, if_pos List.mem_cons_self, Region.slice_memcpy_eq _ _ _ (length_toBE 3 _)]
      · have hne : x + width * y ≠ p.1 + width * p.2 := by
          intro heq
          have hposition : y * width + x = p.2 * width + p.1 := by
            rw [Nat.mul_comm y, Nat.mul_comm p.2]
            omega
          obtain ⟨hpx, hpy⟩ := column_row_of_position hx
            (hps p List.mem_cons_self) hposition
          exact hp (Prod.ext hpx hpy)
        rw [if_neg hmem, if_neg (by simp [hp, hmem]),
          Region.slice_memcpy_of_disjoint _ _ _ _ _ _ (by omega)]

/-- The bytes are whole records: what comes after them is read on its own. -/
def Complete (sent : Bytes) : Prop :=
  ∀ width rest framebuffer,
    receive width (sent ++ rest) framebuffer = receive width rest (receive width sent framebuffer)

/-- The pixels of a screen, column after column. -/
def screen (width height : Nat) : List (Nat × Nat) := List.range width ×ˢ List.range height

theorem mem_screen : (x, y) ∈ screen width height ↔ x < width ∧ y < height := by
  rw [screen, List.mem_product, List.mem_range, List.mem_range]

theorem redraw_sent (vnc : Vnc) (pixels : PixelColorMapping) (defaultColor : Nat) :
    (vnc.redraw pixels defaultColor).sent = vnc.sent ++
      (screen vnc.width vnc.height).flatMap fun p =>
        record p.1 p.2 ((pixels.get? (p.1, p.2)).getD defaultColor) := by
  rw [Vnc.redraw, screen]
  simp only [SProd.sprod, List.product, List.flatMap_assoc, List.flatMap_map]

def pixel (vnc : Vnc) (x y : Nat) : Bytes :=
  (receive vnc.width vnc.sent (init vnc.width vnc.height)).slice ((x + vnc.width * y) * 4) 3

section
variable {vnc : Vnc} (hwidth : vnc.width ≤ 65536) (hheight : vnc.height ≤ 65536)
include hwidth hheight

theorem screen_lt : ∀ p ∈ screen vnc.width vnc.height, p.1 < 65536 ∧ p.2 < 65536 := by
  rintro ⟨x, y⟩ hp
  obtain ⟨hx, hy⟩ := mem_screen.mp hp
  exact ⟨by omega, by omega⟩

theorem complete_redraw (h : Complete vnc.sent) (pixels : PixelColorMapping) (defaultColor : Nat) :
    Complete (vnc.redraw pixels defaultColor).sent := by
  intro width rest framebuffer
  have hrecords := receive_records width
    (fun p => (pixels.get? (p.1, p.2)).getD defaultColor) (screen_lt hwidth hheight)
  have hend := hrecords [] (receive width vnc.sent framebuffer)
  rw [List.append_nil] at hend
  rw [redraw_sent, List.append_assoc, h, hrecords, h, hend]
  rfl

theorem pixel_redraw (h : Complete vnc.sent) (pixels : PixelColorMapping) (defaultColor : Nat)
    (hx : x < vnc.width) (hy : y < vnc.height) :
    pixel (vnc.redraw pixels defaultColor) x y =
      toBE 3 ((pixels.get? (x, y)).getD defaultColor) := by
  have hrecords := receive_records vnc.width
    (fun p => (pixels.get? (p.1, p.2)).getD defaultColor) (screen_lt hwidth hheight) []
    (receive vnc.width vnc.sent (init vnc.width vnc.height))
  rw [List.append_nil] at hrecords
  rw [pixel, redraw_sent]
  show (receive vnc.width _ (init vnc.width vnc.height)).slice ((x + vnc.width * y) * 4) 3 = _
  rw [h, hrecords, receive_nil, slice_foldl_memcpy (fun p => (pixels.get? (p.1,
    p.2)).getD defaultColor)
    _ (fun p hp => (mem_screen.mp hp).1) hx, if_pos (mem_screen.mpr ⟨hx, hy⟩)]

end

theorem pixel_init (vnc : Vnc) (hsent : vnc.sent = []) (hx : x < vnc.width) (hy : y < vnc.height) :
    pixel vnc x y = [0xFF, 0xFF, 0xFF] := by
  have hlt := FrameBuffer.place_lt hx hy
  have hcomm := Nat.mul_comm y vnc.width
  rw [pixel, hsent, receive_nil, init,
    Region.slice_memset_self _ _ _ _ _ _ (Nat.zero_le _) (by omega)]
  rfl

end VncServer

-- ---------------------------------------------------------------------------
-- The server and the screenshot
-- ---------------------------------------------------------------------------

namespace HeadlessPaintWidget

def withVnc (model : Model) : HeadlessPaintWidget :=
  init model (some ⟨model.width, model.height, []⟩)

/-- The server shows what a screenshot shows. -/
def Agrees (m : HeadlessPaintWidget) : Prop :=
  ∃ vnc data, m.vnc = some vnc ∧ m.takeScreenshot = .ok (m.model.screenSize, data) ∧
    ∀ x y : Nat, x < m.model.width → y < m.model.height →
      VncServer.pixel vnc x y = (data.drop (3 * (y * m.model.width + x))).take 3

/-- Before an update: every pixel that is kept and not drawn again has the default
colour. Where nothing is to be updated, the server was sent something before. -/
def Mirrored (m : HeadlessPaintWidget) : Prop :=
  if m.pending then
    m.resetScreenshotPixels = false → ∀ p, OnScreen m.model p → m.pixels.get? p = none →
      ∀ color ∈ m.screenshotPixels.get? p, color = m.defaultColor
  else ∃ vnc ∈ m.vnc, vnc.sent ≠ []

/-- The server has the screen of the display, and was sent whole records. -/
structure Connected (m : HeadlessPaintWidget) (server : Vnc) : Prop where
  vnc : m.vnc = some server
  width : server.width = m.model.width
  height : server.height = m.model.height
  complete : VncServer.Complete server.sent

theorem Connected.le {m : HeadlessPaintWidget} (h : m.Connected server) :
    server.width ≤ 65536 ∧ server.height ≤ 65536 := by
  rw [h.width, h.height]
  exact ⟨m.model.width_le.trans (by decide), m.model.height_le.trans (by decide)⟩

theorem connected_update {m : HeadlessPaintWidget} (h : m.Connected server)
    (hpending : m.pending = true) :
    (m.step .update).Connected (server.redraw m.pixels m.defaultColor) := by
  rw [step, update_of_pending hpending]
  refine ⟨?_, h.width, h.height, VncServer.complete_redraw h.le.1 h.le.2 h.complete _ _⟩
  rw [h.vnc]
  rfl

theorem connected_step (m : HeadlessPaintWidget) (call : Call) (h : m.Connected server) :
    ∃ server', (m.step call).Connected server' := by
  cases call with
  | draw d =>
    have hmodel : (m.step (.draw d)).model = m.model := model_step m _
    exact ⟨server, h.vnc, h.width.trans (congrArg Model.width hmodel.symm),
      h.height.trans (congrArg Model.height hmodel.symm), h.complete⟩
  | update =>
    by_cases hpending : m.pending = true
    · exact ⟨_, connected_update h hpending⟩
    · rw [step, update_of_not_pending (Bool.not_eq_true _ ▸ hpending)]
      exact ⟨server, h⟩

theorem connected_run (model : Model) (calls : List Call) :
    ∃ server, ((withVnc model).run calls).Connected server := by
  induction calls using List.reverseRecOn with
  | nil => exact ⟨_, rfl, rfl, rfl, fun _ _ _ => by rw [VncServer.receive_nil]; rfl⟩
  | append_singleton calls call ih =>
    obtain ⟨server, hserver⟩ := ih
    rw [run_concat]
    exact connected_step _ call hserver

theorem agrees_iff {m : HeadlessPaintWidget} (hvalid : m.Valid) (h : m.Connected server) :
    m.Agrees ↔ ∀ x y : Nat, x < m.model.width → y < m.model.height →
      VncServer.pixel server x y =
        toBE 3 ((m.screenshotPixels.get? (x, y)).getD m.defaultColor) := by
  obtain ⟨data, hdata, -, hpixels⟩ := hvalid.shows
  constructor
  · rintro ⟨server', data', hserver', hdata', hagrees⟩ x y hx hy
    rw [h.vnc] at hserver'
    rw [hdata] at hdata'
    cases hserver'
    cases hdata'
    rw [hagrees x y hx hy, hpixels x y hx hy]
  · intro hall
    refine ⟨server, data, h.vnc, hdata, fun x y hx hy => ?_⟩
    rw [hall x y hx hy, hpixels x y hx hy]

theorem agrees_update_iff {m : HeadlessPaintWidget} (hvalid : m.Valid) (h : m.Connected server)
    (hpending : m.pending = true) : (m.step .update).Agrees ↔ m.Mirrored := by
  have hvalid' : (m.step .update).Valid := by
    refine valid_step m .update hvalid fun d hd => ?_
    cases hd
  -- what is kept of the last screenshot
  generalize hkept : (if m.resetScreenshotPixels then .empty else m.screenshotPixels) = kept
  have hpixel (p : Pixel) : toBE 3 ((m.pixels.get? p).getD m.defaultColor) =
      toBE 3 (((m.pixels.get? p).or (kept.get? p)).getD m.defaultColor) ↔
        (m.pixels.get? p = none → ∀ color ∈ kept.get? p, color = m.defaultColor) := by
    cases m.pixels.get? p with
    | some color => simp
    | none =>
      cases hp : kept.get? p with
      | none => simp
      | some color =>
        have hlt : color < 2 ^ 24 := by
          rw [← hkept] at hp
          split at hp
          · cases hp
          · exact (hvalid.screenshotPixels p color hp).2
        have hinj : toBE 3 m.defaultColor = toBE 3 color ↔ color = m.defaultColor :=
          ⟨fun heq => (toBE_injective_of_lt hvalid.defaultColor hlt heq).symm,
            fun heq => by rw [heq]⟩
        simpa using hinj
  rw [agrees_iff hvalid' (connected_update h hpending), Mirrored, if_pos hpending, step,
    update_of_pending hpending]
  simp only [hkept, Dict.get?_update]
  constructor
  · intro hall hreset p hp
    obtain ⟨x, y, rfl, hx, hy⟩ := FrameBuffer.natCast_of_onScreen hp
    have hxy := hall x y hx hy
    rw [VncServer.pixel_redraw h.le.1 h.le.2 h.complete _ _ (h.width ▸ hx) (h.height ▸ hy),
      hpixel, ← hkept, hreset] at hxy
    exact hxy
  · intro hall x y hx hy
    rw [VncServer.pixel_redraw h.le.1 h.le.2 h.complete _ _ (h.width ▸ hx) (h.height ▸ hy), hpixel,
      ← hkept]
    cases hreset : m.resetScreenshotPixels with
    | true =>
      intro _ color hcolor
      cases hcolor
    | false => exact hall hreset _ (FrameBuffer.onScreen_natCast hx hy)

-- ---------------------------------------------------------------------------
-- A run
-- ---------------------------------------------------------------------------

/-- A call that leaves nothing pending draws nothing. -/
theorem agrees_draw {m : HeadlessPaintWidget} (d : Draw)
    (h : (m.step (.draw d)).pending = false) :
    m.pending = false ∧ (m.Agrees → (m.step (.draw d)).Agrees) := by
  by_cases hfull : d.FullScreen m.model
  · rw [step, draw_of_fullScreen m.toFrameBuffer hfull] at h
    cases h
  · have hpixels := get?_pixels_draw m.toFrameBuffer hfull
    have hstep : m.step (.draw d) = { m with pixels := (m.toFrameBuffer.draw d).pixels } := by
      rw [step, draw_eq m.toFrameBuffer hfull]
    rw [hstep] at h ⊢
    obtain ⟨hempty, hdraw⟩ := (not_pending_iff _).mp h
    refine ⟨(not_pending_iff m).mpr ⟨Dict.eq_empty_of_get? fun p => ?_, hdraw⟩, id⟩
    have hp := hpixels p
    rw [show (m.toFrameBuffer.draw d).pixels = .empty from hempty, Dict.get?_empty] at hp
    split at hp
    · cases hp
    · exact hp.symm

theorem redraw_sent_ne_nil {server : Vnc} (hx : 0 < server.width) (hy : 0 < server.height)
    (pixels : PixelColorMapping) (defaultColor : Nat) :
    (server.redraw pixels defaultColor).sent ≠ [] := by
  intro hnil
  rw [VncServer.redraw_sent] at hnil
  have hrecord := List.flatMap_eq_nil_iff.mp (List.append_eq_nil_iff.mp hnil).2 (0, 0)
    (VncServer.mem_screen.mpr ⟨hx, hy⟩)
  cases hrecord

/-- Until something is sent, nothing was updated. -/
def Idle (m : HeadlessPaintWidget) : Prop :=
  (∃ server, m.vnc = some server ∧ server.sent = []) →
    m.screenshotPixels = .empty ∧ (m.drawDefaultColor = false → m.defaultColor = 0)

theorem idle_step {m : HeadlessPaintWidget} (call : Call) (hserver : m.Connected server)
    (h : m.Idle) : (m.step call).Idle := by
  cases call with
  | draw d =>
    rintro hsent
    obtain ⟨hpixels, hcolor⟩ := h hsent
    by_cases hfull : d.FullScreen m.model
    · rw [step, draw_of_fullScreen m.toFrameBuffer hfull]
      refine ⟨hpixels, fun hdraw => ?_⟩
      cases hdraw
    · rw [step, draw_eq m.toFrameBuffer hfull]
      exact ⟨hpixels, hcolor⟩
  | update =>
    by_cases hpending : m.pending = true
    · rintro ⟨server', hserver', hnil⟩
      rw [(connected_update hserver hpending).vnc] at hserver'
      cases hserver'
      have horigin := onScreen_origin m.model
      refine absurd hnil (redraw_sent_ne_nil ?_ ?_ _ _)
      · rw [hserver.width]
        exact Int.ofNat_lt.mp horigin.1.2
      · rw [hserver.height]
        exact Int.ofNat_lt.mp horigin.2.2
    · rwa [step, update_of_not_pending (Bool.not_eq_true _ ▸ hpending)]

theorem idle_run (model : Model) (calls : List Call) : ((withVnc model).run calls).Idle := by
  induction calls using List.reverseRecOn with
  | nil => exact fun _ => ⟨rfl, fun _ => rfl⟩
  | append_singleton calls call ih =>
    obtain ⟨server, hserver⟩ := connected_run model calls
    rw [run_concat]
    exact idle_step call hserver ih

/-- Before anything was sent the server is white and the screenshot black. -/
theorem not_agrees_of_idle {m : HeadlessPaintWidget} (hvalid : m.Valid)
    (hserver : m.Connected server) (hidle : m.Idle) (hpending : m.pending = false)
    (hsent : server.sent = []) : ¬ m.Agrees := by
  rw [agrees_iff hvalid hserver]
  intro hall
  obtain ⟨hpixels, hcolor⟩ := hidle ⟨server, hserver.vnc, hsent⟩
  have horigin := onScreen_origin m.model
  have hx : 0 < m.model.width := Int.ofNat_lt.mp horigin.1.2
  have hy : 0 < m.model.height := Int.ofNat_lt.mp horigin.2.2
  have hpixel := hall 0 0 hx hy
  rw [VncServer.pixel_init server hsent (hserver.width ▸ hx) (hserver.height ▸ hy), hpixels,
    hcolor ((not_pending_iff m).mp hpending).2] at hpixel
  exact absurd hpixel (by decide)

/-- Every update of the run is mirrored. -/
def AllMirrored (model : Model) (calls : List Call) : Prop :=
  ∀ start, start ++ [.update] <+: calls → ((withVnc model).run start).Mirrored

/-- The views agree after every update of the run. -/
def AllAgree (model : Model) (calls : List Call) : Prop :=
  ∀ start, start ++ [.update] <+: calls → ((withVnc model).run (start ++ [.update])).Agrees

theorem valid_run_withVnc (h : ∀ d, .draw d ∈ calls → d.Drawable model) :
    ((withVnc model).run calls).Valid :=
  valid_run model _ calls h

theorem agrees_of_not_pending (calls : List Call) (hdraws : ∀ d, .draw d ∈ calls → d.Drawable model)
    (hmirrored : AllMirrored model calls) (hserver : ((withVnc model).run calls).Connected server)
    (hsent : server.sent ≠ []) (hpending : ((withVnc model).run calls).pending = false) :
    ((withVnc model).run calls).Agrees := by
  induction calls using List.reverseRecOn generalizing server with
  | nil =>
    cases hserver.vnc
    exact absurd rfl hsent
  | append_singleton calls call ih =>
    have hdraws' : ∀ d, .draw d ∈ calls → d.Drawable model := fun d hd =>
      hdraws d (List.mem_append_left _ hd)
    have hmirrored' : AllMirrored model calls := fun start hstart =>
      hmirrored start (hstart.trans (List.prefix_append _ _))
    obtain ⟨server', hserver'⟩ := connected_run model calls
    rw [run_concat] at hpending hserver ⊢
    cases call with
    | draw d =>
      obtain ⟨hpending', hagrees⟩ := agrees_draw d hpending
      have hsame : some server' = some server := hserver'.vnc.symm.trans hserver.vnc
      cases hsame
      exact hagrees (ih hdraws' hmirrored' hserver' hsent hpending')
    | update =>
      by_cases hpending' : ((withVnc model).run calls).pending = true
      · exact (agrees_update_iff (valid_run_withVnc hdraws') hserver' hpending').mpr
          (hmirrored calls (List.prefix_refl _))
      · have hnot : ((withVnc model).run calls).pending = false := Bool.not_eq_true _ ▸ hpending'
        rw [step, update_of_not_pending hnot] at hserver ⊢
        exact ih hdraws' hmirrored' hserver hsent hnot

/-- After every update the server shows what a screenshot shows, exactly if every
update is mirrored. -/
theorem vnc_agrees_iff (model : Model) (calls : List Call)
    (hdraws : ∀ d, .draw d ∈ calls → d.Drawable model) :
    AllAgree model calls ↔ AllMirrored model calls := by
  have hvalid (start : List Call) (hstart : start ++ [.update] <+: calls) :
      ∀ d, .draw d ∈ start → d.Drawable model := fun d hd =>
    hdraws d (hstart.subset (List.mem_append_left _ hd))
  constructor
  · intro hagree start hstart
    obtain ⟨server, hserver⟩ := connected_run model start
    have hstep := hagree start hstart
    rw [run_concat] at hstep
    by_cases hpending : ((withVnc model).run start).pending = true
    · exact (agrees_update_iff (valid_run_withVnc (hvalid start hstart)) hserver hpending).mp hstep
    · have hnot : ((withVnc model).run start).pending = false := Bool.not_eq_true _ ▸ hpending
      rw [step, update_of_not_pending hnot] at hstep
      rw [Mirrored, if_neg hpending]
      refine ⟨server, hserver.vnc, fun hnil => ?_⟩
      exact not_agrees_of_idle (valid_run_withVnc (hvalid start hstart)) hserver
        (idle_run model start) hnot hnil hstep
  · intro hmirrored start hstart
    obtain ⟨server, hserver⟩ := connected_run model start
    have hstep := hmirrored start hstart
    rw [run_concat]
    by_cases hpending : ((withVnc model).run start).pending = true
    · exact (agrees_update_iff (valid_run_withVnc (hvalid start hstart)) hserver hpending).mpr hstep
    · have hnot : ((withVnc model).run start).pending = false := Bool.not_eq_true _ ▸ hpending
      rw [Mirrored, if_neg hpending] at hstep
      obtain ⟨server', hserver', hsent⟩ := hstep
      have hsame : some server' = some server := hserver'.symm.trans hserver.vnc
      cases hsame
      rw [step, update_of_not_pending hnot]
      exact agrees_of_not_pending start (hvalid start hstart)
        (fun before hbefore => hmirrored before
          ((hbefore.trans (List.prefix_append _ _)).trans hstart)) hserver hsent hnot

/-- A white screen, then a black one with a white point. -/
theorem vnc_agrees_screens :
    AllAgree .nanox [.draw (.rect 0 0 128 64 1), .update, .draw (.rect 0 0 128 64 0),
        .draw (.point 5 6 1), .update] ↔
      AllMirrored .nanox [.draw (.rect 0 0 128 64 1), .update, .draw (.rect 0 0 128 64 0),
        .draw (.point 5 6 1), .update] := by
  refine vnc_agrees_iff .nanox _ fun d hd p hp => ?_
  simp only [List.mem_cons, Call.draw.injEq, List.not_mem_nil, or_false, reduceCtorEq,
    false_or] at hd
  rcases hd with rfl | rfl | rfl
  · have hfull : Draw.FullScreen .nanox (.rect 0 0 128 64 1) := ⟨rfl, rfl, rfl, rfl⟩
    exact ⟨(Draw.covers_iff_of_fullScreen hfull p).mp hp, by decide⟩
  · have hfull : Draw.FullScreen .nanox (.rect 0 0 128 64 0) := ⟨rfl, rfl, rfl, rfl⟩
    exact ⟨(Draw.covers_iff_of_fullScreen hfull p).mp hp, by decide⟩
  · have hpoint : p = (5, 6) := hp
    rw [hpoint]
    exact ⟨by decide, by decide⟩

/-- The server loses the first of two points. -/
theorem vnc_loses_point :
    ¬ AllAgree .nanox [.draw (.point 0 0 1), .update, .draw (.point 1 0 1), .update] := by
  intro hagree
  have hdraws : ∀ d, .draw d ∈ [Call.draw (.point 0 0 1), .update, .draw (.point 1 0 1)] →
      d.Drawable .nanox := by
    intro d hd p hp
    simp only [List.mem_cons, Call.draw.injEq, List.not_mem_nil, or_false, reduceCtorEq,
      false_or] at hd
    rcases hd with rfl | rfl
    · have hpoint : p = (0, 0) := hp
      rw [hpoint]
      exact ⟨by decide, by decide⟩
    · have hpoint : p = (1, 0) := hp
      rw [hpoint]
      exact ⟨by decide, by decide⟩
  obtain ⟨server, hserver⟩ :=
    connected_run .nanox [.draw (.point 0 0 1), .update, .draw (.point 1 0 1)]
  have hstep := hagree [.draw (.point 0 0 1), .update, .draw (.point 1 0 1)] (List.prefix_refl _)
  rw [run_concat] at hstep
  have hpending :
      ((withVnc .nanox).run [.draw (.point 0 0 1), .update, .draw (.point 1 0 1)]).pending = true :=
    rfl
  have hmirrored := (agrees_update_iff (valid_run_withVnc hdraws) hserver hpending).mp hstep
  rw [Mirrored, if_pos hpending] at hmirrored
  exact absurd (hmirrored rfl (0, 0) (onScreen_origin _) rfl 0xDDDDDD rfl) (by decide)

end HeadlessPaintWidget

end Speculos.Display
