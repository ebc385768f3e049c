import Mathlib.Data.List.ModifyLast
import Speculos.Display.FrameBuffer
import Speculos.Lib.Raster
import Speculos.Lib.Lts

/-!
# Text events

The characters of `ocr.py` that come with their text: each is put into the last event, whose box
is updated, or begins a new one. The box of an event is moved up and down so that it
holds the character, but its left edge stays and its right edge becomes the one of the last
character. So it covers its characters exactly where none of them sticks out to the left or
ends before the event does.
-/

namespace Speculos.Display

open Lib

/-- The arguments of `add_character`. -/
structure Character where
  x : Int
  y : Int
  w : Int
  h : Int
  char : String
  deriving DecidableEq, Repr

def Model.maxBlankSpace : Model → Int
  | .stax => 24
  | .flex => 26
  | _ => 12

def storeCharInLastEvent (event : TextEvent) (c : Character) : TextEvent :=
  -- Update w for all chars in the event
  let x2 := c.x + c.w - 1
  let w := x2 - event.x + 1
  -- Keep the lowest Y in Y1
  let y1 := if c.y > event.y then event.y else c.y
  -- Keep the highest Y in Y2
  let y2 := c.y + c.h - 1
  let y2 := if y2 < event.y + event.h then event.y + event.h - 1 else y2
  { event with text := event.text ++ c.char, w := w, y := y1, h := y2 - y1 + 1 }

/-- That char can be added to the previous event. -/
def Joins (model : Model) (event : TextEvent) (c : Character) : Prop :=
  c.y < event.y + event.h ∧ |c.x - (event.x + event.w)| < model.maxBlankSpace

instance : Decidable (Joins model event c) := inferInstanceAs (Decidable (_ ∧ _))

def Character.event (c : Character) : TextEvent := ⟨c.char, c.x, c.y, c.w, c.h, false⟩

/-- `add_character` on the events so far. -/
def addCharacter (model : Model) (events : List TextEvent) (c : Character) : List TextEvent :=
  match events.getLast? with
  | some event =>
    if Joins model event c then events.dropLast ++ [storeCharInLastEvent event c]
    -- create a new TextEvent if there is a new line
    else events ++ [c.event]
  | none => events ++ [c.event]

-- ---------------------------------------------------------------------------
-- The characters of an event
-- ---------------------------------------------------------------------------

/-- An event with the characters that were put into it. -/
structure Filled where
  event : TextEvent
  characters : List Character

def putCharacter (model : Model) (filled : List Filled) (c : Character) : List Filled :=
  match filled.getLast? with
  | some last =>
    if Joins model last.event c then
      filled.dropLast ++ [⟨storeCharInLastEvent last.event c, last.characters ++ [c]⟩]
    else filled ++ [⟨c.event, [c]⟩]
  | none => filled ++ [⟨c.event, [c]⟩]

def TextEvent.box (event : TextEvent) : Box :=
  ⟨event.x, event.y, event.x + event.w, event.y + event.h⟩

def Character.box (c : Character) : Box := ⟨c.x, c.y, c.x + c.w, c.y + c.h⟩

/-- The events after some calls, with their characters. -/
def fill (model : Model) (characters : List Character) : List Filled :=
  characters.foldl (putCharacter model) []

theorem putCharacter_joins (model : Model) (init : List Filled) (last : Filled) (c : Character)
    (hjoins : Joins model last.event c) :
    putCharacter model (init ++ [last]) c =
      init ++ [⟨storeCharInLastEvent last.event c, last.characters ++ [c]⟩] := by
  simp [putCharacter, hjoins]

theorem putCharacter_new (model : Model) (filled : List Filled) (c : Character)
    (hnew : ∀ last ∈ filled.getLast?, ¬ Joins model last.event c) :
    putCharacter model filled c = filled ++ [⟨c.event, [c]⟩] := by
  rw [putCharacter]
  cases hlast : filled.getLast? with
  | none => rfl
  | some last => exact if_neg (hnew last hlast)

theorem putCharacter_cases (model : Model) (filled : List Filled) (c : Character) :
    (∃ init last, filled = init ++ [last] ∧ Joins model last.event c ∧
      putCharacter model filled c =
        init ++ [⟨storeCharInLastEvent last.event c, last.characters ++ [c]⟩]) ∨
    (∀ last ∈ filled.getLast?, ¬ Joins model last.event c) ∧
      putCharacter model filled c = filled ++ [⟨c.event, [c]⟩] := by
  rcases List.eq_nil_or_concat filled with rfl | ⟨init, last, rfl⟩
  · exact .inr ⟨by simp, rfl⟩
  · rw [List.concat_eq_append]
    by_cases hjoins : Joins model last.event c
    · exact .inl ⟨init, last, rfl, hjoins, putCharacter_joins model init last c hjoins⟩
    · have hnew : ∀ last' ∈ (init ++ [last]).getLast?, ¬ Joins model last'.event c := by
        simpa using hjoins
      exact .inr ⟨hnew, putCharacter_new model _ c hnew⟩

theorem putCharacter_event (model : Model) (filled : List Filled) (c : Character) :
    (putCharacter model filled c).map Filled.event =
      addCharacter model (filled.map Filled.event) c := by
  rw [putCharacter, addCharacter, List.getLast?_map]
  cases filled.getLast? with
  | none => simp
  | some last =>
    rw [Option.map_some]
    by_cases hjoins : Joins model last.event c
    · simp [hjoins, List.map_dropLast]
    · simp [hjoins]

theorem fill_concat (model : Model) (characters : List Character) (c : Character) :
    fill model (characters ++ [c]) = putCharacter model (fill model characters) c :=
  List.foldl_concat ..

theorem fill_event (model : Model) (characters : List Character) :
    (fill model characters).map Filled.event = characters.foldl (addCharacter model) [] := by
  induction characters using List.reverseRecOn with
  | nil => rfl
  | append_singleton characters c ih =>
    rw [fill_concat, putCharacter_event, ih, List.foldl_concat]

theorem fill_characters (model : Model) (characters : List Character) :
    (fill model characters).flatMap Filled.characters = characters := by
  induction characters using List.reverseRecOn with
  | nil => rfl
  | append_singleton characters c ih =>
    rw [fill_concat]
    rcases putCharacter_cases model (fill model characters) c with
      ⟨init, last, heq, -, hput⟩ | ⟨-, hput⟩
    · rw [heq] at ih
      rw [hput]
      simpa using congrArg (· ++ [c]) ih
    · rw [hput]
      simpa using ih

-- ---------------------------------------------------------------------------
-- Texts and boxes
-- ---------------------------------------------------------------------------

def Filled.Spelled (f : Filled) : Prop :=
  f.event.text = String.join (f.characters.map Character.char)

/-- The right edge of an event is the one of a character, the last one. -/
def Filled.Ends (f : Filled) : Prop := ∃ c ∈ f.characters, c.box.right = f.event.box.right

def Filled.Covers (f : Filled) : Prop := ∀ c ∈ f.characters, c.box ≤ f.event.box

theorem forall_mem_putCharacter {P : Filled → Prop} (hnew : ∀ c : Character, P ⟨c.event, [c]⟩)
    (hput : ∀ f c, P f → P ⟨storeCharInLastEvent f.event c, f.characters ++ [c]⟩) (model : Model)
    (hfilled : ∀ f ∈ filled, P f) (c : Character) : ∀ f ∈ putCharacter model filled c, P f := by
  rcases putCharacter_cases model filled c with ⟨init, last, rfl, -, heq⟩ | ⟨-, heq⟩
  · rw [List.forall_mem_append, List.forall_mem_singleton] at hfilled
    rw [heq, List.forall_mem_append, List.forall_mem_singleton]
    exact ⟨hfilled.1, hput last c hfilled.2⟩
  · rw [heq, List.forall_mem_append, List.forall_mem_singleton]
    exact ⟨hfilled, hnew c⟩

theorem forall_mem_fill {P : Filled → Prop} (hnew : ∀ c : Character, P ⟨c.event, [c]⟩)
    (hput : ∀ f c, P f → P ⟨storeCharInLastEvent f.event c, f.characters ++ [c]⟩) (model : Model)
    (characters : List Character) : ∀ f ∈ fill model characters, P f := by
  induction characters using List.reverseRecOn with
  | nil => exact fun f hf => absurd hf List.not_mem_nil
  | append_singleton characters c ih =>
    rw [fill_concat]
    exact forall_mem_putCharacter hnew hput model ih c

theorem fill_spelled (model : Model) (characters : List Character) :
    ∀ f ∈ fill model characters, f.Spelled := by
  refine forall_mem_fill (fun c => ?_) (fun f c hf => ?_) model characters
  · simp [Filled.Spelled, Character.event]
  · rw [Filled.Spelled] at hf
    simp [Filled.Spelled, storeCharInLastEvent, hf]

theorem storeCharInLastEvent_box (event : TextEvent) (c : Character) :
    (storeCharInLastEvent event c).box =
      ⟨event.box.left, min event.box.top c.box.top, c.box.right,
        max event.box.bottom c.box.bottom⟩ := by
  simp only [storeCharInLastEvent, TextEvent.box, Character.box, Box.mk.injEq, true_and]
  omega

theorem Filled.ends_new (c : Character) : (Filled.mk c.event [c]).Ends :=
  ⟨c, List.mem_singleton_self c, rfl⟩

theorem Filled.ends_put (f : Filled) (c : Character) (_ : f.Ends) :
    (Filled.mk (storeCharInLastEvent f.event c) (f.characters ++ [c])).Ends := by
  refine ⟨c, List.mem_append_right _ (List.mem_singleton_self c), ?_⟩
  rw [storeCharInLastEvent_box]

theorem join_text_fill (model : Model) (characters : List Character) :
    String.join ((fill model characters).map fun f => f.event.text) =
      String.join (characters.map Character.char) := by
  have hspelled := fill_spelled model characters
  conv_rhs => rw [← fill_characters model characters]
  generalize fill model characters = events at hspelled ⊢
  induction events with
  | nil => rfl
  | cons f events ih =>
    rw [List.forall_mem_cons] at hspelled
    have htext : f.event.text = String.join (f.characters.map Character.char) := hspelled.1
    simp [ih hspelled.2, htext]

/-- The new box of an event is around the old one and the character exactly where the
character neither sticks out to the left nor ends before the event. -/
theorem sup_le_storeCharInLastEvent_iff (event : TextEvent) (c : Character) :
    event.box ⊔ c.box ≤ (storeCharInLastEvent event c).box ↔
      event.box.left ≤ c.box.left ∧ event.box.right ≤ c.box.right := by
  rw [storeCharInLastEvent_box, Box.sup_def, Box.le_def]
  simp

/-- A character that neither sticks out to the left of the event it is put into nor ends
before it. -/
def Extends (model : Model) (filled : List Filled) (c : Character) : Prop :=
  ∀ last ∈ filled.getLast?, Joins model last.event c →
    last.event.box.left ≤ c.box.left ∧ last.event.box.right ≤ c.box.right

theorem Filled.covers_put_iff {f : Filled} (hcovers : f.Covers) (hends : f.Ends) (c : Character) :
    (Filled.mk (storeCharInLastEvent f.event c) (f.characters ++ [c])).Covers ↔
      f.event.box.left ≤ c.box.left ∧ f.event.box.right ≤ c.box.right := by
  rw [Filled.Covers, List.forall_mem_append, List.forall_mem_singleton]
  constructor
  · rintro ⟨hold, hnew⟩
    obtain ⟨d, hd, hright⟩ := hends
    have hlast := (hold d hd).2.2.1
    rw [storeCharInLastEvent_box] at hlast hnew
    exact ⟨hnew.1, hright ▸ hlast⟩
  · intro h
    have hsup := (sup_le_storeCharInLastEvent_iff f.event c).mpr h
    exact ⟨fun d hd => (hcovers d hd).trans (le_sup_left.trans hsup), le_sup_right.trans hsup⟩

theorem putCharacter_covers_iff (model : Model) (hcovers : ∀ f ∈ filled, f.Covers)
    (hends : ∀ f ∈ filled, f.Ends) (c : Character) :
    (∀ f ∈ putCharacter model filled c, f.Covers) ↔ Extends model filled c := by
  rcases putCharacter_cases model filled c with ⟨init, last, rfl, hjoins, heq⟩ | ⟨hnew, heq⟩
  · have hlast : last ∈ init ++ [last] := List.mem_append_right _ (List.mem_singleton_self last)
    rw [List.forall_mem_append] at hcovers
    rw [heq, List.forall_mem_append, List.forall_mem_singleton,
      Filled.covers_put_iff (hcovers.2 last (List.mem_singleton_self last)) (hends last hlast)]
    simp only [Extends, List.getLast?_concat, Option.mem_some_iff, forall_eq', hjoins, true_implies]
    exact and_iff_right hcovers.1
  · rw [heq, List.forall_mem_append, List.forall_mem_singleton]
    refine iff_of_true ⟨hcovers, ?_⟩ fun last hlast hjoins => absurd hjoins (hnew last hlast)
    intro d hd
    rw [List.mem_singleton.mp hd]
    exact le_refl _

-- ---------------------------------------------------------------------------
-- Sequences of calls
-- ---------------------------------------------------------------------------

/-- `add_character` as a step that cannot fail. -/
def putStep (model : Model) (events : List Filled) (c : Character) : Option (List Filled) :=
  some (putCharacter model events c)

/-- The invariant of the calls, of which the first part is the one that is wanted. -/
def Settled (events : List Filled) : Prop := (∀ f ∈ events, f.Covers) ∧ ∀ f ∈ events, f.Ends

theorem putStep_settled_iff (hsettled : Settled events)
    (hstep : putStep model events c = some events') :
    Settled events' ↔ Extends model events c := by
  obtain ⟨hcovers, hends⟩ := hsettled
  rw [← Option.some.inj hstep, ← putCharacter_covers_iff model hcovers hends c]
  exact and_iff_left (forall_mem_putCharacter Filled.ends_new Filled.ends_put model hends c)

theorem exec_putStep (model : Model) (events : List Filled) (characters : List Character) :
    exec (putStep model) events characters =
      some (characters.foldl (putCharacter model) events) := by
  induction characters generalizing events with
  | nil => rfl
  | cons c characters ih => exact ih (putCharacter model events c)

/-- The texts are the characters in the order of the calls, and the box of every event
holds the boxes of the characters in it. -/
structure Shows (model : Model) (characters : List Character) : Prop where
  text : String.join ((characters.foldl (addCharacter model) []).map TextEvent.text) =
    String.join (characters.map Character.char)
  box : ∀ f ∈ fill model characters, ∀ c ∈ f.characters, c.box ≤ f.event.box

theorem shows_iff (model : Model) (characters : List Character) :
    Shows model characters ↔ ∀ f ∈ fill model characters, f.Covers := by
  refine ⟨fun h => h.box, fun h => ⟨?_, h⟩⟩
  rw [← fill_event, List.map_map]
  exact join_text_fill model characters

/-- The events are as they should be after each call exactly where every character that is put
into an event neither sticks out to its left nor ends before it. -/
theorem shows_after_each_iff (model : Model) (characters : List Character) :
    (∀ before after, characters = before ++ after → Shows model before) ↔
      Guarded (putStep model) (Extends model) [] characters := by
  have hempty : Settled [] :=
    ⟨fun f hf => absurd hf List.not_mem_nil, fun f hf => absurd hf List.not_mem_nil⟩
  rw [← forall_prefix_iff_guarded (fun _ _ _ h _ hstep => putStep_settled_iff h hstep) hempty
    (guarded_of_forall (fun _ _ => trivial) _ _) (exec_putStep model [] characters)]
  constructor
  · intro h before after events heq hexec
    rw [exec_putStep] at hexec
    rw [← Option.some.inj hexec]
    exact ⟨(shows_iff model before).mp (h before after heq),
      forall_mem_fill Filled.ends_new Filled.ends_put model before⟩
  · intro h before after heq
    exact (shows_iff model before).mpr (h before after _ heq (exec_putStep model [] before)).1

/-- An `m` and a narrower character that is drawn over it: the event ends where the second
character ends. -/
theorem not_shows_overlap :
    ¬ ∀ (model : Model) (characters : List Character), (∀ c ∈ characters, 1 ≤ c.w ∧ 1 ≤ c.h) →
      ∀ before after, characters = before ++ after → Shows model before := by
  intro h
  have hshows := h .nanox [⟨10, 5, 9, 11, "m"⟩, ⟨12, 5, 3, 11, "i"⟩] (by decide) _ []
    (List.append_nil _).symm
  have hbox := hshows.box
  revert hbox
  decide

end Speculos.Display
