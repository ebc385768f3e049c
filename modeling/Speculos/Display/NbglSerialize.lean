import Speculos.Lib.Dict

/-!
# NBGL events as JSON

`nbgl_serialize.py`: the enumerations, the classes with the declared types of
their fields, and the conversion of events to and from JSON-like dictionaries.
An instance is its class with its `__dict__`; `to_json_dict` goes by the values
that it finds there, `from_json_dict` by the declared types.
-/

namespace Speculos.Display

open Lib

-- ---------------------------------------------------------------------------
-- Enumerations
-- ---------------------------------------------------------------------------

namespace NbglSerialize

inductive NbglEnum
  | color
  | bpp
  | direction
  | state
  | qrCodeVersion
  | radius
  | keyboardMode
  | objType
  | alignment
  | fontId
  | style
  | eventType
  deriving DecidableEq, Repr

def NbglEnum.definitions : NbglEnum → List (String × Nat)
  | .color => [("BLACK", 0), ("DARK_GRAY", 1), ("LIGHT_GRAY", 2), ("WHITE", 3)]
  | .bpp => [("BPP_1", 0), ("BPP_2", 1), ("BPP_4", 2)]
  | .direction => [("VERTICAL", 0), ("HORIZONTAL", 1)]
  | .state => [("OFF_STATE", 0), ("ON_STATE", 1)]
  | .qrCodeVersion => [("QRCODE_V4", 0), ("QRCODE_V10", 1)]
  | .radius => [("RADIUS_20_PIXELS", 0), ("RADIUS_28_PIXELS", 1), ("RADIUS_32_PIXELS", 2),
      ("RADIUS_40_PIXELS", 3), ("RADIUS_44_PIXELS", 4), ("RADIUS_1_PIXEL", 0),
      ("RADIUS_3_PIXELS", 1), ("RADIUS_0_PIXELS", 0xFF)]
  | .keyboardMode => [("MODE_LETTERS", 0), ("MODE_DIGITS", 1), ("MODE_SPECIAL", 2),
      ("MODE_NONE", 3)]
  | .objType => [("SCREEN", 0), ("CONTAINER", 1), ("IMAGE", 2), ("LINE", 3), ("TEXT_AREA", 4),
      ("BUTTON", 5), ("SWITCH", 6), ("PAGE_INDICATOR", 7), ("PROGRESS_BAR", 8),
      ("RADIO_BUTTON", 9), ("QR_CODE", 10), ("KEYBOARD", 11), ("KEYPAD", 12), ("SPINNER", 13),
      ("IMAGE_FILE", 14)]
  | .alignment => [("NO_ALIGNMENT", 0), ("TOP_LEFT", 1), ("TOP_MIDDLE", 2), ("TOP_RIGHT", 3),
      ("MID_LEFT", 4), ("CENTER", 5), ("MID_RIGHT", 6), ("BOTTOM_LEFT", 7), ("BOTTOM_MIDDLE", 8),
      ("BOTTOM_RIGHT", 9), ("LEFT_TOP", 10), ("LEFT_BOTTOM", 11), ("RIGHT_TOP", 12),
      ("RIGHT_BOTTOM", 13)]
  | .fontId => [("BAGL_FONT_INTER_REGULAR_24px", 0), ("BAGL_FONT_INTER_SEMIBOLD_24px", 1),
      ("BAGL_FONT_INTER_MEDIUM_32px", 2), ("BAGL_FONT_INTER_REGULAR_24px_1bpp", 3),
      ("BAGL_FONT_INTER_SEMIBOLD_24px_1bpp", 4), ("BAGL_FONT_INTER_MEDIUM_32px_1bpp", 5),
      ("BAGL_FONT_OPEN_SANS_EXTRABOLD_11px_1bpp", 8), ("BAGL_FONT_OPEN_SANS_LIGHT_16px_1bpp", 9),
      ("BAGL_FONT_OPEN_SANS_REGULAR_11px_1bpp", 10), ("BAGL_FONT_INTER_REGULAR_28px", 11),
      ("BAGL_FONT_INTER_SEMIBOLD_28px", 12), ("BAGL_FONT_INTER_MEDIUM_36px", 13),
      ("BAGL_FONT_INTER_REGULAR_28px_1bpp", 14), ("BAGL_FONT_INTER_SEMIBOLD_28px_1bpp", 15),
      ("BAGL_FONT_INTER_MEDIUM_36px_1bpp", 16), ("BAGL_FONT_NANOTEXT_MEDIUM_18px_1bpp", 17),
      ("BAGL_FONT_NANOTEXT_BOLD_18px_1bpp", 18), ("BAGL_FONT_NANODISPLAY_SEMIBOLD_24px_1bpp", 19),
      ("BAGL_FONT_OBFUSCATED_INTER_REGULAR_24px", 20),
      ("BAGL_FONT_OBFUSCATED_INTER_SEMIBOLD_24px", 21),
      ("BAGL_FONT_OBFUSCATED_INTER_MEDIUM_32px", 22),
      ("BAGL_FONT_OBFUSCATED_INTER_REGULAR_24px_1bpp", 23),
      ("BAGL_FONT_OBFUSCATED_INTER_SEMIBOLD_24px_1bpp", 24),
      ("BAGL_FONT_OBFUSCATED_INTER_MEDIUM_32px_1bpp", 25),
      ("BAGL_FONT_OBFUSCATED_OPEN_SANS_EXTRABOLD_11px_1bpp", 26),
      ("BAGL_FONT_OBFUSCATED_OPEN_SANS_LIGHT_16px_1bpp", 27),
      ("BAGL_FONT_OBFUSCATED_OPEN_SANS_REGULAR_11px_1bpp", 28),
      ("BAGL_FONT_OBFUSCATED_INTER_REGULAR_28px", 29),
      ("BAGL_FONT_OBFUSCATED_INTER_SEMIBOLD_28px", 30),
      ("BAGL_FONT_OBFUSCATED_INTER_MEDIUM_36px", 31),
      ("BAGL_FONT_OBFUSCATED_INTER_REGULAR_28px_1bpp", 32),
      ("BAGL_FONT_OBFUSCATED_INTER_SEMIBOLD_28px_1bpp", 33),
      ("BAGL_FONT_OBFUSCATED_INTER_MEDIUM_36px_1bpp", 34),
      ("BAGL_FONT_OBFUSCATED_NANOTEXT_MEDIUM_18px_1bpp", 35),
      ("BAGL_FONT_OBFUSCATED_NANOTEXT_BOLD_18px_1bpp", 36),
      ("BAGL_FONT_OBFUSCATED_NANODISPLAY_SEMIBOLD_24px_1bpp", 37)]
  | .style => [("NO_STYLE", 0), ("INVERTED_COLORS", 1)]
  | .eventType => [("NBGL_DRAW_OBJ", 0), ("NBGL_REFRESH_AREA", 1)]

theorem NbglEnum.nodup_definitions (e : NbglEnum) : (e.definitions.map Prod.fst).Nodup := by
  cases e <;> decide +kernel

def NbglEnum.enumeration (e : NbglEnum) : Enumeration := ⟨e.definitions, e.nodup_definitions⟩

abbrev NbglEnum.Member (e : NbglEnum) := e.enumeration.Member

-- ---------------------------------------------------------------------------
-- Classes
-- ---------------------------------------------------------------------------

/-- The subclasses of `NbglObj`. -/
inductive NbglClass
  | area
  | screen
  | container
  | line
  | radioButton
  | switch
  | progressBar
  | pageIndicator
  | button
  | textArea
  | spinner
  | image
  | imageFile
  | qrCode
  | keyboard
  | keypad
  deriving DecidableEq, Repr

/-- The declared type of a field. -/
inductive FieldType
  | int
  | bool
  | str
  | enum (e : NbglEnum)
  | obj (cls : NbglClass)
  deriving DecidableEq, Repr

def NbglClass.fields : NbglClass → List (String × FieldType)
  | .area => [("width", .int), ("height", .int), ("x0", .int), ("y0", .int),
      ("background_color", .enum .color), ("bpp", .enum .bpp)]
  | .screen => [("area", .obj .area)]
  | .container => [("area", .obj .area), ("layout", .enum .direction), ("nb_children", .int),
      ("force_clean", .bool)]
  | .line => [("area", .obj .area), ("direction", .enum .direction), ("line_color", .enum .color),
      ("thickness", .int), ("offset", .int)]
  | .radioButton => [("area", .obj .area), ("active_color", .enum .color),
      ("border_color", .enum .color), ("state", .enum .state)]
  | .switch => [("area", .obj .area), ("on_color", .enum .color), ("off_color", .enum .color),
      ("state", .enum .state)]
  | .progressBar => [("area", .obj .area), ("with_border", .bool), ("state", .int)]
  | .pageIndicator => [("area", .obj .area), ("active_page", .int), ("nb_pages", .int)]
  | .button => [("area", .obj .area), ("inner_color", .enum .color), ("border_color", .enum .color),
      ("foreground_color", .enum .color), ("radius", .enum .radius), ("font_id", .enum .fontId),
      ("localized", .bool), ("text", .str)]
  | .textArea => [("area", .obj .area), ("text_color", .enum .color),
      ("text_alignment", .enum .alignment), ("style", .enum .style), ("font_id", .enum .fontId),
      ("localized", .bool), ("auto_hide_long_line", .bool), ("len", .int), ("text", .str)]
  | .spinner => [("area", .obj .area), ("position", .int)]
  | .image => [("area", .obj .area), ("width", .int), ("height", .int), ("bpp", .int),
      ("isFile", .int), ("foreground_color", .enum .color)]
  | .imageFile => [("area", .obj .area)]
  | .qrCode => [("area", .obj .area), ("foreground_color", .enum .color),
      ("version", .enum .qrCodeVersion), ("text", .str)]
  | .keyboard => [("area", .obj .area), ("text_color", .enum .color),
      ("border_color", .enum .color), ("letters_only", .bool), ("upper_case", .bool),
      ("mode", .enum .keyboardMode), ("key_mask", .int), ("selected_char_index", .int)]
  | .keypad => [("area", .obj .area), ("text_color", .enum .color), ("border_color", .enum .color),
      ("enable_backspace", .bool), ("enable_validate", .bool), ("enable_digits", .bool),
      ("shuffled", .bool), ("selectedKey", .int)]

def NbglObjType.screen : NbglEnum.objType.Member := ⟨0, by decide⟩
def NbglObjType.container : NbglEnum.objType.Member := ⟨1, by decide⟩
def NbglObjType.image : NbglEnum.objType.Member := ⟨2, by decide⟩
def NbglObjType.line : NbglEnum.objType.Member := ⟨3, by decide⟩
def NbglObjType.textArea : NbglEnum.objType.Member := ⟨4, by decide⟩
def NbglObjType.button : NbglEnum.objType.Member := ⟨5, by decide⟩
def NbglObjType.switch : NbglEnum.objType.Member := ⟨6, by decide⟩
def NbglObjType.pageIndicator : NbglEnum.objType.Member := ⟨7, by decide⟩
def NbglObjType.progressBar : NbglEnum.objType.Member := ⟨8, by decide⟩
def NbglObjType.radioButton : NbglEnum.objType.Member := ⟨9, by decide⟩
def NbglObjType.qrCode : NbglEnum.objType.Member := ⟨10, by decide⟩
def NbglObjType.keyboard : NbglEnum.objType.Member := ⟨11, by decide⟩
def NbglObjType.keypad : NbglEnum.objType.Member := ⟨12, by decide⟩
def NbglObjType.spinner : NbglEnum.objType.Member := ⟨13, by decide⟩
def NbglObjType.imageFile : NbglEnum.objType.Member := ⟨14, by decide⟩

def nbglObjTypes : List (NbglEnum.objType.Member × NbglClass) :=
  [(NbglObjType.screen, .screen),
    (NbglObjType.container, .container),
    (NbglObjType.line, .line),
    (NbglObjType.image, .image),
    (NbglObjType.imageFile, .imageFile),
    (NbglObjType.qrCode, .qrCode),
    (NbglObjType.radioButton, .radioButton),
    (NbglObjType.textArea, .textArea),
    (NbglObjType.button, .button),
    (NbglObjType.switch, .switch),
    (NbglObjType.pageIndicator, .pageIndicator),
    (NbglObjType.progressBar, .progressBar),
    (NbglObjType.keyboard, .keyboard),
    (NbglObjType.keypad, .keypad),
    (NbglObjType.spinner, .spinner)]

def NbglEventType.nbglDrawObj : NbglEnum.eventType.Member := ⟨0, by decide⟩
def NbglEventType.nbglRefreshArea : NbglEnum.eventType.Member := ⟨1, by decide⟩

-- ---------------------------------------------------------------------------
-- Values
-- ---------------------------------------------------------------------------

/-- A JSON-like value. -/
inductive Json
  | int (n : Int)
  | bool (b : Bool)
  | str (s : String)
  | dict (items : List (String × Json))

mutual
/-- The value of an attribute. -/
inductive Value
  | plain (json : Json)
  | enum (e : NbglEnum) (member : e.Member)
  | obj (cls : NbglClass) (dict : Attributes)
/-- `__dict__` -/
inductive Attributes
  | nil
  | cons (name : String) (val : Value) (rest : Attributes)
end

inductive NbglEvent
  | refreshArea (area : Value)
  | drawObject (obj : Value) (id : Json)

inductive PyError
  | keyError
  | typeError
  | recursionError
  deriving DecidableEq, Repr

-- ---------------------------------------------------------------------------
-- Serialisation
-- ---------------------------------------------------------------------------

mutual
/-- What `to_json_dict` keeps of a value. -/
def Value.toJson : Value → Json
  | .obj _ dict => .dict dict.toJsonDict
  | .enum _ member => .str member.name
  | .plain json => json
def Attributes.toJsonDict : Attributes → List (String × Json)
  | .nil => []
  | .cons name val rest => (name, val.toJson) :: rest.toJsonDict
end

def NbglEvent.toJsonDict : NbglEvent → List (String × Json)
  | .refreshArea area => (Attributes.cons "area" area .nil).toJsonDict
  | .drawObject (.obj cls dict) id =>
    match nbglObjTypes.find? fun item => item.2 == cls with
    | some item =>
      [("obj", .dict [("type", .str item.1.name), ("content", .dict dict.toJsonDict)]), ("id", id)]
    | none => [] -- object not serializable
  | .drawObject _ _ => []

def NbglEvent.eventType : NbglEvent → NbglEnum.eventType.Member
  | .refreshArea _ => NbglEventType.nbglRefreshArea
  | .drawObject _ _ => NbglEventType.nbglDrawObj

def serializeNbglJson (data : NbglEvent) : Json :=
  .dict (data.toJsonDict.foldl (fun result item => Dict.setItems item.1 item.2 result)
    [("event", .str data.eventType.name)])

-- ---------------------------------------------------------------------------
-- Deserialisation
-- ---------------------------------------------------------------------------

/-- `data[name]` -/
def Json.getItem (name : String) : Json → Except PyError Json
  | .dict items =>
    match items.lookup name with
    | some json => .ok json
    | none => .error .keyError
  | _ => .error .typeError

/-- `field_type[data]` -/
def NbglEnum.getItem (e : NbglEnum) : Json → Except PyError e.Member
  | .str name =>
    match e.enumeration.ofName? name with
    | some member => .ok member
    | none => .error .keyError
  | .dict _ => .error .typeError -- not hashable
  | _ => .error .keyError

/-- The value of a field, where an object is read by `area`. -/
def FieldType.read (area : Json → Except PyError Value) : FieldType → Json → Except PyError Value
  | .enum e, data => return .enum e (← e.getItem data)
  | .obj _, data => area data
  | _, data => return .plain data

/-- The loop of `from_json_dict`. -/
def readFields (area : Json → Except PyError Value) (data : Json) :
    List (String × FieldType) → Except PyError Attributes
  | [] => return .nil
  | (name, type) :: fields => do
    let val ← type.read area (← data.getItem name)
    return .cons name val (← readFields area data fields)

/-- `NbglArea.from_json_dict`, which has no object to read. -/
def areaFromJsonDict (data : Json) : Except PyError Value :=
  return .obj .area (← readFields (fun _ => .error .recursionError) data NbglClass.area.fields)

/-- `from_json_dict` of a class: all objects in it are read as areas. -/
def NbglClass.fromJsonDict (cls : NbglClass) (data : Json) : Except PyError Value :=
  return .obj cls (← readFields areaFromJsonDict data cls.fields)

def refreshAreaFromJsonDict (data : Json) : Except PyError NbglEvent :=
  return .refreshArea (← areaFromJsonDict (← data.getItem "area"))

def drawObjectFromJsonDict (data : Json) : Except PyError NbglEvent := do
  let objId ← data.getItem "id"
  let objData ← data.getItem "obj"
  let objType ← NbglEnum.objType.getItem (← objData.getItem "type")
  match nbglObjTypes.lookup objType with
  | some cls => return .drawObject (← cls.fromJsonDict (← objData.getItem "content")) objId
  | none => throw .keyError

def deserializeNbglJson (data : Json) : Except PyError NbglEvent := do
  let eventType ← NbglEnum.eventType.getItem (← data.getItem "event")
  if eventType = NbglEventType.nbglDrawObj then drawObjectFromJsonDict data
  else refreshAreaFromJsonDict data

end NbglSerialize

end Speculos.Display
