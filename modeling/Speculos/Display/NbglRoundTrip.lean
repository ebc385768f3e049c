import Speculos.Display.NbglSerialize

/-!
# NBGL events read back from JSON

Reading a field by its declared type gives back the value that was kept of it:
the name of a member is that of no other one, an object field is declared as an
area in every class, and the class table has each class once and each type once.
-/

namespace Speculos.Display

open Lib

namespace NbglSerialize

-- ---------------------------------------------------------------------------
-- Types
-- ---------------------------------------------------------------------------

/-- A value of a declared type that is no class. Integers stand for truth values
too, as they are unpacked in some classes. -/
def FieldType.HasPlain : FieldType → Value → Prop
  | .int, .plain (.int _) => True
  | .int, .plain (.bool _) => True
  | .bool, .plain (.bool _) => True
  | .bool, .plain (.int _) => True
  | .str, .plain (.str _) => True
  | .enum e, .enum e' _ => e' = e
  | _, _ => False

/-- The attributes are those of the fields, in their order, with values of their types. -/
inductive Typed (Has : FieldType → Value → Prop) : List (String × FieldType) → Attributes → Prop
  | nil : Typed Has [] .nil
  | cons : Has type val → Typed Has fields rest →
    Typed Has ((name, type) :: fields) (.cons name val rest)

/-- An instance of a class whose fields have values of the given kind. -/
def NbglClass.HasInstance (Has : FieldType → Value → Prop) (cls : NbglClass) (v : Value) : Prop :=
  ∃ dict, v = .obj cls dict ∧ Typed Has cls.fields dict

/-- A value of a declared type; the fields of an object in a field are plain. -/
def FieldType.Has : FieldType → Value → Prop
  | .obj cls, v => cls.HasInstance FieldType.HasPlain v
  | type, v => type.HasPlain v

/-- An event with values of the declared types, of which the object is of one of the classes
that can be drawn. -/
def NbglEvent.WellTyped : NbglEvent → Prop
  | .refreshArea area => FieldType.Has (.obj .area) area
  | .drawObject obj id =>
    (∃ cls : NbglClass, cls ≠ .area ∧ cls.HasInstance FieldType.Has obj) ∧
    FieldType.int.HasPlain (.plain id)

-- ---------------------------------------------------------------------------
-- Fields
-- ---------------------------------------------------------------------------

theorem getItem_name (e : NbglEnum) (member : e.Member) :
    e.getItem (.str member.name) = .ok member := by
  rw [NbglEnum.getItem, Enumeration.ofName?_name]

theorem read_toJson_of_hasPlain {type : FieldType} (area : Json → Except PyError Value)
    (h : type.HasPlain val) :
    type.read area val.toJson = .ok val := by
  cases type with
  | enum e =>
    cases val with
    | enum e' member =>
      obtain rfl : e' = e := h
      rw [Value.toJson, FieldType.read, getItem_name]
      rfl
    | _ => exact absurd h id
  | obj cls => exact absurd h id
  | _ =>
    cases val with
    | plain json => rfl
    | _ => exact absurd h id

theorem Typed.keys (h : Typed Has fields dict) :
    dict.toJsonDict.map Prod.fst = fields.map Prod.fst := by
  induction h with
  | nil => rfl
  | cons hval _ ih => rw [Attributes.toJsonDict, List.map_cons, List.map_cons, ih]

theorem Typed.readFields_of_items (h : Typed Has fields dict)
    (hread : ∀ field ∈ fields, ∀ val, Has field.2 val → field.2.read area val.toJson = .ok val)
    (hitems : ∀ item ∈ dict.toJsonDict, items.lookup item.1 = some item.2) :
    readFields area (.dict items) fields = .ok dict := by
  induction h with
  | nil => rfl
  | @cons type val fields rest name hval _ ih =>
    have hitem : Json.getItem name (.dict items) = .ok val.toJson := by
      have hlookup : items.lookup name = some val.toJson := hitems (name, val.toJson) (by
        rw [Attributes.toJsonDict]
        exact List.mem_cons_self)
      rw [Json.getItem, hlookup]
    have hfirst := hread (name, type) List.mem_cons_self val hval
    have hrest := ih (fun field hfield => hread field (List.mem_cons_of_mem _ hfield))
      fun item hitem => hitems item (by
        rw [Attributes.toJsonDict]
        exact List.mem_cons_of_mem _ hitem)
    simp only [readFields, hitem, hfirst, hrest, bind, Except.bind]
    rfl

theorem nodup_fields (cls : NbglClass) : (cls.fields.map Prod.fst).Nodup := by
  cases cls <;> decide

theorem Typed.readFields_toJsonDict {cls : NbglClass} (h : Typed Has cls.fields dict)
    (area : Json → Except PyError Value)
    (hread : ∀ field ∈ cls.fields, ∀ val, Has field.2 val →
      field.2.read area val.toJson = .ok val) :
    readFields area (.dict dict.toJsonDict) cls.fields = .ok dict := by
  refine h.readFields_of_items hread fun item hitem => ?_
  rw [Dict.lookup_eq_some_iff _ (h.keys ▸ nodup_fields cls)]
  exact hitem

-- ---------------------------------------------------------------------------
-- Objects
-- ---------------------------------------------------------------------------

theorem areaFromJsonDict_toJson (h : NbglClass.area.HasInstance FieldType.HasPlain v) :
    areaFromJsonDict v.toJson = .ok v := by
  obtain ⟨dict, rfl, htyped⟩ := h
  have hfields := htyped.readFields_toJsonDict (fun _ => .error .recursionError)
    fun field _ val hval => read_toJson_of_hasPlain _ hval
  rw [Value.toJson, areaFromJsonDict, hfields]
  rfl

theorem eq_area_of_mem_fields (cls : NbglClass) (h : (name, FieldType.obj cls') ∈ cls.fields) :
    cls' = .area := by
  cases cls <;> simp [NbglClass.fields] at h <;> exact h.2

theorem read_toJson_of_has (cls : NbglClass) (hfield : field ∈ cls.fields)
    (h : FieldType.Has field.2 val) : field.2.read areaFromJsonDict val.toJson = .ok val := by
  obtain ⟨name, type⟩ := field
  cases type with
  | obj cls' =>
    obtain rfl := eq_area_of_mem_fields cls hfield
    exact areaFromJsonDict_toJson h
  | _ => exact read_toJson_of_hasPlain _ h

theorem fromJsonDict_toJson {cls : NbglClass} (h : cls.HasInstance FieldType.Has v) :
    cls.fromJsonDict v.toJson = .ok v := by
  obtain ⟨dict, rfl, htyped⟩ := h
  have hfields := htyped.readFields_toJsonDict areaFromJsonDict
    fun field hfield val => read_toJson_of_has cls hfield
  rw [Value.toJson, NbglClass.fromJsonDict, hfields]
  rfl

/-- A class that can be drawn has a type, which stands for it alone. -/
theorem exists_objType (cls : NbglClass) (h : cls ≠ .area) :
    ∃ objType, nbglObjTypes.find? (fun item => item.2 == cls) = some (objType, cls) ∧
      nbglObjTypes.lookup objType = some cls := by
  cases cls with
  | area => exact absurd rfl h
  | screen => exact ⟨NbglObjType.screen, rfl, rfl⟩
  | container => exact ⟨NbglObjType.container, rfl, rfl⟩
  | line => exact ⟨NbglObjType.line, rfl, rfl⟩
  | radioButton => exact ⟨NbglObjType.radioButton, rfl, rfl⟩
  | switch => exact ⟨NbglObjType.switch, rfl, rfl⟩
  | progressBar => exact ⟨NbglObjType.progressBar, rfl, rfl⟩
  | pageIndicator => exact ⟨NbglObjType.pageIndicator, rfl, rfl⟩
  | button => exact ⟨NbglObjType.button, rfl, rfl⟩
  | textArea => exact ⟨NbglObjType.textArea, rfl, rfl⟩
  | spinner => exact ⟨NbglObjType.spinner, rfl, rfl⟩
  | image => exact ⟨NbglObjType.image, rfl, rfl⟩
  | imageFile => exact ⟨NbglObjType.imageFile, rfl, rfl⟩
  | qrCode => exact ⟨NbglObjType.qrCode, rfl, rfl⟩
  | keyboard => exact ⟨NbglObjType.keyboard, rfl, rfl⟩
  | keypad => exact ⟨NbglObjType.keypad, rfl, rfl⟩

-- ---------------------------------------------------------------------------
-- Events
-- ---------------------------------------------------------------------------

theorem deserialize_refreshArea (h : FieldType.Has (.obj .area) area) :
    deserializeNbglJson (serializeNbglJson (.refreshArea area)) = .ok (.refreshArea area) := by
  have htype : NbglEnum.eventType.getItem (.str NbglEventType.nbglRefreshArea.name) =
      .ok NbglEventType.nbglRefreshArea := getItem_name _ _
  have hserialize : serializeNbglJson (.refreshArea area) =
      .dict [("event", .str NbglEventType.nbglRefreshArea.name), ("area", area.toJson)] := rfl
  have hne : ¬ NbglEventType.nbglRefreshArea = NbglEventType.nbglDrawObj := by decide
  have hevent : Json.getItem "event"
      (.dict [("event", .str NbglEventType.nbglRefreshArea.name), ("area", area.toJson)]) =
        .ok (.str NbglEventType.nbglRefreshArea.name) := rfl
  have hitem : Json.getItem "area"
      (.dict [("event", .str NbglEventType.nbglRefreshArea.name), ("area", area.toJson)]) =
        .ok area.toJson := rfl
  simp only [hserialize, deserializeNbglJson, hevent, htype, bind, Except.bind, if_neg hne,
    refreshAreaFromJsonDict, hitem, areaFromJsonDict_toJson h]
  rfl

theorem deserialize_drawObject {cls : NbglClass} (hcls : cls ≠ .area)
    (h : cls.HasInstance FieldType.Has obj) (id : Json) :
    deserializeNbglJson (serializeNbglJson (.drawObject obj id)) = .ok (.drawObject obj id) := by
  obtain ⟨objType, hfind, hlookup⟩ := exists_objType cls hcls
  obtain ⟨dict, rfl, htyped⟩ := h
  have hevent : NbglEnum.eventType.getItem (.str NbglEventType.nbglDrawObj.name) =
      .ok NbglEventType.nbglDrawObj := getItem_name _ _
  have htype : NbglEnum.objType.getItem (.str objType.name) = .ok objType := getItem_name _ _
  have hobj : cls.fromJsonDict (.dict dict.toJsonDict) = .ok (.obj cls dict) :=
    fromJsonDict_toJson ⟨dict, rfl, htyped⟩
  have hserialize : serializeNbglJson (.drawObject (.obj cls dict) id) =
      .dict [("event", .str NbglEventType.nbglDrawObj.name),
        ("obj", .dict [("type", .str objType.name), ("content", .dict dict.toJsonDict)]),
        ("id", id)] := by
    simp only [serializeNbglJson, NbglEvent.toJsonDict, hfind]
    rfl
  simp [hserialize, deserializeNbglJson, drawObjectFromJsonDict, Json.getItem, List.lookup_cons,
    hevent, htype, hlookup, hobj, bind, Except.bind]
  rfl

/-- Every event with values of the declared types is read back. -/
theorem deserialize_serialize (e : NbglEvent) (h : e.WellTyped) :
    deserializeNbglJson (serializeNbglJson e) = .ok e := by
  cases e with
  | refreshArea area => exact deserialize_refreshArea h
  | drawObject obj id =>
    obtain ⟨⟨cls, hcls, hobj⟩, -⟩ := h
    exact deserialize_drawObject hcls hobj id

/-- The second position of a spinner. -/
theorem deserialize_serialize_spinner :
    let area : Value :=
      .obj .area (.cons "width" (.plain (.int 48)) (.cons "height" (.plain (.int 48))
      (.cons "x0" (.plain (.int 176)) (.cons "y0" (.plain (.int 312))
        (.cons "background_color" (.enum .color ⟨3, by decide⟩)
          (.cons "bpp" (.enum .bpp ⟨0, by decide⟩) .nil))))))
    let event : NbglEvent := .drawObject
      (.obj .spinner (.cons "area" area (.cons "position" (.plain (.int 1)) .nil))) (.int 5)
    deserializeNbglJson (serializeNbglJson event) = .ok event :=
  deserialize_serialize _ ⟨⟨.spinner, by decide, _, rfl,
    .cons ⟨_, rfl, .cons trivial (.cons trivial (.cons trivial (.cons trivial
      (.cons rfl (.cons rfl .nil)))))⟩ (.cons trivial .nil)⟩, trivial⟩

end NbglSerialize

end Speculos.Display
