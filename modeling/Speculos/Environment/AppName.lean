import Speculos.Lib.CString

/-!
# The name and the version of the application

The environment gives both in one string. They are copied into fields of 128 bytes, and from
there to the application, each time with a terminator.
-/

namespace Speculos.Environment

open Lib

-- ---------------------------------------------------------------------------
-- The code
-- ---------------------------------------------------------------------------

def maxStringSize : Nat := 128

structure EnvSizedName where
  length : Nat
  name : Region

/-- `app_name` and `app_version` -/
structure AppNames where
  appName : EnvSizedName
  appVersion : EnvSizedName

/-- `{ 3, "app\0" }` and `{ 6, "1.33.7\0" }` -/
def AppNames.initial : AppNames where
  appName := ⟨3, fun i => [0x61, 0x70, 0x70].getD i 0, []⟩
  appVersion := ⟨6, fun i => [0x31, 0x2e, 0x33, 0x33, 0x2e, 0x37].getD i 0, []⟩

/-- What follows the check of the format, where the colon stands at `charPtr`: the fields, and the
string of the environment. -/
def splitNameVersion (str : CString) (charPtr : Nat) (s : AppNames) : AppNames × Region :=
  let nameLength := charPtr
  let versionLength := str.strlen - (nameLength + 1)
  let env := str.region.store nameLength 0
  -- + 1 to include trailing '\0'
  let name := s.appName.name.strncpy 0 env 0 (nameLength + 1)
  let version := s.appVersion.name.strncpy 0 env (nameLength + 1) (versionLength + 1)
  (⟨⟨nameLength, name⟩, ⟨versionLength, version⟩⟩, env)

/-- `env_init_app_name_version`, where `getenv` returns `named` for `SPECULOS_APPNAME` and
`detected` for `SPECULOS_DETECTED_APPNAME`. -/
def envInitAppNameVersion (named detected : Option CString) (s : AppNames) :
    AppNames × Option Region :=
  match named.or detected with
  | none => (s, none)
  | some str =>
    match str.strchr 0x3a with
    | none => (s, some str.region)
    | some charPtr =>
      let (s, env) := splitNameVersion str charPtr s
      (s, some env)

/-- The field of a tag, `BOLOS_TAG_APPNAME` or `BOLOS_TAG_APPVERSION`. -/
def AppNames.field (s : AppNames) (tag : UInt32) : Option EnvSizedName :=
  if tag = 0x01 then some s.appName else if tag = 0x02 then some s.appVersion else none

/-- `env_get_app_tag`, which is `sys_os_registry_get_current_app_tag`. -/
def envGetAppTag (dst : Region) (length : Nat) (tag : UInt32) (s : AppNames) : Nat × Region :=
  match s.field tag with
  | none => (0, dst)
  | some field =>
    if length < field.length then (0, dst)
    else (field.length, (dst.strncpy 0 field.name 0 length).store field.length 0)

-- ---------------------------------------------------------------------------
-- The fields
-- ---------------------------------------------------------------------------

/-- The string `name:version`. -/
def joined (name version : CString) : CString where
  chars := name.chars ++ 0x3a :: version.chars
  noNul := by simp [name.noNul, version.noNul]

/-- A field that holds a string and its terminator. -/
structure EnvSizedName.Holds (field : EnvSizedName) (chars : Bytes) : Prop where
  length : field.length = chars.length
  name : ∀ i ≤ chars.length, field.name.cell i = chars.getD i 0

theorem strchr_joined (h : 0x3a ∉ name.chars) :
    (joined name version).strchr 0x3a = some name.strlen := by
  rw [CString.strchr, joined, List.findIdx?_append]
  have hnone : name.chars.findIdx? (· = 0x3a) = none := by
    rw [List.findIdx?_eq_none_iff]
    intro c hc
    exact decide_eq_false fun heq => h (heq ▸ hc)
  rw [hnone]
  simp [CString.strlen, List.findIdx?_cons]

theorem strncpy_string {src : Region} {chars : Bytes} (hnul : 0 ∉ chars)
    (h : ∀ i ≤ chars.length, src.cell (off + i) = chars.getD i 0) (r : Region)
    (hn : chars.length ≤ n) :
    r.strncpy 0 src off n = r.memcpy 0 chars n := by
  rw [Region.strncpy, Region.string_eq_take hnul fun i _ hi => h i hi, List.take_of_length_le hn]

theorem getD_joined_version (name version : CString) (i : Nat) :
    (joined name version).chars.getD (name.strlen + 1 + i) 0 = version.chars.getD i 0 := by
  rw [joined, List.getD_append_right _ _ _ _ (by rw [CString.strlen]; omega), CString.strlen,
    Nat.add_assoc, Nat.add_sub_cancel_left, Nat.add_comm 1 i, List.getD_cons_succ]

theorem splitNameVersion_joined (name version : CString) (s : AppNames) :
    splitNameVersion (joined name version) name.strlen s =
      (⟨⟨name.strlen, s.appName.name.memcpy 0 name.chars (name.strlen + 1)⟩,
        ⟨version.strlen, s.appVersion.name.memcpy 0 version.chars (version.strlen + 1)⟩⟩,
        (joined name version).region.store name.strlen 0) := by
  have hversion : (joined name version).strlen - (name.strlen + 1) = version.strlen := by
    simp only [CString.strlen, joined, List.length_append, List.length_cons]
    omega
  have hfirst (i : Nat) (hi : i ≤ name.chars.length) :
      ((joined name version).region.store name.strlen 0).cell (0 + i) = name.chars.getD i 0 := by
    rw [Nat.zero_add, Region.cell_store]
    split
    · rename_i heq
      rw [List.getD_eq_default _ _ (Nat.le_of_eq heq.symm)]
    · rename_i hne
      have hlt : i < name.chars.length := Nat.lt_of_le_of_ne hi hne
      exact List.getD_append _ _ _ _ hlt
  have hsecond (i : Nat) (_ : i ≤ version.chars.length) :
      ((joined name version).region.store name.strlen 0).cell (name.strlen + 1 + i) =
        version.chars.getD i 0 := by
    rw [Region.cell_store, if_neg (by omega), ← getD_joined_version name version i]
    rfl
  have hname : name.chars.length ≤ name.strlen + 1 := Nat.le_succ _
  have hle : version.chars.length ≤ version.strlen + 1 := Nat.le_succ _
  rw [splitNameVersion, hversion, strncpy_string name.noNul hfirst _ hname,
    strncpy_string version.noNul hsecond _ hle]

theorem holds_memcpy (r : Region) (s : CString) :
    (EnvSizedName.mk s.strlen (r.memcpy 0 s.chars (s.strlen + 1))).Holds s.chars where
  length := rfl
  name i hi := by
    have hin : 0 ≤ i ∧ i < 0 + (s.strlen + 1) := by
      rw [CString.strlen]
      omega
    rw [Region.cell_memcpy, if_pos hin, Nat.sub_zero]

-- ---------------------------------------------------------------------------
-- The copy to the application
-- ---------------------------------------------------------------------------

/-- What the application gets of a field: all of it where it fits, and no byte behind the
buffer. -/
def TagReturned (chars : Bytes) (length : Nat) (got : Nat × Region) : Prop :=
  got.2.InBounds length ∧
    if chars.length ≤ length then got.1 = chars.length ∧ got.2.string 0 length = chars
    else got.1 = 0

/-- The buffer that fits the field exactly has no place for the terminator. -/
theorem tagReturned_iff (hfield : s.field tag = some field) (h : field.Holds chars)
    (hnul : 0 ∉ chars) (cell : Nat → UInt8) (length : Nat) :
    TagReturned chars length (envGetAppTag ⟨cell, []⟩ length tag s) ↔ length ≠ chars.length := by
  have hempty : (Region.mk cell []).InBounds length := fun i hi => nomatch hi
  rw [envGetAppTag, hfield]
  dsimp only
  rw [h.length]
  split
  · rename_i hlt
    rw [TagReturned, if_neg (Nat.not_le.mpr hlt)]
    exact iff_of_true ⟨hempty, rfl⟩ (Nat.ne_of_lt hlt)
  · rename_i hge
    have hle : chars.length ≤ length := Nat.not_lt.mp hge
    have hcopy : (Region.mk cell []).strncpy 0 field.name 0 length =
        (Region.mk cell []).memcpy 0 chars length := by
      have hname (i : Nat) (hi : i ≤ chars.length) : field.name.cell (0 + i) = chars.getD i 0 := by
        rw [Nat.zero_add]
        exact h.name i hi
      exact strncpy_string hnul hname _ hle
    rw [hcopy, TagReturned, if_pos hle, Region.inBounds_store, Region.inBounds_memcpy]
    constructor
    · rintro ⟨⟨hlt, -⟩, -⟩
      exact Nat.ne_of_gt hlt
    · intro hne
      have hlt : chars.length < length := Nat.lt_of_le_of_ne hle hne.symm
      refine ⟨⟨hlt, .inr (Nat.le_of_eq (Nat.zero_add _)), hempty⟩, rfl, ?_⟩
      rw [Region.string_eq_take hnul, List.take_of_length_le hle]
      intro i hi hlei
      rw [Nat.zero_add, Region.cell_store]
      split
      · rename_i heq
        rw [List.getD_eq_default _ _ (Nat.le_of_eq heq.symm)]
      · have hin : 0 ≤ i ∧ i < 0 + length := by omega
        rw [Region.cell_memcpy, if_pos hin, Nat.sub_zero]

-- ---------------------------------------------------------------------------
-- Bounds
-- ---------------------------------------------------------------------------

def requested (name version : CString) (tag : UInt32) : Option Bytes :=
  if tag = 0x01 then some name.chars else if tag = 0x02 then some version.chars else none

/-- What the application gets: the field that it asks for, or nothing. -/
def RequestReturned (asked : Option Bytes) (length : Nat) (got : Nat × Region) : Prop :=
  match asked with
  | none => got.1 = 0 ∧ got.2.written = []
  | some chars => TagReturned chars length got

/-- The writes of both calls stay inside, and the application gets what it asks for. -/
structure NamesStored (name version : CString) (init : AppNames × Option Region)
    (cell : Nat → UInt8) (length : Nat) (tag : UInt32) : Prop where
  nameInside : init.1.appName.name.InBounds maxStringSize
  versionInside : init.1.appVersion.name.InBounds maxStringSize
  environmentInside : ∀ env ∈ init.2, env.InBounds (joined name version).strlen
  returned : RequestReturned (requested name version tag) length
    (envGetAppTag ⟨cell, []⟩ length tag init.1)

theorem envInitAppNameVersion_joined (hname : 0x3a ∉ name.chars)
    (h : named.or detected = some (joined name version)) :
    envInitAppNameVersion named detected s =
      (⟨⟨name.strlen, s.appName.name.memcpy 0 name.chars (name.strlen + 1)⟩,
        ⟨version.strlen, s.appVersion.name.memcpy 0 version.chars (version.strlen + 1)⟩⟩,
        some ((joined name version).region.store name.strlen 0)) := by
  rw [envInitAppNameVersion, h]
  dsimp only
  rw [strchr_joined hname]
  dsimp only
  rw [splitNameVersion_joined]

/-- A string that is copied with its terminator stays inside where it is shorter than the field. -/
theorem inBounds_memcpy_string {r : Region} (hr : r.written = []) (s : CString) :
    (r.memcpy 0 s.chars (s.strlen + 1)).InBounds maxStringSize ↔ s.strlen < maxStringSize := by
  have hempty : r.InBounds maxStringSize := fun i hi => by simp [hr] at hi
  rw [Region.inBounds_memcpy, Nat.zero_add]
  simp only [Nat.succ_ne_zero, false_or, hempty, and_true]
  exact Nat.succ_le_iff

theorem requestReturned_iff (name version : CString) (hname : s.appName.Holds name.chars)
    (hversion : s.appVersion.Holds version.chars) (cell : Nat → UInt8) (length : Nat)
    (tag : UInt32) :
    RequestReturned (requested name version tag) length (envGetAppTag ⟨cell, []⟩ length tag s) ↔
      ∀ chars ∈ requested name version tag, length ≠ chars.length := by
  unfold requested
  split
  · rename_i htag
    have hfield : s.field tag = some s.appName := if_pos htag
    simp only [Option.mem_def, Option.some.injEq, forall_eq']
    exact tagReturned_iff hfield hname name.noNul cell length
  · rename_i hfirst
    split
    · rename_i htag
      have hfield : s.field tag = some s.appVersion := by
        rw [AppNames.field, if_neg hfirst, if_pos htag]
      simp only [Option.mem_def, Option.some.injEq, forall_eq']
      exact tagReturned_iff hfield hversion version.noNul cell length
    · rename_i hsecond
      have hfield : s.field tag = none := by rw [AppNames.field, if_neg hfirst, if_neg hsecond]
      rw [envGetAppTag, hfield]
      exact iff_of_true ⟨rfl, rfl⟩ fun _ h => nomatch h

/-- Name and version are stored and returned inside exactly where both are shorter than the
fields, and where the buffer has not exactly the length of the field that is asked for. -/
theorem namesStored_iff (hname : 0x3a ∉ name.chars)
    (h : named.or detected = some (joined name version)) (cell : Nat → UInt8) (length : Nat)
    (tag : UInt32) :
    NamesStored name version (envInitAppNameVersion named detected .initial) cell length tag ↔
      name.strlen < maxStringSize ∧ version.strlen < maxStringSize ∧
        ∀ chars ∈ requested name version tag, length ≠ chars.length := by
  rw [envInitAppNameVersion_joined hname h]
  constructor
  · intro hstored
    refine ⟨(inBounds_memcpy_string rfl name).mp hstored.nameInside,
      (inBounds_memcpy_string rfl version).mp hstored.versionInside, ?_⟩
    exact (requestReturned_iff name version (holds_memcpy _ name) (holds_memcpy _ version) cell
      length tag).mp hstored.returned
  · rintro ⟨hlt, hlt', hlength⟩
    refine ⟨(inBounds_memcpy_string rfl name).mpr hlt,
      (inBounds_memcpy_string rfl version).mpr hlt', ?_, ?_⟩
    · rintro env ⟨⟩
      rw [Region.inBounds_store]
      refine ⟨?_, fun i hi => nomatch hi⟩
      simp only [CString.strlen, joined, List.length_append, List.length_cons]
      omega
    · exact (requestReturned_iff name version (holds_memcpy _ name) (holds_memcpy _ version) cell
        length tag).mpr hlength

/-- The name `a` and the version `1`. -/
def shortName : CString := ⟨[0x61], by decide⟩

def shortVersion : CString := ⟨[0x31], by decide⟩

theorem namesStored_short :
    NamesStored shortName shortVersion
      (envInitAppNameVersion none (some (joined shortName shortVersion)) .initial)
      (fun _ => 0) 2 1 :=
  (namesStored_iff (by decide) rfl (fun _ => 0) 2 1).mpr (by decide)

/-- In a buffer of one byte, the terminator of the name `a` is written behind it. -/
theorem not_namesStored_exact :
    ¬ NamesStored shortName shortVersion
      (envInitAppNameVersion (some (joined shortName shortVersion)) none .initial)
      (fun _ => 0) 1 1 := by
  intro h
  have hinside : ((Region.mk (fun _ => 0) []).strncpy 0 (envInitAppNameVersion
      (some (joined shortName shortVersion)) none .initial).1.appName.name 0 1).store 1 0
        |>.InBounds 1 :=
    h.returned.1
  exact absurd ((Region.inBounds_store _ _ _ _).mp hinside).1 (by decide)

end Speculos.Environment
