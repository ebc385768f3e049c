import Speculos.Launcher.InstallParams

/-!
# What the launcher writes for an argument

The conversion of the derivation path stays inside its array as long as no pair is
converted behind the first 512 digits, and the name of the NVRAM file stays inside its
array as long as the name of the application has at most 29 bytes: for a longer name
the length that is left wraps around and does not limit the suffix.
-/

namespace Speculos.Launcher

open Lib

-- ---------------------------------------------------------------------------
-- Bounds
-- ---------------------------------------------------------------------------

def CString.InBounds (s : CString) (size : Nat) : Prop := ∀ i ∈ s.written, i < size

/-- The arrays of an application that is opened are written inside their bounds. -/
def Opened.InBounds (opened : Opened) : Prop :=
  opened.nvramFileName.InBounds storageAppNameLen ∧
    opened.derivationPath.InBounds derivationPathMaxLen

/-- Both `parse_app_infos` and `open_app` write inside the arrays. -/
def WritesInBounds (files : Files) (apps : List Opened) (infos : AppInfos) : Prop :=
  infos.derivationPath.InBounds derivationPathMaxLen ∧
    ∀ opened, openApp files apps infos = some opened → opened.InBounds

theorem convertPath_cons (c : UInt8) (s : Bytes) (k : Nat) (r : Region) :
    convertPath (c :: s) k r =
      convertPath (s.drop 1) (k + 1)
        (match scanPair (c :: s) with | some b => r.store k b | none => r) := by
  cases s with
  | nil =>
    show (match scanPair [c] with | some b => r.store k b | none => r) = _
    cases scanPair [c] <;> rfl
  | cons c' s =>
    show (match scanPair (c :: c' :: s) with
      | some b => convertPath s (k + 1) (r.store k b)
      | none => convertPath s (k + 1) r) = _
    cases scanPair (c :: c' :: s) <;> rfl

theorem mem_written_convertPath (path : Bytes) (k i : Nat) (r : Region) :
    i ∈ (convertPath path k r).written ↔ i ∈ r.written ∨
      ∃ j, i = k + j ∧ 2 * j < path.length ∧ (scanPair (path.drop (2 * j))).isSome := by
  induction hlen : path.length using Nat.strong_induction_on generalizing path k r with
  | _ len ih =>
  subst hlen
  cases path with
  | nil =>
    show i ∈ r.written ↔ _
    simp
  | cons c s =>
    have hrec := ih _ (by rw [List.length_drop, List.length_cons]; omega) (s.drop 1) (k + 1)
      (match scanPair (c :: s) with | some b => r.store k b | none => r) rfl
    have hstore : i ∈ (match scanPair (c :: s) with
        | some b => r.store k b
        | none => r).written ↔ i ∈ r.written ∨ i = k ∧ (scanPair (c :: s)).isSome := by
      cases scanPair (c :: s) with
      | none => simp
      | some b => simp [or_comm]
    rw [convertPath_cons, hrec, hstore, or_assoc]
    refine or_congr_right ⟨?_, ?_⟩
    · rintro (⟨rfl, hpair⟩ | ⟨j, rfl, hj, hpair⟩)
      · exact ⟨0, rfl, by simp, hpair⟩
      · refine ⟨j + 1, by omega, ?_, ?_⟩
        · rw [List.length_drop] at hj
          rw [List.length_cons]
          omega
        · rwa [List.drop_drop, Nat.add_comm] at hpair
    · rintro ⟨j, rfl, hj, hpair⟩
      cases j with
      | zero => exact .inl ⟨rfl, hpair⟩
      | succ j =>
        refine .inr ⟨j, by omega, ?_, ?_⟩
        · rw [List.length_cons] at hj
          rw [List.length_drop]
          omega
        · rwa [List.drop_drop, Nat.add_comm]

/-- The pairs that are written over the end of the array. -/
def PairBeyond (path : Bytes) : Prop :=
  ∃ k ≥ derivationPathMaxLen, 2 * k < path.length ∧ (scanPair (path.drop (2 * k))).isSome

theorem inBounds_convertPath_iff (path : Bytes) (r : Region) :
    (convertPath path 0 r).InBounds derivationPathMaxLen ↔
      r.InBounds derivationPathMaxLen ∧ ¬ PairBeyond path := by
  constructor
  · intro h
    refine ⟨fun i hi => h i ((mem_written_convertPath ..).mpr (.inl hi)), ?_⟩
    rintro ⟨k, hk, hlen, hpair⟩
    exact Nat.not_lt.mpr hk
      (h k ((mem_written_convertPath ..).mpr (.inr ⟨k, (Nat.zero_add k).symm, hlen, hpair⟩)))
  · rintro ⟨hr, hbeyond⟩ i hi
    rcases (mem_written_convertPath ..).mp hi with hi | ⟨k, rfl, hlen, hpair⟩
    · exact hr i hi
    · rw [Nat.zero_add]
      exact Nat.lt_of_not_le fun hk => hbeyond ⟨k, hk, hlen, hpair⟩

theorem not_pairBeyond_of_length (h : path.length ≤ 2 * derivationPathMaxLen) :
    ¬ PairBeyond path := by
  rintro ⟨k, hk, hlen, -⟩
  omega

theorem zeroed_inBounds : Region.zeroed.InBounds size := fun _ h => nomatch h

theorem mem_written_strncat (s : CString) (src : Bytes) (n i : Nat) :
    i ∈ (s.strncat src n).written ↔
      s.content.length ≤ i ∧ i ≤ s.content.length + min n src.length ∨ i ∈ s.written := by
  simp only [CString.strncat, List.mem_append, List.mem_map, List.mem_range, List.length_take]
  refine or_congr_left ⟨?_, ?_⟩
  · rintro ⟨j, hj, rfl⟩
    omega
  · rintro ⟨hlo, hhi⟩
    exact ⟨i - s.content.length, by omega, by omega⟩

/-- A name of 30 bytes or more leaves a length that does not limit the suffix. -/
theorem inBounds_nvramFileName_iff (h : name.length < 2 ^ 32) :
    (nvramFileName name).InBounds storageAppNameLen ↔ name.length < storageAppNameLen := by
  have hlen : (UInt32.ofNat (storageAppNameLen - 1)).toNat = 29 := rfl
  have hname : (UInt32.ofNat name.length).toNat = name.length := UInt32.toNat_ofNat_of_lt' h
  have hleft : (UInt32.ofNat (storageAppNameLen - 1) - UInt32.ofNat name.length).toNat =
      (2 ^ 32 - name.length + 29) % 2 ^ 32 := by
    rw [UInt32.toNat_sub, hname]
    rfl
  have hwritten (i : Nat) : i ∈ (nvramFileName name).written ↔
      min 29 name.length ≤ i ∧
          i ≤ min 29 name.length + min ((2 ^ 32 - name.length + 29) % 2 ^ 32) nvramBin.length ∨
        i ≤ min 29 name.length := by
    rw [nvramFileName, mem_written_strncat, mem_written_strncat, hleft, hlen]
    simp [CString.strncat]
  have hbin : nvramBin.length = 10 := rfl
  have hsize : storageAppNameLen = 30 := rfl
  rw [hsize]
  constructor
  · intro hin
    refine Nat.lt_of_not_le fun hle => ?_
    have hlast := hin 39 ((hwritten 39).mpr (.inl (by omega)))
    exact absurd hlast (by decide)
  · intro hlt i hi
    have hi := (hwritten i).mp hi
    omega

section

variable {files : Files} {array : Region} {apps : List Opened} {arg : Bytes} {infos : AppInfos}
  {opened : Opened}

theorem parseAppInfos_cases (h : parseAppInfos array arg = some infos) :
    scanFields arg = some infos.fields ∧
      infos.derivationPathLen = infos.fields.derivationPath.length / 2 ∧
      (1 < infos.fields.derivationPath.length ∧
          infos.derivationPath = convertPath infos.fields.derivationPath 0 array ∨
        infos.fields.derivationPath.length ≤ 1 ∧ infos.derivationPath = array) := by
  obtain ⟨fields, hfields, rfl⟩ := Option.map_eq_some_iff.mp h
  by_cases hlen : fields.derivationPath.length > 1
  · rw [if_pos hlen]
    exact ⟨hfields, rfl, .inl ⟨hlen, rfl⟩⟩
  · rw [if_neg hlen]
    refine ⟨hfields, ?_, .inr ⟨Nat.not_lt.mp hlen, rfl⟩⟩
    show 0 = fields.derivationPath.length / 2
    omega

theorem inBounds_derivationPath_iff (h : parseAppInfos array arg = some infos) :
    infos.derivationPath.InBounds derivationPathMaxLen ↔
      array.InBounds derivationPathMaxLen ∧ ¬ PairBeyond infos.fields.derivationPath := by
  obtain ⟨-, -, ⟨-, hpath⟩ | ⟨hlen, hpath⟩⟩ := parseAppInfos_cases h
  · rw [hpath, inBounds_convertPath_iff]
  · rw [hpath, and_iff_left (not_pairBeyond_of_length (Nat.le_trans hlen (by decide)))]

theorem openApp_cases (h : openApp files apps infos = some opened) :
    opened.nvramFileName = nvramFileName infos.fields.libname ∧
      opened.derivationPathLen = infos.derivationPathLen ∧
      opened.derivationPath = Region.zeroed.memcpy 0
        (infos.derivationPath.slice 0 infos.derivationPathLen) infos.derivationPathLen := by
  simp only [openApp] at h
  split at h
  · cases h
  · obtain ⟨file, -, h⟩ := Option.bind_eq_some_iff.mp h
    cases h
    exact ⟨rfl, rfl, rfl⟩

theorem opened_inBounds_iff (hname : infos.fields.libname.length < 2 ^ 32)
    (h : openApp files apps infos = some opened) :
    opened.InBounds ↔ infos.fields.libname.length < storageAppNameLen ∧
      infos.derivationPathLen ≤ derivationPathMaxLen := by
  obtain ⟨hfile, -, hpath⟩ := openApp_cases h
  rw [Opened.InBounds, hfile, inBounds_nvramFileName_iff hname, hpath, Region.inBounds_memcpy]
  rw [and_iff_left zeroed_inBounds, Nat.zero_add]
  exact and_congr_right fun _ => or_iff_right_of_imp fun hzero => hzero ▸ Nat.zero_le _

/-- An application can still be opened: there is room, no other one has its name, and its file
is there. -/
def CanOpen (files : Files) (apps : List Opened) (fields : Fields) : Prop :=
  apps.length < maxApp ∧ fields.libname ∉ apps.map (·.app.name) ∧ (files fields.filename).isSome

theorem exists_openApp_iff :
    (∃ opened, openApp files apps infos = some opened) ↔ CanOpen files apps infos.fields := by
  rw [openApp, CanOpen]
  by_cases hfull : apps.length ≥ maxApp ∨ infos.fields.libname ∈ apps.map (·.app.name)
  · simp only [if_pos hfull]
    refine iff_of_false (fun ⟨_, h⟩ => nomatch h) ?_
    rintro ⟨hlen, hname, -⟩
    rcases hfull with hfull | hfull
    · omega
    · exact hname hfull
  · simp only [if_neg hfull]
    rw [not_or, Nat.not_le] at hfull
    cases hfile : files infos.fields.filename with
    | none => exact iff_of_false (fun ⟨_, h⟩ => nomatch h) fun h => nomatch h.2.2
    | some file => exact iff_of_true ⟨_, rfl⟩ ⟨hfull.1, hfull.2, rfl⟩

/-- What is written is inside the arrays exactly if no pair is converted behind 512 digits and,
where the application is opened, the name and the path are short. -/
theorem writesInBounds_iff (hname : infos.fields.libname.length < 2 ^ 32)
    (harray : array.InBounds derivationPathMaxLen) (h : parseAppInfos array arg = some infos) :
    WritesInBounds files apps infos ↔ ¬ PairBeyond infos.fields.derivationPath ∧
      (CanOpen files apps infos.fields → infos.fields.libname.length < storageAppNameLen ∧
        infos.fields.derivationPath.length / 2 ≤ derivationPathMaxLen) := by
  rw [WritesInBounds, inBounds_derivationPath_iff h, and_iff_right harray, ← exists_openApp_iff,
    forall_exists_index]
  refine and_congr_right fun _ => forall_congr' fun opened => forall_congr' fun hopen => ?_
  rw [opened_inBounds_iff hname hopen, (parseAppInfos_cases h).2.1]

/-- A name and a path that fit into the arrays. -/
def Fields.Fits (fields : Fields) : Prop :=
  fields.libname.length < storageAppNameLen ∧
    fields.derivationPath.length ≤ 2 * derivationPathMaxLen

theorem writesInBounds_of_fits (harray : array.InBounds derivationPathMaxLen)
    (h : parseAppInfos array arg = some infos) (hfits : infos.fields.Fits) :
    WritesInBounds files apps infos := by
  obtain ⟨hname, hpath⟩ := hfits
  have hsize : storageAppNameLen < 2 ^ 32 := by decide
  refine (writesInBounds_iff (Nat.lt_trans hname hsize) harray h).mpr ⟨?_, fun _ => ⟨hname, ?_⟩⟩
  · exact not_pairBeyond_of_length hpath
  · exact Nat.div_le_of_le_mul hpath

end

-- ---------------------------------------------------------------------------
-- load_apps
-- ---------------------------------------------------------------------------

/-- Every argument of `load_apps` is written inside the bounds. -/
def LoadsInBounds (files : Files) : Region → List Bytes → List Opened → Prop
  | _, [], _ => True
  | array, arg :: args, apps =>
    ∀ infos, parseAppInfos array arg = some infos →
      WritesInBounds files apps infos ∧
        ∀ opened, openApp files apps infos = some opened →
          LoadsInBounds files infos.derivationPath args (apps ++ [opened])

/-- An argument whose fields fit, if it has any. -/
def Fits (arg : Bytes) : Prop := ∀ fields, scanFields arg = some fields → fields.Fits

section

variable {files : Files} {array : Region} {apps apps' : List Opened} {arg : Bytes}
  {args : List Bytes} {infos : AppInfos} {opened : Opened}

theorem loadsInBounds_of_fits (harray : array.InBounds derivationPathMaxLen)
    (hfits : ∀ arg ∈ args, Fits arg) : LoadsInBounds files array args apps := by
  induction args generalizing array apps with
  | nil => trivial
  | cons arg args ih =>
    intro infos hparse
    have hwrites (apps : List Opened) : WritesInBounds files apps infos :=
      writesInBounds_of_fits harray hparse
        (hfits arg List.mem_cons_self _ (parseAppInfos_cases hparse).1)
    refine ⟨hwrites apps, fun opened _ => ih (hwrites apps).1 fun arg' harg' => ?_⟩
    exact hfits arg' (List.mem_cons_of_mem arg harg')

theorem loadApps_cons (h : loadApps files array (arg :: args) apps = some apps') :
    ∃ infos opened, parseAppInfos array arg = some infos ∧ openApp files apps infos = some opened ∧
      loadApps files infos.derivationPath args (apps ++ [opened]) = some apps' := by
  obtain ⟨infos, hparse, h⟩ := Option.bind_eq_some_iff.mp h
  obtain ⟨opened, hopen, h⟩ := Option.bind_eq_some_iff.mp h
  exact ⟨infos, opened, hparse, hopen, h⟩

theorem prefix_of_loadApps (h : loadApps files array args apps = some apps') : apps <+: apps' := by
  induction args generalizing array apps with
  | nil =>
    cases h
    exact List.prefix_rfl
  | cons arg args ih =>
    obtain ⟨infos, opened, -, -, hrest⟩ := loadApps_cons h
    exact (List.prefix_append apps [opened]).trans (ih hrest)

theorem getAppDerivationPath_loadApps (hopen : openApp files [] infos = some opened)
    (hparse : parseAppInfos array arg = some infos)
    (h : loadApps files array (arg :: args) [] = some apps) :
    getAppDerivationPath apps = some (infos.derivationPath.slice 0 infos.derivationPathLen) := by
  obtain ⟨infos', opened', hparse', hopen', hrest⟩ := loadApps_cons h
  cases hparse.symm.trans hparse'
  cases hopen.symm.trans hopen'
  obtain ⟨more, rfl⟩ := prefix_of_loadApps hrest
  obtain ⟨-, hlen, hpath⟩ := openApp_cases hopen
  show some (opened.derivationPath.slice 0 opened.derivationPathLen) = _
  rw [hlen, hpath, Region.slice_memcpy_eq _ _ _ (Region.length_slice ..)]

end

-- ---------------------------------------------------------------------------
-- From the install parameters to the launcher
-- ---------------------------------------------------------------------------

/-- "main" -/
def mainName : Bytes := [0x6d, 0x61, 0x69, 0x6e]

/-- The application that `run_qemu` starts. -/
structure MainApp where
  path : Bytes
  isField_path : IsField path
  elf : PyElfInfo
  loadNvram : Bool
  saveNvram : Bool
  useBagl : Bool

def MainApp.arg (main : MainApp) : Bytes :=
  libArg mainName main.path main.elf main.loadNvram main.saveNvram main.useBagl

section

variable {files : Files} {array : Region} {args : List Bytes} {apps : List Opened} {main : MainApp}
  {infos : AppInfos} {arg : Bytes} {fields : Fields}

theorem MainApp.parse_cases (h : parseAppInfos array main.arg = some infos) :
    infos.fields = ⟨mainName, main.path, main.elf.toElfInfo main.useBagl, main.loadNvram,
        main.saveNvram, pathArg main.elf.derivationPath⟩ ∧
      infos.derivationPath.slice 0 infos.derivationPathLen = main.elf.derivationPath := by
  obtain ⟨hfields, hlen, hpath⟩ := parseAppInfos_cases h
  rw [MainApp.arg, scanFields_libArg ⟨by decide, by decide⟩ main.isField_path] at hfields
  split at hfields
  · have hfields := Option.some.inj hfields
    refine ⟨hfields.symm, ?_⟩
    rw [← hfields] at hlen hpath
    simp only [pathArg] at hlen hpath
    split at hlen
    · rename_i hpos
      rw [if_pos hpos, length_bytesHex] at hpath
      rw [length_bytesHex, Nat.mul_div_cancel_left _ (by decide)] at hlen
      rcases hpath with ⟨-, hpath⟩ | ⟨hle, -⟩
      · rw [hpath, hlen, convertPath_bytesHex, Region.slice_memcpy_length]
      · omega
    · rename_i hempty
      rw [hlen, List.eq_nil_of_length_eq_zero (Nat.eq_zero_of_not_pos hempty)]
      rfl
  · cases hfields

theorem MainApp.fits (h : main.elf.derivationPath.length ≤ derivationPathMaxLen) :
    Fits main.arg := by
  intro fields hfields
  rw [MainApp.arg, scanFields_libArg ⟨by decide, by decide⟩ main.isField_path] at hfields
  split at hfields
  · cases hfields
    have hname : mainName.length < storageAppNameLen := by decide
    refine ⟨hname, ?_⟩
    show (pathArg main.elf.derivationPath).length ≤ 2 * derivationPathMaxLen
    rw [pathArg]
    split
    · rw [length_bytesHex]
      omega
    · decide
  · cases hfields

theorem MainApp.loadApps_isSome_iff :
    (loadApps files array [main.arg] []).isSome ↔
      (∀ n ∈ main.elf.hexes, 0 ≤ n) ∧ (files main.path).isSome := by
  have hscan : scanFields main.arg = _ :=
    scanFields_libArg ⟨by decide, by decide⟩ main.isField_path
  have hempty (fields : Fields) (hfile : fields.filename = main.path) :
      CanOpen files [] fields ↔ (files main.path).isSome := by
    rw [CanOpen, hfile]
    exact ⟨fun h => h.2.2, fun h => ⟨by decide, List.not_mem_nil, h⟩⟩
  constructor
  · intro h
    obtain ⟨apps, h⟩ := Option.isSome_iff_exists.mp h
    obtain ⟨infos, opened, hparse, hopen, -⟩ := loadApps_cons h
    have hfields := (parseAppInfos_cases hparse).1
    rw [hscan] at hfields
    split at hfields
    · rename_i hall
      refine ⟨hall, (hempty infos.fields ?_).mp (exists_openApp_iff.mp ⟨opened, hopen⟩)⟩
      exact (congrArg Fields.filename (Option.some.inj hfields)).symm
    · cases hfields
  · rintro ⟨hall, hfile⟩
    rw [if_pos hall] at hscan
    obtain ⟨infos, hparse⟩ : ∃ infos, parseAppInfos array main.arg = some infos :=
      ⟨_, (congrArg (Option.map _) hscan).trans rfl⟩
    have hfields := (parseAppInfos_cases hparse).1
    rw [hscan] at hfields
    have hname : infos.fields.filename = main.path :=
      (congrArg Fields.filename (Option.some.inj hfields)).symm
    obtain ⟨opened, hopen⟩ := exists_openApp_iff.mpr ((hempty _ hname).mpr hfile)
    show (((parseAppInfos array main.arg).bind fun infos => (openApp files [] infos).bind
      fun opened => loadApps files infos.derivationPath [] [opened])).isSome
    rw [hparse, Option.bind_some, hopen]
    rfl

theorem length_libname_le (h : scanFields arg = some fields) :
    fields.libname.length ≤ arg.length := by
  obtain ⟨⟨libname, s⟩, hname, h⟩ := Option.bind_eq_some_iff.mp h
  obtain ⟨s, -, h⟩ := Option.bind_eq_some_iff.mp h
  obtain ⟨⟨filename, s⟩, -, h⟩ := Option.bind_eq_some_iff.mp h
  obtain ⟨⟨hexes, s⟩, -, h⟩ := Option.bind_eq_some_iff.mp h
  obtain ⟨⟨ints, s⟩, -, h⟩ := Option.bind_eq_some_iff.mp h
  obtain ⟨s, -, h⟩ := Option.bind_eq_some_iff.mp h
  obtain ⟨⟨path, s⟩, -, h⟩ := Option.bind_eq_some_iff.mp h
  have hlibname : fields.libname = libname := by
    dsimp only at h
    split at h
    · cases h
      rfl
    · cases h
  rw [scanUntil] at hname
  split at hname <;> cases hname
  rw [hlibname]
  exact (List.takeWhile_sublist _).length_le

/-- The value of the last derivation path among the install parameters is what the launcher
gives, and a library that fits leaves it alone. What is written for an argument is inside the
arrays exactly if no pair is converted behind 512 digits and, where the application is opened,
its name has at most 29 bytes and its path at most 256. -/
theorem derivationPath_reaches_iff (files : Files) (array : Region)
    (harray : array.InBounds derivationPathMaxLen) :
    (∀ (params : List InstallParam) (main : MainApp),
      readParams (encodeParams params) (encodeParams params).length 0 [] =
        some main.elf.derivationPath →
      ((lastDerivationPath params).getD []).length ≤ derivationPathMaxLen →
      ∀ args : List Bytes, (∀ arg ∈ args, Fits arg) →
        LoadsInBounds files array (main.arg :: args) [] ∧
          ((loadApps files array [main.arg] []).isSome ↔
            (∀ n ∈ main.elf.hexes, 0 ≤ n) ∧ (files main.path).isSome) ∧
          ∀ apps, loadApps files array (main.arg :: args) [] = some apps →
            getAppDerivationPath apps = some ((lastDerivationPath params).getD [])) ∧
    ∀ (apps : List Opened) (arg : Bytes) (fields : Fields) (infos : AppInfos),
      arg.length < 2 ^ 32 → scanFields arg = some fields → parseAppInfos array arg = some infos →
      (WritesInBounds files apps infos ↔ ¬ PairBeyond fields.derivationPath ∧
        (CanOpen files apps fields → fields.libname.length < storageAppNameLen ∧
          fields.derivationPath.length / 2 ≤ derivationPathMaxLen)) := by
  refine ⟨fun params main hread hlen args hfits => ?_, ?_⟩
  · have hvalue : main.elf.derivationPath = (lastDerivationPath params).getD [] :=
      Option.some.inj (hread.symm.trans (readParams_append [] params []))
    refine ⟨loadsInBounds_of_fits harray ?_, main.loadApps_isSome_iff, fun apps hload => ?_⟩
    · intro arg harg
      rcases List.mem_cons.mp harg with rfl | harg
      · exact main.fits (hvalue ▸ hlen)
      · exact hfits arg harg
    · obtain ⟨infos, opened, hparse, hopen, -⟩ := loadApps_cons hload
      rw [getAppDerivationPath_loadApps hopen hparse hload, (main.parse_cases hparse).2, hvalue]
  · intro apps arg fields infos harg hscan hparse
    cases hscan.symm.trans (parseAppInfos_cases hparse).1
    exact writesInBounds_iff (Nat.lt_of_le_of_lt (length_libname_le hscan) harg) harray hparse

end

/-- Install parameters with a derivation path of five bytes. -/
def sampleParams : List InstallParam :=
  [⟨0x01, .oneByte, [0x41], by decide, by decide, by decide⟩,
    ⟨bolosTagDerivepath, .form81, [0x00, 0x04, 0x80, 0x2c, 0xff], (by decide : (5 : Nat) < 256)⟩]

def sampleMain : MainApp where
  path := [0x61]
  isField_path := ⟨by decide, by decide⟩
  elf := ⟨0x1000, 0x40, 0x20000000, 0x800, 0, 0, 0x40000000, 0, 0, 0, 0,
    [0x00, 0x04, 0x80, 0x2c, 0xff]⟩
  loadNvram := false
  saveNvram := false
  useBagl := true

theorem derivationPath_reaches_sample :
    ∃ apps, loadApps (fun _ => some []) .zeroed [sampleMain.arg] [] = some apps ∧
      getAppDerivationPath apps = some [0x00, 0x04, 0x80, 0x2c, 0xff] := by
  obtain ⟨-, hload, hpath⟩ := (derivationPath_reaches_iff (fun _ => some []) .zeroed
    zeroed_inBounds).1 sampleParams sampleMain (readParams_append [] sampleParams []) (by decide) []
    (fun _ harg => absurd harg List.not_mem_nil)
  obtain ⟨apps, happs⟩ := Option.isSome_iff_exists.mp (hload.mpr ⟨by decide, rfl⟩)
  exact ⟨apps, happs, hpath apps happs⟩

/-- A library with a name of 30 bytes. -/
theorem not_writesInBounds_longName :
    ∃ infos, parseAppInfos .zeroed
        (libArg (List.replicate 30 0x61) [0x62] sampleMain.elf false false true) = some infos ∧
      ¬ WritesInBounds (fun _ => some []) [] infos := by
  have hscan : scanFields (libArg (List.replicate 30 0x61) [0x62] sampleMain.elf false false true) =
      _ :=
    scanFields_libArg ⟨by decide, by decide⟩ ⟨by decide, by decide⟩
  rw [if_pos (by decide)] at hscan
  obtain ⟨infos, hparse⟩ : ∃ infos, parseAppInfos .zeroed
      (libArg (List.replicate 30 0x61) [0x62] sampleMain.elf false false true) = some infos :=
    ⟨_, (congrArg (Option.map _) hscan).trans rfl⟩
  have hfields := Option.some.inj (hscan.symm.trans (parseAppInfos_cases hparse).1)
  refine ⟨infos, hparse, fun hwrites => ?_⟩
  have hbounds := (writesInBounds_iff (by rw [← hfields]; decide) zeroed_inBounds hparse).mp hwrites
  rw [← hfields] at hbounds
  exact absurd (hbounds.2 ⟨by decide, List.not_mem_nil, rfl⟩).1 (by decide)

end Speculos.Launcher
