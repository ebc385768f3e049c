import Speculos.Bip32.HdkeyValidate
import Speculos.Lib.Traced

/-!
# What the path checks read

The two walks over the list of an application again, with the bytes they read. The list is
memory, of which `length` bytes are the list. The walk of `hdkey_validate.c` ends before an
entry that is cut off by the end of the list. The one of `os_bip32.c` compares such
an entry, and reads behind the list unless the comparison ends before.
-/

namespace Speculos.Bip32

open Lib

/-- A byte of the list, or an element of the path. -/
inductive Access
  | list (i : Nat)
  | path (i : Nat)
  deriving DecidableEq, Repr

/-- The access is to one of the `listLength` bytes of the list or the `pathLength` elements
of the path. -/
def Access.Inside (listLength pathLength : Nat) : Access → Prop
  | list i => i < listLength
  | path i => i < pathLength

instance (listLength pathLength : Nat) : DecidablePred (Access.Inside listLength pathLength)
  | .list _ => inferInstanceAs (Decidable (_ < _))
  | .path _ => inferInstanceAs (Decidable (_ < _))

abbrev Reads (α : Type) := Traced Access α

-- ---------------------------------------------------------------------------
-- Reads
-- ---------------------------------------------------------------------------

variable {mode : UInt32} (path : Path mode) (list : Nat → UInt8)

def readByte (i : Nat) : Reads UInt8 := .access (.list i) (list i)

def readU4be (off : Nat) : Reads UInt32 := do
  let b0 ← readByte list off
  let b1 ← readByte list (off + 1)
  let b2 ← readByte list (off + 2)
  let b3 ← readByte list (off + 3)
  return UInt32.ofNat (fromBE [b0, b1, b2, b3])

def readIndex (i : Nat) : Reads UInt32 := .access (.path i) (path.index i)

/-- `memcmp(path, &derive_path[off], n) == 0`, which may read all bytes. -/
def readMemcmp (off : Nat) : Nat → Nat → Reads Bool
  | _, 0 => return true
  | i, n + 1 => do
    let a ← Traced.access (.path i) (path.bytes.getD i 0)
    let b ← readByte list (off + i)
    let rest ← readMemcmp off (i + 1) n
    return a == b && rest

/-- The loop over the indices of an entry, from the i-th on. -/
def readIndices (off : Nat) : Nat → Nat → Reads Bool
  | _, 0 => return true
  | i, n + 1 => do
    let allowedPrefix ← readU4be list (off + 4 * i)
    let index ← readIndex path i
    if index ≠ allowedPrefix ∧ allowedPrefix ≠ bip32WildcardValue then return false
    readIndices off (i + 1) n

-- ---------------------------------------------------------------------------
-- The walks
-- ---------------------------------------------------------------------------

def slip21Marker (byte : UInt8) : Bool := byte &&& 0x80 != 0

def subPathLength (byte : UInt8) : Nat := (byte &&& 0x7F).toNat

def subPathSize (byte : UInt8) : Nat := (if slip21Marker byte then 1 else 4) * subPathLength byte

/-- The entry is one that is compared with the path. -/
def Compared (byte : UInt8) : Prop :=
  subPathLength byte ≤ path.length ∧ slip21Marker byte = (mode == hdwSlip21)

instance (byte : UInt8) : Decidable (Compared path byte) := inferInstanceAs (Decidable (_ ∧ _))

def compareSubPath (checkOffset : Nat) (byte : UInt8) : Reads Bool :=
  if mode = hdwSlip21 then readMemcmp path list (checkOffset + 1) 0 (subPathLength byte)
  else readIndices path list (checkOffset + 1) 0 (subPathLength byte)

/-- The loop of `os_perso_derive_node_bip32_check_path`. -/
def checkLoopReads (length checkOffset : Nat) : Reads Bool :=
  if checkOffset < length then do
    let byte ← readByte list checkOffset
    let pathValid ← if Compared path byte then compareSubPath path list checkOffset byte
      else pure false
    if pathValid then return true
    checkLoopReads length (checkOffset + (1 + subPathSize (list checkOffset)))
  else return false
termination_by length - checkOffset

/-- The loop of `hdkey_validate_path`. -/
def hdkeyLoopReads (length checkOffset : Nat) : Reads Bool :=
  if checkOffset < length then do
    let byte ← readByte list checkOffset
    -- Bounds check: ensure the sub-path data fits within derive_path
    if checkOffset + 1 + subPathSize byte > length then return false
    -- Skip if path too short or slip21 mode mismatch
    let pathValid ← if Compared path byte then compareSubPath path list checkOffset byte
      else pure false
    if pathValid then return true
    hdkeyLoopReads length (checkOffset + (1 + subPathSize (list checkOffset)))
  else return false
termination_by length - checkOffset

/-- `os_perso_derive_node_bip32_check_path` -/
def checkPathReads (length : Nat) (curve : Curve) (fromApp : Bool) : Reads (Except Swo Unit) :=
  if ¬ fromApp ∨ length = 0 then return .ok ()
  else
    match curveMask mode curve with
    | .error swo => return .error swo
    | .ok curveMask => do
      let mask ← readByte list 0
      if mask &&& curveMask ≠ curveMask then return .error .parVal14
      -- if only the curve was specified, all paths are valid
      if length = 1 then return .ok ()
      let pathValid ← checkLoopReads path list length 1
      return if pathValid then .ok () else .error .parVal15

/-- `hdkey_validate_path` -/
def hdkeyValidatePathReads (length : Nat) (curve : Curve) (appIdx : UInt32) : Reads OsResult :=
  if appIdx = bolosAppIdx ∨ length = 0 ∨ length = 1 then return .success
  else do
    let mask ← readByte list 0
    let osError := hdkeyValidateCurve mode curve mask
    if osError ≠ .success then return .errForbidden
    let pathValid ← hdkeyLoopReads path list length 1
    return if pathValid then osError else .errForbidden

-- ---------------------------------------------------------------------------
-- One entry
-- ---------------------------------------------------------------------------

/-- The i-th index of an entry at `off` lets the one of the path through. -/
def AdmitsAt (off i : Nat) : Prop := Entry.Admits (readU4be list (off + 4 * i)).value (path.index i)

/-- The entry is cut off by the end of the list, and the comparison with it gets there: it
compares all bytes of a SLIP-21 path, and the indices up to the first one that differs. -/
def GoesPast (length checkOffset : Nat) : Prop :=
  length < checkOffset + (1 + subPathSize (list checkOffset)) ∧ Compared path (list checkOffset) ∧
    (mode = hdwSlip21 ∨ ∀ i < (length - (checkOffset + 1)) / 4,
      AdmitsAt path list (checkOffset + 1) i)

/-- The walk from an offset on comes to an entry that is compared past the end of the list. -/
inductive Overruns (length : Nat) : Nat → Prop
  | here (hlt : checkOffset < length) (hpast : GoesPast path list length checkOffset) :
    Overruns length checkOffset
  | next (hlt : checkOffset < length)
    (hno : Compared path (list checkOffset) →
      (compareSubPath path list checkOffset (list checkOffset)).value = false)
    (hrest : Overruns length (checkOffset + (1 + subPathSize (list checkOffset)))) :
    Overruns length checkOffset

variable {path list} {length : Nat}

theorem readU4be_inside :
    (readU4be list off).All (Access.Inside length path.length) ↔ off + 4 ≤ length := by
  simp only [readU4be, readByte, Traced.all_bind, Traced.all_access, Traced.all_pure, and_true,
    Access.Inside]
  omega

theorem readMemcmp_inside :
    (readMemcmp path list off i n).All (Access.Inside length path.length) ↔
      n = 0 ∨ i + n ≤ path.length ∧ off + (i + n) ≤ length := by
  induction n generalizing i with
  | zero => simp [readMemcmp]
  | succ n ih =>
    simp only [readMemcmp, readByte, Traced.all_bind, Traced.all_access, Traced.all_pure, and_true,
      Access.Inside, ih]
    omega

theorem readIndices_inside (hpath : i + n ≤ path.length) :
    (readIndices path list off i n).All (Access.Inside length path.length) ↔
      ∀ j, i ≤ j → j < i + n → (∀ k, i ≤ k → k < j → AdmitsAt path list off k) →
        off + 4 * j + 4 ≤ length := by
  induction n generalizing i with
  | zero =>
    simp only [readIndices, Traced.all_pure, true_iff]
    intro j hij hj
    omega
  | succ n ih =>
    have hi : i < path.length := by omega
    rw [readIndices, Traced.all_bind, readU4be_inside, Traced.all_bind, readIndex,
      Traced.all_access, Traced.value_access]
    constructor
    · rintro ⟨hfirst, -, hrest⟩ j hij hj hall
      rcases Nat.eq_or_lt_of_le hij with rfl | hlt
      · exact hfirst
      · have hadmits := hall i (Nat.le_refl i) hlt
        split at hrest
        · rename_i hne
          rcases hadmits with hwild | heq
          · exact absurd hwild hne.2
          · exact absurd heq hne.1
        · exact (ih (by omega)).mp hrest j hlt (by omega) fun k hk hkj => hall k (by omega) hkj
    · intro hall
      refine ⟨hall i (Nat.le_refl i) (by omega) fun k hk hki => absurd hki (by omega), hi, ?_⟩
      split
      · simp
      · rename_i heq
        refine (ih (by omega)).mpr fun j hij hj hadmits => ?_
        refine hall j (by omega) (by omega) fun k hk hkj => ?_
        rcases Nat.eq_or_lt_of_le hk with rfl | hlt
        · rw [not_and_or, not_not, not_not] at heq
          exact heq.symm
        · exact hadmits k hlt hkj

/-- The comparison stays inside exactly where it does not go past the end of the list. -/
theorem compareSubPath_inside (hlt : checkOffset < length)
    (hcompared : Compared path (list checkOffset)) :
    (compareSubPath path list checkOffset (list checkOffset)).All
        (Access.Inside length path.length) ↔ ¬ GoesPast path list length checkOffset := by
  obtain ⟨hle, hmarker⟩ := hcompared
  simp only [GoesPast, Compared, hle, hmarker, and_self, true_and]
  rw [compareSubPath]
  split
  · rename_i hmode
    have hsize : subPathSize (list checkOffset) = subPathLength (list checkOffset) := by
      rw [subPathSize, hmarker, hmode]
      simp
    rw [readMemcmp_inside, hsize]
    simp only [hmode, true_or, and_true]
    omega
  · rename_i hmode
    have hsize : subPathSize (list checkOffset) = 4 * subPathLength (list checkOffset) := by
      rw [subPathSize, hmarker]
      simp [hmode]
    rw [readIndices_inside (by omega), hsize]
    simp only [hmode, false_or]
    constructor
    · rintro hall ⟨hpast, hadmits⟩
      have hj := hall ((length - (checkOffset + 1)) / 4) (Nat.zero_le _) (by omega)
        fun k _ hk => hadmits k hk
      omega
    · intro hnot j _ hj hadmits
      by_contra hpast
      exact hnot ⟨by omega, fun i hi => hadmits i (Nat.zero_le i) (by omega)⟩

-- ---------------------------------------------------------------------------
-- The walks
-- ---------------------------------------------------------------------------

theorem overruns_iff (hlt : checkOffset < length) :
    Overruns path list length checkOffset ↔
      GoesPast path list length checkOffset ∨
        (Compared path (list checkOffset) →
          (compareSubPath path list checkOffset (list checkOffset)).value = false) ∧
          Overruns path list length (checkOffset + (1 + subPathSize (list checkOffset))) := by
  constructor
  · intro h
    cases h with
    | here _ hpast => exact .inl hpast
    | next _ hno hrest => exact .inr ⟨hno, hrest⟩
  · rintro (hpast | ⟨hno, hrest⟩)
    · exact .here hlt hpast
    · exact .next hlt hno hrest

theorem not_overruns_of_ge (hge : ¬ checkOffset < length) :
    ¬ Overruns path list length checkOffset := by
  intro h
  cases h with
  | here hlt => exact hge hlt
  | next hlt => exact hge hlt

theorem checkLoopReads_inside (length checkOffset : Nat) :
    (checkLoopReads path list length checkOffset).All (Access.Inside length path.length) ↔
      ¬ Overruns path list length checkOffset := by
  induction checkOffset using checkLoopReads.induct list length with
  | case1 checkOffset hlt ih =>
    rw [checkLoopReads, if_pos hlt, overruns_iff hlt]
    simp only [readByte, Traced.all_access_bind, Access.Inside, hlt, true_and]
    by_cases hcompared : Compared path (list checkOffset)
    · rw [if_pos hcompared, Traced.all_bind, compareSubPath_inside hlt hcompared]
      cases hvalue : (compareSubPath path list checkOffset (list checkOffset)).value with
      | true => simp [hcompared]
      | false => simp [hcompared, ih]
    · have hpast : ¬ GoesPast path list length checkOffset := fun h => hcompared h.2.1
      rw [if_neg hcompared]
      simp [hcompared, hpast, ih]
  | case2 checkOffset hge =>
    rw [checkLoopReads, if_neg hge]
    exact iff_of_true (by simp) (not_overruns_of_ge hge)

theorem hdkeyLoopReads_inside (path : Path mode) (list : Nat → UInt8) (length checkOffset : Nat) :
    (hdkeyLoopReads path list length checkOffset).All (Access.Inside length path.length) := by
  induction checkOffset using hdkeyLoopReads.induct list length with
  | case1 checkOffset hlt ih =>
    rw [hdkeyLoopReads, if_pos hlt]
    simp only [readByte, Traced.all_access_bind, Access.Inside, hlt, true_and]
    split
    · simp
    · rename_i hfits
      have hpast : ¬ GoesPast path list length checkOffset := fun h => by
        have hout := h.1
        omega
      have hrest : (hdkeyLoopReads path list length
          (checkOffset + (1 + subPathSize (list checkOffset)))).All
            (Access.Inside length path.length) := ih 0
      split
      · rename_i hcompared
        rw [Traced.all_bind, compareSubPath_inside hlt hcompared]
        refine ⟨hpast, ?_⟩
        split
        · simp
        · exact hrest
      · simpa using hrest
  | case2 checkOffset hge =>
    rw [hdkeyLoopReads, if_neg hge]
    simp

-- ---------------------------------------------------------------------------
-- The checks
-- ---------------------------------------------------------------------------

theorem hdkeyValidatePathReads_inside (path : Path mode) (list : Nat → UInt8) (length : Nat)
    (curve : Curve) (appIdx : UInt32) :
    (hdkeyValidatePathReads path list length curve appIdx).All
      (Access.Inside length path.length) := by
  rw [hdkeyValidatePathReads]
  split
  · simp
  · rename_i hlist
    have hpos : 0 < length := by omega
    simp only [readByte, Traced.all_access_bind, Access.Inside, hpos, true_and]
    split
    · simp
    · simp [hdkeyLoopReads_inside]

/-- The list is walked: it has entries, and the curve is one of its mask. -/
def Walks (mode : UInt32) (list : Nat → UInt8) (length : Nat) (curve : Curve) (fromApp : Bool) :
    Prop :=
  fromApp = true ∧ 1 < length ∧ ∃ mask, curveMask mode curve = .ok mask ∧ list 0 &&& mask = mask

theorem checkPathReads_inside (path : Path mode) (list : Nat → UInt8) (length : Nat)
    (curve : Curve) (fromApp : Bool) :
    (checkPathReads path list length curve fromApp).All (Access.Inside length path.length) ↔
      ¬ (Walks mode list length curve fromApp ∧ Overruns path list length 1) := by
  rw [checkPathReads]
  split
  · rename_i hlist
    refine iff_of_true (by simp) fun h => ?_
    obtain ⟨⟨hfrom, hlength, -⟩, -⟩ := h
    simp [hfrom] at hlist
    omega
  · rename_i hlist
    rw [not_or, not_not] at hlist
    have hpos : 0 < length := Nat.pos_of_ne_zero hlist.2
    cases hmask : curveMask mode curve with
    | error swo => simp [Walks, hmask]
    | ok mask =>
      simp only [readByte, Traced.all_access_bind, Access.Inside, hpos, true_and, Walks, hmask,
        hlist.1]
      split
      · rename_i hrefused
        simp [hrefused]
      · rename_i hallowed
        rw [not_not] at hallowed
        split
        · rename_i hone
          simp [hone]
        · rename_i hone
          have hlong : 1 < length := by omega
          simp [checkLoopReads_inside, hlong, hallowed]

-- ---------------------------------------------------------------------------
-- What they find
-- ---------------------------------------------------------------------------

theorem take_four_drop (derivePath : Bytes) (hfits : off + 4 ≤ derivePath.length) :
    (derivePath.drop off).take 4 = [derivePath.getD off 0, derivePath.getD (off + 1) 0,
      derivePath.getD (off + 2) 0, derivePath.getD (off + 3) 0] := by
  iterate 4 rw [List.drop_eq_getElem_cons (by omega), List.take_succ_cons]
  iterate 4 rw [List.getD_eq_getElem _ _ (by omega)]
  rfl

theorem readU4be_value (derivePath : Bytes) (hfits : off + 4 ≤ derivePath.length) :
    (readU4be (derivePath.getD · 0) off).value = u4be derivePath off := by
  simp only [readU4be, readByte, Traced.value_bind, Traced.value_access, Traced.value_pure, u4be,
    take_four_drop derivePath hfits]

theorem readIndices_value (path : Path mode) (derivePath : Bytes) (off : Nat)
    (hinside : (readIndices path (derivePath.getD · 0) off i n).All
      (Access.Inside derivePath.length path.length)) :
    (readIndices path (derivePath.getD · 0) off i n).value =
      (List.range' i n).all fun j => path.index j == u4be derivePath (off + 4 * j) ||
        u4be derivePath (off + 4 * j) == bip32WildcardValue := by
  induction n generalizing i with
  | zero => rfl
  | succ n ih =>
    rw [readIndices, Traced.all_bind, readU4be_inside] at hinside
    obtain ⟨hfits, hrest⟩ := hinside
    rw [readU4be_value derivePath hfits, readIndex, Traced.all_access_bind] at hrest
    rw [readIndices, Traced.value_bind, readU4be_value derivePath hfits, readIndex,
      Traced.value_access_bind, List.range'_succ, List.all_cons]
    split
    · rename_i hne
      simp [hne]
    · rename_i heq
      rw [if_neg heq] at hrest
      rw [ih hrest.2]
      rw [not_and_or, not_not, not_not] at heq
      rcases heq with heq | heq
      · simp [heq]
      · simp [heq]

theorem readMemcmp_value (path : Path mode) (derivePath : Bytes) (off i n : Nat)
    (hpath : i + n ≤ path.bytes.length) (hlist : off + (i + n) ≤ derivePath.length) :
    (readMemcmp path (derivePath.getD · 0) off i n).value =
      memEq (path.bytes.drop i) derivePath (off + i) n := by
  induction n generalizing i with
  | zero => simp [readMemcmp, memEq]
  | succ n ih =>
    have hleft := List.drop_eq_getElem_cons (l := path.bytes) (i := i) (by omega)
    have hright := List.drop_eq_getElem_cons (l := derivePath) (i := off + i) (by omega)
    rw [readMemcmp, Traced.value_access_bind, readByte, Traced.value_access_bind,
      Traced.value_bind, ih (i + 1) (by omega) (by omega), memEq, memEq, hleft, hright,
      List.take_succ_cons, List.take_succ_cons, List.cons_beq_cons,
      List.getD_eq_getElem _ _ (by omega), List.getD_eq_getElem _ _ (by omega)]
    rfl

theorem compareSubPath_value (path : Path mode) (derivePath : Bytes)
    (hcompared : Compared path (derivePath.getD offset 0))
    (hinside : (compareSubPath path (derivePath.getD · 0) offset (derivePath.getD offset 0)).All
      (Access.Inside derivePath.length path.length)) :
    (compareSubPath path (derivePath.getD · 0) offset (derivePath.getD offset 0)).value =
      if mode = hdwSlip21 then
        hdkeyMatchSlip21Subpath path derivePath offset (subPathLength (derivePath.getD offset 0))
      else
        hdkeyMatchBip32Subpath path derivePath offset
          (subPathLength (derivePath.getD offset 0)) := by
  have hpath := path.size_eq
  have hle := hcompared.1
  rw [compareSubPath] at hinside ⊢
  split
  · rename_i hmode
    rw [if_pos hmode] at hinside hpath
    rw [readMemcmp_inside] at hinside
    rcases hinside with hzero | ⟨-, hfits⟩
    · rw [hzero, readMemcmp, hdkeyMatchSlip21Subpath, memEq]
      rfl
    · exact readMemcmp_value path derivePath _ 0 _ (by omega) hfits
  · rename_i hmode
    rw [if_neg hmode] at hinside
    rw [readIndices_value path derivePath _ hinside, hdkeyMatchBip32Subpath_eq,
      List.range_eq_range']

theorem skipped_eq (path : Path mode) (byte : UInt8) :
    (decide (path.length < subPathLength byte) || slip21Marker byte != (mode == hdwSlip21)) =
      !decide (Compared path byte) := by
  rw [Bool.eq_iff_iff]
  simp only [Bool.or_eq_true, decide_eq_true_eq, bne_iff_ne, Bool.not_eq_true',
    decide_eq_false_iff_not]
  simp only [Compared, not_and_or, Nat.not_le, ne_eq]

theorem hdkeyLoop_of_lt (path : Path mode) (hlt : offset < derivePath.length) :
    hdkeyLoop path derivePath offset =
      if offset + 1 + subPathSize (derivePath.getD offset 0) > derivePath.length then false
      else (decide (Compared path (derivePath.getD offset 0)) &&
          if mode = hdwSlip21 then
            hdkeyMatchSlip21Subpath path derivePath offset
              (subPathLength (derivePath.getD offset 0))
          else
            hdkeyMatchBip32Subpath path derivePath offset
              (subPathLength (derivePath.getD offset 0))) ||
        hdkeyLoop path derivePath (offset + (1 + subPathSize (derivePath.getD offset 0))) := by
  have hskipped := skipped_eq path (derivePath.getD offset 0)
  rw [slip21Marker, subPathLength] at hskipped
  rw [hdkeyLoop, if_pos hlt]
  simp only [hskipped, subPathSize, slip21Marker, subPathLength, beq_iff_eq]
  cases decide (Compared path (derivePath.getD offset 0)) with
  | true => simp
  | false => simp

theorem subPathValid_eq (path : Path mode) (derivePath : Bytes) (offset : Nat) :
    subPathValid path derivePath offset =
      (decide (Compared path (derivePath.getD offset 0)) &&
        if mode = hdwSlip21 then
          hdkeyMatchSlip21Subpath path derivePath offset (subPathLength (derivePath.getD offset 0))
        else
          hdkeyMatchBip32Subpath path derivePath offset
            (subPathLength (derivePath.getD offset 0))) := by
  rw [hdkeyMatchBip32Subpath_eq, hdkeyMatchSlip21Subpath, subPathValid]
  simp only [subPathLength, beq_iff_eq]
  split
  · rename_i hle
    split
    · rename_i hmarker
      rw [decide_eq_false fun h => bne_iff_ne.mp hmarker h.2]
      rfl
    · rename_i hmarker
      rw [bne_iff_ne, not_not] at hmarker
      rw [decide_eq_true ⟨hle, hmarker⟩, Bool.true_and]
  · rename_i hshort
    rw [decide_eq_false fun h => hshort h.1]
    rfl

theorem checkLoop_of_lt (path : Path mode) (hlt : offset < derivePath.length) :
    checkLoop path derivePath offset =
      (subPathValid path derivePath offset ||
        checkLoop path derivePath (offset + (1 + subPathSize (derivePath.getD offset 0)))) := by
  rw [checkLoop, if_pos hlt]
  cases subPathValid path derivePath offset with
  | true => rfl
  | false => rfl

/-- On a list of its own, the walk of `hdkey_validate.c` finds what `hdkeyLoop` finds. -/
theorem hdkeyLoopReads_value (path : Path mode) (derivePath : Bytes) (offset : Nat) :
    (hdkeyLoopReads path (derivePath.getD · 0) derivePath.length offset).value =
      hdkeyLoop path derivePath offset := by
  induction offset using hdkeyLoopReads.induct (derivePath.getD · 0) derivePath.length with
  | case1 offset hlt ih =>
    have hinside := hdkeyLoopReads_inside path (derivePath.getD · 0) derivePath.length offset
    rw [hdkeyLoopReads, if_pos hlt, readByte, Traced.all_access_bind] at hinside
    rw [hdkeyLoopReads, if_pos hlt, hdkeyLoop_of_lt path hlt, ← ih 0, readByte,
      Traced.value_access_bind]
    split
    · rfl
    · rename_i hfits
      rw [if_neg hfits] at hinside
      split
      · rename_i hcompared
        rw [if_pos hcompared, Traced.all_bind] at hinside
        rw [Traced.value_bind, compareSubPath_value path derivePath hcompared hinside.2.1]
        simp only [hcompared, decide_true, Bool.true_and]
        generalize (if mode = hdwSlip21 then _ else _) = pathValid
        cases pathValid with
        | true => rfl
        | false => rfl
      · rename_i hcompared
        rw [decide_eq_false hcompared, Bool.false_and, Bool.false_or]
        rfl
  | case2 offset hge =>
    rw [hdkeyLoopReads, if_neg hge, hdkeyLoop, if_neg hge]
    rfl

/-- The walk of `os_bip32.c` finds what `checkLoop` finds, with what it reads inside the list. -/
theorem checkLoopReads_value (path : Path mode) (derivePath : Bytes) (offset : Nat)
    (hinside : (checkLoopReads path (derivePath.getD · 0) derivePath.length offset).All
      (Access.Inside derivePath.length path.length)) :
    (checkLoopReads path (derivePath.getD · 0) derivePath.length offset).value =
      checkLoop path derivePath offset := by
  induction offset using checkLoopReads.induct (derivePath.getD · 0) derivePath.length with
  | case1 offset hlt ih =>
    rw [checkLoopReads, if_pos hlt, readByte, Traced.all_access_bind] at hinside
    rw [checkLoopReads, if_pos hlt, checkLoop_of_lt path hlt, subPathValid_eq, readByte,
      Traced.value_access_bind]
    split
    · rename_i hcompared
      rw [if_pos hcompared, Traced.all_bind] at hinside
      have hvalue := compareSubPath_value path derivePath hcompared hinside.2.1
      rw [Traced.value_bind, ← hvalue]
      simp only [hcompared, decide_true, Bool.true_and]
      have hrest := hinside.2.2
      revert hrest
      generalize (compareSubPath path (derivePath.getD · 0) offset (derivePath.getD offset 0)).value =
        pathValid
      intro hrest
      cases pathValid with
      | true => rfl
      | false => exact ih hrest
    · rename_i hcompared
      rw [if_neg hcompared] at hinside
      rw [decide_eq_false hcompared, Bool.false_and, Bool.false_or]
      exact ih hinside.2
  | case2 offset hge =>
    rw [checkLoopReads, if_neg hge, checkLoop, if_neg hge]
    rfl

theorem hdkeyValidatePathReads_value (derivePath : Bytes) (params : HdkeyParams) (appIdx : UInt32) :
    (hdkeyValidatePathReads params.path (derivePath.getD · 0) derivePath.length params.curve
      appIdx).value = hdkeyValidatePath derivePath params appIdx := by
  rw [hdkeyValidatePathReads, hdkeyValidatePath]
  by_cases happ : appIdx = bolosAppIdx
  · simp [happ]
  · by_cases hshort : derivePath.length = 0 ∨ derivePath.length = 1
    · rcases hshort with hzero | hone
      · simp [happ, hzero]
      · simp [happ, hone]
    · rw [not_or] at hshort
      simp only [happ, hshort.1, hshort.2, or_self, if_false, ne_eq, not_false_iff, if_true,
        readByte, Traced.value_access_bind]
      generalize hdkeyValidateCurve params.mode params.curve (derivePath.getD 0 0) = osError
      by_cases hsuccess : osError = .success
      · simp only [hsuccess, not_true_eq_false, if_false, Traced.value_bind, Traced.value_pure,
          hdkeyLoopReads_value]
        cases hdkeyLoop params.path derivePath 1 with
        | true => rfl
        | false => rfl
      · simp [hsuccess]

theorem checkPathReads_value (path : Path mode) (derivePath : Bytes) (curve : Curve)
    (fromApp : Bool)
    (hinside : (checkPathReads path (derivePath.getD · 0) derivePath.length curve fromApp).All
      (Access.Inside derivePath.length path.length)) :
    (checkPathReads path (derivePath.getD · 0) derivePath.length curve fromApp).value =
      checkPath derivePath curve path fromApp := by
  rw [checkPathReads] at hinside ⊢
  rw [checkPath]
  by_cases hnone : ¬ fromApp ∨ derivePath.length = 0
  · rw [if_pos hnone]
    cases fromApp with
    | true =>
      have hzero : derivePath.length = 0 := by simpa using hnone
      simp [hzero, pure, Except.pure]
    | false => rfl
  · rw [if_neg hnone] at hinside ⊢
    rw [not_or, not_not] at hnone
    obtain ⟨rfl, hlength⟩ := hnone
    simp only [if_true, ne_eq, hlength, not_false_iff]
    cases hmask : curveMask mode curve with
    | error swo => rfl
    | ok mask =>
      simp only [hmask, readByte, Traced.all_access_bind] at hinside
      simp only [readByte, Traced.value_access_bind]
      obtain ⟨-, hinside⟩ := hinside
      generalize derivePath.getD 0 0 = head at hinside ⊢
      by_cases hallowed : head &&& mask = mask
      · simp only [hallowed, ne_eq, not_true_eq_false, if_false] at hinside ⊢
        by_cases hone : derivePath.length = 1
        · simp only [hone, if_true]
          simp [bind, Except.bind, hallowed]
          rfl
        · have hlong : derivePath.length > 1 := by omega
          rw [if_neg hone, Traced.all_bind] at hinside
          rw [if_neg hone, Traced.value_bind, checkLoopReads_value path derivePath 1 hinside.1]
          cases hloop : checkLoop path derivePath 1 with
          | true => simp [bind, Except.bind, hallowed]; rfl
          | false => simp [bind, Except.bind, hallowed, hlong]; rfl
      · simp only [hallowed, not_false_iff, if_true]
        simp [bind, Except.bind, hallowed]
        rfl

/-- Both checks read the list and the path only, exactly where the walk of `os_bip32.c` does
not come to an entry that is cut off and compared past its end. -/
theorem pathChecks_inside_iff (path : Path mode) (list : Nat → UInt8) (length : Nat) (curve : Curve)
    (fromApp : Bool) (appIdx : UInt32) :
    (checkPathReads path list length curve fromApp).All (Access.Inside length path.length) ∧
        (hdkeyValidatePathReads path list length curve appIdx).All
          (Access.Inside length path.length) ↔
      ¬ (Walks mode list length curve fromApp ∧ Overruns path list length 1) := by
  rw [checkPathReads_inside]
  exact and_iff_left (hdkeyValidatePathReads_inside path list length curve appIdx)

/-- `44'` on a list that ends behind the length of its only entry: the check reads the index
of the entry behind the list. -/
theorem checkPath_reads_past :
    let path : Path hdwNormal := ⟨[0x2C, 0, 0, 0x80], 1, by decide⟩
    ¬ ∀ (list : Nat → UInt8) (length : Nat) (curve : Curve) (fromApp : Bool) (appIdx : UInt32),
      (checkPathReads path list length curve fromApp).All (Access.Inside length path.length) ∧
        (hdkeyValidatePathReads path list length curve appIdx).All
          (Access.Inside length path.length) := by
  intro path h
  have hinside := (h (fun _ => 1) 2 .secp256k1 true 0).1
  rw [checkPathReads_inside] at hinside
  refine hinside ⟨⟨rfl, by decide, deriveAuth256k1, rfl, by decide⟩, .here (by decide) ?_⟩
  exact ⟨by decide, by decide, .inr fun i hi => absurd hi (Nat.not_lt_zero i)⟩

end Speculos.Bip32
