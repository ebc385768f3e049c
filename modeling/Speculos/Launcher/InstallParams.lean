import Speculos.Launcher.AppInfos

/-!
# The derivation path from the application to the launcher

The install parameters of an application are elements with a tag and a length of one
to three bytes. The value of the last derivation path among them goes into the
argument of the launcher in hexadecimal, and the launcher converts it back.
-/

namespace Speculos.Launcher

open Lib

-- ---------------------------------------------------------------------------
-- Install parameters
-- ---------------------------------------------------------------------------

def bolosTagDerivepath : UInt8 := 0x04

/-- A tag, a length and the offset of the value. There is no result where an index is out of
range. -/
def readHeader (data : Bytes) (offset : Nat) : Option (UInt8 × Nat × Nat) := do
  let tag ← data[offset]?
  let len ← data[offset + 1]?
  if len = 0x81 then
    let len ← data[offset + 2]?
    return (tag, len.toNat, offset + 3)
  else if len = 0x82 then
    return (tag, fromBE ((data.drop (offset + 2)).take 2), offset + 4)
  else return (tag, len.toNat, offset + 2)

theorem lt_of_readHeader (h : readHeader data offset = some (tag, len, start)) :
    offset < start := by
  obtain ⟨tag', -, h⟩ := Option.bind_eq_some_iff.mp h
  obtain ⟨len', -, h⟩ := Option.bind_eq_some_iff.mp h
  split at h
  · obtain ⟨len'', -, h⟩ := Option.bind_eq_some_iff.mp h
    cases h
    omega
  · split at h <;> cases h <;> omega

/-- The loop of `get_elf_infos` over the install parameters, from `offset` on. -/
def readParams (data : Bytes) (symSize offset : Nat) (derivationPath : Bytes) : Option Bytes :=
  if offset < symSize then
    match _h : readHeader data offset with
    | none => none
    | some (tag, len, start) =>
      readParams data symSize (start + len)
        (if tag = bolosTagDerivepath then (data.drop start).take len else derivationPath)
  else some derivationPath
termination_by symSize - offset
decreasing_by
  have hlt := lt_of_readHeader _h
  omega

/-- How the length of an element is written. -/
inductive LengthForm
  | oneByte
  | form81
  | form82
  deriving DecidableEq, Repr

def LengthForm.Fits : LengthForm → Nat → Prop
  | .oneByte, n => n < 256 ∧ n ≠ 0x81 ∧ n ≠ 0x82
  | .form81, n => n < 256
  | .form82, n => n < 65536

def LengthForm.encode : LengthForm → Nat → Bytes
  | .oneByte, n => [UInt8.ofNat n]
  | .form81, n => [0x81, UInt8.ofNat n]
  | .form82, n => 0x82 :: be16 n

/-- An element, with a length that its form can write. -/
structure InstallParam where
  tag : UInt8
  form : LengthForm
  value : Bytes
  fits : form.Fits value.length

def InstallParam.encode (p : InstallParam) : Bytes :=
  p.tag :: (p.form.encode p.value.length ++ p.value)

def encodeParams (ps : List InstallParam) : Bytes := ps.flatMap InstallParam.encode

/-- The value of the last derivation path, if there is one. -/
def lastDerivationPath (ps : List InstallParam) : Option Bytes :=
  ((ps.filter (·.tag = bolosTagDerivepath)).getLast?).map (·.value)

theorem readHeader_encode (before : Bytes) (p : InstallParam) (rest : Bytes) :
    ∃ start, readHeader (before ++ (p.encode ++ rest)) before.length =
        some (p.tag, p.value.length, start) ∧
      start + p.value.length = (before ++ p.encode).length ∧
      ((before ++ (p.encode ++ rest)).drop start).take p.value.length = p.value := by
  have hget (k : Nat) : (before ++ (p.encode ++ rest))[before.length + k]? =
      (p.encode ++ rest)[k]? := by
    rw [List.getElem?_append_right (Nat.le_add_right ..), Nat.add_sub_cancel_left]
  have htag : (before ++ (p.encode ++ rest))[before.length]? = some p.tag := hget 0
  have hdrop (k : Nat) : (before ++ (p.encode ++ rest)).drop (before.length + k) =
      (p.encode ++ rest).drop k := by
    rw [← List.drop_drop, List.drop_left]
  refine ⟨before.length + 1 + (p.form.encode p.value.length).length, ?_, ?_, ?_⟩
  · have hfits := p.fits
    cases hform : p.form with
    | oneByte =>
      rw [hform] at hfits
      have hlen : (before ++ (p.encode ++ rest))[before.length + 1]? =
          some (UInt8.ofNat p.value.length) := by
        rw [hget, InstallParam.encode, hform]
        rfl
      have hn := UInt8.toNat_ofNat_of_lt' hfits.1
      have hne (b : UInt8) (hb : p.value.length ≠ b.toNat) : UInt8.ofNat p.value.length ≠ b :=
        fun heq => hb (by rw [← hn, heq])
      simp only [readHeader, htag, hlen, Option.bind_eq_bind, Option.bind_some,
        hne 0x81 hfits.2.1, hne 0x82 hfits.2.2, if_false, hn]
      rfl
    | form81 =>
      rw [hform] at hfits
      have hmark : (before ++ (p.encode ++ rest))[before.length + 1]? = some 0x81 := by
        rw [hget, InstallParam.encode, hform]
        rfl
      have hlen : (before ++ (p.encode ++ rest))[before.length + 2]? =
          some (UInt8.ofNat p.value.length) := by
        rw [hget, InstallParam.encode, hform]
        rfl
      have hn := UInt8.toNat_ofNat_of_lt' hfits
      simp only [readHeader, htag, hmark, hlen, Option.bind_eq_bind, Option.bind_some, if_true, hn]
      rfl
    | form82 =>
      rw [hform] at hfits
      have hmark : (before ++ (p.encode ++ rest))[before.length + 1]? = some 0x82 := by
        rw [hget, InstallParam.encode, hform]
        rfl
      have hlen : ((before ++ (p.encode ++ rest)).drop (before.length + 2)).take 2 =
          be16 p.value.length := by
        rw [hdrop, InstallParam.encode, hform]
        rfl
      have hne : (0x82 : UInt8) ≠ 0x81 := by decide
      simp only [readHeader, htag, hmark, hlen, Option.bind_eq_bind, Option.bind_some, hne,
        if_false, if_true, fromBE_be16 _ hfits]
      rfl
  · rw [List.length_append, InstallParam.encode, List.length_cons, List.length_append]
    omega
  · rw [Nat.add_assoc, hdrop, InstallParam.encode, List.cons_append, Nat.add_comm 1,
      List.drop_succ_cons, List.append_assoc, List.drop_left, List.take_left]

theorem readParams_step (before : Bytes) (p : InstallParam) (rest path : Bytes) :
    readParams (before ++ (p.encode ++ rest))
      (before ++ (p.encode ++ rest)).length before.length path =
      readParams (before ++ (p.encode ++ rest)) (before ++ (p.encode ++ rest)).length
        (before ++ p.encode).length (if p.tag = bolosTagDerivepath then p.value else path) := by
  obtain ⟨start, hheader, hnext, hvalue⟩ := readHeader_encode before p rest
  rw [readParams, if_pos (by simp [InstallParam.encode])]
  split
  · rename_i hnone
    rw [hheader] at hnone
    cases hnone
  · rename_i tag len start' hsome
    rw [hheader] at hsome
    cases hsome
    rw [hvalue, hnext]

theorem readParams_append (before : Bytes) (ps : List InstallParam) (path : Bytes) :
    readParams (before ++ encodeParams ps) (before ++ encodeParams ps).length before.length path =
      some ((lastDerivationPath ps).getD path) := by
  induction ps generalizing before path with
  | nil =>
    rw [readParams.eq_def, if_neg (by simp [encodeParams])]
    rfl
  | cons p ps ih =>
    have hlast : (lastDerivationPath (p :: ps)).getD path = (lastDerivationPath ps).getD
        (if p.tag = bolosTagDerivepath then p.value else path) := by
      rw [lastDerivationPath, lastDerivationPath]
      by_cases htag : p.tag = bolosTagDerivepath
      · simp only [htag, decide_true, List.filter_cons_of_pos, List.getLast?_cons, if_true]
        cases (ps.filter fun x => x.tag = bolosTagDerivepath).getLast? <;> rfl
      · simp [htag]
    have happend : before ++ encodeParams (p :: ps) = (before ++ p.encode) ++ encodeParams ps := by
      rw [encodeParams, List.flatMap_cons, List.append_assoc]
      rfl
    rw [hlast, ← ih (before ++ p.encode), happend]
    have hstep := readParams_step before p (encodeParams ps) path
    rwa [← List.append_assoc] at hstep

-- ---------------------------------------------------------------------------
-- The argument
-- ---------------------------------------------------------------------------

/-- The numbers of `ElfInfo` that go into the argument, with the fonts that are chosen, and
the derivation path. -/
structure PyElfInfo where
  textOffset : Int
  textSize : Int
  stackAddr : Int
  stackSize : Int
  svcCallAddr : Int
  svcCxCallAddr : Int
  textAddr : Int
  fontsAddr : Int
  fontsSize : Int
  appNvramAddr : Int
  appNvramSize : Int
  derivationPath : Bytes
  deriving DecidableEq, Repr

def PyElfInfo.hexes (ei : PyElfInfo) : List Int :=
  [ei.textOffset, ei.textSize, ei.stackAddr, ei.stackSize, ei.svcCallAddr, ei.svcCxCallAddr,
    ei.textAddr, ei.fontsAddr, ei.fontsSize, ei.appNvramAddr, ei.appNvramSize]

/-- The format `#x`. -/
def hexArg : Int → Bytes
  | .ofNat n => 0x30 :: 0x78 :: hexString n
  | .negSucc n => 0x2d :: 0x30 :: 0x78 :: hexString (n + 1)

def flagArg (b : Bool) : UInt8 := if b then 0x31 else 0x30

def bytesHex (bs : Bytes) : Bytes := bs.flatMap hexByte

/-- The derivation path as it stands in the argument: without one, 0 tells the launcher so. -/
def pathArg (derivationPath : Bytes) : Bytes :=
  if derivationPath.length > 0 then bytesHex derivationPath else [0x30]

/-- `lib_arg` of `run_qemu` -/
def libArg (name libPath : Bytes) (ei : PyElfInfo) (loadNvram saveNvram useBagl : Bool) : Bytes :=
  name ++ colon :: (libPath ++ ((ei.hexes.flatMap fun n => colon :: hexArg n) ++
    colon :: flagArg loadNvram :: colon :: flagArg saveNvram :: colon :: flagArg
      (!useBagl) :: colon ::
      pathArg ei.derivationPath))

theorem scanNumber_hexString (n : Nat) (rest : Bytes) :
    scanNumber 16 (hexString n ++ colon :: rest).length (hexString n ++ colon :: rest) =
      some (false, n, colon :: rest) := by
  have hstop : Stops (hexString n ++ colon :: rest).length (hexDigits n) (colon :: rest) := by
    refine .inr ⟨?_, fun b hb => ?_⟩
    · rw [hexString, List.length_append, List.length_map]
      omega
    · cases hb
      decide
  have hscan := scanNumber_hexDigit (hexDigits_ne_nil n) (fun d => lt_of_mem_hexDigits) hstop
  rwa [ofDigits_hexDigits] at hscan

theorem scanHexes_hexArg (ns : List Int) (rest : Bytes) :
    scanHexes ns.length ((ns.flatMap fun n => colon :: hexArg n) ++ colon :: rest) =
      if ∀ n ∈ ns, 0 ≤ n then
        some (ns.map fun n => toUnsigned false n.toNat, colon :: rest)
      else none := by
  induction ns with
  | nil => rfl
  | cons n ns ih =>
    obtain ⟨tail, htail⟩ : ∃ tail, (ns.flatMap fun n => colon :: hexArg n) ++ colon :: rest =
        colon :: tail := by
      cases ns with
      | nil => exact ⟨rest, rfl⟩
      | cons n' ns => exact ⟨_, rfl⟩
    rw [List.flatMap_cons, List.append_assoc, List.cons_append, htail]
    cases n with
    | ofNat n =>
      have hall : (∀ m ∈ Int.ofNat n :: ns, 0 ≤ m) ↔ ∀ m ∈ ns, 0 ≤ m := by simp
      rw [htail] at ih
      show (scanNumber 16 (hexString n ++ colon :: tail).length (hexString n ++
        colon :: tail)).bind _ = _
      rw [scanNumber_hexString]
      show (scanHexes ns.length (colon :: tail)).bind _ = _
      rw [ih]
      by_cases hns : ∀ m ∈ ns, 0 ≤ m
      · rw [if_pos hns, if_pos (hall.mpr hns)]
        rfl
      · rw [if_neg hns, if_neg (fun h => hns (hall.mp h))]
        rfl
    | negSucc n =>
      rw [if_neg (fun h => absurd (h _ List.mem_cons_self) (by simp))]
      rfl

theorem scanInts_flagArg (b b' b'' : Bool) (rest : Bytes) :
    scanInts 3 (colon :: flagArg b :: colon :: flagArg b' :: colon :: flagArg b'' :: colon :: rest) =
      some ([b.toInt, b'.toInt, b''.toInt], colon :: rest) := by
  cases b <;> cases b' <;> cases b'' <;> rfl

theorem colon_not_mem_bytesHex (bs : Bytes) : colon ∉ bytesHex bs := by
  intro h
  obtain ⟨b, -, hb⟩ := List.mem_flatMap.mp h
  have hlt := b.toNat_lt
  have hne (d : Nat) (hd : d < 16) : colon ≠ hexDigit d := by
    revert hd
    revert d
    decide
  simp only [hexByte, List.mem_cons, List.not_mem_nil, or_false] at hb
  rcases hb with hb | hb
  · exact hne _ (by omega) hb
  · exact hne _ (by omega) hb

theorem length_bytesHex (bs : Bytes) : (bytesHex bs).length = 2 * bs.length := by
  induction bs with
  | nil => rfl
  | cons b bs ih =>
    rw [bytesHex, List.flatMap_cons, List.length_append, List.length_cons]
    rw [bytesHex] at ih
    simp only [hexByte, List.length_cons, List.length_nil, ih]
    omega

-- ---------------------------------------------------------------------------
-- The launcher
-- ---------------------------------------------------------------------------

/-- A name or a path that `split(":")` gives, and that is not empty. -/
def IsField (s : Bytes) : Prop := s ≠ [] ∧ colon ∉ s

theorem isField_pathArg (derivationPath : Bytes) : IsField (pathArg derivationPath) := by
  rw [pathArg]
  split
  · rename_i hlen
    refine ⟨fun hnil => ?_, colon_not_mem_bytesHex derivationPath⟩
    have hlength := length_bytesHex derivationPath
    rw [hnil, List.length_nil] at hlength
    omega
  · exact ⟨by decide, by decide⟩

section

variable {name libPath : Bytes} {ei : PyElfInfo} {loadNvram saveNvram useBagl : Bool}
  {files : Files} {array : Region} {apps apps' : List Opened} {args : List Bytes}

def PyElfInfo.toElfInfo (ei : PyElfInfo) (useBagl : Bool) : ElfInfo where
  loadOffset := toUnsigned false ei.textOffset.toNat
  loadSize := toUnsigned false ei.textSize.toNat
  stackAddr := toUnsigned false ei.stackAddr.toNat
  stackSize := toUnsigned false ei.stackSize.toNat
  svcCallAddr := toUnsigned false ei.svcCallAddr.toNat
  svcCxCallAddr := toUnsigned false ei.svcCxCallAddr.toNat
  textLoadAddr := toUnsigned false ei.textAddr.toNat
  fontsAddr := toUnsigned false ei.fontsAddr.toNat
  fontsSize := toUnsigned false ei.fontsSize.toNat
  appNvramAddr := toUnsigned false ei.appNvramAddr.toNat
  appNvramSize := toUnsigned false ei.appNvramSize.toNat
  useNbgl := (!useBagl).toInt

theorem scanFields_libArg (hname : IsField name) (hpath : IsField libPath) :
    scanFields (libArg name libPath ei loadNvram saveNvram useBagl) =
      if ∀ n ∈ ei.hexes, 0 ≤ n then
        some ⟨name, libPath, ei.toElfInfo useBagl, loadNvram, saveNvram, pathArg ei.derivationPath⟩
      else none := by
  have hlast := isField_pathArg ei.derivationPath
  show (scanUntil colon (name ++ colon :: _)).bind _ = _
  rw [scanUntil_append hname.1 hname.2]
  show (scanUntil colon (libPath ++ colon :: _)).bind _ = _
  rw [scanUntil_append hpath.1 hpath.2]
  show (scanHexes ei.hexes.length ((ei.hexes.flatMap fun n => colon :: hexArg n) ++
    colon :: _)).bind
    _ = _
  rw [scanHexes_hexArg]
  by_cases hall : ∀ n ∈ ei.hexes, 0 ≤ n
  · rw [if_pos hall, if_pos hall]
    show (scanInts 3 _).bind _ = _
    rw [scanInts_flagArg]
    show (scanUntil colon (pathArg ei.derivationPath)).bind _ = _
    rw [scanUntil_end hlast.1 hlast.2]
    cases loadNvram <;> cases saveNvram <;> rfl
  · rw [if_neg hall, if_neg hall]
    rfl

end

theorem scanPair_hexByte (b : UInt8) (rest : Bytes) : scanPair (hexByte b ++ rest) = some b := by
  have hb : b.toNat < 2 ^ 32 := Nat.lt_trans b.toNat_lt (by decide)
  have hvalue : toUnsigned false b.toNat = b.toUInt32 := by
    rw [toUnsigned, if_neg (by omega), if_neg (by decide)]
    exact UInt32.toNat_inj.mp (UInt32.toNat_ofNat_of_lt' hb)
  rw [scanPair, scanNumber_hexByte, Option.map_some]
  exact congrArg some ((congrArg UInt32.toUInt8 hvalue).trans b.toUInt8_toUInt32)

theorem convertPath_pair (h : scanPair (c :: c' :: s) = some b) :
    convertPath (c :: c' :: s) k r = convertPath s (k + 1) (r.store k b) := by
  rw [convertPath, h]

theorem convertPath_bytesHex (bs : Bytes) (k : Nat) (r : Region) :
    convertPath (bytesHex bs) k r = r.memcpy k bs bs.length := by
  induction bs generalizing k r with
  | nil => rfl
  | cons b bs ih =>
    have hpair : convertPath (bytesHex (b :: bs)) k r =
        convertPath (bytesHex bs) (k + 1) (r.store k b) :=
      convertPath_pair (scanPair_hexByte b (bytesHex bs))
    rw [hpair, ih, Region.memcpy_cons]

end Speculos.Launcher
