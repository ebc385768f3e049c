import Speculos.Launcher.Launcher
import Speculos.Lib.Memory
import Speculos.Lib.Scanf

/-!
# The arguments of the launcher

An argument describes an application by fields between colons. The last field is the
derivation path in hexadecimal, which is converted into an array of 256 bytes; the
name of the NVRAM file is made of the name of the application in an array of 30 bytes.
-/

namespace Speculos.Launcher

open Lib

-- ---------------------------------------------------------------------------
-- Fields
-- ---------------------------------------------------------------------------

def colon : UInt8 := 0x3a

/-- `:0x%lx`, as many times as there are fields. -/
def scanHexes : Nat → Bytes → Option (List UInt32 × Bytes)
  | 0, s => some ([], s)
  | n + 1, s => do
    let s ← scanByte colon s
    let s ← scanByte 0x30 s
    let s ← scanByte 0x78 s
    let (minus, value, s) ← scanNumber 16 s.length s
    let (values, s) ← scanHexes n s
    return (toUnsigned minus value :: values, s)

/-- `:%d`, as many times as there are fields. -/
def scanInts : Nat → Bytes → Option (List Int × Bytes)
  | 0, s => some ([], s)
  | n + 1, s => do
    let s ← scanByte colon s
    let (minus, value, s) ← scanNumber 10 s.length s
    let (values, s) ← scanInts n s
    return (toSigned minus value :: values, s)

/-- `sscanf(derivation_path + i, "%2hhx", ..)` -/
def scanPair (s : Bytes) : Option UInt8 :=
  (scanNumber 16 2 s).map fun (minus, value, _) => (toUnsigned minus value).toUInt8

-- ---------------------------------------------------------------------------
-- parse_app_infos
-- ---------------------------------------------------------------------------

def derivationPathMaxLen : Nat := 256

def storageAppNameLen : Nat := 30

/-- The fields of an argument, the derivation path as it is written. -/
structure Fields where
  libname : Bytes
  filename : Bytes
  elf : ElfInfo
  loadNvram : Bool
  saveNvram : Bool
  derivationPath : Bytes
  deriving DecidableEq, Repr

/-- The 17 conversions of `parse_app_infos`. -/
def scanFields (arg : Bytes) : Option Fields := do
  let (libname, s) ← scanUntil colon arg
  let s ← scanByte colon s
  let (filename, s) ← scanUntil colon s
  let (hexes, s) ← scanHexes 11 s
  let (ints, s) ← scanInts 3 s
  let s ← scanByte colon s
  let (derivationPath, _) ← scanUntil colon s
  match hexes, ints with
  | [loadOffset, loadSize, stackAddr, stackSize, svcCallAddr, svcCxCallAddr, textLoadAddr,
      fontsAddr, fontsSize, appNvramAddr, appNvramSize], [loadNvram, saveNvram, useNbgl] =>
    some {
      libname, filename, derivationPath
      elf := {
        loadOffset, loadSize, stackAddr, stackSize, svcCallAddr, svcCxCallAddr, textLoadAddr
        fontsAddr, fontsSize, appNvramAddr, appNvramSize, useNbgl }
      loadNvram := loadNvram = 1
      saveNvram := saveNvram = 1 }
  | _, _ => none

/-- The loop that converts the derivation path, from the pair `k` on. -/
def convertPath : Bytes → Nat → Region → Region
  | [], _, r => r
  | [c], k, r =>
    match scanPair [c] with
    | some b => r.store k b
    | none => r
  | c :: c' :: s, k, r =>
    match scanPair (c :: c' :: s) with
    | some b => convertPath s (k + 1) (r.store k b)
    | none => convertPath s (k + 1) r

/-- What `parse_app_infos` returns and leaves in the array `derivation_path`. -/
structure AppInfos where
  fields : Fields
  derivationPath : Region
  derivationPathLen : Nat

/-- `parse_app_infos`, where `array` is what the array holds before. -/
def parseAppInfos (array : Region) (arg : Bytes) : Option AppInfos :=
  (scanFields arg).map fun fields =>
    let path := fields.derivationPath
    if path.length > 1 then ⟨fields, convertPath path 0 array, path.length / 2⟩
    else ⟨fields, array, 0⟩

-- ---------------------------------------------------------------------------
-- open_app
-- ---------------------------------------------------------------------------

/-- An array with a string, and the indices written so far. -/
structure CString where
  content : Bytes
  written : List Nat
  deriving DecidableEq, Repr

/-- `strncat`, which writes the end of the string too. -/
def CString.strncat (s : CString) (src : Bytes) (n : Nat) : CString :=
  let added := src.take n
  ⟨s.content ++ added, (List.range (added.length + 1)).map (s.content.length + ·) ++ s.written⟩

/-- "_nvram.bin" -/
def nvramBin : Bytes := [0x5f, 0x6e, 0x76, 0x72, 0x61, 0x6d, 0x2e, 0x62, 0x69, 0x6e]

/-- `apps[napp].nvram_file_name`. The length that is left is unsigned. -/
def nvramFileName (name : Bytes) : CString :=
  let len := UInt32.ofNat (storageAppNameLen - 1)
  let s := (CString.mk [] []).strncat name len.toNat
  s.strncat nvramBin (len - UInt32.ofNat name.length).toNat

/-- An application that is opened. -/
structure Opened where
  app : App
  nvramFileName : CString
  derivationPath : Region
  derivationPathLen : Nat

def maxApp : Nat := 64

/-- `open_app`, where `files` are the files that can be opened. -/
def openApp (files : Files) (apps : List Opened) (infos : AppInfos) : Option Opened := do
  let name := infos.fields.libname
  if apps.length ≥ maxApp ∨ name ∈ apps.map (·.app.name) then none
  else
    let file ← files infos.fields.filename
    let len := infos.derivationPathLen
    return {
      app := {
        name, file
        nvramFileName := (nvramFileName name).content
        loadNvram := infos.fields.loadNvram
        saveNvram := infos.fields.saveNvram
        elf := infos.fields.elf }
      nvramFileName := nvramFileName name
      derivationPath := Region.zeroed.memcpy 0 (infos.derivationPath.slice 0 len) len
      derivationPathLen := len }

/-- `load_apps`, where `array` is the array of the local `elf`. -/
def loadApps (files : Files) (array : Region) : List Bytes → List Opened → Option (List Opened)
  | [], apps => some apps
  | arg :: args, apps => do
    let infos ← parseAppInfos array arg
    let opened ← openApp files apps infos
    loadApps files infos.derivationPath args (apps ++ [opened])

/-- `get_app_derivation_path`: the path of the application, not of its libraries. -/
def getAppDerivationPath (apps : List Opened) : Option Bytes :=
  apps.head?.map fun opened => opened.derivationPath.slice 0 opened.derivationPathLen

end Speculos.Launcher
