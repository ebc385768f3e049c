import Speculos.Lib.Memory
import Speculos.Lib.Traced

/-!
# patch_svc

The scan for the two bytes of an svc instruction, with the addresses that it reads.
-/

namespace Speculos.Svc

open Lib

/-- The memory and `svc_addr`, the latest address first. -/
structure Patching where
  memory : AddressSpace
  svcAddr : List UInt32

/-- The bytes at an address, all of which are read. -/
def readBytes (m : AddressSpace) (a : UInt32) (n : Nat) : Traced UInt32 Bytes :=
  ⟨m.read a n, (List.range n).map fun i => a + UInt32.ofNat i⟩

/-- How far the first `\x01\xdf` is in the bytes that are left. -/
def firstSvc (m : AddressSpace) : Nat → UInt32 → Option Nat
  | n + 2, addr =>
    if m addr = 0x01 ∧ m (addr + 1) = 0xdf then some 0
      else (firstSvc m (n + 1) (addr + 1)).map (· + 1)
  | _, _ => none

/-- `memmem(addr, left, "\x01\xdf", 2)`, which may read all of its haystack. -/
def memmemSvc (m : AddressSpace) (addr : UInt32) (left : Nat) : Traced UInt32 (Option Nat) := do
  let _ ← readBytes m addr left
  return firstSvc m left addr

/-- The next instruction is neither CMP R1 nor BX LR. -/
def otherInstruction (apiLevel : Nat) (m : AddressSpace) (next : UInt32) : Traced UInt32 Bool :=
  if apiLevel ≥ 23 then do
    let bytes ← readBytes m (next + 2) 2
    if bytes ≠ [0x00, 0x29] then
      let bytes ← readBytes m (next + 2) 2
      return bytes ≠ [0x70, 0x47]
    else return false
  else return false

/-- The loop, with so many bytes left before `end`. There is no result where `svc_addr` cannot be
made larger, which ends the process; `realloc` tells which sizes can be had. -/
def patchLoop (apiLevel : Nat) (realloc : Nat → Bool) (addr : UInt32) (left : Nat) (s : Patching) :
    Traced UInt32 (Option Patching) :=
  if _hleft : left < 2 then return some s
  else do
    match ← memmemSvc s.memory addr left with
    | none => return some s
    | some k =>
      let next := addr + UInt32.ofNat k
      if next &&& 1 ≠ 0 then patchLoop apiLevel realloc (next + 1) (left - (k + 1)) s
      else if ← otherInstruction apiLevel s.memory next then
        patchLoop apiLevel realloc (next + 2) (left - (k + 2)) s
      else if realloc (4 * (s.svcAddr.length + 1)) then
        patchLoop apiLevel realloc (next + 2) (left - (k + 2))
          ⟨s.memory.memcpy next [0xff, 0xde], next :: s.svcAddr⟩
      else return none
termination_by left
decreasing_by all_goals omega

/-- `patch_svc`, with the number it returns. -/
def patchSvc (apiLevel : Nat) (realloc : Nat → Bool) (p size : UInt32) (s : Patching) :
    Traced UInt32 (Option (Int × Patching)) := do
  let r ← patchLoop apiLevel realloc p size.toNat s
  return r.map fun s => (if s.svcAddr = [] then -1 else 0, s)

end Speculos.Svc
