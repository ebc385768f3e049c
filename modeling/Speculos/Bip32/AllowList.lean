import Mathlib.Data.List.Forall2
import Mathlib.Data.List.GetD
import Mathlib.Data.List.Infix
import Speculos.Lib.Octets

/-!
# The derivation paths of an application

An application is installed with a list of the paths it may derive: a mask of
curves, followed by entries. An entry starts with the number of its indices, or
of its bytes where bit 7 marks a SLIP-21 path. A path is requested with its
number of indices, in SLIP-21 with its number of bytes.
-/

namespace Speculos.Bip32

open Lib

/-- The curves of `cx_curve_e` that derivations tell apart. -/
inductive Curve
  | secp256k1
  | secp256r1
  | ed25519
  | bls12377g1
  | jubjub
  | other
  deriving DecidableEq, Repr

def hdwNormal : UInt32 := 0

def hdwEd25519Slip10 : UInt32 := 1

def hdwSlip21 : UInt32 := 2

def deriveAuth256k1 : UInt8 := 0x01

def deriveAuth256r1 : UInt8 := 0x02

def deriveAuthEd25519 : UInt8 := 0x04

def deriveAuthSlip21 : UInt8 := 0x08

def bip32WildcardValue : UInt32 := 0x7fffffff

/-- A path as it is requested: the memory at `path` and `pathLength`, which counts
bytes in SLIP-21 and indices of 32 bits otherwise. -/
structure Path (mode : UInt32) where
  bytes : Bytes
  length : Nat
  size_eq : bytes.length = (if mode = hdwSlip21 then 1 else 4) * length

/-- `path[i]` -/
def Path.index (path : Path mode) (i : Nat) : UInt32 :=
  UInt32.ofNat (fromLE ((path.bytes.drop (4 * i)).take 4))

def Path.indices (path : Path mode) : List UInt32 := (List.range path.length).map path.index

@[simp] theorem Path.length_indices (path : Path mode) : path.indices.length = path.length := by
  simp [Path.indices]

theorem Path.getElem_indices (path : Path mode) (i : Nat) (h : i < path.indices.length) :
    path.indices[i] = path.index i := by
  simp [Path.indices]

/-- `U4BE`. A byte behind the end of `buf` is unspecified in C. -/
def u4be (buf : Bytes) (off : Nat) : UInt32 := UInt32.ofNat (fromBE ((buf.drop off).take 4))

/-- `memcmp(a, &b[off], n) == 0` -/
def memEq (a b : Bytes) (off n : Nat) : Bool := a.take n == (b.drop off).take n

-- ---------------------------------------------------------------------------
-- Entries
-- ---------------------------------------------------------------------------

inductive Entry
  | bip32 (indices : List UInt32) (length_lt : indices.length < 128)
  | slip21 (octets : Bytes) (length_lt : octets.length < 128)

namespace Entry

def encode : Entry → Bytes
  | bip32 indices _ => UInt8.ofNat indices.length :: indices.flatMap fun i => toBE 4 i.toNat
  | slip21 octets _ => (0x80 ||| UInt8.ofNat octets.length) :: octets

/-- The number of indices or bytes. -/
def length : Entry → Nat
  | bip32 indices _ => indices.length
  | slip21 octets _ => octets.length

def isSlip21 : Entry → Bool
  | bip32 .. => false
  | slip21 .. => true

/-- An index of an entry and the one that is requested in its place. -/
def Admits (allowed requested : UInt32) : Prop :=
  allowed = bip32WildcardValue ∨ requested = allowed

instance (allowed requested : UInt32) : Decidable (Admits allowed requested) :=
  inferInstanceAs (Decidable (_ ∨ _))

/-- The entry is of the kind that is requested and is a prefix of the path. -/
def Allows (path : Path mode) : Entry → Prop
  | bip32 indices _ =>
    mode ≠ hdwSlip21 ∧ ∃ start, start <+: path.indices ∧ List.Forall₂ Admits indices start
  | slip21 octets _ => mode = hdwSlip21 ∧ octets <+: path.bytes

end Entry

def allowList (mask : UInt8) (entries : List Entry) : Bytes := mask :: entries.flatMap Entry.encode

theorem exists_prefix_forall₂_iff {R : α → β → Prop} {as : List α} {bs : List β} :
    (∃ start, start <+: bs ∧ List.Forall₂ R as start) ↔
      ∃ hle : as.length ≤ bs.length, ∀ i (h : i < as.length), R as[i] bs[i] := by
  constructor
  · rintro ⟨start, hstart, hforall⟩
    have hlen := hforall.length_eq
    refine ⟨hlen ▸ hstart.length_le, fun i h => ?_⟩
    have hget := List.forall₂_iff_get.mp hforall
    rw [← hstart.getElem (by omega)]
    exact hget.2 i h (by omega)
  · rintro ⟨hle, hall⟩
    refine ⟨bs.take as.length, List.take_prefix _ _, List.forall₂_iff_get.mpr ⟨by simp [hle], ?_⟩⟩
    intro i h h'
    simp only [List.get_eq_getElem, List.getElem_take]
    exact hall i h

-- ---------------------------------------------------------------------------
-- Reading an entry
-- ---------------------------------------------------------------------------

theorem length_header {n : Nat} (h : n < 128) :
    (UInt8.ofNat n &&& 0x80 != 0) = false ∧ (UInt8.ofNat n &&& 0x7F).toNat = n ∧
      ((0x80 ||| UInt8.ofNat n) &&& 0x80 != 0) = true ∧
      ((0x80 ||| UInt8.ofNat n) &&& 0x7F).toNat = n := by
  have hall : ∀ n < 128, (UInt8.ofNat n &&& 0x80 != 0) = false ∧
      (UInt8.ofNat n &&& 0x7F).toNat = n ∧ ((0x80 ||| UInt8.ofNat n) &&& 0x80 != 0) = true ∧
      ((0x80 ||| UInt8.ofNat n) &&& 0x7F).toNat = n := by decide
  exact hall n h

theorem Entry.encode_header (e : Entry) :
    ∃ byte rest, e.encode = byte :: rest ∧ (byte &&& 0x80 != 0) = e.isSlip21 ∧
      (byte &&& 0x7F).toNat = e.length ∧
      rest.length = (if e.isSlip21 then 1 else 4) * e.length := by
  cases e with
  | bip32 indices hlt =>
    obtain ⟨hmarker, hlength, -⟩ := length_header hlt
    refine ⟨_, _, rfl, hmarker, hlength, ?_⟩
    simp [Entry.isSlip21, Entry.length, Nat.mul_comm]
  | slip21 octets hlt =>
    obtain ⟨-, -, hmarker, hlength⟩ := length_header hlt
    refine ⟨_, _, rfl, hmarker, hlength, ?_⟩
    simp [Entry.isSlip21, Entry.length]

theorem Entry.length_encode (e : Entry) :
    e.encode.length = 1 + (if e.isSlip21 then 1 else 4) * e.length := by
  obtain ⟨byte, rest, hencode, -, -, hrest⟩ := e.encode_header
  rw [hencode, List.length_cons, hrest, Nat.add_comm]

theorem drop_flatMap_toBE (indices : List UInt32) (i : Nat) (h : i < indices.length) :
    ((indices.flatMap fun i => toBE 4 i.toNat).drop (4 * i)).take 4 = toBE 4 indices[i].toNat := by
  induction indices generalizing i with
  | nil => simp at h
  | cons index indices ih =>
    rw [List.flatMap_cons]
    cases i with
    | zero => exact List.take_left' (length_toBE 4 _)
    | succ i =>
      have hi : i < indices.length := by simpa using h
      rw [show 4 * (i + 1) = (toBE 4 index.toNat).length + 4 * i by rw [length_toBE]; omega,
        List.drop_length_add_append, List.getElem_cons_succ]
      exact ih i hi

/-- The entry stands at this offset of the list. -/
def EntryAt (derivePath : Bytes) (offset : Nat) (e : Entry) : Prop :=
  e.encode <+: derivePath.drop offset

theorem entryAt_cons (before : Bytes) (e : Entry) (entries : List Entry) :
    EntryAt (before ++ (e :: entries).flatMap Entry.encode) before.length e := by
  rw [EntryAt, List.drop_left' rfl, List.flatMap_cons]
  exact List.prefix_append _ _

namespace EntryAt

theorem header (h : EntryAt derivePath offset e) :
    (derivePath.getD offset 0 &&& 0x80 != 0) = e.isSlip21 ∧
      (derivePath.getD offset 0 &&& 0x7F).toNat = e.length := by
  obtain ⟨byte, rest, hencode, hmarker, hlength, -⟩ := e.encode_header
  obtain ⟨behind, hbehind⟩ := h
  have hbyte : derivePath.getD offset 0 = byte := by
    have hget := congrArg (·[0]?) hbehind
    simp only [hencode, List.cons_append, List.getElem?_cons_zero, List.getElem?_drop,
      Nat.add_zero] at hget
    rw [List.getD_eq_getElem?_getD, ← hget, Option.getD_some]
  rw [hbyte]
  exact ⟨hmarker, hlength⟩

theorem size_le (h : EntryAt derivePath offset e) :
    offset + (1 + (if e.isSlip21 then 1 else 4) * e.length) ≤ derivePath.length := by
  have hle := List.IsPrefix.length_le h
  rw [e.length_encode, List.length_drop] at hle
  omega

theorem drop_succ (h : EntryAt derivePath offset e) :
    ∃ behind, derivePath.drop (offset + 1) = e.encode.tail ++ behind := by
  obtain ⟨byte, rest, hencode, -⟩ := e.encode_header
  obtain ⟨behind, hbehind⟩ := h
  refine ⟨behind, ?_⟩
  rw [← List.drop_drop, ← hbehind, hencode]
  rfl

theorem u4be {hlt : indices.length < 128} (h : EntryAt derivePath offset (.bip32 indices hlt))
    (hi : i < indices.length) : u4be derivePath (offset + 1 + 4 * i) = indices[i] := by
  obtain ⟨behind, hbehind⟩ := h.drop_succ
  have hlen : (indices.flatMap fun i => toBE 4 i.toNat).length = 4 * indices.length := by
    simp [Nat.mul_comm]
  have htail : (Entry.bip32 indices hlt).encode.tail = indices.flatMap fun i => toBE 4 i.toNat :=
    rfl
  rw [Bip32.u4be, ← List.drop_drop, hbehind, htail, List.drop_append_of_le_length (by omega),
    List.take_append_of_le_length (by rw [List.length_drop]; omega), drop_flatMap_toBE _ _ hi,
    fromBE_toBE_of_lt indices[i].toNat_lt, UInt32.ofNat_toNat]

theorem memEq_iff {hlt : octets.length < 128} (h : EntryAt derivePath offset (.slip21 octets hlt))
    (path : Bytes) : memEq path derivePath (offset + 1) octets.length = true ↔ octets <+: path := by
  obtain ⟨behind, hbehind⟩ := h.drop_succ
  have htail : (Entry.slip21 octets hlt).encode.tail = octets := rfl
  rw [memEq, hbehind, htail, List.take_left' rfl, beq_iff_eq, List.prefix_iff_eq_take]
  exact eq_comm

end EntryAt

end Speculos.Bip32
