import Mathlib.Data.List.GetD
import Mathlib.Data.List.TakeDrop
import Speculos.Lib.Octets
import Mathlib.Data.List.Infix

/-!
# Packets with a tag and a length

A tag, the length of the value on one byte, and the value. In a buffer that
holds one at a position, the two bytes there are its tag and length and the
value stands behind them.

A packet is a tag, the length of the body on two bytes, most significant byte
first, and the body. A stream of packets is their concatenation. A sender that
writes packets in pieces leaves a stream of packets followed by the beginning
of one more (`Begins`), from its third byte on: these are the rules by which a
piece is appended to it.
-/

namespace Lib

structure ByteTlv where
  tag : UInt8
  value : Bytes
  length_lt : value.length < 256
  deriving DecidableEq

namespace ByteTlv

def encode (t : ByteTlv) : Bytes := t.tag :: UInt8.ofNat t.value.length :: t.value

@[simp] theorem length_encode (t : ByteTlv) : t.encode.length = 2 + t.value.length := by
  rw [encode, List.length_cons, List.length_cons]
  omega

def encodeAll (ts : List ByteTlv) : Bytes := ts.flatMap encode

@[simp] theorem encodeAll_cons (t : ByteTlv) (ts : List ByteTlv) :
    encodeAll (t :: ts) = t.encode ++ encodeAll ts := rfl

/-- The buffer holds `t` at the position `off`. -/
def At (buffer : Bytes) (off : Nat) (t : ByteTlv) : Prop := t.encode <+: buffer.drop off

namespace At

variable {buffer : Bytes} {off : Nat} {t : ByteTlv} (h : At buffer off t)
include h

theorem size_le : off + 2 + t.value.length ≤ buffer.length := by
  have hlen := h.length_le
  rw [length_encode, List.length_drop] at hlen
  omega

theorem tag : buffer.getD off 0 = t.tag := by
  obtain ⟨rest, hrest⟩ := h
  have hget : (buffer.drop off)[0]? = some t.tag := by
    rw [← hrest]
    rfl
  rw [List.getElem?_drop, Nat.add_zero] at hget
  rw [List.getD_eq_getElem?_getD, hget, Option.getD_some]

theorem length : (buffer.getD (off + 1) 0).toNat = t.value.length := by
  obtain ⟨rest, hrest⟩ := h
  have hget : (buffer.drop off)[1]? = some (UInt8.ofNat t.value.length) := by
    rw [← hrest]
    rfl
  rw [List.getElem?_drop] at hget
  rw [List.getD_eq_getElem?_getD, hget, Option.getD_some]
  exact UInt8.toNat_ofNat_of_lt' t.length_lt

theorem value : (buffer.drop (off + 2)).take t.value.length = t.value := by
  obtain ⟨rest, hrest⟩ := h
  rw [← List.drop_drop, ← hrest]
  exact List.take_left

end At

end ByteTlv

end Lib

-- ---------------------------------------------------------------------------
-- Packets with a tag and a length
-- ---------------------------------------------------------------------------

namespace Lib

structure Packet where
  tag : UInt8
  body : Bytes
  length_lt : body.length < 65536
  deriving DecidableEq

namespace Packet

def size (p : Packet) : Nat := p.body.length + 3

def encode (p : Packet) : Bytes := p.tag :: (be16 p.body.length ++ p.body)

@[simp] theorem length_encode (p : Packet) : p.encode.length = p.size := by
  rw [encode, List.length_cons, List.length_append, length_be16, size]
  omega

theorem size_lt (p : Packet) : p.size < 65539 := Nat.add_lt_add_right p.length_lt 3

def ofHeader (tag hi lo : UInt8) (body : Bytes) (h : body.length = fromBE [hi, lo]) : Packet :=
  ⟨tag, body, h ▸ fromBE_pair_lt hi lo⟩

theorem encode_ofHeader (tag hi lo : UInt8) (body : Bytes) (h : body.length = fromBE [hi, lo]) :
    (ofHeader tag hi lo body h).encode = tag :: hi :: lo :: body := by
  show tag :: (be16 body.length ++ body) = _
  rw [h, be16_fromBE]
  rfl

theorem exists_header (p : Packet) :
    ∃ hi lo, p.encode = p.tag :: hi :: lo :: p.body ∧ fromBE [hi, lo] = p.body.length :=
  ⟨_, _, rfl, fromBE_be16 _ p.length_lt⟩

end Packet

def encodeAll (ps : List Packet) : Bytes := ps.flatMap Packet.encode

@[simp] theorem encodeAll_nil : encodeAll [] = [] := rfl

@[simp] theorem encodeAll_cons (p : Packet) (ps : List Packet) :
    encodeAll (p :: ps) = p.encode ++ encodeAll ps := rfl

@[simp] theorem encodeAll_append (ps qs : List Packet) :
    encodeAll (ps ++ qs) = encodeAll ps ++ encodeAll qs := List.flatMap_append

theorem encodeAll_concat (ps : List Packet) (p : Packet) :
    encodeAll (ps ++ [p]) = encodeAll ps ++ p.encode := by
  simp

-- ---------------------------------------------------------------------------
-- The beginning of a packet
-- ---------------------------------------------------------------------------

/-- The bytes are the header of a packet of this tag and size and a part of its body. -/
def Begins (tag : UInt8) (size : Nat) (bytes : Bytes) : Prop :=
  3 ≤ bytes.length ∧ ∃ p : Packet, p.tag = tag ∧ p.size = size ∧ bytes <+: p.encode

namespace Begins

theorem length_le (h : Begins tag size bytes) : bytes.length ≤ size := by
  obtain ⟨-, p, -, rfl, hpre⟩ := h
  have hle := hpre.length_le
  rwa [Packet.length_encode] at hle

theorem first (tag hi lo : UInt8) (rest : Bytes) (h : rest.length ≤ fromBE [hi, lo]) :
    Begins tag (fromBE [hi, lo] + 3) (tag :: hi :: lo :: rest) := by
  have hbody : (rest ++ List.replicate (fromBE [hi, lo] - rest.length) 0).length =
      fromBE [hi, lo] := by
    rw [List.length_append, List.length_replicate]
    omega
  refine ⟨by simp, Packet.ofHeader tag hi lo _ hbody, rfl, congrArg (· + 3) hbody, ?_⟩
  rw [Packet.encode_ofHeader]
  exact ⟨_, rfl⟩

theorem append (h : Begins tag size bytes) (hle : bytes.length + piece.length ≤ size) :
    Begins tag size (bytes ++ piece) := by
  obtain ⟨h3, p, rfl, rfl, missing, hmissing⟩ := h
  obtain ⟨hi, lo, hencode, hbody⟩ := p.exists_header
  have hlen := congrArg List.length hmissing
  rw [List.length_append, Packet.length_encode, Packet.size] at hlen
  rw [Packet.size] at hle
  obtain ⟨b0, b1, b2, rest, rfl⟩ : ∃ b0 b1 b2 rest, bytes = b0 :: b1 :: b2 :: rest := by
    rcases bytes with _ | ⟨b0, _ | ⟨b1, _ | ⟨b2, rest⟩⟩⟩
    · simp at h3
    · simp at h3
    · simp at h3
    · exact ⟨b0, b1, b2, rest, rfl⟩
  simp only [hencode, List.cons_append, List.cons.injEq] at hmissing
  obtain ⟨rfl, rfl, rfl, -⟩ := hmissing
  simp only [List.length_cons] at hlen hle
  have hfirst := first p.tag b1 b2 (rest ++ piece) (by rw [List.length_append]; omega)
  rw [hbody] at hfirst
  exact hfirst

theorem complete (h : Begins tag size bytes) (hsize : bytes.length = size) :
    ∃ p : Packet, p.tag = tag ∧ p.size = size ∧ bytes = p.encode := by
  obtain ⟨-, p, htag, rfl, hpre⟩ := h
  exact ⟨p, htag, rfl, hpre.eq_of_length (by rw [hsize, Packet.length_encode])⟩

end Begins

end Lib
