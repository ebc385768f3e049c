import Speculos.Lib.Lts
import Speculos.Lib.Tlv
import Speculos.Seph.Descriptor

/-!
# The legacy calls

`sys_io_seproxyhal_spi_send` and `sys_io_seproxyhal_spi_recv` of
`seproxyhal.c`. The state holds the globals of the file and both directions of
the descriptor: all bytes written to it and the bytes that are still to be read
from it. A call that does not return, because it blocks or ends the process,
is `none`. What `catch_touch_info_from_seph` keeps of a packet is left out.
-/

namespace Speculos.Seph.Seproxyhal

open Lib

structure St where
  txStatus : Bool
  rxLength : Nat
  lastTag : UInt8
  nextLength : Nat
  outgoing : Bytes
  incoming : Bytes
  deriving DecidableEq, Repr

def St.initial (incoming : Bytes) : St :=
  { txStatus := false, rxLength := 0, lastTag := 0, nextLength := 0, outgoing := [], incoming }

inductive Outcome
  | returned (ret : Int)
  | thrown -- `THROW(INVALID_PARAMETER)`
  deriving DecidableEq, Repr

def isStatus (tag : UInt8) : Bool := tag &&& 0xF0 == 0x60

/-- `next_length` counts down the bytes that were written, as a `size_t` of 32
bits; a status that is complete is to be answered. -/
def St.counted (s : St) (length : Nat) : St :=
  let nextLength := (s.nextLength + (2 ^ 32 - length)) % 2 ^ 32
  if nextLength = 0 ∧ isStatus s.lastTag then { s with nextLength, txStatus := true, rxLength := 0 }
  else { s with nextLength }

def spiWrite (s : St) (buffer : Bytes) (answers : List Answer) : Option (St × Outcome) := do
  let w ← writeall answers buffer s.outgoing
  return ({ s with outgoing := w.stream }.counted buffer.length, .returned w.ret)

def spiStart (s : St) (answers : List Answer) : Bytes → Option (St × Outcome)
  | tag :: hi :: lo :: rest =>
    if s.txStatus ∧ isStatus tag then some (s, .returned 0)
    else
      spiWrite { s with lastTag := tag, nextLength := fromBE [hi, lo] + 3 }
        (tag :: hi :: lo :: rest) answers
  | _ => some (s, .thrown)

/-- `sys_io_seproxyhal_spi_send` on a buffer and its length. -/
def spiSend (s : St) (buffer : Bytes) (answers : List Answer) : Option (St × Outcome) :=
  if buffer.length = 0 then some (s, .returned 0)
  else if s.nextLength = 0 then spiStart s answers buffer
  else if buffer.length > s.nextLength then some (s, .thrown)
  else spiWrite s buffer answers

/-- The part of a packet that is read into a buffer of `maxlength` bytes. -/
def packetSize (buffer : Region) (maxlength : Nat) : Nat :=
  min (fromBE [buffer.cell 1, buffer.cell 2]) (maxlength - 3)

/-- `sys_io_seproxyhal_spi_recv`, with what the kernel answers for the header and
for the body. It returns the buffer and a length. -/
def spiRecv (s : St) (buffer : Region) (maxlength : Nat) (header body : List Answer) :
    Option (St × Region × Nat) :=
  if s.rxLength ≠ 0 then some (s, buffer, s.rxLength)
  else if maxlength < 3 then none -- `errx`
  else do
    let r ← readall header s.incoming buffer 0 3
    if r.ret < 0 then none -- `_exit`
    else do
      let r' ← readall body r.stream r.buf 3 (packetSize r.buf maxlength)
      if r'.ret < 0 then none -- `_exit`
      else
        let rxLength := 3 + packetSize r.buf maxlength
        return ({ s with incoming := r'.stream, txStatus := false, rxLength }, r'.buf, rxLength)

inductive Call
  | send (buffer : Bytes) (answers : List Answer)
  | recv (buffer : Region) (maxlength : Nat) (header body : List Answer)

def step (s : St) : Call → Option St
  | .send buffer answers => (spiSend s buffer answers).map fun result => result.1
  | .recv buffer maxlength header body =>
    (spiRecv s buffer maxlength header body).map fun result => result.1

-- ---------------------------------------------------------------------------
-- What a call can do
-- ---------------------------------------------------------------------------

/-- A status that is sent although the last one was not answered. -/
def Dropped (s : St) (buffer : Bytes) : Prop :=
  s.nextLength = 0 ∧ 3 ≤ buffer.length ∧ s.txStatus ∧ ∃ tag ∈ buffer.head?, isStatus tag

/-- The state when a piece is written to the descriptor: a first piece has set
the tag and the length. -/
inductive Opened (s : St) : Bytes → St → Prop
  | first (hnext : s.nextLength = 0) (hstatus : ¬ (s.txStatus ∧ isStatus tag)) :
    Opened s (tag :: hi :: lo :: rest)
      { s with lastTag := tag, nextLength := fromBE [hi, lo] + 3 }
  | further (hnext : s.nextLength ≠ 0) (hle : buffer.length ≤ s.nextLength) : Opened s buffer s

theorem spiWrite_delivers (s : St) (h : Delivers buffer.length answers) :
    spiWrite s buffer answers =
      some ({ s with outgoing := s.outgoing ++ buffer }.counted buffer.length, .returned 0) := by
  rw [spiWrite, writeall, writeLoop_delivers s.outgoing h]
  rfl

theorem spiWrite_returned {outcome : Outcome} (h : spiWrite s buffer answers = some (s', outcome)) :
    outcome ≠ .thrown := by
  obtain ⟨w, -, hw⟩ := Option.bind_eq_some_iff.mp h
  cases hw
  exact fun hne => nomatch hne

theorem spiSend_cases {outcome : Outcome} (h : spiSend s buffer answers = some (s', outcome)) :
    s' = s ∨
      outcome ≠ .thrown ∧ ¬ Dropped s buffer ∧
        ∃ s₁, Opened s buffer s₁ ∧ spiWrite s₁ buffer answers = some (s', outcome) := by
  rw [spiSend] at h
  split at h
  · cases h
    exact .inl rfl
  · split at h
    · rename_i hnext
      rcases buffer with _ | ⟨tag, _ | ⟨hi, _ | ⟨lo, rest⟩⟩⟩
      · cases h
        exact .inl rfl
      · cases h
        exact .inl rfl
      · cases h
        exact .inl rfl
      · rw [spiStart] at h
        split at h
        · cases h
          exact .inl rfl
        · rename_i hstatus
          refine .inr ⟨spiWrite_returned h, ?_, _, .first hnext hstatus, h⟩
          rintro ⟨-, -, htx, tag', htag, htag'⟩
          cases htag
          exact hstatus ⟨htx, htag'⟩
    · split at h
      · cases h
        exact .inl rfl
      · rename_i hnext hle
        refine .inr ⟨spiWrite_returned h, ?_, _, .further hnext (Nat.le_of_not_lt hle), h⟩
        rintro ⟨hzero, -⟩
        exact hnext hzero

theorem spiRecv_cases (h : spiRecv s buffer maxlength header body = some (s', buffer', ret)) :
    s.rxLength ≠ 0 ∧ s' = s ∧ buffer' = buffer ∧ ret = s.rxLength ∨
      s.rxLength = 0 ∧ 3 ≤ maxlength ∧ ∃ r r', readall header s.incoming buffer 0 3 = some r ∧
        0 ≤ r.ret ∧ readall body r.stream r.buf 3 (packetSize r.buf maxlength) = some r' ∧
        0 ≤ r'.ret ∧ ret = 3 + packetSize r.buf maxlength ∧ buffer' = r'.buf ∧
        s' = { s with incoming := r'.stream, txStatus := false, rxLength := ret } := by
  rw [spiRecv] at h
  split at h
  · rename_i hlen
    cases h
    exact .inl ⟨hlen, rfl, rfl, rfl⟩
  · rename_i hlen
    split at h
    · cases h
    · rename_i hmax
      obtain ⟨r, hr, h⟩ := Option.bind_eq_some_iff.mp h
      split at h
      · cases h
      · rename_i hret
        obtain ⟨r', hr', h⟩ := Option.bind_eq_some_iff.mp h
        split at h
        · cases h
        · rename_i hret'
          cases h
          exact .inr ⟨not_not.mp hlen, Nat.le_of_not_lt hmax, r, r', hr, Int.not_lt.mp hret, hr',
            Int.not_lt.mp hret', rfl, rfl, rfl⟩

end Speculos.Seph.Seproxyhal
