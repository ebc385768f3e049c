import Speculos.Lib.Traced
import Speculos.Seph.EventOrder

/-!
# Events in the buffer of the application

The events that `os_io_rx_evt` copies itself, with the bytes of `G_io_seph_buffer` that it reads.
An event that leaves no byte of the buffer free is cut; the status of a command APDU then
counts the header of the event off, and the one of another event is the length before the cut. The
bytes of a command APDU are read from behind the header, in the length of the whole event.
-/

namespace Speculos.Seph.OsIo

open Lib Io

/-- `memmove(&buffer[dst], &src[off], n)`, with the indices of `src` that are read. -/
def memmoveReads (buffer : Region) (dst : Nat) (src : Region) (off n : Nat) : Traced Nat Region :=
  ⟨buffer.memcpy dst (src.slice off n) n, List.range' off n⟩

/-- The branches of `os_io_rx_evt` that copy an event of `length` bytes. -/
def copyEvent (sephBuffer buffer : Region) (bufferMaxLength length : Nat) :
    Traced Nat (Region × Int) :=
  if IsCapdu (sephBuffer.cell 1) then do
    let buffer ← memmoveReads (buffer.store 0 0x10) 1 sephBuffer 4 (clipped length bufferMaxLength)
    return (buffer, (clipped length bufferMaxLength : Int) - 3)
  else do
    let buffer ← memmoveReads buffer 0 sephBuffer 0 (clipped length bufferMaxLength)
    return (buffer, (length : Int))

/-- The bytes that an event has for the application: a command APDU behind its type, without the
header of the event, or else all. -/
def meaningful (sephBuffer : Region) (length : Nat) : Bytes :=
  if IsCapdu (sephBuffer.cell 1) then 0x10 :: sephBuffer.slice 4 (length - 4)
  else sephBuffer.slice 0 length

/-- The event stays in the buffer of the application, and the status counts its bytes there. -/
structure HandsOver (sephBuffer buffer : Region) (bufferMaxLength length : Nat) : Prop where
  reads : (copyEvent sephBuffer buffer bufferMaxLength length).All (· < sephBufferLength)
  status : ∃ n, buffer.Stores (copyEvent sephBuffer buffer bufferMaxLength length).value.1 n
      bufferMaxLength ∧
    (copyEvent sephBuffer buffer bufferMaxLength length).value.2 =
      (min (meaningful sephBuffer length).length n : Nat)
  status_le : (copyEvent sephBuffer buffer bufferMaxLength length).value.2 ≤ bufferMaxLength
  apdu : IsCapdu (sephBuffer.cell 1) → (meaningful sephBuffer length).length ≤ bufferMaxLength →
    (copyEvent sephBuffer buffer bufferMaxLength length).value.2 =
        (meaningful sephBuffer length).length ∧
      (copyEvent sephBuffer buffer bufferMaxLength length).value.1.slice 0
        (meaningful sephBuffer length).length = meaningful sephBuffer length

theorem all_memmoveReads (buffer : Region) (dst : Nat) (src : Region) (off n size : Nat) :
    (memmoveReads buffer dst src off n).All (· < size) ↔ n = 0 ∨ off + n ≤ size := by
  simp only [memmoveReads, Traced.All, List.mem_range'_1]
  constructor
  · intro h
    rcases Nat.eq_zero_or_pos n with hzero | hpos
    · exact .inl hzero
    · have hlast := h (off + n - 1) (by omega)
      exact .inr (by omega)
  · rintro h i hi
    omega

/-- The length of a cut event; without a buffer it passes below zero. -/
theorem clipped_cases (hcut : bufferMaxLength ≤ length) (hbound : bufferMaxLength < 65536) :
    bufferMaxLength = 0 ∧ clipped length bufferMaxLength = 65535 ∨
      clipped length bufferMaxLength + 1 = bufferMaxLength := by
  rw [clipped, if_pos (by omega)]
  omega

theorem copyEvent_capdu (hcapdu : IsCapdu (sephBuffer.cell 1)) (buffer : Region)
    (bufferMaxLength length : Nat) :
    (copyEvent sephBuffer buffer bufferMaxLength length).value =
      (buffer.memcpy 0 (0x10 :: sephBuffer.slice 4 (clipped length bufferMaxLength))
        (clipped length bufferMaxLength + 1), (clipped length bufferMaxLength : Int) - 3) := by
  have hcons := buffer.memcpy_cons 0 0x10 (sephBuffer.slice 4 (clipped length bufferMaxLength))
  rw [List.length_cons, Region.length_slice] at hcons
  rw [copyEvent, if_pos hcapdu, ← hcons]
  rfl

theorem copyEvent_default (hcapdu : ¬ IsCapdu (sephBuffer.cell 1)) (buffer : Region)
    (bufferMaxLength length : Nat) :
    (copyEvent sephBuffer buffer bufferMaxLength length).value =
      (buffer.memcpy 0 (sephBuffer.slice 0 (clipped length bufferMaxLength))
        (clipped length bufferMaxLength), (length : Int)) := by
  rw [copyEvent, if_neg hcapdu]
  rfl

theorem handsOver_default_iff (hcapdu : ¬ IsCapdu (sephBuffer.cell 1)) (buffer : Region)
    (hbound : bufferMaxLength < 65536) (hlength : length ≤ sephBufferLength) :
    HandsOver sephBuffer buffer bufferMaxLength length ↔ length + 1 ≤ bufferMaxLength := by
  have hlen : (meaningful sephBuffer length).length = length := by
    rw [meaningful, if_neg hcapdu, Region.length_slice]
  constructor
  · intro h
    obtain ⟨n, hstores, hstatus⟩ := h.status
    rw [copyEvent_default hcapdu, Region.stores_memcpy_iff] at hstores
    rw [copyEvent_default hcapdu, hlen] at hstatus
    obtain ⟨rfl, hroom⟩ := hstores
    by_contra hcut
    have hcases := clipped_cases (Nat.le_of_lt_succ (Nat.not_le.mp hcut)) hbound
    omega
  · intro hroom
    have hlarge : sephBufferLength = 273 := rfl
    have hclipped := clipped_eq hroom (by omega)
    refine ⟨?_, ⟨length, ?_, ?_⟩, ?_, fun h => absurd h hcapdu⟩
    · rw [copyEvent, if_neg hcapdu, Traced.all_bind, all_memmoveReads, hclipped]
      exact ⟨.inr (by omega), (Traced.all_pure _).mpr trivial⟩
    · rw [copyEvent_default hcapdu, Region.stores_memcpy_iff, hclipped]
      exact ⟨rfl, .inr (by omega)⟩
    · rw [copyEvent_default hcapdu, hlen, Nat.min_self]
    · rw [copyEvent_default hcapdu]
      dsimp only
      omega

theorem handsOver_capdu_iff (hcapdu : IsCapdu (sephBuffer.cell 1)) (buffer : Region)
    (hbound : bufferMaxLength < 65536) (hheader : 4 ≤ length)
    (hlength : length ≤ sephBufferLength) :
    HandsOver sephBuffer buffer bufferMaxLength length ↔
      length + 1 ≤ bufferMaxLength ∧ length + 4 ≤ sephBufferLength := by
  have hlen : (meaningful sephBuffer length).length = length - 3 := by
    rw [meaningful, if_pos hcapdu, List.length_cons, Region.length_slice]
    omega
  have hlarge : sephBufferLength = 273 := rfl
  constructor
  · intro h
    obtain ⟨n, hstores, hstatus⟩ := h.status
    have hreads := h.reads
    rw [copyEvent, if_pos hcapdu, Traced.all_bind, all_memmoveReads] at hreads
    rw [copyEvent_capdu hcapdu, Region.stores_memcpy_iff] at hstores
    rw [copyEvent_capdu hcapdu, hlen] at hstatus
    obtain ⟨rfl, hroom⟩ := hstores
    by_cases hcut : length + 1 ≤ bufferMaxLength
    · rw [clipped_eq hcut (by omega)] at hreads
      omega
    · have hcases := clipped_cases (Nat.le_of_lt_succ (Nat.not_le.mp hcut)) hbound
      omega
  · rintro ⟨hroom, hend⟩
    have hclipped := clipped_eq hroom (by omega)
    refine ⟨?_, ⟨length + 1, ?_, ?_⟩, ?_, fun _ hfits => ⟨?_, ?_⟩⟩
    · rw [copyEvent, if_pos hcapdu, Traced.all_bind, all_memmoveReads, hclipped]
      exact ⟨.inr (by omega), (Traced.all_pure _).mpr trivial⟩
    · rw [copyEvent_capdu hcapdu, Region.stores_memcpy_iff, hclipped]
      exact ⟨rfl, .inr (by omega)⟩
    · rw [copyEvent_capdu hcapdu, hlen, hclipped]
      dsimp only
      omega
    · rw [copyEvent_capdu hcapdu, hclipped]
      dsimp only
      omega
    · rw [copyEvent_capdu hcapdu, hlen, hclipped]
      dsimp only
      omega
    · have hsource : (0x10 :: sephBuffer.slice 4 length).length = length + 1 := by
        rw [List.length_cons, Region.length_slice]
      rw [copyEvent_capdu hcapdu, hclipped, hlen]
      rw [← Region.take_slice _ 0 (length + 1) (length - 3) (by omega),
        Region.slice_memcpy_eq _ _ _ hsource, meaningful, if_pos hcapdu,
        show length - 3 = length - 4 + 1 by omega, List.take_succ_cons,
        Region.take_slice _ _ _ _ (by omega)]

theorem handsOver_iff (sephBuffer buffer : Region) (hbound : bufferMaxLength < 65536)
    (hheader : 4 ≤ length) (hlength : length ≤ sephBufferLength) :
    HandsOver sephBuffer buffer bufferMaxLength length ↔
      length + 1 ≤ bufferMaxLength ∧
        (IsCapdu (sephBuffer.cell 1) → length + 4 ≤ sephBufferLength) := by
  by_cases hcapdu : IsCapdu (sephBuffer.cell 1)
  · rw [handsOver_capdu_iff hcapdu buffer hbound hheader hlength]
    simp [hcapdu]
  · rw [handsOver_default_iff hcapdu buffer hbound hlength]
    simp [hcapdu]

section
variable (usbdLedgerRxSephEvt processItcEvent : St → Region → Nat → Option (St × Region × Int))

theorem osIoRxEvt_copyEvent {length : Nat}
    (hfetch : fetchEvent s answers = some (s', (length : Int)))
    (husb : ¬ IsUsb (s'.sephBuffer.cell 1)) (hitc : ¬ IsItc (s'.sephBuffer.cell 1))
    (buffer : Region) (bufferMaxLength : Nat) :
    osIoRxEvt usbdLedgerRxSephEvt processItcEvent s buffer bufferMaxLength answers =
      some (s', (copyEvent s'.sephBuffer buffer bufferMaxLength length).value) := by
  rw [osIoRxEvt, hfetch]
  dsimp only [Option.bind_eq_bind, Option.bind_some]
  rw [if_neg (by omega), handOver, if_neg husb, if_neg hitc, copyEvent]
  split
  · rfl
  · rfl

/-- An event that `os_io_rx_evt` copies itself is handed over as it should be exactly where it
leaves a byte of the buffer free and, for a command APDU, as many bytes of
`G_io_seph_buffer` as are read behind it. -/
theorem osIoRxEvt_handsOver_iff (s s' : St) (answers : EvtAnswers) (length : Nat)
    (hfetch : fetchEvent s answers = some (s', (length : Int))) (hheader : 4 ≤ length)
    (hlength : length ≤ sephBufferLength) (husb : ¬ IsUsb (s'.sephBuffer.cell 1))
    (hitc : ¬ IsItc (s'.sephBuffer.cell 1)) (buffer : Region) (bufferMaxLength : UInt16) :
    osIoRxEvt usbdLedgerRxSephEvt processItcEvent s buffer bufferMaxLength.toNat answers =
        some (s', (copyEvent s'.sephBuffer buffer bufferMaxLength.toNat length).value) ∧
      (HandsOver s'.sephBuffer buffer bufferMaxLength.toNat length ↔
        length + 1 ≤ bufferMaxLength.toNat ∧
          (IsCapdu (s'.sephBuffer.cell 1) → length + 4 ≤ sephBufferLength)) :=
  ⟨osIoRxEvt_copyEvent usbdLedgerRxSephEvt processItcEvent hfetch husb hitc buffer
    bufferMaxLength.toNat,
    handsOver_iff s'.sephBuffer buffer bufferMaxLength.toNat_lt hheader hlength⟩

end

/-- A command APDU of two bytes that is read after a general status, and a buffer of sixteen. -/
theorem osIoRxEvt_handsOver_capdu : ∃ s',
    fetchEvent (.initial [0x16, 0, 2, 0xB0, 0x01])
        ⟨[], [], ⟨[.moved 5], [], [], []⟩, [.moved 3], [.moved 2]⟩ = some (s', (6 : Int)) ∧
      HandsOver s'.sephBuffer .zeroed 16 6 := by
  obtain ⟨⟨s', status⟩, hfetch⟩ := Option.isSome_iff_exists.mp (show (fetchEvent
    (.initial [0x16, 0, 2, 0xB0, 0x01])
    ⟨[], [], ⟨[.moved 5], [], [], []⟩, [.moved 3], [.moved 2]⟩).isSome by decide)
  have hread : (fetchEvent (.initial [0x16, 0, 2, 0xB0, 0x01])
      ⟨[], [], ⟨[.moved 5], [], [], []⟩, [.moved 3], [.moved 2]⟩).map
        (fun r => (r.1.sephBuffer.cell 1, r.2)) = some (0x16, (6 : Int)) := by decide
  rw [hfetch, Option.map_some, Option.some.injEq, Prod.mk.injEq] at hread
  obtain ⟨htag, rfl⟩ := hread
  refine ⟨s', hfetch, (osIoRxEvt_handsOver_iff ignore ignore _ s' _ 6 hfetch (by decide) (by decide)
    ?_ ?_ .zeroed 16).2.mpr ⟨by decide, fun _ => by decide⟩⟩
  · rw [htag]
    decide
  · rw [htag]
    decide

/-- A ticker event and a buffer of three bytes: the status is four. -/
theorem not_handsOver_ticker :
    ¬ ∀ (s s' : St) (answers : EvtAnswers) (length : Nat),
      fetchEvent s answers = some (s', (length : Int)) → 4 ≤ length → length ≤ sephBufferLength →
      ¬ IsUsb (s'.sephBuffer.cell 1) → ¬ IsItc (s'.sephBuffer.cell 1) →
      ∀ (buffer : Region) (bufferMaxLength : UInt16),
        HandsOver s'.sephBuffer buffer bufferMaxLength.toNat length := by
  intro h
  obtain ⟨⟨s', status⟩, hfetch⟩ := Option.isSome_iff_exists.mp (show (fetchEvent
    (.initial [0x0E, 0, 0]) ⟨[], [], ⟨[.moved 5], [], [], []⟩, [.moved 3], []⟩).isSome by decide)
  have hread : (fetchEvent (.initial [0x0E, 0, 0])
      ⟨[], [], ⟨[.moved 5], [], [], []⟩, [.moved 3], []⟩).map
        (fun r => (r.1.sephBuffer.cell 1, r.2)) = some (0x0E, (4 : Int)) := by decide
  rw [hfetch, Option.map_some, Option.some.injEq, Prod.mk.injEq] at hread
  obtain ⟨htag, rfl⟩ := hread
  have hover := h _ s' _ 4 hfetch (by decide) (by decide) (by rw [htag]; decide)
    (by rw [htag]; decide) .zeroed 3
  have hroom := ((handsOver_iff s'.sephBuffer .zeroed (by decide) (by decide) (by decide)).mp
    hover).1
  exact absurd hroom (by decide)

end Speculos.Seph.OsIo
