import Speculos.Lib.Slices
import Speculos.Protocol.Ledger

/-!
# Reassembly, packet by packet

`rxStep` is what `LEDGER_PROTOCOL_rx` does to the receive half of a handle.
Its laws read `process_apdu_chunk` as three outcomes: the packet is rejected,
it extends a half-received command (`Pending`), or it completes it
(`Delivered`).
-/

namespace Speculos.Protocol

open Lib

namespace RxState

/-- `LEDGER_PROTOCOL_rx` on the receive half of the handle. -/
def rxStep (h : RxState) (buffer : Bytes) : RxState :=
  match buffer.take (buffer.length % 65536) with
  | _ :: _ :: tag :: chunk => if tag = tagApdu then h.processApduChunk chunk else h
  | _ => h

def rxSteps (h : RxState) (packets : List Bytes) : RxState := packets.foldl rxStep h

@[simp] theorem rxSteps_nil (h : RxState) : h.rxSteps [] = h := rfl

@[simp] theorem rxSteps_cons (h : RxState) (p : Bytes) (ps : List Bytes) :
    h.rxSteps (p :: ps) = (h.rxStep p).rxSteps ps := rfl

theorem rxSteps_append (h : RxState) (ps qs : List Bytes) :
    h.rxSteps (ps ++ qs) = (h.rxSteps ps).rxSteps qs := List.foldl_append

end RxState

namespace LedgerProtocol

theorem toRxState_rx (h : LedgerProtocol) (p : Bytes) :
    (h.rx p).toRxState = h.toRxState.rxStep p := by
  simp only [rx, RxState.rxStep]
  generalize p.take (p.length % 65536) = packet
  obtain _ | ⟨b₀, _ | ⟨b₁, _ | ⟨tag, chunk⟩⟩⟩ := packet
  · rfl
  · rfl
  · rfl
  · by_cases ht : tag = tagApdu
    · subst ht
      simp [tagApdu, tagGetProtocolVersion, tagAllocateChannel, tagPing]
    · simp only [ht, if_false]
      repeat' split
      all_goals rfl

theorem toRxState_rxAll (h : LedgerProtocol) (ps : List Bytes) :
    (h.rxAll ps).toRxState = h.toRxState.rxSteps ps := by
  induction ps generalizing h with
  | nil => rfl
  | cons p ps ih =>
    rw [RxState.rxSteps_cons, ← toRxState_rx, ← ih]
    rfl

end LedgerProtocol

namespace RxState

-- ---------------------------------------------------------------------------
-- Storing a chunk
-- ---------------------------------------------------------------------------

theorem storeChunk_pending (h : RxState) (data : Bytes)
    (hlt : h.rxApduOffset.toNat + data.length < h.rxApduLength.toNat) :
    h.storeChunk data = { h with
      rxApduBuffer := h.rxApduBuffer.memcpy (1 + h.rxApduOffset.toNat) data data.length
      rxApduOffset := h.rxApduOffset + UInt16.ofNat data.length
      rxApduSequenceNumber := h.rxApduSequenceNumber + 1
      rxApduStatus := .needMoreData } := by
  have hl := h.rxApduLength.toNat_lt
  have hd : (UInt16.ofNat data.length).toNat = data.length := by
    rw [UInt16.toNat_ofNat']
    omega
  have hne : h.rxApduOffset + UInt16.ofNat data.length ≠ h.rxApduLength := by
    intro he
    have := congrArg UInt16.toNat he
    rw [UInt16.toNat_add, hd] at this
    omega
  have hgt : ¬ h.rxApduOffset.toNat + data.length > h.rxApduLength.toNat := by omega
  simp only [storeChunk, if_neg hgt, if_neg hne, hd]

theorem storeChunk_complete (h : RxState) (data : Bytes)
    (hle : h.rxApduOffset.toNat ≤ h.rxApduLength.toNat)
    (hge : h.rxApduLength.toNat ≤ h.rxApduOffset.toNat + data.length) :
    h.storeChunk data = { h with
      rxApduBuffer := h.rxApduBuffer.memcpy (1 + h.rxApduOffset.toNat) data
        (h.rxApduLength.toNat - h.rxApduOffset.toNat)
      rxApduOffset := h.rxApduLength
      rxApduLength := h.rxApduLength + 1
      rxApduSequenceNumber := 0
      rxApduStatus := .complete } := by
  have hl := h.rxApduLength.toNat_lt
  have hsub : (h.rxApduLength - h.rxApduOffset).toNat =
      h.rxApduLength.toNat - h.rxApduOffset.toNat :=
    UInt16.toNat_sub_of_le _ _ (UInt16.le_iff_toNat_le.mpr hle)
  -- without the clamp the data ends exactly at the declared length
  have hlen : (if h.rxApduOffset.toNat + data.length > h.rxApduLength.toNat then
      h.rxApduLength - h.rxApduOffset else UInt16.ofNat data.length) =
      h.rxApduLength - h.rxApduOffset := by
    split
    · rfl
    · apply UInt16.toNat_inj.mp
      rw [hsub, UInt16.toNat_ofNat']
      omega
  have heq : h.rxApduOffset + (h.rxApduLength - h.rxApduOffset) = h.rxApduLength := by
    apply UInt16.toNat_inj.mp
    rw [UInt16.toNat_add, hsub]
    omega
  simp only [storeChunk, hlen, heq, hsub, if_true]

-- ---------------------------------------------------------------------------
-- What a chunk can do
-- ---------------------------------------------------------------------------

def opened (h : RxState) (total : Nat) : RxState :=
  { h with
    rxApduBuffer := h.rxApduBuffer.store 0 h.type
    rxApduStatus := .needMoreData
    rxApduLength := UInt16.ofNat total
    rxApduOffset := 0 }

/-- The outcomes of `process_apdu_chunk`, each with the chunks it accepts. -/
inductive Processed (h : RxState) : Bytes → RxState → Prop
  | rejected : Processed h chunk { h with rxApduStatus := .waiting }
  | oversized : h.rxApduSequenceNumber = 0 → fromBE [s0, s1] = 0 →
      h.rxApduBufferSize.toNat < fromBE [l0, l1] →
      Processed h (s0 :: s1 :: l0 :: l1 :: data) { h with
        rxApduBuffer := h.rxApduBuffer.store 0 h.type
        rxApduStatus := .waiting
        rxApduLength := h.rxApduBufferSize }
  | first : h.rxApduSequenceNumber = 0 → fromBE [s0, s1] = 0 →
      fromBE [l0, l1] ≤ h.rxApduBufferSize.toNat →
      Processed h (s0 :: s1 :: l0 :: l1 :: data) ((h.opened (fromBE [l0, l1])).storeChunk data)
  | next : h.rxApduSequenceNumber ≠ 0 → fromBE [s0, s1] = h.rxApduSequenceNumber.toNat →
      Processed h (s0 :: s1 :: data) (h.storeChunk data)

theorem declared_gt_iff (h : RxState) (l0 l1 : UInt8) :
    UInt16.ofNat (fromBE [l0, l1]) > h.rxApduBufferSize ↔
      h.rxApduBufferSize.toNat < fromBE [l0, l1] := by
  have := fromBE_pair_lt l0 l1
  rw [gt_iff_lt, UInt16.lt_iff_toNat_lt, UInt16.toNat_ofNat', Nat.mod_eq_of_lt this]

theorem processApduChunk_first (h : RxState) (l0 l1 : UInt8) (data : Bytes)
    (h0 : h.rxApduSequenceNumber = 0) (hs : fromBE [s0, s1] = 0) :
    h.processApduChunk (s0 :: s1 :: l0 :: l1 :: data) =
      if h.rxApduBufferSize.toNat < fromBE [l0, l1] then { h with
        rxApduBuffer := h.rxApduBuffer.store 0 h.type
        rxApduStatus := .waiting
        rxApduLength := h.rxApduBufferSize }
      else (h.opened (fromBE [l0, l1])).storeChunk data := by
  have hs : ¬ fromBE [s0, s1] ≠ h.rxApduSequenceNumber.toNat := by simp only [hs, h0]; decide
  rw [processApduChunk, if_neg hs, if_pos h0, firstChunk]
  simp only [declared_gt_iff]
  rfl

theorem processApduChunk_next (h : RxState) (data : Bytes) (h0 : h.rxApduSequenceNumber ≠ 0)
    (hs : fromBE [s0, s1] = h.rxApduSequenceNumber.toNat) :
    h.processApduChunk (s0 :: s1 :: data) = h.storeChunk data := by
  rw [processApduChunk, if_neg (not_not.mpr hs), if_neg h0]

theorem processed (h : RxState) (chunk : Bytes) : Processed h chunk (h.processApduChunk chunk) := by
  match chunk with
  | [] | [_] => exact .rejected
  | s0 :: s1 :: body =>
    by_cases hs : fromBE [s0, s1] = h.rxApduSequenceNumber.toNat
    · by_cases h0 : h.rxApduSequenceNumber = 0
      · have hs0 : fromBE [s0, s1] = 0 := by rw [hs, h0]; rfl
        match body with
        | [] | [_] =>
          rw [processApduChunk, if_neg (not_not.mpr hs), if_pos h0]
          exact .rejected
        | l0 :: l1 :: data =>
          rw [processApduChunk_first h l0 l1 data h0 hs0]
          split
          · rename_i hgt
            exact .oversized h0 hs0 hgt
          · rename_i hle
            exact .first h0 hs0 (Nat.le_of_not_lt hle)
      · rw [processApduChunk_next h body h0 hs]
        exact .next h0 hs
    · rw [processApduChunk, if_pos hs]
      exact .rejected

theorem rxStep_of_take (h : RxState) {p : Bytes}
    (hp : p.take (p.length % 65536) = c0 :: c1 :: tagApdu :: chunk) :
    h.rxStep p = h.processApduChunk chunk := by
  rw [rxStep, hp]
  exact if_pos rfl

theorem rxStep_cases (h : RxState) (p : Bytes) :
    ∃ h', h.rxStep p = h' ∧ (h' = h ∨ ∃ c0 c1 chunk,
      p.take (p.length % 65536) = c0 :: c1 :: tagApdu :: chunk ∧ Processed h chunk h') := by
  unfold rxStep
  split
  · rename_i c0 c1 tag chunk heq
    by_cases ht : tag = tagApdu
    · subst ht
      exact ⟨_, if_pos rfl, .inr ⟨c0, c1, chunk, heq, h.processed chunk⟩⟩
    · exact ⟨_, if_neg ht, .inl rfl⟩
  · exact ⟨_, rfl, .inl rfl⟩

@[simp] theorem storeChunk_type (h : RxState) (data : Bytes) :
    (h.storeChunk data).type = h.type := by
  simp only [storeChunk]
  split <;> split <;> rfl

@[simp] theorem storeChunk_size (h : RxState) (data : Bytes) :
    (h.storeChunk data).rxApduBufferSize = h.rxApduBufferSize := by
  simp only [storeChunk]
  split <;> split <;> rfl

theorem rxStep_type (h : RxState) (p : Bytes) : (h.rxStep p).type = h.type := by
  obtain ⟨h', he, rfl | ⟨_, _, _, _, hp⟩⟩ := h.rxStep_cases p
  · rw [he]
  · rw [he]
    cases hp <;> simp [opened]

theorem rxStep_size (h : RxState) (p : Bytes) :
    (h.rxStep p).rxApduBufferSize = h.rxApduBufferSize := by
  obtain ⟨h', he, rfl | ⟨_, _, _, _, hp⟩⟩ := h.rxStep_cases p
  · rw [he]
  · rw [he]
    cases hp <;> simp [opened]

theorem rxSteps_type (h : RxState) (ps : List Bytes) : (h.rxSteps ps).type = h.type := by
  induction ps generalizing h with
  | nil => rfl
  | cons p ps ih => rw [rxSteps_cons, ih, rxStep_type]

theorem rxSteps_size (h : RxState) (ps : List Bytes) :
    (h.rxSteps ps).rxApduBufferSize = h.rxApduBufferSize := by
  induction ps generalizing h with
  | nil => rfl
  | cons p ps ih => rw [rxSteps_cons, ih, rxStep_size]

end RxState

end Speculos.Protocol

/-!
## Where reassembly writes

A half-received command always fits its buffer as far as its declared length
goes, but the bytes are stored behind the type byte. `Overruns` names the
packets for which that one byte makes the difference; over a whole run, every
write stays in the buffer exactly when no packet is one of them.
-/

namespace Speculos.Protocol

open Lib

namespace RxState

/-- More bytes are expected, and the declared length fits the buffer. -/
structure HalfReceived (h : RxState) : Prop where
  short : h.rxApduOffset.toNat < h.rxApduLength.toNat
  fits : h.rxApduLength.toNat ≤ h.rxApduBufferSize.toNat
  typed : h.rxApduBuffer.cell 0 = h.type

/-- The invariant of reassembly. A rejected packet sets the status back but
leaves the sequence number, so either of them can tell of a command that is
half received. -/
def Sound (h : RxState) : Prop :=
  h.rxApduStatus = .needMoreData ∨ h.rxApduSequenceNumber ≠ 0 → h.HalfReceived

theorem opened_length (h : RxState) (l0 l1 : UInt8) :
    (h.opened (fromBE [l0, l1])).rxApduLength.toNat = fromBE [l0, l1] := by
  show (UInt16.ofNat _).toNat = _
  rw [UInt16.toNat_ofNat']
  exact Nat.mod_eq_of_lt (fromBE_pair_lt l0 l1)

theorem storeChunk_sound (h : RxState) (data : Bytes)
    (hle : h.rxApduOffset.toNat ≤ h.rxApduLength.toNat)
    (hfits : h.rxApduLength.toNat ≤ h.rxApduBufferSize.toNat)
    (htyped : h.rxApduBuffer.cell 0 = h.type) : (h.storeChunk data).Sound := by
  by_cases hlt : h.rxApduOffset.toNat + data.length < h.rxApduLength.toNat
  · rw [storeChunk_pending h data hlt]
    intro _
    have hl := h.rxApduLength.toNat_lt
    refine ⟨?_, hfits, ?_⟩
    · show (h.rxApduOffset + UInt16.ofNat data.length).toNat < h.rxApduLength.toNat
      rw [UInt16.toNat_add, UInt16.toNat_ofNat']
      omega
    · show (h.rxApduBuffer.memcpy (1 + h.rxApduOffset.toNat) data data.length).cell 0 = _
      rw [Region.cell_memcpy, if_neg (by omega)]
      exact htyped
  · rw [storeChunk_complete h data hle (Nat.le_of_not_lt hlt)]
    rintro (hst | hnum)
    · exact absurd hst (by simp)
    · exact absurd rfl hnum

theorem rxStep_sound (h : RxState) (p : Bytes) (hi : h.Sound) : (h.rxStep p).Sound := by
  obtain ⟨h', he, rfl | ⟨_, _, _, _, hp⟩⟩ := h.rxStep_cases p
  · rw [he]
    exact hi
  · rw [he]
    cases hp with
    | rejected =>
      rintro (hst | hnum)
      · exact absurd hst (by simp)
      · obtain ⟨h1, h2, h3⟩ := hi (.inr hnum)
        exact ⟨h1, h2, h3⟩
    | oversized h0 =>
      rintro (hst | hnum)
      · exact absurd hst (by simp)
      · exact absurd h0 hnum
    | @first s0 s1 l0 l1 data h0 _ hle =>
      have hlen := h.opened_length l0 l1
      apply storeChunk_sound
      · exact Nat.zero_le _
      · rw [hlen]
        exact hle
      · rfl
    | next h0 =>
      obtain ⟨h1, h2, h3⟩ := hi (.inr h0)
      exact storeChunk_sound h _ (Nat.le_of_lt h1) h2 h3

theorem rxSteps_sound (h : RxState) (ps : List Bytes) (hi : h.Sound) : (h.rxSteps ps).Sound := by
  induction ps generalizing h with
  | nil => exact hi
  | cons p ps ih => exact ih (h.rxStep p) (h.rxStep_sound p hi)

-- ---------------------------------------------------------------------------
-- Overruns
-- ---------------------------------------------------------------------------

/-- The packet is accepted and its bytes do not fit: there is no room for the
type byte at all, or the packet ends a command whose declared length is the
size of the buffer. -/
inductive Overruns (h : RxState) (packet : Bytes) : Prop
  | noRoom : packet.take (packet.length % 65536) =
        c0 :: c1 :: tagApdu :: s0 :: s1 :: l0 :: l1 :: data →
      fromBE [s0, s1] = 0 → h.rxApduSequenceNumber = 0 →
      h.rxApduBufferSize.toNat = 0 → Overruns h packet
  | first : packet.take (packet.length % 65536) =
        c0 :: c1 :: tagApdu :: s0 :: s1 :: l0 :: l1 :: data →
      fromBE [s0, s1] = 0 → h.rxApduSequenceNumber = 0 →
      fromBE [l0, l1] = h.rxApduBufferSize.toNat → h.rxApduBufferSize.toNat ≤ data.length →
      Overruns h packet
  | next : packet.take (packet.length % 65536) = c0 :: c1 :: tagApdu :: s0 :: s1 :: data →
      fromBE [s0, s1] = h.rxApduSequenceNumber.toNat → h.rxApduSequenceNumber ≠ 0 →
      h.rxApduLength.toNat = h.rxApduBufferSize.toNat →
      h.rxApduBufferSize.toNat ≤ h.rxApduOffset.toNat + data.length → Overruns h packet

theorem storeChunk_inBounds_iff (h : RxState) (data : Bytes)
    (hle : h.rxApduOffset.toNat ≤ h.rxApduLength.toNat)
    (hfits : h.rxApduLength.toNat ≤ h.rxApduBufferSize.toNat)
    (hroom : h.rxApduOffset.toNat < h.rxApduLength.toNat ∨
      h.rxApduLength.toNat < h.rxApduBufferSize.toNat) :
    (h.storeChunk data).rxApduBuffer.InBounds h.rxApduBufferSize.toNat ↔
      ¬ (h.rxApduLength.toNat = h.rxApduBufferSize.toNat ∧
        h.rxApduBufferSize.toNat ≤ h.rxApduOffset.toNat + data.length) ∧
      h.rxApduBuffer.InBounds h.rxApduBufferSize.toNat := by
  by_cases hlt : h.rxApduOffset.toNat + data.length < h.rxApduLength.toNat
  · rw [storeChunk_pending h data hlt, Region.inBounds_memcpy]
    apply and_congr_left
    intro _
    omega
  · rw [storeChunk_complete h data hle (Nat.le_of_not_lt hlt), Region.inBounds_memcpy]
    apply and_congr_left
    intro _
    omega

theorem rxStep_inBounds_of_not_overruns (h : RxState) (p : Bytes) (hi : h.Sound)
    (hb : h.rxApduBuffer.InBounds h.rxApduBufferSize.toNat) (ho : ¬ h.Overruns p) :
    (h.rxStep p).rxApduBuffer.InBounds h.rxApduBufferSize.toNat := by
  obtain ⟨h', he, rfl | ⟨c0, c1, _, htake, hp⟩⟩ := h.rxStep_cases p
  · rw [he]
    exact hb
  · rw [he]
    cases hp with
    | rejected => exact hb
    | oversized h0 hs0 =>
      refine (Region.inBounds_store _ _ _ _).mpr ⟨Nat.pos_of_ne_zero ?_, hb⟩
      exact fun hsize => ho (.noRoom htake hs0 h0 hsize)
    | @first s0 s1 l0 l1 data h0 hs0 hle =>
      have hlen := h.opened_length l0 l1
      have hsize : h.rxApduBufferSize.toNat ≠ 0 := fun hsize => ho (.noRoom htake hs0 h0 hsize)
      refine (storeChunk_inBounds_iff _ _ (Nat.zero_le _) ?_ ?_).mpr ⟨?_, ?_⟩
      · rw [hlen]
        exact hle
      · rw [hlen]
        show 0 < _ ∨ _ < h.rxApduBufferSize.toNat
        omega
      · rw [hlen]
        rintro ⟨hfull, hdata⟩
        exact ho (.first htake hs0 h0 hfull (by simpa [opened] using hdata))
      · exact (Region.inBounds_store _ _ _ _).mpr ⟨Nat.pos_of_ne_zero hsize, hb⟩
    | next h0 hs =>
      obtain ⟨hshort, hfits, -⟩ := hi (.inr h0)
      refine (storeChunk_inBounds_iff h _ (Nat.le_of_lt hshort) hfits (.inl hshort)).mpr ⟨?_, hb⟩
      rintro ⟨hfull, hdata⟩
      exact ho (.next htake hs h0 hfull hdata)

theorem inBounds_of_storeChunk (h : RxState) (data : Bytes) (size : Nat)
    (hb : (h.storeChunk data).rxApduBuffer.InBounds size) : h.rxApduBuffer.InBounds size := by
  simp only [storeChunk] at hb
  split at hb <;> split at hb <;> exact ((Region.inBounds_memcpy ..).mp hb).2

theorem not_inBounds_of_overruns (h : RxState) (p : Bytes) (hi : h.Sound) (ho : h.Overruns p) :
    ¬ (h.rxStep p).rxApduBuffer.InBounds h.rxApduBufferSize.toNat := by
  cases ho with
  | @noRoom c0 c1 s0 s1 l0 l1 data htake hs0 h0 hsize =>
    rw [rxStep_of_take h htake, processApduChunk_first h l0 l1 data h0 hs0, hsize]
    intro hb
    have hz : (h.rxApduBuffer.store 0 h.type).InBounds 0 := by
      split at hb
      · exact hb
      · exact inBounds_of_storeChunk _ _ _ hb
    exact absurd ((Region.inBounds_store ..).mp hz).1 (by simp)
  | @first c0 c1 s0 s1 l0 l1 data htake hs0 h0 hfull hdata =>
    have hlen := h.opened_length l0 l1
    rw [rxStep_of_take h htake, processApduChunk_first h l0 l1 data h0 hs0, if_neg (by omega)]
    intro hb
    have hz := ((Region.inBounds_store ..).mp (inBounds_of_storeChunk _ _ _ hb)).1
    have hroom : (h.opened (fromBE [l0, l1])).rxApduOffset.toNat <
        (h.opened (fromBE [l0, l1])).rxApduLength.toNat := by
      rw [hlen, hfull]
      exact hz
    refine ((storeChunk_inBounds_iff _ _ (Nat.zero_le _) ?_ (.inl hroom)).mp hb).1 ⟨?_, ?_⟩
    · rw [hlen, hfull]
      rfl
    · rw [hlen, hfull]
      rfl
    · show h.rxApduBufferSize.toNat ≤ 0 + data.length
      omega
  | @next c0 c1 s0 s1 data htake hs h0 hfull hdata =>
    obtain ⟨hshort, hfits, -⟩ := hi (.inr h0)
    rw [rxStep_of_take h htake, processApduChunk_next h data h0 hs,
      storeChunk_inBounds_iff h data (Nat.le_of_lt hshort) hfits (.inl hshort)]
    exact fun hb => hb.1 ⟨hfull, hdata⟩

end RxState

-- ---------------------------------------------------------------------------
-- Whole runs
-- ---------------------------------------------------------------------------

namespace LedgerProtocol

/-- All writes so far went into the buffer, and while more data is expected
the offset and the declared length are within it. -/
def StaysInBounds (h : LedgerProtocol) : Prop :=
  h.rxApduBuffer.InBounds h.rxApduBufferSize.toNat ∧
    (h.rxApduStatus = .needMoreData →
      h.rxApduOffset ≤ h.rxApduLength ∧ h.rxApduLength ≤ h.rxApduBufferSize)

theorem init_sound (h : LedgerProtocol) (type : UInt8) : (h.init type).Sound := by
  rintro (hst | hnum)
  · exact absurd hst (by simp [init])
  · exact absurd rfl hnum

theorem rxAll_sound (h : LedgerProtocol) (type : UInt8) (ps : List Bytes) :
    ((h.init type).rxAll ps).Sound := by
  rw [toRxState_rxAll]
  exact RxState.rxSteps_sound _ ps (init_sound h type)

theorem rxAll_concat (h : LedgerProtocol) (ps : List Bytes) (p : Bytes) :
    h.rxAll (ps ++ [p]) = (h.rxAll ps).rx p := by
  simp [rxAll]

theorem rxAll_size (h : LedgerProtocol) (ps : List Bytes) :
    (h.rxAll ps).rxApduBufferSize = h.rxApduBufferSize := by
  rw [toRxState_rxAll, RxState.rxSteps_size]

theorem rx_staysInBounds (h : LedgerProtocol) (p : Bytes) (hi : h.Sound) (hb : h.StaysInBounds)
    (ho : ¬ h.Overruns p) : (h.rx p).StaysInBounds := by
  have hrx := h.toRxState_rx p
  refine ⟨?_, fun hst => ?_⟩
  · rw [hrx, RxState.rxStep_size]
    exact h.rxStep_inBounds_of_not_overruns p hi hb.1 ho
  · have hs : (h.rx p).Sound := hrx ▸ h.rxStep_sound p hi
    obtain ⟨hshort, hfits, -⟩ := hs (.inl hst)
    exact ⟨UInt16.le_iff_toNat_le.mpr (Nat.le_of_lt hshort), UInt16.le_iff_toNat_le.mpr hfits⟩

/-- Over every run from an initialised handle, reassembly stays in its buffer
exactly as long as no packet ends a command declared as long as the buffer. -/
theorem rxAll_staysInBounds_iff (h : LedgerProtocol) (type : UInt8) (packets : List Bytes)
    (hfresh : h.rxApduBuffer.written = []) :
    (∀ k ≤ packets.length, ((h.init type).rxAll (packets.take k)).StaysInBounds) ↔
      ∀ k (hk : k < packets.length),
        ¬ ((h.init type).rxAll (packets.take k)).Overruns packets[k] := by
  constructor
  · intro hb k hk ho
    have hnext := (hb (k + 1) hk).1
    rw [← List.take_append_getElem hk, rxAll_concat, toRxState_rx,
      RxState.rxStep_size] at hnext
    exact RxState.not_inBounds_of_overruns _ _ (rxAll_sound h type _) ho hnext
  · intro ho k
    induction k with
    | zero =>
      intro _
      refine ⟨?_, fun hst => absurd hst (by simp [rxAll, init])⟩
      intro i hi
      change i ∈ h.rxApduBuffer.written at hi
      rw [hfresh] at hi
      cases hi
    | succ k ih =>
      intro hk
      rw [← List.take_append_getElem hk, rxAll_concat]
      exact rx_staysInBounds _ _ (rxAll_sound h type _) (ih (Nat.le_of_lt hk)) (ho k hk)

theorem rxAll_staysInBounds_iff_hid :
    (∀ k ≤ 1, (usbdLedgerHidInit.rxAll ([frame 0x0101 2 0 [0x90, 0x00]].take k)).StaysInBounds) ↔
      ∀ k (hk : k < 1), ¬ (usbdLedgerHidInit.rxAll ([frame 0x0101 2 0 [0x90,
        0x00]].take k)).Overruns
        [frame 0x0101 2 0 [0x90, 0x00]][k] :=
  rxAll_staysInBounds_iff usbdLedgerHidInit osIoPacketTypeUsbHidApdu
    [frame 0x0101 2 0 [0x90, 0x00]] rfl

/-- A command of 273 bytes, the size of `USBD_LEDGER_io_buffer`. -/
def fullCommand : List Bytes :=
  frames 0x0101 273 0 (List.replicate 47 0 :: List.replicate 5 (List.replicate 49 0))

theorem fullCommand_not_staysInBounds : ¬ (usbdLedgerHidInit.rxAll fullCommand).StaysInBounds := by
  intro hb
  have hlast : 273 ∈ (usbdLedgerHidInit.rxAll fullCommand).rxApduBuffer.written := by
    decide
  exact absurd (hb.1 273 hlast) (by decide)

end LedgerProtocol

end Speculos.Protocol
