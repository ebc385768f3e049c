import Speculos.Protocol.TxLaws

/-!
# Handles that send the same chunks

What `LEDGER_PROTOCOL_tx` will put out depends on the channel and on what is left
of the response only. `Alike` is this relation between two handles set up for
an endpoint of 64 bytes, `Drains` the list of the chunks still to come, and
`Whole` the list of all chunks of a response.
-/

namespace Speculos.Protocol.TxState

open Lib

/-- A handle set up for the endpoint, with the channel filled in. -/
structure Attached (channel : Bytes) (h : TxState) : Prop where
  mtu : h.mtu = 64
  chunkSize : h.txChunkBufferSize = 64
  channel : h.txChunkBuffer.slice 0 2 = channel

/-- The same is left of a response on both handles. -/
structure SamePending (h g : TxState) : Prop where
  length : h.txApduLength = g.txApduLength
  number : h.txApduSequenceNumber = g.txApduSequenceNumber
  offset : h.txApduOffset = g.txApduOffset
  rest : h.txApduBuffer.map (·.drop h.txApduOffset.toNat) =
    g.txApduBuffer.map (·.drop g.txApduOffset.toNat)

/-- Handles of which the same chunks will come. -/
structure Alike (channel : Bytes) (h g : TxState) : Prop where
  left : h.Attached channel
  right : g.Attached channel
  pending : h.txApduBuffer = none ∧ g.txApduBuffer = none ∨ h.SamePending g

variable {h g : TxState} {channel : Bytes}

theorem Attached.toNat_mtu (hh : h.Attached channel) : h.mtu.toNat = 64 := by
  rw [hh.mtu]
  rfl

theorem SamePending.dataOffset_eq (hp : h.SamePending g) : h.dataOffset = g.dataOffset := by
  rw [dataOffset, dataOffset, hp.number]

theorem SamePending.slice_packed (hp : h.SamePending g) (hh : h.Attached channel)
    (hg : g.Attached channel) (rest : Bytes) (n : Nat) :
    (h.packed rest n).slice 0 64 = (g.packed rest n).slice 0 64 := by
  rw [packed, packed, hp.length, hp.number, hh.chunkSize, hg.chunkSize]
  refine Region.slice_memcpy_congr ?_ 2 _ _
  show (h.txChunkBuffer.memset 2 0 (64 - 2)).slice 0 64 =
    (g.txChunkBuffer.memset 2 0 (64 - 2)).slice 0 64
  rw [Region.slice_memset_tail _ _ _ (by omega), Region.slice_memset_tail _ _ _ (by omega),
    hh.channel, hg.channel]

theorem tx_none_cases (hbuf : h.txApduBuffer = some data) (hh : h.Attached channel) :
    (h.tx none 0).Attached channel ∧ 2 ≤ (h.tx none 0).txChunkLength := by
  have hoff := h.dataOffset_bounds
  have hmtu := hh.toNat_mtu
  rw [tx_none h hbuf]
  dsimp only
  split
  · rename_i hmore
    refine ⟨⟨hh.mtu, hh.chunkSize, ?_⟩, ?_⟩
    · rw [← hh.channel]
      exact slice_packed_channel ..
    · show 2 ≤ UInt8.ofNat h.mtu.toNat
      rw [hmtu]
      decide
  · rename_i hlast
    refine ⟨⟨hh.mtu, hh.chunkSize, ?_⟩, ?_⟩
    · rw [← hh.channel]
      exact slice_packed_channel ..
    · show 2 ≤ UInt8.ofNat _
      rw [UInt8.le_iff_toNat_le, UInt8.toNat_ofNat', Nat.mod_eq_of_lt (by omega)]
      show 2 ≤ _
      omega

theorem SamePending.exists_rest (hp : h.SamePending g) (hbuf : h.txApduBuffer = some data) :
    ∃ data', g.txApduBuffer = some data' ∧
      data.drop h.txApduOffset.toNat = data'.drop h.txApduOffset.toNat := by
  have hrest := hp.rest
  rw [hbuf, ← hp.offset] at hrest
  obtain ⟨data', hbuf', hdrop⟩ := Option.map_eq_some_iff.mp hrest.symm
  exact ⟨data', hbuf', hdrop.symm⟩

theorem SamePending.tx_none (hp : h.SamePending g) (hh : h.Attached channel)
    (hg : g.Attached channel) (hbuf : h.txApduBuffer = some data) :
    ((h.tx none 0).txApduBuffer = none ∧ (g.tx none 0).txApduBuffer = none ∨
        (h.tx none 0).SamePending (g.tx none 0)) ∧
      (h.tx none 0).paddedPacket 64 = (g.tx none 0).paddedPacket 64 := by
  obtain ⟨data', hbuf', hrest⟩ := hp.exists_rest hbuf
  have hmtu := hh.toNat_mtu
  have hoff := h.dataOffset_bounds
  have hlt := h.txApduLength.toNat_lt
  rw [TxState.tx_none h hbuf, TxState.tx_none g hbuf']
  dsimp only
  rw [← hp.offset, ← hp.length, ← hp.dataOffset_eq, hg.mtu, ← hh.mtu, ← hrest]
  by_cases hmore : h.txApduLength.toNat + h.dataOffset > h.mtu.toNat + h.txApduOffset.toNat
  · have hnext : (h.txApduOffset + UInt16.ofNat (h.mtu.toNat - h.dataOffset)).toNat =
        h.txApduOffset.toNat + (h.mtu.toNat - h.dataOffset) := by
      rw [UInt16.toNat_add, UInt16.toNat_ofNat']
      omega
    rw [if_pos hmore, if_pos hmore]
    refine ⟨.inr ⟨rfl, congrArg (· + 1) hp.number, rfl, ?_⟩, hp.slice_packed hh hg _ _⟩
    dsimp only
    rw [hbuf, hbuf', Option.map_some, Option.map_some, hnext, ← List.drop_drop, hrest,
      List.drop_drop]
  · rw [if_neg hmore, if_neg hmore]
    exact ⟨.inl ⟨rfl, rfl⟩, hp.slice_packed hh hg _ _⟩

theorem Alike.tx_none (ha : Alike channel h g) (hbuf : h.txApduBuffer = some data) :
    Alike channel (h.tx none 0) (g.tx none 0) ∧
      (h.tx none 0).paddedPacket 64 = (g.tx none 0).paddedPacket 64 := by
  obtain ⟨hh, hg, hnone | hp⟩ := ha
  · rw [hbuf] at hnone
    cases hnone.1
  · obtain ⟨data', hbuf', -⟩ := hp.exists_rest hbuf
    obtain ⟨hsame, hchunk⟩ := hp.tx_none hh hg hbuf
    exact ⟨⟨(tx_none_cases hbuf hh).1, (tx_none_cases hbuf' hg).1, hsame⟩, hchunk⟩

theorem Attached.tx_some (hh : h.Attached channel) (hg : g.Attached channel) (data : Bytes)
    (length : UInt16) :
    Alike channel (h.tx (some data) length) (g.tx (some data) length) ∧
      (h.tx (some data) length).paddedPacket 64 = (g.tx (some data) length).paddedPacket 64 := by
  rw [TxState.tx_some h, TxState.tx_some g]
  refine Alike.tx_none ⟨?_, ?_, .inr ⟨rfl, rfl, rfl, rfl⟩⟩ (rfl : _ = Option.some data)
  · exact ⟨hh.mtu, hh.chunkSize, hh.channel⟩
  · exact ⟨hg.mtu, hg.chunkSize, hg.channel⟩

theorem Attached.tx_some_attached (hh : h.Attached channel) (data : Bytes) (length : UInt16) :
    (h.tx (some data) length).Attached channel ∧ 2 ≤ (h.tx (some data) length).txChunkLength := by
  rw [TxState.tx_some]
  exact tx_none_cases (rfl : _ = Option.some data) ⟨hh.mtu, hh.chunkSize, hh.channel⟩

theorem Attached.tx_some_short (hh : h.Attached channel) (data : Bytes)
    (hshort : length.toNat ≤ 57) : (h.tx (some data) length).txApduBuffer = none := by
  have hmtu := hh.toNat_mtu
  rw [TxState.tx_some, TxState.tx_none _ rfl]
  dsimp only
  rw [if_neg]
  show ¬ length.toNat + 7 > h.mtu.toNat + 0
  omega

theorem Attached.tx_some_long (hh : h.Attached channel) (data : Bytes)
    (hlong : 57 < length.toNat) :
    (h.tx (some data) length).txApduBuffer = some data ∧
      (h.tx (some data) length).txApduLength = length ∧
      (h.tx (some data) length).txApduSequenceNumber = 1 ∧
      (h.tx (some data) length).txApduOffset = 57 := by
  have hmtu := hh.toNat_mtu
  rw [TxState.tx_some, TxState.tx_none _ rfl]
  dsimp only
  rw [if_pos]
  · refine ⟨rfl, rfl, rfl, ?_⟩
    show 0 + UInt16.ofNat (h.mtu.toNat - 7) = 57
    rw [hmtu]
    rfl
  · show length.toNat + 7 > h.mtu.toNat + 0
    omega

theorem Alike.none (ha : Alike channel h g) (hnone : h.txApduBuffer = none) :
    g.txApduBuffer = none := by
  obtain ⟨-, -, ⟨-, hnone'⟩ | hp⟩ := ha
  · exact hnone'
  · have hrest := hp.rest
    rw [hnone, Option.map_none] at hrest
    exact Option.map_eq_none_iff.mp hrest.symm

theorem Alike.some (ha : Alike channel h g) (hbuf : h.txApduBuffer = some data) :
    ∃ data', g.txApduBuffer = some data' := by
  obtain ⟨-, -, ⟨hnone, -⟩ | hp⟩ := ha
  · rw [hbuf] at hnone
    cases hnone
  · obtain ⟨data', hbuf', -⟩ := hp.exists_rest hbuf
    exact ⟨data', hbuf'⟩

-- ---------------------------------------------------------------------------
-- The chunks still to come
-- ---------------------------------------------------------------------------

/-- The chunks that the calls for the next one will leave in the chunk buffer. -/
def Drains (h : TxState) (unsent : List Bytes) : Prop :=
  ∃ fuel gs, h.txDrain fuel = some gs ∧ gs.map (paddedPacket 64) = unsent

theorem drains_none (hnone : h.txApduBuffer = none) : h.Drains unsent ↔ unsent = [] := by
  have hdrain : ∀ fuel, h.txDrain fuel = some [] := by
    intro fuel
    cases fuel with
    | zero => rw [txDrain, if_pos hnone]
    | succ fuel => rw [txDrain, if_pos hnone]
  constructor
  · rintro ⟨fuel, gs, hgs, rfl⟩
    rw [hdrain fuel] at hgs
    cases hgs
    rfl
  · rintro rfl
    exact ⟨0, [], hdrain 0, rfl⟩

theorem drains_some (hbuf : h.txApduBuffer = some data) :
    h.Drains unsent ↔
      ∃ rest, unsent = (h.tx none 0).paddedPacket 64 :: rest ∧ (h.tx none 0).Drains rest := by
  have hne : h.txApduBuffer ≠ none := by
    rw [hbuf]
    exact Option.some_ne_none data
  constructor
  · rintro ⟨fuel, gs, hgs, rfl⟩
    cases fuel with
    | zero =>
      rw [txDrain, if_neg hne] at hgs
      cases hgs
    | succ fuel =>
      rw [txDrain, if_neg hne] at hgs
      obtain ⟨rest, hrest, rfl⟩ := Option.map_eq_some_iff.mp hgs
      exact ⟨_, rfl, fuel, rest, hrest, rfl⟩
  · rintro ⟨_, rfl, fuel, gs, hgs, rfl⟩
    refine ⟨fuel + 1, h.tx none 0 :: gs, ?_, rfl⟩
    rw [txDrain, if_neg hne, hgs, Option.map_some]

theorem Alike.drains (ha : Alike channel h g) (hd : h.Drains unsent) : g.Drains unsent := by
  induction unsent generalizing h g with
  | nil =>
    cases hbuf : h.txApduBuffer with
    | none => exact (drains_none (ha.none hbuf)).mpr rfl
    | some data =>
      obtain ⟨rest, hcons, -⟩ := (drains_some hbuf).mp hd
      cases hcons
  | cons c unsent ih =>
    cases hbuf : h.txApduBuffer with
    | none => cases (drains_none hbuf).mp hd
    | some data =>
      obtain ⟨rest, hcons, hd⟩ := (drains_some hbuf).mp hd
      cases hcons
      obtain ⟨ha', hchunk⟩ := ha.tx_none hbuf
      obtain ⟨data', hbuf'⟩ := ha.some hbuf
      exact (drains_some hbuf').mpr ⟨unsent, by rw [hchunk], ih ha' hd⟩

/-- The chunk sequence of a response, read at the size of the endpoint. -/
def Whole (h : TxState) (response : Bytes) (chunks : List Bytes) : Prop :=
  ∃ fuel gs, h.txAll response fuel = some gs ∧ gs.map (paddedPacket 64) = chunks

theorem Whole.cases {response : Bytes} (hw : h.Whole response chunks) :
    ∃ rest, chunks =
        (h.tx (some response) (UInt16.ofNat response.length)).paddedPacket 64 :: rest ∧
      (h.tx (some response) (UInt16.ofNat response.length)).Drains rest := by
  obtain ⟨fuel, gs, hall, rfl⟩ := hw
  obtain ⟨rest, hrest, rfl⟩ := Option.map_eq_some_iff.mp hall
  exact ⟨rest.map (paddedPacket 64), rfl, fuel, rest, hrest, rfl⟩

theorem Attached.exists_whole (hh : h.Attached channel) (response : Bytes)
    (hpos : 1 ≤ response.length) (hlen : response.length ≤ 65535) :
    ∃ chunks, h.Whole response chunks := by
  obtain ⟨_, -, -, fuel, gs, hall, -⟩ := txAll_emits_of_mtu h response hpos hlen (.inl hh.mtu)
    (by rw [hh.mtu, hh.chunkSize]; rfl)
  exact ⟨_, fuel, gs, hall, rfl⟩

end Speculos.Protocol.TxState
