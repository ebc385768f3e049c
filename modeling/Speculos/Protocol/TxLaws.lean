import Speculos.Lib.Slices
import Speculos.Protocol.Ledger

/-!
# Cutting a response into packets

Each call of `LEDGER_PROTOCOL_tx` leaves one packet of the response in the
chunk buffer. `Sending` is the handle between two calls; a whole response
comes out as the packets of a chunk sequence, and a reader that always takes
the full buffer sees the same packets with the last one padded by zeros.
-/

namespace Speculos.Protocol.TxState

open Lib

/-- What stands between the channel and the data of packet `seq`. -/
def header (total seq : Nat) : Bytes :=
  tagApdu :: (be16 seq ++ (if seq = 0 then be16 total else []))

theorem frame_eq_header (channel total seq : Nat) (data : Bytes) :
    frame channel total seq data = be16 channel ++ (header total seq ++ data) := by
  simp [frame, header]

theorem length_header (total seq : Nat) :
    (header total seq).length = if seq = 0 then 5 else 3 := by
  by_cases h : seq = 0 <;> simp [header, h]

/-- The chunk buffer of a handle, cleared behind the channel and filled with a
header and `n` bytes of `rest`. -/
def packed (h : TxState) (rest : Bytes) (n : Nat) : Region :=
  let head := header h.txApduLength.toNat h.txApduSequenceNumber.toNat
  (h.txChunkBuffer.memset 2 0 (h.txChunkBufferSize.toNat - 2)).memcpy 2 (head ++ rest)
    (head.length + n)

def dataOffset (h : TxState) : Nat := if h.txApduSequenceNumber = 0 then 7 else 5

theorem dataOffset_bounds (h : TxState) : 5 ≤ h.dataOffset ∧ h.dataOffset ≤ 7 := by
  rw [dataOffset]
  split <;> omega

theorem length_header_eq (h : TxState) :
    2 + (header h.txApduLength.toNat h.txApduSequenceNumber.toNat).length = h.dataOffset := by
  have h0 : h.txApduSequenceNumber.toNat = 0 ↔ h.txApduSequenceNumber = 0 :=
    ⟨fun h0 => UInt16.toNat_inj.mp h0, fun h0 => by rw [h0]; rfl⟩
  rw [length_header, dataOffset]
  simp only [h0]
  split <;> rfl

theorem store_tag_seq (r : Region) (seq : Nat) :
    (r.store 2 tagApdu).storeBE16 3 seq = r.memcpy 2 (tagApdu :: be16 seq) 3 :=
  Region.memcpy_memcpy r 2 [tagApdu] (be16 seq) 2

theorem store_tag_seq_total (r : Region) (seq total : Nat) :
    ((r.store 2 tagApdu).storeBE16 3 seq).storeBE16 5 total =
      r.memcpy 2 (tagApdu :: (be16 seq ++ be16 total)) 5 := by
  rw [store_tag_seq]
  exact Region.memcpy_memcpy r 2 (tagApdu :: be16 seq) (be16 total) 2

theorem txHeader_eq (h : TxState) :
    (h.txStart none 0).txHeader = ({ h with txChunkBuffer := h.packed [] 0 }, h.dataOffset) := by
  by_cases h0 : h.txApduSequenceNumber = 0
  · simp only [txStart, txHeader, h0, if_true, packed, dataOffset, store_tag_seq_total, header]
    rfl
  · have hz : h.txApduSequenceNumber.toNat ≠ 0 := fun h' => h0 (UInt16.toNat_inj.mp h')
    simp only [txStart, txHeader, h0, if_false, packed, dataOffset, store_tag_seq, header, hz,
      List.append_nil]
    rfl

theorem packed_memcpy (h : TxState) (rest : Bytes) (n : Nat) :
    (h.packed [] 0).memcpy h.dataOffset rest n = h.packed rest n := by
  rw [← h.length_header_eq, packed, packed]
  simp only [List.append_nil, Nat.add_zero]
  exact Region.memcpy_memcpy ..

theorem tx_none (h : TxState) (hbuf : h.txApduBuffer = some data) :
    h.tx none 0 =
      let rest := data.drop h.txApduOffset.toNat
      if h.txApduLength.toNat + h.dataOffset > h.mtu.toNat + h.txApduOffset.toNat then
        { h with
          txChunkBuffer := h.packed rest (h.mtu.toNat - h.dataOffset)
          txApduOffset := h.txApduOffset + UInt16.ofNat (h.mtu.toNat - h.dataOffset)
          txApduSequenceNumber := h.txApduSequenceNumber + 1
          txChunkLength := UInt8.ofNat h.mtu.toNat }
      else
        { h with
          txChunkBuffer := h.packed rest (h.txApduLength.toNat - h.txApduOffset.toNat)
          txApduOffset := h.txApduLength
          txApduBuffer := none
          txChunkLength :=
            UInt8.ofNat (h.dataOffset + (h.txApduLength.toNat - h.txApduOffset.toNat)) } := by
  simp only [tx, Option.none_or, hbuf, txHeader_eq, txData, packed_memcpy]

theorem tx_some (h : TxState) (data : Bytes) (length : UInt16) :
    h.tx (some data) length = tx { h with
      txApduBuffer := some data
      txApduLength := length
      txApduSequenceNumber := 0
      txApduOffset := 0 } none 0 := rfl

-- ---------------------------------------------------------------------------
-- One packet
-- ---------------------------------------------------------------------------

theorem exists_channel (h : TxState) :
    ∃ channel < 65536, h.txChunkBuffer.slice 0 2 = be16 channel :=
  ⟨fromBE [h.txChunkBuffer.cell 0, h.txChunkBuffer.cell 1], fromBE_pair_lt _ _,
    (be16_fromBE _ _).symm⟩

theorem slice_packed_channel (h : TxState) (rest : Bytes) (n : Nat) :
    (h.packed rest n).slice 0 2 = h.txChunkBuffer.slice 0 2 := by
  rw [packed, Region.slice_memcpy_of_disjoint _ _ _ _ _ _ (.inl (by omega)),
    Region.slice_memset_of_disjoint _ _ _ _ _ _ (.inl (by omega))]

def packet (h : TxState) : Bytes := h.txChunkBuffer.slice 0 h.txChunkLength.toNat

/-- The same packet for a reader that always takes `size` bytes. -/
def paddedPacket (size : Nat) (h : TxState) : Bytes := h.txChunkBuffer.slice 0 size

/-- Between two calls: `sent` bytes of `data` have been put out in `seq`
packets, and the chunk buffer holds the channel. -/
structure Sending (h : TxState) (channel size : Nat) (data : Bytes) (sent seq : Nat) : Prop where
  buffer : h.txApduBuffer = some data
  length : h.txApduLength.toNat = data.length
  number : h.txApduSequenceNumber.toNat = seq
  offset : h.txApduOffset.toNat = sent
  mtu : h.mtu.toNat = size
  chunkSize : h.txChunkBufferSize.toNat = size
  channel : h.txChunkBuffer.slice 0 2 = be16 channel

variable {h : TxState} {channel size sent seq : Nat} {data : Bytes}

theorem Sending.dataOffset_eq (hs : h.Sending channel size data sent seq) :
    h.dataOffset = if seq = 0 then 7 else 5 := by
  rw [← h.length_header_eq, length_header, hs.number]
  split <;> rfl

theorem Sending.slice_packed (hs : h.Sending channel size data sent seq) (rest : Bytes) (n : Nat)
    (hn : n ≤ rest.length) (hfit : h.dataOffset + n ≤ size) :
    (h.packed rest n).slice 0 size =
      frame channel data.length seq (rest.take n ++
        List.replicate (size - h.dataOffset - n) 0) := by
  have hoff := h.length_header_eq
  rw [hs.length, hs.number] at hoff
  rw [packed, hs.chunkSize, hs.length, hs.number, Region.slice_memcpy_memset _ _ _ _ _
    (by rw [List.length_append]; omega) (by omega), hs.channel, frame_eq_header,
    List.take_length_add_append, ← List.append_assoc (header _ _)]
  rw [show size - 2 - ((header data.length seq).length + n) = size - h.dataOffset - n by omega]

theorem Sending.slice_packed_exact (hs : h.Sending channel size data sent seq) (rest : Bytes)
    (n : Nat) (hn : n ≤ rest.length) (hfit : h.dataOffset + n ≤ size) :
    (h.packed rest n).slice 0 (h.dataOffset + n) = frame channel data.length seq (rest.take n) := by
  have hlen : (frame channel data.length seq (rest.take n)).length = h.dataOffset + n := by
    rw [length_frame, ← hs.dataOffset_eq, List.length_take, Nat.min_eq_left hn]
  rw [← Region.take_slice _ _ _ _ hfit, hs.slice_packed rest n hn hfit, frame_eq_header,
    ← List.append_assoc (header _ _), ← List.append_assoc (be16 _), ← frame_eq_header,
    List.take_left' hlen]

theorem Sending.channel_packed (hs : h.Sending channel size data sent seq) (rest : Bytes)
    (n : Nat) :
    (h.packed rest n).slice 0 2 = be16 channel := by
  rw [slice_packed_channel, hs.channel]

theorem Sending.more (hs : h.Sending channel size data sent seq) (hsize : size ≤ 255)
    (hseq : seq + 1 < 65536) (hmore : size + sent < data.length + h.dataOffset)
    (hoff : h.dataOffset ≤ size) :
    (h.tx none 0).Sending channel size data (sent + (size - h.dataOffset)) (seq + 1) ∧
      (h.tx none 0).packet =
        frame channel data.length seq ((data.drop sent).take (size - h.dataOffset)) ∧
      (h.tx none 0).paddedPacket size =
        frame channel data.length seq ((data.drop sent).take (size - h.dataOffset)) := by
  have hlength := h.txApduLength.toNat_lt
  rw [hs.length] at hlength
  have hgt : h.txApduLength.toNat + h.dataOffset > h.mtu.toNat + h.txApduOffset.toNat := by
    rw [hs.length, hs.mtu, hs.offset]
    omega
  have hrest : size - h.dataOffset ≤ (data.drop sent).length := by
    rw [List.length_drop]
    omega
  have hfull : h.dataOffset + (size - h.dataOffset) = size := by omega
  have hslice := hs.slice_packed_exact (data.drop sent) _ hrest (by omega)
  rw [hfull] at hslice
  rw [tx_none h hs.buffer]
  dsimp only
  rw [if_pos hgt, hs.offset, hs.mtu]
  refine ⟨⟨hs.buffer, hs.length, ?_, ?_, hs.mtu, hs.chunkSize, hs.channel_packed _ _⟩, ?_, hslice⟩
  · show (h.txApduSequenceNumber + 1).toNat = _
    rw [UInt16.toNat_add, hs.number]
    exact Nat.mod_eq_of_lt hseq
  · show (h.txApduOffset + UInt16.ofNat (size - h.dataOffset)).toNat = _
    rw [UInt16.toNat_add, UInt16.toNat_ofNat', hs.offset]
    omega
  · show (h.packed _ _).slice 0 (UInt8.ofNat size).toNat = _
    rw [UInt8.toNat_ofNat', Nat.mod_eq_of_lt (by omega)]
    exact hslice

theorem Sending.last (hs : h.Sending channel size data sent seq) (hsize : size ≤ 255)
    (hsent : sent ≤ data.length) (hlast : data.length + h.dataOffset ≤ size + sent) :
    (h.tx none 0).txApduBuffer = none ∧
      (h.tx none 0).packet = frame channel data.length seq (data.drop sent) ∧
      ∃ n, (h.tx none 0).paddedPacket size =
        frame channel data.length seq (data.drop sent ++ List.replicate n 0) := by
  have hle : ¬ h.txApduLength.toNat + h.dataOffset > h.mtu.toNat + h.txApduOffset.toNat := by
    rw [hs.length, hs.mtu, hs.offset]
    omega
  have hrest : (data.drop sent).length = data.length - sent := List.length_drop
  rw [tx_none h hs.buffer]
  dsimp only
  rw [if_neg hle, hs.offset, hs.length]
  refine ⟨rfl, ?_, size - h.dataOffset - (data.length - sent), ?_⟩
  · show (h.packed _ _).slice 0 (UInt8.ofNat (h.dataOffset + (data.length - sent))).toNat = _
    rw [UInt8.toNat_ofNat', Nat.mod_eq_of_lt (by omega),
      hs.slice_packed_exact _ _ (by omega) (by omega), ← hrest, List.take_length]
  · show (h.packed _ _).slice 0 size = _
    rw [hs.slice_packed _ _ (by omega) (by omega), ← hrest, List.take_length]

-- ---------------------------------------------------------------------------
-- A whole response
-- ---------------------------------------------------------------------------

/-- The handles `hs` after successive calls hold the packets of `rest`, as they
are and, read at full size, with zeros behind. -/
structure Emits (channel size total seq : Nat) (rest : Bytes) (hs : List TxState) : Prop where
  exact : ∃ ds, Chunks rest ds ∧ ds.flatten = rest ∧ Sendable seq ds ∧
    hs.map packet = frames channel total seq ds
  padded : ∃ ds, Chunks rest ds ∧ Sendable seq ds ∧
    hs.map (paddedPacket size) = frames channel total seq ds
  zeros : ∀ h ∈ hs, h.paddedPacket size = h.packet ++ List.replicate (size - h.packet.length) 0

theorem paddedPacket_eq {d : Bytes} (hpacket : h.packet = frame channel total seq d)
    (hpadded : h.paddedPacket size = frame channel total seq (d ++ List.replicate n 0)) :
    h.paddedPacket size = h.packet ++ List.replicate (size - h.packet.length) 0 := by
  have hlen := congrArg List.length hpadded
  rw [frame_append, ← hpacket, List.length_append, List.length_replicate, paddedPacket,
    Region.length_slice] at hlen
  rw [hpadded, frame_append, ← hpacket, hlen, Nat.add_sub_cancel_left]

theorem Emits.single {rest : Bytes} (hseq : seq < 65536)
    (hpacket : h.packet = frame channel total seq rest)
    (hpadded : h.paddedPacket size = frame channel total seq (rest ++ List.replicate n 0))
    (hfit : (rest ++ List.replicate n 0).length + 7 < 65536) :
    Emits channel size total seq rest [h] := by
  have hrest : rest.length + 7 < 65536 := by
    rw [List.length_append] at hfit
    omega
  have hnil : Sendable (seq + 1) [] := ⟨Nat.succ_le_of_lt hseq, by simp⟩
  refine ⟨⟨[rest], ?_, by simp, hnil.cons hrest, ?_⟩,
    ⟨[rest ++ List.replicate n 0], .last _ _, hnil.cons hfit, ?_⟩, ?_⟩
  · simpa using Chunks.last rest []
  · rw [List.map_singleton, hpacket]
    rfl
  · rw [List.map_singleton, hpadded]
    rfl
  · intro g hg
    rw [List.mem_singleton.mp hg]
    exact paddedPacket_eq hpacket hpadded

theorem Emits.cons {d rest : Bytes} {gs : List TxState} (hd : d.length + 7 < 65536)
    (hne : rest ≠ []) (hpacket : h.packet = frame channel total seq d)
    (hpadded : h.paddedPacket size = frame channel total seq d)
    (he : Emits channel size total (seq + 1) rest gs) :
    Emits channel size total seq (d ++ rest) (h :: gs) := by
  obtain ⟨⟨ds, hc, hflat, hsend, hmap⟩, ⟨es, hc', hsend', hmap'⟩, hzeros⟩ := he
  refine ⟨⟨d :: ds, .more d hne hc, ?_, hsend.cons hd, ?_⟩,
    ⟨d :: es, .more d hne hc', hsend'.cons hd, ?_⟩, ?_⟩
  · rw [List.flatten_cons, hflat]
  · rw [List.map_cons, hpacket, hmap]
    rfl
  · rw [List.map_cons, hpadded, hmap']
    rfl
  · intro g hg
    rcases List.mem_cons.mp hg with rfl | hg
    · refine paddedPacket_eq hpacket (n := 0) ?_
      rw [hpadded, List.replicate_zero, List.append_nil]
    · exact hzeros g hg

theorem Sending.drain (hs : h.Sending channel size data sent seq) (hlo : 8 ≤ size)
    (hhi : size ≤ 255) (hsent : sent < data.length) (hseq : seq ≤ sent) :
    ∃ fuel gs, h.txDrain fuel = some gs ∧
      Emits channel size data.length seq (data.drop sent) gs := by
  induction hn : data.length - sent using Nat.strong_induction_on generalizing h sent seq with
  | _ n ih =>
    have hlength := h.txApduLength.toNat_lt
    rw [hs.length] at hlength
    have hoff := h.dataOffset_bounds
    by_cases hmore : size + sent < data.length + h.dataOffset
    · obtain ⟨hnext, hpacket, hpadded⟩ := hs.more hhi (by omega) hmore (by omega)
      obtain ⟨fuel, gs, hdrain, hemit⟩ := ih _ (by omega) hnext (by omega) (by omega) rfl
      have hcut : data.drop sent = (data.drop sent).take (size - h.dataOffset) ++
          data.drop (sent + (size - h.dataOffset)) := by
        rw [← List.drop_drop, List.take_append_drop]
      have hne : data.drop (sent + (size - h.dataOffset)) ≠ [] := by
        rw [← List.length_pos_iff, List.length_drop]
        omega
      have hd : ((data.drop sent).take (size - h.dataOffset)).length + 7 < 65536 := by
        rw [List.length_take]
        omega
      refine ⟨fuel + 1, h.tx none 0 :: gs, ?_, ?_⟩
      · rw [txDrain, if_neg (by simp [hs.buffer]), hdrain]
        rfl
      · rw [hcut]
        exact hemit.cons hd hne hpacket hpadded
    · obtain ⟨hnone, hpacket, k, hpadded⟩ := hs.last hhi (by omega) (by omega)
      have hfit : (data.drop sent ++ List.replicate k 0).length + 7 < 65536 := by
        have hl := congrArg List.length hpadded
        rw [length_frame, paddedPacket, Region.length_slice] at hl
        split at hl <;> omega
      refine ⟨1, [h.tx none 0], ?_, .single (by omega) hpacket hpadded hfit⟩
      rw [txDrain, if_neg (by simp [hs.buffer]), txDrain, if_pos hnone]
      rfl

/-- `LEDGER_PROTOCOL_tx(buffer, length)` followed by `LEDGER_PROTOCOL_tx(NULL, 0)`
until the buffer is `NULL` again terminates and puts out the whole response. -/
theorem txAll_emits (h : TxState) (response : Bytes) (channel size : Nat) (hlo : 8 ≤ size)
    (hhi : size ≤ 255) (hmtu : h.mtu.toNat = size) (hsize : h.txChunkBufferSize.toNat = size)
    (hchannel : h.txChunkBuffer.slice 0 2 = be16 channel) (hpos : 0 < response.length)
    (hlen : response.length < 65536) :
    ∃ fuel gs, h.txAll response fuel = some gs ∧
      Emits channel size response.length 0 response gs := by
  have hs : Sending { h with
      txApduBuffer := some response
      txApduLength := UInt16.ofNat response.length
      txApduSequenceNumber := 0
      txApduOffset := 0 } channel size response 0 0 := by
    refine ⟨rfl, ?_, rfl, rfl, hmtu, hsize, hchannel⟩
    show (UInt16.ofNat response.length).toNat = _
    rw [UInt16.toNat_ofNat']
    exact Nat.mod_eq_of_lt hlen
  obtain ⟨fuel, gs, hdrain, hemit⟩ := hs.drain hlo hhi hpos (Nat.le_refl 0)
  rw [List.drop_zero] at hemit
  cases fuel with
  | zero => simp [txDrain] at hdrain
  | succ fuel => exact ⟨fuel, gs, by rw [txAll, tx_some]; simpa [txDrain] using hdrain, hemit⟩

theorem txAll_emits_of_mtu (h : TxState) (response : Bytes) (hpos : 1 ≤ response.length)
    (hlen : response.length ≤ 65535) (hmtu : h.mtu = 64 ∨ h.mtu = 158)
    (hsize : h.txChunkBufferSize.toNat = h.mtu.toNat) :
    ∃ channel < 65536, h.txChunkBuffer.slice 0 2 = be16 channel ∧
      ∃ fuel gs, h.txAll response fuel = some gs ∧
        Emits channel h.mtu.toNat response.length 0 response gs := by
  obtain ⟨channel, hlt, hchannel⟩ := h.exists_channel
  have hbounds : 8 ≤ h.mtu.toNat ∧ h.mtu.toNat ≤ 255 := by
    rcases hmtu with hmtu | hmtu <;> rw [hmtu] <;> decide
  exact ⟨channel, hlt, hchannel, txAll_emits h response channel h.mtu.toNat hbounds.1 hbounds.2 rfl
    hsize hchannel hpos (Nat.lt_succ_of_le hlen)⟩

theorem length_eq_of_map {gs : List TxState} {f : TxState → Bytes}
    (h : gs.map f = frames channel total seq ds) : ds.length = gs.length := by
  rw [← length_frames channel total seq ds, ← h, List.length_map]

theorem rx_frame_channel (h : LedgerProtocol) (channel total : Nat) (seq : Nat) (d : Bytes)
    (hlen : d.length + 7 < 65536) :
    (h.rx (frame channel total seq d)).txChunkBuffer.slice 0 2 = be16 channel := by
  have htake : (frame channel total seq d).take ((frame channel total seq d).length % 65536) =
      frame channel total seq d := by
    rw [Nat.mod_eq_of_lt (by rw [length_frame]; split <;> omega), List.take_length]
  rw [LedgerProtocol.rx, htake]
  exact Region.slice_memcpy_self _ 0 (frame channel total seq d) 2
    (by rw [length_frame]; split <;> omega)

end Speculos.Protocol.TxState
