import Speculos.Seph.Io

/-!
# What the seph calls read

As long as the packets fit the seph buffer and, with the type byte in front, the
buffer of the caller (`PacketsFit`), a call stays within the buffer it is given,
`rx_packet_length` within `rx_packet`, and a call that reads takes one whole
packet from the stream. A packet that is too long for `rx_packet` is rejected
after its header, and its body is read as the next packet; its length is then
used for a copy from `rx_packet`.
-/

namespace Speculos.Seph.Io

open Lib

/-- What is left to read are the last of the packets, and the packet that was
read last is within `rx_packet`. -/
structure Aligned (packets : List Packet) (s : St) : Prop where
  rest : ∃ rest, rest <:+ packets ∧ s.incoming = encodeAll rest
  max : s.info.rxPacketMaxLength = osIoSephBufferSize
  length : s.info.rxPacketLength ≤ s.info.rxPacketMaxLength

/-- A packet that is read fits `rx_packet` and, behind the type byte, the buffer
of the caller, and its header comes in one piece. -/
def PacketsFit (s : St) : Call → Prop
  | .tx .. => True
  | .rx none _ _ _ _ => True
  | .rx (some _) maxLength flags header _ => ReadsPacket s maxLength flags →
    nextBody s.incoming + 3 ≤ s.info.rxPacketMaxLength ∧ nextBody s.incoming + 4 ≤ maxLength ∧
      pieces header ≤ 1

theorem sephRxPacket_body {p : Packet} {after : Bytes}
    (h : sephRxPacket s buffer header body = some (s', buffer', ret))
    (hincoming : s.incoming = p.encode ++ after) (hfit : p.size ≤ s.info.rxPacketMaxLength)
    (hheader : pieces header ≤ 1) :
    ∃ r, readall body (p.body ++ after) (s.info.rxPacket.memcpy 0 p.encode 3) 3 p.body.length =
        some r ∧ 0 ≤ r.ret ∧ ret = (p.size + 1 : Int) ∧
      buffer' = (buffer.store 0 osIoPacketTypeSeph).memcpy 1 (r.buf.slice 0 p.size) p.size ∧
      s' = { s with
        incoming := r.stream
        info := { s.info with
          rxPacket := r.buf, rxPacketLength := p.size, state := .sendCmd, txPacketLength :=
            0 } } := by
  rw [Packet.size] at hfit
  obtain ⟨r, hr, hret, hpacket⟩ := sephRxPacket_cases h
  rw [hincoming] at hr
  obtain ⟨hlen, hstream, hbuf⟩ := readLoop_header hheader hr hret
  rw [hlen] at hpacket
  rcases hpacket with ⟨hlt, -⟩ | ⟨-, hpacket⟩
  · omega
  · have hcases := sephRxBody_cases hpacket
    rw [hlen, hstream, hbuf] at hcases
    exact hcases

theorem sephRxPacket_packet {p : Packet} {after : Bytes}
    (h : sephRxPacket s buffer header body = some (s', buffer', ret))
    (hincoming : s.incoming = p.encode ++ after) (hfit : p.size ≤ s.info.rxPacketMaxLength)
    (hheader : pieces header ≤ 1) (hbody : pieces body ≤ 1) :
    ret = (p.size + 1 : Int) ∧
      buffer' = (buffer.store 0 osIoPacketTypeSeph).memcpy 1 p.encode p.size ∧
      s' = { s with
        incoming := after
        info := { s.info with
          rxPacket := s.info.rxPacket.memcpy 0 p.encode p.size, rxPacketLength := p.size
          state := .sendCmd, txPacketLength := 0 } } := by
  obtain ⟨r, hr, hret, hval, hbuffer, hs'⟩ := sephRxPacket_body h hincoming hfit hheader
  obtain ⟨hstream, hbuf⟩ := readLoop_body hbody hr hret
  have hslice : (s.info.rxPacket.memcpy 0 p.encode p.size).slice 0 p.size = p.encode := by
    rw [Region.slice_memcpy_self _ _ _ _ (Nat.le_of_eq p.length_encode.symm), ← p.length_encode,
      List.take_length]
  rw [hbuf, hslice] at hbuffer
  rw [hbuf, hstream] at hs'
  exact ⟨hval, hbuffer, hs'⟩

/-- A call that reads takes one packet from the stream and stores as many bytes
behind the type byte, whatever the pieces of the body. -/
theorem sephRxPacket_reads (h : sephRxPacket s buffer header body = some (s', buffer', ret))
    (hs : Aligned packets s) (hfit : nextBody s.incoming + 3 ≤ s.info.rxPacketMaxLength)
    (hheader : pieces header ≤ 1) :
    ∃ p rest stored, p :: rest <:+ packets ∧ s.incoming = encodeAll (p :: rest) ∧
      nextBody s.incoming = p.body.length ∧
      buffer' = (buffer.store 0 osIoPacketTypeSeph).memcpy 1 stored p.size ∧
      s'.incoming = encodeAll rest ∧ s'.info.rxPacketLength = p.size ∧
      s'.info.rxPacketMaxLength = s.info.rxPacketMaxLength := by
  obtain ⟨rest, hsuffix, hincoming⟩ := hs.rest
  rcases rest with _ | ⟨p, rest⟩
  · -- there is no header to read
    obtain ⟨r, hr, hret, -⟩ := sephRxPacket_cases h
    rw [hincoming] at hr
    exact absurd (readLoop_one_piece hheader hr hret).1 (by decide)
  · rw [encodeAll_cons] at hincoming
    have hbodylen : nextBody s.incoming = p.body.length := by
      rw [hincoming, nextBody_encode]
    rw [hbodylen] at hfit
    obtain ⟨r, hr, hret, -, hbuffer, rfl⟩ := sephRxPacket_body h hincoming hfit hheader
    have hstream := (readLoop_takes hr hret (Nat.le_refl _)).2.1
    rw [List.drop_left' rfl] at hstream
    exact ⟨p, rest, _, hsuffix, hincoming, hbodylen, hbuffer, hstream, rfl, rfl⟩

theorem sysOsIoSephTx_frame (h : sysOsIoSephTx s answers buffer = some (s', ret)) :
    s'.incoming = s.incoming ∧ s'.info.rxPacketLength = s.info.rxPacketLength ∧
      s'.info.rxPacketMaxLength = s.info.rxPacketMaxLength := by
  rcases sysOsIoSephTx_cases h with rfl | ⟨bytes, s₁, -, ho, hpiece⟩
  · exact ⟨rfl, rfl, rfl⟩
  · have hopened : s₁.incoming = s.incoming ∧ s₁.info.rxPacketLength = s.info.rxPacketLength ∧
        s₁.info.rxPacketMaxLength = s.info.rxPacketMaxLength := by
      cases ho with
      | first hstate hlength hmax => exact ⟨rfl, rfl, rfl⟩
      | further hstate hlength => exact ⟨rfl, rfl, rfl⟩
    rcases sephTxPiece_cases hpiece with ⟨-, rfl⟩ | ⟨-, -, w, -, rfl⟩
    · exact hopened
    · dsimp only
      rw [SephInfo.advanced]
      split
      · exact hopened
      · exact hopened

theorem sephRx_aligned (h : sephRx s buffer maxLength flags header body = some (s', buffer', ret))
    (hs : Aligned packets s)
    (hfit : PacketsFit s (.rx (some buffer) maxLength flags header body)) :
    Aligned packets s' := by
  rcases sephRx_cases h with ⟨rfl, -⟩ | ⟨-, rfl, -⟩ | ⟨hreads, hpacket⟩
  · exact hs
  · exact hs
  · obtain ⟨hlen, -, hheader⟩ := hfit hreads
    obtain ⟨p, rest, -, hsuffix, -, hbodylen, -, hincoming, hlength, hmax⟩ :=
      sephRxPacket_reads hpacket hs hlen hheader
    refine ⟨⟨rest, (List.suffix_cons p rest).trans hsuffix, hincoming⟩, hmax.trans hs.max, ?_⟩
    rw [hlength, hmax, Packet.size, ← hbodylen]
    exact hlen

theorem step_aligned (hs : Aligned packets s) (hfit : PacketsFit s a) (h : step s a = some s') :
    Aligned packets s' := by
  obtain ⟨⟨s₂, ret⟩, hcall, rfl⟩ := Option.map_eq_some_iff.mp h
  cases a with
  | tx buffer answers =>
    obtain ⟨hincoming, hlength, hmax⟩ := sysOsIoSephTx_frame hcall
    obtain ⟨rest, hsuffix, hrest⟩ := hs.rest
    exact ⟨⟨rest, hsuffix, hincoming.trans hrest⟩, hmax.trans hs.max,
      by rw [hlength, hmax]; exact hs.length⟩
  | rx buffer maxLength flags header body =>
    rcases call_rx_cases hcall with rfl | ⟨region, buffer', rfl, hrx⟩
    · exact hs
    · exact sephRx_aligned hrx hs hfit

theorem sephRx_inBounds (h : sephRx s buffer maxLength flags header body = some (s', buffer', ret))
    (hs : Aligned packets s) (hfit : PacketsFit s (.rx (some buffer) maxLength flags header body))
    (hbuffer : buffer.InBounds maxLength) : buffer'.InBounds maxLength := by
  rcases sephRx_cases h with ⟨-, rfl⟩ | ⟨hmax, -, rfl⟩ | ⟨hreads, hpacket⟩
  · exact hbuffer
  · have hlength := hs.length
    exact (Region.inBounds_memcpy ..).mpr ⟨.inr (by omega), hbuffer⟩
  · obtain ⟨hlen, hroom, hheader⟩ := hfit hreads
    obtain ⟨p, rest, stored, -, -, hbodylen, rfl, -⟩ :=
      sephRxPacket_reads hpacket hs hlen hheader
    rw [hbodylen] at hroom
    refine (Region.inBounds_memcpy ..).mpr ⟨.inr ?_, (Region.inBounds_store ..).mpr ⟨?_, hbuffer⟩⟩
    · rw [Packet.size]
      omega
    · omega

/-- In every run in which the packets fit: a call writes within its buffer,
`rx_packet_length` stays within `rx_packet`, and a call that reads takes one
whole packet from the stream. -/
theorem sephRx_bounded (packets : List Packet) (as : List Call) (s : St)
    (hcalls : Guarded step PacketsFit (.initial (encodeAll packets)) as)
    (hs : exec step (.initial (encodeAll packets)) as = some s) (buffer buffer' : Region)
    (maxLength flags : Nat) (header body : List Answer) (s' : St) (ret : Int)
    (hfit : PacketsFit s (.rx (some buffer) maxLength flags header body))
    (hrx : sysOsIoSephSeRxEvent s (some buffer) maxLength flags header body =
      some (s', some buffer', ret)) :
    (buffer.InBounds maxLength → buffer'.InBounds maxLength) ∧
      s'.info.rxPacketLength ≤ s'.info.rxPacketMaxLength ∧
      (ReadsPacket s maxLength flags → ∃ p rest, p :: rest <:+ packets ∧
        s.incoming = encodeAll (p :: rest) ∧ s'.incoming = encodeAll rest) := by
  have haligned : Aligned packets s := by
    refine exec_invariant_of_guarded (I := Aligned packets) ?_
      ⟨⟨packets, List.suffix_refl _, rfl⟩, rfl, Nat.zero_le _⟩ hcalls hs
    intro s a s' hs hguard h
    exact step_aligned hs hguard h
  obtain ⟨⟨s₂, buffer₂, ret₂⟩, hrx, heq⟩ := Option.map_eq_some_iff.mp hrx
  cases heq
  refine ⟨sephRx_inBounds hrx haligned hfit, (sephRx_aligned hrx haligned hfit).length, ?_⟩
  intro hreads
  obtain ⟨hlen, -, hheader⟩ := hfit hreads
  rw [sephRx_of_readsPacket hreads] at hrx
  obtain ⟨p, rest, -, hsuffix, hincoming, -, -, hrest, -⟩ :=
    sephRxPacket_reads hrx haligned hlen hheader
  exact ⟨p, rest, hsuffix, hincoming, hrest⟩

/-- An event that is read after a status. -/
theorem sephRx_bounded_event :
    ∃ s s' buffer' ret, exec step (.initial [0x05, 0, 1, 3]) [.tx (some [0x60, 0, 0]) [.moved 3]] =
        some s ∧
      sysOsIoSephSeRxEvent s (some .zeroed) 272 0 [.moved 3] [.moved 1] =
        some (s', some buffer', ret) ∧
      buffer'.InBounds 272 ∧ s'.info.rxPacketLength ≤ s'.info.rxPacketMaxLength ∧
      ∃ p rest, p :: rest <:+ [⟨0x05, [3], by decide⟩] ∧ s.incoming = encodeAll (p :: rest) ∧
        s'.incoming = encodeAll rest := by
  obtain ⟨s, hs, h⟩ := Option.bind_eq_some_iff.mp (show ((exec step (.initial [0x05, 0, 1, 3])
      [.tx (some [0x60, 0, 0]) [.moved 3]]).bind fun s =>
        (sephRx s .zeroed 272 0 [.moved 3] [.moved 1]).map fun _ =>
          (s.incoming, s.info.rxPacketMaxLength, s.info.state)) =
      some ([0x05, 0, 1, 3], 272, State.waitEvent) by decide)
  obtain ⟨⟨s', buffer', ret⟩, hrx, heq⟩ := Option.map_eq_some_iff.mp h
  obtain ⟨hincoming, hmax, hstate⟩ : s.incoming = [0x05, 0, 1, 3] ∧
      s.info.rxPacketMaxLength = 272 ∧ s.info.state = .waitEvent := by simpa using heq
  have hcall : sysOsIoSephSeRxEvent s (some .zeroed) 272 0 [.moved 3] [.moved 1] =
      some (s', some buffer', ret) := by
    rw [sysOsIoSephSeRxEvent, hrx]
    rfl
  have hstream : encodeAll [⟨0x05, [3], by decide⟩] = [0x05, 0, 1, 3] := by decide
  obtain ⟨hbounds, hlength, hreads⟩ := sephRx_bounded [⟨0x05, [3], by decide⟩]
    [.tx (some [0x60, 0, 0]) [.moved 3]] s ⟨trivial, fun _ _ => trivial⟩
    (by rw [hstream]; exact hs) .zeroed buffer' 272 0
    [.moved 3] [.moved 1] s' ret (fun _ => by rw [hincoming, hmax]; decide) hcall
  exact ⟨s, s', buffer', ret, hs, hcall, hbounds (by decide), hlength,
    hreads ⟨Nat.le_of_eq hmax, rfl, hstate⟩⟩

/-- An event of 300 bytes: it is rejected after its header, with its length in
`rx_packet_length`. An event of 269 bytes: with the type byte, one byte too many
is stored. -/
theorem sephRx_oversized :
    (∃ s, exec step (.initial ([0x0E, 1, 44] ++ List.replicate 300 0))
        [.tx (some [0x60, 0, 0]) [.moved 3], .rx (some .zeroed) 272 0 [.moved 3] []] = some s ∧
      s.info.rxPacketMaxLength < s.info.rxPacketLength ∧
      ¬ ∃ rest, rest <:+ [⟨0x0E, List.replicate 300 0, by rw [List.length_replicate]; decide⟩] ∧
        s.incoming = encodeAll rest) ∧
    ∃ s s' buffer' ret, exec step (.initial ([0x0E, 1, 13] ++ List.replicate 269 0))
        [.tx (some [0x60, 0, 0]) [.moved 3]] = some s ∧
      sysOsIoSephSeRxEvent s (some .zeroed) 272 0 [.moved 3] [.moved 269] =
        some (s', some buffer', ret) ∧
      ¬ buffer'.InBounds 272 := by
  constructor
  · obtain ⟨s, hs, heq⟩ := Option.map_eq_some_iff.mp (show
      (exec step (.initial ([0x0E, 1, 44] ++ List.replicate 300 0))
        [.tx (some [0x60, 0, 0]) [.moved 3], .rx (some .zeroed) 272 0 [.moved 3] []]).map
          (fun s => (s.info.rxPacketMaxLength, s.info.rxPacketLength, s.incoming.length)) =
        some (272, 300, 300) by decide +kernel)
    obtain ⟨hmax, hlength, hincoming⟩ : s.info.rxPacketMaxLength = 272 ∧
        s.info.rxPacketLength = 300 ∧ s.incoming.length = 300 := by simpa using heq
    refine ⟨s, hs, by omega, ?_⟩
    rintro ⟨rest, hsuffix, hrest⟩
    have htails : ∀ rest ∈ List.tails
        [(⟨0x0E, List.replicate 300 0, by rw [List.length_replicate]; decide⟩ : Packet)],
        (encodeAll rest).length ≠ 300 := by decide +kernel
    exact htails rest ((List.mem_tails _ _).mpr hsuffix) (hrest ▸ hincoming)
  · obtain ⟨s, hs, h⟩ := Option.bind_eq_some_iff.mp (show
      ((exec step (.initial ([0x0E, 1, 13] ++ List.replicate 269 0))
        [.tx (some [0x60, 0, 0]) [.moved 3]]).bind fun s =>
          (sephRx s .zeroed 272 0 [.moved 3] [.moved 269]).map fun result =>
            decide (result.2.1.InBounds 272)) = some false by decide +kernel)
    obtain ⟨⟨s', buffer', ret⟩, hrx, hbounds⟩ := Option.map_eq_some_iff.mp h
    refine ⟨s, s', buffer', ret, hs, ?_, of_decide_eq_false hbounds⟩
    rw [sysOsIoSephSeRxEvent, hrx]
    rfl

end Speculos.Seph.Io
