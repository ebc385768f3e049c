import Speculos.Seph.Io

/-!
# What the seph calls write

Packets may be sent in pieces. As long as no first piece is longer than its
packet and no packet that is read is too long (`WellSized`), the bytes written
are packets that fit the seph buffer, followed by the first `tx_packet_offset`
bytes of one more, and a call that returns an error leaves `G_seph_info` as it
was. An overlong first piece leaves the length and the tag of its packet behind,
and the pieces that follow are taken for the rest of it.
-/

namespace Speculos.Seph.Io

open Lib

/-- The bytes written are the packets `ps` and, while one is in progress, the
first `tx_packet_offset` bytes of it. -/
structure Framed (s : St) (ps : List Packet) (part : Bytes) : Prop where
  written : s.outgoing = encodeAll ps ++ part
  fits : ∀ p ∈ ps, p.size ≤ s.info.txPacketMaxLength
  idle : s.info.txPacketLength = 0 → part = []
  inProgress : s.info.txPacketLength ≠ 0 → part.length = s.info.txPacketOffset ∧
    ∃ p : Packet, part <+: p.encode ∧ p.size = s.info.txPacketLength ∧
      p.size ≤ s.info.txPacketMaxLength

/-- A piece that starts a packet and is longer than it, by its length on 16 bits. One of
which the length wraps around to 0 counts if its tag or a packet before it have left
another state. -/
def Overlong (s : St) : Option Bytes → Prop
  | some (tag :: hi :: lo :: rest) =>
    s.info.state ≠ .waitEvent ∧ s.info.txPacketLength = 0 ∧
      (fromBE [hi, lo] + 3) % 65536 ≤ s.info.txPacketMaxLength ∧
      (fromBE [hi, lo] + 3) % 65536 < rest.length + 3 ∧
      ((fromBE [hi, lo] + 3) % 65536 = 0 → s.info.txPacketTag = tag → s.info.txPacketOffset ≠ 0)
  | _ => False

/-- The kernel takes what a call writes, in any pieces. -/
def WritesSucceed : Call → Prop
  | .tx (some buffer) answers => Delivers buffer.length answers
  | .tx none _ => True
  | .rx .. => True

/-- The header that `readall` gathers in `rx_packet`, in any pieces, gives a length
that fits behind it. -/
def Gathered (s : St) (header : List Answer) : Prop :=
  ∀ r ∈ readall header s.incoming s.info.rxPacket 0 3, 0 ≤ r.ret →
    fromBE [r.buf.cell 1, r.buf.cell 2] ≤ s.info.rxPacketMaxLength - 3

/-- No packet is started by an overlong piece, and the length gathered for a packet that
is read fits the seph buffer. -/
def WellSized (s : St) : Call → Prop
  | .tx buffer _ => ¬ Overlong s buffer
  | .rx none _ _ _ _ => True
  | .rx (some _) maxLength flags header _ => ReadsPacket s maxLength flags → Gathered s header

/-- A call that returns an error leaves `G_seph_info` as it was. -/
def KeepsInfo (s : St) (a : Call) : Prop :=
  ∀ s' ret, call s a = some (s', ret) → ret < 0 → s'.info = s.info

-- ---------------------------------------------------------------------------
-- The invariant
-- ---------------------------------------------------------------------------

/-- The header of the packet in progress is written, and none is in progress
while an event is waited for. -/
structure Progress (s : St) (ps : List Packet) (part : Bytes) : Prop where
  written : s.outgoing = encodeAll ps ++ part
  fits : ∀ p ∈ ps, p.size ≤ s.info.txPacketMaxLength
  idle : s.info.txPacketLength = 0 → part = []
  begins : s.info.txPacketLength ≠ 0 →
    Begins s.info.txPacketTag s.info.txPacketLength part ∧ part.length = s.info.txPacketOffset ∧
      s.info.txPacketLength ≤ s.info.txPacketMaxLength
  wait : s.info.state = .waitEvent → s.info.txPacketLength = 0

theorem Progress.framed (h : Progress s ps part) : Framed s ps part where
  written := h.written
  fits := h.fits
  idle := h.idle
  inProgress := fun hlength => by
    obtain ⟨⟨-, p, -, hsize, hprefix⟩, hoffset, hmax⟩ := h.begins hlength
    exact ⟨hoffset, p, hprefix, hsize, by omega⟩

theorem Opened.begins (ho : Opened s buffer s₁) (hs : Progress s ps part)
    (hle : s₁.info.txPacketOffset + buffer.length ≤ s₁.info.txPacketLength) :
    Begins s₁.info.txPacketTag s₁.info.txPacketLength (part ++ buffer) ∧
      part.length = s₁.info.txPacketOffset ∧
      s₁.info.txPacketLength ≤ s₁.info.txPacketMaxLength := by
  cases ho with
  | @first hi lo tag rest hstate hlength hmax =>
    -- a length that passes 2^16 is below 3
    have hlt := fromBE_pair_lt hi lo
    simp only [List.length_cons, Nat.zero_add] at hle
    have hsum : (fromBE [hi, lo] + 3) % 65536 = fromBE [hi, lo] + 3 := by omega
    have hbegins := Begins.first tag hi lo rest (by omega)
    rw [← hsum] at hbegins
    rw [hs.idle hlength]
    exact ⟨hbegins, rfl, hmax⟩
  | further hstate hlength =>
    obtain ⟨hbegins, hoffset, hmax⟩ := hs.begins hlength
    exact ⟨hbegins.append (by omega), hoffset, hmax⟩

theorem Opened.frame (ho : Opened s buffer s₁) :
    s₁.outgoing = s.outgoing ∧ s₁.info.txPacketMaxLength = s.info.txPacketMaxLength ∧
      s₁.info.state ≠ .waitEvent := by
  cases ho with
  | first hstate hlength hmax => exact ⟨rfl, rfl, hstate⟩
  | further hstate hlength => exact ⟨rfl, rfl, hstate⟩

theorem sysOsIoSephTx_fitting (h : sysOsIoSephTx s answers buffer = some (s', ret))
    (hfit : ¬ Overlong s buffer) :
    s' = s ∨ 0 ≤ ret ∧ ∃ bytes s₁, buffer = some bytes ∧ Opened s bytes s₁ ∧
      s₁.info.txPacketOffset + bytes.length ≤ s₁.info.txPacketLength ∧
      ∃ w, writeall answers bytes s₁.outgoing = some w ∧
        s' = { s₁ with outgoing := w.stream, info := s₁.info.advanced bytes.length } := by
  rcases sysOsIoSephTx_cases h with rfl | ⟨bytes, s₁, rfl, ho, hpiece⟩
  · exact .inl rfl
  · rcases sephTxPiece_cases hpiece with ⟨hlt, rfl⟩ | ⟨hle, rfl, hw⟩
    · cases ho with
      | first hstate hlength hmax =>
        simp only [List.length_cons, Nat.zero_add] at hlt
        have hsame : ¬ (_ → _ → s.info.txPacketOffset ≠ 0) :=
          fun h => hfit ⟨hstate, hlength, hmax, hlt, h⟩
        rw [Classical.not_imp, Classical.not_imp, not_not] at hsame
        obtain ⟨hzero, rfl, hoffset⟩ := hsame
        obtain ⟨⟨length, offset, _, _, _, _, _, _⟩, _, _⟩ := s
        obtain rfl : length = 0 := hlength
        obtain rfl : offset = 0 := hoffset
        rw [hzero]
        exact .inl rfl
      | further hstate hlength => exact .inl rfl
    · exact .inr ⟨Int.natCast_nonneg _, bytes, s₁, rfl, ho, hle, hw⟩

theorem advanced_progress (ho : Opened s buffer s₁) (hs : Progress s ps part)
    (hle : s₁.info.txPacketOffset + buffer.length ≤ s₁.info.txPacketLength) :
    ∃ ps part, Progress
      { s₁ with outgoing := s₁.outgoing ++ buffer, info := s₁.info.advanced buffer.length }
      ps part := by
  obtain ⟨hbegins, hoffset, hmax⟩ := ho.begins hs hle
  obtain ⟨hout, hmaxlen, hstate⟩ := ho.frame
  have hwritten : s₁.outgoing ++ buffer = encodeAll ps ++ (part ++ buffer) := by
    rw [hout, hs.written, List.append_assoc]
  have hfits : ∀ p ∈ ps, p.size ≤ s₁.info.txPacketMaxLength := by
    rw [hmaxlen]
    exact hs.fits
  rw [SephInfo.advanced]
  split
  · rename_i hwhole
    obtain ⟨p, -, hsize, hp⟩ := hbegins.complete (by rw [List.length_append, hoffset, hwhole])
    refine ⟨ps ++ [p], [], ?_, ?_, fun _ => rfl, fun h => absurd rfl h, fun _ => rfl⟩
    · rw [encodeAll_concat, List.append_nil, ← hp]
      exact hwritten
    · intro q hq
      rcases List.mem_append.mp hq with hq | hq
      · exact hfits q hq
      · rw [List.mem_singleton.mp hq, hsize]
        exact hmax
  · rename_i hpart
    refine ⟨ps, part ++ buffer, hwritten, hfits, ?_, fun _ => ⟨hbegins, ?_, hmax⟩,
      fun h => absurd h hstate⟩
    · intro hzero
      have h3 := hbegins.length_le
      have hpos := hbegins.1
      rw [show s₁.info.txPacketLength = 0 from hzero] at h3
      omega
    · rw [List.length_append, hoffset]

theorem sephRx_fitting (h : sephRx s buffer maxLength flags header body = some (s', buffer', ret))
    (hfit : ReadsPacket s maxLength flags → Gathered s header) :
    s' = s ∨ 0 ≤ ret ∧ s.info.state = .waitEvent ∧ ∃ incoming rxPacket rxPacketLength,
      rxPacketLength = fromBE [rxPacket.cell 1, rxPacket.cell 2] + 3 ∧
      s' = { s with
        incoming
        info := { s.info with rxPacket, rxPacketLength, state := .sendCmd, txPacketLength := 0 } } := by
  rcases sephRx_cases h with ⟨rfl, -⟩ | ⟨-, rfl, -⟩ | ⟨hreads, hpacket⟩
  · exact .inl rfl
  · exact .inl rfl
  · obtain ⟨r, hr, hret, ⟨hlt, -⟩ | ⟨-, hpacket⟩⟩ := sephRxPacket_cases hpacket
    · have hle := hfit hreads r hr hret
      omega
    · obtain ⟨r', hr', -, rfl, -, rfl⟩ := sephRxBody_cases hpacket
      refine .inr ⟨by omega, hreads.2.2, _, _, _, ?_, rfl⟩
      rw [cell_readLoop hr' (.inl (by omega)), cell_readLoop hr' (.inl (by omega))]

theorem WellSized.keepsInfo (hfit : WellSized s a) : KeepsInfo s a := by
  intro s' ret h hret
  cases a with
  | tx buffer answers =>
    rcases sysOsIoSephTx_fitting h hfit with rfl | ⟨hpos, -⟩
    · rfl
    · omega
  | rx buffer maxLength flags header body =>
    rcases call_rx_cases h with rfl | ⟨region, buffer', rfl, hrx⟩
    · rfl
    · rcases sephRx_fitting hrx hfit with rfl | ⟨hpos, -⟩
      · rfl
      · omega

theorem step_progress (hs : Progress s ps part) (hwrites : WritesSucceed a) (hfit : WellSized s a)
    (h : step s a = some s') : ∃ ps part, Progress s' ps part := by
  obtain ⟨⟨s₂, ret⟩, hcall, rfl⟩ := Option.map_eq_some_iff.mp h
  cases a with
  | tx buffer answers =>
    rcases sysOsIoSephTx_fitting hcall hfit with rfl | ⟨-, bytes, s₁, rfl, ho, hle, w, hw, rfl⟩
    · exact ⟨ps, part, hs⟩
    · rw [writeall, writeLoop_delivers _ hwrites] at hw
      cases hw
      exact advanced_progress ho hs hle
  | rx buffer maxLength flags header body =>
    rcases call_rx_cases hcall with rfl | ⟨region, buffer', rfl, hrx⟩
    · exact ⟨ps, part, hs⟩
    · rcases sephRx_fitting hrx hfit with rfl | ⟨-, hwait, incoming, rxPacket, rxLength, -, rfl⟩
      · exact ⟨ps, part, hs⟩
      · exact ⟨ps, part, hs.written, hs.fits, fun _ => hs.idle (hs.wait hwait),
          fun h => absurd rfl h, fun h => absurd h (by simp)⟩

theorem initial_progress (incoming : Bytes) : Progress (.initial incoming) [] [] :=
  ⟨rfl, by simp, fun _ => rfl, fun h => absurd rfl h, fun _ => rfl⟩

-- ---------------------------------------------------------------------------
-- Errors
-- ---------------------------------------------------------------------------

/-- The length that is kept of a packet that was read is the one of its header. -/
def HeaderKept (s : St) : Prop :=
  s.info.rxPacketLength ≠ 0 →
    s.info.rxPacketLength = fromBE [s.info.rxPacket.cell 1, s.info.rxPacket.cell 2] + 3

theorem advanced_headerKept (ho : Opened s buffer s₁) (hs : HeaderKept s) (outgoing : Bytes)
    (n : Nat) :
    HeaderKept { s₁ with outgoing, info := s₁.info.advanced n } := by
  have hadvanced : (s₁.info.advanced n).rxPacketLength = s₁.info.rxPacketLength ∧
      (s₁.info.advanced n).rxPacket = s₁.info.rxPacket := by
    rw [SephInfo.advanced]
    split <;> exact ⟨rfl, rfl⟩
  unfold HeaderKept
  rw [hadvanced.1, hadvanced.2]
  cases ho with
  | first hstate hlength hmax => exact hs
  | further hstate hlength => exact hs

theorem step_headerKept (hs : HeaderKept s) (hfit : WellSized s a) (h : step s a = some s') :
    HeaderKept s' := by
  obtain ⟨⟨s₂, ret⟩, hcall, rfl⟩ := Option.map_eq_some_iff.mp h
  cases a with
  | tx buffer answers =>
    rcases sysOsIoSephTx_fitting hcall hfit with rfl | ⟨-, bytes, s₁, rfl, ho, -, w, -, rfl⟩
    · exact hs
    · exact advanced_headerKept ho hs _ _
  | rx buffer maxLength flags header body =>
    rcases call_rx_cases hcall with rfl | ⟨region, buffer', rfl, hrx⟩
    · exact hs
    · rcases sephRx_fitting hrx hfit with rfl | ⟨-, -, incoming, rxPacket, rxLength, hheader, rfl⟩
      · exact hs
      · exact fun _ => hheader

/-- A piece that is overlong or a packet that is too long changes `G_seph_info`. -/
theorem KeepsInfo.wellSized (hs : HeaderKept s) (h : KeepsInfo s a) : WellSized s a := by
  cases a with
  | tx buffer answers =>
    rcases buffer with _ | _ | ⟨tag, _ | ⟨hi, _ | ⟨lo, rest⟩⟩⟩
    · exact id
    · exact id
    · exact id
    · exact id
    · rintro ⟨hstate, hlength, hmax, hlt, hchange⟩
      have hcall : call s (.tx (some (tag :: hi :: lo :: rest)) answers) =
          some ({ s with info := { s.info with
            txPacketLength := (fromBE [hi, lo] + 3) % 65536, txPacketTag := tag
            txPacketOffset := 0 } }, -24) := by
        rw [call, sysOsIoSephTx, if_neg hstate, if_pos hlength, sephTxStart]
        dsimp only
        rw [if_neg (Nat.not_lt.mpr hmax), sephTxPiece, if_pos]
        simpa only [List.length_cons, Nat.zero_add] using hlt
      have hinfo := h _ _ hcall (by decide)
      have hzero : (fromBE [hi, lo] + 3) % 65536 = 0 :=
        (congrArg SephInfo.txPacketLength hinfo).trans hlength
      exact hchange hzero (congrArg SephInfo.txPacketTag hinfo).symm
        (congrArg SephInfo.txPacketOffset hinfo).symm
  | rx buffer maxLength flags header body =>
    cases buffer with
    | none => trivial
    | some region =>
      intro hreads r hr hret
      by_contra hlt
      have hpacket : sephRx s region maxLength flags header body =
          some ({ s with
            incoming := r.stream
            info := { s.info with
              rxPacket := r.buf, rxPacketLength := fromBE [r.buf.cell 1, r.buf.cell 2] } },
            region, -12) := by
        have hread : readall header s.incoming s.info.rxPacket 0 3 = some r := hr
        rw [sephRx_of_readsPacket hreads, sephRxPacket, hread, Option.bind_eq_bind,
          Option.bind_some, if_neg (Int.not_lt.mpr hret), if_pos (Nat.lt_of_not_le hlt)]
        rfl
      have hinfo := h _ _ (by rw [call, sysOsIoSephSeRxEvent, hpacket]; rfl) (by decide)
      have hlength : fromBE [r.buf.cell 1, r.buf.cell 2] = s.info.rxPacketLength :=
        congrArg SephInfo.rxPacketLength hinfo
      have hbuf : r.buf = s.info.rxPacket := congrArg SephInfo.rxPacket hinfo
      -- the header of a packet that was read before is another one
      have hkept := hs (by omega)
      rw [← hbuf] at hkept
      omega

-- ---------------------------------------------------------------------------
-- Every run
-- ---------------------------------------------------------------------------

/-- What is written is framed in all states of the run, and the calls that return an
error leave `G_seph_info` as it was. -/
structure SendsFramed (incoming : Bytes) (as : List Call) : Prop where
  framed : ∀ before after s, as = before ++ after →
    exec step (.initial incoming) before = some s → ∃ ps part, Framed s ps part
  keeps : Guarded step KeepsInfo (.initial incoming) as

/-- Where the kernel takes what is written, the runs that send packets are the ones of
well-sized calls. -/
theorem sendsFramed_iff (incoming : Bytes) (as : List Call)
    (hwrites : Guarded step (fun _ a => WritesSucceed a) (.initial incoming) as) :
    SendsFramed incoming as ↔ Guarded step WellSized (.initial incoming) as := by
  have hiff : Guarded step KeepsInfo (.initial incoming) as ↔
      Guarded step WellSized (.initial incoming) as :=
    (guarded_congr (fun s a hs => ⟨fun h => h.keepsInfo, fun h => h.wellSized hs⟩)
      (fun s a s' hs hfit h => step_headerKept hs hfit h) (fun h => absurd rfl h)).symm
  refine ⟨fun h => hiff.mp h.keeps, fun hfit => ⟨?_, hiff.mpr hfit⟩⟩
  rintro before after s rfl hs
  rw [guarded_iff_forall_split] at hwrites hfit
  have hstep : ∀ s a s', (∃ ps part, Progress s ps part) → WritesSucceed a ∧ WellSized s a →
      step s a = some s' → ∃ ps part, Progress s' ps part := by
    rintro s a s' ⟨ps, part, hs⟩ ⟨hwrites, hfit⟩ h
    exact step_progress hs hwrites hfit h
  have hguards : Guarded step (fun s a => WritesSucceed a ∧ WellSized s a) (.initial incoming)
      before := by
    refine guarded_iff_forall_split.mpr fun before' a after' s' hsplit hs' => ?_
    have hwhole : before ++ after = before' ++ a :: (after' ++ after) := by simp [hsplit]
    exact ⟨hwrites before' a _ s' hwhole hs', hfit before' a _ s' hwhole hs'⟩
  obtain ⟨ps, part, hprogress⟩ :=
    exec_invariant_of_guarded hstep ⟨[], [], initial_progress incoming⟩ hguards hs
  exact ⟨ps, part, hprogress.framed⟩

/-- A response in two pieces. -/
theorem sendsFramed_pieces :
    SendsFramed [] [.tx (some [0x53, 0, 2, 7]) [.moved 4], .tx (some [8]) [.moved 1]] := by
  have hfirst : Delivers 4 [.moved 4] := by decide
  have hsecond : Delivers 1 [.moved 1] := by decide
  have hfit : ¬ Overlong (.initial []) (some [0x53, 0, 2, 7]) :=
    fun h => absurd h.2.2.2.1 (by decide)
  exact (sendsFramed_iff [] [.tx (some [0x53, 0, 2, 7]) [.moved 4], .tx (some [8]) [.moved 1]]
    ⟨hfirst, fun _ _ => ⟨hsecond, fun _ _ => trivial⟩⟩).mpr
    ⟨hfit, fun _ _ => ⟨id, fun _ _ => trivial⟩⟩

theorem not_encodeAll (ps : List Packet) : encodeAll ps ≠ [1, 2, 3] := by
  rcases ps with _ | ⟨p, ps⟩
  · exact fun h => nomatch h
  · obtain ⟨hi, lo, hencode, hbody⟩ := p.exists_header
    rw [encodeAll_cons, hencode]
    intro h
    simp only [List.cons_append, List.cons.injEq, List.append_eq_nil_iff] at h
    obtain ⟨-, rfl, rfl, hnil, -⟩ := h
    rw [hnil] at hbody
    exact absurd hbody (by decide)

/-- A response with one byte too many is rejected, but `G_seph_info` is changed:
the next piece is written although it starts no packet of its size. -/
theorem sephTx_overlong :
    ∃ s s', call (.initial []) (.tx (some [0x53, 0, 0, 0]) [.moved 4]) = some (s, -24) ∧
      s.info ≠ (St.initial []).info ∧
      exec step (.initial [])
        [.tx (some [0x53, 0, 0, 0]) [.moved 4], .tx (some [1, 2, 3]) [.moved 3]] = some s' ∧
      ¬ ∃ ps part, Framed s' ps part := by
  obtain ⟨⟨s, ret⟩, hcall, hs⟩ := Option.map_eq_some_iff.mp (show
    (call (.initial []) (.tx (some [0x53, 0, 0, 0]) [.moved 4])).map
      (fun result => (result.1.info.txPacketLength, result.2)) = some (3, -24) by decide)
  obtain ⟨s', hexec, hs'⟩ := Option.map_eq_some_iff.mp (show (exec step (.initial [])
    [.tx (some [0x53, 0, 0, 0]) [.moved 4], .tx (some [1, 2, 3]) [.moved 3]]).map
      (fun s => (s.info.txPacketLength, s.outgoing)) = some (0, [1, 2, 3]) by decide)
  obtain ⟨hlength, rfl⟩ := Prod.mk.inj hs
  obtain ⟨hlength', hout⟩ := Prod.mk.inj hs'
  refine ⟨s, s', hcall, ?_, hexec, ?_⟩
  · intro h
    rw [h] at hlength
    exact absurd hlength (by decide)
  · rintro ⟨ps, part, hframed⟩
    have hwritten := hframed.written
    rw [hframed.idle hlength', List.append_nil, hout] at hwritten
    exact not_encodeAll ps hwritten.symm

end Speculos.Seph.Io
