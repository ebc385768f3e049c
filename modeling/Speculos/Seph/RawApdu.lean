import Speculos.Seph.EventOrder

/-!
# Raw command responses

`os_io_seph_cmd_raw_apdu` of `os_io_seph_cmd.c` sends a header and a body as two commands, and
does not look at what the first one returns. A header that is refused, because the packet would
be too long, leaves the body to be taken for the beginning of a packet of its own.
-/

namespace Speculos.Seph.OsIo

open Lib Io

def seproxyhalTagRapdu : UInt8 := 0x53

/-- `os_io_seph_cmd_raw_apdu`, where the length has 16 bits. -/
def osIoSephCmdRawApdu (s : St) (buffer : Bytes) (header body : CmdAnswers) : Option St :=
  if buffer.length ≠ 0 then do
    let (s, _) ← osIoTxCmd s (seproxyhalTagRapdu :: be16 buffer.length) header
    let (s, _) ← osIoTxCmd s buffer body
    return s
  else return s

def rapdu (buffer : Bytes) (hlength : buffer.length < 65536) : Packet :=
  ⟨seproxyhalTagRapdu, buffer, hlength⟩

/-- The packet was written as a whole or nothing, and no packet is half sent. -/
structure WholeOrNothing (p : Packet) (io io' : Io.St) : Prop where
  written : io'.outgoing = io.outgoing ++ p.encode ∨ io'.outgoing = io.outgoing
  whole : io'.info.txPacketLength = 0

theorem wholeOrNothing_congr (h : io₁.outgoing = io₂.outgoing) :
    WholeOrNothing p io₁ io ↔ WholeOrNothing p io₂ io :=
  ⟨fun hp => ⟨h ▸ hp.written, hp.whole⟩, fun hp => ⟨h ▸ hp.written, hp.whole⟩⟩

-- ---------------------------------------------------------------------------
-- States of G_seph_info
-- ---------------------------------------------------------------------------

/-- The sizes of the buffers. -/
structure Sized (io : Io.St) : Prop where
  txMax : io.info.txPacketMaxLength = osIoSephBufferSize
  rxMax : io.info.rxPacketMaxLength = osIoSephBufferSize

theorem step_sized (hs : Sized s) (h : Io.step s a = some s') : Sized s' := by
  obtain ⟨⟨s₂, ret⟩, hcall, rfl⟩ := Option.map_eq_some_iff.mp h
  cases a with
  | tx buffer answers =>
    rcases sysOsIoSephTx_cases hcall with rfl | ⟨bytes, s₁, -, ho, hpiece⟩
    · exact hs
    · have hopened : Sized s₁ := by
        cases ho with
        | first hstate hlength hmax => exact ⟨hs.txMax, hs.rxMax⟩
        | further hstate hlength => exact hs
      rcases sephTxPiece_cases hpiece with ⟨-, rfl⟩ | ⟨-, -, w, -, rfl⟩
      · exact hopened
      · dsimp only
        rw [SephInfo.advanced]
        constructor
        · dsimp only
          split
          · exact hopened.txMax
          · exact hopened.txMax
        · dsimp only
          split
          · exact hopened.rxMax
          · exact hopened.rxMax
  | rx buffer maxLength flags header body =>
    rcases call_rx_cases hcall with rfl | ⟨region, buffer', rfl, hrx⟩
    · exact hs
    · rcases sephRx_cases hrx with ⟨rfl, -⟩ | ⟨-, rfl, -⟩ | ⟨-, hpacket⟩
      · exact hs
      · exact hs
      · obtain ⟨r, -, -, ⟨-, -, rfl⟩ | ⟨-, hbody⟩⟩ := sephRxPacket_cases hpacket
        · exact ⟨hs.txMax, hs.rxMax⟩
        · obtain ⟨r', -, -, -, -, rfl⟩ := sephRxBody_cases hbody
          exact ⟨hs.txMax, hs.rxMax⟩

theorem exec_sized (h : exec Io.step (.initial incoming) as = some s) : Sized s :=
  exec_invariant (fun _ _ _ hs hstep => step_sized hs hstep) ⟨rfl, rfl⟩ h

-- ---------------------------------------------------------------------------
-- Commands
-- ---------------------------------------------------------------------------

/-- The kernel takes all the bytes that are written. -/
def Takes (buffer : Bytes) (answers : CmdAnswers) : Prop :=
  Delivers buffer.length answers.write ∧ Delivers buffer.length answers.rewrite

instance (buffer : Bytes) (answers : CmdAnswers) : Decidable (Takes buffer answers) :=
  inferInstanceAs (Decidable (_ ∧ _))

/-- An event of the MCU is there, with its header in one piece. -/
def EventAvailable (io : Io.St) (answers : CmdAnswers) : Prop :=
  ∃ (p : Packet) (after : Bytes), io.incoming = p.encode ++ after ∧ p.size ≤ osIoSephBufferSize ∧
    Delivers 3 answers.header ∧ pieces answers.header ≤ 1 ∧ Delivers p.body.length answers.body

theorem seRxEvent_available (hs : Settled s.io) (hwait : s.io.info.state = .waitEvent)
    (h : EventAvailable s.io answers) :
    ∃ s' n, seRxEvent s osIoFlagNoItc answers.header answers.body = some (s', n) ∧ 0 ≤ n ∧
      Settled s'.io ∧ s'.io.info.state = .sendCmd ∧ s'.io.outgoing = s.io.outgoing := by
  obtain ⟨p, after, hincoming, hsize, hheader, hpiece, hbody⟩ := h
  have hlen : 3 ≤ s.io.incoming.length := by
    rw [hincoming, List.length_append, Packet.length_encode, Packet.size]
    omega
  obtain ⟨buf, hread⟩ := readLoop_delivers s.io.info.rxPacket 0 hlen hheader
  rw [hincoming] at hread
  obtain ⟨hlength, hstream, -⟩ := readLoop_header hpiece hread (Int.le_refl 0)
  obtain ⟨buf', hread'⟩ := readLoop_delivers buf 3
    (show p.body.length ≤ (p.body ++ after).length by rw [List.length_append]; omega) hbody
  dsimp only at hlength hstream
  have hfits : ¬ p.body.length > osIoSephBufferSize - 3 := by
    rw [Packet.size] at hsize
    omega
  have hrx : sephRx s.io s.sephBuffer sephBufferLength osIoFlagNoItc answers.header answers.body =
      sephRxPacket s.io s.sephBuffer answers.header answers.body :=
    sephRx_of_readsPacket ⟨by rw [hs.rxMax, sephBufferLength]; omega, rfl, hwait⟩
  rw [seRxEvent, hrx, sephRxPacket, hincoming, readall, hread]
  dsimp only [Option.bind_eq_bind, Option.bind_some]
  rw [if_neg (Int.lt_irrefl 0), hlength, hs.rxMax, if_neg hfits, sephRxBody]
  dsimp only
  rw [hlength, hstream, readall, hread']
  exact ⟨_, _, rfl, Int.natCast_nonneg _, ⟨rfl, hs.txMax, hs.rxMax⟩, rfl, rfl⟩

theorem sephTxPiece_ne_wrong_state (h : sephTxPiece io buffer answers = some (io', ret)) :
    ret ≠ -1 := by
  rw [sephTxPiece] at h
  split at h
  · cases h
    decide
  · obtain ⟨w, -, h⟩ := Option.bind_eq_some_iff.mp h
    cases h
    omega

/-- A piece that is sent while no event is waited for is not refused for a wrong state. -/
theorem sysOsIoSephTx_ne_wrong_state (hstate : io.info.state ≠ .waitEvent)
    (h : sysOsIoSephTx io answers buffer = some (io', ret)) : ret ≠ -1 := by
  rcases buffer with _ | _ | ⟨b, rest⟩
  · cases h
    decide
  · cases h
    decide
  · rw [sysOsIoSephTx, if_neg hstate] at h
    split at h
    · rcases rest with _ | ⟨hi, _ | ⟨lo, rest⟩⟩
      · cases h
        decide
      · cases h
        decide
      · rw [sephTxStart] at h
        split at h
        · cases h
          decide
        · exact sephTxPiece_ne_wrong_state h
    · exact sephTxPiece_ne_wrong_state h

theorem osIoTxCmd_of_state (hstate : s.io.info.state ≠ .waitEvent)
    (h : sysOsIoSephTx s.io answers.write (some buffer) = some (io, ret)) :
    osIoTxCmd s buffer answers = some ({ s with io }, ret) := by
  rw [osIoTxCmd, h]
  dsimp only [Option.bind_eq_bind, Option.bind_some]
  rw [if_neg (sysOsIoSephTx_ne_wrong_state hstate h)]
  rfl

theorem osIoTxCmd_sends (hs : Settled s.io) (hstatus : ¬ isStatus tag)
    (havailable : s.io.info.state = .waitEvent → EventAvailable s.io answers)
    (htakes : Takes (tag :: rest) answers) :
    ∃ io writes, Settled io ∧ io.info.state ≠ .waitEvent ∧ io.outgoing = s.io.outgoing ∧
      Delivers (tag :: rest).length writes ∧
      ∀ io' ret, sysOsIoSephTx io writes (some (tag :: rest)) = some (io', ret) →
        ∃ s' ret', osIoTxCmd s (tag :: rest) answers = some (s', ret') ∧ s'.io = io' := by
  by_cases hwait : s.io.info.state = .waitEvent
  · obtain ⟨s₁, n, hread, hpos, hs₁, hstate, houtgoing⟩ :=
      seRxEvent_available hs hwait (havailable hwait)
    have hstate₁ : s₁.io.info.state ≠ .waitEvent := by
      rw [hstate]
      decide
    refine ⟨s₁.io, answers.rewrite, hs₁, hstate₁, houtgoing, htakes.2, fun io' ret hsent => ?_⟩
    have hrefused : sysOsIoSephTx s.io answers.write (some (tag :: rest)) = some (s.io, -1) := by
      rw [sysOsIoSephTx, if_pos hwait, if_neg fun h => hstatus h.2]
    rw [osIoTxCmd, hrefused]
    dsimp only [Option.bind_eq_bind, Option.bind_some]
    rw [if_pos rfl, hread]
    dsimp only [Option.bind_some]
    rw [if_pos hpos, hsent]
    exact ⟨_, _, rfl, rfl⟩
  · exact ⟨s.io, answers.write, hs, hwait, rfl, htakes.1, fun io' ret hsent =>
      ⟨_, _, osIoTxCmd_of_state hwait hsent, rfl⟩⟩

-- ---------------------------------------------------------------------------
-- Header and body
-- ---------------------------------------------------------------------------

theorem sephTxPiece_written
    (hfits : io.info.txPacketOffset + buffer.length ≤ io.info.txPacketLength)
    (hwrites : Delivers buffer.length writes) :
    sephTxPiece io buffer writes = some ({ io with
      outgoing := io.outgoing ++ buffer
      info := io.info.advanced buffer.length }, (buffer.length : Int)) := by
  rw [sephTxPiece, if_neg (Nat.not_lt.mpr hfits), writeall, writeLoop_delivers io.outgoing hwrites]
  rfl

theorem sephTxPiece_refused
    (hlong : io.info.txPacketLength < io.info.txPacketOffset + buffer.length) :
    sephTxPiece io buffer writes = some (io, -24) := if_pos hlong

theorem sysOsIoSephTx_start (hs : Settled io) (hstate : io.info.state ≠ .waitEvent)
    (hi lo : UInt8) (rest : Bytes) (writes : List Answer) :
    sysOsIoSephTx io writes (some (tag :: hi :: lo :: rest)) =
      if (fromBE [hi, lo] + 3) % 65536 > osIoSephBufferSize then some (io, -25)
      else sephTxPiece
        { io with info := { io.info with
          txPacketLength := (fromBE [hi, lo] + 3) % 65536, txPacketTag := tag, txPacketOffset :=
            0 } }
        (tag :: hi :: lo :: rest) writes := by
  have hinfo : { io.info with txPacketLength := 0 } = io.info := by rw [← hs.tx]
  rw [sysOsIoSephTx, if_neg hstate, if_pos hs.tx, sephTxStart, hs.txMax, hinfo]

theorem header_begins (hs : Settled io) (hstate : io.info.state ≠ .waitEvent) (hpos : 0 < n)
    (hfits : n + 3 ≤ osIoSephBufferSize)
    (hwrites : Delivers (seproxyhalTagRapdu :: be16 n).length writes) :
    ∃ io' ret, sysOsIoSephTx io writes (some (seproxyhalTagRapdu :: be16 n)) = some (io', ret) ∧
      io'.info.txPacketLength = n + 3 ∧ io'.info.txPacketOffset = 3 ∧
      io'.info.state ≠ .waitEvent ∧ io'.outgoing = io.outgoing ++ seproxyhalTagRapdu :: be16 n := by
  have hlarge : osIoSephBufferSize = 272 := rfl
  have hlength : (fromBE (be16 n) + 3) % 65536 = n + 3 := by
    rw [fromBE_be16 n (by omega)]
    exact Nat.mod_eq_of_lt (by omega)
  rw [be16] at hlength hwrites ⊢
  rw [sysOsIoSephTx_start hs hstate, hlength, if_neg (Nat.not_lt.mpr hfits),
    sephTxPiece_written (by simp) hwrites, SephInfo.advanced]
  dsimp only [List.length_cons, List.length_nil]
  rw [if_neg (by omega)]
  exact ⟨_, _, rfl, rfl, rfl, hstate, rfl⟩

theorem header_refused (hs : Settled io) (hstate : io.info.state ≠ .waitEvent)
    (hlong : osIoSephBufferSize < n + 3) (hlength : n ≤ 65533) (writes : List Answer) :
    ∃ io' ret, sysOsIoSephTx io writes (some (seproxyhalTagRapdu :: be16 n)) = some (io', ret) ∧
      Settled io' ∧ io'.info.state ≠ .waitEvent ∧ io'.outgoing = io.outgoing := by
  have hlarge : osIoSephBufferSize = 272 := rfl
  have hheader := fromBE_be16 n (by omega)
  rw [be16] at hheader ⊢
  rw [sysOsIoSephTx_start hs hstate, hheader]
  by_cases hwrap : n = 65533
  · rw [if_neg (by omega)]
    refine ⟨_, _, sephTxPiece_refused ?_, ⟨?_, hs.txMax, hs.rxMax⟩, hstate, rfl⟩
    · dsimp only [List.length_cons, List.length_nil]
      omega
    · dsimp only
      omega
  · rw [if_pos (by omega)]
    exact ⟨io, _, rfl, hs, hstate, rfl⟩

/-- A header whose packet length passes 16 bits begins a packet of one or two bytes, which it is
too long for. -/
theorem header_wraps (hs : Settled io) (hstate : io.info.state ≠ .waitEvent)
    (hlong : 65533 < n) (hlength : n < 65536) (writes : List Answer) :
    ∃ io' ret, sysOsIoSephTx io writes (some (seproxyhalTagRapdu :: be16 n)) = some (io', ret) ∧
      io'.info.txPacketLength = n - 65533 ∧ io'.info.txPacketOffset = 0 ∧
      io'.info.state ≠ .waitEvent ∧ io'.outgoing = io.outgoing := by
  have hlarge : osIoSephBufferSize = 272 := rfl
  have hheader := fromBE_be16 n hlength
  rw [be16] at hheader ⊢
  rw [sysOsIoSephTx_start hs hstate, hheader, if_neg (by omega)]
  refine ⟨_, _, sephTxPiece_refused ?_, ?_, rfl, hstate, rfl⟩
  · dsimp only [List.length_cons, List.length_nil]
    omega
  · dsimp only
    omega

theorem sysOsIoSephTx_further (hstate : io.info.state ≠ .waitEvent)
    (hprogress : io.info.txPacketLength ≠ 0) (hbuffer : buffer ≠ []) (writes : List Answer) :
    sysOsIoSephTx io writes (some buffer) = sephTxPiece io buffer writes := by
  obtain ⟨b, rest, rfl⟩ := List.exists_cons_of_ne_nil hbuffer
  rw [sysOsIoSephTx, if_neg hstate, if_neg hprogress]

theorem body_starts (hs : Settled io) (hstate : io.info.state ≠ .waitEvent)
    (hlong : osIoSephBufferSize < buffer.length + 3) (hlength : buffer.length < 65536)
    (hwrites : Delivers buffer.length writes) :
    ∃ io' ret, sysOsIoSephTx io writes (some buffer) = some (io', ret) ∧
      (WholeOrNothing (rapdu buffer hlength) io io' ↔
        osIoSephBufferSize < nextBody buffer + 3 ∧ nextBody buffer + 3 ≤ 65536) := by
  have hlarge : osIoSephBufferSize = 272 := rfl
  obtain ⟨tag, hi, lo, rest, rfl⟩ : ∃ tag hi lo rest, buffer = tag :: hi :: lo :: rest := by
    rcases buffer with _ | ⟨tag, _ | ⟨hi, _ | ⟨lo, rest⟩⟩⟩
    · simp at hlong; omega
    · simp at hlong; omega
    · simp at hlong; omega
    · exact ⟨tag, hi, lo, rest, rfl⟩
  have hbody : nextBody (tag :: hi :: lo :: rest) = fromBE [hi, lo] := rfl
  have hlt := fromBE_pair_lt hi lo
  rw [hbody, sysOsIoSephTx_start hs hstate]
  by_cases hrefused : (fromBE [hi, lo] + 3) % 65536 > osIoSephBufferSize
  · rw [if_pos hrefused]
    exact ⟨io, _, rfl, iff_of_true ⟨.inr rfl, hs.tx⟩ (by omega)⟩
  · rw [if_neg hrefused]
    by_cases hfits : (tag :: hi :: lo :: rest).length ≤ (fromBE [hi, lo] + 3) % 65536
    · rw [sephTxPiece_written (by dsimp only; omega) hwrites]
      refine ⟨_, _, rfl, iff_of_false (fun h => ?_) (by omega)⟩
      have hlen : ∀ p : Bytes, io.outgoing ++ tag :: hi :: lo :: rest = io.outgoing ++ p →
          p.length = (tag :: hi :: lo :: rest).length := fun p heq =>
        congrArg List.length (List.append_cancel_left heq).symm
      rcases h.written with hpacket | hnothing
      · have heq := hlen _ hpacket
        rw [Packet.length_encode, Packet.size, rapdu] at heq
        dsimp only at heq
        omega
      · have heq := hlen [] (hnothing.trans (List.append_nil _).symm)
        cases heq
    · refine ⟨_, _, sephTxPiece_refused (by dsimp only; omega), ?_⟩
      constructor
      · intro h
        have hwhole : (fromBE [hi, lo] + 3) % 65536 = 0 := h.whole
        omega
      · intro h
        refine ⟨.inr rfl, ?_⟩
        dsimp only
        omega

-- ---------------------------------------------------------------------------
-- The response
-- ---------------------------------------------------------------------------

/-- The packet fits, or its header is refused and so is the body, of which the second and third
bytes are taken for a length. -/
def SentWhole (buffer : Bytes) : Prop :=
  buffer.length + 3 ≤ osIoSephBufferSize ∨
    buffer.length ≤ 65533 ∧ osIoSephBufferSize < nextBody buffer + 3 ∧
      nextBody buffer + 3 ≤ 65536

theorem body_completes (hbuffer : buffer ≠ []) (hlength : buffer.length < 65536)
    (hstate : io₁.info.state ≠ .waitEvent) (htx : io₁.info.txPacketLength = buffer.length + 3)
    (hoffset : io₁.info.txPacketOffset = 3)
    (houtgoing : io₁.outgoing = io.outgoing ++ seproxyhalTagRapdu :: be16 buffer.length)
    (hwrites : Delivers buffer.length writes) :
    ∃ io' ret, sysOsIoSephTx io₁ writes (some buffer) = some (io', ret) ∧
      WholeOrNothing (rapdu buffer hlength) io io' := by
  rw [sysOsIoSephTx_further hstate (by omega) hbuffer, sephTxPiece_written (by omega) hwrites]
  refine ⟨_, _, rfl, .inl ?_, ?_⟩
  · dsimp only
    rw [houtgoing, List.append_assoc]
    rfl
  · dsimp only
    rw [SephInfo.advanced, if_pos (by omega)]

theorem osIoSephCmdRawApdu_of_sent (hbuffer : buffer.length ≠ 0)
    (hfirst : osIoTxCmd s (seproxyhalTagRapdu :: be16 buffer.length) header = some (s₁, ret₁))
    (hsecond : osIoTxCmd s₁ buffer body = some (s₂, ret₂)) :
    osIoSephCmdRawApdu s buffer header body = some s₂ := by
  rw [osIoSephCmdRawApdu, if_pos hbuffer, hfirst]
  dsimp only [Option.bind_eq_bind, Option.bind_some]
  rw [hsecond]
  rfl

/-- From every reachable state without a packet that is half sent, and with an event of the MCU
where one is waited for, a response of 1 to 65535 bytes is written as a whole or not
at all exactly where the packet fits, or where header and body are both refused. -/
theorem osIoSephCmdRawApdu_iff (incoming : Bytes) (calls : List Io.Call) (s : St)
    (hreach : exec Io.step (.initial incoming) calls = some s.io)
    (hwhole : s.io.info.txPacketLength = 0) (buffer : Bytes) (hpos : 1 ≤ buffer.length)
    (hlength : buffer.length < 65536) (header body : CmdAnswers)
    (hheader : Takes (seproxyhalTagRapdu :: be16 buffer.length) header)
    (hbody : Takes buffer body)
    (havailable : s.io.info.state = .waitEvent → EventAvailable s.io header) :
    ∃ s', osIoSephCmdRawApdu s buffer header body = some s' ∧
      (WholeOrNothing (rapdu buffer hlength) s.io s'.io ↔ SentWhole buffer) := by
  have hlarge : osIoSephBufferSize = 272 := rfl
  have hsized := exec_sized hreach
  have hbuffer : buffer ≠ [] := List.length_pos_iff.mp hpos
  obtain ⟨io, writes, hio, hstate, houtgoing, hwrites, hsends⟩ :=
    osIoTxCmd_sends ⟨hwhole, hsized.txMax, hsized.rxMax⟩ (by decide) havailable hheader
  simp only [wholeOrNothing_congr houtgoing.symm]
  have hpair : ∀ io₁ ret₁ io₂ ret₂,
      sysOsIoSephTx io writes (some (seproxyhalTagRapdu :: be16 buffer.length)) =
        some (io₁, ret₁) → io₁.info.state ≠ .waitEvent →
      sysOsIoSephTx io₁ body.write (some buffer) = some (io₂, ret₂) →
      ∃ s', osIoSephCmdRawApdu s buffer header body = some s' ∧ s'.io = io₂ := by
    intro io₁ ret₁ io₂ ret₂ hfirst hstate₁ hsecond
    obtain ⟨s₁, ret, htx, rfl⟩ := hsends io₁ ret₁ hfirst
    exact ⟨_, osIoSephCmdRawApdu_of_sent (by omega) htx (osIoTxCmd_of_state hstate₁ hsecond), rfl⟩
  rcases Nat.lt_or_ge osIoSephBufferSize (buffer.length + 3) with hlong | hfits
  · rcases Nat.lt_or_ge 65533 buffer.length with hwraps | hrefused
    · obtain ⟨io₁, ret₁, hfirst, htx, hoffset, hstate₁, -⟩ :=
        header_wraps hio hstate hwraps hlength writes
      have hsecond : sysOsIoSephTx io₁ body.write (some buffer) = some (io₁, -24) := by
        rw [sysOsIoSephTx_further hstate₁ (by omega) hbuffer, sephTxPiece_refused (by omega)]
      obtain ⟨s', hs', rfl⟩ := hpair io₁ ret₁ io₁ _ hfirst hstate₁ hsecond
      refine ⟨s', hs', iff_of_false (fun h => ?_) ?_⟩
      · have hclosed := h.whole
        omega
      · rw [SentWhole]
        omega
    · obtain ⟨io₁, ret₁, hfirst, hio₁, hstate₁, houtgoing₁⟩ :=
        header_refused hio hstate hlong hrefused writes
      obtain ⟨io₂, ret₂, hsecond, hiff⟩ := body_starts hio₁ hstate₁ hlong hlength hbody.1
      obtain ⟨s', hs', rfl⟩ := hpair io₁ ret₁ io₂ ret₂ hfirst hstate₁ hsecond
      refine ⟨s', hs', ?_⟩
      rw [← wholeOrNothing_congr houtgoing₁, hiff, SentWhole]
      omega
  · obtain ⟨io₁, ret₁, hfirst, htx, hoffset, hstate₁, houtgoing₁⟩ :=
      header_begins hio hstate hpos hfits hwrites
    obtain ⟨io₂, ret₂, hsecond, hsent⟩ :=
      body_completes hbuffer hlength hstate₁ htx hoffset houtgoing₁ hbody.1
    obtain ⟨s', hs', rfl⟩ := hpair io₁ ret₁ io₂ ret₂ hfirst hstate₁ hsecond
    exact ⟨s', hs', iff_of_true hsent (.inl hfits)⟩

/-- The status word 0x9000 in the initial state. -/
theorem osIoSephCmdRawApdu_statusWord :
    ∃ s', osIoSephCmdRawApdu (.initial []) [0x90, 0x00] ⟨[.moved 3], [], [], [.moved 3]⟩
        ⟨[.moved 2], [], [], [.moved 2]⟩ = some s' ∧
      (WholeOrNothing (rapdu [0x90, 0x00] (by decide)) (.initial []) s'.io ↔
        SentWhole [0x90, 0x00]) :=
  osIoSephCmdRawApdu_iff [] [] (.initial []) rfl rfl [0x90, 0x00] (by decide) (by decide)
    ⟨[.moved 3], [], [], [.moved 3]⟩ ⟨[.moved 2], [], [], [.moved 2]⟩ (by decide) (by decide)
    fun hwait => absurd hwait (by decide)

/-- A response of 270 zeros: the body begins a packet of three bytes, which it does not end. -/
theorem osIoSephCmdRawApdu_leaves_open :
    ¬ ∀ (incoming : Bytes) (calls : List Io.Call) (s : St),
      exec Io.step (.initial incoming) calls = some s.io → s.io.info.txPacketLength = 0 →
      ∀ (buffer : Bytes), 1 ≤ buffer.length → ∀ (hlength : buffer.length < 65536)
        (header body : CmdAnswers), Takes (seproxyhalTagRapdu :: be16 buffer.length) header →
        Takes buffer body → (s.io.info.state = .waitEvent → EventAvailable s.io header) →
        ∃ s', osIoSephCmdRawApdu s buffer header body = some s' ∧
          WholeOrNothing (rapdu buffer hlength) s.io s'.io := by
  intro h
  have hlen : (List.replicate 270 (0 : UInt8)).length = 270 := List.length_replicate
  obtain ⟨s', hs', hsent⟩ := h [] [] (.initial []) rfl rfl (List.replicate 270 0) (by omega)
    (by omega) ⟨[.moved 3], [], [], [.moved 3]⟩ ⟨[.moved 270], [], [], [.moved 270]⟩ (by decide)
    (by decide +kernel) fun hwait => absurd hwait (by decide)
  have hopen : (osIoSephCmdRawApdu (.initial []) (List.replicate 270 0)
      ⟨[.moved 3], [], [], [.moved 3]⟩ ⟨[.moved 270], [], [], [.moved 270]⟩).map
        (fun s => s.io.info.txPacketLength) = some 3 := by
    decide +kernel
  rw [hs', Option.map_some, hsent.whole] at hopen
  cases hopen

end Speculos.Seph.OsIo
