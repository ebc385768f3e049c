import Speculos.Seph.Io
import Speculos.Seph.RxBounded

/-!
# Events reach the application in order

As long as no command other than a status is sent while an event is kept and
another one is waited for (`KeepsEvents`), the events that `os_io_rx_evt` returned
are the events that were read, in order, but for the one that is kept. Such a
command would read an event over the one in `G_io_seph_buffer`.
-/

namespace Speculos.Seph.OsIo

open Lib Io

/-- An event as it is handed over, behind its type. -/
def event (p : Packet) : Bytes := osIoPacketTypeSeph :: p.encode

theorem length_event (p : Packet) : (event p).length = p.size + 1 := by
  rw [event, List.length_cons, Packet.length_encode]

/-- `G_io_seph_buffer` holds this event. -/
def Holds (s : St) (p : Packet) : Prop := s.sephBuffer.slice 0 (p.size + 1) = event p

/-- The event that is kept. -/
def Keeps (s : St) : Option Packet → Prop
  | none => s.sephBufferSize = 0
  | some p => s.sephBufferSize = p.size + 1 ∧ Holds s p

/-- No packet is half sent, and the seph buffer has its size. -/
structure Settled (io : Io.St) : Prop where
  tx : io.info.txPacketLength = 0
  txMax : io.info.txPacketMaxLength = osIoSephBufferSize
  rxMax : io.info.rxPacketMaxLength = osIoSephBufferSize

-- ---------------------------------------------------------------------------
-- Sending a whole packet
-- ---------------------------------------------------------------------------

theorem sephTxStart_whole {p : Packet} (h : sephTxStart io answers p.encode = some (io', ret))
    (hio : Settled io) (hsize : p.size < 65536) :
    ret = -25 ∧ osIoSephBufferSize < p.size ∧ io' = io ∨
      ret = (p.size : Int) ∧ ∃ outgoing state,
        io' = { io with
          outgoing
          info := { io.info with txPacketOffset := p.size, txPacketTag := 0, state } } ∧
        (isStatus p.tag → state = .waitEvent) := by
  obtain ⟨hi, lo, hencode, hbody⟩ := p.exists_header
  have hlen := p.length_encode
  have hlength : (fromBE [hi, lo] + 3) % 65536 = p.size := by
    rw [hbody]
    exact Nat.mod_eq_of_lt hsize
  rw [hencode] at h hlen
  rw [sephTxStart, hlength, hio.txMax] at h
  split at h
  · rename_i hlarge
    cases h
    rw [← hio.tx]
    exact .inl ⟨rfl, hlarge, rfl⟩
  · rcases sephTxPiece_cases h with ⟨hlt, -⟩ | ⟨-, rfl, w, -, rfl⟩
    · rw [hlen] at hlt
      dsimp only at hlt
      omega
    · refine .inr ⟨by rw [hlen], w.stream, if isStatus p.tag then .waitEvent else io.info.state, ?_,
        fun hstatus => if_pos hstatus⟩
      rw [SephInfo.advanced, hlen]
      dsimp only
      rw [Nat.zero_add, if_pos rfl, ← hio.tx]

theorem sysOsIoSephTx_whole {p : Packet}
    (h : sysOsIoSephTx io answers (some p.encode) = some (io', ret)) (hio : Settled io)
    (hsize : p.size < 65536) :
    Settled io' ∧ io'.incoming = io.incoming ∧
      (ret = -1 → io.info.state = .waitEvent ∧ ¬ isStatus p.tag ∧ io' = io) ∧
      (io.info.state ≠ .waitEvent → p.size ≤ osIoSephBufferSize → isStatus p.tag →
        0 ≤ ret ∧ io'.info.state = .waitEvent) := by
  rw [show p.encode = p.tag :: (be16 p.body.length ++ p.body) from rfl, sysOsIoSephTx] at h
  split at h
  · rename_i hwait
    split at h
    · cases h
      exact ⟨hio, rfl, fun hret => absurd hret (by omega), fun hne => absurd hwait hne⟩
    · rename_i hstatus
      cases h
      exact ⟨hio, rfl, fun _ => ⟨hwait, fun htag => hstatus ⟨hio.tx, htag⟩, rfl⟩,
        fun hne => absurd hwait hne⟩
  · rw [if_pos hio.tx] at h
    rcases sephTxStart_whole h hio hsize with
      ⟨rfl, hlarge, rfl⟩ | ⟨rfl, outgoing, state, rfl, hstate⟩
    · exact ⟨hio, rfl, fun hret => absurd hret (by decide), fun _ hfits => by omega⟩
    · exact ⟨⟨hio.tx, hio.txMax, hio.rxMax⟩, rfl, fun hret => absurd hret (by omega),
        fun _ _ hstatus => ⟨by omega, hstate hstatus⟩⟩

-- ---------------------------------------------------------------------------
-- Reading an event
-- ---------------------------------------------------------------------------

theorem seRxEvent_reads (h : seRxEvent s flags header body = some (s', status))
    (hs : Settled s.io) (hflags : flags &&& osIoFlagCache = 0)
    (hincoming : s.io.incoming = encodeAll rest) (hfit : ∀ p ∈ rest, p.size ≤ osIoSephBufferSize)
    (hheader : pieces header ≤ 1) (hbody : pieces body ≤ 1)
    (hwait : s.io.info.state = .waitEvent) :
    ∃ p rest', rest = p :: rest' ∧ status = (p.size + 1 : Int) ∧ Holds s' p ∧ Settled s'.io ∧
      s'.io.incoming = encodeAll rest' ∧ s'.io.info.state = .sendCmd ∧
      s'.sephBufferSize = s.sephBufferSize := by
  obtain ⟨⟨io, sephBuffer, ret⟩, hrx, heq⟩ := Option.bind_eq_some_iff.mp h
  cases heq
  rw [sephRx_of_readsPacket ⟨by rw [hs.rxMax, sephBufferLength]; omega, hflags, hwait⟩] at hrx
  rcases rest with _ | ⟨p, rest'⟩
  · obtain ⟨r, hr, hret, -⟩ := sephRxPacket_cases hrx
    rw [hincoming] at hr
    exact absurd (readLoop_one_piece hheader hr hret).1 (by decide)
  · rw [encodeAll_cons] at hincoming
    have hsize : p.size ≤ s.io.info.rxPacketMaxLength := by
      rw [hs.rxMax]
      exact hfit p (by simp)
    obtain ⟨rfl, rfl, rfl⟩ := sephRxPacket_packet hrx hincoming hsize hheader hbody
    have hmemcpy := s.sephBuffer.memcpy_cons 0 osIoPacketTypeSeph p.encode
    rw [Packet.length_encode] at hmemcpy
    refine ⟨p, rest', rfl, rfl, ?_, ⟨rfl, hs.txMax, hs.rxMax⟩, rfl, rfl, rfl⟩
    show Region.slice _ 0 (p.size + 1) = event p
    rw [hmemcpy, ← length_event]
    exact Region.slice_memcpy_length _ _

theorem seRxEvent_wrong_state (h : seRxEvent s flags header body = some (s', status))
    (hs : Settled s.io) (hflags : flags &&& osIoFlagCache = 0)
    (hwait : s.io.info.state ≠ .waitEvent) : s' = s ∧ status = -1 := by
  obtain ⟨⟨io, sephBuffer, ret⟩, hrx, heq⟩ := Option.bind_eq_some_iff.mp h
  cases heq
  rw [sephRx, if_neg (by rw [hs.rxMax, sephBufferLength]; omega), if_neg (not_not.mpr hflags),
    if_pos hwait] at hrx
  cases hrx
  exact ⟨rfl, rfl⟩

-- ---------------------------------------------------------------------------
-- The calls
-- ---------------------------------------------------------------------------

/-- The event that is kept and the events that are still to be read. -/
structure Intact (s : St) (kept : Option Packet) (rest : List Packet) : Prop where
  io : Settled s.io
  kept : Keeps s kept
  incoming : s.io.incoming = encodeAll rest

theorem osIoTxCmd_intact {p : Packet} (h : osIoTxCmd s p.encode answers = some (s', status))
    (hs : Intact s kept rest) (hsize : p.size < 65536)
    (hfit : ∀ p ∈ rest, p.size ≤ osIoSephBufferSize) (hheader : pieces answers.header ≤ 1)
    (hbody : pieces answers.body ≤ 1)
    (hkeeps : s.io.info.state = .waitEvent → s.sephBufferSize ≠ 0 → isStatus p.tag) :
    ∃ kept' rest', Intact s' kept' rest' ∧ kept.toList ++ rest = kept'.toList ++ rest' := by
  obtain ⟨⟨io, ret⟩, htx, h⟩ := Option.bind_eq_some_iff.mp h
  obtain ⟨hio, hincoming, hrefused, -⟩ := sysOsIoSephTx_whole htx hs.io hsize
  dsimp only at h
  split at h
  · rename_i hret
    obtain ⟨hwait, hstatus, rfl⟩ := hrefused hret
    obtain rfl : kept = none := by
      cases kept with
      | none => rfl
      | some q => exact absurd (hkeeps hwait (by rw [hs.kept.1]; omega)) hstatus
    obtain ⟨⟨s₁, ret₁⟩, hrx, h⟩ := Option.bind_eq_some_iff.mp h
    obtain ⟨q, rest', rfl, rfl, hholds, hio₁, hincoming₁, -, -⟩ :=
      seRxEvent_reads hrx hs.io rfl hs.incoming hfit hheader hbody hwait
    dsimp only at h
    rw [if_pos (by omega)] at h
    obtain ⟨⟨io₂, ret₂⟩, htx₂, h⟩ := Option.bind_eq_some_iff.mp h
    cases h
    obtain ⟨hio₂, hincoming₂, -⟩ := sysOsIoSephTx_whole htx₂ hio₁ hsize
    exact ⟨some q, rest', ⟨hio₂, ⟨Int.toNat_natCast _, hholds⟩, hincoming₂.trans hincoming₁⟩, rfl⟩
  · cases h
    exact ⟨kept, rest, ⟨hio, hs.kept, hincoming.trans hs.incoming⟩, rfl⟩

def generalStatus : Packet := ⟨0x60, [0, 0], by decide⟩

theorem osIoSephCmdGeneralStatus_sent (h : osIoSephCmdGeneralStatus s answers = some (s', status))
    (hs : Intact s none rest) (hstate : s.io.info.state ≠ .waitEvent) :
    0 ≤ status ∧ s'.io.info.state = .waitEvent ∧ Intact s' none rest := by
  obtain ⟨⟨io, ret⟩, htx, h⟩ := Option.bind_eq_some_iff.mp h
  obtain ⟨hio, hincoming, hrefused, hsent⟩ :=
    sysOsIoSephTx_whole (p := generalStatus) htx hs.io (by decide)
  obtain ⟨hpos, hwait⟩ := hsent hstate (by decide) (by decide)
  dsimp only at h
  rw [if_neg fun hret => hstate (hrefused hret).1] at h
  cases h
  exact ⟨hpos, hwait, hio, hs.kept, hincoming.trans hs.incoming⟩

theorem fetchEvent_intact (h : fetchEvent s answers = some (s', status)) (hs : Intact s kept rest)
    (hfit : ∀ p ∈ rest, p.size ≤ osIoSephBufferSize) (hheader : pieces answers.header ≤ 1)
    (hbody : pieces answers.body ≤ 1) (hheader' : pieces answers.header' ≤ 1)
    (hbody' : pieces answers.body' ≤ 1) :
    ∃ p rest', kept.toList ++ rest = p :: rest' ∧ status = (p.size + 1 : Int) ∧ Holds s' p ∧
      Intact s' none rest' := by
  rw [fetchEvent] at h
  cases kept with
  | some p =>
    obtain ⟨hsize, hholds⟩ := hs.kept
    rw [if_pos (by omega)] at h
    cases h
    exact ⟨p, rest, rfl, by rw [hsize]; rfl, hholds, hs.io, rfl, hs.incoming⟩
  | none =>
    have hempty : s.sephBufferSize = 0 := hs.kept
    rw [if_neg (not_not.mpr hempty)] at h
    obtain ⟨⟨s₁, ret₁⟩, hrx, h⟩ := Option.bind_eq_some_iff.mp h
    dsimp only at h
    by_cases hwait : s.io.info.state = .waitEvent
    · obtain ⟨p, rest', rfl, rfl, hholds, hio, hincoming, -, hkept⟩ :=
        seRxEvent_reads hrx hs.io rfl hs.incoming hfit hheader hbody hwait
      rw [if_neg (by omega)] at h
      cases h
      exact ⟨p, rest', rfl, rfl, hholds, hio, hkept.trans hs.kept, hincoming⟩
    · obtain ⟨rfl, rfl⟩ := seRxEvent_wrong_state hrx hs.io rfl hwait
      rw [if_pos rfl] at h
      obtain ⟨⟨s₂, ret₂⟩, hcmd, h⟩ := Option.bind_eq_some_iff.mp h
      obtain ⟨hpos, hwait₂, hs₂⟩ := osIoSephCmdGeneralStatus_sent hcmd hs hwait
      dsimp only at h
      rw [if_neg (by omega)] at h
      obtain ⟨p, rest', rfl, rfl, hholds, hio, hincoming, -, hkept⟩ :=
        seRxEvent_reads h hs₂.io rfl hs₂.incoming hfit hheader' hbody' hwait₂
      exact ⟨p, rest', rfl, rfl, hholds, hio, hkept.trans hs₂.kept, hincoming⟩

theorem Holds.tag (h : Holds s p) : s.sephBuffer.cell 1 = p.tag := by
  have hlen : 1 < (s.sephBuffer.slice 0 (p.size + 1)).length := by
    rw [Region.length_slice, Packet.size]
    omega
  have hget := s.sephBuffer.getElem_slice 0 (p.size + 1) 1 hlen
  rw [← hget, List.getElem_of_eq h hlen]
  rfl

/-- Events with this tag are handed over as they are. -/
def HandedOver (tag : UInt8) : Prop := ¬ IsUsb tag ∧ ¬ IsCapdu tag ∧ ¬ IsItc tag

theorem clipped_eq (hroom : length + 1 ≤ bufferMaxLength) (hlen : length < 65536) :
    clipped length bufferMaxLength = length := by
  rw [clipped]
  split
  · omega
  · rfl

section
variable {usbdLedgerRxSephEvt processItcEvent : St → Region → Nat → Option (St × Region × Int)}

theorem handOver_event (h : handOver usbdLedgerRxSephEvt processItcEvent s buffer bufferMaxLength
      status = some (s', buffer', ret)) (hholds : Holds s p) (htag : HandedOver p.tag)
    (hstatus : status = (p.size + 1 : Int)) (hroom : p.size + 2 ≤ bufferMaxLength)
    (hsize : p.size ≤ osIoSephBufferSize) :
    s' = s ∧ ret = status ∧ buffer'.slice 0 (p.size + 1) = event p := by
  have hlength : clipped status.toNat bufferMaxLength = p.size + 1 := by
    have hlarge : osIoSephBufferSize = 272 := rfl
    rw [show status.toNat = p.size + 1 by omega]
    exact clipped_eq hroom (by omega)
  rw [handOver, hholds.tag, hlength, show s.sephBuffer.slice 0 (p.size + 1) = event p from hholds,
    if_neg htag.1, if_neg htag.2.1, if_neg htag.2.2] at h
  cases h
  refine ⟨rfl, rfl, ?_⟩
  rw [← length_event]
  exact Region.slice_memcpy_length _ _

-- ---------------------------------------------------------------------------
-- Runs
-- ---------------------------------------------------------------------------

/-- The buffer of the caller is large enough for the event that is kept, or else
for the next one. -/
def Room (s : St) (bufferMaxLength : Nat) : Prop :=
  if s.sephBufferSize ≠ 0 then s.sephBufferSize + 1 ≤ bufferMaxLength
  else nextBody s.io.incoming + 5 ≤ bufferMaxLength

/-- Commands are whole packets, and events are fetched into a large enough buffer. -/
def WholePackets (w : World) : Call → Prop
  | .txCmd buffer _ => ∃ p : Packet, p.size < 65536 ∧ buffer = p.encode
  | .rxEvt _ bufferMaxLength _ => Room w.st bufferMaxLength

/-- No command other than a status is sent while an event is kept and another one
is waited for, and events come in one piece, header and body. -/
def KeepsEvents (w : World) : Call → Prop
  | .txCmd buffer answers =>
    (w.st.io.info.state = .waitEvent → w.st.sephBufferSize ≠ 0 →
      ∀ tag ∈ buffer.head?, isStatus tag) ∧
    pieces answers.header ≤ 1 ∧ pieces answers.body ≤ 1
  | .rxEvt _ _ answers =>
    pieces answers.header ≤ 1 ∧ pieces answers.body ≤ 1 ∧ pieces answers.header' ≤ 1 ∧
      pieces answers.body' ≤ 1

/-- The packets are those that were returned, the one that is kept and those that
are still to be read. -/
def InOrder (packets : List Packet) (w : World) : Prop :=
  ∃ done kept rest, packets = done ++ kept.toList ++ rest ∧ w.returned = done.map event ∧
    Intact w.st kept rest

theorem Room.event (h : Room s bufferMaxLength) (hs : Intact s kept rest)
    (hnext : kept.toList ++ rest = p :: rest') : p.size + 2 ≤ bufferMaxLength := by
  rw [Room] at h
  cases kept with
  | some q =>
    obtain ⟨rfl, -⟩ := List.cons_eq_cons.mp hnext
    have hsize := hs.kept.1
    rw [if_pos (by omega)] at h
    omega
  | none =>
    obtain rfl : rest = p :: rest' := hnext
    have hempty : s.sephBufferSize = 0 := hs.kept
    rw [if_neg (not_not.mpr hempty), hs.incoming, encodeAll_cons, nextBody_encode] at h
    rw [Packet.size]
    omega

theorem step_inOrder (hw : InOrder packets w)
    (hfit : ∀ p ∈ packets, p.size ≤ osIoSephBufferSize) (htag : ∀ p ∈ packets, HandedOver p.tag)
    (hwhole : WholePackets w a) (hkeeps : KeepsEvents w a)
    (h : step usbdLedgerRxSephEvt processItcEvent w a = some w') : InOrder packets w' := by
  obtain ⟨done, kept, rest, rfl, hreturned, hs⟩ := hw
  have hfit' : ∀ p ∈ rest, p.size ≤ osIoSephBufferSize := fun p hp => hfit p (by simp [hp])
  cases a with
  | txCmd buffer answers =>
    obtain ⟨p, hsize, rfl⟩ := hwhole
    obtain ⟨hcmd, hheader, hbody⟩ := hkeeps
    obtain ⟨⟨s', status⟩, htx, heq⟩ := Option.bind_eq_some_iff.mp h
    cases heq
    obtain ⟨kept', rest', hs', hsame⟩ := osIoTxCmd_intact htx hs hsize hfit' hheader hbody
      fun hwait hkept => hcmd hwait hkept p.tag rfl
    exact ⟨done, kept', rest', by rw [List.append_assoc, hsame, List.append_assoc], hreturned, hs'⟩
  | rxEvt buffer bufferMaxLength answers =>
    obtain ⟨hheader, hbody, hheader', hbody'⟩ := hkeeps
    obtain ⟨⟨s', buffer', ret⟩, hrx, heq⟩ := Option.bind_eq_some_iff.mp h
    cases heq
    obtain ⟨⟨s₁, status⟩, hfetch, hrx⟩ := Option.bind_eq_some_iff.mp hrx
    obtain ⟨p, rest', hnext, rfl, hholds, hs₁⟩ :=
      fetchEvent_intact hfetch hs hfit' hheader hbody hheader' hbody'
    have hmem : p ∈ done ++ kept.toList ++ rest := by
      rw [List.append_assoc, hnext]
      simp
    dsimp only at hrx
    rw [if_neg (by omega)] at hrx
    obtain ⟨rfl, rfl, hevent⟩ := handOver_event hrx hholds (htag p hmem) rfl
      (Room.event hwhole hs hnext) (hfit p hmem)
    refine ⟨done ++ [p], none, rest', ?_, ?_, hs₁⟩
    · rw [List.append_assoc, hnext]
      simp
    · dsimp only
      rw [if_pos (by omega), hreturned, List.map_append, show (p.size + 1 : Int).toNat =
        p.size + 1 by
        omega, hevent]
      rfl

theorem initial_inOrder (packets : List Packet) :
    InOrder packets (.initial (encodeAll packets)) :=
  ⟨[], none, packets, rfl, rfl, ⟨rfl, rfl, rfl⟩, rfl, rfl⟩

/-- In every run that keeps its events, the events that were returned are those
that were read, in order, but for at most the one in `G_io_seph_buffer`. -/
theorem osIoRxEvt_inOrder (packets : List Packet)
    (hfit : ∀ p ∈ packets, p.size ≤ osIoSephBufferSize) (htag : ∀ p ∈ packets, HandedOver p.tag)
    (as : List Call) (w : World)
    (hcalls : Guarded (step usbdLedgerRxSephEvt processItcEvent)
      (fun w a => WholePackets w a ∧ KeepsEvents w a) (.initial (encodeAll packets)) as)
    (hw : exec (step usbdLedgerRxSephEvt processItcEvent) (.initial (encodeAll packets)) as =
      some w) :
    ∃ done kept rest, packets = done ++ kept.toList ++ rest ∧
      w.st.io.incoming = encodeAll rest ∧ w.returned = done.map event ∧ Keeps w.st kept := by
  obtain ⟨done, kept, rest, hpackets, hreturned, hs⟩ : InOrder packets w := by
    refine exec_invariant_of_guarded (I := InOrder packets) ?_ (initial_inOrder packets) hcalls hw
    intro w a w' hw hguard h
    exact step_inOrder hw hfit htag hguard.1 hguard.2 h
  exact ⟨done, kept, rest, hpackets, hs.incoming, hreturned, hs.kept⟩

end

/-- A handler that gives nothing to the application. -/
def ignore (s : St) (buffer : Region) (_ : Nat) : Option (St × Region × Int) := some (s, buffer, 0)

/-- An event that is fetched after a general status. -/
theorem osIoRxEvt_inOrder_ticker :
    ∃ w, exec (step ignore ignore) (.initial (encodeAll [⟨0x0E, [], by decide⟩]))
        [.rxEvt .zeroed 300 ⟨[], [], ⟨[.moved 5], [], [], []⟩, [.moved 3], []⟩] = some w ∧
      ∃ done kept rest, [⟨0x0E, [], by decide⟩] = done ++ kept.toList ++ rest ∧
        w.st.io.incoming = encodeAll rest ∧ w.returned = done.map event ∧ Keeps w.st kept := by
  obtain ⟨w, hw⟩ := Option.isSome_iff_exists.mp (show (exec (step ignore ignore)
    (.initial (encodeAll [⟨0x0E, [], by decide⟩]))
    [.rxEvt .zeroed 300 ⟨[], [], ⟨[.moved 5], [], [], []⟩, [.moved 3], []⟩]).isSome by decide)
  have hroom : nextBody (encodeAll [⟨0x0E, [], by decide⟩]) + 5 ≤ 300 := by decide
  exact ⟨w, hw, osIoRxEvt_inOrder [⟨0x0E, [], by decide⟩] (by decide)
    (by simp [HandedOver, IsUsb, IsCapdu, IsItc])
    [.rxEvt .zeroed 300 ⟨[], [], ⟨[.moved 5], [], [], []⟩, [.moved 3], []⟩] w
    ⟨⟨hroom, by decide, by decide, by decide, by decide⟩, fun _ _ => trivial⟩ hw⟩

/-- Status, command, status, command. -/
def twoCommands : List Call :=
  [.txCmd [0x60, 0, 0] ⟨[.moved 3], [], [], []⟩,
    .txCmd [0x53, 0, 0] ⟨[], [.moved 3], [], [.moved 3]⟩,
    .txCmd [0x60, 0, 0] ⟨[.moved 3], [], [], []⟩,
    .txCmd [0x53, 0, 0] ⟨[], [.moved 3], [.moved 1], [.moved 3]⟩]

/-- The second command reads an event over the one that the first command kept. -/
theorem osIoTxCmd_overwrites :
    ∃ w, Guarded (step ignore ignore) WholePackets
        (.initial (encodeAll [⟨0x0E, [], by decide⟩, ⟨0x05, [3], by decide⟩])) twoCommands ∧
      exec (step ignore ignore)
        (.initial (encodeAll [⟨0x0E, [], by decide⟩, ⟨0x05, [3], by decide⟩])) twoCommands =
        some w ∧
      ¬ ∃ done kept rest, [⟨0x0E, [], by decide⟩, ⟨0x05, [3], by decide⟩] =
          done ++ kept.toList ++ rest ∧
        w.st.io.incoming = encodeAll rest ∧ w.returned = done.map event ∧ Keeps w.st kept := by
  obtain ⟨w, hw, heq⟩ := Option.map_eq_some_iff.mp (show (exec (step ignore ignore)
    (.initial (encodeAll [⟨0x0E, [], by decide⟩, ⟨0x05, [3], by decide⟩])) twoCommands).map
      (fun w => (w.st.io.incoming, w.returned)) = some ([], []) by decide)
  obtain ⟨hincoming, hreturned⟩ := Prod.mk.inj heq
  have hstatus : ∃ p : Packet, p.size < 65536 ∧ [0x60, 0, 0] = p.encode :=
    ⟨⟨0x60, [], by decide⟩, by decide, rfl⟩
  have hresponse : ∃ p : Packet, p.size < 65536 ∧ [0x53, 0, 0] = p.encode :=
    ⟨⟨0x53, [], by decide⟩, by decide, rfl⟩
  refine ⟨w, ⟨hstatus, fun _ _ => ⟨hresponse, fun _ _ => ⟨hstatus, fun _ _ => ⟨hresponse,
    fun _ _ => trivial⟩⟩⟩⟩, hw, ?_⟩
  rintro ⟨done, kept, rest, hpackets, hrest, hdone, -⟩
  rw [hincoming] at hrest
  rw [hreturned] at hdone
  obtain rfl : done = [] := List.map_eq_nil_iff.mp hdone.symm
  obtain rfl : rest = [] := by
    cases rest with
    | nil => rfl
    | cons p rest => cases hrest
  -- both events were read and none was returned, but only one can be kept
  have hlen := congrArg List.length hpackets
  cases kept with
  | none => cases hlen
  | some p => cases hlen

end Speculos.Seph.OsIo
