import Speculos.Seph.Seproxyhal

/-!
# What the legacy calls read

A packet that does not fit the buffer of the caller is cut, and what was cut
off stays in the stream. As long as the packets fit (`PacketsFit`), every read
starts with the first byte of a packet and takes the whole of it; until the
next status is sent, the length of the packet is returned again.
-/

namespace Speculos.Seph.Seproxyhal

open Lib

/-- What is left to read are the last of the packets. -/
def Aligned (packets : List Packet) (s : St) : Prop :=
  ∃ rest, rest <:+ packets ∧ s.incoming = encodeAll rest

/-- The calls are `recv` with room for a header, and `send` of a whole status. -/
def StatusOrRecv : Call → Prop
  | .send buffer answers =>
    Delivers buffer.length answers ∧ ∃ p : Packet, isStatus p.tag ∧ buffer = p.encode
  | .recv _ maxlength _ _ => 3 ≤ maxlength

/-- A packet that is read fits the buffer, and its header comes in one piece. -/
def PacketsFit (s : St) : Call → Prop
  | .send .. => True
  | .recv _ maxlength header _ =>
    s.rxLength = 0 → nextBody s.incoming ≤ maxlength - 3 ∧ pieces header ≤ 1

theorem spiRecv_packet {p : Packet} {after : Bytes}
    (h : spiRecv s buffer maxlength header body = some (s', buffer', ret)) (hzero : s.rxLength = 0)
    (hincoming : s.incoming = p.encode ++ after) (hfit : p.body.length ≤ maxlength - 3)
    (hheader : pieces header ≤ 1) :
    s' = { s with incoming := after, txStatus := false, rxLength := p.size } ∧ ret = p.size ∧
      ret ≤ maxlength ∧ buffer.Stores buffer' ret maxlength ∧
      (pieces body ≤ 1 → buffer' = buffer.memcpy 0 p.encode ret) := by
  rcases spiRecv_cases h with ⟨hne, -⟩ | ⟨-, hmax, r, r', hr, hret, hr', hret', rfl, rfl, rfl⟩
  · exact absurd hzero hne
  · rw [hincoming] at hr
    obtain ⟨hlen, hstream, hbuf⟩ := readLoop_header hheader hr hret
    have hsize : packetSize r.buf maxlength = p.body.length := by
      rw [packetSize, hlen, Nat.min_eq_left hfit]
    have hroom : 3 + p.body.length ≤ maxlength := by omega
    rw [hsize, hstream, hbuf] at hr'
    obtain ⟨-, hstream', hstores⟩ := readLoop_takes hr' hret' hroom
    rw [List.drop_left' rfl] at hstream'
    rw [hsize, hstream']
    refine ⟨by rw [Nat.add_comm 3]; rfl, Nat.add_comm .., hroom, ?_, fun hbody => ?_⟩
    · exact (buffer.stores_memcpy 0 p.encode (by omega)).trans hstores
    · rw [(readLoop_body hbody hr' hret').2, Nat.add_comm 3]
      rfl

theorem spiSend_incoming {outcome : Outcome} (h : spiSend s buffer answers = some (s', outcome)) :
    s'.incoming = s.incoming := by
  rcases spiSend_cases h with rfl | ⟨-, -, s₁, ho, hwrite⟩
  · rfl
  · have hopened : s₁.incoming = s.incoming := by
      cases ho with
      | first hnext hstatus => rfl
      | further hnext hle => rfl
    obtain ⟨w, -, hw⟩ := Option.bind_eq_some_iff.mp hwrite
    cases hw
    rw [St.counted]
    split
    · exact hopened
    · exact hopened

theorem spiRecv_reads (h : spiRecv s buffer maxlength header body = some (s', buffer', ret))
    (hs : Aligned packets s) (hfit : PacketsFit s (.recv buffer maxlength header body))
    (hzero : s.rxLength = 0) :
    ∃ p rest, p :: rest <:+ packets ∧ s.incoming = encodeAll (p :: rest) ∧
      s'.incoming = encodeAll rest ∧ ret = p.size ∧ ret ≤ maxlength ∧
      buffer.Stores buffer' ret maxlength ∧
      (pieces body ≤ 1 → buffer' = buffer.memcpy 0 p.encode ret) := by
  obtain ⟨rest, hsuffix, hincoming⟩ := hs
  obtain ⟨hlen, hheader⟩ := hfit hzero
  rcases rest with _ | ⟨p, rest⟩
  · -- there is no header to read
    rcases spiRecv_cases h with ⟨hne, -⟩ | ⟨-, -, r, r', hr, hret, -⟩
    · exact absurd hzero hne
    · rw [hincoming] at hr
      have hle := (readLoop_one_piece hheader hr hret).1
      exact absurd hle (by decide)
  · rw [encodeAll_cons] at hincoming
    rw [hincoming, nextBody_encode] at hlen
    obtain ⟨rfl, hstored⟩ := spiRecv_packet h hzero hincoming hlen hheader
    exact ⟨p, rest, hsuffix, hincoming, rfl, hstored⟩

theorem step_aligned (hs : Aligned packets s) (hfit : PacketsFit s a) (h : step s a = some s') :
    Aligned packets s' := by
  cases a with
  | send buffer answers =>
    obtain ⟨⟨s₂, outcome⟩, hsend, rfl⟩ := Option.map_eq_some_iff.mp h
    obtain ⟨rest, hsuffix, hincoming⟩ := hs
    exact ⟨rest, hsuffix, (spiSend_incoming hsend).trans hincoming⟩
  | recv buffer maxlength header body =>
    obtain ⟨⟨s₂, buffer', ret⟩, hrecv, rfl⟩ := Option.map_eq_some_iff.mp h
    rcases spiRecv_cases hrecv with ⟨-, rfl, -⟩ | ⟨hzero, -⟩
    · exact hs
    · obtain ⟨p, rest, hsuffix, -, hincoming, -⟩ := spiRecv_reads hrecv hs hfit hzero
      exact ⟨rest, (List.suffix_cons p rest).trans hsuffix, hincoming⟩

def IsRecv : Call → Prop
  | .send .. => False
  | .recv .. => True

theorem spiRecv_again (h : s.rxLength ≠ 0) (buffer : Region) (maxlength : Nat)
    (header body : List Answer) :
    spiRecv s buffer maxlength header body = some (s, buffer, s.rxLength) :=
  if_pos h

theorem exec_recv_again (h : s.rxLength ≠ 0) (hrecv : ∀ a ∈ as, IsRecv a)
    (hexec : exec step s as = some t) : t = s := by
  induction as with
  | nil => exact exec_nil hexec
  | cons a as ih =>
    obtain ⟨s', hstep, hexec⟩ := exec_cons hexec
    cases a with
    | send buffer answers => exact False.elim (hrecv (.send buffer answers) (by simp))
    | recv buffer maxlength header body =>
      rw [step, spiRecv_again h] at hstep
      cases hstep
      exact ih (fun a ha => hrecv a (by simp [ha])) hexec

/-- In every run in which the packets fit: a call that reads starts with the
first byte of a packet, stores as many bytes within the buffer and returns their
number; until the next status it is returned again, and nothing is read. -/
theorem spiRecv_aligned (packets : List Packet) (as : List Call) (s : St)
    (hcalls : Guarded step (fun s a => StatusOrRecv a ∧ PacketsFit s a)
      (.initial (encodeAll packets)) as)
    (hs : exec step (.initial (encodeAll packets)) as = some s) (buffer buffer' : Region)
    (maxlength ret : Nat) (header body : List Answer) (s' : St)
    (hfit : PacketsFit s (.recv buffer maxlength header body))
    (hrecv : spiRecv s buffer maxlength header body = some (s', buffer', ret)) :
    (s.rxLength = 0 → ∃ p rest, p :: rest <:+ packets ∧ s.incoming = encodeAll (p :: rest) ∧
      s'.incoming = encodeAll rest ∧ ret = p.size ∧ ret ≤ maxlength ∧
      buffer.Stores buffer' ret maxlength ∧
      (pieces body ≤ 1 → buffer' = buffer.memcpy 0 p.encode ret)) ∧
    (∀ bs t, (∀ b ∈ bs, IsRecv b) → exec step s' bs = some t →
      ∀ buffer maxlength header body,
        spiRecv t buffer maxlength header body = some (t, buffer, ret) ∧
        t.incoming = s'.incoming) := by
  have haligned : Aligned packets s := by
    refine exec_invariant_of_guarded (I := Aligned packets) ?_
      ⟨packets, List.suffix_refl _, rfl⟩ hcalls hs
    intro s a s' hs hguard h
    exact step_aligned hs hguard.2 h
  refine ⟨spiRecv_reads hrecv haligned hfit, ?_⟩
  have hlength : s'.rxLength = ret ∧ ret ≠ 0 := by
    rcases spiRecv_cases hrecv with ⟨hne, rfl, -, rfl⟩ | ⟨-, -, r, r', -, -, -, -, rfl, -, rfl⟩
    · exact ⟨rfl, hne⟩
    · exact ⟨rfl, by omega⟩
  obtain ⟨rfl, hne⟩ := hlength
  intro bs t hbs ht buffer maxlength header body
  obtain rfl := exec_recv_again hne hbs ht
  exact ⟨spiRecv_again hne .., rfl⟩

/-- Two events, the second of which is read after a status. -/
theorem spiRecv_aligned_second :
    ∃ s s' buffer' ret, exec step (.initial [0x0E, 0, 0, 0x05, 0, 1, 3])
        [.recv .zeroed 128 [.moved 3] [], .send [0x60, 0, 0] [.moved 3]] = some s ∧
      spiRecv s .zeroed 128 [.interrupted, .moved 3] [.moved 1] = some (s', buffer', ret) ∧
      ∃ p rest, p :: rest <:+ [⟨0x0E, [], by decide⟩, ⟨0x05, [3], by decide⟩] ∧
        s.incoming = encodeAll (p :: rest) ∧ s'.incoming = encodeAll rest ∧ ret = p.size ∧
        ret ≤ 128 ∧ Region.zeroed.Stores buffer' ret 128 ∧
        (pieces [.moved 1] ≤ 1 → buffer' = Region.zeroed.memcpy 0 p.encode ret) := by
  obtain ⟨⟨s', buffer', ret⟩, hrecv⟩ := Option.isSome_iff_exists.mp (show (spiRecv
    { txStatus := true, rxLength := 0, lastTag := 0x60, nextLength := 0, outgoing := [0x60, 0, 0],
      incoming := [0x05, 0, 1, 3] } .zeroed 128 [.interrupted,
      .moved 3] [.moved 1]).isSome by decide)
  obtain ⟨hread, -⟩ := spiRecv_aligned [⟨0x0E, [], by decide⟩, ⟨0x05, [3], by decide⟩]
    [.recv .zeroed 128 [.moved 3] [], .send [0x60, 0, 0] [.moved 3]] _
    ⟨⟨show 3 ≤ 128 by decide, fun _ => by decide⟩, fun _ _ =>
      ⟨⟨⟨by decide, ⟨0x60, [], by decide⟩, rfl, rfl⟩, trivial⟩, fun _ _ => trivial⟩⟩
    (by decide) .zeroed buffer' 128 ret [.interrupted, .moved 3] [.moved 1] s'
    (fun _ => by decide) hrecv
  exact ⟨_, s', buffer', ret, by decide, hrecv, hread rfl⟩

/-- An event of two bytes read into a buffer of four: the next read starts with
the byte that was cut off. -/
theorem spiRecv_cut :
    ∃ s, Guarded step (fun _ a => StatusOrRecv a) (.initial [0x05, 0, 2, 7, 8, 0x0E, 0, 0])
        [.recv .zeroed 4 [.moved 3] [.moved 1], .send [0x60, 0, 0] [.moved 3]] ∧
      exec step (.initial [0x05, 0, 2, 7, 8, 0x0E, 0, 0])
        [.recv .zeroed 4 [.moved 3] [.moved 1], .send [0x60, 0, 0] [.moved 3]] = some s ∧
      s.rxLength = 0 ∧
      ¬ Aligned [⟨0x05, [7, 8], by decide⟩, ⟨0x0E, [], by decide⟩] s := by
  refine ⟨{ txStatus := true, rxLength := 0, lastTag := 0x60, nextLength := 0,
            outgoing := [0x60, 0, 0], incoming := [8, 0x0E, 0, 0] }, ?_, by decide, rfl, ?_⟩
  · exact ⟨show 3 ≤ 4 by decide, fun _ _ =>
      ⟨⟨by decide, ⟨0x60, [], by decide⟩, rfl, rfl⟩, fun _ _ => trivial⟩⟩
  · rintro ⟨rest, hsuffix, hincoming⟩
    have htails : ∀ rest ∈ ([⟨0x05, [7, 8], by decide⟩, ⟨0x0E, [], by decide⟩] : List Packet).tails,
        encodeAll rest ≠ [8, 0x0E, 0, 0] := by decide
    exact htails rest ((List.mem_tails _ _).mpr hsuffix) hincoming.symm

end Speculos.Seph.Seproxyhal

/-!
## What the legacy calls write

A packet may be sent in pieces. As long as no first piece is longer than its
packet (`Overlong`), the bytes written to the descriptor are packets, followed
by the beginning of one of which `next_length` bytes are missing, and at most
one status is completed without a packet being read. `next_length` passes below
zero on an overlong piece, after which the pieces are no longer told apart.
-/

namespace Speculos.Seph.Seproxyhal

open Lib

/-- The bytes written are the packets `ps` and the beginning `part` of one more,
of which `next_length` bytes are missing. -/
structure Framed (s : St) (ps : List Packet) (part : Bytes) : Prop where
  written : s.outgoing = encodeAll ps ++ part
  idle : s.nextLength = 0 → part = []
  missing : s.nextLength ≠ 0 → ∃ (p : Packet) (missing : Bytes),
    p.encode = part ++ missing ∧ missing.length = s.nextLength

def statuses (ps : List Packet) : Nat := ps.countP fun p => isStatus p.tag

/-- A piece that starts a packet and is longer than it. -/
def Overlong (s : St) : Bytes → Prop
  | tag :: hi :: lo :: rest =>
    s.nextLength = 0 ∧ ¬ (s.txStatus ∧ isStatus tag) ∧ fromBE [hi, lo] < rest.length
  | _ => False

instance (s : St) : ∀ buffer, Decidable (Overlong s buffer)
  | tag :: hi :: lo :: rest => inferInstanceAs (Decidable
      (s.nextLength = 0 ∧ ¬ (s.txStatus ∧ isStatus tag) ∧ fromBE [hi, lo] < rest.length))
  | [] => inferInstanceAs (Decidable False)
  | [_] => inferInstanceAs (Decidable False)
  | [_, _] => inferInstanceAs (Decidable False)

/-- The kernel takes what a call writes, in any pieces. -/
def WritesSucceed : Call → Prop
  | .send buffer answers => Delivers buffer.length answers
  | .recv .. => True

/-- No packet is started by an overlong piece. -/
def PiecesFit (s : St) : Call → Prop
  | .send buffer _ => ¬ Overlong s buffer
  | .recv .. => True

/-- A call that reads a packet from the descriptor. -/
def Reads (s : St) : Call → Prop
  | .send .. => False
  | .recv .. => s.rxLength = 0

instance : ∀ a, Decidable (WritesSucceed a)
  | .send buffer answers => inferInstanceAs (Decidable (Delivers buffer.length answers))
  | .recv .. => inferInstanceAs (Decidable True)

instance (s : St) : ∀ a, Decidable (PiecesFit s a)
  | .send buffer _ => inferInstanceAs (Decidable (¬ Overlong s buffer))
  | .recv .. => inferInstanceAs (Decidable True)

instance (s : St) : ∀ a, Decidable (Reads s a)
  | .send .. => inferInstanceAs (Decidable False)
  | .recv .. => inferInstanceAs (Decidable (s.rxLength = 0))

-- ---------------------------------------------------------------------------
-- The invariant
-- ---------------------------------------------------------------------------

/-- The header of the packet in progress is written, and it is no status while
one is to be answered. -/
structure InProgress (s : St) (ps : List Packet) (part : Bytes) : Prop where
  written : s.outgoing = encodeAll ps ++ part
  idle : s.nextLength = 0 → part = []
  begins : s.nextLength ≠ 0 → Begins s.lastTag (part.length + s.nextLength) part
  status : s.txStatus → s.nextLength ≠ 0 → ¬ isStatus s.lastTag

theorem InProgress.framed (h : InProgress s ps part) : Framed s ps part where
  written := h.written
  idle := h.idle
  missing := fun hnext => by
    obtain ⟨-, p, -, hsize, missing, hmissing⟩ := h.begins hnext
    have hlen := congrArg List.length hmissing
    rw [List.length_append, Packet.length_encode, hsize] at hlen
    exact ⟨p, missing, hmissing.symm, by omega⟩

/-- The number of statuses that may be sent before a packet is read. -/
def allowed (s : St) : Nat := if s.txStatus then 0 else 1

theorem Opened.begins (ho : Opened s buffer s₁) (hs : InProgress s ps part)
    (hfit : ¬ Overlong s buffer) :
    Begins s₁.lastTag (part.length + s₁.nextLength) (part ++ buffer) ∧
      buffer.length ≤ s₁.nextLength := by
  cases ho with
  | @first tag hi lo rest hnext hstatus =>
    have hlen : rest.length ≤ fromBE [hi, lo] := by
      by_contra hlt
      exact hfit ⟨hnext, hstatus, by omega⟩
    rw [hs.idle hnext, List.length_nil, Nat.zero_add]
    exact ⟨Begins.first tag hi lo rest hlen, by simpa using hlen⟩
  | further hnext hle => exact ⟨(hs.begins hnext).append (by omega), hle⟩

theorem Opened.frame (ho : Opened s buffer s₁) :
    s₁.outgoing = s.outgoing ∧ s₁.txStatus = s.txStatus := by
  cases ho with
  | first hnext hstatus => exact ⟨rfl, rfl⟩
  | further hnext hle => exact ⟨rfl, rfl⟩

theorem Opened.not_status (ho : Opened s buffer s₁) (hs : InProgress s ps part)
    (htx : s.txStatus) : ¬ isStatus s₁.lastTag := by
  cases ho with
  | first hnext hstatus => exact fun htag => hstatus ⟨htx, htag⟩
  | further hnext hle => exact hs.status htx hnext

theorem counted_of_lt (s : St) (hlt : length < s.nextLength) (hbound : s.nextLength < 2 ^ 32) :
    s.counted length = { s with nextLength := s.nextLength - length } := by
  rw [St.counted, show (s.nextLength + (2 ^ 32 - length)) % 2 ^ 32 = s.nextLength - length by omega]
  exact if_neg fun h => Nat.sub_ne_zero_of_lt hlt h.1

theorem counted_of_eq (s : St) (heq : length = s.nextLength) (hbound : s.nextLength < 2 ^ 32) :
    s.counted length =
      if isStatus s.lastTag then { s with nextLength := 0, txStatus := true, rxLength := 0 }
      else { s with nextLength := 0 } := by
  rw [St.counted, show (s.nextLength + (2 ^ 32 - length)) % 2 ^ 32 = 0 by omega]
  simp only [true_and]

theorem written_inProgress (ho : Opened s buffer s₁) (hs : InProgress s ps part)
    (hfit : ¬ Overlong s buffer) :
    ∃ qs part',
      InProgress ({ s₁ with outgoing := s₁.outgoing ++ buffer }.counted buffer.length)
        (ps ++ qs) part' ∧
      statuses qs + allowed ({ s₁ with outgoing := s₁.outgoing ++ buffer }.counted buffer.length) ≤
        allowed s := by
  obtain ⟨hbegins, hle⟩ := ho.begins hs hfit
  obtain ⟨hout, htx⟩ := ho.frame
  have hnot := ho.not_status hs
  have hwritten : s₁.outgoing ++ buffer = encodeAll ps ++ (part ++ buffer) := by
    rw [hout, hs.written, List.append_assoc]
  have hbound : s₁.nextLength < 2 ^ 32 := by
    obtain ⟨-, p, -, hsize, -⟩ := hbegins
    have hlt := p.size_lt
    omega
  rcases Nat.lt_or_eq_of_le hle with hlt | heq
  · -- the packet stays in progress
    have hopen := counted_of_lt { s₁ with outgoing := s₁.outgoing ++ buffer } hlt hbound
    refine ⟨[], part ++ buffer, ?_, ?_⟩
    · rw [hopen, List.append_nil]
      refine ⟨hwritten, fun hzero => absurd hzero (Nat.sub_ne_zero_of_lt hlt), fun _ => ?_, ?_⟩
      · show Begins s₁.lastTag ((part ++ buffer).length + (s₁.nextLength - buffer.length)) _
        rw [List.length_append, Nat.add_assoc, Nat.add_sub_cancel' hle]
        exact hbegins
      · intro htx' _
        exact hnot (htx ▸ htx')
    · rw [hopen, allowed, allowed, ← htx]
      exact Nat.le_of_eq (Nat.zero_add _)
  · -- the packet is complete
    obtain ⟨p, htag, -, hp⟩ := hbegins.complete (by rw [List.length_append, heq])
    have hpackets : s₁.outgoing ++ buffer = encodeAll (ps ++ [p]) ++ [] := by
      rw [hwritten, hp, encodeAll_concat, List.append_nil]
    have hcomplete := counted_of_eq { s₁ with outgoing := s₁.outgoing ++ buffer } heq hbound
    refine ⟨[p], [], ?_, ?_⟩
    · rw [hcomplete]
      split
      · exact ⟨hpackets, fun _ => rfl, fun h => absurd rfl h, fun _ h => absurd rfl h⟩
      · exact ⟨hpackets, fun _ => rfl, fun h => absurd rfl h, fun _ h => absurd rfl h⟩
    · rw [hcomplete, statuses, List.countP_singleton, htag]
      split
      · rename_i hstatus
        rw [allowed, allowed, if_pos rfl, if_neg fun h => hnot h hstatus]
      · rw [allowed, allowed, ← htx]
        exact Nat.le_of_eq (Nat.zero_add _)

theorem step_inProgress (h : step s a = some s') (hs : InProgress s ps part)
    (hwrites : WritesSucceed a) (hfit : PiecesFit s a) :
    ∃ qs part', InProgress s' (ps ++ qs) part' ∧
      (¬ Reads s a → statuses qs + allowed s' ≤ allowed s) := by
  have hsame : ∃ qs part', InProgress s (ps ++ qs) part' ∧
      (¬ Reads s a → statuses qs + allowed s ≤ allowed s) :=
    ⟨[], part, by rwa [List.append_nil], fun _ => Nat.le_of_eq (Nat.zero_add _)⟩
  cases a with
  | send buffer answers =>
    obtain ⟨⟨s₂, outcome⟩, hsend, rfl⟩ := Option.map_eq_some_iff.mp h
    rcases spiSend_cases hsend with rfl | ⟨-, -, s₁, ho, hwrite⟩
    · exact hsame
    · rw [spiWrite_delivers s₁ hwrites] at hwrite
      cases hwrite
      obtain ⟨qs, part', hs', hle⟩ := written_inProgress ho hs hfit
      exact ⟨qs, part', hs', fun _ => hle⟩
  | recv buffer maxlength header body =>
    obtain ⟨⟨s₂, buffer', ret⟩, hrecv, rfl⟩ := Option.map_eq_some_iff.mp h
    rcases spiRecv_cases hrecv with ⟨-, rfl, -⟩ | ⟨hzero, -, r, r', -, -, -, -, -, -, rfl⟩
    · exact hsame
    · refine ⟨[], part, ?_, fun hreads => absurd hzero hreads⟩
      rw [List.append_nil]
      exact ⟨hs.written, hs.idle, hs.begins, fun htx => absurd htx (by simp)⟩

theorem exec_inProgress (hs : InProgress s ps part)
    (hg : Guarded step (fun s a => WritesSucceed a ∧ PiecesFit s a) s as)
    (h : exec step s as = some t) : ∃ ps part, InProgress t ps part := by
  refine exec_invariant_of_guarded (I := fun t => ∃ ps part, InProgress t ps part) ?_ ⟨ps, part, hs⟩
    hg h
  rintro s a s' ⟨ps, part, hs⟩ ⟨hwrites, hfit⟩ h
  obtain ⟨qs, part', hs', -⟩ := step_inProgress h hs hwrites hfit
  exact ⟨ps ++ qs, part', hs'⟩

/-- Without a packet being read, at most one status is completed. -/
theorem exec_statuses (hs : InProgress s ps part)
    (hg : Guarded step (fun s a => (WritesSucceed a ∧ PiecesFit s a) ∧ ¬ Reads s a) s as)
    (h : exec step s as = some t) :
    ∃ qs part', InProgress t (ps ++ qs) part' ∧ statuses qs + allowed t ≤ allowed s := by
  refine exec_invariant_of_guarded
    (I := fun t => ∃ qs part', InProgress t (ps ++ qs) part' ∧ statuses qs + allowed t ≤ allowed s)
    ?_ ⟨[], part, by rwa [List.append_nil], Nat.le_of_eq (Nat.zero_add _)⟩ hg h
  rintro t a t' ⟨qs, part, ht, hle⟩ ⟨⟨hwrites, hfit⟩, hreads⟩ h
  obtain ⟨qs', part', ht', hle'⟩ := step_inProgress h ht hwrites hfit
  refine ⟨qs ++ qs', part', by rwa [← List.append_assoc], ?_⟩
  have hadd := hle' hreads
  rw [statuses, List.countP_append]
  rw [statuses] at hle hadd
  omega

theorem initial_inProgress (incoming : Bytes) : InProgress (.initial incoming) [] [] :=
  ⟨rfl, fun _ => rfl, fun h => absurd rfl h, fun h => absurd h (by simp [St.initial])⟩

/-- In every run without overlong first pieces: what is written is framed, a
call that throws or is dropped changes nothing, and at most one status is
completed while no packet is read. -/
theorem spiSend_framed (incoming : Bytes) (as bs : List Call) (s t : St)
    (hfit : Guarded step (fun s a => WritesSucceed a ∧ PiecesFit s a) (.initial incoming) as)
    (hs : exec step (.initial incoming) as = some s) :
    (∃ ps part, Framed s ps part) ∧
      (∀ buffer answers s' outcome, spiSend s buffer answers = some (s', outcome) →
        outcome = .thrown ∨ Dropped s buffer → s' = s) ∧
      (Guarded step (fun s a => (WritesSucceed a ∧ PiecesFit s a) ∧ ¬ Reads s a) s bs →
        exec step s bs = some t → ∃ ps qs part part',
          Framed s ps part ∧ Framed t (ps ++ qs) part' ∧ statuses qs ≤ 1) := by
  obtain ⟨ps, part, hprogress⟩ := exec_inProgress (initial_inProgress incoming) hfit hs
  refine ⟨⟨ps, part, hprogress.framed⟩, ?_, ?_⟩
  · intro buffer answers s' outcome hsend hrefused
    rcases spiSend_cases hsend with rfl | ⟨hthrown, hdropped, -⟩
    · rfl
    · rcases hrefused with h | h
      · exact absurd h hthrown
      · exact absurd h hdropped
  · intro hbs ht
    obtain ⟨qs, part', hprogress', hle⟩ := exec_statuses hprogress hbs ht
    refine ⟨ps, qs, part, part', hprogress.framed, hprogress'.framed, ?_⟩
    have hone : allowed s ≤ 1 := by
      rw [allowed]
      split <;> omega
    omega

/-- A response in two pieces, then two statuses of which one is dropped. -/
theorem spiSend_framed_pieces :
    ∃ s t, exec step (.initial []) [.send [0x53, 0, 2, 7] [.moved 1, .moved 3]] = some s ∧
      exec step s [.send [8] [.moved 1], .send [0x60, 0, 0] [.moved 3],
        .send [0x60, 0, 0] [.moved 3]] = some t ∧
      (∃ ps part, Framed s ps part) ∧
      (∀ buffer answers s' outcome, spiSend s buffer answers = some (s', outcome) →
        outcome = .thrown ∨ Dropped s buffer → s' = s) ∧
      ∃ ps qs part part', Framed s ps part ∧ Framed t (ps ++ qs) part' ∧ statuses qs ≤ 1 := by
  obtain ⟨hframed, hrefused, hstatuses⟩ := spiSend_framed []
    [.send [0x53, 0, 2, 7] [.moved 1, .moved 3]]
    [.send [8] [.moved 1], .send [0x60, 0, 0] [.moved 3], .send [0x60, 0, 0] [.moved 3]]
    { txStatus := false, rxLength := 0, lastTag := 0x53, nextLength := 1,
      outgoing := [0x53, 0, 2, 7], incoming := [] }
    { txStatus := true, rxLength := 0, lastTag := 0x60, nextLength := 0,
      outgoing := [0x53, 0, 2, 7, 8, 0x60, 0, 0], incoming := [] }
    (by decide) (by decide)
  exact ⟨_, _, by decide, by decide, hframed, hrefused, hstatuses (by decide) (by decide)⟩

/-- A status with one byte too many: afterwards more bytes are missing than any
packet has. -/
theorem spiSend_overlong :
    Guarded step (fun _ a => WritesSucceed a) (.initial []) [.send [0x60, 0, 0, 0] [.moved 4]] ∧
      ∃ s, exec step (.initial []) [.send [0x60, 0, 0, 0] [.moved 4]] = some s ∧
        ¬ ∃ ps part, Framed s ps part := by
  refine ⟨by decide, _, rfl, ?_⟩
  rintro ⟨ps, part, hframed⟩
  obtain ⟨p, missing, hencode, hmissing⟩ := hframed.missing (by decide)
  have hlen := congrArg List.length hencode
  have hlt := p.size_lt
  rw [Packet.length_encode, List.length_append, hmissing] at hlen
  have hnext : (2 : Nat) ^ 32 - 1 ≤ p.size := by
    rw [hlen]
    exact Nat.le_add_left _ _
  omega

end Speculos.Seph.Seproxyhal
