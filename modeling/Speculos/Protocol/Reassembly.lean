import Speculos.Protocol.RxLaws

/-!
# Reassembling the packets of one command

A half-received command is `Pending`, a whole one `Delivered`. The packets of
a command, fed to an idle handle in order, leave it pending until the last one
delivers it. Packets numbered otherwise than the handle expects only set the
status back, so what a pending handle makes of the packets of another command
can be said exactly (`Pending.delivered_iff`).

A rejected packet sets the status back but keeps the sequence number, so a
command that was cut short still decides what becomes of the next one.
`delivered_after_iff` says when the next command comes through all the same.
-/

namespace Speculos.Protocol.RxState

open Lib

/-- The first bytes `got` of a command of `total` bytes are stored behind the
type byte, and packet number `seq` comes next. -/
structure Pending (h : RxState) (total : Nat) (got : Bytes) (seq : Nat) : Prop where
  number : h.rxApduSequenceNumber = UInt16.ofNat seq
  length : h.rxApduLength.toNat = total
  offset : h.rxApduOffset.toNat = got.length
  stored : h.rxApduBuffer.slice 0 (got.length + 1) = h.type :: got
  short : got.length ≤ total

/-- The command is complete: the type byte followed by exactly `apdu`, and the
handle expects a first packet again. -/
structure Delivered (h : RxState) (apdu : Bytes) : Prop where
  status : h.rxApduStatus = .complete
  number : h.rxApduSequenceNumber = 0
  length : h.rxApduLength.toNat = apdu.length + 1
  stored : h.rxApduBuffer.slice 0 (apdu.length + 1) = h.type :: apdu

theorem slice_extend {r : Region} (hs : r.slice 0 (got.length + 1) = t :: got) (d : Bytes) (n : Nat)
    (hn : n ≤ d.length) :
    (r.memcpy (1 + got.length) d n).slice 0 (got.length + n + 1) = t :: (got ++ d.take n) := by
  rw [show got.length + n + 1 = (got.length + 1) + n by omega, Region.slice_add,
    Region.slice_memcpy_of_disjoint _ _ _ _ _ _ (.inl (by omega)), hs,
    show 0 + (got.length + 1) = 1 + got.length by omega, Region.slice_memcpy_self _ _ _ _ hn]
  rfl

theorem ofNat_succ (seq : Nat) : UInt16.ofNat seq + 1 = UInt16.ofNat (seq + 1) := by
  rw [UInt16.ofNat_add]
  rfl

variable {h : RxState} {total seq : Nat} {got d : Bytes}

theorem Pending.extend (hp : h.Pending total got seq) (hlt : got.length + d.length < total) :
    (h.storeChunk d).Pending total (got ++ d) (seq + 1) ∧
      (h.storeChunk d).rxApduStatus = .needMoreData := by
  have htotal := h.rxApduLength.toNat_lt
  have hl := hp.length
  have hlt' : h.rxApduOffset.toNat + d.length < h.rxApduLength.toNat := by
    rw [hp.offset, hp.length]
    exact hlt
  rw [storeChunk_pending h d hlt']
  refine ⟨⟨?_, hl, ?_, ?_, ?_⟩, rfl⟩
  · show h.rxApduSequenceNumber + 1 = _
    rw [hp.number, ofNat_succ]
  · show (h.rxApduOffset + UInt16.ofNat d.length).toNat = _
    rw [UInt16.toNat_add, UInt16.toNat_ofNat', hp.offset, List.length_append]
    omega
  · show (h.rxApduBuffer.memcpy (1 + h.rxApduOffset.toNat) d d.length).slice 0 _ = _
    rw [hp.offset, List.length_append, slice_extend hp.stored d d.length (Nat.le_refl _),
      List.take_length]
  · rw [List.length_append]
    omega

theorem Pending.finish (hp : h.Pending total got seq) (hge : total ≤ got.length + d.length) :
    (h.storeChunk d).rxApduStatus = .complete ∧ (h.storeChunk d).rxApduSequenceNumber = 0 ∧
      (h.storeChunk d).rxApduLength = h.rxApduLength + 1 ∧
      (h.storeChunk d).rxApduBuffer.slice 0 (total + 1) =
        h.type :: (got ++ d.take (total - got.length)) := by
  have hle : h.rxApduOffset.toNat ≤ h.rxApduLength.toNat := by
    rw [hp.offset, hp.length]
    exact hp.short
  have hge' : h.rxApduLength.toNat ≤ h.rxApduOffset.toNat + d.length := by
    rw [hp.offset, hp.length]
    exact hge
  rw [storeChunk_complete h d hle hge']
  refine ⟨rfl, rfl, rfl, ?_⟩
  show (h.rxApduBuffer.memcpy (1 + h.rxApduOffset.toNat) d _).slice 0 _ = _
  have hshort := hp.short
  rw [hp.offset, hp.length,
    show total + 1 = got.length + (total - got.length) + 1 by omega,
    slice_extend hp.stored d _ (by omega)]

theorem Pending.deliver (hp : h.Pending total got seq) (hge : total ≤ got.length + d.length)
    (htotal : total + 1 < 65536) :
    (h.storeChunk d).Delivered (got ++ d.take (total - got.length)) := by
  obtain ⟨hst, hnum, hlen, hbuf⟩ := hp.finish hge
  have hshort := hp.short
  have hlength : (got ++ d.take (total - got.length)).length = total := by
    rw [List.length_append, List.length_take]
    omega
  refine ⟨hst, hnum, ?_, ?_⟩
  · rw [hlen, UInt16.toNat_add, hp.length, hlength]
    exact Nat.mod_eq_of_lt htotal
  · rw [hlength, hbuf, storeChunk_type]

theorem opened_pending (h : RxState) (total : Nat) (htotal : total < 65536)
    (hnum : h.rxApduSequenceNumber = 0) : (h.opened total).Pending total [] 0 := by
  refine ⟨hnum, ?_, rfl, rfl, Nat.zero_le _⟩
  show (UInt16.ofNat total).toNat = total
  rw [UInt16.toNat_ofNat']
  exact Nat.mod_eq_of_lt htotal

-- ---------------------------------------------------------------------------
-- One packet
-- ---------------------------------------------------------------------------

theorem processApduChunk_be16 (hseq : seq < 65536) (body : Bytes) :
    h.processApduChunk (be16 seq ++ body) =
      if seq ≠ h.rxApduSequenceNumber.toNat then { h with rxApduStatus := .waiting }
      else if h.rxApduSequenceNumber = 0 then h.firstChunk body else h.storeChunk body := by
  show (if fromBE (be16 seq) ≠ _ then _
    else if _ then h.firstChunk body else h.storeChunk body) = _
  rw [fromBE_be16 seq hseq]

theorem firstChunk_be16 (htotal : total ≤ h.rxApduBufferSize.toNat) :
    h.firstChunk (be16 total ++ d) = (h.opened total).storeChunk d := by
  have hlt : total < 65536 := Nat.lt_of_le_of_lt htotal h.rxApduBufferSize.toNat_lt
  have hsmall : ¬ UInt16.ofNat (fromBE (be16 total)) > h.rxApduBufferSize := by
    rw [be16, declared_gt_iff, ← be16, fromBE_be16 total hlt]
    omega
  show (if UInt16.ofNat (fromBE (be16 total)) > h.rxApduBufferSize then _
    else (h.opened (fromBE (be16 total))).storeChunk d) = _
  rw [if_neg hsmall, fromBE_be16 total hlt]

section
variable (channel apduLength : Nat)

theorem rxStep_frame (hfit : d.length + 7 < 65536) :
    h.rxStep (frame channel apduLength seq d) =
      h.processApduChunk (be16 seq ++ ((if seq = 0 then be16 apduLength else []) ++ d)) := by
  have hlen : (frame channel apduLength seq d).length < 65536 := by
    rw [length_frame]
    split <;> omega
  rw [rxStep, Nat.mod_eq_of_lt hlen, List.take_length]
  rfl

theorem rxStep_frame_reject (hseq : seq < 65536) (hfit : d.length + 7 < 65536)
    (hne : h.rxApduSequenceNumber.toNat ≠ seq) :
    h.rxStep (frame channel apduLength seq d) = { h with rxApduStatus := .waiting } := by
  rw [rxStep_frame _ _ hfit, processApduChunk_be16 hseq, if_pos hne.symm]

theorem rxStep_frame_next (hseq : seq < 65536) (hpos : seq ≠ 0) (hfit : d.length + 7 < 65536)
    (hnum : h.rxApduSequenceNumber = UInt16.ofNat seq) :
    h.rxStep (frame channel apduLength seq d) = h.storeChunk d := by
  have hn : h.rxApduSequenceNumber.toNat = seq := by
    rw [hnum, UInt16.toNat_ofNat']
    exact Nat.mod_eq_of_lt hseq
  have h0 : h.rxApduSequenceNumber ≠ 0 := by
    intro h0
    rw [h0] at hn
    exact hpos hn.symm
  rw [rxStep_frame _ _ hfit, processApduChunk_be16 hseq, if_neg (not_not.mpr hn.symm), if_neg h0,
    if_neg hpos, List.nil_append]

theorem rxStep_frame_first (hfit : d.length + 7 < 65536)
    (hlen : apduLength ≤ h.rxApduBufferSize.toNat) (hnum : h.rxApduSequenceNumber = 0) :
    h.rxStep (frame channel apduLength 0 d) = (h.opened apduLength).storeChunk d := by
  have hn : ¬ 0 ≠ h.rxApduSequenceNumber.toNat := by simp [hnum]
  rw [rxStep_frame _ _ hfit, processApduChunk_be16 (by decide), if_neg hn, if_pos hnum, if_pos rfl,
    firstChunk_be16 hlen]

-- ---------------------------------------------------------------------------
-- A run of packets
-- ---------------------------------------------------------------------------

/-- Packets that all carry another number than the expected one do no more
than set the status back. -/
theorem rxSteps_frames_reject {ds : List Bytes} (hds : ds ≠ []) (hs : Sendable seq ds)
    (hne : ∀ i < ds.length, h.rxApduSequenceNumber.toNat ≠ seq + i) :
    h.rxSteps (frames channel apduLength seq ds) = { h with rxApduStatus := .waiting } := by
  induction ds generalizing h seq with
  | nil => exact absurd rfl hds
  | cons d ds ih =>
    have hd : h.rxApduSequenceNumber.toNat ≠ seq := hne 0 (by simp)
    rw [frames_cons, rxSteps_cons, rxStep_frame_reject _ _ hs.number hs.head hd]
    cases ds with
    | nil => rfl
    | cons e es =>
      rw [ih (by simp) hs.tail]
      intro i hi
      have := hne (i + 1) (by simpa using hi)
      rw [show seq + 1 + i = seq + (i + 1) by omega]
      exact this

/-- The packets that carry the rest of a pending command deliver it with the
last one and not before. The handle `g` is `h` with the header of the first of
them accepted. -/
theorem rxSteps_frames_of_pending {g : RxState} {rest : Bytes} {ds : List Bytes}
    (hp : g.Pending total got seq)
    (hstep : ∀ d : Bytes, d.length + 7 < 65536 →
      h.rxStep (frame channel apduLength seq d) = g.storeChunk d)
    (hs : Sendable seq ds) (htotal : total = got.length + rest.length) (hlt : total + 1 < 65536)
    (hc : Chunks rest ds) :
    (h.rxSteps (frames channel apduLength seq ds)).Delivered (got ++ rest) ∧
      ∀ k, 0 < k → k < ds.length →
        (h.rxSteps ((frames channel apduLength seq ds).take k)).rxApduStatus = .needMoreData := by
  induction hc generalizing g h got seq with
  | last rest pad =>
    refine ⟨?_, ?_⟩
    · have hd := hp.deliver (d := rest ++ pad) (by simp [htotal]) hlt
      rw [htotal, Nat.add_sub_cancel_left, List.take_left] at hd
      rw [frames_cons, frames_nil, rxSteps_cons, hstep _ hs.head]
      exact hd
    · intro k hk hk'
      rw [List.length_singleton] at hk'
      omega
  | @more rest ds d hne hc ih =>
    have hr := List.length_pos_iff.mpr hne
    have hpos := hc.length_pos
    have hnext := hs.tail.1
    rw [List.length_append] at htotal
    obtain ⟨hp', hst⟩ := hp.extend (d := d) (by omega)
    obtain ⟨hdel, hmid⟩ := ih hp'
      (fun e he => rxStep_frame_next _ _ (by omega) (by omega) he hp'.number)
      hs.tail (by rw [List.length_append]; omega)
    have hfirst := hstep d hs.head
    refine ⟨?_, ?_⟩
    · rw [frames_cons, rxSteps_cons, hfirst, ← List.append_assoc]
      exact hdel
    · intro k hk hk'
      obtain ⟨k, rfl⟩ : ∃ j, k = j + 1 := ⟨k - 1, by omega⟩
      rw [frames_cons, List.take_succ_cons, rxSteps_cons, hfirst]
      rcases Nat.eq_zero_or_pos k with rfl | hkpos
      · simpa using hst
      · exact hmid k hkpos (by simpa using hk')

end

section
variable (channel : Nat)

theorem rxSteps_frames {apdu : Bytes} {ds : List Bytes} (hnum : h.rxApduSequenceNumber = 0)
    (hfit : apdu.length + 1 ≤ h.rxApduBufferSize.toNat) (hs : Sendable 0 ds) (hc : Chunks apdu ds) :
    (h.rxSteps (frames channel apdu.length 0 ds)).Delivered apdu ∧
      ∀ k, 0 < k → k < ds.length →
        (h.rxSteps ((frames channel apdu.length 0 ds).take k)).rxApduStatus = .needMoreData := by
  have hsize := h.rxApduBufferSize.toNat_lt
  exact rxSteps_frames_of_pending channel apdu.length
    (h.opened_pending apdu.length (by omega) hnum)
    (fun d hd => rxStep_frame_first channel apdu.length hd (by omega) hnum)
    hs (by simp) (by omega) hc

-- ---------------------------------------------------------------------------
-- Packets of one command fed to a handle that waits for another
-- ---------------------------------------------------------------------------

theorem Pending.delivered_finish_iff {apdu : Bytes} (hp : h.Pending total got seq)
    (hge : total ≤ got.length + d.length) (hapdu : apdu.length + 1 < 65536) :
    (h.storeChunk d).Delivered apdu ↔
      total = apdu.length ∧ apdu.take got.length = got ∧ Chunks (apdu.drop got.length) [d] := by
  have hshort := hp.short
  rw [Chunks.singleton_iff, List.length_drop]
  constructor
  · intro hd
    obtain ⟨-, -, hlen, hbuf⟩ := hp.finish hge
    have hl := hd.length
    rw [hlen, UInt16.toNat_add, hp.length] at hl
    have htotal : total = apdu.length := by
      have := h.rxApduLength.toNat_lt
      have := hp.length
      change (total + 1) % 65536 = _ at hl
      omega
    have hst := hd.stored
    rw [storeChunk_type, ← htotal, hbuf] at hst
    have happ : got ++ d.take (total - got.length) = apdu := (List.cons.inj hst).2
    rw [← htotal]
    refine ⟨rfl, ?_, ?_⟩
    · rw [← happ, List.take_left]
    · conv_rhs => rw [← happ, List.drop_left]
  · rintro ⟨htotal, htake, hdrop⟩
    have hd := hp.deliver hge (by omega)
    rw [htotal, hdrop] at hd
    have happ : got ++ apdu.drop got.length = apdu := by
      conv_lhs => rw [← htake]
      rw [List.length_take, Nat.min_eq_left (by omega)]
      exact List.take_append_drop _ _
    rw [happ] at hd
    exact hd

/-- What the packets of `apdu`, from the expected number on, make of a pending
command: they deliver `apdu` exactly when the pending command is the beginning
of it and they carry just the rest. -/
theorem Pending.delivered_iff {apdu : Bytes} {ds : List Bytes} (hp : h.Pending total got seq)
    (hst : h.rxApduStatus ≠ .complete) (hpos : seq ≠ 0) (hs : Sendable seq ds)
    (hapdu : apdu.length + 1 < 65536) :
    (h.rxSteps (frames channel apdu.length seq ds)).Delivered apdu ↔
      total = apdu.length ∧ apdu.take got.length = got ∧ Chunks (apdu.drop got.length) ds := by
  induction ds generalizing h got seq with
  | nil =>
    constructor
    · intro hd
      exact absurd hd.status hst
    · rintro ⟨-, -, hc⟩
      exact absurd rfl hc.ne_nil
  | cons d ds ih =>
    have hshort := hp.short
    rw [frames_cons, rxSteps_cons, rxStep_frame_next _ _ hs.number hpos hs.head hp.number]
    by_cases hlt : got.length + d.length < total
    · obtain ⟨hp', hst'⟩ := hp.extend hlt
      rw [ih hp' (by rw [hst']; decide) (by omega) hs.tail]
      -- both sides now speak of the same command, so lengths can be compared
      apply and_congr_right
      intro htotal
      have hd : d.length < (apdu.drop got.length).length := by
        rw [List.length_drop]
        omega
      rw [Chunks.cons_iff_of_lt hd, List.length_append, ← and_assoc, List.drop_drop]
      apply and_congr_left
      intro _
      rw [List.take_add]
      constructor
      · intro h'
        exact List.append_inj h' (by rw [List.length_take]; omega)
      · rintro ⟨h1, h2⟩
        rw [h1, h2]
    · have hge : total ≤ got.length + d.length := Nat.le_of_not_lt hlt
      cases ds with
      | nil => exact hp.delivered_finish_iff hge hapdu
      | cons e es =>
        -- the pending command is complete, so the packets left are rejected
        obtain ⟨-, hnum, -, -⟩ := hp.finish hge
        rw [rxSteps_frames_reject channel apdu.length (by simp) hs.tail
          (by intro i _; rw [hnum]; simp; omega)]
        constructor
        · intro hd
          exact absurd hd.status (by simp)
        · rintro ⟨htotal, -, hc⟩
          have := hc.lt_of_cons (by simp)
          rw [List.length_drop] at this
          omega

end

end Speculos.Protocol.RxState

-- ---------------------------------------------------------------------------
-- Recovery after a broken transfer
-- ---------------------------------------------------------------------------

namespace Speculos.Protocol

open Lib

namespace RxState

/-- The half-received command is the beginning of `apdu`, and the chunks from
the expected one on carry exactly the rest. -/
def Resumes (h : RxState) (apdu : Bytes) (ds : List Bytes) : Prop :=
  h.rxApduLength.toNat = apdu.length ∧
    apdu.take h.rxApduOffset.toNat = h.rxApduBuffer.slice 1 h.rxApduOffset.toNat ∧
    Chunks (apdu.drop h.rxApduOffset.toNat) (ds.drop h.rxApduSequenceNumber.toNat)

theorem Sound.pending {h : RxState} (hi : h.Sound) (hnum : h.rxApduSequenceNumber ≠ 0) :
    h.Pending h.rxApduLength.toNat (h.rxApduBuffer.slice 1 h.rxApduOffset.toNat)
      h.rxApduSequenceNumber.toNat := by
  obtain ⟨hshort, -, htyped⟩ := hi (.inr hnum)
  refine ⟨by simp, rfl, by simp, ?_, by simpa using Nat.le_of_lt hshort⟩
  rw [Region.length_slice, Nat.add_comm, Region.slice_add, Region.slice_one, htyped]
  rfl

theorem Pending.waiting {h : RxState} (hp : h.Pending total got seq) :
    { h with rxApduStatus := .waiting }.Pending total got seq :=
  ⟨hp.number, hp.length, hp.offset, hp.stored, hp.short⟩

theorem Sound.delivered_iff {h : RxState} (channel : Nat) {apdu : Bytes} {ds : List Bytes}
    (hi : h.Sound) (hnum : h.rxApduSequenceNumber ≠ 0)
    (hfit : apdu.length + 1 ≤ h.rxApduBufferSize.toNat) (hs : Sendable 0 ds) (hds : ds ≠ []) :
    (h.rxSteps (frames channel apdu.length 0 ds)).Delivered apdu ↔ h.Resumes apdu ds := by
  have hsize := h.rxApduBufferSize.toNat_lt
  have hklt := h.rxApduSequenceNumber.toNat_lt
  have hpos : h.rxApduSequenceNumber.toNat ≠ 0 := fun h0 => hnum (UInt16.toNat_inj.mp h0)
  generalize hk : h.rxApduSequenceNumber.toNat = k at hpos hklt
  have hreject : h.rxSteps (frames channel apdu.length 0 (ds.take k)) =
      { h with rxApduStatus := .waiting } := by
    refine rxSteps_frames_reject channel apdu.length (by simp [hpos, hds]) (hs.take k) ?_
    intro i hi
    rw [List.length_take] at hi
    omega
  have hp := (hi.pending hnum).waiting
  rw [hk] at hp
  conv_lhs => rw [← List.take_append_drop k ds]
  rw [frames_append, rxSteps_append, hreject, List.length_take]
  have hiff := hp.delivered_iff channel (by simp) hpos (hs.drop (Nat.le_of_lt hklt))
    (show apdu.length + 1 < 65536 by omega)
  rw [Region.length_slice] at hiff
  rw [Resumes, hk, ← hiff]
  by_cases hle : k ≤ ds.length
  · rw [Nat.zero_add, Nat.min_eq_left hle]
  · -- fewer packets than the expected number: none of them is accepted
    rw [List.drop_eq_nil_of_le (by omega), frames_nil, frames_nil]

end RxState

namespace LedgerProtocol

/-- After any packets at all, the packets of a command that fits deliver it
exactly when no earlier command is half received, or when that command is the
beginning of this one. -/
theorem delivered_after_iff (h : LedgerProtocol) (type : UInt8) (packets : List Bytes)
    (channel : Nat) (apdu : Bytes) (ds : List Bytes)
    (hfit : apdu.length + 1 ≤ h.rxApduBufferSize.toNat) (hs : Sendable 0 ds) (hc : Chunks apdu ds) :
    (((h.init type).rxAll packets).rxAll (frames channel apdu.length 0 ds)).Delivered apdu ↔
      ((h.init type).rxAll packets).rxApduSequenceNumber = 0 ∨
        ((h.init type).rxAll packets).Resumes apdu ds := by
  have hi := rxAll_sound h type packets
  have hsize : ((h.init type).rxAll packets).rxApduBufferSize = h.rxApduBufferSize :=
    rxAll_size _ packets
  rw [toRxState_rxAll ((h.init type).rxAll packets)]
  by_cases hnum : ((h.init type).rxAll packets).rxApduSequenceNumber = 0
  · have hdel := (RxState.rxSteps_frames channel hnum (by rw [hsize]; exact hfit) hs hc).1
    simp only [hnum, true_or, iff_true]
    exact hdel
  · rw [hi.delivered_iff channel hnum (by rw [hsize]; exact hfit) hs hc.ne_nil]
    simp only [hnum, false_or]

/-- The first packet of a command of 100 bytes that is never continued. -/
def abandoned : List Bytes := [frame 0x0101 100 0 (List.replicate 47 0)]

/-- Behind it, a command of two packets. -/
theorem delivered_after_iff_hid :
    let ds : List Bytes := [List.replicate 57 0x5a, [0x90, 0x00]]
    let apdu : Bytes := List.replicate 57 0x5a ++ [0x90, 0x00]
    ((usbdLedgerHidInit.rxAll abandoned).rxAll (frames 0x0101 apdu.length 0 ds)).Delivered apdu ↔
      (usbdLedgerHidInit.rxAll abandoned).rxApduSequenceNumber = 0 ∨
        (usbdLedgerHidInit.rxAll abandoned).Resumes apdu ds := by
  intro ds apdu
  exact delivered_after_iff usbdLedgerHidInit osIoPacketTypeUsbHidApdu abandoned 0x0101 apdu ds
    (by decide) (by decide) (.more _ (by decide) (.last [0x90, 0x00] []))

theorem abandoned_not_delivered :
    ¬ ((usbdLedgerHidInit.rxAll abandoned).rxAll (frames 0x0101 2 0 [[0x90, 0x00]])).Delivered
      [0x90, 0x00] := by
  intro hd
  exact absurd hd.status (by decide)

end LedgerProtocol

end Speculos.Protocol
