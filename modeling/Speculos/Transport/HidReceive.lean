import Speculos.Transport.UsbLaws

/-!
# Receiving a response over HID

What the callers of `HID._prepare` see, and what it leaves in `hid_packet`,
depends on the chunk and on `hid_packet` alone: `HIDPacket.receive` is that
function. A packet being received is `Sound`, which bounds its sequence number,
since every chunk but the first carries two bytes at least.
-/

namespace Speculos.Transport

open Lib Protocol

-- ---------------------------------------------------------------------------
-- The header of a chunk
-- ---------------------------------------------------------------------------

theorem hidHeaderParse_cases (data : Bytes) :
    (∃ hid : HidHeader, (∀ {σ : Type} (s : σ), hidHeaderParse data s = .ok hid s) ∧
      hid.length < 65536 ∧ 7 ≤ data.length) ∨
    (∀ {σ : Type} (s : σ), hidHeaderParse data s = .error .streamError s) := by
  unfold hidHeaderParse
  split
  · refine .inl ⟨_, fun s => rfl, fromBE_pair_lt _ _, ?_⟩
    simp
  · exact .inr fun s => rfl

namespace HID

def chunkHeader (data : Bytes) : Except PyError HidHeader := outcome (parseChunk data ())

theorem parseChunk_eq (data : Bytes) (s : σ) :
    parseChunk data s = match chunkHeader data with
      | .ok hid => .ok hid s
      | .error e => .error e s := by
  rcases hidHeaderParse_cases data with ⟨hid, hparse, -, -⟩ | hparse
  · rw [chunkHeader, parseChunk, parseChunk, bind_of_ok (hparse s), bind_of_ok (hparse ())]
    split
    · rfl
    · split <;> rfl
  · rw [chunkHeader, parseChunk, parseChunk, bind_of_error (hparse s), bind_of_error (hparse ())]
    rfl

theorem chunkHeader_ok (h : chunkHeader data = .ok hid) : hid.length < 65536 ∧ 7 ≤ data.length := by
  rcases hidHeaderParse_cases data with ⟨hid', hparse, hbounds⟩ | hparse
  · rw [chunkHeader, parseChunk, bind_of_ok (hparse ())] at h
    split at h
    · simp at h
    · split at h
      · simp at h
      · simp only [pure_apply, outcome_ok, Except.ok.injEq] at h
        rwa [← h]
  · rw [chunkHeader, parseChunk, bind_of_error (hparse ())] at h
    simp at h

theorem chunkHeader_of_parse (hparse : hidHeaderParse data () = .ok hid ())
    (hchannel : hid.channel = usbChannel) (hcommand : hid.command = usbCommand) :
    chunkHeader data = .ok hid := by
  rw [chunkHeader, parseChunk, bind_of_ok hparse, if_neg (by simpa using hchannel),
    if_neg (by simpa using hcommand)]
  rfl

theorem chunkHeader_frame (hseq : seq < 65536) (htotal : total < 65536)
    (hlen : 7 ≤ (frame usbChannel total seq data).length) :
    ∃ hid, chunkHeader (frame usbChannel total seq data) = .ok hid ∧ hid.seq = seq ∧
      (seq = 0 → hid.length = total) := by
  rw [length_frame] at hlen
  by_cases h0 : seq = 0
  · subst h0
    exact ⟨_, chunkHeader_of_parse rfl rfl rfl, rfl, fun _ => fromBE_be16 total htotal⟩
  · rw [if_neg h0] at hlen
    match data with
    | [] | [_] => simp at hlen
    | l0 :: l1 :: rest =>
      rw [frame_pos _ _ _ h0]
      exact ⟨_, chunkHeader_of_parse rfl rfl rfl, fromBE_be16 seq hseq, fun h => absurd h h0⟩

end HID

-- ---------------------------------------------------------------------------
-- The packet being received
-- ---------------------------------------------------------------------------

namespace HIDPacket

@[simp] theorem appendData_seq (p : HIDPacket) (chunk : Bytes) :
    (p.appendData chunk).seq = p.seq + 1 := by
  unfold appendData
  split <;> rfl

@[simp] theorem reset_seq (size : Nat) : (reset size).seq = 0 := rfl

def handOut (p : HIDPacket) : Except PyError (Option Bytes) × HIDPacket :=
  if p.complete then (.ok (some p.data), reset 0) else (.ok none, p)

/-- `HID._prepare` on the packet being received. -/
def receive (p : HIDPacket) (data : Bytes) : Except PyError (Option Bytes) × HIDPacket :=
  match HID.chunkHeader data with
  | .error e => (.error e, p)
  | .ok hid =>
    if hid.seq = 0 then handOut ((reset hid.length).appendData (data.drop hidHeaderSizeof))
    else if hid.seq ≠ p.seq then
      (.error (.valueError "HID sequence does not match expected sequence"), p)
    else handOut (p.appendData (data.drop (hidHeaderSizeof - 2)))

theorem receive_frame_first (p : HIDPacket) (htotal : total < 65536) (d : Bytes) :
    p.receive (frame HID.usbChannel total 0 d) = handOut ((reset total).appendData d) := by
  obtain ⟨hid, hc, hseq, hlength⟩ :=
    HID.chunkHeader_frame (by decide) htotal
      (by simp [length_frame] : 7 ≤ (frame _ total 0 d).length)
  rw [receive, hc]
  simp only [hseq, hlength, if_true]
  rfl

theorem receive_frame_next (p : HIDPacket) (hseq : p.seq < 65536) (h0 : p.seq ≠ 0)
    (htotal : total < 65536) (d : Bytes)
    (hlen : 7 ≤ (frame HID.usbChannel total p.seq d).length) :
    p.receive (frame HID.usbChannel total p.seq d) = handOut (p.appendData d) := by
  obtain ⟨hid, hc, hnum, -⟩ := HID.chunkHeader_frame hseq htotal hlen
  rw [receive, hc, frame_pos _ _ _ h0]
  simp only [hnum, h0, if_false, ne_eq, not_true]
  rfl

theorem handOut_more (p : HIDPacket) (chunk : Bytes) (h : chunk.length < p.remainingSize) :
    (p.appendData chunk).handOut =
      (.ok none, ⟨p.data ++ chunk, p.seq + 1, p.remainingSize - chunk.length⟩) := by
  have hne : p.remainingSize - chunk.length ≠ 0 := by omega
  simp [appendData, handOut, complete, Nat.le_of_lt h, hne]

theorem handOut_last (p : HIDPacket) (chunk : Bytes) (h : p.remainingSize ≤ chunk.length) :
    (p.appendData chunk).handOut =
      (.ok (some (p.data ++ chunk.take p.remainingSize)), reset 0) := by
  unfold appendData
  split
  · rename_i hle
    have heq : chunk.length = p.remainingSize := Nat.le_antisymm hle h
    simp [handOut, complete, ← heq]
  · simp [handOut, complete]

/-- Nothing is being received, or the bytes still missing bound what the
sequence number can be. -/
def Sound (p : HIDPacket) : Prop :=
  p = reset 0 ∨ 0 < p.seq ∧ p.remainingSize + 2 * p.seq ≤ 65537

theorem Sound.seq_lt {p : HIDPacket} (h : p.Sound) : p.seq + 1 < 65536 := by
  rcases h with rfl | ⟨-, h⟩
  · decide
  · omega

theorem handOut_sound (p : HIDPacket) (chunk : Bytes)
    (h : p.remainingSize + 2 * p.seq + 2 ≤ 65537 + chunk.length) :
    (p.appendData chunk).handOut.2.Sound := by
  by_cases hlt : chunk.length < p.remainingSize
  · rw [handOut_more p chunk hlt]
    refine .inr ⟨Nat.succ_pos _, ?_⟩
    show p.remainingSize - chunk.length + 2 * (p.seq + 1) ≤ 65537
    omega
  · rw [handOut_last p chunk (Nat.le_of_not_lt hlt)]
    exact .inl rfl

theorem receive_sound {p : HIDPacket} (hp : p.Sound) (data : Bytes) : (p.receive data).2.Sound := by
  unfold receive
  split
  · exact hp
  · rename_i hid hc
    obtain ⟨hlength, hdata⟩ := HID.chunkHeader_ok hc
    split
    · apply handOut_sound
      show hid.length + 2 * 0 + 2 ≤ _
      omega
    · split
      · exact hp
      · rename_i hne heq
        have hseq : hid.seq = p.seq := not_not.mp heq
        apply handOut_sound
        rcases hp with rfl | ⟨-, hbound⟩
        · exact absurd hseq hne
        · rw [List.length_drop]
          have : hidHeaderSizeof = 7 := rfl
          omega

end HIDPacket

-- ---------------------------------------------------------------------------
-- The method
-- ---------------------------------------------------------------------------

namespace HID

theorem receiveChunk_eq (p : HIDPacket) (chunk : Bytes) (t : USBTransport)
    (hseq : (p.appendData chunk).seq < 65536) :
    outcome (receiveChunk p chunk t) = (p.appendData chunk).handOut.1 ∧
      (after (receiveChunk p chunk t)).subclass = .hid (p.appendData chunk).handOut.2 := by
  rw [receiveChunk, bind_of_ok (modify_apply _ _),
    bind_of_ok (buildXfer_ok _ _ _ (by decide) hseq (by decide)), bind_of_ok (modify_apply _ _),
    HIDPacket.handOut]
  split
  · exact ⟨rfl, rfl⟩
  · exact ⟨rfl, USBTransport.submit_subclass ..⟩

theorem prepare_eq (p : HIDPacket) (data : Bytes) (t : USBTransport) (ht : t.subclass = .hid p)
    (hp : ∀ hid, chunkHeader data = .ok hid → hid.seq = p.seq → p.seq + 1 < 65536) :
    outcome (prepare p data t) = (p.receive data).1 ∧
      (after (prepare p data t)).subclass = .hid (p.receive data).2 := by
  rw [HIDPacket.receive]
  have hparse := parseChunk_eq data t
  cases hc : chunkHeader data with
  | error e =>
    rw [hc] at hparse
    rw [prepare, bind_of_error hparse]
    exact ⟨rfl, ht⟩
  | ok hid =>
    rw [hc] at hparse
    rw [prepare, bind_of_ok hparse]
    dsimp only
    split
    · exact receiveChunk_eq _ _ _ (by simp)
    · split
      · exact ⟨rfl, ht⟩
      · rename_i hne
        exact receiveChunk_eq _ _ _ (by simpa using hp hid hc (not_not.mp hne))

theorem prepareHook_eq (t : USBTransport) (data : Bytes) (ht : t.subclass = .hid p)
    (hp : ∀ hid, chunkHeader data = .ok hid → hid.seq = p.seq → p.seq + 1 < 65536) :
    outcome (USBTransport.prepareHook data t) = (p.receive data).1 ∧
      (after (USBTransport.prepareHook data t)).subclass = .hid (p.receive data).2 := by
  rw [USBTransport.prepareHook, bind_of_ok (get_apply t), ht]
  exact prepare_eq p data t ht hp

end HID

end Speculos.Transport
