import Speculos.Lib.Memory
import Speculos.Lib.Tlv

/-!
# The seph descriptor

`readall` and `writeall`, of which `io.c` and `seproxyhal.c` have a copy each.
What the kernel answers to the calls of `read` and `write` is a list: a call may
be interrupted, fail, or move fewer bytes than it was asked to. A call to which
the list has no answer blocks.
-/

namespace Speculos.Seph

open Lib

/-- What `read` or `write` returns: -1 with `EINTR`, -1 with another error, or
a number of bytes, which is 0 where the descriptor is closed. -/
inductive Answer
  | interrupted
  | failed
  | moved (n : Nat)
  deriving DecidableEq, Repr

/-- What `readall` returns, the memory it wrote to and what is left to read. -/
structure Read where
  ret : Int
  buf : Region
  stream : Bytes

/-- The loop of `readall(fd, &buf[dst], count)`. Every `read` is given the same
pointer; the kernel hands over no more than it is asked for and has. -/
def readLoop : List Answer → Bytes → Region → Nat → Nat → Option Read
  | _, stream, buf, _, 0 => some ⟨0, buf, stream⟩
  | [], _, _, _, _ + 1 => none
  | .interrupted :: answers, stream, buf, dst, count + 1 =>
    readLoop answers stream buf dst (count + 1)
  | .failed :: _, stream, buf, _, _ + 1 => some ⟨-1, buf, stream⟩
  | .moved 0 :: _, stream, buf, _, _ + 1 => some ⟨-1, buf, stream⟩
  | .moved (n + 1) :: answers, stream, buf, dst, count + 1 =>
    if n ≤ count ∧ n < stream.length then
      readLoop answers (stream.drop (n + 1)) (buf.memcpy dst stream (n + 1)) dst (count - n)
    else none

/-- What `writeall` returns and all bytes written to the descriptor. -/
structure Write where
  ret : Int
  stream : Bytes
  deriving DecidableEq, Repr

/-- The loop of `writeall(fd, p, count)` over the `count` bytes at `p`. -/
def writeLoop : List Answer → Bytes → Bytes → Option Write
  | _, [], stream => some ⟨0, stream⟩
  | [], _ :: _, _ => none
  | .interrupted :: answers, b :: p, stream => writeLoop answers (b :: p) stream
  | .failed :: _, _ :: _, stream => some ⟨-1, stream⟩
  | .moved 0 :: _, _ :: _, stream => some ⟨-1, stream⟩
  | .moved (n + 1) :: answers, b :: p, stream =>
    if n ≤ p.length then writeLoop answers (p.drop n) (stream ++ b :: p.take n) else none

namespace Io

def readall := readLoop

def writeall := writeLoop

end Io

namespace Seproxyhal

def readall := readLoop

def writeall := writeLoop

end Seproxyhal

-- ---------------------------------------------------------------------------
-- Deliveries
-- ---------------------------------------------------------------------------

/-- The answers move `count` bytes in positive pieces, between interruptions. -/
def Delivers : Nat → List Answer → Prop
  | count, [] => count = 0
  | count, .interrupted :: answers => count ≠ 0 ∧ Delivers count answers
  | _, .failed :: _ => False
  | count, .moved n :: answers => 0 < n ∧ n ≤ count ∧ Delivers (count - n) answers

instance decidableDelivers : ∀ count answers, Decidable (Delivers count answers)
  | count, [] => inferInstanceAs (Decidable (count = 0))
  | count, .interrupted :: answers =>
    have := decidableDelivers count answers
    inferInstanceAs (Decidable (count ≠ 0 ∧ Delivers count answers))
  | _, .failed :: _ => inferInstanceAs (Decidable False)
  | count, .moved n :: answers =>
    have := decidableDelivers (count - n) answers
    inferInstanceAs (Decidable (0 < n ∧ n ≤ count ∧ Delivers (count - n) answers))

def pieces : List Answer → Nat
  | [] => 0
  | .interrupted :: answers => pieces answers
  | _ :: answers => pieces answers + 1

theorem Delivers.eq_nil (h : Delivers 0 answers) : answers = [] := by
  cases answers with
  | nil => rfl
  | cons answer answers =>
    cases answer with
    | interrupted => exact absurd rfl h.1
    | failed => exact h.elim
    | moved n =>
      obtain ⟨hpos, hle, -⟩ := h
      omega

theorem Delivers.rest (h : Delivers (count + 1) (.moved (n + 1) :: answers)) :
    n ≤ count ∧ Delivers (count - n) answers := by
  obtain ⟨-, hle, h⟩ := h
  rw [Nat.add_sub_add_right] at h
  exact ⟨by omega, h⟩

theorem readLoop_delivers (buf : Region) (dst : Nat) (hcount : count ≤ stream.length)
    (h : Delivers count answers) :
    ∃ buf', readLoop answers stream buf dst count = some ⟨0, buf', stream.drop count⟩ := by
  fun_induction readLoop answers stream buf dst count with
  | case1 answers stream buf dst => exact ⟨buf, rfl⟩
  | case2 stream buf dst count => cases h
  | case3 answers stream buf dst count ih => exact ih hcount h.2
  | case4 answers stream buf dst count => exact h.elim
  | case5 answers stream buf dst count => exact absurd h.1 (Nat.lt_irrefl 0)
  | case6 n answers stream buf dst count hfits ih =>
    obtain ⟨hle, h⟩ := h.rest
    obtain ⟨buf', hbuf⟩ := ih (by rw [List.length_drop]; omega) h
    rw [List.drop_drop, show n + 1 + (count - n) = count + 1 by omega] at hbuf
    exact ⟨buf', hbuf⟩
  | case7 n answers stream buf dst count hfits =>
    have hle := h.rest.1
    omega

theorem readLoop_takes (h : readLoop answers stream buf dst count = some r) (hret : 0 ≤ r.ret)
    (hsize : dst + count ≤ size) :
    count ≤ stream.length ∧ r.stream = stream.drop count ∧ buf.Stores r.buf count size := by
  fun_induction readLoop answers stream buf dst count with
  | case1 answers stream buf dst =>
    cases h
    exact ⟨Nat.zero_le _, rfl, .refl buf size⟩
  | case2 stream buf dst count => cases h
  | case3 answers stream buf dst count ih => exact ih h hsize
  | case4 answers stream buf dst count =>
    cases h
    exact absurd hret (show ¬ (0 : Int) ≤ -1 by decide)
  | case5 answers stream buf dst count =>
    cases h
    exact absurd hret (show ¬ (0 : Int) ≤ -1 by decide)
  | case6 n answers stream buf dst count hfits ih =>
    obtain ⟨hle, hstream, hstores⟩ := ih h (by omega)
    rw [List.length_drop] at hle
    have hall := (buf.stores_memcpy dst stream (by omega)).trans hstores
    rw [show n + 1 + (count - n) = count + 1 by omega] at hall
    refine ⟨by omega, ?_, hall⟩
    rw [hstream, List.drop_drop, show n + 1 + (count - n) = count + 1 by omega]
  | case7 n answers stream buf dst count hfits => cases h

theorem cell_readLoop (h : readLoop answers stream buf dst count = some r)
    (hi : i < dst ∨ dst + count ≤ i) :
    r.buf.cell i = buf.cell i := by
  fun_induction readLoop answers stream buf dst count with
  | case1 answers stream buf dst =>
    cases h
    rfl
  | case2 stream buf dst count => cases h
  | case3 answers stream buf dst count ih => exact ih h hi
  | case4 answers stream buf dst count =>
    cases h
    rfl
  | case5 answers stream buf dst count =>
    cases h
    rfl
  | case6 n answers stream buf dst count hfits ih =>
    rw [ih h (by omega), Region.cell_memcpy, if_neg (by omega)]
  | case7 n answers stream buf dst count hfits => cases h

theorem readLoop_pieces_zero (h : pieces answers = 0)
    (hread : readLoop answers stream buf dst (count + 1) = some r) : False := by
  induction answers with
  | nil => cases hread
  | cons answer answers ih =>
    cases answer with
    | interrupted => exact ih h hread
    | failed => cases h
    | moved n => cases h

theorem readLoop_one_piece (hone : pieces answers ≤ 1)
    (hread : readLoop answers stream buf dst count = some r) (hret : 0 ≤ r.ret) :
    count ≤ stream.length ∧ r = ⟨0, buf.memcpy dst stream count, stream.drop count⟩ := by
  fun_induction readLoop answers stream buf dst count with
  | case1 answers stream buf dst =>
    cases hread
    exact ⟨Nat.zero_le _, rfl⟩
  | case2 stream buf dst count => cases hread
  | case3 answers stream buf dst count ih => exact ih hone hread
  | case4 answers stream buf dst count =>
    cases hread
    exact absurd hret (show ¬ (0 : Int) ≤ -1 by decide)
  | case5 answers stream buf dst count =>
    cases hread
    exact absurd hret (show ¬ (0 : Int) ≤ -1 by decide)
  | case6 n answers stream buf dst count hfits ih =>
    have hnone : pieces answers = 0 := by
      have hpieces : pieces answers + 1 ≤ 1 := hone
      omega
    obtain ⟨hle, hlt⟩ := hfits
    rcases Nat.eq_zero_or_eq_succ_pred (count - n) with hzero | hpos
    · obtain rfl : count = n := by omega
      rw [Nat.sub_self, readLoop] at hread
      cases hread
      exact ⟨hlt, rfl⟩
    · rw [hpos] at hread
      exact (readLoop_pieces_zero hnone hread).elim
  | case7 n answers stream buf dst count hfits => cases hread

/-- Bytes that come in several pieces: the last place of the buffer is not written to. -/
theorem cell_readLoop_pieces (h : Delivers count answers) (hmany : 1 < pieces answers)
    (hread : readLoop answers stream buf dst count = some r) :
    r.buf.cell (dst + (count - 1)) = buf.cell (dst + (count - 1)) := by
  fun_induction readLoop answers stream buf dst count with
  | case1 answers stream buf dst =>
    cases hread
    rfl
  | case2 stream buf dst count => cases h
  | case3 answers stream buf dst count ih => exact ih h.2 hmany hread
  | case4 answers stream buf dst count => exact h.elim
  | case5 answers stream buf dst count => exact absurd h.1 (Nat.lt_irrefl 0)
  | case6 n answers stream buf dst count hfits ih =>
    obtain ⟨hle, h⟩ := h.rest
    have hlt : n < count := by
      by_contra hge
      rw [show count - n = 0 by omega] at h
      rw [h.eq_nil] at hmany
      exact absurd hmany (Nat.lt_irrefl 1)
    rw [cell_readLoop hread (.inr (by omega)), Region.cell_memcpy, if_neg (by omega)]
  | case7 n answers stream buf dst count hfits => cases hread

theorem writeLoop_delivers (stream : Bytes) (h : Delivers p.length answers) :
    writeLoop answers p stream = some ⟨0, stream ++ p⟩ := by
  fun_induction writeLoop answers p stream with
  | case1 answers stream => rw [List.append_nil]
  | case2 b p stream => cases h
  | case3 answers b p stream ih => exact ih h.2
  | case4 answers b p stream => exact h.elim
  | case5 answers b p stream => exact absurd h.1 (Nat.lt_irrefl 0)
  | case6 n answers b p stream hfits ih =>
    obtain ⟨-, h⟩ := h.rest
    rw [← List.length_drop] at h
    rw [ih h, List.append_assoc, List.cons_append, List.take_append_drop]
  | case7 n answers b p stream hfits =>
    have hle := h.rest.1
    omega

-- ---------------------------------------------------------------------------
-- The stream is handed over
-- ---------------------------------------------------------------------------

/-- `readall` returns 0 with the next `count` bytes of the stream in order,
whatever the memory held, and takes these bytes from the stream. -/
def Gathers (readall : List Answer → Bytes → Region → Nat → Nat → Option Read) (stream : Bytes)
    (count : Nat) (answers : List Answer) : Prop :=
  ∀ buf dst, ∃ buf', readall answers stream buf dst count = some ⟨0, buf', stream.drop count⟩ ∧
    buf'.slice dst count = stream.take count

/-- `writeall` returns 0 and appends its buffer to the stream. -/
def Emits (writeall : List Answer → Bytes → Bytes → Option Write) (p : Bytes)
    (answers : List Answer) : Prop :=
  ∀ stream, writeall answers p stream = some ⟨0, stream ++ p⟩

theorem readLoop_gathers_iff (hcount : count ≤ stream.length) (h : Delivers count answers) :
    Gathers readLoop stream count answers ↔ pieces answers ≤ 1 := by
  constructor
  · -- a byte that is not the one expected in the last place would stay there
    intro hgathers
    by_contra hmany
    have hpos : 0 < count := by
      by_contra hzero
      rw [show count = 0 by omega] at h
      rw [h.eq_nil] at hmany
      exact hmany (Nat.zero_le 1)
    have hlast : count - 1 < stream.length := by omega
    obtain ⟨buf', hread, hslice⟩ := hgathers ⟨fun _ => stream[count - 1] + 1, []⟩ 0
    have hcell := cell_readLoop_pieces h (by omega) hread
    rw [Nat.zero_add] at hcell
    have hget := congrArg (·[count - 1]?) hslice
    simp only [List.getElem?_take, if_pos (show count - 1 < count by omega)] at hget
    rw [List.getElem?_eq_getElem hlast, List.getElem?_eq_getElem (by rw [Region.length_slice]; omega),
      Region.getElem_slice, Nat.zero_add, hcell, Option.some.injEq] at hget
    have hlt := stream[count - 1].toNat_lt
    have hnat := congrArg UInt8.toNat hget
    rw [UInt8.toNat_add, show (1 : UInt8).toNat = 1 from rfl] at hnat
    omega
  · intro hone buf dst
    obtain ⟨buf', hread⟩ := readLoop_delivers buf dst hcount h
    obtain ⟨-, heq⟩ := readLoop_one_piece hone hread (Int.le_refl 0)
    obtain rfl : buf' = _ := congrArg Read.buf heq
    exact ⟨_, hread, Region.slice_memcpy_self _ _ _ _ hcount⟩

/-- Both copies of `readall` hand over the stream exactly where it comes in one
piece, and both copies of `writeall` always write their buffer in order. -/
theorem readall_gathers_iff (stream : Bytes) (count : Nat) (answers : List Answer)
    (hcount : count ≤ stream.length) (hread : Delivers count answers) (p : Bytes)
    (answers' : List Answer) (hwrite : Delivers p.length answers') :
    (Gathers Io.readall stream count answers ↔ pieces answers ≤ 1) ∧
      (Gathers Seproxyhal.readall stream count answers ↔ pieces answers ≤ 1) ∧
      Emits Io.writeall p answers' ∧ Emits Seproxyhal.writeall p answers' :=
  ⟨readLoop_gathers_iff hcount hread, readLoop_gathers_iff hcount hread,
    fun stream => writeLoop_delivers stream hwrite, fun stream => writeLoop_delivers stream hwrite⟩

theorem readall_gathers_header :
    Gathers Io.readall [0x0D, 0, 0, 1] 3 [.interrupted, .moved 3] ∧
      Gathers Seproxyhal.readall [0x0D, 0, 0, 1] 3 [.interrupted, .moved 3] ∧
      Emits Io.writeall [0x60, 0, 0] [.moved 1, .interrupted, .moved 2] ∧
      Emits Seproxyhal.writeall [0x60, 0, 0] [.moved 1, .interrupted, .moved 2] := by
  obtain ⟨hio, hseproxyhal, hwrite⟩ := readall_gathers_iff [0x0D, 0, 0, 1] 3
    [.interrupted, .moved 3] (by decide) (by decide) [0x60, 0, 0]
    [.moved 1, .interrupted, .moved 2] (by decide)
  exact ⟨hio.mpr (by decide), hseproxyhal.mpr (by decide), hwrite⟩

/-- A header that comes in two pieces: the second one is read over the first. -/
theorem readall_two_pieces :
    Delivers 3 [.moved 1, .moved 2] ∧
      ¬ Gathers Io.readall [0x0D, 0, 1] 3 [.moved 1, .moved 2] ∧
      ¬ Gathers Seproxyhal.readall [0x0D, 0, 1] 3 [.moved 1, .moved 2] := by
  have hslice : ((((Region.zeroed.memcpy 0 [0x0D, 0, 1] 1).memcpy 0 [0, 1] 2).slice 0 3) : Bytes) ≠
      [0x0D, 0, 1] := by decide
  refine ⟨by decide, fun h => ?_, fun h => ?_⟩
  · obtain ⟨buf', hread, hbytes⟩ := h Region.zeroed 0
    cases hread
    exact hslice hbytes
  · obtain ⟨buf', hread, hbytes⟩ := h Region.zeroed 0
    cases hread
    exact hslice hbytes

-- ---------------------------------------------------------------------------
-- Packets
-- ---------------------------------------------------------------------------

def nextBody : Bytes → Nat
  | _ :: hi :: lo :: _ => fromBE [hi, lo]
  | _ => 0

theorem nextBody_encode (p : Packet) (after : Bytes) :
    nextBody (p.encode ++ after) = p.body.length := by
  obtain ⟨hi, lo, hencode, hbody⟩ := p.exists_header
  rw [hencode]
  exact hbody

theorem readLoop_nextBody (hone : pieces header ≤ 1)
    (hread : readLoop header stream buf 0 3 = some r) (hret : 0 ≤ r.ret) :
    fromBE [r.buf.cell 1, r.buf.cell 2] = nextBody stream := by
  obtain ⟨h3, rfl⟩ := readLoop_one_piece hone hread hret
  dsimp only
  rw [Region.cell_memcpy, Region.cell_memcpy, if_pos (by omega), if_pos (by omega)]
  rcases stream with _ | ⟨tag, _ | ⟨hi, _ | ⟨lo, rest⟩⟩⟩
  · exact absurd h3 (by decide)
  · exact absurd h3 (by simp)
  · exact absurd h3 (by simp)
  · rfl

theorem readLoop_header {p : Packet} {after : Bytes} (hone : pieces header ≤ 1)
    (hread : readLoop header (p.encode ++ after) buf 0 3 = some r) (hret : 0 ≤ r.ret) :
    fromBE [r.buf.cell 1, r.buf.cell 2] = p.body.length ∧ r.stream = p.body ++ after ∧
      r.buf = buf.memcpy 0 p.encode 3 := by
  have hlen := readLoop_nextBody hone hread hret
  rw [nextBody_encode] at hlen
  obtain ⟨-, rfl⟩ := readLoop_one_piece hone hread hret
  have h3 : 3 ≤ p.encode.length := by
    rw [Packet.length_encode, Packet.size]
    omega
  exact ⟨hlen, rfl, buf.memcpy_append_of_le 0 p.encode after h3⟩

theorem readLoop_body {p : Packet} {after : Bytes} {buf : Region} (hone : pieces body ≤ 1)
    (hread : readLoop body (p.body ++ after) (buf.memcpy 0 p.encode 3) 3 p.body.length = some r)
    (hret : 0 ≤ r.ret) :
    r.stream = after ∧ r.buf = buf.memcpy 0 p.encode p.size := by
  obtain ⟨-, rfl⟩ := readLoop_one_piece hone hread hret
  obtain ⟨hi, lo, hencode, -⟩ := p.exists_header
  have hheader : buf.memcpy 0 p.encode 3 = buf.memcpy 0 [p.tag, hi, lo] 3 := by
    rw [hencode]
    exact buf.memcpy_append_of_le 0 [p.tag, hi, lo] p.body (Nat.le_refl _)
  have hmemcpy := buf.memcpy_memcpy 0 [p.tag, hi, lo] p.body p.body.length
  rw [Nat.add_comm _ p.body.length] at hmemcpy
  refine ⟨List.drop_left' rfl, ?_⟩
  dsimp only
  rw [hheader, Region.memcpy_append_of_le _ _ _ _ (Nat.le_refl _), hencode]
  exact hmemcpy

end Speculos.Seph
