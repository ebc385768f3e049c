import Speculos.Display.Nbgl
import Speculos.Mcu.SocketHelper
import Speculos.Seph.LegacyReception

/-!
# The framing of NBGL images

A call hands a header and then the parts of its message to `sys_io_seph_send`.
The announced length and the length of every part are cut to sixteen bits, the
sum of the parts is not: a message is one packet exactly if the length of its
bitmap modulo 2 ^ 16 and the length of the rest stay below 2 ^ 16 together.
-/

namespace Speculos.Display

open Lib
open Speculos.Mcu.SocketHelper (readPacket readPacket_encode)
open Speculos.Seph (Answer Delivers)
open Speculos.Seph.Seproxyhal

/-- The calls of `sys_io_seph_send` in order, with what the kernel answers to
each. What they return is not looked at, but an exception ends all of them. -/
def sendAll (s : St) : List (Bytes × List Answer) → Option (St × Outcome)
  | [] => some (s, .returned 0)
  | (part, answers) :: parts => do
    let (s', outcome) ← spiSend s part answers
    if outcome = .thrown then return (s', .thrown) else sendAll s' parts

/-- The header announces the bytes that follow it. -/
def Announces : List Bytes → Prop
  | [] => True -- nothing is sent
  | header :: parts => fromBE (header.drop 1) = parts.flatten.length

/-- The parts are written as one packet, and read as one. -/
structure WellFramed (s : St) (parts : List Bytes) : Prop where
  announces : Announces parts
  written : ∀ answers : List (List Answer), List.Forall₂ (Delivers ·.length) parts answers →
    ∃ s', sendAll s (parts.zip answers) = some (s', .returned 0) ∧ s'.nextLength = 0 ∧
      s'.outgoing = s.outgoing ++ parts.flatten
  read : ∀ header rest, parts = header :: rest → ∀ answers answers' after,
    Delivers 3 answers → Delivers rest.flatten.length answers' →
      readPacket answers answers' (parts.flatten ++ after) =
        some (.packet (header.headD 0) rest.flatten.length rest.flatten, after)

-- ---------------------------------------------------------------------------
-- Writing
-- ---------------------------------------------------------------------------

theorem spiSend_part (s : St) (part : Bytes) (hle : part.length ≤ s.nextLength)
    (hbound : s.nextLength < 2 ^ 32) (htag : ¬ isStatus s.lastTag)
    (h : Delivers part.length answers) :
    spiSend s part answers =
      some ({ s with nextLength := s.nextLength - part.length, outgoing := s.outgoing ++ part },
        .returned 0) := by
  rcases part with _ | ⟨b, part⟩
  · rw [spiSend, if_pos List.length_nil, List.append_nil]
    rfl
  · have hopen : s.nextLength ≠ 0 := by
      rw [List.length_cons] at hle
      omega
    rw [spiSend, if_neg (by rw [List.length_cons]; omega), if_neg hopen,
      if_neg (Nat.not_lt.mpr hle), spiWrite_delivers s h]
    let s₁ := { s with outgoing := s.outgoing ++ b :: part }
    rcases Nat.lt_or_eq_of_le hle with hlt | heq
    · rw [counted_of_lt s₁ hlt hbound]
    · rw [counted_of_eq s₁ heq hbound, if_neg htag, heq, Nat.sub_self]

theorem sendAll_parts (s : St) (parts : List Bytes) (answers : List (List Answer))
    (hlen : parts.flatten.length = s.nextLength) (hbound : s.nextLength < 2 ^ 32)
    (htag : ¬ isStatus s.lastTag) (h : List.Forall₂ (Delivers ·.length) parts answers) :
    sendAll s (parts.zip answers) =
      some ({ s with nextLength := 0, outgoing := s.outgoing ++ parts.flatten }, .returned 0) := by
  induction h generalizing s with
  | nil =>
    have hidle : s.nextLength = 0 := hlen.symm
    rw [List.zip_nil_left, sendAll, List.flatten_nil, List.append_nil, ← hidle]
  | @cons part answers parts answers' hpart hparts ih =>
    rw [List.flatten_cons, List.length_append] at hlen
    have hrest := ih { s with
        nextLength := s.nextLength - part.length
        outgoing := s.outgoing ++ part }
      (by dsimp only; omega) (by dsimp only; omega) htag
    rw [List.zip_cons_cons, sendAll, spiSend_part s part (by omega) hbound htag hpart]
    simp only [Option.bind_eq_bind, Option.bind_some, reduceCtorEq, if_false]
    rw [hrest, List.flatten_cons, List.append_assoc]

theorem spiSend_header (s : St) (hidle : s.nextLength = 0) (htag : ¬ isStatus tag)
    (h : Delivers 3 answers) :
    spiSend s [tag, hi, lo] answers =
      some ({ s with
          lastTag := tag
          nextLength := fromBE [hi, lo]
          outgoing := s.outgoing ++ [tag, hi, lo] }, .returned 0) := by
  have hbound := fromBE_pair_lt hi lo
  have hdelivers : Delivers [tag, hi, lo].length answers := h
  have hsome : [tag, hi, lo].length ≠ 0 := Nat.succ_ne_zero _
  rw [spiSend, if_neg hsome, if_pos hidle, spiStart, if_neg fun hs => htag hs.2,
    spiWrite_delivers _ hdelivers]
  rcases Nat.eq_zero_or_pos (fromBE [hi, lo]) with hzero | hpos
  · rw [counted_of_eq _ (by dsimp only; rw [hzero]; rfl) (by dsimp only; omega), if_neg htag, hzero]
  · rw [counted_of_lt _ (by dsimp only [List.length_cons, List.length_nil]; omega)
      (by dsimp only; omega)]
    rfl

/-- A header that announces what follows makes one packet of it. -/
theorem wellFramed_of_announces (s : St) (hidle : s.nextLength = 0) (htag : ¬ isStatus tag)
    (parts : List Bytes) (hannounces : fromBE [hi, lo] = parts.flatten.length) :
    WellFramed s ([tag, hi, lo] :: parts) := by
  refine ⟨hannounces, fun answers hanswers => ?_,
    fun header rest heq answers answers' after h h' => ?_⟩
  · cases hanswers with
    | cons hheader hparts =>
      have hbound := fromBE_pair_lt hi lo
      have hrest := sendAll_parts { s with
          lastTag := tag
          nextLength := fromBE [hi, lo]
          outgoing := s.outgoing ++ [tag, hi, lo] }
        parts _ hannounces.symm (by dsimp only; omega) htag hparts
      refine ⟨{ s with
          lastTag := tag
          nextLength := 0
          outgoing := s.outgoing ++ [tag, hi, lo] ++ parts.flatten }, ?_, rfl, ?_⟩
      · rw [List.zip_cons_cons, sendAll, spiSend_header s hidle htag hheader]
        exact hrest
      · rw [List.flatten_cons, ← List.append_assoc]
  · cases heq
    have hencode := Packet.encode_ofHeader tag hi lo parts.flatten hannounces.symm
    have hread := readPacket_encode (Packet.ofHeader tag hi lo parts.flatten hannounces.symm) after
      h h'
    rw [hencode] at hread
    exact hread

theorem message_wellFramed_iff (s : St) (hidle : s.nextLength = 0) (htag : ¬ isStatus tag)
    (parts : List Bytes) (hlen : parts.flatten.length = n % 65536 + k) :
    WellFramed s (NbglSyscalls.header tag (n + k) :: parts) ↔ n % 65536 + k < 65536 := by
  have hannounced : fromBE (be16 (n + k)) = parts.flatten.length ↔ n % 65536 + k < 65536 := by
    rw [fromBE_be16_mod, hlen]
    omega
  constructor
  · intro h
    exact hannounced.mp h.announces
  · intro h
    exact wellFramed_of_announces s hidle htag parts (hannounced.mpr h)

-- ---------------------------------------------------------------------------
-- The calls
-- ---------------------------------------------------------------------------

open NbglSyscalls

/-- What the length of an image file needs. -/
def FileFits (area : NbglArea) (buffer : Region) (uzlibWorkBuffer : Bool) : Prop :=
  let compressed := buffer.cell 4 &&& 0xF
  let bpp := buffer.cell 4 >>> 4
  if compressed = 0 then (8 + (pixels area * (bpp.toNat + 1) + 7) / 8) % 65536 + 11 < 65536
  else if compressed = 1 then uzlibWorkBuffer → (compressedLen buffer + 8) % 65536 + 11 < 65536
  else if compressed = 2 then compressedLen buffer % 65536 + 16 < 65536
  else True

instance (area : NbglArea) (buffer : Region) (uzlibWorkBuffer : Bool) :
    Decidable (FileFits area buffer uzlibWorkBuffer) :=
  inferInstanceAs (Decidable (ite _ _ (ite _ (_ → _) (ite _ _ _))))

theorem wellFramed_nil (s : St) (hidle : s.nextLength = 0) : WellFramed s [] := by
  refine ⟨trivial, fun answers _ => ⟨s, rfl, hidle, ?_⟩, fun header rest h => nomatch h⟩
  rw [List.flatten_nil, List.append_nil]

section
variable {area : NbglArea} {s : St} (hidle : s.nextLength = 0) (buffer : Region) (character : Nat)
include hidle

theorem drawImg_wellFramed_iff (hpixels : pixels area < 2 ^ 30) (hbpp : area.bpp.toNat ≤ 2)
    (transformation colorMap : UInt8) :
    WellFramed s (drawImg area buffer transformation colorMap character) ↔
      (pixels area * 2 ^ area.bpp.toNat + 7) / 8 % 65536 + 16 < 65536 := by
  have hcodes : ∀ bpp ≤ 2, (1 <<< bpp) % 256 = 2 ^ bpp ∧ 2 ^ bpp ≤ 4 := by decide
  obtain ⟨hbits, hle⟩ := hcodes _ hbpp
  have hmul : pixels area * 2 ^ area.bpp.toNat < 2 ^ 32 :=
    calc
      pixels area * 2 ^ area.bpp.toNat ≤ pixels area * 4 := Nat.mul_le_mul_left _ hle
      _ < 2 ^ 32 := by omega
  rw [drawImg]
  simp only [hbits, Nat.mod_eq_of_lt hmul, bytes_of_bits]
  generalize (pixels area * 2 ^ area.bpp.toNat + 7) / 8 = n
  have hlen : NbglArea.sizeof + n + 1 + 1 + 4 = n + 16 := by
    rw [NbglArea.sizeof]
    omega
  rw [hlen]
  refine message_wellFramed_iff s hidle (by decide) _ ?_
  simp only [List.flatten_cons, List.flatten_nil, List.length_append, NbglArea.length_build,
    length_sent, List.length_cons, List.length_nil, length_toLE, NbglArea.sizeof]
  omega

theorem drawImgRle_wellFramed_iff (offset bufferLen : Nat) (foreColor nbSkippedBytes : UInt8) :
    WellFramed s
        (drawImgRle area buffer offset bufferLen foreColor nbSkippedBytes character) ↔
      bufferLen % 65536 + 16 < 65536 := by
  have hlen : NbglArea.sizeof + bufferLen + 1 + 1 + 4 = bufferLen + 16 := by
    rw [NbglArea.sizeof]
    omega
  rw [drawImgRle]
  simp only [hlen]
  refine message_wellFramed_iff s hidle (by decide) _ ?_
  simp only [List.flatten_cons, List.flatten_nil, List.length_append, NbglArea.length_build,
    length_sent, List.length_cons, List.length_nil, length_toLE, NbglArea.sizeof]
  omega

theorem drawImgFile_wellFramed_iff (colorMap : UInt8) (uzlibWorkBuffer : Bool) :
    WellFramed s (drawImgFile area buffer colorMap uzlibWorkBuffer character) ↔
      FileFits area buffer uzlibWorkBuffer := by
  have hsend (n : Nat) (area : NbglArea) :
      WellFramed s [header seproxyhalTagNbglDrawImageFile (NbglArea.sizeof + 1 + n), area.build,
        sent buffer 0 n, [colorMap]] ↔ n % 65536 + 11 < 65536 := by
    have hlen : NbglArea.sizeof + 1 + n = n + 11 := by
      rw [NbglArea.sizeof]
      omega
    rw [hlen]
    refine message_wellFramed_iff s hidle (by decide) _ ?_
    simp only [List.flatten_cons, List.flatten_nil, List.length_append, NbglArea.length_build,
      length_sent, List.length_cons, List.length_nil, NbglArea.sizeof]
    omega
  rw [drawImgFile, FileFits]
  generalize buffer.cell 4 &&& 0xF = compressed
  by_cases hnone : compressed = 1 ∧ ¬ uzlibWorkBuffer
  · obtain ⟨rfl, huzlib⟩ := hnone
    simp only [huzlib]
    exact iff_of_true (wellFramed_nil s hidle) fun h => nomatch h
  · simp only [if_neg hnone]
    by_cases h0 : compressed = 0
    · subst h0
      exact hsend _ _
    · by_cases h1 : compressed = 1
      · subst h1
        have huzlib : uzlibWorkBuffer = true := by
          by_contra h
          exact hnone ⟨rfl, h⟩
        exact (hsend _ _).trans ⟨fun h _ => h, fun h => h huzlib⟩
      · by_cases h2 : compressed = 2
        · subst h2
          exact drawImgRle_wellFramed_iff hidle buffer character ..
        · simp only [if_neg h0, if_neg h1, if_neg h2]
          exact (hsend _ _).trans (iff_of_true (by decide) trivial)

end

-- ---------------------------------------------------------------------------
-- Every call
-- ---------------------------------------------------------------------------

/-- A call that draws an image. -/
inductive ImageCall
  | img (area : NbglArea) (buffer : Region) (transformation colorMap : UInt8) (character : Nat)
  | rle (area : NbglArea) (buffer : Region) (bufferLen : Nat) (foreColor nbSkippedBytes : UInt8)
      (character : Nat)
  | file (area : NbglArea) (buffer : Region) (colorMap : UInt8) (uzlibWorkBuffer : Bool)
      (character : Nat)

namespace ImageCall

def area : ImageCall → NbglArea
  | .img area .. => area
  | .rle area .. => area
  | .file area .. => area

def parts : ImageCall → List Bytes
  | .img area buffer transformation colorMap character =>
    drawImg area buffer transformation colorMap character
  | .rle area buffer bufferLen foreColor nbSkippedBytes character =>
    drawImgRle area buffer 0 bufferLen foreColor nbSkippedBytes character
  | .file area buffer colorMap uzlibWorkBuffer character =>
    drawImgFile area buffer colorMap uzlibWorkBuffer character

/-- The bytes of the bitmap, modulo 2 ^ 16, and the 16 or 11 bytes of the rest
of the message are less than 2 ^ 16. -/
def Fits : ImageCall → Prop
  | .img area .. => (pixels area * 2 ^ area.bpp.toNat + 7) / 8 % 65536 + 16 < 65536
  | .rle _ _ bufferLen .. => bufferLen % 65536 + 16 < 65536
  | .file area buffer _ uzlibWorkBuffer _ => FileFits area buffer uzlibWorkBuffer

instance : ∀ call : ImageCall, Decidable call.Fits
  | .img .. => inferInstanceAs (Decidable (_ < _))
  | .rle .. => inferInstanceAs (Decidable (_ < _))
  | .file area buffer _ uzlibWorkBuffer _ =>
    inferInstanceAs (Decidable (FileFits area buffer uzlibWorkBuffer))

/-- Between two packets, an image of the screen is well framed exactly if its
message fits. -/
theorem wellFramed_iff (model : Model) (call : ImageCall)
    (hwidth : call.area.width.toNat ≤ model.width) (hheight : call.area.height.toNat ≤ model.height)
    (hbpp : call.area.bpp.toNat ≤ 2) (s : St) (hidle : s.nextLength = 0) :
    WellFramed s call.parts ↔ call.Fits := by
  have hpixels : pixels call.area < 2 ^ 30 :=
    calc
      pixels call.area ≤ model.width * model.height := Nat.mul_le_mul hwidth hheight
      _ ≤ 480 * 672 := Nat.mul_le_mul model.width_le model.height_le
      _ < 2 ^ 30 := by decide
  cases call with
  | img area buffer transformation colorMap character =>
    exact drawImg_wellFramed_iff hidle buffer character hpixels hbpp transformation colorMap
  | rle area buffer bufferLen foreColor nbSkippedBytes character =>
    exact drawImgRle_wellFramed_iff hidle buffer character 0 bufferLen foreColor nbSkippedBytes
  | file area buffer colorMap uzlibWorkBuffer character =>
    exact drawImgFile_wellFramed_iff hidle buffer character colorMap uzlibWorkBuffer

end ImageCall

/-- A full screen of four grey levels is framed, although most of its bitmap is
cut off. -/
theorem wellFramed_fullScreen :
    WellFramed (.initial []) (ImageCall.img ⟨0, 0, 480, 600, 3, 1⟩ .zeroed 0 0 0).parts :=
  (ImageCall.wellFramed_iff .flex (.img ⟨0, 0, 480, 600, 3,
    1⟩ .zeroed 0 0 0) (by decide) (by decide)
    (by decide) (.initial []) rfl).mpr (by decide)

/-- The message of 480 x 546 pixels of four grey levels has 65536 bytes: none is
announced. -/
theorem wellFramed_cut :
    ¬ WellFramed (.initial []) (ImageCall.img ⟨0, 0, 480, 546, 3, 1⟩ .zeroed 0 0 0).parts := by
  intro h
  have hdraw : WellFramed (.initial []) (drawImg ⟨0, 0, 480, 546, 3, 1⟩ .zeroed 0 0 0) := h
  have hfits := (drawImg_wellFramed_iff rfl .zeroed 0 (by decide) (by decide) 0 0).mp hdraw
  exact absurd hfits (by decide)

end Speculos.Display
