import Speculos.Rle.Filling
import Speculos.Rle.RoundTrip

/-!
# The 1bpp decoder of the device

The decoder of the device writes back the image that was encoded
(`nbglUncompressRle1bpp_encode`). Its counter of remaining pixels passes below
zero where the area does not fill the last byte, so that the loop ends because
no counts are left after the last pixel: the stream of an image does not end
with an empty byte.
-/

namespace Speculos.Rle

open Lib

def pending (buffer : Bytes) (nbZeros nbOnes : Nat) : List Nat :=
  List.replicate nbZeros 0 ++ (List.replicate nbOnes 1 ++ expand (RLECustomA.decodeCounts buffer))

theorem pending_reload (buffer : Bytes) (nbZeros nbOnes : Nat) :
    pending (reload buffer nbZeros nbOnes).1 (reload buffer nbZeros nbOnes).2.1
      (reload buffer nbZeros nbOnes).2.2 = pending buffer nbZeros nbOnes := by
  fun_induction reload buffer nbZeros nbOnes with
  | case1 nbZeros nbOnes => rfl
  | case2 byte rest nbZeros nbOnes hempty ih =>
    rw [ih, hempty.1, hempty.2, pending, shiftRight_4, and_0f, ← expand_decodeCounts_cons]
    rfl
  | case3 byte rest nbZeros nbOnes hleft => rfl

/-- Counts that are not all used up are not followed by an empty byte at the end. -/
theorem getLast_reload (h : buffer.getLast? ≠ some 0) :
    (reload buffer nbZeros nbOnes).1.getLast? ≠ some 0 := by
  fun_induction reload buffer nbZeros nbOnes with
  | case1 nbZeros nbOnes => exact h
  | case2 byte rest nbZeros nbOnes hempty ih =>
    rcases eq_or_ne rest [] with rfl | hrest
    · rw [reload]
      simp
    · exact ih (by rwa [List.getLast?_cons_of_ne_nil hrest] at h)
  | case3 byte rest nbZeros nbOnes hleft => exact h

theorem reload_empty (hzeros : (reload buffer nbZeros nbOnes).2.1 = 0)
    (hones : (reload buffer nbZeros nbOnes).2.2 = 0) : (reload buffer nbZeros nbOnes).1 = [] := by
  fun_induction reload buffer nbZeros nbOnes with
  | case1 nbZeros nbOnes => rfl
  | case2 byte rest nbZeros nbOnes hempty ih => exact ih hzeros hones
  | case3 byte rest nbZeros nbOnes hleft => exact absurd ⟨hzeros, hones⟩ hleft

theorem buffer_eq_nil (hlast : buffer.getLast? ≠ some 0)
    (h : expand (RLECustomA.decodeCounts buffer) = []) : buffer = [] := by
  induction buffer with
  | nil => rfl
  | cons byte rest ih =>
    rw [expand_decodeCounts_cons, List.append_eq_nil_iff, List.append_eq_nil_iff,
      List.replicate_eq_nil_iff, List.replicate_eq_nil_iff] at h
    obtain ⟨hhigh, hlow, hrest⟩ := h
    have hbyte : byte = 0 := UInt8.toNat_inj.mp (show byte.toNat = 0 by omega)
    rcases eq_or_ne rest [] with rfl | hne
    · exact absurd (congrArg some hbyte) hlast
    · exact absurd (ih (by rwa [List.getLast?_cons_of_ne_nil hne] at hlast) hrest) hne

-- ---------------------------------------------------------------------------
-- One pixel
-- ---------------------------------------------------------------------------

def ofBits (digits : List Nat) : Nat := digits.foldl (fun n digit => 2 * n + digit) 0

theorem ofBits_concat (digits : List Nat) (digit : Nat) :
    ofBits (digits ++ [digit]) = 2 * ofBits digits + digit := by
  simp [ofBits]

theorem ofBits_byte : ∀ n < 256,
    ofBits ([7, 6, 5, 4, 3, 2, 1, 0].map fun shift => (n >>> shift) &&& 1) = n := by
  decide +kernel

theorem shifted_or : ∀ n < 256,
    (UInt8.ofNat n <<< 1 ||| 0).toNat = 2 * n % 256 ∧
      (UInt8.ofNat n <<< 1 ||| 1).toNat = (2 * n + 1) % 256 := by
  decide +kernel

theorem nextPixel_spec (s : Unpack) {rest : List Nat}
    (h : pending s.buffer s.nbZeros s.nbOnes = pixel :: rest)
    (hempty : s.nbZeros = 0 → s.nbOnes = 0 → s.buffer = []) :
    ∃ nbZeros nbOnes pixels,
      nextPixel s = { s with nbZeros, nbOnes, pixels, nbPixels := s.nbPixels + 1 } ∧
      pending s.buffer nbZeros nbOnes = rest ∧ pixel < 2 ∧
      pixels.toNat = (2 * s.pixels.toNat + pixel) % 256 := by
  have hshift := shifted_or s.pixels.toNat s.pixels.toNat_lt
  rw [UInt8.ofNat_toNat] at hshift
  rcases Nat.eq_zero_or_eq_succ_pred s.nbZeros with hz | hz
  · rcases Nat.eq_zero_or_eq_succ_pred s.nbOnes with ho | ho
    · rw [hempty hz ho, hz, ho] at h
      cases h
    · rw [pending, hz, ho, List.replicate_succ] at h
      obtain ⟨rfl, rfl⟩ := List.cons_eq_cons.mp h
      refine ⟨0, s.nbOnes - 1, s.pixels <<< 1 ||| 1, ?_, rfl, by decide, hshift.2⟩
      rw [nextPixel, if_neg (not_not.mpr hz), if_pos (by omega), hz]
  · rw [pending, hz, List.replicate_succ] at h
    obtain ⟨rfl, rfl⟩ := List.cons_eq_cons.mp h
    refine ⟨s.nbZeros - 1, s.nbOnes, s.pixels <<< 1 ||| 0, ?_, rfl, by decide, hshift.1⟩
    rw [nextPixel, if_pos (by omega)]

/-- The decoder is about to write the bytes of `image`, and has shifted in the
pixels `digits` of the first of them. -/
structure Shifted (s : Unpack) (digits : List Nat) (image : Bytes) : Prop where
  pixels : digits ++ pending s.buffer s.nbZeros s.nbOnes = bits image
  count : s.nbPixels = digits.length
  value : s.pixels.toNat % 2 ^ digits.length = ofBits digits
  full : s.buffer.getLast? ≠ some 0
  remaining : image ≠ [] →
    8 * (image.length - 1) < s.remainingPixels ∧ s.remainingPixels ≤ 8 * image.length
  bound : s.remainingPixels < 2 ^ 32

/-- The same between two turns of the loop, where no byte is full. -/
structure Unpacks (s : Unpack) (digits : List Nat) (image : Bytes) : Prop
    extends Shifted s digits image where
  short : digits.length < 8

theorem mod_double (n m digit : Nat) (h : digit < 2) :
    (2 * n + digit) % (2 * m) = 2 * (n % m) + digit := by
  rw [Nat.mod_mul, show (2 * n + digit) / 2 = n by omega]
  omega

theorem Unpacks.pending_ne_nil (h : Unpacks s digits image) (himage : image ≠ []) :
    pending s.buffer s.nbZeros s.nbOnes ≠ [] := by
  intro hnil
  have hlen := congrArg List.length h.pixels
  rw [hnil, List.append_nil, length_bits] at hlen
  have hpos := List.length_pos_of_ne_nil himage
  have hshort := h.short
  omega

theorem unpackPixel_shifted (h : Unpacks s digits image) (himage : image ≠ []) :
    ∃ t pixel, unpackPixel s = storePixels t ∧ Shifted t (digits ++ [pixel]) image ∧
      t.outBuffer = s.outBuffer ∧ t.out = s.out := by
  obtain ⟨pixel, rest, hrest⟩ := List.exists_cons_of_ne_nil (h.pending_ne_nil himage)
  obtain ⟨nbZeros, nbOnes, pixels, hnext, hpending, hpixel, hvalue⟩ := nextPixel_spec
    { s with
      buffer := (reload s.buffer s.nbZeros s.nbOnes).1
      nbZeros := (reload s.buffer s.nbZeros s.nbOnes).2.1
      nbOnes := (reload s.buffer s.nbZeros s.nbOnes).2.2 }
    ((pending_reload ..).trans hrest) reload_empty
  have hlen : (digits ++ [pixel]).length = digits.length + 1 := by simp
  have hdvd : 2 ^ (digits.length + 1) ∣ 256 := Nat.pow_dvd_pow 2 (Nat.succ_le_of_lt h.short)
  refine ⟨_, pixel, congrArg storePixels hnext, ?_, rfl, rfl⟩
  dsimp only at hpending
  constructor
  · rw [hpending, List.append_assoc, ← h.pixels, hrest]
    rfl
  · rw [hlen, ← h.count]
  · rw [hvalue, hlen, Nat.mod_mod_of_dvd _ hdvd, Nat.pow_succ, Nat.mul_comm _ 2,
      mod_double _ _ _ hpixel, h.value, ofBits_concat]
  · exact getLast_reload h.full
  · exact h.remaining
  · exact h.bound

theorem Shifted.first_byte {byte : UInt8} (h : Shifted s digits (byte :: image))
    (height : digits.length = 8) :
    s.pixels = byte ∧ pending s.buffer s.nbZeros s.nbOnes = bits image := by
  have hbits := h.pixels
  rw [bits_cons] at hbits
  obtain ⟨hdigits, hrest⟩ := List.append_inj hbits (by rw [height]; rfl)
  have hvalue := h.value
  rw [height, hdigits, ofBits_byte _ byte.toNat_lt, Nat.mod_eq_of_lt s.pixels.toNat_lt] at hvalue
  exact ⟨UInt8.toNat_inj.mp hvalue, hrest⟩

theorem Shifted.storePixels_full {byte : UInt8} (h : Shifted s digits (byte :: image))
    (height : digits.length = 8) :
    Unpacks (storePixels s) [] image ∧
      (storePixels s).outBuffer = s.outBuffer.store s.out byte ∧
      (storePixels s).out = s.out + 1 := by
  obtain ⟨hbyte, hrest⟩ := h.first_byte height
  have hcount := h.count
  have hremaining := h.remaining (List.cons_ne_nil _ _)
  have hbound := h.bound
  rw [List.length_cons] at hremaining
  rw [storePixels, if_pos (hcount.trans height)]
  refine ⟨⟨⟨hrest, ?_, Nat.mod_one _, h.full, ?_, Nat.mod_lt _ (by decide)⟩, by decide⟩,
    by rw [hbyte], rfl⟩
  · rw [hcount, height]
    rfl
  · intro hne
    have hpos := List.length_pos_of_ne_nil hne
    dsimp only
    omega

theorem unpackPixel_unpacks (h : Unpacks s digits image) (himage : image ≠ []) :
    (∃ digits', Unpacks (unpackPixel s) digits' image ∧
      (unpackPixel s).outBuffer = s.outBuffer ∧ (unpackPixel s).out = s.out) ∨
    (∃ byte image', image = byte :: image' ∧ Unpacks (unpackPixel s) [] image' ∧
      (unpackPixel s).outBuffer = s.outBuffer.store s.out byte ∧
      (unpackPixel s).out = s.out + 1) := by
  obtain ⟨t, pixel, ht, hshifted, hbuffer, hout⟩ := unpackPixel_shifted h himage
  rw [ht, ← hbuffer, ← hout]
  by_cases height : (digits ++ [pixel]).length = 8
  · right
    obtain ⟨byte, image', rfl⟩ := List.exists_cons_of_ne_nil himage
    exact ⟨byte, image', rfl, hshifted.storePixels_full height⟩
  · left
    have hshort := h.short
    rw [storePixels, if_neg (by rwa [hshifted.count])]
    rw [List.length_append, List.length_singleton] at height
    refine ⟨_, ⟨hshifted, ?_⟩, rfl, rfl⟩
    rw [List.length_append, List.length_singleton]
    omega

theorem Unpacks.hasCounts_iff (h : Unpacks s digits image) : HasCounts s ↔ image ≠ [] := by
  constructor
  · rintro hcounts rfl
    have hnil := (List.append_eq_nil_iff.mp h.pixels).2
    rw [pending, List.append_eq_nil_iff, List.append_eq_nil_iff, List.replicate_eq_nil_iff,
      List.replicate_eq_nil_iff] at hnil
    rcases hcounts with hbuffer | hzeros | hones
    · exact hbuffer (buffer_eq_nil h.full hnil.2.2)
    · exact hzeros hnil.1
    · exact hones hnil.2.1
  · intro himage
    by_contra hcounts
    rw [HasCounts, not_or, not_or, not_not, not_not, not_not] at hcounts
    obtain ⟨hbuffer, hzeros, hones⟩ := hcounts
    exact h.pending_ne_nil himage (by rw [hbuffer, hzeros, hones]; rfl)

/-- The loop writes the image and stops at its last pixel. -/
theorem unpackLoop_unpacks (h : Unpacks s digits image) :
    (unpackLoop s).nbPixels = 0 ∧
      (unpackLoop s).outBuffer = s.outBuffer.memcpy s.out image image.length := by
  fun_induction unpackLoop s generalizing digits image with
  | case1 s hgo ih =>
    rcases unpackPixel_unpacks h (h.hasCounts_iff.mp hgo.2) with
      ⟨digits', hnext, hbuffer, hout⟩ | ⟨byte, image', rfl, hnext, hbuffer, hout⟩
    · rw [← hbuffer, ← hout]
      exact ih hnext
    · rw [← Region.memcpy_cons, ← hbuffer, ← hout]
      exact ih hnext
  | case2 s hstop =>
    have himage : image = [] := by
      by_contra himage
      exact hstop ⟨by have := h.remaining himage; omega, h.hasCounts_iff.mpr himage⟩
    subst himage
    have hdigits := (List.append_eq_nil_iff.mp h.pixels).1
    rw [h.count, hdigits]
    exact ⟨rfl, rfl⟩

theorem nbglUncompressRle1bpp_eq (area : NbglArea) (outBuffer : Region) (outBufferLen : Nat)
    (hpx : expand (RLECustomA.decodeCounts enc) = bits data) (hfull : enc.getLast? ≠ some 0)
    (hsize : (area.width.toNat * area.height.toNat + 7) / 8 = data.length) :
    nbglUncompressRle1bpp area enc outBuffer outBufferLen =
      (outBuffer.memset 0 0 outBufferLen).memcpy 0 data data.length := by
  have hbound : area.width.toNat * area.height.toNat < 2 ^ 16 * 2 ^ 16 :=
    Nat.mul_lt_mul'' area.width.toNat_lt area.height.toNat_lt
  rw [nbglUncompressRle1bpp]
  split
  · rename_i hempty
    subst hempty
    have hlen : 0 = (bits data).length := congrArg List.length hpx
    rw [length_bits] at hlen
    obtain rfl : data = [] := List.length_eq_zero_iff.mp (by omega)
    rfl
  · have hstart : Unpacks
        { buffer := enc, nbZeros := 0, nbOnes := 0, pixels := 0, nbPixels := 0,
          remainingPixels := area.width.toNat * area.height.toNat,
          outBuffer := outBuffer.memset 0 0 outBufferLen, out := 0 } [] data :=
      { pixels := hpx, count := rfl, value := rfl, full := hfull
        remaining := fun hne => by
          have hpos := List.length_pos_of_ne_nil hne
          dsimp only
          omega
        bound := hbound
        short := by decide }
    obtain ⟨hnone, hwritten⟩ := unpackLoop_unpacks hstart
    rw [storeRest, hnone]
    exact (if_neg (not_not.mpr rfl)).trans hwritten

/-- The decoder of the device writes back the image that was encoded, whatever
the size of its last byte, and nothing else but the zeros before. -/
theorem nbglUncompressRle1bpp_encode (data : Bytes) (area : NbglArea) (outBuffer : Region)
    (outBufferLen : Nat) (hsize : (area.width.toNat * area.height.toNat + 7) / 8 = data.length) :
    ∃ enc, RLECustom.encode data 1 = .ok (1, enc) ∧
      nbglUncompressRle1bpp area enc outBuffer outBufferLen =
        (outBuffer.memset 0 0 outBufferLen).memcpy 0 data data.length := by
  obtain ⟨enc, henc, hpx, hfull⟩ := encode_1bpp data
  exact ⟨enc, henc, nbglUncompressRle1bpp_eq area outBuffer outBufferLen hpx hfull hsize⟩

theorem nbglUncompressRle1bpp_encode_cut :
    ∃ enc, RLECustom.encode [0x0F, 0xA0] 1 = .ok (1, enc) ∧
      nbglUncompressRle1bpp { width := 11, height := 1, bpp := 0 } enc Region.zeroed 4 =
        (Region.zeroed.memset 0 0 4).memcpy 0 [0x0F, 0xA0] 2 :=
  nbglUncompressRle1bpp_encode [0x0F, 0xA0] { width := 11, height := 1, bpp := 0 } Region.zeroed 4
    (by decide)

-- ---------------------------------------------------------------------------
-- From the encoder to the display
-- ---------------------------------------------------------------------------

theorem nbglUncompressRle_encode (data : Bytes) (area : NbglArea) (outBuffer : Region)
    (outBufferLen : UInt32) (hbpp : area.bpp = 2)
    (hsize : area.width.toNat * area.height.toNat = 2 * data.length)
    (hlen : 2 * (area.width.toNat * area.height.toNat) ≤ outBufferLen.toNat) :
    ∃ enc, RLECustom.encode data 4 = .ok (1, enc) ∧
      nbglUncompressRle area enc outBuffer outBufferLen.toNat =
        (outBuffer.memset 0 0xFF outBufferLen.toNat).memcpy 0 data data.length := by
  obtain ⟨enc, henc, hpx⟩ := encode_4bpp data
  have hcount : (quartets data).length = area.width.toNat * area.height.toNat := by
    rw [length_quartets, hsize]
  refine ⟨enc, henc, ?_⟩
  rw [nbglUncompressRle, if_pos hbpp,
    nbglUncompressRle4bpp_eq area outBuffer hpx hcount hlen outBufferLen.toNat_lt, pack_quartets]

end Speculos.Rle
