import Speculos.Rle.Format
import Speculos.Rle.NbglRle

/-!
# The 4bpp decoder of the device

The decoder of the device writes the pixels of a stream two to a byte, as
`pack` does, whatever commands they come from, and so agrees with the decoder
of `RLECustom` (`nbglUncompressRle4bpp_decode`). What relates the two after any
number of pixels is `Filled`.
-/

namespace Speculos.Rle

open Lib

theorem pack_append (xs ys : List Nat) (h : xs.length % 2 = 0) :
    pack (xs ++ ys) = pack xs ++ pack ys := by
  fun_induction pack xs with
  | case1 => rfl
  | case2 value => simp at h
  | case3 value value' rest ih =>
    rw [List.length_cons, List.length_cons] at h
    rw [List.cons_append, List.cons_append, pack, ih (by omega)]
    rfl

theorem memcpy_store (r : Region) (xs : Bytes) (b : UInt8) :
    (r.memcpy 0 xs xs.length).store xs.length b = r.memcpy 0 (xs ++ [b]) (xs.length + 1) := by
  rw [← Region.memcpy_memcpy, Nat.zero_add]
  rfl

/-- The decoder when full bytes for the pixels `px` are written over `base`. -/
def full (base : Region) (px : List Nat) : Fill :=
  { pixCnt := px.length, remaining := 0, outBuffer := base.memcpy 0 (pack px) (pack px).length }

/-- The decoder has written the pixels `px` over `base`, but for a single one it keeps. -/
inductive Filled (base : Region) : List Nat → Fill → Prop
  | aligned (heven : px.length % 2 = 0) : Filled base px (full base px)
  | half {px : List Nat} {v : Nat} (heven : px.length % 2 = 0) (hv : v < 16) :
    Filled base (px ++ [v]) (saveLast (UInt8.ofNat v) (full base px))

theorem Filled.pixCnt_eq (h : Filled base px s) : s.pixCnt = px.length := by
  cases h with
  | aligned heven => rfl
  | half heven hv =>
    rw [List.length_append]
    rfl

theorem double_pix : ∀ v < 16, UInt8.ofNat v <<< 4 ||| UInt8.ofNat v = UInt8.ofNat
    (v * 16 + v) := by
  decide

theorem shifted_pix : ∀ v < 16, UInt8.ofNat v <<< 4 = UInt8.ofNat (v * 16) := by
  decide

theorem completed_pix : ∀ u < 16, ∀ v < 16,
    (UInt8.ofNat u <<< 4) ||| (0x0F &&& UInt8.ofNat v) = UInt8.ofNat (u * 16 + v) := by
  decide

theorem full_append_two (base : Region) (u v : Nat) (heven : px.length % 2 = 0) :
    full base (px ++ [u, v]) =
      { pixCnt := px.length + 2, remaining := 0,
        outBuffer := (full base px).outBuffer.store (px.length / 2) (UInt8.ofNat (u * 16 + v)) } := by
  have hpack : pack (px ++ [u, v]) = pack px ++ [UInt8.ofNat (u * 16 + v)] := pack_append _ _ heven
  have hhalf : px.length / 2 = (pack px).length := by
    rw [length_pack]
    omega
  rw [full, full, hpack, hhalf, memcpy_store, List.length_append, List.length_append]
  rfl

theorem completeByte_full (base : Region) (heven : px.length % 2 = 0) (hu : u < 16) (hv : v < 16) :
    completeByte (UInt8.ofNat v) (saveLast (UInt8.ofNat u) (full base px)) =
      full base (px ++ [u, v]) := by
  rw [full_append_two base u v heven, ← completed_pix u hu v hv,
    show px.length / 2 = (px.length + 1) / 2 by omega]
  rfl

theorem writePairs_full (base : Region) (n : Nat) (heven : px.length % 2 = 0) (hv : v < 16) :
    writePairs (UInt8.ofNat v <<< 4 ||| UInt8.ofNat v) n (full base px) =
      full base (px ++ List.replicate (2 * n) v) := by
  induction n generalizing px with
  | zero => simp [writePairs]
  | succ n ih =>
    have hreplicate : List.replicate (2 * (n + 1)) v = [v, v] ++ List.replicate (2 * n) v := by
      rw [show 2 * (n + 1) = 2 + 2 * n by omega, List.replicate_add]
      rfl
    have hlen : (px ++ [v, v]).length = px.length + 2 := by simp
    rw [hreplicate, ← List.append_assoc, ← ih (by omega), full_append_two base v v heven,
      ← double_pix v hv]
    rfl

theorem fill_from_full (base : Region) (n : Nat) (heven : px.length % 2 = 0) (hv : v < 16) :
    Filled base (px ++ List.replicate n v)
      (if n % 2 ≠ 0 then
        saveLast (UInt8.ofNat v)
          (writePairs (UInt8.ofNat v <<< 4 ||| UInt8.ofNat v) (n / 2) (full base px))
      else writePairs (UInt8.ofNat v <<< 4 ||| UInt8.ofNat v) (n / 2) (full base px)) := by
  have hpairs : (px ++ List.replicate (2 * (n / 2)) v).length % 2 = 0 := by
    rw [List.length_append, List.length_replicate]
    omega
  rw [writePairs_full base _ heven hv]
  split
  · have hfilled : Filled base _ _ := .half hpairs hv
    rw [List.append_assoc, ← List.replicate_succ', show 2 * (n / 2) + 1 = n by omega] at hfilled
    exact hfilled
  · have hfilled : Filled base _ _ := .aligned hpairs
    rw [show 2 * (n / 2) = n by omega] at hfilled ⊢
    exact hfilled

/-- However the pixels before end, `n` pixels of one color are written behind them. -/
theorem fill_filled (h : Filled base px s) (hv : v < 16) (hn : 1 ≤ n)
    (hmax : px.length + n ≤ maxPixCnt) :
    Filled base (px ++ List.replicate n v) (fill4bppPixelsColor (UInt8.ofNat v) n maxPixCnt s) := by
  have hcnt := h.pixCnt_eq
  rw [fill4bppPixelsColor, if_neg (by omega), hcnt]
  cases h with
  | aligned heven =>
    have hodd : (px.length + n) % 2 ≠ 0 ↔ n % 2 ≠ 0 := by omega
    have hfirst : ¬ px.length % 2 ≠ 0 := by omega
    simp only [hodd, if_neg hfirst]
    exact fill_from_full base n heven hv
  | @half px u heven hu =>
    rw [List.length_append, List.length_singleton] at hmax ⊢
    have hodd : (px.length + 1 + n) % 2 ≠ 0 ↔ (n - 1) % 2 ≠ 0 := by omega
    have hfirst : (px.length + 1) % 2 ≠ 0 := by omega
    simp only [hodd, if_pos hfirst]
    rw [completeByte_full base heven hu hv]
    have heven' : (px ++ [u, v]).length % 2 = 0 := by
      rw [List.length_append, List.length_cons, List.length_singleton]
      omega
    have hfilled := fill_from_full base (n - 1) heven' hv
    have hreplicate : List.replicate n v = [v] ++ List.replicate (n - 1) v := by
      obtain ⟨m, rfl⟩ : ∃ m, n = m + 1 := ⟨n - 1, by omega⟩
      rfl
    rw [hreplicate, List.append_assoc]
    rw [List.append_assoc] at hfilled
    exact hfilled

theorem fill_color {color : UInt8} (h : Filled base px s) (hcolor : color.toNat < 16) (hn : 1 ≤ n)
    (hmax : px.length + n ≤ maxPixCnt) :
    Filled base (px ++ List.replicate n color.toNat) (fill4bppPixelsColor color n maxPixCnt s) := by
  have hfilled := fill_filled h hcolor hn hmax
  rwa [UInt8.ofNat_toNat] at hfilled

theorem copyColor_toNat (bytesIn : Bytes) (i : Nat) :
    (copyColor bytesIn i).toNat =
      if i % 2 = 0 then (bytesIn.getD ((i + 1) / 2) 0).toNat % 16
      else (bytesIn.getD ((i + 1) / 2) 0).toNat / 16 := by
  rw [copyColor]
  split
  · rw [UInt8.toNat_and]
    exact and_0f _
  · rw [UInt8.toNat_shiftRight]
    exact shiftRight_4 _

theorem copyColor_lt (bytesIn : Bytes) (i : Nat) : (copyColor bytesIn i).toNat < 16 := by
  have hbyte := (bytesIn.getD ((i + 1) / 2) 0).toNat_lt
  rw [copyColor_toNat]
  split <;> omega

theorem copyColor_add_two (byte byte' : UInt8) (rest : Bytes) (i : Nat) :
    copyColor (byte :: byte' :: rest) (i + 2) = copyColor (byte' :: rest) i := by
  have hindex : (i + 2 + 1) / 2 = (i + 1) / 2 + 1 := by omega
  rw [copyColor, copyColor, Nat.add_mod_right, hindex, List.getD_cons_succ]

theorem map_copyColor (n : Nat) (byte : UInt8) (rest : Bytes) (h : n / 2 ≤ rest.length) :
    (List.range n).map (fun i => (copyColor (byte :: rest) i).toNat) =
      (byte.toNat % 16 :: quartets (rest.take (n / 2))).take n := by
  induction n using Nat.twoStepInduction generalizing byte rest with
  | zero => rfl
  | one =>
    rw [List.range_one, List.map_singleton, copyColor_toNat]
    rfl
  | more n ih _ =>
    cases rest with
    | nil =>
      rw [List.length_nil] at h
      omega
    | cons byte' rest =>
      have hhalf : (n + 2) / 2 = n / 2 + 1 := by omega
      have hfirst := copyColor_toNat (byte :: byte' :: rest) 0
      have hsecond := copyColor_toNat (byte :: byte' :: rest) 1
      rw [hhalf, List.length_cons] at h
      rw [List.range_succ_eq_map, List.range_succ_eq_map, hhalf, List.take_succ_cons,
        List.take_succ_cons, quartets_cons, List.take_succ_cons, ← ih byte' rest (by omega)]
      simp only [List.map_cons, List.map_map, Function.comp_def, Nat.succ_eq_add_one, Nat.add_assoc,
        Nat.reduceAdd, copyColor_add_two, hfirst, hsecond]
      rfl

theorem foldl_filled (color : Nat → UInt8) (hcolor : ∀ i, (color i).toNat < 16) (n : Nat)
    (h : Filled base px s) (hmax : px.length + n ≤ maxPixCnt) :
    Filled base (px ++ (List.range n).map fun i => (color i).toNat)
      ((List.range n).foldl (fun s i => fill4bppPixelsColor (color i) 1 maxPixCnt s) s) := by
  induction n with
  | zero => simpa using h
  | succ n ih =>
    have hlen : (px ++ (List.range n).map fun i => (color i).toNat).length + 1 ≤ maxPixCnt := by
      rw [List.length_append, List.length_map, List.length_range]
      omega
    rw [List.range_succ, List.map_append, List.foldl_append, ← List.append_assoc]
    exact fill_color (ih (by omega)) (hcolor n) (Nat.le_refl 1) hlen

theorem and_70 : ∀ n < 128, (n &&& 0x70) >>> 4 = n / 16 := by decide

theorem handle4bppRepeatColor_filled {byte : UInt8} (hs : Filled base before s)
    (hcolor : byte.toNat < 0x80) (hmax : before.length + (byte.toNat / 16 + 1) ≤ maxPixCnt) :
    Filled base (before ++ List.replicate (byte.toNat / 16 + 1) (byte.toNat % 16))
      (handle4bppRepeatColor byte maxPixCnt s) := by
  have hlow : (byte &&& 0x0F).toNat = byte.toNat % 16 := (UInt8.toNat_and ..).trans (and_0f _)
  have hfill : Filled base _
      (fill4bppPixelsColor (byte &&& 0x0F) (byte.toNat / 16 + 1) maxPixCnt s) :=
    fill_color hs (by omega) (by omega) hmax
  rw [hlow] at hfill
  rw [handle4bppRepeatColor, and_70 _ hcolor]
  exact hfill

theorem handle4bppRepeatWhite_filled {byte : UInt8} (hs : Filled base before s)
    (hmax : before.length + (byte.toNat % 64 + 1) ≤ maxPixCnt) :
    Filled base (before ++ List.replicate (byte.toNat % 64 + 1) 0x0F)
      (handle4bppRepeatWhite byte maxPixCnt s) := by
  have hfill : Filled base _
      (fill4bppPixelsColor white4bpp (byte.toNat % 64 + 1) maxPixCnt s) :=
    fill_color hs (by decide) (by omega) hmax
  rw [handle4bppRepeatWhite, and_3f]
  exact hfill

theorem handle4bppCopy_filled {byte : UInt8} {rest : Bytes} (hs : Filled base before s)
    (hcut : ¬ rest.length < copyCount byte / 2)
    (hmax : before.length + copyCount byte ≤ maxPixCnt) :
    (handle4bppCopy byte rest maxPixCnt s).1 = copyCount byte / 2 + 1 ∧
      Filled base (before ++
          (byte.toNat % 16 :: quartets (rest.take (copyCount byte / 2))).take (copyCount byte))
        (handle4bppCopy byte rest maxPixCnt s).2 := by
  have hcopy : handle4bppCopy byte rest maxPixCnt s = (copyCount byte / 2 + 1,
      (List.range (copyCount byte)).foldl
        (fun s i => fill4bppPixelsColor (copyColor (byte :: rest) i) 1 maxPixCnt s) s) := by
    rw [handle4bppCopy, and_30 _ byte.toNat_lt]
    exact if_neg (by rw [← copyCount]; omega)
  rw [hcopy, ← map_copyColor (copyCount byte) byte rest (by omega)]
  exact ⟨rfl, foldl_filled _ (copyColor_lt _) _ hs hmax⟩

theorem length_copied (byte : UInt8) (rest : Bytes) (hcut : ¬ rest.length < copyCount byte / 2) :
    ((byte.toNat % 16 :: quartets (rest.take (copyCount byte / 2))).take (copyCount byte)).length =
      copyCount byte := by
  rw [← map_copyColor (copyCount byte) byte rest (by omega), List.length_map, List.length_range]

theorem uncompress4bpp_filled (hs : Filled base before s) (hpx : pixels data = some px)
    (hmax : before.length + px.length ≤ maxPixCnt) :
    Filled base (before ++ px) (uncompress4bpp maxPixCnt s data) := by
  fun_induction pixels data generalizing before px s with
  | case1 =>
    cases hpx
    rw [uncompress4bpp, List.append_nil]
    exact hs
  | case2 byte rest hcolor ih =>
    have hlt := byte.toNat_lt
    obtain ⟨px', hpx', rfl⟩ := Option.map_eq_some_iff.mp hpx
    rw [List.length_append, List.length_replicate] at hmax
    rw [uncompress4bpp, if_neg (by rw [and_80_ne_zero _ hlt]; omega), ← List.append_assoc]
    refine ih (handle4bppRepeatColor_filled hs hcolor (by omega)) hpx' ?_
    rw [List.length_append, List.length_replicate]
    omega
  | case3 byte rest hcolor hwhite ih =>
    have hlt := byte.toNat_lt
    obtain ⟨px', hpx', rfl⟩ := Option.map_eq_some_iff.mp hpx
    rw [List.length_append, List.length_replicate] at hmax
    rw [uncompress4bpp, if_pos (by rw [and_80_ne_zero _ hlt]; omega),
      if_pos (by rw [and_40_ne_zero _ hlt (by omega)]; exact hwhite), ← List.append_assoc]
    refine ih (handle4bppRepeatWhite_filled hs (by omega)) hpx' ?_
    rw [List.length_append, List.length_replicate]
    omega
  | case4 byte rest hcolor hwhite hcut => cases hpx
  | case5 byte rest hcolor hwhite hcut ih =>
    have hlt := byte.toNat_lt
    have hlen := length_copied byte rest hcut
    obtain ⟨px', hpx', rfl⟩ := Option.map_eq_some_iff.mp hpx
    rw [List.length_append, hlen] at hmax
    have hroom : before.length + copyCount byte ≤ maxPixCnt := by omega
    obtain ⟨hread, hfill⟩ := handle4bppCopy_filled hs hcut hroom
    rw [uncompress4bpp, if_pos (by rw [and_80_ne_zero _ hlt]; omega),
      if_neg (by rw [and_40_ne_zero _ hlt (by omega)]; omega), hread, ← List.append_assoc]
    refine ih hfill hpx' ?_
    rw [List.length_append, hlen]
    omega

theorem storeRemaining_filled (h : Filled base px s) :
    storeRemaining s = base.memcpy 0 (pack px) (pack px).length := by
  cases h with
  | aligned heven => exact if_neg (not_not.mpr heven)
  | @half px v heven hv =>
    have hpack : pack (px ++ [v]) = pack px ++ [UInt8.ofNat (v * 16)] := pack_append _ _ heven
    have hhalf : (px.length + 1) / 2 = (pack px).length := (length_pack px).symm
    have hodd : (px.length + 1) % 2 ≠ 0 := by omega
    rw [hpack, List.length_append, List.length_singleton, ← memcpy_store, ← shifted_pix v hv]
    exact (if_pos hodd).trans (congrArg (fun i => Region.store _ i _) hhalf)

theorem nbglUncompressRle4bpp_eq (area : NbglArea) {stream : Bytes} (outBuffer : Region)
    (hpx : pixels stream = some px) (hcount : px.length = area.width.toNat * area.height.toNat)
    (hlen : 2 * (area.width.toNat * area.height.toNat) ≤ outBufferLen)
    (hlen32 : outBufferLen < 2 ^ 32) :
    nbglUncompressRle4bpp area stream outBuffer outBufferLen =
      (outBuffer.memset 0 0xFF outBufferLen).memcpy 0 (pack px) (pack px).length := by
  rw [nbglUncompressRle4bpp, if_neg (by omega)]
  split
  · rename_i hempty
    rw [hempty, pixels] at hpx
    cases hpx
    rfl
  · have hfit : ([] : List Nat).length + px.length ≤ area.width.toNat * area.height.toNat := by
      rw [hcount, List.length_nil, Nat.zero_add]
    exact storeRemaining_filled (uncompress4bpp_filled (.aligned rfl) hpx hfit)

/-- The decoder of the device and the one of `RLECustom` agree on a stream that
stands for the pixels of the area, and nothing is written behind the image. -/
theorem nbglUncompressRle4bpp_decode (area : NbglArea) (stream : Bytes) (px : List Nat)
    (outBuffer : Region) (outBufferLen : UInt32) (hpx : pixels stream = some px)
    (hcount : px.length = area.width.toNat * area.height.toNat)
    (hlen : 2 * (area.width.toNat * area.height.toNat) ≤ outBufferLen.toNat) :
    ∃ decoded, RLECustom.decode 1 stream 4 = .ok decoded ∧
      (nbglUncompressRle4bpp area stream outBuffer outBufferLen.toNat).slice 0 outBufferLen.toNat =
        decoded ++ List.replicate (outBufferLen.toNat - decoded.length) 0xFF ∧
      ∀ i, outBufferLen.toNat ≤ i →
        (nbglUncompressRle4bpp area stream outBuffer outBufferLen.toNat).cell i =
          outBuffer.cell i := by
  have hfits : (pack px).length ≤ outBufferLen.toNat := by
    rw [length_pack]
    omega
  rw [nbglUncompressRle4bpp_eq area outBuffer hpx hcount hlen outBufferLen.toNat_lt]
  refine ⟨pack px, decode_eq_pack hpx, ?_, ?_⟩
  · have hslice := outBuffer.slice_memcpy_memset (pack px) 0 (pack px).length outBufferLen.toNat
      (b := 0xFF) (Nat.le_refl _) (by omega)
    rw [List.take_length] at hslice
    exact hslice
  · intro i hi
    rw [Region.cell_memcpy, if_neg (by omega), Region.memset, Region.cell_memcpy, if_neg (by omega)]

/-- Three times 5, a copy of 1, 2, 3 and twice white, in an area of two rows. -/
theorem nbglUncompressRle4bpp_decode_three :
    let area : NbglArea := { width := 4, height := 2, bpp := 2 }
    ∃ decoded, RLECustom.decode 1 [0x25, 0x81, 0x23, 0xC1] 4 = .ok decoded ∧
      (nbglUncompressRle4bpp area [0x25, 0x81, 0x23, 0xC1] Region.zeroed 16).slice 0 16 =
        decoded ++ List.replicate (16 - decoded.length) 0xFF ∧
      ∀ i, 16 ≤ i →
        (nbglUncompressRle4bpp area [0x25, 0x81, 0x23, 0xC1] Region.zeroed 16).cell i = 0 := by
  intro area
  exact nbglUncompressRle4bpp_decode area [0x25, 0x81, 0x23, 0xC1] [5, 5, 5, 1, 2, 3, 15, 15]
    Region.zeroed 16 (by simp [pixels, copyCount, quartets]) (by decide) (by decide)

end Speculos.Rle
