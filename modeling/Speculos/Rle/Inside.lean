import Speculos.Rle.Accesses
import Speculos.Rle.Format

/-!
# Decompression stays inside the image

The 4bpp decoder drops the runs that do not fit the area, and stays inside the image whatever
the stream is. The 1bpp decoder fills byte after byte until no pixel is remaining, which it
does not notice where the last byte of the area is not full: then it stores all the pixels of
the stream, of which there may be more than the image has.
-/

namespace Speculos.Rle

open Lib

variable {buffer : Nat → UInt8}

-- ---------------------------------------------------------------------------
-- The 4bpp decoder
-- ---------------------------------------------------------------------------

/-- The counter is within the area, and what was stored since `base` within its bytes. -/
structure Fits (base : Region) (maxPixCnt : Nat) (s : Fill) : Prop where
  pixCnt_le : s.pixCnt ≤ maxPixCnt
  stores : ∃ n, base.Stores s.outBuffer n ((maxPixCnt + 1) / 2)

theorem Fits.completeByte (h : Fits base maxPixCnt s) (hlt : s.pixCnt < maxPixCnt) (color : UInt8) :
    Fits base maxPixCnt (completeByte color s) :=
  ⟨hlt, h.stores.imp' (· + 1) fun _ hn => hn.store (by omega) _⟩

theorem Fits.writePairs (h : Fits base maxPixCnt s) (hle : s.pixCnt + 2 * n ≤ maxPixCnt)
    (doublePix : UInt8) :
    Fits base maxPixCnt (writePairs doublePix n s) ∧
      (writePairs doublePix n s).pixCnt = s.pixCnt + 2 * n := by
  induction n generalizing s with
  | zero => exact ⟨h, rfl⟩
  | succ n ih =>
    rw [Rle.writePairs]
    obtain ⟨hfits, hcount⟩ := ih (s := { s with
        outBuffer := s.outBuffer.store (s.pixCnt / 2) doublePix, pixCnt := s.pixCnt + 2 })
      ⟨by dsimp only; omega, h.stores.imp' (· + 1) fun _ hn => hn.store (by omega) _⟩
      (by dsimp only; omega)
    exact ⟨hfits, hcount.trans (by dsimp only; omega)⟩

theorem Fits.saveLast (h : Fits base maxPixCnt s) (hlt : s.pixCnt < maxPixCnt) :
    Fits base maxPixCnt (saveLast color s) :=
  ⟨hlt, h.stores⟩

/-- A run that does not fit is dropped. -/
theorem Fits.fill (h : Fits base maxPixCnt s) (hpos : 1 ≤ nbPix) :
    Fits base maxPixCnt (fill4bppPixelsColor color nbPix maxPixCnt s) := by
  rw [fill4bppPixelsColor]
  split
  · exact h
  · rename_i hle
    rcases Nat.mod_two_eq_zero_or_one s.pixCnt with heven | hodd
    · have hpairs := h.writePairs (n := nbPix / 2) (by omega) (color <<< 4 ||| color)
      simp only [heven, ne_eq, not_true_eq_false, if_false]
      split
      · exact hpairs.1.saveLast (by omega)
      · exact hpairs.1
    · have hfirst := h.completeByte (by omega) color
      have hcount : (Rle.completeByte color s).pixCnt = s.pixCnt + 1 := rfl
      have hpairs := hfirst.writePairs (n := (nbPix - 1) / 2) (by omega)
        (color <<< 4 ||| color)
      have hend := hpairs.2
      simp only [hodd, ne_eq, Nat.one_ne_zero, not_false_iff, if_true]
      split
      · exact hpairs.1.saveLast (by omega)
      · exact hpairs.1

theorem Fits.storeRemaining (h : Fits base maxPixCnt s) :
    ∃ n, base.Stores (storeRemaining s) n ((maxPixCnt + 1) / 2) := by
  have hle := h.pixCnt_le
  rw [Rle.storeRemaining]
  split
  · exact h.stores.imp' (· + 1) fun _ hn => hn.store (by omega) _
  · exact h.stores

variable (buffer) in
theorem copyPixels_spec (hs : Fits base maxPixCnt s) (hfits : readCnt + nbPix / 2 < bufferLen) :
    (copyPixels buffer readCnt nbPix maxPixCnt s).All (· < bufferLen) ∧
      Fits base maxPixCnt (copyPixels buffer readCnt nbPix maxPixCnt s).value := by
  refine Traced.all_foldlM (fun s i hi hs => ?_) hs
  have hlt := List.mem_range.mp hi
  rw [readByte, Traced.all_access_bind, Traced.value_access_bind]
  exact ⟨⟨by omega, (Traced.all_pure _).mpr trivial⟩, hs.fill (Nat.le_refl 1)⟩

variable (buffer) in
theorem handle4bppCopyReads_spec (hs : Fits base maxPixCnt s) (hlt : readCnt < bufferLen) :
    (handle4bppCopyReads buffer readCnt (bufferLen - readCnt) maxPixCnt s).All (· < bufferLen) ∧
      Fits base maxPixCnt
        (handle4bppCopyReads buffer readCnt (bufferLen - readCnt) maxPixCnt s).value.2 := by
  rw [handle4bppCopyReads, readByte, Traced.all_access_bind, Traced.value_access_bind]
  dsimp only
  split
  · exact ⟨⟨hlt, (Traced.all_pure _).mpr trivial⟩, hs⟩
  · obtain ⟨hreads, hnext⟩ := copyPixels_spec buffer hs
      (show readCnt + (((buffer readCnt).toNat &&& 0x30) >>> 4 + 3) / 2 < bufferLen by omega)
    rw [Traced.all_bind]
    exact ⟨⟨hlt, hreads, (Traced.all_pure _).mpr trivial⟩, hnext⟩

variable (buffer) in
theorem instruction4bppReads_spec (hs : Fits base maxPixCnt s.1) (hlt : s.2 < bufferLen) :
    (instruction4bppReads buffer bufferLen maxPixCnt s).All (· < bufferLen) ∧
      Fits base maxPixCnt (instruction4bppReads buffer bufferLen maxPixCnt s).value.1 := by
  rw [instruction4bppReads, readByte, Traced.all_access_bind, Traced.value_access_bind]
  split
  · split
    · exact ⟨⟨hlt, (Traced.all_pure _).mpr trivial⟩, hs.fill (Nat.succ_pos _)⟩
    · obtain ⟨hreads, hnext⟩ := handle4bppCopyReads_spec buffer hs hlt
      rw [Traced.all_bind]
      exact ⟨⟨hlt, hreads, (Traced.all_pure _).mpr trivial⟩, hnext⟩
  · exact ⟨⟨hlt, (Traced.all_pure _).mpr trivial⟩, hs.fill (Nat.succ_pos _)⟩

/-- The instructions one after the other get behind the stream. -/
def WalksOut (buffer : Nat → UInt8) (bufferLen : Nat) : Prop :=
  ∃ n, bufferLen ≤ (nextInstruction buffer)^[n] 0

theorem isSome_loop4bpp_iff (s : Fill) (bufferLen maxPixCnt : Nat) :
    (∃ fuel, (Traced.loop (fun s => s.2 < bufferLen)
      (instruction4bppReads buffer bufferLen maxPixCnt) fuel (s, 0)).value.isSome) ↔
      WalksOut buffer bufferLen := by
  have hiterate : ∀ turns, ((fun s => (instruction4bppReads buffer bufferLen maxPixCnt s).value)^[turns]
      (s, 0)).2 = (nextInstruction buffer)^[turns] 0 := fun turns =>
    Function.Semiconj.iterate_right (instruction4bppReads_next bufferLen maxPixCnt) turns (s, 0)
  simp only [Traced.isSome_loop_iff, hiterate, Nat.not_lt]
  constructor
  · rintro ⟨fuel, turns, -, hout⟩
    exact ⟨turns, hout⟩
  · rintro ⟨turns, hout⟩
    exact ⟨turns + 1, turns, Nat.lt_succ_self turns, hout⟩

variable (buffer) in
/-- Whatever the stream, the 4bpp decoder stays inside the area. -/
theorem loop4bpp_inside (base : Region) (bufferLen maxPixCnt fuel : Nat) :
    (Traced.loop (fun s => s.2 < bufferLen) (instruction4bppReads buffer bufferLen maxPixCnt) fuel
        (⟨0, 0, base⟩, 0)).All (· < bufferLen) ∧
      ∀ t, (Traced.loop (fun s => s.2 < bufferLen)
          (instruction4bppReads buffer bufferLen maxPixCnt) fuel (⟨0, 0, base⟩, 0)).value = some t →
        ∃ n, base.Stores (storeRemaining t.1) n ((maxPixCnt + 1) / 2) := by
  obtain ⟨hreads, hend⟩ := Traced.all_loop (I := fun s => Fits base maxPixCnt s.1)
    (fun s hs hlt => instruction4bppReads_spec buffer hs hlt)
    (s := (⟨0, 0, base⟩, 0)) ⟨Nat.zero_le _, 0, .refl base _⟩ fuel
  exact ⟨hreads, fun t ht => (hend t ht).1.storeRemaining⟩

-- ---------------------------------------------------------------------------
-- The 1bpp decoder
-- ---------------------------------------------------------------------------

/-- The pixels that the loop makes of a stream. The counts of an empty byte at the end do not
stop it before it has shifted in a pixel. -/
def pixelCount : Bytes → Nat
  | [] => 0
  | byte :: rest =>
    if rest = [] ∧ byte = 0 then 1
    else (byte.toNat >>> 4) + (byte.toNat &&& 0x0F) + pixelCount rest

def Scan.left (buffer : Nat → UInt8) (bufferLen : Nat) (s : Scan) : Nat :=
  s.unpack.nbZeros + s.unpack.nbOnes + pixelCount (rest buffer bufferLen s.index)

theorem reloadReads_all (bufferLen index nbZeros nbOnes : Nat) :
    (reloadReads buffer bufferLen index nbZeros nbOnes).All (· < bufferLen) := by
  fun_induction reloadReads buffer bufferLen index nbZeros nbOnes with
  | case1 index nbZeros nbOnes hreload ih =>
    rw [readByte, Traced.all_access_bind]
    exact ⟨hreload.2.2, ih (buffer index)⟩
  | case2 => exact (Traced.all_pure _).mpr trivial

theorem reloadReads_of_ge (hge : bufferLen ≤ index) :
    reloadReads buffer bufferLen index nbZeros nbOnes = pure (index, nbZeros, nbOnes) := by
  rw [reloadReads, if_neg fun h => absurd h.2.2 (Nat.not_lt.mpr hge)]

theorem byte_counts (byte : UInt8) :
    16 * (byte.toNat >>> 4) + (byte.toNat &&& 0x0F) = byte.toNat := by
  rw [shiftRight_4, and_0f]
  omega

variable (buffer) in
theorem reloadReads_left (h : index < bufferLen ∨ nbZeros ≠ 0 ∨ nbOnes ≠ 0) :
    let left := nbZeros + nbOnes + pixelCount (rest buffer bufferLen index)
    let reloaded := (reloadReads buffer bufferLen index nbZeros nbOnes).value
    0 < reloaded.2.1 + reloaded.2.2 ∧
        reloaded.2.1 + reloaded.2.2 + pixelCount (rest buffer bufferLen reloaded.1) = left ∨
      reloaded.2.1 + reloaded.2.2 = 0 ∧ rest buffer bufferLen reloaded.1 = [] ∧ left = 1 := by
  fun_induction reloadReads buffer bufferLen index nbZeros nbOnes with
  | case1 index nbZeros nbOnes hreload ih =>
    obtain ⟨rfl, rfl, hlt⟩ := hreload
    rw [rest_of_lt hlt, pixelCount, readByte, Traced.value_access_bind]
    rcases Nat.lt_or_ge (index + 1) bufferLen with hmore | hlast
    · have hrest : rest buffer bufferLen (index + 1) ≠ [] := by
        rw [ne_eq, rest_eq_nil_iff]
        omega
      simpa [hrest] using ih (buffer index) (.inl hmore)
    · have hrest : rest buffer bufferLen (index + 1) = [] := rest_eq_nil_iff.mpr hlast
      rw [reloadReads_of_ge hlast]
      simp only [Traced.value_pure, hrest, true_and, pixelCount]
      have hsum := byte_counts (buffer index)
      split
      · rename_i hzero
        simp [hzero]
      · rename_i hne
        left
        have hpos := UInt8.toNat_inj.not.mpr hne
        rw [UInt8.toNat_zero] at hpos
        omega
  | case2 index nbZeros nbOnes hleft =>
    left
    simp only [Traced.value_pure, and_true]
    omega

variable (buffer) in
theorem unpackPixelReads_left (h : s.Goes bufferLen) :
    (unpackPixelReads buffer bufferLen s).value.left buffer bufferLen + 1 =
      s.left buffer bufferLen := by
  have hreload := reloadReads_left buffer h.2
  rw [unpackPixelReads, Traced.value_bind, Traced.value_pure, Scan.left, Scan.left]
  generalize (reloadReads buffer bufferLen s.index s.unpack.nbZeros s.unpack.nbOnes).value =
    reloaded at hreload ⊢
  dsimp only at hreload ⊢
  rw [counts_storePixels, counts_nextPixel]
  dsimp only
  rcases hreload with ⟨hpos, heq⟩ | ⟨hzero, hrest, hone⟩
  · omega
  · rw [hrest, pixelCount]
    omega

/-- The bytes were stored one after the other, and the last one is not full. -/
structure Packs (base : Region) (u : Unpack) : Prop where
  written : u.outBuffer.written = (List.range u.out).reverse ++ base.written
  short : u.nbPixels < 8

def Unpack.shifted (u : Unpack) : Nat := 8 * u.out + u.nbPixels

theorem storePixels_cases (u : Unpack) :
    u.nbPixels = 8 ∧ storePixels u = { u with
      outBuffer := u.outBuffer.store u.out u.pixels, out := u.out + 1
      remainingPixels := (u.remainingPixels + (2 ^ 32 - 8)) % 2 ^ 32, nbPixels := 0 } ∨
    u.nbPixels ≠ 8 ∧ storePixels u = u := by
  rw [storePixels]
  split
  · rename_i hfull
    exact .inl ⟨hfull, by rw [hfull]⟩
  · rename_i hshort
    exact .inr ⟨hshort, rfl⟩

theorem nextPixel_frame (u : Unpack) :
    (nextPixel u).outBuffer = u.outBuffer ∧ (nextPixel u).out = u.out ∧
      (nextPixel u).remainingPixels = u.remainingPixels ∧
      (nextPixel u).nbPixels = u.nbPixels + 1 := by
  rw [nextPixel]
  split
  · exact ⟨rfl, rfl, rfl, rfl⟩
  · split <;> exact ⟨rfl, rfl, rfl, rfl⟩

variable (buffer) in
theorem unpackPixelReads_packs (bufferLen : Nat) (h : Packs base s.unpack) :
    let u := (unpackPixelReads buffer bufferLen s).value.unpack
    Packs base u ∧ u.shifted = s.unpack.shifted + 1 ∧
      (u.out = s.unpack.out ∧ u.remainingPixels = s.unpack.remainingPixels ∨
        u.out = s.unpack.out + 1 ∧ u.nbPixels = 0 ∧
          u.remainingPixels = (s.unpack.remainingPixels + (2 ^ 32 - 8)) % 2 ^ 32) := by
  rw [unpackPixelReads, Traced.value_bind, Traced.value_pure]
  generalize (reloadReads buffer bufferLen s.index s.unpack.nbZeros s.unpack.nbOnes).value =
    reloaded
  obtain ⟨hbuffer, hout, hremaining, hcount⟩ := nextPixel_frame { s.unpack with
    nbZeros := reloaded.2.1
    nbOnes := reloaded.2.2 }
  dsimp only at hbuffer hout hremaining hcount ⊢
  generalize nextPixel _ = u at hbuffer hout hremaining hcount ⊢
  have hshort := h.short
  rcases storePixels_cases u with ⟨hfull, heq⟩ | ⟨hopen, heq⟩
  · rw [heq]
    refine ⟨⟨?_, Nat.succ_pos _⟩, ?_, .inr ⟨congrArg (· + 1) hout, rfl, ?_⟩⟩
    · dsimp only [Region.store]
      rw [hbuffer, hout, h.written, List.range_succ, List.reverse_append]
      rfl
    · dsimp only [Unpack.shifted]
      omega
    · rw [← hremaining]
  · rw [heq]
    refine ⟨⟨?_, by omega⟩, ?_, .inl ⟨hout, hremaining⟩⟩
    · rw [hbuffer, hout, h.written]
    · dsimp only [Unpack.shifted]
      omega

theorem storeRest_written (h : Packs base u) :
    (storeRest u).written = (List.range ((u.shifted + 7) / 8)).reverse ++ base.written := by
  have hshort := h.short
  rw [storeRest, Unpack.shifted]
  split
  · rw [show (8 * u.out + u.nbPixels + 7) / 8 = u.out + 1 by omega, List.range_succ,
      List.reverse_append, Region.store]
    dsimp only
    rw [h.written]
    rfl
  · rw [show (8 * u.out + u.nbPixels + 7) / 8 = u.out by omega, h.written]

/-- The area ends with a full byte: the loop ends when no pixel is remaining. -/
structure Whole (base : Region) (total : Nat) (u : Unpack) : Prop extends Packs base u where
  remaining : 8 * u.out + u.remainingPixels = total
  full : u.remainingPixels = 0 → u.nbPixels = 0

/-- The last byte of the area is not full: the counter of the remaining pixels is never zero. -/
structure Cut (base : Region) (total : Nat) (s : Scan) (buffer : Nat → UInt8) (bufferLen : Nat) :
    Prop extends Packs base s.unpack where
  remaining : s.unpack.remainingPixels % 8 ≠ 0
  count : s.unpack.shifted + s.left buffer bufferLen = total

theorem Whole.turn (h : Whole base total s.unpack) (htotal : total % 8 = 0)
    (hbound : total < 2 ^ 32) (hgoes : s.Goes bufferLen) :
    Whole base total (unpackPixelReads buffer bufferLen s).value.unpack := by
  obtain ⟨hpacks, hshifted, hremaining⟩ :=
    unpackPixelReads_packs buffer bufferLen h.toPacks
  have hsum := h.remaining
  have hpos := hgoes.1
  refine ⟨hpacks, ?_, ?_⟩
  · omega
  · intro hzero
    omega

theorem Cut.turn (h : Cut base total s buffer bufferLen) (hgoes : s.Goes bufferLen) :
    Cut base total (unpackPixelReads buffer bufferLen s).value buffer bufferLen := by
  obtain ⟨hpacks, hshifted, hremaining⟩ :=
    unpackPixelReads_packs buffer bufferLen h.toPacks
  have hcut := h.remaining
  have hleft := unpackPixelReads_left buffer hgoes
  have hcount := h.count
  refine ⟨hpacks, ?_, ?_⟩
  · omega
  · omega

theorem packs_firstScan (total : Nat) (base : Region) : Packs base (firstScan total base).unpack :=
  ⟨rfl, Nat.succ_pos _⟩

theorem left_firstScan (total : Nat) (base : Region) (bufferLen : Nat) :
    (firstScan total base).left buffer bufferLen = pixelCount (rest buffer bufferLen 0) := by
  simp [Scan.left, firstScan]

theorem loop1bpp_all (bufferLen fuel : Nat) (s : Scan) :
    (Traced.loop (Scan.Goes bufferLen) (unpackPixelReads buffer bufferLen) fuel s).All
      (· < bufferLen) := by
  refine (Traced.all_loop (I := fun _ => True) (fun s _ _ => ⟨?_, trivial⟩) trivial fuel).1
  rw [unpackPixelReads, Traced.all_bind]
  exact ⟨reloadReads_all _ _ _ _, (Traced.all_pure _).mpr trivial⟩

variable (buffer) in
theorem isSome_loop1bpp (bufferLen : Nat) (s : Scan) :
    (Traced.loop (Scan.Goes bufferLen) (unpackPixelReads buffer bufferLen)
      (s.left buffer bufferLen + 1) s).value.isSome := by
  refine Traced.isSome_loop_of_variant (Scan.left buffer bufferLen) (fun s hgoes => ?_) s
    (Nat.lt_succ_self _)
  have hleft := unpackPixelReads_left buffer hgoes
  omega

theorem loop1bpp_whole (htotal : total % 8 = 0) (hbound : total < 2 ^ 32)
    (h : (Traced.loop (Scan.Goes bufferLen) (unpackPixelReads buffer bufferLen) fuel
      (firstScan total base)).value = some t) :
    Packs base t.unpack ∧ (t.unpack.shifted + 7) / 8 ≤ total / 8 := by
  have hend := (Traced.all_loop (P := fun _ => True) (I := fun s => Whole base total s.unpack)
    (fun s hs hgoes => ⟨fun _ _ => trivial, hs.turn htotal hbound hgoes⟩)
    (s := firstScan total base) ⟨packs_firstScan total base, Nat.zero_add total, fun _ => rfl⟩
    fuel).2 t h
  have hsum := hend.1.remaining
  have hfull := hend.1.full
  have hshort := hend.1.short
  refine ⟨hend.1.toPacks, ?_⟩
  rw [Unpack.shifted]
  omega

theorem loop1bpp_cut (htotal : total % 8 ≠ 0)
    (h : (Traced.loop (Scan.Goes bufferLen) (unpackPixelReads buffer bufferLen) fuel
      (firstScan total base)).value = some t) :
    Packs base t.unpack ∧ t.unpack.shifted = pixelCount (rest buffer bufferLen 0) := by
  have hend := (Traced.all_loop (P := fun _ => True)
    (I := fun s => Cut base (pixelCount (rest buffer bufferLen 0)) s buffer bufferLen)
    (fun s hs hgoes => ⟨fun _ _ => trivial, hs.turn hgoes⟩)
    (s := firstScan total base)
    ⟨packs_firstScan total base, htotal, (Nat.zero_add _).trans (left_firstScan total base _)⟩
    fuel).2 t h
  obtain ⟨hcut, hstop⟩ := hend
  have hremaining := hcut.remaining
  have hcount := hcut.count
  have hends : ¬ (t.index < bufferLen ∨ t.unpack.nbZeros ≠ 0 ∨ t.unpack.nbOnes ≠ 0) := fun hmore =>
    hstop ⟨by omega, hmore⟩
  have hrest : rest buffer bufferLen t.index = [] := rest_eq_nil_iff.mpr (by omega)
  rw [Scan.left, hrest, pixelCount] at hcount
  exact ⟨hcut.toPacks, by omega⟩

-- ---------------------------------------------------------------------------
-- Both decoders
-- ---------------------------------------------------------------------------

/-- `ceil(width * height * bpp / 8)`, where `bpp` is the logarithm of the bits. -/
def imageSize (area : NbglArea) : Nat :=
  (area.width.toNat * area.height.toNat * 2 ^ area.bpp.toNat + 7) / 8

/-- The output after the initial fill, which a 4bpp area that is too large for it does not
get to. -/
def initialFill (area : NbglArea) (outBuffer : Region) (outBufferLen : Nat) : Region :=
  if area.bpp = 2 then
    if area.width.toNat * area.height.toNat * 2 % 2 ^ 32 > outBufferLen then outBuffer
    else outBuffer.memset 0 0xFF outBufferLen
  else if area.bpp = 0 then outBuffer.memset 0 0 outBufferLen
  else outBuffer

/-- The decompression ends, has read the stream only, and has stored nothing behind the
image since the initial fill. -/
def StaysInside (area : NbglArea) (buffer : Nat → UInt8) (bufferLen : Nat) (outBuffer : Region)
    (outBufferLen : Nat) : Prop :=
  ∃ fuel r n,
    (nbglUncompressRleReads buffer fuel area bufferLen outBuffer outBufferLen).value = some r ∧
    (nbglUncompressRleReads buffer fuel area bufferLen outBuffer outBufferLen).All (· < bufferLen) ∧
    (initialFill area outBuffer outBufferLen).Stores r n (imageSize area)

theorem stores_iff {r base : Region} (h : r.written = (List.range m).reverse ++ base.written) :
    (∃ n, base.Stores r n size) ↔ m ≤ size := by
  constructor
  · rintro ⟨n, indices, heq, -, hall⟩
    rw [h, List.append_left_inj] at heq
    by_contra hlt
    have hmem : size ∈ (List.range m).reverse := by simpa using hlt
    exact absurd (hall size (heq ▸ hmem)) (Nat.lt_irrefl size)
  · intro hle
    refine ⟨m, (List.range m).reverse, h, by simp, fun i hi => ?_⟩
    have hlt : i < m := by simpa using hi
    omega

theorem stores_1bpp_iff (hbound : total < 2 ^ 32)
    (h : (Traced.loop (Scan.Goes bufferLen) (unpackPixelReads buffer bufferLen) fuel
      (firstScan total base)).value = some t) :
    (∃ n, base.Stores (storeRest t.unpack) n ((total + 7) / 8)) ↔
      8 ∣ total ∨ pixelCount (rest buffer bufferLen 0) ≤ 8 * ((total + 7) / 8) := by
  by_cases htotal : total % 8 = 0
  · obtain ⟨hpacks, hle⟩ := loop1bpp_whole htotal hbound h
    rw [stores_iff (storeRest_written hpacks)]
    exact iff_of_true (by omega) (.inl (Nat.dvd_of_mod_eq_zero htotal))
  · obtain ⟨hpacks, hcount⟩ := loop1bpp_cut htotal h
    rw [stores_iff (storeRest_written hpacks), hcount, Nat.dvd_iff_mod_eq_zero]
    omega

theorem staysInside_1bpp_iff (area : NbglArea) (harea : area.bpp = 0) (buffer : Nat → UInt8)
    (bufferLen : Nat) (outBuffer : Region) (outBufferLen : Nat) :
    StaysInside area buffer bufferLen outBuffer outBufferLen ↔
      8 ∣ area.width.toNat * area.height.toNat ∨
        pixelCount (rest buffer bufferLen 0) ≤ 8 * imageSize area := by
  have hbpp : ¬ (0 : UInt8) = 2 := by decide
  have hbound : area.width.toNat * area.height.toNat < 2 ^ 16 * 2 ^ 16 :=
    Nat.mul_lt_mul'' area.width.toNat_lt area.height.toNat_lt
  simp only [StaysInside, nbglUncompressRleReads, initialFill, imageSize, harea, hbpp, if_false,
    if_true, nbglUncompressRle1bppReads, UInt8.toNat_zero, pow_zero, Nat.mul_one]
  generalize area.width.toNat * area.height.toNat = total at hbound ⊢
  generalize outBuffer.memset 0 0 outBufferLen = base
  by_cases hempty : bufferLen = 0
  · refine iff_of_true ⟨0, base, 0, ?_⟩ (.inr ?_)
    · rw [if_pos hempty]
      exact ⟨rfl, (Traced.all_pure _).mpr trivial, .refl base _⟩
    · rw [hempty]
      exact Nat.zero_le _
  · simp only [hempty, if_false, Traced.all_bind, Traced.value_bind, Traced.value_pure,
      Traced.all_pure, and_true]
    constructor
    · rintro ⟨fuel, r, n, hr, -, hstores⟩
      obtain ⟨t, ht, rfl⟩ := Option.map_eq_some_iff.mp hr
      exact (stores_1bpp_iff hbound ht).mp ⟨n, hstores⟩
    · intro hcond
      obtain ⟨t, ht⟩ := Option.isSome_iff_exists.mp
        (isSome_loop1bpp buffer bufferLen (firstScan total base))
      obtain ⟨n, hstores⟩ := (stores_1bpp_iff hbound ht).mpr hcond
      exact ⟨_, storeRest t.unpack, n, Option.map_eq_some_iff.mpr ⟨t, ht, rfl⟩,
        loop1bpp_all bufferLen _ _, hstores⟩

theorem staysInside_4bpp_iff (area : NbglArea) (harea : area.bpp = 2) (buffer : Nat → UInt8)
    (bufferLen : Nat) (outBuffer : Region) (outBufferLen : Nat) :
    StaysInside area buffer bufferLen outBuffer outBufferLen ↔
      area.width.toNat * area.height.toNat * 2 % 2 ^ 32 > outBufferLen ∨
        WalksOut buffer bufferLen := by
  have hsize : imageSize area = (area.width.toNat * area.height.toNat + 1) / 2 := by
    rw [imageSize, harea, show (2 : UInt8).toNat = 2 from rfl]
    omega
  simp only [StaysInside, nbglUncompressRleReads, initialFill, hsize, harea,
    if_true, nbglUncompressRle4bppReads]
  generalize area.width.toNat * area.height.toNat = total
  generalize outBuffer.memset 0 0xFF outBufferLen = base
  by_cases hlarge : total * 2 % 2 ^ 32 > outBufferLen
  · simp only [hlarge, if_true, true_or, iff_true]
    exact ⟨0, outBuffer, 0, rfl, (Traced.all_pure _).mpr trivial, .refl outBuffer _⟩
  · simp only [hlarge, if_false, false_or, Traced.all_bind, Traced.value_bind, Traced.value_pure,
      Traced.all_pure, and_true]
    rw [← isSome_loop4bpp_iff ⟨0, 0, base⟩ bufferLen total]
    constructor
    · rintro ⟨fuel, r, n, hr, -⟩
      obtain ⟨t, ht, -⟩ := Option.map_eq_some_iff.mp hr
      exact ⟨fuel, Option.isSome_iff_exists.mpr ⟨t, ht⟩⟩
    · rintro ⟨fuel, hsome⟩
      obtain ⟨t, ht⟩ := Option.isSome_iff_exists.mp hsome
      obtain ⟨hreads, hend⟩ := loop4bpp_inside buffer base bufferLen total fuel
      obtain ⟨n, hstores⟩ := hend t ht
      exact ⟨fuel, storeRemaining t.1, n, Option.map_eq_some_iff.mpr ⟨t, ht, rfl⟩, hreads, hstores⟩

/-- Decompression stays inside the image and the stream, and ends, exactly where the 1bpp
decoder has an area that ends with a full byte or a stream without a pixel behind the last byte
of the image, and the positions of the 4bpp decoder get behind the stream. -/
theorem staysInside_iff (area : NbglArea) (buffer : Nat → UInt8) (bufferLen : UInt32)
    (outBuffer : Region) (outBufferLen : UInt32) :
    StaysInside area buffer bufferLen.toNat outBuffer outBufferLen.toNat ↔
      (area.bpp = 0 → 8 ∣ area.width.toNat * area.height.toNat ∨
        pixelCount (rest buffer bufferLen.toNat 0) ≤ 8 * imageSize area) ∧
      (area.bpp = 2 →
        area.width.toNat * area.height.toNat * 2 % 2 ^ 32 > outBufferLen.toNat ∨
          WalksOut buffer bufferLen.toNat) := by
  by_cases hone : area.bpp = 0
  · have hfour : ¬ area.bpp = 2 := by
      rw [hone]
      decide
    rw [staysInside_1bpp_iff area hone]
    simp [hone]
  · by_cases hfour : area.bpp = 2
    · rw [staysInside_4bpp_iff area hfour]
      simp [hfour]
    · simp only [hone, hfour, false_implies, and_self, iff_true]
      refine ⟨0, outBuffer, 0, ?_⟩
      simp only [nbglUncompressRleReads, initialFill, hone, hfour, if_false]
      exact ⟨rfl, (Traced.all_pure _).mpr trivial, .refl outBuffer _⟩

/-- An area of one pixel, and a stream of fifteen: a second byte is stored. -/
theorem not_staysInside_onePixel :
    ¬ ∀ (area : NbglArea) (buffer : Nat → UInt8) (bufferLen : UInt32) (outBuffer : Region)
      (outBufferLen : UInt32), imageSize area ≤ outBufferLen.toNat →
        StaysInside area buffer bufferLen.toNat outBuffer outBufferLen.toNat := by
  intro h
  have hinside := h ⟨1, 1, 0⟩ (fun _ => 0x0F) 1 .zeroed 1 (by decide)
  rw [staysInside_1bpp_iff _ rfl] at hinside
  revert hinside
  decide

end Speculos.Rle
