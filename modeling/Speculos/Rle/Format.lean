import Speculos.Rle.RleCustom

/-!
# The 4bpp format

What a stream of commands means, in its own terms: `pixels` lists the pixels
a stream stands for, unless the last copy command is cut off, and `pack` puts
pixels into bytes, two to a byte. The encoder and both decoders are related to
these two functions; here it is the decoder of `RLECustom` (`decode_eq_pack`).
-/

namespace Speculos.Rle

open Lib

-- ---------------------------------------------------------------------------
-- Bits of a byte
-- ---------------------------------------------------------------------------

theorem and_0f (n : Nat) : n &&& 0x0F = n % 16 := Nat.and_two_pow_sub_one_eq_mod n 4

theorem and_3f (n : Nat) : n &&& 0x3F = n % 64 := Nat.and_two_pow_sub_one_eq_mod n 6

theorem and_07 (n : Nat) : n &&& 0x07 = n % 8 := Nat.and_two_pow_sub_one_eq_mod n 3

theorem shiftRight_4 (n : Nat) : n >>> 4 = n / 16 := Nat.shiftRight_eq_div_pow n 4

theorem shiftLeft_or (n : Nat) (h : m < 16) : (n <<< 4) ||| m = n * 16 + m := by
  rw [← Nat.shiftLeft_add_eq_or_of_lt (show m < 2 ^ 4 from h), Nat.shiftLeft_eq]

theorem and_masks : ∀ n < 256, (n &&& 0x80 ≠ 0 ↔ 0x80 ≤ n) ∧
    (0x80 ≤ n → (n &&& 0x40 ≠ 0 ↔ 0xC0 ≤ n)) ∧ (n &&& 0x30) >>> 4 = n % 64 / 16 ∧
    (n &&& 0xF0 = 0 ↔ n < 16) := by
  decide +kernel

theorem and_80_ne_zero : ∀ n < 256, n &&& 0x80 ≠ 0 ↔ 0x80 ≤ n := fun n hn => (and_masks n hn).1

theorem and_40_ne_zero : ∀ n < 256, 0x80 ≤ n → (n &&& 0x40 ≠ 0 ↔ 0xC0 ≤ n) :=
  fun n hn => (and_masks n hn).2.1

theorem and_30 : ∀ n < 256, (n &&& 0x30) >>> 4 = n % 64 / 16 := fun n hn => (and_masks n hn).2.2.1

theorem and_f0_eq_zero : ∀ n < 256, n &&& 0xF0 = 0 ↔ n < 16 := fun n hn => (and_masks n hn).2.2.2

theorem toByte_ok (h : n < 256) : toByte n = .ok (UInt8.ofNat n) := if_pos h

theorem toNat_ofNat_lt (h : n < 256) : (UInt8.ofNat n).toNat = n := by
  rw [UInt8.toNat_ofNat']
  omega

-- ---------------------------------------------------------------------------
-- Quartets
-- ---------------------------------------------------------------------------

/-- The pixels in the bytes of an image, the upper quartet first. -/
def quartets (data : Bytes) : List Nat :=
  data.flatMap fun byte => [byte.toNat / 16, byte.toNat % 16]

@[simp] theorem quartets_cons (byte : UInt8) (data : Bytes) :
    quartets (byte :: data) = byte.toNat / 16 :: byte.toNat % 16 :: quartets data := rfl

theorem length_quartets (data : Bytes) : (quartets data).length = 2 * data.length := by
  induction data with
  | nil => rfl
  | cons byte data ih =>
    rw [quartets_cons, List.length_cons, List.length_cons, ih, List.length_cons]
    omega

def pack : List Nat → Bytes
  | [] => []
  | [value] => [UInt8.ofNat (value * 16)]
  | value :: value' :: rest => UInt8.ofNat (value * 16 + value') :: pack rest

theorem length_pack (values : List Nat) : (pack values).length = (values.length + 1) / 2 := by
  fun_induction pack values with
  | case1 => rfl
  | case2 value => simp
  | case3 value value' rest ih =>
    simp only [List.length_cons, ih]
    omega

theorem pack_quartets (data : Bytes) : pack (quartets data) = data := by
  induction data with
  | nil => rfl
  | cons byte data ih =>
    have hbyte : byte.toNat / 16 * 16 + byte.toNat % 16 = byte.toNat := Nat.div_add_mod' _ _
    rw [quartets_cons, pack, hbyte, UInt8.ofNat_toNat, ih]

theorem take_quartets_pack (values : List Nat) (hv : ∀ v ∈ values, v < 16) :
    (quartets (pack values)).take values.length = values := by
  fun_induction pack values with
  | case1 => rfl
  | case2 value =>
    have hlt := hv value (by simp)
    rw [quartets_cons, toNat_ofNat_lt (by omega)]
    simp
  | case3 value value' rest ih =>
    have hlt := hv value (by simp)
    have hlt' := hv value' (by simp)
    rw [quartets_cons, toNat_ofNat_lt (by omega)]
    simp only [List.length_cons, List.take_succ_cons]
    rw [ih fun v h => hv v (by simp [h]), Nat.mul_comm, Nat.mul_add_div (by decide),
      Nat.mul_add_mod, Nat.div_eq_of_lt hlt', Nat.mod_eq_of_lt hlt', Nat.add_zero]

theorem bpp4ToValues_eq (data : Bytes) : RLECustomBase.bpp4ToValues data = quartets data := by
  induction data with
  | nil => rfl
  | cons byte data ih =>
    have hlt := byte.toNat_lt
    rw [RLECustomBase.bpp4ToValues, List.flatMap_cons, and_0f, and_0f, shiftRight_4, quartets_cons,
      ← ih, RLECustomBase.bpp4ToValues, Nat.mod_eq_of_lt (show byte.toNat / 16 < 16 by omega)]
    rfl

theorem valuesToBpp4_ok (values : List Nat) (hv : ∀ v ∈ values, v < 16) :
    RLECustomBase.valuesToBpp4 values = .ok (pack values) := by
  fun_induction pack values with
  | case1 => rfl
  | case2 value =>
    have hlt := hv value (by simp)
    rw [RLECustomBase.valuesToBpp4, and_0f, Nat.mod_eq_of_lt hlt, Nat.shiftLeft_eq,
      toByte_ok (by omega)]
    rfl
  | case3 value value' rest ih =>
    have hlt := hv value (by simp)
    have hlt' := hv value' (by simp)
    rw [RLECustomBase.valuesToBpp4, and_0f, and_0f, Nat.mod_eq_of_lt hlt, Nat.mod_eq_of_lt hlt',
      shiftLeft_or _ hlt', toByte_ok (by omega), ih fun v h => hv v (by simp [h])]
    rfl

-- ---------------------------------------------------------------------------
-- Commands
-- ---------------------------------------------------------------------------

def copyCount (byte : UInt8) : Nat := byte.toNat % 64 / 16 + 3

/-- The pixels of a stream: `0RRRVVVV` repeats a value, `11RRRRRR` repeats
white and `10RRVVVV` copies its own value and those of the bytes behind it. -/
def pixels : Bytes → Option (List Nat)
  | [] => some []
  | byte :: rest =>
    if byte.toNat < 0x80 then
      (pixels rest).map (List.replicate (byte.toNat / 16 + 1) (byte.toNat % 16) ++ ·)
    else if 0xC0 ≤ byte.toNat then
      (pixels rest).map (List.replicate (byte.toNat % 64 + 1) 0x0F ++ ·)
    else if rest.length < copyCount byte / 2 then none
    else
      (pixels (rest.drop (copyCount byte / 2))).map
        ((byte.toNat % 16 :: quartets (rest.take (copyCount byte / 2))).take (copyCount byte) ++ ·)
termination_by data => data.length
decreasing_by all_goals simp only [List.length_drop, List.length_cons]; omega

theorem quartets_lt (data : Bytes) : ∀ v ∈ quartets data, v < 16 := by
  induction data with
  | nil => simp [quartets]
  | cons byte data ih =>
    have hlt := byte.toNat_lt
    intro v hv
    rw [quartets_cons] at hv
    rcases List.mem_cons.mp hv with rfl | hv
    · omega
    · rcases List.mem_cons.mp hv with rfl | hv
      · omega
      · exact ih v hv

theorem pixels_lt (h : pixels data = some px) : ∀ v ∈ px, v < 16 := by
  fun_induction pixels data generalizing px with
  | case1 =>
    cases h
    simp
  | case2 byte rest hcolor ih =>
    obtain ⟨px', hpx, rfl⟩ := Option.map_eq_some_iff.mp h
    intro v hv
    rcases List.mem_append.mp hv with hv | hv
    · rw [List.eq_of_mem_replicate hv]
      omega
    · exact ih hpx v hv
  | case3 byte rest hcolor hwhite ih =>
    obtain ⟨px', hpx, rfl⟩ := Option.map_eq_some_iff.mp h
    intro v hv
    rcases List.mem_append.mp hv with hv | hv
    · rw [List.eq_of_mem_replicate hv]
      omega
    · exact ih hpx v hv
  | case4 byte rest hcolor hwhite hcut => cases h
  | case5 byte rest hcolor hwhite hcut ih =>
    obtain ⟨px', hpx, rfl⟩ := Option.map_eq_some_iff.mp h
    intro v hv
    rcases List.mem_append.mp hv with hv | hv
    · rcases List.mem_cons.mp (List.mem_of_mem_take hv) with rfl | hv
      · omega
      · exact quartets_lt _ v hv
    · exact ih hpx v hv

theorem copySingles_eq (count : Nat) (data : Bytes) (h : (count + 1) / 2 ≤ data.length) :
    RLECustom3.copySingles count data =
      (((quartets (data.take ((count + 1) / 2))).take count).map fun v => (1, v),
        data.drop ((count + 1) / 2)) := by
  fun_induction RLECustom3.copySingles count data with
  | case1 data => simp
  | case2 n =>
    rw [List.length_nil] at h
    omega
  | case3 byte rest =>
    have hlt := byte.toNat_lt
    simp [and_0f, shiftRight_4]
    omega
  | case4 count byte rest pairs rest' heq ih =>
    have hlt := byte.toNat_lt
    have hhalf : (count + 2 + 1) / 2 = (count + 1) / 2 + 1 := by omega
    rw [hhalf, List.length_cons] at h
    rw [ih (by omega), Prod.mk.injEq] at heq
    obtain ⟨rfl, rfl⟩ := heq
    rw [hhalf, List.take_succ_cons, List.drop_succ_cons, quartets_cons, and_0f, and_0f,
      shiftRight_4, Nat.mod_eq_of_lt (show byte.toNat / 16 < 16 by omega)]
    rfl

theorem expand_decodeCommands (h : pixels data = some px) :
    expand (RLECustom3.decodeCommands data) = px := by
  fun_induction pixels data generalizing px with
  | case1 =>
    cases h
    rw [RLECustom3.decodeCommands]
    rfl
  | case2 byte rest hcolor ih =>
    have hlt := byte.toNat_lt
    obtain ⟨px', hpx, rfl⟩ := Option.map_eq_some_iff.mp h
    rw [RLECustom3.decodeCommands, if_neg (by rw [and_80_ne_zero _ hlt]; omega), expand_cons,
      ih hpx, and_0f, and_07, shiftRight_4, Nat.mod_eq_of_lt (show byte.toNat / 16 < 8 by omega),
      Nat.add_comm 1]
  | case3 byte rest hcolor hwhite ih =>
    have hlt := byte.toNat_lt
    obtain ⟨px', hpx, rfl⟩ := Option.map_eq_some_iff.mp h
    rw [RLECustom3.decodeCommands, if_pos (by rw [and_80_ne_zero _ hlt]; omega),
      if_pos (by rw [and_40_ne_zero _ hlt (by omega)]; exact hwhite), expand_cons, ih hpx, and_3f,
      Nat.add_comm 1]
  | case4 byte rest hcolor hwhite hcut => cases h
  | case5 byte rest hcolor hwhite hcut ih =>
    have hlt := byte.toNat_lt
    obtain ⟨px', hpx, rfl⟩ := Option.map_eq_some_iff.mp h
    have hcount : byte.toNat % 64 / 16 + 3 = copyCount byte := rfl
    have hhalf : (copyCount byte - 1 + 1) / 2 = copyCount byte / 2 := by omega
    have hcopy := copySingles_eq (copyCount byte - 1) rest (by omega)
    rw [hhalf] at hcopy
    rw [RLECustom3.decodeCommands, if_pos (by rw [and_80_ne_zero _ hlt]; omega),
      if_neg (by rw [and_40_ne_zero _ hlt (by omega)]; omega), and_30 _ hlt, and_0f, hcount]
    dsimp only
    rw [hcopy, List.cons_append, expand_cons, expand_append, expand_map_one, ih hpx]
    obtain ⟨n, hn⟩ : ∃ n, copyCount byte = n + 1 := ⟨byte.toNat % 64 / 16 + 2, hcount.symm⟩
    rw [hn, List.take_succ_cons]
    rfl

theorem expand_removeDuplicates (pairs : Pairs) :
    expand (RLECustomBase.removeDuplicates pairs) = expand pairs := by
  induction pairs with
  | nil => rfl
  | cons pair pairs ih =>
    rw [RLECustomBase.removeDuplicates, expand_cons, ← ih]
    cases RLECustomBase.removeDuplicates pairs with
    | nil => rfl
    | cons next merged =>
      dsimp only
      split
      · rename_i heq
        rw [expand_cons, expand_cons, ← List.append_assoc, ← heq, ← List.replicate_add]
      · rfl

theorem decode_eq_pack (h : pixels data = some px) : RLECustom.decode 1 data 4 = .ok (pack px) := by
  show RLECustomBase.valuesToBpp4 (expand (RLECustomBase.removeDuplicates _)) = _
  rw [expand_removeDuplicates, expand_decodeCommands h, valuesToBpp4_ok px (pixels_lt h)]

end Speculos.Rle

/-!
## The 1bpp format

A stream is a list of counts, two to a byte, of pixels that are zeros and ones
in turn; `alternation` lists those pixels. What the encoder writes for pairs of
pixels stands for the pixels of the pairs (`encodePass2_alternation`) and does
not end with an empty byte, on which the decoder of the device depends.
-/

namespace Speculos.Rle

open Lib

/-- The pixels in the bytes of an image, the most significant bit first. -/
def bits (data : Bytes) : List Nat :=
  data.flatMap fun byte => [7, 6, 5, 4, 3, 2, 1, 0].map fun shift => (byte.toNat >>> shift) &&& 1

theorem bits_cons (byte : UInt8) (data : Bytes) :
    bits (byte :: data) =
      ([7, 6, 5, 4, 3, 2, 1, 0].map fun shift => (byte.toNat >>> shift) &&& 1) ++ bits data := rfl

theorem length_bits (data : Bytes) : (bits data).length = data.length * 8 := by
  induction data with
  | nil => rfl
  | cons byte data ih =>
    rw [bits_cons, List.length_append, ih, List.length_cons, Nat.succ_mul, Nat.add_comm]
    rfl

theorem bits_lt (data : Bytes) : ∀ v ∈ bits data, v < 2 := by
  intro v hv
  obtain ⟨byte, -, hv⟩ := List.mem_flatMap.mp hv
  obtain ⟨shift, -, rfl⟩ := List.mem_map.mp hv
  rw [Nat.and_one_is_mod]
  omega

theorem bpp1ToValues_ok (data : Bytes) : RLECustomBase.bpp1ToValues data = .ok (bits data) :=
  if_neg (not_not.mpr (length_bits data))

theorem packPixels_byte (a b c d e f g h : Nat) (rest : List Nat) :
    RLECustomBase.packPixels 7 0 ([a, b, c, d, e, f, g, h] ++ rest) = (do
      let byte ← toByte (0 ||| (a &&& 1) <<< 7 ||| (b &&& 1) <<< 6 ||| (c &&& 1) <<< 5 |||
        (d &&& 1) <<< 4 ||| (e &&& 1) <<< 3 ||| (f &&& 1) <<< 2 ||| (g &&& 1) <<< 1 |||
        (h &&& 1) <<< 0)
      return byte :: (← RLECustomBase.packPixels 7 0 rest)) := by
  simp only [List.cons_append, List.nil_append, RLECustomBase.packPixels]
  rfl

theorem or_bits : ∀ n < 256, 0 ||| (n >>> 7 &&& 1 &&& 1) <<< 7 ||| (n >>> 6 &&& 1 &&& 1) <<< 6 |||
    (n >>> 5 &&& 1 &&& 1) <<< 5 ||| (n >>> 4 &&& 1 &&& 1) <<< 4 ||| (n >>> 3 &&& 1 &&& 1) <<< 3 |||
    (n >>> 2 &&& 1 &&& 1) <<< 2 ||| (n >>> 1 &&& 1 &&& 1) <<< 1 ||| (n >>> 0 &&& 1 &&& 1) <<< 0 =
    n := by
  decide +kernel

theorem packPixels_bits (data : Bytes) : RLECustomBase.packPixels 7 0 (bits data) = .ok data := by
  induction data with
  | nil => rfl
  | cons byte data ih =>
    have hbyte : UInt8.ofNat byte.toNat = byte := UInt8.ofNat_toNat
    rw [bits_cons]
    refine (packPixels_byte ..).trans ?_
    rw [or_bits _ byte.toNat_lt, toByte_ok byte.toNat_lt, hbyte, ih]
    rfl

theorem valuesToBpp1_bits (data : Bytes) : RLECustomBase.valuesToBpp1 (bits data) = .ok data := by
  have hlen : ¬ data.length ≠ ((bits data).length + 7) / 8 := by
    rw [length_bits]
    omega
  rw [RLECustomBase.valuesToBpp1, packPixels_bits]
  exact if_neg hlen

-- ---------------------------------------------------------------------------
-- Counts
-- ---------------------------------------------------------------------------

/-- The pixels of a list of counts, the first of which is for `value`. -/
def alternation : Nat → List Nat → List Nat
  | _, [] => []
  | value, count :: counts => List.replicate count value ++ alternation (value ^^^ 1) counts

theorem alternation_splitCount (value count : Nat) (counts : List Nat) :
    alternation value (RLECustomA.splitCount count ++ counts) =
      List.replicate count value ++
        alternation (if count ≠ 0 then value ^^^ 1 else value) counts := by
  induction count using Nat.strongRecOn with
  | ind count ih =>
    rw [RLECustomA.splitCount]
    split
    · -- the count of 0 lets the value come again
      have hcount : count = 15 + (count - 15) := by omega
      rw [List.cons_append, List.cons_append, alternation, alternation, List.replicate_zero,
        List.nil_append, Nat.xor_assoc, Nat.xor_self,
        Nat.xor_zero, ih _ (by omega), ← List.append_assoc,
        ← List.replicate_add, ← hcount, if_pos (by omega), if_pos (by omega)]
    · split
      · rfl
      · simp_all

theorem alternation_alternances (nextPixel : Nat) (pairs : Pairs) (hnext : nextPixel < 2)
    (hvalue : ∀ p ∈ pairs, p.2 < 2) :
    alternation nextPixel (RLECustomA.alternances nextPixel pairs) = expand pairs := by
  induction pairs generalizing nextPixel with
  | nil => rfl
  | cons pair pairs ih =>
    have hpair := hvalue pair (by simp)
    have hrest : ∀ p ∈ pairs, p.2 < 2 := fun p hp => hvalue p (by simp [hp])
    have hflip : ∀ v < 2, ∀ w < 2, v ≠ w → w ^^^ 1 = v := by decide
    have hflip_lt : ∀ v < 2, v ^^^ 1 < 2 := by decide
    -- the value whose count comes first is the one of the pair, after a count of 0 if need be
    have hfirst : ∀ counts : List Nat, alternation nextPixel
        ((if pair.2 ≠ nextPixel then [0] else []) ++ counts) = alternation pair.2 counts := by
      intro counts
      split
      · rename_i hne
        rw [List.cons_append, alternation, hflip _ hpair _ hnext hne]
        rfl
      · rename_i heq
        rw [not_not.mp heq]
        rfl
    have hnow : (if pair.2 ≠ nextPixel then nextPixel ^^^ 1 else nextPixel) = pair.2 := by
      split
      · rename_i hne
        exact hflip _ hpair _ hnext hne
      · rename_i heq
        exact (not_not.mp heq).symm
    rw [RLECustomA.alternances]
    rw [hnow, List.append_assoc, hfirst, alternation_splitCount, ih _ ?_ hrest, expand_cons]
    split
    · exact hflip_lt _ hpair
    · exact hpair

theorem mem_splitCount (h : k ∈ RLECustomA.splitCount count) : k ≤ 15 := by
  induction count using Nat.strongRecOn with
  | ind count ih =>
    rw [RLECustomA.splitCount] at h
    split at h
    · rcases List.mem_cons.mp h with rfl | h
      · exact Nat.le_refl _
      · rcases List.mem_cons.mp h with rfl | h
        · exact Nat.zero_le _
        · exact ih _ (by omega) h
    · split at h
      · rw [List.mem_singleton] at h
        omega
      · cases h

theorem mem_alternances {nextPixel : Nat} (h : k ∈ RLECustomA.alternances nextPixel pairs) :
    k ≤ 15 := by
  induction pairs generalizing nextPixel with
  | nil => cases h
  | cons pair pairs ih =>
    rw [RLECustomA.alternances] at h
    rcases List.mem_append.mp h with h | h
    · rcases List.mem_append.mp h with h | h
      · split at h
        · rw [List.mem_singleton.mp h]
          exact Nat.zero_le _
        · cases h
      · exact mem_splitCount h
    · exact ih h

theorem expand_decodeCounts_cons (byte : UInt8) (rest : Bytes) :
    expand (RLECustomA.decodeCounts (byte :: rest)) =
      List.replicate (byte.toNat / 16) 0 ++
        (List.replicate (byte.toNat % 16) 1 ++ expand (RLECustomA.decodeCounts rest)) := by
  have hlt := byte.toNat_lt
  have hrun : ∀ count value : Nat,
      expand (if count ≠ 0 then [(count, value)] else []) = List.replicate count value := by
    intro count value
    split
    · simp
    · simp_all
  rw [RLECustomA.decodeCounts, List.flatMap_cons, expand_append, expand_append, hrun, hrun, and_0f,
    and_0f, shiftRight_4, Nat.mod_eq_of_lt (show byte.toNat / 16 < 16 by omega), List.append_assoc]
  rfl

theorem getLast_splitCount (h : count ≠ 0) :
    ∃ last, (RLECustomA.splitCount count).getLast? = some last ∧ last ≠ 0 := by
  induction count using Nat.strongRecOn with
  | ind count ih =>
    rw [RLECustomA.splitCount]
    split
    · obtain ⟨last, hlast, hne⟩ := ih (count - 15) (by omega) (by omega)
      exact ⟨last, by rw [List.getLast?_cons, List.getLast?_cons, hlast]; rfl, hne⟩
    · exact ⟨count, rfl, h⟩

theorem getLast_alternances (nextPixel : Nat) {pairs : Pairs} (hpairs : pairs ≠ [])
    (hcount : ∀ p ∈ pairs, p.1 ≠ 0) :
    ∃ last, (RLECustomA.alternances nextPixel pairs).getLast? = some last ∧ last ≠ 0 := by
  induction pairs generalizing nextPixel with
  | nil => exact absurd rfl hpairs
  | cons pair pairs ih =>
    rw [RLECustomA.alternances, List.getLast?_append, List.getLast?_append]
    rcases eq_or_ne pairs [] with rfl | hrest
    · obtain ⟨last, hlast, hne⟩ := getLast_splitCount (hcount pair (by simp))
      exact ⟨last, by rw [hlast]; rfl, hne⟩
    · obtain ⟨last, hlast, hne⟩ := ih _ hrest fun p hp => hcount p (by simp [hp])
      exact ⟨last, by rw [hlast]; rfl, hne⟩

theorem ofNat_ne_zero (hlt : n < 256) (h : n ≠ 0) : UInt8.ofNat n ≠ 0 := by
  intro heq
  have hzero := congrArg UInt8.toNat heq
  rw [toNat_ofNat_lt hlt] at hzero
  exact h hzero

/-- Counts that fit into quartets are packed into bytes with the same pixels,
and the last byte is not empty if the last count is not. -/
theorem packCounts_ok (counts : List Nat) (hle : ∀ k ∈ counts, k ≤ 15) :
    ∃ enc, RLECustomA.packCounts counts = .ok enc ∧
      expand (RLECustomA.decodeCounts enc) = alternation 0 counts ∧
      ∀ last, counts.getLast? = some last → last ≠ 0 →
        ∃ byte, enc.getLast? = some byte ∧ byte ≠ 0 := by
  fun_induction RLECustomA.packCounts counts with
  | case1 => exact ⟨[], rfl, rfl, by simp⟩
  | case2 zeros =>
    have hz := hle zeros (by simp)
    have hbyte := toNat_ofNat_lt (show zeros * 16 + 0 < 256 by omega)
    refine ⟨_, by rw [shiftLeft_or _ (by decide), toByte_ok (by omega)]; rfl, ?_, ?_⟩
    · rw [expand_decodeCounts_cons, hbyte, show (zeros * 16 + 0) / 16 = zeros by omega,
        show (zeros * 16 + 0) % 16 = 0 by omega]
      rfl
    · intro last hlast hne
      obtain rfl : zeros = last := Option.some.inj hlast
      exact ⟨_, rfl, ofNat_ne_zero (by omega) (by omega)⟩
  | case3 zeros ones rest ih =>
    have hz := hle zeros (by simp)
    have ho := hle ones (by simp)
    have hbyte := toNat_ofNat_lt (show zeros * 16 + ones < 256 by omega)
    obtain ⟨enc, henc, hpx, hfull⟩ := ih fun k hk => hle k (by simp [hk])
    refine ⟨_, by rw [shiftLeft_or _ (by omega), toByte_ok (by omega), henc]; rfl, ?_, ?_⟩
    · rw [expand_decodeCounts_cons, hbyte, show (zeros * 16 + ones) / 16 = zeros by omega,
        show (zeros * 16 + ones) % 16 = ones by omega, hpx]
      rfl
    · intro last hlast hne
      rcases eq_or_ne rest [] with rfl | hrest
      · obtain rfl : ones = last := Option.some.inj hlast
        cases henc
        exact ⟨_, rfl, ofNat_ne_zero (by omega) (by omega)⟩
      · rw [List.getLast?_cons_cons, List.getLast?_cons_of_ne_nil hrest] at hlast
        obtain ⟨byte, hbyte, hne⟩ := hfull last hlast hne
        exact ⟨byte, by rw [List.getLast?_cons, hbyte]; rfl, hne⟩

theorem encodePass2_alternation {pairs : Pairs} (hcount : ∀ p ∈ pairs, p.1 ≠ 0)
    (hvalue : ∀ p ∈ pairs, p.2 < 2) :
    ∃ enc, RLECustomA.encodePass2 pairs = .ok enc ∧
      expand (RLECustomA.decodeCounts enc) = expand pairs ∧ enc.getLast? ≠ some 0 := by
  obtain ⟨enc, henc, hpx, hfull⟩ := packCounts_ok (RLECustomA.alternances 0 pairs)
    fun k hk => mem_alternances hk
  rw [alternation_alternances 0 pairs (by decide) hvalue] at hpx
  refine ⟨enc, henc, hpx, ?_⟩
  rcases eq_or_ne pairs [] with rfl | hpairs
  · cases henc
    simp
  · obtain ⟨last, hlast, hne⟩ := getLast_alternances 0 hpairs hcount
    obtain ⟨byte, hbyte, hne⟩ := hfull last hlast hne
    rw [hbyte]
    simpa using hne

theorem decode_eq_of_bits (h : expand (RLECustomA.decodeCounts enc) = bits data) :
    RLECustom.decode 1 enc 1 = .ok data := by
  show RLECustomBase.valuesToBpp1 (expand (RLECustomBase.removeDuplicates _)) = _
  rw [expand_removeDuplicates, h, valuesToBpp1_bits]

end Speculos.Rle
