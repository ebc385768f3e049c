import Speculos.Rle.Format

/-!
# Encoded glyphs are decoded to themselves

For both codecs the encoder writes a stream that stands for the pixels it was
given, so that the decoder returns the same bytes and the check the encoder
makes at the end never fails (`encode_decode`).
-/

namespace Speculos.Rle

open Lib

-- ---------------------------------------------------------------------------
-- The first pass
-- ---------------------------------------------------------------------------

theorem expand_countRuns (run : Option (Nat × Nat)) (data : List Nat) :
    expand (RLECustomBase.countRuns run data) = expand run.toList ++ data := by
  fun_induction RLECustomBase.countRuns run data with
  | case1 run => simp
  | case2 value rest ih => simp [ih]
  | case3 count previous rest ih =>
    rw [ih, Option.toList_some, Option.toList_some, expand_cons, expand_cons, List.replicate_succ']
    simp
  | case4 count previous value rest hne ih => simp [ih]

theorem expand_encodePass1 (data : List Nat) : expand (RLECustomBase.encodePass1 data) = data :=
  expand_countRuns none data

theorem mem_countRuns {run : Option (Nat × Nat)} (hrun : ∀ p ∈ run, p.1 ≠ 0)
    (h : pair ∈ RLECustomBase.countRuns run data) :
    pair.1 ≠ 0 ∧ ((∃ p ∈ run, pair.2 = p.2) ∨ pair.2 ∈ data) := by
  fun_induction RLECustomBase.countRuns run data with
  | case1 run =>
    rw [Option.mem_toList] at h
    exact ⟨hrun pair h, .inl ⟨pair, h, rfl⟩⟩
  | case2 value rest ih => simpa using ih (by simp) h
  | case3 count previous rest ih =>
    obtain ⟨hpos, hval⟩ := ih (by simp) h
    refine ⟨hpos, hval.imp ?_ (List.mem_cons_of_mem _)⟩
    rintro ⟨p, hp, heq⟩
    cases hp
    exact ⟨_, rfl, heq⟩
  | case4 count previous value rest hne ih =>
    rcases List.mem_cons.mp h with rfl | h
    · exact ⟨hrun _ rfl, .inl ⟨_, rfl, rfl⟩⟩
    · obtain ⟨hpos, hval⟩ := ih (by simp) h
      refine ⟨hpos, .inr ?_⟩
      simpa using hval

theorem mem_encodePass1 (h : pair ∈ RLECustomBase.encodePass1 data) :
    pair.1 ≠ 0 ∧ pair.2 ∈ data := by
  obtain ⟨hpos, ⟨p, hp, -⟩ | hval⟩ := mem_countRuns (by simp) h
  · cases hp
  · exact ⟨hpos, hval⟩

-- ---------------------------------------------------------------------------
-- 4 bits per pixel
-- ---------------------------------------------------------------------------

/-- The pixels a byte of `RLECustom2` stands for. -/
def shortRun (byte : UInt8) : List Nat :=
  if byte.toNat < 0x80 then List.replicate (byte.toNat / 16 + 1) (byte.toNat % 16)
  else List.replicate (byte.toNat % 64 + 1) 0x0F

theorem mapM_ok {f : α → Except ε β} {g : α → β} (xs : List α) (h : ∀ x ∈ xs, f x = .ok (g x)) :
    xs.mapM f = .ok (xs.map g) := by
  induction xs with
  | nil => rfl
  | cons x xs ih =>
    rw [List.mapM_cons, h x (by simp), ih fun y hy => h y (by simp [hy])]
    rfl

theorem or_80 : ∀ n < 64, 0x80 ||| n = 128 + n := by decide

theorem flatMap_shortRun (hmost : 0 < most) (byte : Nat → UInt8) (count value : Nat)
    (h : ∀ k, 1 ≤ k → k ≤ most → shortRun (byte k) = List.replicate k value) :
    ((splitRun most hmost count).map byte).flatMap shortRun = List.replicate count value := by
  rw [← expand_splitRun hmost count value, expand, List.flatMap_map, List.flatMap_map]
  refine List.flatMap_congr fun k hk => ?_
  obtain ⟨hlo, hhi⟩ := mem_splitRun hmost hk
  exact h k hlo hhi

theorem encodePair_ok (count : Nat) (hvalue : value < 16) :
    ∃ bytes, RLECustom2.encodePair 64 (by decide) (count, value) = .ok bytes ∧
      (∀ b ∈ bytes, b.toNat < 192) ∧ bytes.flatMap shortRun = List.replicate count value := by
  rw [RLECustom2.encodePair]
  split
  · rename_i hwhite
    subst hwhite
    have hbyte : ∀ k, 1 ≤ k → k ≤ 64 → (UInt8.ofNat (127 + k)).toNat = 127 + k :=
      fun k _ _ => toNat_ofNat_lt (by omega)
    refine ⟨_, mapM_ok (g := fun k => UInt8.ofNat (127 + k)) _ ?_, ?_, ?_⟩
    · intro k hk
      obtain ⟨hlo, hhi⟩ := mem_splitRun _ hk
      rw [or_80 _ (by omega), toByte_ok (by omega), show 128 + (k - 1) = 127 + k by omega]
    · intro b hb
      obtain ⟨k, hk, rfl⟩ := List.mem_map.mp hb
      obtain ⟨hlo, hhi⟩ := mem_splitRun _ hk
      rw [hbyte k hlo hhi]
      omega
    · refine flatMap_shortRun _ _ _ _ fun k hlo hhi => ?_
      rw [shortRun, hbyte k hlo hhi, if_neg (by omega)]
      congr 1
      omega
  · have hbyte : ∀ k, 1 ≤ k → k ≤ 8 →
        (UInt8.ofNat ((k - 1) * 16 + value)).toNat = (k - 1) * 16 + value :=
      fun k _ _ => toNat_ofNat_lt (by omega)
    refine ⟨_, mapM_ok (g := fun k => UInt8.ofNat ((k - 1) * 16 + value)) _ ?_, ?_, ?_⟩
    · intro k hk
      obtain ⟨hlo, hhi⟩ := mem_splitRun _ hk
      rw [and_0f, Nat.mod_eq_of_lt hvalue, shiftLeft_or _ hvalue, toByte_ok (by omega)]
    · intro b hb
      obtain ⟨k, hk, rfl⟩ := List.mem_map.mp hb
      obtain ⟨hlo, hhi⟩ := mem_splitRun _ hk
      rw [hbyte k hlo hhi]
      omega
    · refine flatMap_shortRun _ _ _ _ fun k hlo hhi => ?_
      rw [shortRun, hbyte k hlo hhi, if_pos (by omega)]
      congr 1 <;> omega

theorem encodePass2_pairs (pairs : Pairs) (hvalue : ∀ p ∈ pairs, p.2 < 16) :
    ∃ bytes, RLECustom2.encodePass2 pairs 64 (by decide) = .ok bytes ∧
      (∀ b ∈ bytes, b.toNat < 192) ∧ bytes.flatMap shortRun = expand pairs := by
  induction pairs with
  | nil => exact ⟨[], rfl, by simp, rfl⟩
  | cons pair pairs ih =>
    obtain ⟨bytes, hbytes, hlt, hruns⟩ := encodePair_ok pair.1 (hvalue pair (by simp))
    obtain ⟨rest, hrest, hrestlt, hrestruns⟩ := ih fun p hp => hvalue p (by simp [hp])
    refine ⟨bytes ++ rest, ?_, ?_, ?_⟩
    · rw [RLECustom2.encodePass2] at hrest ⊢
      rw [List.mapM_cons, hbytes]
      cases hm : pairs.mapM (RLECustom2.encodePair 64 (by decide)) with
      | error e =>
        rw [hm] at hrest
        cases hrest
      | ok bs =>
        rw [hm] at hrest
        cases hrest
        rfl
    · intro b hb
      rcases List.mem_append.mp hb with hb | hb
      · exact hlt b hb
      · exact hrestlt b hb
    · rw [List.flatMap_append, hruns, hrestruns, expand_cons]

theorem packSingles_ok (data : Bytes) (hlt : ∀ b ∈ data, b.toNat < 16) :
    RLECustom3.packSingles data = .ok (pack (data.map UInt8.toNat)) := by
  fun_induction RLECustom3.packSingles data with
  | case1 => rfl
  | case2 byte =>
    have hb := hlt byte (by simp)
    rw [Nat.shiftLeft_eq, toByte_ok (by omega)]
    rfl
  | case3 byte byte' rest ih =>
    have hb := hlt byte (by simp)
    have hb' := hlt byte' (by simp)
    rw [shiftLeft_or _ hb', toByte_ok (by omega), ih fun b h => hlt b (by simp [h])]
    rfl

theorem isSingle_iff (byte : UInt8) : RLECustom3.isSingle byte = true ↔ byte.toNat < 16 := by
  rw [RLECustom3.isSingle, beq_iff_eq, and_f0_eq_zero _ byte.toNat_lt]

theorem groupSize_bounds (count : Nat) (h : 1 ≤ count) :
    1 ≤ RLECustom3.groupSize count ∧ RLECustom3.groupSize count ≤ count ∧
      RLECustom3.groupSize count ≤ 6 := by
  unfold RLECustom3.groupSize
  split
  · split <;> omega
  · omega

theorem take_singles (rest : Bytes) (h : k ≤ (rest.takeWhile RLECustom3.isSingle).length) :
    (rest.take k).length = k ∧ ∀ b ∈ rest.take k, b.toNat < 16 := by
  have hsplit := List.takeWhile_append_dropWhile (p := RLECustom3.isSingle) (l := rest)
  have htake : rest.take k = (rest.takeWhile RLECustom3.isSingle).take k := by
    conv_lhs => rw [← hsplit]
    exact List.take_append_of_le_length h
  rw [htake]
  refine ⟨List.length_take_of_le h, fun b hb => ?_⟩
  have hall := List.all_eq_true.mp (List.all_takeWhile (p := RLECustom3.isSingle) (l := rest))
  exact (isSingle_iff b).mp (hall b (List.mem_of_mem_take hb))

theorem flatMap_singles (data : Bytes) (hlt : ∀ b ∈ data, b.toNat < 16) :
    data.flatMap shortRun = data.map UInt8.toNat := by
  induction data with
  | nil => rfl
  | cons byte data ih =>
    have hb := hlt byte (by simp)
    rw [List.flatMap_cons, ih fun b h => hlt b (by simp [h]), shortRun, if_pos (by omega),
      Nat.div_eq_of_lt hb, Nat.mod_eq_of_lt hb]
    rfl

theorem or_copy : ∀ n < 16, ∀ m < 4, n ||| ((m <<< 4) ||| 0x80) = 128 + m * 16 + n := by
  decide

theorem pixels_copy {byte : UInt8} {singles enc : Bytes} {px : List Nat}
    (hbyte : byte.toNat < 16) (hsingles : ∀ b ∈ singles, b.toNat < 16)
    (hlo : 2 ≤ singles.length) (hhi : singles.length ≤ 5) (henc : pixels enc = some px) :
    pixels (UInt8.ofNat (128 + (singles.length - 2) * 16 + byte.toNat) ::
        (pack (singles.map UInt8.toNat) ++ enc)) =
      some (byte.toNat :: singles.map UInt8.toNat ++ px) := by
  have hfirst := toNat_ofNat_lt
    (show 128 + (singles.length - 2) * 16 + byte.toNat < 256 by omega)
  have hcount : copyCount (UInt8.ofNat (128 + (singles.length - 2) * 16 + byte.toNat)) =
      singles.length + 1 := by
    rw [copyCount, hfirst]
    omega
  have hpacked : (pack (singles.map UInt8.toNat)).length = (singles.length + 1) / 2 := by
    rw [length_pack, List.length_map]
  have hvalues := take_quartets_pack (singles.map UInt8.toNat) (by simpa using hsingles)
  rw [List.length_map] at hvalues
  rw [pixels, hcount, hfirst, if_neg (by omega), if_neg (by omega),
    if_neg (by rw [List.length_append, hpacked]; omega), List.drop_left' hpacked,
    List.take_left' hpacked, List.take_succ_cons, hvalues, henc,
    show (128 + (singles.length - 2) * 16 + byte.toNat) % 16 = byte.toNat by omega]
  rfl

theorem pixels_color {byte : UInt8} (hbyte : byte.toNat < 128) (henc : pixels enc = some px) :
    pixels (byte :: enc) = some (shortRun byte ++ px) := by
  rw [pixels, if_pos hbyte, henc, shortRun, if_pos hbyte]
  rfl

theorem or_40 : ∀ n < 64, (128 + n) ||| 0x40 = 192 + n := by decide

theorem pixels_white {byte : UInt8} (hlo : 128 ≤ byte.toNat) (hhi : byte.toNat < 192)
    (henc : pixels enc = some px) :
    pixels ((byte ||| 0x40) :: enc) = some (shortRun byte ++ px) := by
  have hor : (byte ||| 0x40).toNat = byte.toNat + 64 := by
    have h := or_40 (byte.toNat - 128) (by omega)
    rw [Nat.add_sub_cancel' hlo] at h
    rw [UInt8.toNat_or]
    exact h.trans (by omega)
  rw [pixels, hor, if_neg (by omega), if_pos (by omega), henc, shortRun, if_neg (by omega),
    show (byte.toNat + 64) % 64 = byte.toNat % 64 by omega]
  rfl

theorem groupSingles_ok (data : Bytes) (hlt : ∀ b ∈ data, b.toNat < 192) :
    ∃ enc, RLECustom3.groupSingles data = .ok enc ∧ pixels enc = some (data.flatMap shortRun) := by
  fun_induction RLECustom3.groupSingles data with
  | case1 => exact ⟨[], rfl, by rw [pixels]; rfl⟩
  | case2 byte rest hsingle ih =>
    obtain ⟨enc, henc, hpx⟩ := ih fun b hb => hlt b (by simp [hb])
    have hbyte := hlt byte (by simp)
    have hwhite : byte &&& 0x80 ≠ 0 ↔ 128 ≤ byte.toNat := by
      rw [← and_80_ne_zero _ byte.toNat_lt, ne_eq, ne_eq, ← UInt8.toNat_inj, UInt8.toNat_and]
      rfl
    refine ⟨_, by rw [henc]; rfl, ?_⟩
    rw [List.flatMap_cons]
    split
    · rename_i h
      exact pixels_white (hwhite.mp h) hbyte hpx
    · rename_i h
      rw [hwhite] at h
      exact pixels_color (by omega) hpx
  | case3 byte rest hsingle count hcount ih =>
    obtain ⟨enc, henc, hpx⟩ := ih fun b hb => hlt b (by simp [List.mem_of_mem_drop hb])
    have hbyte := (isSingle_iff byte).mp (not_not.mp hsingle)
    have hbounds := groupSize_bounds (1 + (rest.takeWhile RLECustom3.isSingle).length) (by omega)
    obtain ⟨hlen, hsingles⟩ := take_singles (k := count - 1) rest (by omega)
    have hcopy := pixels_copy hbyte hsingles (by omega) (by omega) hpx
    refine ⟨_, by rw [or_copy _ hbyte _ (by omega), toByte_ok (by omega),
      packSingles_ok _ hsingles, henc]; rfl, ?_⟩
    rw [hlen, show count - 1 - 2 = count - 3 by omega] at hcopy
    rw [List.cons_append, hcopy, List.flatMap_cons, ← flatMap_singles _ hsingles, shortRun,
      if_pos (by omega), Nat.div_eq_of_lt hbyte, Nat.mod_eq_of_lt hbyte]
    conv_rhs => rw [← List.take_append_drop (count - 1) rest, List.flatMap_append]
    rfl
  | case4 byte rest hsingle count hcount ih =>
    obtain ⟨enc, henc, hpx⟩ := ih fun b hb => hlt b (by simp [hb])
    have hbyte := (isSingle_iff byte).mp (not_not.mp hsingle)
    exact ⟨_, by rw [henc]; rfl, pixels_color (by omega) hpx⟩

theorem encodePass2_pixels (pairs : Pairs) (hvalue : ∀ p ∈ pairs, p.2 < 16) :
    ∃ enc, RLECustom3.encodePass2 pairs = .ok enc ∧ pixels enc = some (expand pairs) := by
  obtain ⟨bytes, hbytes, hlt, hruns⟩ := encodePass2_pairs pairs hvalue
  obtain ⟨enc, henc, hpx⟩ := groupSingles_ok bytes hlt
  refine ⟨enc, ?_, by rw [hpx, hruns]⟩
  rw [RLECustom3.encodePass2, hbytes]
  exact henc

-- ---------------------------------------------------------------------------
-- Round trips
-- ---------------------------------------------------------------------------

/-- The self-check at the end of `encode` passes where what was encoded stands for the data. -/
theorem encode_ok {rle : RLECustomBase} (hvalues : rle.bppToValues data = .ok values)
    (hencoded : rle.encodePass2 (RLECustomBase.encodePass1 values) = .ok enc)
    (hdecoded : rle.decode enc = .ok data) : rle.encode data = .ok enc := by
  rw [RLECustomBase.encode, hvalues]
  show (do let encoded ← rle.encodePass2 (RLECustomBase.encodePass1 values); _) = _
  rw [hencoded]
  show (do let decompressed ← rle.decode enc; _) = _
  rw [hdecoded]
  exact if_neg (not_not.mpr rfl)

theorem encode_4bpp (data : Bytes) :
    ∃ enc, RLECustom.encode data 4 = .ok (1, enc) ∧ pixels enc = some (quartets data) := by
  obtain ⟨enc, henc, hpx⟩ := encodePass2_pixels (RLECustomBase.encodePass1 (quartets data))
    fun p hp => quartets_lt data _ (mem_encodePass1 hp).2
  rw [expand_encodePass1] at hpx
  have hdec := decode_eq_pack hpx
  rw [pack_quartets] at hdec
  refine ⟨enc, ?_, hpx⟩
  have hvalues : (RLECustom3.codec 4).bppToValues data = .ok (quartets data) :=
    congrArg Except.ok (bpp4ToValues_eq data)
  have hrle := encode_ok hvalues henc hdec
  rw [RLECustom.encode, if_pos rfl, hrle]
  rfl

theorem encode_1bpp (data : Bytes) :
    ∃ enc, RLECustom.encode data 1 = .ok (1, enc) ∧
      expand (RLECustomA.decodeCounts enc) = bits data ∧ enc.getLast? ≠ some 0 := by
  have hcount : ∀ p ∈ RLECustomBase.encodePass1 (bits data), p.1 ≠ 0 := fun p hp =>
    (mem_encodePass1 hp).1
  have hvalue : ∀ p ∈ RLECustomBase.encodePass1 (bits data), p.2 < 2 := fun p hp =>
    bits_lt data _ (mem_encodePass1 hp).2
  obtain ⟨enc, henc, hpx, hfull⟩ := encodePass2_alternation hcount hvalue
  rw [expand_encodePass1] at hpx
  refine ⟨enc, ?_, hpx, hfull⟩
  have hvalues : (RLECustomA.codec 1).bppToValues data = .ok (bits data) := bpp1ToValues_ok data
  have hrle := encode_ok hvalues henc (decode_eq_of_bits hpx)
  rw [RLECustom.encode, if_neg (by decide), if_pos rfl, hrle]
  rfl

/-- Every image is encoded and its stream is decoded to the same bytes, so that
the self-check of the encoder never fails. -/
theorem encode_decode (data : Bytes) (bpp : Nat) (hbpp : bpp = 1 ∨ bpp = 4) :
    ∃ enc, RLECustom.encode data bpp = .ok (1, enc) ∧ RLECustom.decode 1 enc bpp = .ok data := by
  rcases hbpp with rfl | rfl
  · obtain ⟨enc, henc, hpx, -⟩ := encode_1bpp data
    exact ⟨enc, henc, decode_eq_of_bits hpx⟩
  · obtain ⟨enc, henc, hpx⟩ := encode_4bpp data
    refine ⟨enc, henc, ?_⟩
    rw [decode_eq_pack hpx, pack_quartets]

theorem encode_decode_zeros_and_singles :
    ∃ enc, RLECustom.encode [0x00, 0x12, 0x34, 0xFF] 4 = .ok (1, enc) ∧
      RLECustom.decode 1 enc 4 = .ok [0x00, 0x12, 0x34, 0xFF] :=
  encode_decode _ 4 (.inr rfl)

end Speculos.Rle
