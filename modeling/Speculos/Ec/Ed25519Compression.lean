import Speculos.Ec.CxEc
import Speculos.Ec.Ed25519

/-!
# Compressed points of Ed25519

A compressed point is the `y` coordinate with the lowest byte first, and above it the lowest bit
of the `x` coordinate. The other coordinate is a power of a fraction, up to a square root of -1.
-/

namespace Speculos.Ec.Ed25519

open Lib CxEc

-- ---------------------------------------------------------------------------
-- sys_cx_edward_compress_point, sys_cx_edward_decompress_point
-- ---------------------------------------------------------------------------

/-- `cx_compress`: what is left in `y`. -/
def cxCompress (x y : Bytes) : Bytes :=
  let y := if x.getD (x.length - 1) 0 &&& 1 ≠ 0 then y.modify 0 (· ||| 0x80) else y
  y.reverse

/-- `size`, which is read from the domain. -/
abbrev size : Nat := 32

def sysCxEdwardCompressPoint (curve : CxCurve) (P : Bytes) : Except Stop Bytes :=
  match cxEcfpGetDomain curve with
  | .error stop => .error stop
  | .ok domain =>
    let size := domain.length.toNat
    if curve ≠ Curve.ed25519 ∨ P.length < 1 + 2 * size then .error .ends
    else
      let x := (P.drop 1).take size
      let y := (P.drop (1 + size)).take size
      let y := cxCompress x y
      .ok (0x02 :: (y ++ y ++ P.drop (1 + 2 * size)))

section

variable (modInverse : Int → Int → Int)

/-- `cx_decompress`: the two coordinates. -/
def cxDecompress (y : Bytes) : Bytes × Bytes :=
  let y := y.reverse
  let negative : Bool := y.getD 0 0 &&& 0x80 ≠ 0
  let y := y.modify 0 (· &&& 0x7f)
  let yy := fromBE y
  let xx := xrecover modInverse yy
  let xx := if negative ≠ decide (xx < 0) then (constantQ - xx) % constantQ else xx
  (toBE size xx.toNat, y)

def sysCxEdwardDecompressPoint (curve : CxCurve) (P : Bytes) : Except Stop Bytes :=
  match cxEcfpGetDomain curve with
  | .error stop => .error stop
  | .ok domain =>
    let size := domain.length.toNat
    if curve ≠ Curve.ed25519 ∨ P.length < 1 + 2 * size then .error .ends
    else
      let (x, y) := cxDecompress modInverse ((P.drop 1).take size)
      .ok (0x04 :: (x ++ y ++ P.drop (1 + 2 * size)))

end

/-- The two checks, on the curve that both functions are for. -/
theorem sysCxEdwardCompressPoint_ed25519 (hlen : 1 + 2 * size ≤ P.length) :
    sysCxEdwardCompressPoint Curve.ed25519 P =
      .ok (0x02 :: (cxCompress ((P.drop 1).take size) ((P.drop (1 + size)).take size) ++
        cxCompress ((P.drop 1).take size) ((P.drop (1 + size)).take size) ++
          P.drop (1 + 2 * size))) :=
  if_neg (by rintro (h | h); exacts [h rfl, Nat.not_lt.mpr hlen h])

theorem sysCxEdwardDecompressPoint_ed25519 (modInverse : Int → Int → Int)
    (hlen : 1 + 2 * size ≤ P.length) :
    sysCxEdwardDecompressPoint modInverse Curve.ed25519 P =
      .ok (0x04 :: ((cxDecompress modInverse ((P.drop 1).take size)).1 ++
        (cxDecompress modInverse ((P.drop 1).take size)).2 ++ P.drop (1 + 2 * size))) :=
  if_neg (by rintro (h | h); exacts [h rfl, Nat.not_lt.mpr hlen h])

/-- A number that Ed25519 has in the other SDK is not in the table. -/
theorem sysCxEdwardCompressPoint_thrown (P : Bytes) :
    sysCxEdwardCompressPoint CxCurve.ed25519 P = .error .thrown := rfl

-- ---------------------------------------------------------------------------
-- Roots
-- ---------------------------------------------------------------------------

/-- `BN_mod_exp` of the fraction. -/
def candidate (y : ZMod constantQ) : ZMod constantQ := curve.xSquare y ^ ((constantQ + 3) / 8)

theorem candidate_sq {y : ZMod constantQ} (hy : IsSquare (curve.xSquare y)) :
    candidate y ^ 2 = curve.xSquare y ∨ candidate y ^ 2 = -curve.xSquare y := by
  have hexp : (constantQ + 3) / 8 = constantQ / 8 + 1 := by decide
  rw [candidate, hexp]
  refine TwistedEdwards.sq_candidate (fun w hw => ?_) hy
  rw [show 8 * (constantQ / 8) + 4 = constantQ - 1 by decide]
  exact ZMod.pow_card_sub_one_eq_one hw

/-- The root that is left, before one of two opposite numbers is taken. -/
def root (y : ZMod constantQ) : ZMod constantQ :=
  if candidate y ^ 2 = curve.xSquare y then candidate y else candidate y * constantI

theorem root_sq_iff (y : ZMod constantQ) :
    root y ^ 2 = curve.xSquare y ↔ IsSquare (curve.xSquare y) := by
  refine ⟨fun h => ⟨root y, by rw [← sq, h]⟩, fun h => ?_⟩
  rw [root]
  split
  · assumption
  · rename_i hne
    rw [mul_pow, (candidate_sq h).resolve_left hne, sq (constantI : ZMod constantQ), constantI_sq,
      mul_neg, mul_one, neg_neg]

theorem root_eq_zero_iff (y : ZMod constantQ) : root y = 0 ↔ y ^ 2 = 1 := by
  have hI : (constantI : ZMod constantQ) ≠ 0 := by decide
  have hcandidate : candidate y = 0 ↔ y ^ 2 = 1 := by
    rw [candidate, pow_eq_zero_iff (by decide), TwistedEdwards.xSquare, div_eq_zero_iff,
      or_iff_left (TwistedEdwards.d_mul_sq_sub_a_ne complete y), sub_eq_zero]
  rw [root]
  split
  · exact hcandidate
  · rw [mul_eq_zero, or_iff_left hI, hcandidate]

/-- The even one of `x` and `-x`. -/
def even (x : ZMod constantQ) : Int := if least x % 2 = 1 then constantQ - least x else least x

theorem xrecover_eq {modInverse : Int → Int → Int} (hinv : Inverts modInverse) (y : Int) :
    xrecover modInverse y = even (root y) := by
  have hden : ((d1 modInverse * (y * y) + 1 : Int) : ZMod constantQ) =
      curve.d * (y : ZMod constantQ) ^ 2 - curve.a := by
    rw [curve_a]
    push_cast
    rw [intCast_d1 hinv]
    ring
  have hne : ((d1 modInverse * (y * y) + 1 : Int) : ZMod constantQ) ≠ 0 :=
    hden ▸ TwistedEdwards.d_mul_sq_sub_a_ne complete _
  have hxx : (((y * y - 1) * modInverse (d1 modInverse * (y * y) + 1) constantQ : Int) : ZMod constantQ) =
      curve.xSquare y := by
    rw [Int.cast_mul, intCast_modInverse hinv hne, hden, TwistedEdwards.xSquare, div_eq_mul_inv]
    push_cast
    rw [sq]
  have hexp : (((constantQ : Int) + 2 + 1) >>> (3 : Nat)).toNat = (constantQ + 3) / 8 := by decide
  have hpow : modExp ((y * y - 1) * modInverse (d1 modInverse * (y * y) + 1) constantQ)
      ((constantQ + 3) / 8) = least (candidate y) := by
    rw [modExp_eq, hxx]
    rfl
  have hsquare : (least (candidate y) * least (candidate y) -
      (y * y - 1) * modInverse (d1 modInverse * (y * y) + 1) constantQ) % constantQ = 0 ↔
      candidate y ^ 2 = curve.xSquare y := by
    rw [← Int.dvd_iff_emod_eq_zero, ← ZMod.intCast_zmod_eq_zero_iff_dvd, Int.cast_sub, hxx,
      Int.cast_mul, intCast_least, sub_eq_zero, sq]
  simp only [xrecover, hexp, hpow]
  rw [even, root]
  by_cases h : candidate y ^ 2 = curve.xSquare y
  · rw [if_neg (not_not.mpr (hsquare.mpr h)), if_pos h]
  · rw [if_pos (mt hsquare.mp h), if_neg h, emod_constantQ, Int.cast_mul, intCast_least,
      Int.cast_natCast]

-- ---------------------------------------------------------------------------
-- Parities
-- ---------------------------------------------------------------------------

theorem least_nonneg (x : ZMod constantQ) : 0 ≤ least x := Int.natCast_nonneg _

theorem least_lt (x : ZMod constantQ) : least x < constantQ := Int.ofNat_lt.mpr (ZMod.val_lt x)

theorem least_eq_zero_iff (x : ZMod constantQ) : least x = 0 ↔ x = 0 := by
  rw [least, Int.natCast_eq_zero, ZMod.val_eq_zero]

theorem least_neg {x : ZMod constantQ} (hx : x ≠ 0) : least (-x) = constantQ - least x := by
  have hpos : 0 < least x :=
    lt_of_le_of_ne (least_nonneg x) (Ne.symm (mt (least_eq_zero_iff x).mp hx))
  have hlt := least_lt x
  have hcast : (((constantQ : Int) - least x : Int) : ZMod constantQ) = -x := by
    rw [Int.cast_sub, intCast_least, Int.cast_natCast, ZMod.natCast_self, zero_sub]
  rw [← hcast, ← emod_constantQ]
  exact Int.emod_eq_of_lt (by omega) (by omega)

/-- What `cx_decompress` takes where the sign bit is `negative`. -/
def withSign (negative : Bool) (x : ZMod constantQ) : ZMod constantQ :=
  if least x % 2 = negative.toNat then x else -x

theorem odd_constantQ : (constantQ : Int) % 2 = 1 := by decide

theorem least_withSign (negative : Bool) (x : ZMod constantQ) :
    least (withSign negative x) =
      if negative = true then (constantQ - even x) % constantQ else even x := by
  have hodd := odd_constantQ
  rcases eq_or_ne x 0 with rfl | hx
  · cases negative <;> decide
  · have hneg := least_neg hx
    have hnonneg := least_nonneg x
    have hlt := least_lt x
    have hpos : 0 < least x := lt_of_le_of_ne hnonneg (Ne.symm (mt (least_eq_zero_iff x).mp hx))
    rw [withSign, even]
    cases negative with
    | false =>
      simp only [Bool.false_eq_true, if_false, Bool.toNat_false, Nat.cast_zero]
      by_cases h : least x % 2 = 1
      · rw [if_neg (by omega), if_pos h, hneg]
      · rw [if_pos (by omega), if_neg h]
    | true =>
      simp only [if_true, Bool.toNat_true, Nat.cast_one]
      by_cases h : least x % 2 = 1
      · rw [if_pos h, if_pos h, sub_sub_cancel, Int.emod_eq_of_lt hnonneg hlt]
      · rw [if_neg h, if_neg h, hneg, Int.emod_eq_of_lt (by omega) (by omega)]

/-- The parity is the sign bit, but for zero. -/
theorem withSign_parity (negative : Bool) {x : ZMod constantQ} (hx : x ≠ 0) :
    least (withSign negative x) % 2 = negative.toNat := by
  have hodd := odd_constantQ
  rw [withSign]
  split
  · assumption
  · rename_i h
    rw [least_neg hx]
    cases negative with
    | false =>
      simp only [Bool.toNat_false, Nat.cast_zero] at h ⊢
      omega
    | true =>
      simp only [Bool.toNat_true, Nat.cast_one] at h ⊢
      omega

theorem withSign_sq (negative : Bool) (x : ZMod constantQ) : withSign negative x ^ 2 = x ^ 2 := by
  rw [withSign]
  split
  · rfl
  · exact neg_sq x

/-- Only one of two opposite residues has the parity. -/
theorem withSign_eq {negative : Bool} {x w : ZMod constantQ} (hsq : w ^ 2 = x ^ 2)
    (hparity : least w % 2 = negative.toNat) : withSign negative x = w := by
  have hodd := odd_constantQ
  rcases sq_eq_sq_iff_eq_or_eq_neg.mp hsq with rfl | rfl
  · rw [withSign, if_pos hparity]
  · rcases eq_or_ne x 0 with rfl | hx
    · rw [neg_zero] at hparity ⊢
      rw [withSign, if_pos hparity]
    · rw [withSign, if_neg]
      rw [least_neg hx] at hparity
      cases negative with
      | false =>
        simp only [Bool.toNat_false, Nat.cast_zero] at hparity ⊢
        omega
      | true =>
        simp only [Bool.toNat_true, Nat.cast_one] at hparity ⊢
        omega

-- ---------------------------------------------------------------------------
-- Bytes
-- ---------------------------------------------------------------------------

theorem forall_byte {p : UInt8 → Prop} (h : ∀ n < 256, p (UInt8.ofNat n)) (b : UInt8) : p b := by
  have hb := h b.toNat b.toNat_lt
  rwa [UInt8.ofNat_toNat] at hb

section

variable {y : Bytes}

theorem highByte (hlen : y.length = size) :
    ∃ b rest, y = b :: rest ∧ rest.length = 31 ∧ fromBE y = b.toNat * 256 ^ 31 + fromBE rest ∧
      fromBE rest < 256 ^ 31 := by
  obtain _ | ⟨b, rest⟩ := y
  · cases hlen
  · have hrest : rest.length = 31 := Nat.succ.inj hlen
    have hlt := fromBE_lt rest
    rw [hrest] at hlt
    exact ⟨b, rest, rfl, hrest, by rw [fromBE_cons, hrest], hlt⟩

theorem toNat_and_127 (b : UInt8) : (b &&& 0x7f).toNat = b.toNat % 128 := by
  rw [UInt8.toNat_and]
  exact Nat.and_two_pow_sub_one_eq_mod b.toNat 7

theorem byte_masks : ∀ b : UInt8, (b &&& 0x80 ≠ 0 ↔ 128 ≤ b.toNat) ∧
    (b.toNat < 128 → (b ||| 0x80).toNat = b.toNat + 128) ∧ (b &&& 1 ≠ 0 ↔ b.toNat % 2 = 1) :=
  forall_byte (by decide +kernel)

theorem sign_iff (hlen : y.length = size) : y.getD 0 0 &&& 0x80 ≠ 0 ↔ 2 ^ 255 ≤ fromBE y := by
  obtain ⟨b, rest, rfl, -, hfrom, hlt⟩ := highByte hlen
  rw [List.getD_cons_zero, (byte_masks b).1, hfrom]
  have hb := b.toNat_lt
  constructor <;> intro h <;> omega

theorem fromBE_clear (hlen : y.length = size) :
    fromBE (y.modify 0 (· &&& 0x7f)) = fromBE y % 2 ^ 255 := by
  obtain ⟨b, rest, rfl, hrest, hfrom, hlt⟩ := highByte hlen
  rw [hfrom, List.modify_zero_cons, fromBE_cons, hrest, toNat_and_127]
  have hb := b.toNat_lt
  omega

theorem fromBE_set (hlen : y.length = size) (hlt : fromBE y < 2 ^ 255) :
    fromBE (y.modify 0 (· ||| 0x80)) = fromBE y + 2 ^ 255 := by
  obtain ⟨b, rest, rfl, hrest, hfrom, -⟩ := highByte hlen
  have hb : b.toNat < 128 := by omega
  rw [hfrom, List.modify_zero_cons, fromBE_cons, hrest, (byte_masks b).2.1 hb]
  omega

theorem lowBit_iff (X : Nat) : (toBE size X).getD ((toBE size X).length - 1) 0 &&& 1 ≠ 0 ↔
    X % 2 = 1 := by
  have hlast : toBE size X = toBE 31 (X / 256) ++ [UInt8.ofNat X] := rfl
  rw [hlast, List.length_append, length_toBE, List.length_singleton, Nat.add_sub_cancel,
    List.getD_eq_getElem?_getD, List.getElem?_append_right (by rw [length_toBE]), length_toBE,
    Nat.sub_self, List.getElem?_cons_zero, Option.getD_some, (byte_masks _).2.2, UInt8.toNat_ofNat']
  omega

end

def packed (X Y : Nat) : Bytes := toLE size (Y + 2 ^ 255 * (X % 2))

theorem cxCompress_toBE (X : Nat) (hY : Y < 2 ^ 255) :
    cxCompress (toBE size X) (toBE size Y) = packed X Y := by
  have hsmall : Y < 256 ^ size := Nat.lt_trans hY (by norm_num)
  have hfrom : fromBE (toBE size Y) = Y := fromBE_toBE_of_lt hsmall
  rw [packed, toLE, cxCompress]
  refine congrArg List.reverse (fromBE_injective ?_ ?_)
  · split <;> simp
  · have hbig : Y + 2 ^ 255 * (X % 2) < 256 ^ size := by
      rw [show 256 ^ size = 2 * 2 ^ 255 by norm_num]
      have hbit := Nat.mod_lt X Nat.two_pos
      generalize X % 2 = bit at hbit
      obtain rfl | rfl : bit = 0 ∨ bit = 1 := by omega
      · omega
      · omega
    rw [fromBE_toBE_of_lt hbig]
    by_cases hodd : X % 2 = 1
    · rw [if_pos ((lowBit_iff X).mpr hodd), fromBE_set (length_toBE _ _) (by rw [hfrom]; exact hY),
        hfrom, hodd, Nat.mul_one]
    · rw [if_neg (mt (lowBit_iff X).mp hodd), hfrom, Nat.mod_two_ne_one.mp hodd, Nat.mul_zero,
        Nat.add_zero]

-- ---------------------------------------------------------------------------
-- Round trips
-- ---------------------------------------------------------------------------

/-- The `y` coordinate of a compressed point, which may not be reduced. -/
def packedY (s : Bytes) : Nat := fromLE s % 2 ^ 255

def packedSign (s : Bytes) : Bool := 2 ^ 255 ≤ fromLE s

/-- The `x` coordinate that is recovered. -/
def unpackedX (s : Bytes) : ZMod constantQ := withSign (packedSign s) (root (packedY s : Nat))

theorem even_nonneg (x : ZMod constantQ) : 0 ≤ even x := by
  have hleast := least_withSign false x
  rw [if_neg Bool.false_ne_true] at hleast
  rw [← hleast]
  exact least_nonneg _

theorem cxDecompress_eq {modInverse : Int → Int → Int} (hinv : Inverts modInverse) {s : Bytes}
    (hlen : s.length = size) :
    cxDecompress modInverse s = (toBE size (unpackedX s).val, toBE size (packedY s)) := by
  have hrev : s.reverse.length = size := by rw [List.length_reverse, hlen]
  have hsign : decide (s.reverse.getD 0 0 &&& 0x80 ≠ 0) = packedSign s :=
    decide_eq_decide.mpr (sign_iff hrev)
  have hclear : fromBE (s.reverse.modify 0 (· &&& 0x7f)) = packedY s := fromBE_clear hrev
  have hbytes : s.reverse.modify 0 (· &&& 0x7f) = toBE size (packedY s) := by
    have hmod : (s.reverse.modify 0 (· &&& 0x7f)).length = size := by rw [List.length_modify, hrev]
    rw [← hclear, ← hmod, toBE_fromBE]
  have hfrom : fromBE (toBE size (packedY s)) = packedY s := by rw [← hbytes, hclear]
  have hnonneg : decide (even (root (packedY s : Nat)) < 0) = false :=
    decide_eq_false (Int.not_lt.mpr (even_nonneg _))
  have hx : (if packedSign s ≠ false then (constantQ - even (root (packedY s : Nat))) % constantQ
      else even (root (packedY s : Nat))) = least (unpackedX s) := by
    rw [unpackedX, least_withSign]
    simp only [ne_eq, Bool.not_eq_false]
  simp only [cxDecompress, hsign, hbytes, hfrom, xrecover_eq hinv, Int.cast_natCast, hnonneg, hx]
  rw [least, Int.toNat_natCast]

/-- A compressed point has 32 bytes behind the first, and room for as many. -/
theorem sysCxEdwardDecompressPoint_eq {modInverse : Int → Int → Int} (hinv : Inverts modInverse)
    {P : Bytes} (hlen : 1 + 2 * size ≤ P.length) :
    sysCxEdwardDecompressPoint modInverse Curve.ed25519 P =
      .ok (0x04 :: (toBE size (unpackedX ((P.drop 1).take size)).val ++
        toBE size (packedY ((P.drop 1).take size)) ++ P.drop (1 + 2 * size))) := by
  have htake : ((P.drop 1).take size).length = size := by
    rw [List.length_take, List.length_drop]
    omega
  rw [sysCxEdwardDecompressPoint_ed25519 modInverse hlen, cxDecompress_eq hinv htake]

/-- The recovered point is on the curve if any point has its `y` coordinate. The sign bit tells
the parity of `x`, which is zero otherwise. -/
theorem unpacked_spec (s : Bytes) :
    ((∃ x, curve.OnCurve (x, (packedY s : ZMod constantQ))) →
        curve.OnCurve (unpackedX s, (packedY s : ZMod constantQ))) ∧
      ((unpackedX s).val % 2 = (packedSign s).toNat ∨ unpackedX s = 0) := by
  refine ⟨fun h => ?_, ?_⟩
  · rw [TwistedEdwards.onCurve_iff_sq complete, unpackedX, withSign_sq, root_sq_iff]
    exact (TwistedEdwards.exists_onCurve_iff complete _).mp h
  · rcases eq_or_ne (root (packedY s : Nat)) 0 with hzero | hne
    · right
      rw [unpackedX, hzero, withSign, neg_zero, ite_self]
    · left
      have hparity := withSign_parity (packedSign s) hne
      rw [least] at hparity
      exact Int.ofNat_inj.mp hparity

theorem val_lt (x : ZMod constantQ) : x.val < 2 ^ 255 :=
  Nat.lt_trans (ZMod.val_lt x) (by rw [constantQ_eq]; norm_num)

theorem fromLE_packed (X : Nat) (hY : Y < 2 ^ 255) :
    fromLE (packed X Y) = Y + 2 ^ 255 * (X % 2) := by
  have hbit := Nat.mod_lt X Nat.two_pos
  rw [packed, fromLE_toLE_of_lt]
  generalize X % 2 = bit at hbit
  rw [show 256 ^ size = 2 ^ 256 by norm_num]
  omega

theorem packedY_packed (X : Nat) (hY : Y < 2 ^ 255) : packedY (packed X Y) = Y := by
  rw [packedY, fromLE_packed X hY, Nat.add_mul_mod_self_left, Nat.mod_eq_of_lt hY]

theorem packedSign_packed (X : Nat) (hY : Y < 2 ^ 255) :
    (packedSign (packed X Y)).toNat = X % 2 := by
  have hbit := Nat.mod_lt X Nat.two_pos
  rw [packedSign, fromLE_packed X hY]
  generalize X % 2 = bit at hbit
  obtain rfl | rfl : bit = 0 ∨ bit = 1 := by omega
  · rw [decide_eq_false (by omega)]
    rfl
  · rw [decide_eq_true (by omega)]
    rfl

theorem unpackedX_packed (pt : curve.Point) :
    unpackedX (packed pt.xy.1.val pt.xy.2.val) = pt.xy.1 := by
  have hon := (TwistedEdwards.onCurve_iff_sq complete pt.xy.1 pt.xy.2).mp pt.onCurve
  have hroot := (root_sq_iff pt.xy.2).mpr ⟨pt.xy.1, by rw [← hon, sq]⟩
  rw [unpackedX, packedY_packed _ (val_lt _), ZMod.natCast_zmod_val]
  refine withSign_eq (hon.trans hroot.symm) ?_
  rw [packedSign_packed _ (val_lt _), least]
  rfl

theorem sysCxEdwardCompressPoint_toBE (tag : UInt8) (X : Nat) (hY : Y < 2 ^ 255) (rest : Bytes) :
    sysCxEdwardCompressPoint Curve.ed25519 (tag :: (toBE size X ++ toBE size Y ++ rest)) =
      .ok (0x02 :: (packed X Y ++ packed X Y ++ rest)) := by
  have hlen : 1 + 2 * size ≤ (tag :: (toBE size X ++ toBE size Y ++ rest)).length := by
    simp only [List.length_cons, List.length_append, length_toBE]
    omega
  have hx : ((tag :: (toBE size X ++ toBE size Y ++ rest)).drop 1).take size = toBE size X := by
    rw [List.drop_one, List.tail_cons, List.append_assoc, List.take_left' (length_toBE _ _)]
  have hy : ((tag :: (toBE size X ++ toBE size Y ++ rest)).drop (1 + size)).take size =
      toBE size Y := by
    rw [← List.drop_drop, List.drop_one, List.tail_cons, List.append_assoc,
      List.drop_left' (length_toBE _ _), List.take_left' (length_toBE _ _)]
  have hrest : (tag :: (toBE size X ++ toBE size Y ++ rest)).drop (1 + 2 * size) = rest := by
    rw [← List.drop_drop, List.drop_one, List.tail_cons,
      List.drop_left' (by rw [List.length_append, length_toBE, length_toBE, two_mul])]
  rw [sysCxEdwardCompressPoint_ed25519 hlen, hx, hy, hrest, cxCompress_toBE X hY]

theorem length_packed (X Y : Nat) : (packed X Y).length = size := length_toLE _ _

theorem take_packed (tag : UInt8) (X Y : Nat) (rest : Bytes) :
    ((tag :: (packed X Y ++ packed X Y ++ rest)).drop 1).take size = packed X Y := by
  rw [List.drop_one, List.tail_cons, List.append_assoc, List.take_left' (length_packed X Y)]

/-- A point that is compressed and decompressed is the point again, whatever comes behind it. -/
theorem decompress_compress {modInverse : Int → Int → Int} (hinv : Inverts modInverse)
    (pt : curve.Point) (tag : UInt8) (rest : Bytes) :
    (sysCxEdwardCompressPoint Curve.ed25519
        (tag :: (toBE size pt.xy.1.val ++ toBE size pt.xy.2.val ++ rest))).bind
      (sysCxEdwardDecompressPoint modInverse Curve.ed25519) =
      .ok (0x04 :: (toBE size pt.xy.1.val ++ toBE size pt.xy.2.val ++ rest)) := by
  have hrest : (0x02 :: (packed pt.xy.1.val pt.xy.2.val ++ packed pt.xy.1.val pt.xy.2.val ++
    rest)).drop
      (1 + 2 * size) = rest := by
    rw [← List.drop_drop, List.drop_one, List.tail_cons,
      List.drop_left' (by rw [List.length_append, length_packed, two_mul])]
  rw [sysCxEdwardCompressPoint_toBE tag _ (val_lt _) rest, Except.bind,
    sysCxEdwardDecompressPoint_eq hinv, take_packed, hrest, unpackedX_packed,
    packedY_packed _ (val_lt _)]
  simp only [List.length_cons, List.length_append, length_packed]
  omega

theorem decompress_compress_basePoint :
    (sysCxEdwardCompressPoint Curve.ed25519
        (0x04 :: (toBE size basePoint.xy.1.val ++ toBE size basePoint.xy.2.val ++ []))).bind
      (sysCxEdwardDecompressPoint bezoutInverse Curve.ed25519) =
      .ok (0x04 :: (toBE size basePoint.xy.1.val ++ toBE size basePoint.xy.2.val ++ [])) :=
  decompress_compress inverts_bezoutInverse basePoint 0x04 []

theorem fromLE_eq_packedY (s : Bytes) (hlen : s.length = size) :
    fromLE s = packedY s + 2 ^ 255 * (packedSign s).toNat := by
  have hlt := fromLE_lt s
  rw [hlen, show 256 ^ size = 2 ^ 256 by norm_num] at hlt
  rw [packedY, packedSign]
  by_cases h : 2 ^ 255 ≤ fromLE s
  · rw [decide_eq_true h, Bool.toNat_true]
    omega
  · rw [decide_eq_false h, Bool.toNat_false]
    omega

theorem packedY_lt (s : Bytes) : packedY s < 2 ^ 255 := Nat.mod_lt _ (Nat.two_pow_pos 255)

/-- Zero has no sign, so that its sign bit is lost. -/
theorem packed_eq_iff {s : Bytes} (hlen : s.length = size) :
    packed (unpackedX s).val (packedY s) = s ↔
      ¬ (packedSign s = true ∧ (packedY s : ZMod constantQ) ^ 2 = 1) := by
  have hzero : unpackedX s = 0 ↔ (packedY s : ZMod constantQ) ^ 2 = 1 := by
    rw [← root_eq_zero_iff, unpackedX, withSign]
    split
    · rfl
    · exact neg_eq_zero
  have hvalue : packed (unpackedX s).val (packedY s) = s ↔
      (unpackedX s).val % 2 = (packedSign s).toNat := by
    have hfrom := fromLE_packed (unpackedX s).val (packedY_lt s)
    have hs := fromLE_eq_packedY s hlen
    constructor
    · intro h
      rw [h] at hfrom
      omega
    · intro h
      have hback := toLE_fromLE s
      rw [hlen, hs] at hback
      rw [packed, h, hback]
  rw [hvalue, ← hzero]
  constructor
  · rintro hparity ⟨hsign, hx⟩
    rw [hx, hsign] at hparity
    simp at hparity
  · intro hnot
    rcases (unpacked_spec s).2 with hparity | hx
    · exact hparity
    · have hsign : packedSign s = false := Bool.eq_false_of_not_eq_true fun h => hnot ⟨h, hx⟩
      rw [hx, hsign]
      rfl

/-- Any string is decompressed. The point is on the curve if one with the `y` coordinate is, and
compressed again it is the string, but for the sign of zero. -/
theorem decompressed_spec {modInverse : Int → Int → Int} (hinv : Inverts modInverse) {P s : Bytes}
    (hlen : 1 + 2 * size ≤ P.length) (hs : (P.drop 1).take size = s) :
    ∃ x : ZMod constantQ, sysCxEdwardDecompressPoint modInverse Curve.ed25519 P =
        .ok (0x04 :: (toBE size x.val ++ toBE size (packedY s) ++ P.drop (1 + 2 * size))) ∧
      ((∃ x', curve.OnCurve (x', (packedY s : ZMod constantQ))) →
        curve.OnCurve (x, (packedY s : ZMod constantQ))) ∧
      ∃ Q, (sysCxEdwardDecompressPoint modInverse Curve.ed25519 P).bind
          (sysCxEdwardCompressPoint Curve.ed25519) = .ok Q ∧
        ((Q.drop 1).take size = s ↔
          ¬ (packedSign s = true ∧ (packedY s : ZMod constantQ) ^ 2 = 1)) := by
  have hlength : s.length = size := by
    rw [← hs, List.length_take, List.length_drop]
    omega
  have hdecompress := sysCxEdwardDecompressPoint_eq hinv hlen
  rw [hs] at hdecompress
  have hcompress := sysCxEdwardCompressPoint_toBE 0x04 (unpackedX s).val (packedY_lt s)
    (P.drop (1 + 2 * size))
  have hagain : (sysCxEdwardDecompressPoint modInverse Curve.ed25519 P).bind
      (sysCxEdwardCompressPoint Curve.ed25519) =
        .ok (0x02 :: (packed (unpackedX s).val (packedY s) ++
        packed (unpackedX s).val (packedY s) ++ P.drop (1 + 2 * size))) := by
    rw [hdecompress, Except.bind, hcompress]
  refine ⟨unpackedX s, hdecompress, (unpacked_spec s).1, _, hagain, ?_⟩
  rw [← packed_eq_iff hlength]
  exact iff_of_eq (congrArg (· = s) (take_packed _ _ _ _))

/-- The base point. -/
theorem decompressed_basePoint :
    ∃ x : ZMod constantQ, sysCxEdwardDecompressPoint bezoutInverse Curve.ed25519
          (0x02 :: (0x58 :: List.replicate 63 0x66)) =
        .ok (0x04 :: (toBE size x.val ++
          toBE size (packedY (0x58 :: List.replicate 31 0x66)) ++ [])) ∧
      ((∃ x', curve.OnCurve (x', (packedY (0x58 :: List.replicate 31 0x66) : ZMod constantQ))) →
        curve.OnCurve (x, (packedY (0x58 :: List.replicate 31 0x66) : ZMod constantQ))) ∧
      ∃ Q, (sysCxEdwardDecompressPoint bezoutInverse Curve.ed25519
            (0x02 :: (0x58 :: List.replicate 63 0x66))).bind
          (sysCxEdwardCompressPoint Curve.ed25519) = .ok Q ∧
        ((Q.drop 1).take size = 0x58 :: List.replicate 31 0x66 ↔
          ¬ (packedSign (0x58 :: List.replicate 31 0x66) = true ∧
            (packedY (0x58 :: List.replicate 31 0x66) : ZMod constantQ) ^ 2 = 1)) :=
  decompressed_spec inverts_bezoutInverse (by decide) (by decide)

end Speculos.Ec.Ed25519
