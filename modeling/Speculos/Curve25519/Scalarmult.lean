import Speculos.Curve25519.Bytes
import Speculos.Curve25519.Multiplication
import Speculos.Lib.BitString
import Speculos.Lib.Rfc7748

/-!
# Scalar multiplication on Curve25519

`fe_invert`, `fe_cswap`, `curve25519_scalar_mult_generic` and `scalarmult_curve25519`. No limb
overflows in the ladder, each of its rounds is that of RFC 7748, and the result is that of the
ladder for the scalar as it is: no bit of it is set or cleared first.
-/

namespace Speculos.Curve25519

open Lib

def feSqTimes : Nat → Fe → Option Fe
  | 0, t => some t
  | n + 1, t => do feSqTimes n (← feSq t)

def feInvert (z : Fe) : Option Fe := do
  let t0 ← feSq z
  let t1 ← feSq t0
  let t1 ← feSq t1
  let t1 ← feMul z t1
  let t0 ← feMul t0 t1
  let t2 ← feSq t0
  let t1 ← feMul t1 t2
  let t2 ← feSq t1
  let t2 ← feSqTimes 4 t2
  let t1 ← feMul t2 t1
  let t2 ← feSq t1
  let t2 ← feSqTimes 9 t2
  let t2 ← feMul t2 t1
  let t3 ← feSq t2
  let t3 ← feSqTimes 19 t3
  let t2 ← feMul t3 t2
  let t2 ← feSqTimes 10 t2
  let t1 ← feMul t2 t1
  let t2 ← feSq t1
  let t2 ← feSqTimes 49 t2
  let t2 ← feMul t2 t1
  let t3 ← feSq t2
  let t3 ← feSqTimes 99 t3
  let t2 ← feMul t3 t2
  let t2 ← feSq t2
  let t2 ← feSqTimes 49 t2
  let t1 ← feMul t2 t1
  let t1 ← feSq t1
  let t1 ← feSqTimes 4 t1
  feMul t1 t0

/-- The two limbs after their exchange under the mask `b`. -/
def cswapLimb (b : UInt32) (f g : Int) : Int × Int :=
  let x := (BitVec.ofInt 32 f ^^^ BitVec.ofInt 32 g) &&& b.toBitVec
  ((BitVec.ofInt 32 f ^^^ x).toInt, (BitVec.ofInt 32 g ^^^ x).toInt)

def feCswap (f g : Fe) (b : UInt32) : Fe × Fe :=
  let b := 0 - b
  let s0 := cswapLimb b f.t0 g.t0
  let s1 := cswapLimb b f.t1 g.t1
  let s2 := cswapLimb b f.t2 g.t2
  let s3 := cswapLimb b f.t3 g.t3
  let s4 := cswapLimb b f.t4 g.t4
  let s5 := cswapLimb b f.t5 g.t5
  let s6 := cswapLimb b f.t6 g.t6
  let s7 := cswapLimb b f.t7 g.t7
  let s8 := cswapLimb b f.t8 g.t8
  let s9 := cswapLimb b f.t9 g.t9
  (⟨s0.1, s1.1, s2.1, s3.1, s4.1, s5.1, s6.1, s7.1, s8.1, s9.1⟩,
    ⟨s0.2, s1.2, s2.2, s3.2, s4.2, s5.2, s6.2, s7.2, s8.2, s9.2⟩)

/-- `1 & (e[pos / 8] >> (pos & 7))` -/
def scalarBit (e : Bytes) (pos : Nat) : UInt32 :=
  UInt32.ofNat (1 &&& (e.getD (pos / 8) 0).toNat >>> (pos &&& 7))

/-- The body of the loop, and `swap` after it. -/
def ladderRound (x1 : Fe) (e : Bytes) (pos : Nat) (s : Rfc7748.Ladder Fe × UInt32) :
    Option (Rfc7748.Ladder Fe × UInt32) := do
  let b := scalarBit e pos
  let swap := s.2 ^^^ b
  let (x2, x3) := feCswap s.1.x2 s.1.x3 swap
  let (z2, z3) := feCswap s.1.z2 s.1.z3 swap
  let tmp0 ← feSub x3 z3
  let tmp1 ← feSub x2 z2
  let x2 ← feAdd x2 z2
  let z2 ← feAdd x3 z3
  let z3 ← feMul tmp0 x2
  let z2 ← feMul z2 tmp1
  let tmp0 ← feSq tmp1
  let tmp1 ← feSq x2
  let x3 ← feAdd z3 z2
  let z2 ← feSub z3 z2
  let x2 ← feMul tmp1 tmp0
  let tmp1 ← feSub tmp1 tmp0
  let z2 ← feSq z2
  let z3 ← feMul121666 tmp1
  let x3 ← feSq x3
  let tmp0 ← feAdd tmp0 z3
  let z3 ← feMul x1 z2
  let z2 ← feMul tmp1 tmp0
  return (⟨x2, z2, x3, z3⟩, b)

/-- The rounds from the position below `n` down to zero. -/
def ladderLoop (x1 : Fe) (e : Bytes) :
    Nat → Rfc7748.Ladder Fe × UInt32 → Option (Rfc7748.Ladder Fe × UInt32)
  | 0, s => some s
  | pos + 1, s => do ladderLoop x1 e pos (← ladderRound x1 e pos s)

def curve25519ScalarMultGeneric (scalar point : Bytes) : Option Bytes := do
  let x1 ← feFromBytes point
  let (s, swap) ← ladderLoop x1 scalar 255 (⟨fe1, fe0, x1, fe1⟩, 0)
  let (x2, _) := feCswap s.x2 s.x3 swap
  let (z2, _) := feCswap s.z2 s.z3 swap
  let z2 ← feInvert z2
  let x2 ← feMul x2 z2
  feToBytes x2

/-- The loop of `reverse_int` between two positions, with at most so many turns. -/
def reverseLoop : Nat → Bytes → Nat → Nat → Option Bytes
  | 0, _, _, _ => none
  | n + 1, b, first, last =>
    if first = last then some b
    else if first = last - 1 then some b
    else reverseLoop n ((b.set (last - 1) (b.getD first 0)).set first (b.getD (last - 1) 0))
      (first + 1) (last - 1)

def reverseInt (b : Bytes) : Option Bytes := reverseLoop 17 b 0 32

/-- The bytes of `out`, and the result. -/
def scalarmultCurve25519 (scalar point : Bytes) : Option (Bytes × Int) := do
  let scalarBig ← reverseInt scalar
  let pointBig ← reverseInt point
  let out ← curve25519ScalarMultGeneric scalarBig pointBig
  let out ← reverseInt out
  return (out, if out = List.replicate 32 0 then -1 else 0)

-- ---------------------------------------------------------------------------
-- Powers
-- ---------------------------------------------------------------------------

/-- A power of an element, with small limbs. -/
structure Power (z : Fe) (n : Nat) (t : Fe) : Prop where
  within : t.Within tight
  residue : t.residue = z.residue ^ n

theorem Power.loose (h : Power z n t) : t.Within loose := h.within.mono (by decide)

theorem Power.sq (h : Power z n t) : ∃ r, feSq t = some r ∧ Power z (2 * n) r := by
  obtain ⟨r, hr, hwithin, hresidue⟩ := feSq_eq h.loose
  exact ⟨r, hr, hwithin, by rw [hresidue, h.residue, ← pow_mul, Nat.mul_comm]⟩

theorem Power.mul (hs : Power z m s) (ht : Power z n t) :
    ∃ r, feMul s t = some r ∧ Power z (m + n) r := by
  obtain ⟨r, hr, hwithin, hresidue⟩ := feMul_eq hs.loose ht.loose
  exact ⟨r, hr, hwithin, by rw [hresidue, hs.residue, ht.residue, ← pow_add]⟩

theorem Power.sqTimes (k : Nat) (h : Power z n t) :
    ∃ r, feSqTimes k t = some r ∧ Power z (2 ^ k * n) r := by
  induction k generalizing n t with
  | zero => exact ⟨t, rfl, by rwa [pow_zero, Nat.one_mul]⟩
  | succ k ih =>
    obtain ⟨s, hs, hpower⟩ := h.sq
    obtain ⟨r, hr, hpower'⟩ := ih hpower
    refine ⟨r, bind_of_eq_some hs hr, ?_⟩
    rwa [pow_succ, Nat.mul_assoc]

theorem feInvert_eq (hz : z.Within tight) :
    ∃ r, feInvert z = some r ∧ r.Within tight ∧ r.residue = z.residue ^ (p - 2) := by
  have hone : Power z 1 z := ⟨hz, (pow_one _).symm⟩
  obtain ⟨a, ha, ha'⟩ := hone.sq
  obtain ⟨b, hb, hb'⟩ := ha'.sq
  obtain ⟨c, hc, hc'⟩ := hb'.sq
  obtain ⟨d, hd, hd'⟩ := hone.mul hc'
  obtain ⟨t0, h0, h0'⟩ := ha'.mul hd'
  obtain ⟨e, he, he'⟩ := h0'.sq
  obtain ⟨f, hf, hf'⟩ := hd'.mul he'
  obtain ⟨g, hg, hg'⟩ := hf'.sq
  obtain ⟨g₁, hg₁, hg₁'⟩ := hg'.sqTimes 4
  obtain ⟨i, hi, hi'⟩ := hg₁'.mul hf'
  obtain ⟨j, hj, hj'⟩ := hi'.sq
  obtain ⟨j₁, hj₁, hj₁'⟩ := hj'.sqTimes 9
  obtain ⟨k, hk, hk'⟩ := hj₁'.mul hi'
  obtain ⟨l, hl, hl'⟩ := hk'.sq
  obtain ⟨l₁, hl₁, hl₁'⟩ := hl'.sqTimes 19
  obtain ⟨m, hm, hm'⟩ := hl₁'.mul hk'
  obtain ⟨m₁, hm₁, hm₁'⟩ := hm'.sqTimes 10
  obtain ⟨n, hn, hn'⟩ := hm₁'.mul hi'
  obtain ⟨o, ho, ho'⟩ := hn'.sq
  obtain ⟨o₁, ho₁, ho₁'⟩ := ho'.sqTimes 49
  obtain ⟨q, hq, hq'⟩ := ho₁'.mul hn'
  obtain ⟨r, hr, hr'⟩ := hq'.sq
  obtain ⟨r₁, hr₁, hr₁'⟩ := hr'.sqTimes 99
  obtain ⟨s, hs, hs'⟩ := hr₁'.mul hq'
  obtain ⟨s₁, hs₁, hs₁'⟩ := hs'.sq
  obtain ⟨s₂, hs₂, hs₂'⟩ := hs₁'.sqTimes 49
  obtain ⟨u, hu, hu'⟩ := hs₂'.mul hn'
  obtain ⟨v, hv, hv'⟩ := hu'.sq
  obtain ⟨v₁, hv₁, hv₁'⟩ := hv'.sqTimes 4
  obtain ⟨w, hw, hw'⟩ := hv₁'.mul h0'
  refine ⟨w, ?_, hw'.within, hw'.residue⟩
  rw [feInvert]
  exact bind_of_eq_some ha <| bind_of_eq_some hb <| bind_of_eq_some hc <| bind_of_eq_some hd <|
    bind_of_eq_some h0 <| bind_of_eq_some he <| bind_of_eq_some hf <| bind_of_eq_some hg <|
    bind_of_eq_some hg₁ <| bind_of_eq_some hi <| bind_of_eq_some hj <| bind_of_eq_some hj₁ <|
    bind_of_eq_some hk <| bind_of_eq_some hl <| bind_of_eq_some hl₁ <| bind_of_eq_some hm <|
    bind_of_eq_some hm₁ <| bind_of_eq_some hn <| bind_of_eq_some ho <| bind_of_eq_some ho₁ <|
    bind_of_eq_some hq <| bind_of_eq_some hr <| bind_of_eq_some hr₁ <| bind_of_eq_some hs <|
    bind_of_eq_some hs₁ <| bind_of_eq_some hs₂ <| bind_of_eq_some hu <| bind_of_eq_some hv <|
    bind_of_eq_some hv₁ <| hw

-- ---------------------------------------------------------------------------
-- Exchanges
-- ---------------------------------------------------------------------------

/-- A condition as the argument of `fe_cswap`. -/
def flag (b : Bool) : UInt32 := if b then 1 else 0

theorem flag_xor (a b : Bool) : flag a ^^^ flag b = flag (a ^^ b) := by
  cases a <;> cases b <;> decide

theorem toInt_ofInt32 (h : -2 ^ 31 ≤ x) (h' : x < 2 ^ 31) : (BitVec.ofInt 32 x).toInt = x :=
  BitVec.toInt_ofInt_eq_self (by decide) h h'

theorem cswapLimb_eq (swap : Bool) (hf : -2 ^ 31 ≤ f ∧ f < 2 ^ 31) (hg : -2 ^ 31 ≤ g ∧ g < 2 ^ 31) :
    cswapLimb (0 - flag swap) f g = if swap then (g, f) else (f, g) := by
  have hmask : (0 - flag swap).toBitVec = if swap then BitVec.allOnes 32 else 0 := by
    cases swap <;> decide
  rw [cswapLimb, hmask]
  cases swap with
  | false =>
    simp only [Bool.false_eq_true, if_false, BitVec.and_zero, BitVec.ofNat_eq_ofNat,
      BitVec.xor_zero, toInt_ofInt32 hf.1 hf.2, toInt_ofInt32 hg.1 hg.2]
  | true =>
    simp only [if_true, BitVec.and_allOnes, toInt_ofInt32 hg.1 hg.2,
      ← BitVec.xor_assoc, BitVec.xor_self, BitVec.zero_xor]
    rw [BitVec.xor_comm (BitVec.ofInt 32 g), BitVec.xor_assoc, BitVec.xor_self, BitVec.xor_zero,
      toInt_ofInt32 hf.1 hf.2]

theorem feCswap_eq (swap : Bool) (hf : f.Within tight) (hg : g.Within tight) :
    feCswap f g (flag swap) = if swap then (g, f) else (f, g) := by
  have hlimb {x y : Int} (hx : |x| ≤ 2 * tight) (hy : |y| ≤ 2 * tight) :
      cswapLimb (0 - flag swap) x y = if swap then (y, x) else (x, y) := by
    have h₁ := abs_le.mp hx
    have h₂ := abs_le.mp hy
    rw [tight] at h₁ h₂
    exact cswapLimb_eq swap (by omega) (by omega)
  have hf' := hf.below (by decide)
  have hg' := hg.below (by decide)
  simp only [feCswap, hlimb hf'.t0 hg'.t0, hlimb hf'.t1 hg'.t1, hlimb hf'.t2 hg'.t2,
    hlimb hf'.t3 hg'.t3, hlimb hf'.t4 hg'.t4, hlimb hf'.t5 hg'.t5, hlimb hf'.t6 hg'.t6,
    hlimb hf'.t7 hg'.t7, hlimb hf'.t8 hg'.t8, hlimb hf'.t9 hg'.t9]
  cases swap <;> rfl

-- ---------------------------------------------------------------------------
-- The ladder
-- ---------------------------------------------------------------------------

theorem scalarBit_eq (e : Bytes) (pos : Nat) : scalarBit e pos = flag ((fromLE e).testBit pos) := by
  have hpos : pos &&& 7 = pos % 8 := Nat.and_two_pow_sub_one_eq_mod pos 3
  rw [testBit_fromLE, stringBit, scalarBit, hpos, Nat.testBit]
  generalize (e.getD (pos / 8) 0).toNat >>> (pos % 8) = n
  rw [Nat.one_and_eq_mod_two]
  obtain h | h := Nat.mod_two_eq_zero_or_one n <;> rw [h] <;> rfl

/-- The numbers of the ladder that the limbs hold, with the bit of the round before. -/
structure Holds (s : Rfc7748.Ladder Fe × UInt32) (l : Rfc7748.Ladder (ZMod p) × Bool) : Prop where
  x2 : s.1.x2.Within tight ∧ s.1.x2.residue = l.1.x2
  z2 : s.1.z2.Within tight ∧ s.1.z2.residue = l.1.z2
  x3 : s.1.x3.Within tight ∧ s.1.x3.residue = l.1.x3
  z3 : s.1.z3.Within tight ∧ s.1.z3.residue = l.1.z3
  swap : s.2 = flag l.2

theorem Holds.cswap (h : Holds s l) (bit : Bool) :
    ∃ x2 x3 z2 z3, feCswap s.1.x2 s.1.x3 (flag bit) = (x2, x3) ∧
      feCswap s.1.z2 s.1.z3 (flag bit) = (z2, z3) ∧
      Holds (⟨x2, z2, x3, z3⟩, s.2) (Rfc7748.cswap bit l.1, l.2) := by
  rw [feCswap_eq bit h.x2.1 h.x3.1, feCswap_eq bit h.z2.1 h.z3.1]
  cases bit with
  | false => exact ⟨_, _, _, _, rfl, rfl, h.x2, h.z2, h.x3, h.z3, h.swap⟩
  | true => exact ⟨_, _, _, _, rfl, rfl, h.x3, h.z3, h.x2, h.z2, h.swap⟩

theorem ladderRound_eq (hx1 : x1.Within tight) (h : Holds s l) (e : Bytes) (pos : Nat) :
    ∃ s', ladderRound x1 e pos s = some s' ∧
      Holds s' (Rfc7748.turn 121665 x1.residue l ((fromLE e).testBit pos)) := by
  generalize hbit : (fromLE e).testBit pos = bit
  obtain ⟨x2, x3, z2, z3, hswapX, hswapZ, hs⟩ := h.cswap (l.2 ^^ bit)
  rw [Rfc7748.turn]
  generalize Rfc7748.cswap (l.2 ^^ bit) l.1 = t at hs
  obtain ⟨⟨wx2, rx2⟩, ⟨wz2, rz2⟩, ⟨wx3, rx3⟩, ⟨wz3, rz3⟩, -⟩ := hs
  have hroom : tight + tight < 2 ^ 30 := by decide
  have hsum : tight + tight ≤ loose := by decide
  have htight : tight ≤ loose := by decide
  obtain ⟨d, hd, wd, rd⟩ := feSub_eq wx3 wz3 hroom
  obtain ⟨b, hb, wb, rb⟩ := feSub_eq wx2 wz2 hroom
  obtain ⟨a, ha, wa, ra⟩ := feAdd_eq wx2 wz2 hroom
  obtain ⟨c, hc, wc, rc⟩ := feAdd_eq wx3 wz3 hroom
  obtain ⟨da, hda, wda, rda⟩ := feMul_eq (wd.mono hsum) (wa.mono hsum)
  obtain ⟨cb, hcb, wcb, rcb⟩ := feMul_eq (wc.mono hsum) (wb.mono hsum)
  obtain ⟨bb, hbb, wbb, rbb⟩ := feSq_eq (wb.mono hsum)
  obtain ⟨aa, haa, waa, raa⟩ := feSq_eq (wa.mono hsum)
  obtain ⟨u, hu, wu, ru⟩ := feAdd_eq wda wcb hroom
  obtain ⟨v, hv, wv, rv⟩ := feSub_eq wda wcb hroom
  obtain ⟨nx2, hnx2, wnx2, rnx2⟩ := feMul_eq (waa.mono htight) (wbb.mono htight)
  obtain ⟨diff, hdiff, wdiff, rdiff⟩ := feSub_eq waa wbb hroom
  obtain ⟨vv, hvv, wvv, rvv⟩ := feSq_eq (wv.mono hsum)
  obtain ⟨m, hm, wm, rm⟩ := feMul121666_eq (wdiff.mono (show tight + tight ≤ wide by decide))
  obtain ⟨nx3, hnx3, wnx3, rnx3⟩ := feSq_eq (wu.mono hsum)
  obtain ⟨w, hw, ww, rw'⟩ := feAdd_eq wbb wm hroom
  obtain ⟨nz3, hnz3, wnz3, rnz3⟩ := feMul_eq (hx1.mono htight) (wvv.mono htight)
  obtain ⟨nz2, hnz2, wnz2, rnz2⟩ := feMul_eq (wdiff.mono hsum) (ww.mono hsum)
  refine ⟨(⟨nx2, nz2, nx3, nz3⟩, flag bit), ?_, ⟨wnx2, ?_⟩, ⟨wnz2, ?_⟩, ⟨wnx3, ?_⟩, ⟨wnz3, ?_⟩, rfl⟩
  · rw [ladderRound, scalarBit_eq, hbit, h.swap, flag_xor]
    dsimp only
    rw [hswapX, hswapZ]
    exact bind_of_eq_some hd <| bind_of_eq_some hb <| bind_of_eq_some ha <| bind_of_eq_some hc <|
      bind_of_eq_some hda <| bind_of_eq_some hcb <| bind_of_eq_some hbb <| bind_of_eq_some haa <|
      bind_of_eq_some hu <| bind_of_eq_some hv <| bind_of_eq_some hnx2 <| bind_of_eq_some hdiff <|
      bind_of_eq_some hvv <| bind_of_eq_some hm <| bind_of_eq_some hnx3 <| bind_of_eq_some hw <|
      bind_of_eq_some hnz3 <| bind_of_eq_some hnz2 rfl
  · rw [rnx2, raa, rbb, ra, rb, rx2, rz2]
    rfl
  · rw [rnz2, rdiff, rw', rm, rdiff, raa, rbb, ra, rb, rx2, rz2]
    dsimp only [Rfc7748.round]
    ring
  · rw [rnx3, ru, rda, rcb, rd, ra, rc, rb, rx2, rz2, rx3, rz3]
    rfl
  · rw [rnz3, rvv, rv, rda, rcb, rd, ra, rc, rb, rx2, rz2, rx3, rz3]
    rfl

theorem ladderLoop_eq (hx1 : x1.Within tight) (e : Bytes) (n : Nat) :
    ∀ s l, Holds s l → ∃ s', ladderLoop x1 e n s = some s' ∧
      Holds s' (((List.range n).reverse.map (fromLE e).testBit).foldl (Rfc7748.turn 121665 x1.residue) l) := by
  induction n with
  | zero => exact fun s l h => ⟨s, rfl, h⟩
  | succ pos ih =>
    intro s l h
    obtain ⟨s₁, hround, h₁⟩ := ladderRound_eq hx1 h e pos
    obtain ⟨s₂, hloop, h₂⟩ := ih s₁ _ h₁
    refine ⟨s₂, bind_of_eq_some hround hloop, ?_⟩
    rwa [List.range_succ, List.reverse_append, List.reverse_singleton, List.singleton_append,
      List.map_cons, List.foldl_cons]

theorem within_fe0 : fe0.Within tight := by
  constructor <;> decide

theorem within_fe1 : fe1.Within tight := by
  constructor <;> decide

theorem residue_fe0 : fe0.residue = 0 := by
  rw [Fe.residue, show fe0.value = 0 from rfl, Int.cast_zero]

theorem residue_fe1 : fe1.residue = 1 := by
  rw [Fe.residue, show fe1.value = 1 from rfl, Int.cast_one]

theorem rfc7748_mul_eq (k u : Nat) :
    Rfc7748.mul Rfc7748.curve25519 k u =
      ((Rfc7748.ladder (121665 : ZMod p) u (Rfc7748.scalarBits 255 k)).x2 *
        (Rfc7748.ladder (121665 : ZMod p) u (Rfc7748.scalarBits 255 k)).z2 ^ (p - 2)).val := rfl

theorem curve25519ScalarMultGeneric_eq (scalar : Bytes) (hpoint : point.length = 32) :
    curve25519ScalarMultGeneric scalar point =
      some (toLE 32 (Rfc7748.mul Rfc7748.curve25519 (fromLE scalar) (fromLE point % 2 ^ 255))) := by
  obtain ⟨x1, hx1, wx1, rx1⟩ := feFromBytes_eq hpoint
  have hstart : Holds (⟨fe1, fe0, x1, fe1⟩, 0) (⟨1, 0, x1.residue, 1⟩, false) :=
    ⟨⟨within_fe1, residue_fe1⟩, ⟨within_fe0, residue_fe0⟩, ⟨wx1, rfl⟩, ⟨within_fe1, residue_fe1⟩,
      rfl⟩
  obtain ⟨⟨s, swap⟩, hloop, hs⟩ := ladderLoop_eq wx1 scalar 255 _ _ hstart
  obtain ⟨x2, x3, z2, z3, hswapX, hswapZ, hcswap⟩ := hs.cswap _
  obtain ⟨inverse, hinvert, winvert, rinvert⟩ := feInvert_eq hcswap.z2.1
  obtain ⟨r, hmul, wr, rr⟩ := feMul_eq (hcswap.x2.1.mono (by decide)) (winvert.mono (by decide))
  have hbytes := feToBytes_eq (wr.mono (show tight ≤ wide by decide))
  rw [curve25519ScalarMultGeneric]
  refine bind_of_eq_some hx1 <| bind_of_eq_some hloop ?_
  dsimp only
  rw [show swap = flag _ from hs.swap, hswapX, hswapZ]
  refine bind_of_eq_some hinvert <| bind_of_eq_some hmul ?_
  rw [hbytes, rr, rinvert, hcswap.x2.2, hcswap.z2.2, rfc7748_mul_eq, rx1]
  rfl

-- ---------------------------------------------------------------------------
-- Byte strings with the highest byte first
-- ---------------------------------------------------------------------------

theorem getD_exchange (b : Bytes) (hi : i < b.length) (hj : j < b.length) (x y : UInt8) (k : Nat) :
    ((b.set j x).set i y).getD k 0 = if k = i then y else if k = j then x else b.getD k 0 := by
  simp only [List.getD_eq_getElem?_getD, List.getElem?_set, List.length_set, hi, hj, if_true,
    eq_comm (a := i), eq_comm (a := j)]
  split
  · rfl
  split <;> rfl

theorem reverseLoop_spec (n : Nat) :
    ∀ (b : Bytes) (first last : Nat), first ≤ last → last ≤ b.length →
    last - first < 2 * n →
    ∃ b', reverseLoop n b first last = some b' ∧ b'.length = b.length ∧
      ∀ i, b'.getD i 0 = if first ≤ i ∧ i < last then b.getD (first + last - 1 - i) 0
        else b.getD i 0 := by
  induction n with
  | zero => intro b first last _ _ hn; omega
  | succ n ih =>
    intro b first last hle hlast hn
    rw [reverseLoop]
    split
    · refine ⟨b, rfl, rfl, fun i => ?_⟩
      rw [if_neg (by omega)]
    split
    · refine ⟨b, rfl, rfl, fun i => ?_⟩
      split
      · rw [show first + last - 1 - i = i by omega]
      · rfl
    · rename_i hne hne'
      obtain ⟨b', hb', hlen, hget⟩ :=
        ih ((b.set (last - 1) (b.getD first 0)).set first (b.getD (last - 1) 0))
        (first + 1) (last - 1) (by omega) (by simp only [List.length_set]; omega) (by omega)
      refine ⟨b', hb', by rw [hlen, List.length_set, List.length_set], fun i => ?_⟩
      rw [hget, getD_exchange b (by omega) (by omega), getD_exchange b (by omega) (by omega)]
      by_cases hin : first ≤ i ∧ i < last
      · rw [if_pos hin]
        by_cases hinner : first + 1 ≤ i ∧ i < last - 1
        · rw [if_pos hinner, if_neg (by omega), if_neg (by omega)]
          congr 1
          omega
        · rw [if_neg hinner]
          by_cases hfirst : i = first
          · rw [if_pos hfirst, hfirst]
            congr 1
            omega
          · rw [if_neg hfirst, if_pos (by omega)]
            congr 1
            omega
      · rw [if_neg (by omega), if_neg (by omega), if_neg (by omega), if_neg hin]

theorem reverseInt_eq (hb : b.length = 32) : reverseInt b = some b.reverse := by
  obtain ⟨b', hb', hlen, hget⟩ := reverseLoop_spec 17 b 0 32 (by decide) (by omega) (by decide)
  rw [reverseInt, hb']
  congr 1
  refine List.ext_getElem (by rw [hlen, List.length_reverse]) fun i h₁ h₂ => ?_
  have h := hget i
  rw [if_pos (by omega), List.getD_eq_getElem _ _ h₁, List.getD_eq_getElem _ _ (by omega)] at h
  rw [h, List.getElem_reverse]
  congr 1
  omega

theorem mul_lt (k u : Nat) : Rfc7748.mul Rfc7748.curve25519 k u < 256 ^ 32 := by
  rw [rfc7748_mul_eq]
  exact Nat.lt_trans (ZMod.val_lt _) (by decide)

theorem toBE_eq_replicate_iff (hm : m < 256 ^ 32) : toBE 32 m = List.replicate 32 0 ↔ m = 0 := by
  constructor
  · intro h
    exact toBE_injective_of_lt hm (by decide) (h.trans (by decide))
  · rintro rfl
    decide

theorem scalarmultCurve25519_of_mul (hscalar : scalar.length = 32) (hpoint : point.length = 32)
    (hm : Rfc7748.mul Rfc7748.curve25519 (fromBE scalar) (fromBE point % 2 ^ 255) = m) :
    scalarmultCurve25519 scalar point = some (toBE 32 m, if m = 0 then -1 else 0) := by
  have hle (bs : Bytes) : fromLE bs.reverse = fromBE bs := by rw [fromLE, List.reverse_reverse]
  have hlen : point.reverse.length = 32 := by rw [List.length_reverse, hpoint]
  have hgeneric := curve25519ScalarMultGeneric_eq scalar.reverse hlen
  rw [hle, hle] at hgeneric
  have hlt := mul_lt (fromBE scalar) (fromBE point % 2 ^ 255)
  rw [hm] at hgeneric hlt
  rw [scalarmultCurve25519]
  refine bind_of_eq_some (reverseInt_eq hscalar) <| bind_of_eq_some (reverseInt_eq hpoint) <|
    bind_of_eq_some hgeneric <| bind_of_eq_some (reverseInt_eq (length_toLE 32 m)) ?_
  rw [toLE, List.reverse_reverse, Option.pure_def]
  simp only [toBE_eq_replicate_iff hlt]

/-- Whatever the bits of the scalar, the result is that of the ladder of RFC 7748 without the
decoding of the scalar: nothing overflows, the highest bit of the coordinate is not read, and
the error is for the coordinate zero. -/
theorem scalarmultCurve25519_eq (hscalar : scalar.length = 32) (hpoint : point.length = 32) :
    scalarmultCurve25519 scalar point =
      some (toBE 32 (Rfc7748.mul Rfc7748.curve25519 (fromBE scalar) (fromBE point % 2 ^ 255)),
        if Rfc7748.mul Rfc7748.curve25519 (fromBE scalar) (fromBE point % 2 ^ 255) = 0 then -1
          else 0) :=
  scalarmultCurve25519_of_mul hscalar hpoint rfl

theorem scalarmultCurve25519_basePoint :
    (List.replicate 32 (1 : UInt8)).length = 32 ∧ (List.replicate 31 (0 : UInt8) ++ [9]).length =
      32 ∧
      scalarmultCurve25519 (List.replicate 32 1) (List.replicate 31 0 ++ [9]) =
        some (toBE 32 (Rfc7748.mul Rfc7748.curve25519 (fromBE (List.replicate 32 1))
            (fromBE (List.replicate 31 0 ++ [9]) % 2 ^ 255)),
          if Rfc7748.mul Rfc7748.curve25519 (fromBE (List.replicate 32 1))
            (fromBE (List.replicate 31 0 ++ [9]) % 2 ^ 255) = 0 then -1 else 0) :=
  ⟨rfl, rfl, scalarmultCurve25519_eq rfl rfl⟩

-- ---------------------------------------------------------------------------
-- `sys_cx_ecfp_scalar_mult`
-- ---------------------------------------------------------------------------

/-- The text of `errx`, after which the emulator ends. -/
abbrev Exit := String

/-- `sys_cx_ecfp_scalar_mult` for Curve25519: the bytes of `P` in the end, and the length. -/
def sysCxEcfpScalarMult (P : Bytes) (pLen : Nat) (k : Bytes) (kLen : Nat) :
    Option (Except Exit (Bytes × Nat)) :=
  if P.getD 0 0 ≠ 0x02 then
    some (.error "cx_ecfp_scalar_mult: only compressed points for Curve25519 are supported.")
  else if pLen ≠ 32 + 1 ∨ kLen ≠ 32 then
    some (.error "cx_ecfp_scalar_mult: expected P_len == 33 and k_len == 32")
  else do
    let (out, result) ← scalarmultCurve25519 (k.take 32) ((P.drop 1).take 32)
    if result ≠ 0 then return .error "cx_ecfp_scalar_mult: scalarmult_x25519 failed"
    return .ok (P.take 1 ++ out ++ P.drop 33, pLen)

def unmarked (u : Bytes) : Bytes := u.modify 31 (· &&& 127)

theorem getD_unmarked (hu : u.length = 32) (i : Nat) :
    ((unmarked u).getD i 0).toNat = if i = 31 then (u.getD 31 0).toNat % 128
      else (u.getD i 0).toNat := by
  rw [unmarked, List.getD_eq_getElem?_getD, List.getElem?_modify, List.getD_eq_getElem?_getD,
    List.getD_eq_getElem?_getD]
  by_cases hi : i = 31
  · subst hi
    rw [List.getElem?_eq_getElem (by omega)]
    exact Nat.and_two_pow_sub_one_eq_mod _ 7
  · simp [hi, Ne.symm hi]

theorem fromLE_unmarked (hu : u.length = 32) : fromLE (unmarked u) = fromLE u % 2 ^ 255 := by
  have hlen : (unmarked u).length = 32 := by rw [unmarked, List.length_modify, hu]
  have hlow : ∑ i ∈ Finset.range 31, ((unmarked u).getD i 0).toNat * 256 ^ i =
      ∑ i ∈ Finset.range 31, (u.getD i 0).toNat * 256 ^ i := by
    refine Finset.sum_congr rfl fun i hi => ?_
    rw [getD_unmarked hu, if_neg (Nat.ne_of_lt (Finset.mem_range.mp hi))]
  rw [fromLE_mod hu, fromLE_eq_sum, hlen, Finset.sum_range_succ, hlow, getD_unmarked hu, if_pos rfl]

theorem decodeUCoordinate_eq (hu : u.length = 32) :
    Rfc7748.decodeUCoordinate u 255 = fromLE u % 2 ^ 255 := by
  have hunmarked : Rfc7748.decodeUCoordinate u 255 = fromLE ((unmarked u).take 32) := by
    rw [Rfc7748.decodeUCoordinate, hu]
    rfl
  rw [hunmarked, List.take_of_length_le (by rw [unmarked, List.length_modify, hu]),
    fromLE_unmarked hu]

/-- For a scalar that RFC 7748 decodes to itself, the product is X25519. -/
theorem sysCxEcfpScalarMult_x25519 (hk : k.length = 32) (hu : u.length = 32)
    (hclamped : Rfc7748.decodeScalar25519 k = fromLE k) :
    sysCxEcfpScalarMult (0x02 :: u.reverse) 33 k.reverse 32 =
      some (if Rfc7748.x25519 k u = 0 then .error "cx_ecfp_scalar_mult: scalarmult_x25519 failed"
        else .ok (0x02 :: toBE 32 (Rfc7748.x25519 k u), 33)) := by
  have hmul : Rfc7748.mul Rfc7748.curve25519 (fromBE k.reverse) (fromBE u.reverse % 2 ^ 255) =
      Rfc7748.x25519 k u := by
    rw [Rfc7748.x25519, hclamped, decodeUCoordinate_eq hu]
    rfl
  have hscalar : k.reverse.length = 32 := by rw [List.length_reverse, hk]
  have hpoint : u.reverse.length = 32 := by rw [List.length_reverse, hu]
  have hproduct := scalarmultCurve25519_of_mul hscalar hpoint hmul
  generalize Rfc7748.x25519 k u = m at *
  have hdrop : (0x02 :: u.reverse).drop 33 = [] :=
    List.drop_eq_nil_of_le (by rw [List.length_cons, hpoint])
  rw [sysCxEcfpScalarMult, if_neg (by simp), if_neg (by simp), List.drop_one, List.tail_cons,
    List.take_of_length_le (Nat.le_of_eq hpoint),
    List.take_of_length_le (Nat.le_of_eq (List.length_reverse.trans hk)), hdrop]
  refine bind_of_eq_some hproduct ?_
  by_cases hm : m = 0
  · simp [hm]
  · simp [hm]

def clampedScalar : Bytes := 8 :: List.replicate 30 0 ++ [64]

def nine : Bytes := 9 :: List.replicate 31 0

theorem sysCxEcfpScalarMult_nine :
    sysCxEcfpScalarMult (0x02 :: nine.reverse) 33 clampedScalar.reverse 32 =
      some (if Rfc7748.x25519 clampedScalar nine = 0 then
          .error "cx_ecfp_scalar_mult: scalarmult_x25519 failed"
        else .ok (0x02 :: toBE 32 (Rfc7748.x25519 clampedScalar nine), 33)) :=
  sysCxEcfpScalarMult_x25519 (by decide) (by decide) (by decide)

end Speculos.Curve25519
