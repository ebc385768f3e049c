import Speculos.Bn.BitOps
import Speculos.Ec.CxMontgomery
import Speculos.Ec.EdwardsCurve
import Speculos.Ec.ScalarBits
import Speculos.Lib.Rfc7748

/-!
# The ladder of Curve25519 and Curve448

The numbers of `cx_montgomery_mul_coordinate` in its rounds: each of them is a round of the ladder
of RFC 7748, and the coordinate and the scalar are decoded as it is done there.
-/

namespace Speculos.Ec

open Lib Bn

-- ---------------------------------------------------------------------------
-- The curves
-- ---------------------------------------------------------------------------

/-- The curves of the ladder. -/
inductive MontCurve
  | curve25519
  | curve448
  deriving DecidableEq, Repr

namespace MontCurve

def domain : MontCurve → CxCurveDomain
  | .curve25519 => Ec.curve25519
  | .curve448 => Ec.curve448

def params : MontCurve → Rfc7748.Params
  | .curve25519 => Rfc7748.curve25519
  | .curve448 => Rfc7748.curve448

def decodeScalar : MontCurve → Bytes → Nat
  | .curve25519 => Rfc7748.decodeScalar25519
  | .curve448 => Rfc7748.decodeScalar448

/-- X25519 or X448, of a scalar and a coordinate. -/
def xFunction : MontCurve → Bytes → Bytes → Nat
  | .curve25519 => Rfc7748.x25519
  | .curve448 => Rfc7748.x448

theorem xFunction_eq (c : MontCurve) (k us : Bytes) :
    c.xFunction k us =
      Rfc7748.mul c.params (c.decodeScalar k) (Rfc7748.decodeUCoordinate us c.params.bits) := by
  cases c <;> rfl

abbrev p (c : MontCurve) : Nat := c.domain.p

theorem p_eq (c : MontCurve) : c.params.p = c.p := by cases c <;> decide +kernel

theorem p_odd (c : MontCurve) : c.p % 2 = 1 := by cases c <;> decide

theorem two_le_p (c : MontCurve) : 2 ≤ c.p := by cases c <;> decide

theorem p_lt (c : MontCurve) : c.p < 256 ^ c.domain.length.toNat := by cases c <;> decide

theorem length_le (c : MontCurve) : c.domain.length.toNat ≤ 56 := by cases c <;> decide

theorem cxEcdomain_domain (c : MontCurve) : cxEcdomain c.domain.curve = some c.domain := by
  cases c <;> decide

theorem a24_eq (c : MontCurve) : (c.domain.a - 2) / 4 = c.params.a24 := by cases c <;> decide

end MontCurve

variable {ssl : Openssl} {q : Nat} {mpi : MontVar → Slot} {m : Mpis} {w : UInt32}

-- ---------------------------------------------------------------------------
-- Decoding
-- ---------------------------------------------------------------------------

theorem cxMpiInit_exact (hssl : ssl.Exact) (x : Slot) {bytes : Bytes}
    (hlen : bytes.length = n.toNat) (m : Mpis) :
    cxMpiInit ssl x bytes n m = (.ok, m.set x (fromBE bytes)) := by
  rw [cxMpiInit, List.take_of_length_le (Nat.le_of_eq hlen), hssl.bin2bn, write_done]

theorem cxMpiReverse_exact (hssl : ssl.Exact) {x : Slot} {bytes : Bytes}
    (hexport : cxMpiExport ssl w (m x) n = .ok bytes) (hlen : bytes.length = n.toNat)
    (stack : Nat → UInt8) : cxMpiReverse ssl stack w x n m = m.set x (fromLE bytes) := by
  have hreverse : bytes.reverse.length = n.toNat := by rw [List.length_reverse, hlen]
  rw [cxMpiReverse, exportedOr, hexport]
  simp only [cxMpiInit_exact hssl x hreverse, cxMpiSetU32, set_set]
  rfl

section

variable (hssl : ssl.Exact) (hword : w ≠ 0) (hsmall : w.toNat ≤ 2048)
include hssl hword hsmall

theorem cxMpiExport_fromBE {bytes : Bytes} (hlen : bytes.length = n.toNat)
    (hshort : n.toNat ≤ 1024) :
    cxMpiExport ssl w (fromBE bytes : Nat) n = .ok bytes := by
  have hlt := fromBE_lt bytes
  rw [hlen] at hlt
  have hpadded := padded_of_short hssl hword hsmall (Nat.le_trans (byteLength_le hlt) hshort)
  rw [export_of_padded hssl hpadded, Nat.mod_eq_of_lt hlt, ← hlen, toBE_fromBE]

theorem cxDecodeCoordinate_exact (c : MontCurve) {u : Slot} {us : Bytes}
    (hexport : cxMpiExport ssl w (m u) c.domain.length = .ok us)
    (hlen : us.length = c.domain.length.toNat) (stack : Nat → UInt8) :
    cxDecodeCoordinate ssl stack w c.domain.curve u c.domain.length m =
      m.set u (Rfc7748.decodeUCoordinate us c.params.bits : Nat) := by
  cases c with
  | curve25519 =>
    have hmasked : (us.modify 31 (· &&& 0x7F)).length = Ec.curve25519.length.toNat := by
      rw [List.length_modify, hlen]
      rfl
    have hdecode : Rfc7748.decodeUCoordinate us 255 = fromLE (us.modify 31 (· &&& 0x7F)) := by
      rw [Rfc7748.decodeUCoordinate, Rfc7748.decodeLittleEndian, if_pos (by decide), hlen]
      exact congrArg fromLE (List.take_of_length_le (Nat.le_of_eq hmasked))
    have hagain := cxMpiExport_fromBE hssl hword hsmall hmasked (by decide)
    rw [← set_self m u (fromBE (us.modify 31 (· &&& 0x7F)) : Nat)] at hagain
    have hreverse := cxMpiReverse_exact hssl hagain hmasked stack
    rw [set_set, ← hdecode] at hreverse
    rw [cxDecodeCoordinate, exportedOr, hexport]
    exact (congrArg (cxMpiReverse ssl stack w u Ec.curve25519.length ·)
      (congrArg Prod.snd (cxMpiInit_exact hssl u hmasked m))).trans hreverse
  | curve448 =>
    have hdecode : Rfc7748.decodeUCoordinate us 448 = fromLE us := by
      rw [Rfc7748.decodeUCoordinate, Rfc7748.decodeLittleEndian, if_neg (by decide)]
      exact congrArg fromLE (List.take_of_length_le (Nat.le_of_eq hlen))
    have hreverse := cxMpiReverse_exact hssl hexport hlen stack
    rw [← hdecode] at hreverse
    exact hreverse

end

theorem cxDecodeScalar_exact (c : MontCurve) {k : Bytes} (hlen : k.length = c.domain.length.toNat) :
    (cxDecodeScalar c.domain.curve k).length = c.domain.length.toNat ∧
      fromBE (cxDecodeScalar c.domain.curve k) = c.decodeScalar k := by
  cases c with
  | curve25519 =>
    let masked := ((k.modify 0 (· &&& 0xF8)).modify 31 (· &&& 0x7F)).modify 31 (· ||| 0x40)
    have hmasked : masked.length = 32 := by
      simp only [masked, List.length_modify, hlen]
      rfl
    have htake := List.take_of_length_le (Nat.le_of_eq hmasked)
    exact ⟨List.length_reverse.trans hmasked, (congrArg fromLE htake).symm⟩
  | curve448 =>
    let masked := (k.modify 0 (· &&& 0xFC)).modify 55 (· ||| 0x80)
    have hmasked : masked.length = 56 := by
      simp only [masked, List.length_modify, hlen]
      rfl
    have htake := List.take_of_length_le (Nat.le_of_eq hmasked)
    exact ⟨List.length_reverse.trans hmasked, (congrArg fromLE htake).symm⟩

theorem montBits_exact (c : MontCurve) (stack : Nat → UInt8) {k : Bytes}
    (hlen : k.length = c.domain.length.toNat) :
    montBits stack c.domain (cxDecodeScalar c.domain.curve k) =
      Rfc7748.scalarBits c.params.bits (c.decodeScalar k) := by
  obtain ⟨hlength, hvalue⟩ := cxDecodeScalar_exact c hlen
  have hbits : c.params.bits ≤ 8 * c.domain.length.toNat := by cases c <;> decide
  have hrange : montBits stack c.domain (cxDecodeScalar c.domain.curve k) =
      (List.range c.params.bits).reverse.map
        (scalarBit stack (cxDecodeScalar c.domain.curve k)) := by
    cases c <;> rfl
  rw [hrange, Rfc7748.scalarBits, ← hvalue]
  refine List.map_congr_left fun pos hpos => ?_
  rw [List.mem_reverse, List.mem_range] at hpos
  have hinside : pos < 8 * (cxDecodeScalar c.domain.curve k).length := by
    rw [hlength]
    exact Nat.lt_of_lt_of_le hpos hbits
  rw [scalarBit, if_pos (Nat.div_lt_of_lt_mul hinside), getBit_eq hinside]

-- ---------------------------------------------------------------------------
-- Rounds
-- ---------------------------------------------------------------------------

def ladderAt (q : Nat) (mpi : MontVar → Slot) (m : Mpis) : Rfc7748.Ladder (ZMod q) :=
  ⟨m (mpi .p1x), m (mpi .p1z), m (mpi .p2x), m (mpi .p2z)⟩

/-- The numbers that no round changes, and the signs of the denominators. -/
structure InLadder (q : Nat) (mpi : MontVar → Slot) (a24 x1 : ZMod q) (m : Mpis) : Prop where
  n : m (mpi .n) = q
  a : ((m (mpi .a) : Int) : ZMod q) = a24
  x : ((m (mpi .x) : Int) : ZMod q) = x1
  v0 : m (mpi .v0) = 0
  p1z : 0 ≤ m (mpi .p1z)
  p2z : 0 ≤ m (mpi .p2z)

theorem stepProgram_apply {K : Type} [CommRing K] (ρ : MontVar → K) (h : ρ .v0 = 0) :
    (⟨Instr.exec ModOp.apply stepProgram ρ .p1x, Instr.exec ModOp.apply stepProgram ρ .p1z,
      Instr.exec ModOp.apply stepProgram ρ .p2x, Instr.exec ModOp.apply stepProgram ρ .p2z⟩ :
        Rfc7748.Ladder K) =
      Rfc7748.round (ρ .a) (ρ .x) ⟨ρ .p1x, ρ .p1z, ρ .p2x, ρ .p2z⟩ := by
  simp only [Instr.exec, stepProgram, List.foldl_cons, List.foldl_nil, Instr.step,
    Function.update_self, Function.update_of_ne, ne_eq, reduceCtorEq, not_false_eq_true,
    ModOp.apply, h, add_zero, Rfc7748.round, pow_two]
  congr 1
  ring

section

variable (hinj : Function.Injective mpi)
include hinj

variable {a24 x1 : ZMod q}

theorem InLadder.swap (h : InLadder q mpi a24 x1 m) (c : Bool) :
    ∃ m', cxMpiSwap (mpi .p1z) (mpi .p2z) c (cxMpiSwap (mpi .p1x) (mpi .p2x) c m) = m' ∧
      InLadder q mpi a24 x1 m' ∧ ladderAt q mpi m' = Rfc7748.cswap c (ladderAt q mpi m) := by
  refine ⟨_, rfl, ?_⟩
  cases c with
  | false => exact ⟨h, rfl⟩
  | true =>
    simp only [cxMpiSwap, if_true]
    refine ⟨⟨?_, ?_, ?_, ?_, ?_, ?_⟩, ?_⟩
    · simpa [set_at hinj] using h.n
    · simpa [set_at hinj] using h.a
    · simpa [set_at hinj] using h.x
    · simpa [set_at hinj] using h.v0
    · simpa [set_at hinj] using h.p2z
    · simpa [set_at hinj] using h.p1z
    · simp [ladderAt, Rfc7748.cswap, set_at hinj]

variable (hssl : ssl.Exact) (hmod : ssl.ExactModular) (hodd : q % 2 = 1)
include hssl hmod hodd

theorem InLadder.step (h : InLadder q mpi a24 x1 m) (swap bit : Bool) :
    ∃ m', ladderStep ssl mpi (m, swap) bit = (m', bit) ∧ InLadder q mpi a24 x1 m' ∧
      (ladderAt q mpi m', bit) = Rfc7748.turn a24 x1 (ladderAt q mpi m, swap) bit := by
  obtain ⟨m₁, hm₁, h₁, hswap⟩ := h.swap hinj (swap ^^ bit)
  have hmodulus : ∀ i ∈ stepProgram, i.r ≠ MontVar.n := by decide
  have hcomputes := computes_runProgram hssl hmod hodd hinj hmodulus h₁.n
  have hkept (id : MontVar) (hid : ∀ i ∈ stepProgram, i.r ≠ id) :=
    hcomputes.kept (mpi id) fun i hi => hinj.ne (hid i hi)
  have hv0 : ((m₁ (mpi .v0) : Int) : ZMod q) = 0 := by rw [h₁.v0, Int.cast_zero]
  refine ⟨_, by rw [ladderStep, hm₁], ⟨?_, ?_, ?_, ?_, ?_, ?_⟩, ?_⟩
  · rw [hkept .n (by decide), h₁.n]
  · rw [hkept .a (by decide), h₁.a]
  · rw [hkept .x (by decide), h₁.x]
  · rw [hkept .v0 (by decide), h₁.v0]
  · exact (hcomputes.written .p1z (by decide)).1
  · exact (hcomputes.written .p2z (by decide)).1
  · have hround := stepProgram_apply (fun id => ((m₁ (mpi id) : Int) : ZMod q)) hv0
    rw [h₁.a, h₁.x] at hround
    rw [Rfc7748.turn, ← hswap]
    refine congrArg (·, bit) (Eq.trans (Rfc7748.Ladder.ext ?_ ?_ ?_ ?_) hround)
    · exact hcomputes.residue .p1x
    · exact hcomputes.residue .p1z
    · exact hcomputes.residue .p2x
    · exact hcomputes.residue .p2z

theorem InLadder.run (h : InLadder q mpi a24 x1 m) (bits : List Bool) (swap : Bool) :
    ∃ m' swap', bits.foldl (ladderStep ssl mpi) (m, swap) = (m', swap') ∧ InLadder q mpi a24 x1 m' ∧
      (ladderAt q mpi m', swap') = bits.foldl (Rfc7748.turn a24 x1) (ladderAt q mpi m, swap) := by
  induction bits generalizing m swap with
  | nil => exact ⟨m, swap, rfl, h, rfl⟩
  | cons bit bits ih =>
    obtain ⟨m₁, hm₁, h₁, hturn⟩ := h.step hinj hssl hmod hodd swap bit
    rw [List.foldl_cons, List.foldl_cons, hm₁, ← hturn]
    exact ih h₁ bit

end

-- ---------------------------------------------------------------------------
-- The ladder
-- ---------------------------------------------------------------------------

theorem cxMpiRem_exact (hdiv : ssl.ExactDivision) (r : Slot) {d n : Slot} {x : Nat} (hx : m d = x)
    (hn : m n = (q : Nat)) (hq : q ≠ 0) : cxMpiRem ssl r d n m = (.ok, m.set r (x % q : Nat)) := by
  rw [cxMpiRem, hx, hn, hdiv.rem x q hq, write_done]

theorem cxMpiShr_exact (hdiv : ssl.ExactDivision) {x : Slot} (hx : m x = (n : Nat)) (hn : n ≠ 0)
    (hpadded : Padded ssl w n) {k : UInt32} (hk : k.toNat ≤ 8) :
    cxMpiShr ssl w x k m = (.ok, m.set x (n / 2 ^ k.toNat : Nat)) := by
  have hinside := hpadded.inside
  have hbytes : (cxMpiNbytes ssl w n).toNat ≠ 0 := by
    intro hzero
    have hlt := hpadded.lt
    rw [hzero, Nat.pow_zero, Nat.lt_one_iff] at hlt
    exact hn hlt
  have hroom : ¬ k > cxMpiNbytes ssl w n * 8 := by
    rw [gt_iff_lt, UInt32.lt_iff_toNat_lt, UInt32.toNat_mul, Nat.mod_eq_of_lt]
    · change ¬ (cxMpiNbytes ssl w n).toNat * 8 < k.toNat
      omega
    · change (cxMpiNbytes ssl w n).toNat * 8 < 2 ^ 32
      omega
  rw [cxMpiShr, hx, if_neg hroom, hdiv.rshift, write_done]

variable (hinj : Function.Injective mpi) (hssl : ssl.Exact) (hmod : ssl.ExactModular)
  (hdiv : ssl.ExactDivision) (hword : w ≠ 0) (hsmall : w.toNat ≤ 2048)
include hinj hssl hmod hdiv hword hsmall

theorem montLadder_exact (c : MontCurve) {u : Slot} (hu : ∀ id, mpi id ≠ u) (hn : m (mpi .n) = c.p)
    {us : Bytes} (hexport : cxMpiExport ssl w (m u) c.domain.length = .ok us)
    (hus : us.length = c.domain.length.toNat) {k : Bytes} (hk : k.length = c.domain.length.toNat)
    (stack : Nat → UInt8) :
    ∃ m', montLadder ssl stack w c.domain u k mpi m = m' ∧
      InLadder c.p mpi c.params.a24 (Rfc7748.decodeUCoordinate us c.params.bits) m' ∧
      ladderAt c.p mpi m' =
        Rfc7748.ladder (c.params.a24 : ZMod c.p) (Rfc7748.decodeUCoordinate us c.params.bits)
          (Rfc7748.scalarBits c.params.bits (c.decodeScalar k)) := by
  have hdecode := cxDecodeCoordinate_exact hssl hword hsmall c hexport hus stack
  generalize Rfc7748.decodeUCoordinate us c.params.bits = U at hdecode ⊢
  have hpos : c.p ≠ 0 := Nat.ne_of_gt (Nat.lt_of_lt_of_le Nat.zero_lt_two c.two_le_p)
  have hlt : U % c.p < c.p := Nat.mod_lt _ (Nat.pos_of_ne_zero hpos)
  have hpadded {n : Nat} (hn : n < c.p) : Padded ssl w n :=
    padded_of_short hssl hword hsmall (Nat.le_trans (byteLength_le (Nat.lt_trans hn c.p_lt))
      (Nat.le_trans c.length_le (by decide)))
  have ha : c.domain.a < 256 ^ c.domain.length.toNat := by cases c <;> decide
  have hasub : c.domain.a - 2 < c.p ∧ c.domain.a - 2 ≠ 0 ∧ 2 ≤ c.domain.a := by
    cases c <;> decide
  have ha24 : c.params.a24 < c.p := by cases c <;> decide
  have hset := set_at hinj
  let m₀ := m.set u (U : Nat)
  let m₁ := m₀.set (mpi .p2x) (U % c.p : Nat)
  let m₂ := ((m₁.set (mpi .p1x) 1).set (mpi .p1z) 0).set (mpi .p2z) 1
  let m₃ := (m₂.set (mpi .v1) (c.domain.a : Nat)).set (mpi .v2) (2 : Nat)
  let m₄ := m₃.set (mpi .v1) (c.domain.a - 2 : Nat)
  let m₅ := m₄.set (mpi .v1) (c.params.a24 : Nat)
  let m₆ := m₅.set (mpi .x) (U % c.p : Nat)
  let m₇ := (m₆.set (mpi .a) (c.params.a24 : Nat)).set (mpi .v0) 0
  have h₁ : cxMpiRem ssl (mpi .p2x) u (mpi .n) m₀ = (.ok, m₁) :=
    cxMpiRem_exact hdiv _ (set_self ..) ((set_of_ne _ (hu .n) _).trans hn) hpos
  have h₃ : cxMpiInit ssl (mpi .v1) (c.domain.bytes c.domain.a) c.domain.length m₂ =
      (.ok, m₂.set (mpi .v1) (c.domain.a : Nat)) := cxMpiInit_toBE hssl _ ha m₂
  have h₄ : cxMpiSub ssl w (mpi .v1) (mpi .v1) (mpi .v2) m₃ = (.ok, m₄) :=
    cxMpiSub_exact hssl _ (by simp [m₃, hset]) (set_self ..) hasub.2.2
  have h₅ : cxMpiShr ssl w (mpi .v1) 2 m₄ = (.ok, m₅) := by
    have hshr := cxMpiShr_exact (m := m₄) (x := mpi .v1) (k := 2) hdiv (set_self ..) hasub.2.1
      (hpadded hasub.1) (by decide)
    rw [hshr]
    exact congrArg (fun v : Nat => (CxErr.ok, m₄.set (mpi .v1) (v : Int))) c.a24_eq
  have h₆ : cxMpiCopy ssl w (mpi .x) (mpi .p2x) m₅ = (.ok, m₆) :=
    cxMpiCopy_padded hssl (hinj.ne (by decide)) (by simp [m₅, m₄, m₃, m₂, m₁, hset]) (hpadded hlt)
  have h₇ : cxMpiCopy ssl w (mpi .a) (mpi .v1) m₆ = (.ok, m₆.set (mpi .a) (c.params.a24 : Nat)) :=
    cxMpiCopy_padded hssl (hinj.ne (by decide)) (by simp [m₆, m₅, hset]) (hpadded ha24)
  have hready : InLadder c.p mpi c.params.a24 U m₇ := by
    refine ⟨?_, ?_, ?_, set_self .., ?_, ?_⟩
    · have hkept : m₇ (mpi .n) = m₀ (mpi .n) := by simp [m₇, m₆, m₅, m₄, m₃, m₂, m₁, hset]
      exact hkept.trans ((set_of_ne _ (hu .n) _).trans hn)
    · have hvalue : m₇ (mpi .a) = (c.params.a24 : Nat) := by simp [m₇, hset]
      rw [hvalue, Int.cast_natCast]
    · have hvalue : m₇ (mpi .x) = (U % c.p : Nat) := by simp [m₇, m₆, hset]
      rw [hvalue, Int.cast_natCast, ZMod.natCast_mod]
    · simp [m₇, m₆, m₅, m₄, m₃, m₂, hset]
    · simp [m₇, m₆, m₅, m₄, m₃, m₂, hset]
  have hcoordinates : ladderAt c.p mpi m₇ = ⟨1, 0, U, 1⟩ := by
    have hp2x : m₇ (mpi .p2x) = (U % c.p : Nat) := by simp [m₇, m₆, m₅, m₄, m₃, m₂, m₁, hset]
    rw [ladderAt, hp2x, Int.cast_natCast, ZMod.natCast_mod]
    simp [m₇, m₆, m₅, m₄, m₃, m₂, hset]
  obtain ⟨m₈, swap, hrun, h₈, hladder⟩ := hready.run hinj hssl hmod c.p_odd
    (Rfc7748.scalarBits c.params.bits (c.decodeScalar k)) false
  obtain ⟨m₉, hm₉, h₉, hswap⟩ := h₈.swap hinj swap
  refine ⟨m₉, ?_, h₉, ?_⟩
  · have hone : ((1 : UInt32).toNat : Int) = 1 ∧ ((0 : UInt32).toNat : Int) = 0 ∧
        ((2 : UInt32).toNat : Int) = (2 : Nat) := ⟨rfl, rfl, rfl⟩
    rw [montLadder, hdecode]
    simp only [unchecked, List.foldl_cons, List.foldl_nil, cxMpiSetU32_exact hssl, hone]
    rw [h₁, h₃, h₄, h₅, h₆, h₇, montBits_exact c stack hk, hrun]
    exact hm₉
  · rw [hswap, Rfc7748.ladder, ← hcoordinates, ← hladder]

end Speculos.Ec
