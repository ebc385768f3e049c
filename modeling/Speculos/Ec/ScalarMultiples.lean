import Speculos.Ec.EdwardsMul

/-!
# Scalar multiples

When `cx_twisted_edwards_mul_point` leaves the multiple of a point by its scalar: where the 32 bits
of a position reach all bits of the scalar, and otherwise only where the bits that they reach happen
to be those of a number that has the same multiple.
-/

namespace Speculos.Ec

open Lib Bn Lib.TwistedEdwards

variable {ssl : Openssl} {c : EdwardsCurve} {P : MpiPoint} {pt : c.curve.Point} {s : State}

/-- A point of the application, in affine coordinates. -/
structure IsPoint (c : EdwardsCurve) (P : MpiPoint) (pt : c.curve.Point) (s : State) : Prop where
  curve : P.curve = c.domain.curve
  live : P.IsLive s
  distinct : P.x ≠ P.y ∧ P.x ≠ P.z ∧ P.y ≠ P.z
  affine : IsAffine c P pt s.values

/-- The two points of the ladder, in extended coordinates, differ by the point that it
multiplies. -/
def DifferBy (pt : c.curve.Point) (r : Bool → Extended (ZMod c.p)) : Prop :=
  ∃ R0 : c.curve.Point, Represents (r false) R0.xy ∧ Represents (r true) (R0 + pt).xy

/-- The ladder keeps the difference in every round, whatever slots its numbers are in. -/
def KeepsDifference (ssl : Openssl) (wordSize : UInt32) (P : MpiPoint) (pt : c.curve.Point)
    (k : Bytes) : Prop :=
  ∀ (mpi : TeVar → Slot) (xy : Bool → Slot) (R1 : MpiPoint) (m : Mpis),
    Function.Injective (mulSlot mpi xy P R1) → IsAffine c P pt m →
      ∀ bits, ladderBits k = some bits → ∀ taken, taken <+: bits →
        DifferBy pt (extendedAt xy P R1 c.p (taken.foldl (mulPointStep ssl P R1 mpi xy)
          (mulPointStart ssl wordSize c.domain P R1 mpi xy m)))

/-- The point becomes its multiple by the scalar, and the ladder keeps the difference. -/
structure Multiplies (ssl : Openssl) (stack : TeStack) (P : MpiPoint) (pt : c.curve.Point)
    (k : Bytes) (s : State) : Prop where
  multiple : ∃ s', cxTwistedEdwardsMulPoint ssl stack P k s = some (.ok, s') ∧
    IsAffine c P (fromBE k • pt) s'.values
  difference : KeepsDifference ssl s.mpiWordSize P pt k

theorem keepsDifference (hssl : ssl.Exact) (hmod : ssl.ExactModular) (hword : w ≠ 0)
    (hsmall : w.toNat ≤ 2048) (hx : pt.xy.1 ≠ 0) (hy : pt.xy.2 ≠ 0) (k : Bytes) :
    KeepsDifference ssl w P pt k := by
  intro mpi xy R1 m hinj haffine bits _ taken _
  obtain ⟨m₁, hstart, hready, hrung, -⟩ := mulPointWith_exact hinj hssl hmod hword hsmall haffine k
  obtain ⟨-, hladder⟩ := hready.run hssl hmod (p_odd c) (Nat.le_refl _) hinj taken
  have hrun := hrung.run hx hy taken
  rw [hstart, hladder]
  refine ⟨climb 1 taken • pt, ?_, ?_⟩
  · simpa using hrun false
  · simpa [add_nsmul] using hrun true

theorem IsAffine.eq {pt' : c.curve.Point} {m : Mpis} (h : IsAffine c P pt m)
    (h' : IsAffine c P pt' m) :
    pt = pt' := by
  have hresidue {i : Slot} {x x' : ZMod c.p} (h : HoldsResidue c m i x)
      (h' : HoldsResidue c m i x') :
      x = x' := ZMod.val_injective _ (Int.ofNat_inj.mp (h.symm.trans h'))
  exact Point.ext (Prod.ext (hresidue h.x h'.x) (hresidue h.y h'.y))

theorem scanned_congruent_of_short (hk : isBufferZero k = false) (hshort : k.length ≤ 2 ^ 29)
    (n : Nat) :
    scanned k ≠ 0 ∧ scanned k ≡ fromBE k [MOD n] := by
  have hne : fromBE k ≠ 0 := by
    rw [ne_eq, ← isBufferZero_iff, hk]
    exact Bool.false_ne_true
  have hpos : 0 < k.length := by
    rw [List.length_pos_iff]
    rintro rfl
    exact hne rfl
  rw [scanned_of_short hpos hshort hne]
  exact ⟨hne, .refl _⟩

theorem multiplies_iff (hssl : ssl.Exact) (hmod : ssl.ExactModular) (hs : Reachable s)
    (hctx : s.localBnCtx = true) (hpoint : IsPoint c P pt s) (hgranted : AllGranted ssl c s)
    (hodd : Odd (addOrderOf pt)) (hne : pt ≠ 0) (stack : TeStack) {k : Bytes}
    (hk : isBufferZero k = false) (hlen : k.length < 2 ^ 32) :
    Multiplies ssl stack P pt k s ↔
      k.length ≤ 2 ^ 29 ∨ scanned k ≠ 0 ∧ scanned k ≡ fromBE k [MOD addOrderOf pt] := by
  have hlocked := locked_of_reachable hs hctx
  have hsmall := hgranted.word_le hssl hs hctx
  obtain ⟨hx, hy⟩ := coordinates_ne_zero hodd hne
  obtain ⟨hxy, hxz, hyz⟩ := hpoint.distinct
  obtain ⟨hnone, hsome⟩ :=
    cxTwistedEdwardsMulPoint_exact hssl hmod hlocked hsmall hpoint.live hpoint.curve
    hxy hxz hyz hpoint.affine hgranted hx hy stack hk hlen
  constructor
  · rintro ⟨⟨s', hrun, hmultiple⟩, -⟩
    refine .inr ?_
    by_cases hzero : scanned k = 0
    · rw [hnone hzero] at hrun
      cases hrun
    · obtain ⟨u, hrun', hscanned⟩ := hsome hzero
      rw [hrun] at hrun'
      cases hrun'
      exact ⟨hzero, nsmul_eq_nsmul_iff_modEq.mp (hscanned.eq hmultiple)⟩
  · intro hcondition
    obtain ⟨hnonzero, hcongruent⟩ : scanned k ≠ 0 ∧ scanned k ≡ fromBE k [MOD addOrderOf pt] :=
      hcondition.elim (fun hshort => scanned_congruent_of_short hk hshort _) id
    obtain ⟨s', hrun, hscanned⟩ := hsome hnonzero
    rw [nsmul_eq_nsmul_iff_modEq.mpr hcongruent] at hscanned
    exact ⟨⟨s', hrun, hscanned⟩, keepsDifference hssl hmod hlocked.word hsmall hx hy k⟩

-- ---------------------------------------------------------------------------
-- A scalar that is too long
-- ---------------------------------------------------------------------------

def oddCoordinates : ZMod EdwardsCurve.edBLS12.p × ZMod EdwardsCurve.edBLS12.p :=
  (2, 5553594316923449299484601589326170487897520766531075014687114064346375156608)

theorem onCurve_oddCoordinates : EdwardsCurve.edBLS12.curve.OnCurve oddCoordinates := by
  unfold TwistedEdwards.OnCurve
  decide

def oddPoint : EdwardsCurve.edBLS12.curve.Point := ⟨oddCoordinates, onCurve_oddCoordinates⟩

def oddOrder : Nat := 0x4aad957a68b2955982d1347970dec005293a3afc43c8afeb95aee9ac33fd9ff

def oddRung (bit : Bool) : Extended (ZMod EdwardsCurve.edBLS12.p) :=
  let v : Extended (ZMod EdwardsCurve.edBLS12.p) :=
    ⟨oddCoordinates.1, oddCoordinates.2, 1, oddCoordinates.1 * oddCoordinates.2⟩
  if bit then v.dbl EdwardsCurve.edBLS12.curve.a else v

theorem rung_oddRung : Rung oddRung oddPoint 1 := by
  have hfirst : Represents (oddRung false) oddPoint.xy := represents_affine oddPoint.xy
  have hsecond : Represents (oddRung true) (oddPoint + oddPoint).xy := hfirst.dbl
  intro bit
  cases bit with
  | false => simpa using hfirst
  | true => simpa [two_nsmul] using hsecond

theorem oddOrder_nsmul : oddOrder • oddPoint = 0 := by
  have hbits : climb 1 ((List.range 250).reverse.map oddOrder.testBit) = oddOrder := by
    rw [climb_testBit]
    decide
  have hx : oddPoint.xy.1 ≠ 0 := by decide
  have hy : oddPoint.xy.2 ≠ 0 := by decide
  have hladder := rung_oddRung.run hx hy ((List.range 250).reverse.map oddOrder.testBit) false
  rw [hbits, Bool.toNat_false, Nat.add_zero] at hladder
  have hend : (((List.range 250).reverse.map oddOrder.testBit).foldl
        (TwistedEdwards.ladderStep EdwardsCurve.edBLS12.curve.a) oddRung false).x = 0 ∧
      (((List.range 250).reverse.map oddOrder.testBit).foldl
        (TwistedEdwards.ladderStep EdwardsCurve.edBLS12.curve.a) oddRung false).y =
      (((List.range 250).reverse.map oddOrder.testBit).foldl
        (TwistedEdwards.ladderStep EdwardsCurve.edBLS12.curve.a) oddRung false).z := by
    decide +kernel
  generalize ((List.range 250).reverse.map oddOrder.testBit).foldl
    (TwistedEdwards.ladderStep EdwardsCurve.edBLS12.curve.a) oddRung false = v at hladder hend
  have hfst : (oddOrder • oddPoint).xy.1 = 0 :=
    (mul_eq_zero.mp (hladder.x.symm.trans hend.1)).resolve_right hladder.z_ne
  have hsnd : (oddOrder • oddPoint).xy.2 = 1 :=
    mul_right_cancel₀ hladder.z_ne (by rw [one_mul, ← hladder.y, hend.2])
  exact Point.ext (Prod.ext hfst hsnd)

theorem odd_addOrderOf : Odd (addOrderOf oddPoint) :=
  Odd.of_dvd_nat (by decide) (addOrderOf_dvd_of_nsmul_eq_zero oddOrder_nsmul)

theorem oddPoint_ne_zero : oddPoint ≠ 0 := by
  intro h
  have hfst : oddPoint.xy.1 = 0 := by rw [h]; rfl
  revert hfst
  decide

def threeSlots : MpiPoint := ⟨0, 1, 2, EdwardsCurve.edBLS12.domain.curve⟩

def pointUnit : State :=
  (((lockedUnit.fill 0 32).fill 1 32).fill 2 32).withValues fun i =>
    if i = 0 then oddCoordinates.1.val else if i = 1 then oddCoordinates.2.val else 1

theorem reachable_pointUnit : Reachable pointUnit := by
  have hlock : Reachable lockedUnit := Reachable.initial.lock .integers 16
  have h₀ : cxMpiAlloc .integers 32 lockedUnit = some (.of (some 0), lockedUnit.fill 0 32) :=
    cxMpiAlloc_of_fits (by decide) (by decide) (by decide) (by decide)
  have h₁ : cxMpiAlloc .integers 32 (lockedUnit.fill 0 32) =
      some (.of (some 1), (lockedUnit.fill 0 32).fill 1 32) :=
    cxMpiAlloc_of_fits (by decide) (by decide) (by decide) (by decide)
  have h₂ : cxMpiAlloc .integers 32 ((lockedUnit.fill 0 32).fill 1 32) =
      some (.of (some 2), ((lockedUnit.fill 0 32).fill 1 32).fill 2 32) :=
    cxMpiAlloc_of_fits (by decide) (by decide) (by decide) (by decide)
  exact (((hlock.alloc h₀).alloc h₁).alloc h₂).values _

theorem isPoint_oddPoint : IsPoint .edBLS12 threeSlots oddPoint pointUnit := by
  refine ⟨rfl, by decide, by decide, ?_, ?_, ?_⟩
  · rfl
  · rfl
  · rfl

theorem allGranted_pointUnit : AllGranted .integers .edBLS12 pointUnit := by
  refine ⟨by decide, by decide⟩

def noStack : TeStack := ⟨fun _ => 0, fun _ => 0, fun _ => 0, ⟨0, 0, 0, .secp256k1⟩⟩

theorem multiplies_oddPoint : Multiplies .integers noStack threeSlots oddPoint [2, 1] pointUnit :=
  (multiplies_iff exact_integers exactModular_integers reachable_pointUnit rfl isPoint_oddPoint
    allGranted_pointUnit odd_addOrderOf oddPoint_ne_zero noStack (by decide) (by decide)).mpr
      (.inl (by decide))

/-- 257 behind `n` bytes that are zero. -/
def longScalar (n : Nat) : Bytes := List.replicate n 0 ++ [1, 1]

theorem length_longScalar (n : Nat) : (longScalar n).length = n + 2 := by
  rw [longScalar, List.length_append, List.length_replicate]
  rfl

theorem fromBE_longScalar (n : Nat) : fromBE (longScalar n) = 257 := by
  rw [longScalar, fromBE_append, fromBE_replicate_zero, Nat.zero_mul, Nat.zero_add]
  decide

/-- With 2²⁹ + 1 bytes, only the last one is looked at. -/
theorem scanned_longScalar (hn : n + 1 = 2 ^ 29) : scanned (longScalar n) = 1 := by
  have htail : tailValue (longScalar n) 1 = 1 := by
    have hsplit : longScalar n = (List.replicate n 0 ++ [1]) ++ [1] := by simp [longScalar]
    have hdrop : (longScalar n).drop ((longScalar n).length - 1) = [1] := by
      rw [length_longScalar, hsplit]
      exact List.drop_left' (by simp)
    rw [tailValue, hdrop]
    decide
  have hfirst : ((longScalar n).length - 1) % 2 ^ 29 + 1 = 1 := by
    rw [length_longScalar, Nat.add_sub_assoc (by decide), hn, Nat.mod_self]
  rw [scanned, hfirst, htail, if_pos one_ne_zero]

theorem not_multiplies_longScalar :
    ¬ Multiplies .integers noStack threeSlots oddPoint (longScalar (2 ^ 29 - 1)) pointUnit := by
  rintro ⟨⟨s', hrun, hmultiple⟩, -⟩
  have hn : 2 ^ 29 - 1 + 1 = 2 ^ 29 := by decide
  generalize 2 ^ 29 - 1 = n at hrun hmultiple hn
  have hk : isBufferZero (longScalar n) = false := by
    rw [← Bool.not_eq_true, isBufferZero_iff, fromBE_longScalar]
    decide
  obtain ⟨hx, hy⟩ := coordinates_ne_zero odd_addOrderOf oddPoint_ne_zero
  obtain ⟨-, hsome⟩ := cxTwistedEdwardsMulPoint_exact exact_integers exactModular_integers
    (locked_of_reachable reachable_pointUnit rfl)
      (by decide) isPoint_oddPoint.live isPoint_oddPoint.curve
    (by decide) (by decide) (by decide) isPoint_oddPoint.affine allGranted_pointUnit hx hy noStack hk
    (by rw [length_longScalar]; omega)
  obtain ⟨u, hrun', hscanned⟩ := hsome (by rw [scanned_longScalar hn]; decide)
  rw [hrun] at hrun'
  cases hrun'
  rw [scanned_longScalar hn] at hscanned
  rw [fromBE_longScalar] at hmultiple
  have hcongruent := nsmul_eq_nsmul_iff_modEq.mp (hscanned.eq hmultiple)
  -- 256 is a power of 2, and the order is odd
  have hdvd : addOrderOf oddPoint ∣ 2 ^ 8 := (Nat.modEq_iff_dvd' (by decide)).mp hcongruent
  have hone := Nat.Coprime.eq_one_of_dvd (odd_addOrderOf.coprime_two_right.pow_right 8) hdvd
  exact oddPoint_ne_zero (AddMonoid.addOrderOf_eq_one_iff.mp hone)

end Speculos.Ec
