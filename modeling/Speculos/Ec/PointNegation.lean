import Speculos.Ec.AffineCurve
import Speculos.Ec.Room

/-!
# Negation of points

`sys_cx_ecpoint_neg` subtracts a coordinate from the modulus: it leaves the modulus where the
coordinate is zero.
-/

namespace Speculos.Ec

open Lib Bn

variable {domain : CxCurveDomain} {Q : EcPoint} {P : MpiPoint} {s : State} {ssl : Openssl}

def negRequest (domain : CxCurveDomain) : Request := ⟨domain.length, some (domain.bytes domain.p)⟩

theorem Request.value_modulus (hssl : ssl.Exact) (hproper : domain.Proper) :
    (negRequest domain).value ssl = domain.p := by
  simp only [negRequest, Request.value, CxCurveDomain.bytes]
  rw [List.take_of_length_le (by rw [length_toBE]), hssl.bin2bn, fromBE_toBE_of_lt hproper.p_lt]
  rfl

theorem sysCxEcpointNeg_eq (hQ : PointOf domain Q P s) :
    sysCxEcpointNeg ssl Q s = (negRequest domain).alloc ssl s >>= fun (x, s) =>
      match x.x with
      | none => some (.mpi .memoryFull, s)
      | some n => some (.ok, destroyHandles [x.bnX] (s.withValues
          (cxMpiSub ssl s.mpiWordSize (P.negated domain.plane.family) n (P.negated domain.plane.family)
            s.values).2)) := by
  have hcurve := hQ.spec.2
  have hfamily := familyOf_cxEcdomain hQ.domain
  have hcoord : (if isWeierstrass Q.curve then some P.y else if isTwistedEdwards Q.curve
    then some P.x
      else if isMontgomery Q.curve then some P.y else none) =
      some (P.negated domain.plane.family) := by
    rw [familyOf] at hfamily
    split_ifs at hfamily ⊢ with h₁ h₂ h₃ <;> rw [← Option.some.inj hfamily] <;> rfl
  rw [sysCxEcpointNeg, hQ.found]
  dsimp only
  rw [hcurve, hQ.domain]
  dsimp only
  rw [hcoord]
  rfl

/-- The coordinate is subtracted from the modulus. -/
theorem sysCxEcpointNeg_granted (hssl : ssl.Exact) (hs : Locked s) (hQ : PointOf domain Q P s)
    (hgranted : grants ssl [negRequest domain] s = 1) {c : Nat} (hle : c ≤ domain.p)
    (hc : s.values (P.negated domain.plane.family) = c) :
    ∃ s', sysCxEcpointNeg ssl Q s = some (.ok, s') ∧ SameUnit s s' ∧
      ∀ i, (s.mpiArray i).live = true →
        s'.values i = s.values.set (P.negated domain.plane.family) (domain.p - c : Nat) i := by
  have hproper := proper_of_cxEcdomain hQ.domain
  have hlive : (s.mpiArray (P.negated domain.plane.family)).live = true := by
    obtain ⟨hx, hy, -⟩ := hQ.spec.1
    cases domain.plane.family <;> assumption
  obtain ⟨⟨x, u⟩, halloc⟩ := Option.isSome_iff_exists.mp
    (Request.isSome_alloc hs.word (negRequest domain) : ((negRequest domain).alloc ssl s).isSome)
  obtain ⟨hnone, -⟩ | ⟨i, rfl, hgrown, hkeeps, hvalue⟩ := Request.alloc_cases hs.ctx halloc
  · obtain ⟨bnX, x⟩ := x
    cases hnone
    rw [grants, halloc] at hgranted
    cases hgranted
  · have hfree := hgrown.fresh i rfl
    have hmodulus : u.values i = (domain.p : Nat) := by
      rw [State.values, hvalue, Request.value_modulus hssl hproper, Option.getD_some]
    have hsub : cxMpiSub ssl u.mpiWordSize (P.negated domain.plane.family) i
      (P.negated domain.plane.family)
        u.values = (.ok, u.values.set (P.negated domain.plane.family) (domain.p - c : Nat)) :=
      cxMpiSub_exact hssl _ hmodulus ((hkeeps.values hlive).trans hc) hle
    generalize hm : u.values.set (P.negated domain.plane.family) (domain.p - c : Nat) = m at hsub
    have hsame := sameUnit_withValues u m
    have hu := (hs.of_balanced hgrown.balanced).of_sameUnit hsame
    have hlacking := (lacking_destroyHandles [handle (some i)] hu.ctx).1
    refine ⟨destroyHandles [handle (some i)] (u.withValues m), ?_, ?_, fun j hj => ?_⟩
    · rw [sysCxEcpointNeg_eq hQ, halloc]
      simp only [Option.bind_eq_bind, Option.bind_some, Allocated.of, hsub]
    · refine ((hgrown.sameUnit hsame).lacking hlacking ?_).sameUnit_of_harmless ?_
      · rintro j rfl
        exact List.mem_singleton_self _
      · intro bn hbn
        rw [List.mem_singleton.mp hbn]
        exact harmless_of_free hfree
    · have hne : handle (some j) ∉ [handle (some i)] := by
        intro hmem
        rw [handle_injective (List.mem_singleton.mp hmem), hfree] at hj
        exact Bool.false_ne_true hj
      have hju : (u.mpiArray j).live = true := (hgrown.live j).mpr (.inl hj)
      rw [values_destroyHandles _ hu.ctx hne, values_withValues _ _ _ hju, ← hm]
      by_cases hcoord : j = P.negated domain.plane.family
      · rw [hcoord, set_self, set_self]
      · rw [set_of_ne _ hcoord, set_of_ne _ hcoord, hkeeps.values hj]

theorem sysCxEcpointNeg_refused (hs : Locked s) (hQ : PointOf domain Q P s)
    (hrefused : grants ssl [negRequest domain] s ≠ 1) :
    ∃ s', sysCxEcpointNeg ssl Q s = some (.mpi .memoryFull, s') ∧ SameUnit s s' ∧ Keeps s s' := by
  obtain ⟨⟨x, u⟩, halloc⟩ := Option.isSome_iff_exists.mp
    (Request.isSome_alloc hs.word (negRequest domain) : ((negRequest domain).alloc ssl s).isSome)
  obtain ⟨hnone, -, hsame, hkeeps⟩ | ⟨i, rfl, -⟩ := Request.alloc_cases hs.ctx halloc
  · rw [sysCxEcpointNeg_eq hQ, halloc]
    obtain ⟨bnX, x⟩ := x
    cases hnone
    exact ⟨u, rfl, hsame, hkeeps⟩
  · rw [grants, halloc] at hrefused
    exact absurd rfl hrefused

-- ---------------------------------------------------------------------------
-- The inverse
-- ---------------------------------------------------------------------------

/-- After the syscall the point is the inverse with its coordinates reduced, a second call gives the
point back, and it is told from a copy `Q'` of what it was, unless it is its own inverse. -/
def Negates (ssl : Openssl) (stack : Nat → NormVar → UInt32) (domain : CxCurveDomain)
    (Q Q' : EcPoint) (P : MpiPoint) (xy : ZMod domain.p × ZMod domain.p) (s : State) : Prop :=
  ∃ error s', sysCxEcpointNeg ssl Q s = some (error, s') ∧
    AffineAt domain P (domain.plane.inverse xy) s'.values ∧
    (∃ error' s'', sysCxEcpointNeg ssl Q s' = some (error', s'') ∧
    AffineAt domain P xy s''.values) ∧
    ∃ equal u, sysCxEcpointCmp ssl stack Q Q' s' = some ((.ok, some equal), u) ∧
      (equal = true ↔ xy = domain.plane.inverse xy)

theorem AffineAt.set {xy : ZMod domain.p × ZMod domain.p} {m m' : Mpis} (h : AffineAt domain P xy m)
    (hdistinct : P.x ≠ P.y ∧ P.x ≠ P.z ∧ P.y ≠ P.z) (n : ZMod domain.p)
    (hm : ∀ i ∈ [P.x, P.y, P.z], m' i = m.set (P.negated domain.plane.family) n.val i) :
    AffineAt domain P (domain.plane.pointOf (domain.plane.shared xy) n) m' := by
  obtain ⟨hshared, -, hz⟩ := affineAt_iff.mp h
  obtain ⟨hxy, hxz, hyz⟩ := hdistinct
  have hne : P.shared domain.plane.family ≠ P.negated domain.plane.family ∧
      P.z ≠ P.negated domain.plane.family := by
    cases domain.plane.family with
    | weierstrass => exact ⟨hxy, hyz.symm⟩
    | twistedEdwards => exact ⟨hxy.symm, hxz.symm⟩
    | montgomery => exact ⟨hxy, hyz.symm⟩
  have hmem (f : Family) : P.shared f ∈ [P.x, P.y, P.z] ∧ P.negated f ∈ [P.x, P.y, P.z] := by
    cases f <;> simp [MpiPoint.shared, MpiPoint.negated]
  refine affineAt_iff.mpr ⟨?_, ?_, ?_⟩
  · rw [hm _ (hmem _).1, set_of_ne _ hne.1, hshared, PlaneCurve.shared_pointOf]
  · rw [hm _ (hmem _).2, set_self, PlaneCurve.negated_pointOf]
  · rw [hm _ (by simp), set_of_ne _ hne.2, hz]

theorem sysCxEcpointCmp_affine (hssl : ssl.Exact) (hQ : PointOf domain Q P s)
    (hQ' : PointOf domain Q' P' s) {xy xy' : ZMod domain.p × ZMod domain.p}
    (hxy : AffineAt domain P xy s.values) (hxy' : AffineAt domain P' xy' s.values)
    (stack : Nat → NormVar → UInt32) :
    ∃ equal, sysCxEcpointCmp ssl stack Q Q' s = some ((.ok, some equal), s) ∧
    (equal = true ↔ xy = xy') := by
  have := (proper_of_cxEcdomain hQ.domain).neZero
  have hcurve : P.curve = P'.curve := by
    rw [hQ.spec.2, hQ'.spec.2, ← curve_of_cxEcdomain hQ.domain, ← curve_of_cxEcdomain hQ'.domain]
  have hval (x x' : ZMod domain.p) : ((x.val : Int) = x'.val) ↔ x = x' := by
    rw [Int.natCast_inj, (ZMod.val_injective domain.p).eq_iff]
  refine ⟨decide (P.curve = P'.curve ∧ s.values P.x = s.values P'.x ∧ s.values P.y = s.values P'.y),
    ?_, ?_⟩
  · rw [sysCxEcpointCmp, cxEcpointNormalize_affine hssl hQ hxy.z]
    simp only [Option.bind_eq_bind, Option.bind_some, cxEcpointNormalize_affine hssl hQ' hxy'.z]
    rfl
  · rw [decide_eq_true_iff, hxy.x, hxy.y, hxy'.x, hxy'.y, hval, hval, Prod.ext_iff]
    exact and_iff_right hcurve

section

variable (hssl : ssl.Exact) (hs : Locked s) (hQ : PointOf domain Q P s)
  (hQ' : PointOf domain Q' P' s) {xy : ZMod domain.p × ZMod domain.p}
  (hxy : AffineAt domain P xy s.values) (hxy' : AffineAt domain P' xy s.values)
  (hapart : P.negated domain.plane.family ∉ [P'.x, P'.y, P'.z]) (stack : Nat → NormVar → UInt32)
include hssl hs hQ hxy

include hQ' hxy' hapart in
/-- Where the number of the modulus can be allocated, a coordinate that is not zero is negated. -/
theorem negates_of_ne_zero (hgranted : grants ssl [negRequest domain] s = 1)
    (hne : domain.plane.negated xy ≠ 0) : Negates ssl stack domain Q Q' P xy s := by
  have hproper := proper_of_cxEcdomain hQ.domain
  have := hproper.neZero
  have hlt := ZMod.val_lt (domain.plane.negated xy)
  have hval : domain.p - (domain.plane.negated xy).val = (-domain.plane.negated xy).val := by
    rw [ZMod.neg_val, if_neg hne]
  obtain ⟨-, hc, -⟩ := affineAt_iff.mp hxy
  obtain ⟨u, hneg, hsame, hvalues⟩ :=
    sysCxEcpointNeg_granted hssl hs hQ hgranted (Nat.le_of_lt hlt) hc
  have hlive : ∀ i ∈ [P.x, P.y, P.z], (s.mpiArray i).live = true := by
    obtain ⟨hx, hy, hz⟩ := hQ.spec.1
    simp [hx, hy, hz]
  have hlive' : ∀ i ∈ [P'.x, P'.y, P'.z], (s.mpiArray i).live = true := by
    obtain ⟨hx, hy, hz⟩ := hQ'.spec.1
    simp [hx, hy, hz]
  have hinverse : AffineAt domain P (domain.plane.inverse xy) u.values := by
    rw [PlaneCurve.inverse_eq]
    refine hxy.set hQ.distinct _ fun i hi => ?_
    rw [hvalues i (hlive i hi), hval]
  have hcopy : AffineAt domain P' xy u.values := by
    have hkept (i : Slot) (hi : i ∈ [P'.x, P'.y, P'.z]) : u.values i = s.values i := by
      have hne : i ≠ P.negated domain.plane.family := by
        rintro rfl
        exact hapart hi
      rw [hvalues i (hlive' i hi), set_of_ne _ hne]
    exact ⟨(hkept _ (by simp)).trans hxy'.x, (hkept _ (by simp)).trans hxy'.y,
      (hkept _ (by simp)).trans hxy'.z⟩
  -- the second call
  have hQu := hQ.of_sameUnit hsame
  obtain ⟨-, hc', -⟩ := affineAt_iff.mp hinverse
  have hlt' := ZMod.val_lt (domain.plane.negated (domain.plane.inverse xy))
  obtain ⟨v, hneg', hsame', hvalues'⟩ := sysCxEcpointNeg_granted hssl (hs.of_sameUnit hsame) hQu
    ((grants_sameUnit hsame hs.ctx hs.word _).trans hgranted) (Nat.le_of_lt hlt') hc'
  refine ⟨.ok, u, hneg, hinverse, ⟨.ok, v, hneg', ?_⟩, ?_⟩
  · have hback : AffineAt domain P (domain.plane.pointOf (domain.plane.shared (domain.plane.inverse xy))
        (domain.plane.negated xy)) v.values := hinverse.set hQ.distinct _ fun i hi => by
      rw [hvalues' i ((hsame.live i).trans (hlive i hi)), PlaneCurve.inverse_eq,
        PlaneCurve.negated_pointOf, ← hval, Nat.sub_sub_self (Nat.le_of_lt hlt)]
    rwa [PlaneCurve.inverse_eq, PlaneCurve.shared_pointOf,
      PlaneCurve.pointOf_shared_negated] at hback
  · obtain ⟨equal, hcmp, hequal⟩ :=
      sysCxEcpointCmp_affine hssl hQu (hQ'.of_sameUnit hsame) hinverse hcopy
      stack
    exact ⟨equal, u, hcmp, hequal.trans eq_comm⟩

theorem not_negates_of_eq_zero (hgranted : grants ssl [negRequest domain] s = 1)
    (hzero : domain.plane.negated xy = 0) : ¬ Negates ssl stack domain Q Q' P xy s := by
  have hproper := proper_of_cxEcdomain hQ.domain
  rintro ⟨error, u, hneg, hinverse, -⟩
  obtain ⟨-, hc, -⟩ := affineAt_iff.mp hxy
  rw [hzero, ZMod.val_zero] at hc
  obtain ⟨u', hneg', hsame, hvalues⟩ :=
    sysCxEcpointNeg_granted hssl hs hQ hgranted (Nat.zero_le _) hc
  rw [hneg] at hneg'
  cases hneg'
  have hlive : (s.mpiArray (P.negated domain.plane.family)).live = true := by
    obtain ⟨hx, hy, -⟩ := hQ.spec.1
    cases domain.plane.family <;> assumption
  obtain ⟨-, hn, -⟩ := affineAt_iff.mp hinverse
  rw [hvalues _ hlive, set_self, PlaneCurve.inverse_eq, PlaneCurve.negated_pointOf, hzero, neg_zero,
    ZMod.val_zero, Nat.sub_zero, Int.natCast_inj] at hn
  exact hproper.neZero.out hn

include hQ' hxy' in
theorem negates_of_refused (hrefused : grants ssl [negRequest domain] s ≠ 1) :
    Negates ssl stack domain Q Q' P xy s ↔ domain.plane.negated xy = 0 := by
  have hproper := proper_of_cxEcdomain hQ.domain
  have := hproper.neZero
  obtain ⟨u, hneg, hsame, hkeeps⟩ := sysCxEcpointNeg_refused hs hQ hrefused
  have hkept {R : MpiPoint} (hlive : R.IsLive s) (hR : AffineAt domain R xy s.values) :
      AffineAt domain R xy u.values :=
    ⟨(hkeeps.values hlive.1).trans hR.x, (hkeeps.values hlive.2.1).trans hR.y,
      (hkeeps.values hlive.2.2).trans hR.z⟩
  have hstay := hkept hQ.spec.1 hxy
  constructor
  · rintro ⟨error, u', hneg', hinverse, -⟩
    rw [hneg] at hneg'
    cases hneg'
    by_contra hne
    obtain ⟨-, hc, -⟩ := affineAt_iff.mp hstay
    obtain ⟨-, hn, -⟩ := affineAt_iff.mp hinverse
    rw [hc, PlaneCurve.inverse_eq, PlaneCurve.negated_pointOf, Int.natCast_inj] at hn
    exact neg_ne_self hproper.odd hne (ZMod.val_injective _ hn).symm
  · intro hzero
    have hself : domain.plane.inverse xy = xy := by
      rw [eq_comm, PlaneCurve.eq_inverse_iff, hzero, neg_zero]
    obtain ⟨v, hneg', hsame', hkeeps'⟩ := sysCxEcpointNeg_refused (hs.of_sameUnit hsame)
      (hQ.of_sameUnit hsame) (by rw [grants_sameUnit hsame hs.ctx hs.word]; exact hrefused)
    obtain ⟨equal, hcmp, hequal⟩ := sysCxEcpointCmp_affine hssl (hQ.of_sameUnit hsame)
      (hQ'.of_sameUnit hsame) hstay (hkept hQ'.spec.1 hxy') stack
    have hlive := (hQ.of_sameUnit hsame).spec.1
    rw [Negates, hself]
    exact ⟨_, u, hneg, hstay, ⟨_, v, hneg', (hkeeps'.values hlive.1).trans hstay.x,
      (hkeeps'.values hlive.2.1).trans hstay.y, (hkeeps'.values hlive.2.2).trans hstay.z⟩,
      equal, u, hcmp, hequal⟩

end

-- ---------------------------------------------------------------------------
-- Zero coordinates
-- ---------------------------------------------------------------------------

/-- Points are negated exactly where there is room for the modulus and the coordinate is not
zero, or no room and the point its own inverse. -/
theorem negates_iff (hssl : ssl.Exact) (hs : Reachable s) (hctx : s.localBnCtx = true)
    (hQ : PointOf domain Q P s) (hQ' : PointOf domain Q' P' s) {xy : ZMod domain.p × ZMod domain.p}
    (hxy : AffineAt domain P xy s.values) (hxy' : AffineAt domain P' xy s.values)
    (hapart : P.negated domain.plane.family ∉ [P'.x, P'.y, P'.z]) (stack : Nat → NormVar → UInt32) :
    Negates ssl stack domain Q Q' P xy s ↔
      (grants ssl [negRequest domain] s = 1 ↔ domain.plane.negated xy ≠ 0) := by
  have hlocked := locked_of_reachable hs hctx
  by_cases hgranted : grants ssl [negRequest domain] s = 1
  · rw [iff_true_left hgranted]
    constructor
    · intro h hzero
      exact not_negates_of_eq_zero hssl hlocked hQ hxy stack hgranted hzero h
    · exact negates_of_ne_zero hssl hlocked hQ hQ' hxy hxy' hapart stack hgranted
  · rw [iff_false_left hgranted, not_not]
    exact negates_of_refused hssl hlocked hQ hQ' hxy hxy' stack hgranted

/-- The numbers of a point and its copy, in the first slots. -/
def sixNumbers (xy : Int × Int) : State :=
  ((((((lockedUnit.fill 0 32).fill 1 32).fill 2 32).fill 3 32).fill 4 32).fill 5 32).withValues
    fun i =>
    if i = 0 ∨ i = 3 then xy.1 else if i = 1 ∨ i = 4 then xy.2 else 1

theorem reachable_sixNumbers (xy : Int × Int) : Reachable (sixNumbers xy) := by
  have hlock : Reachable lockedUnit := Reachable.initial.lock .integers 16
  refine Reachable.values ?_ _
  iterate 6 refine Reachable.fill ?_ (by decide) (by decide) (by decide) (by decide)
  exact hlock

def firstPoint : EcPoint := ⟨0, 1, 2, Ec.edBLS12.curve⟩

def secondPoint : EcPoint := ⟨3, 4, 5, Ec.edBLS12.curve⟩

theorem pointOf_firstPoint (xy : Int × Int) :
    PointOf Ec.edBLS12 firstPoint ⟨0, 1, 2, Ec.edBLS12.curve⟩ (sixNumbers xy) :=
  ⟨by decide, rfl, by decide⟩

theorem pointOf_secondPoint (xy : Int × Int) :
    PointOf Ec.edBLS12 secondPoint ⟨3, 4, 5, Ec.edBLS12.curve⟩ (sixNumbers xy) :=
  ⟨by decide, rfl, by decide⟩

/-- The neutral element, and a point of which no coordinate is zero. -/
def neutralElement : ZMod Ec.edBLS12.p × ZMod Ec.edBLS12.p := (0, 1)

def otherElement : ZMod Ec.edBLS12.p × ZMod Ec.edBLS12.p :=
  ((2 : Nat), (5553594316923449299484601589326170487897520766531075014687114064346375156608 : Nat))

def noNorm : Nat → NormVar → UInt32 := fun _ _ => 0

theorem negates_otherElement :
    Negates .integers noNorm Ec.edBLS12 firstPoint secondPoint
      ⟨0, 1, 2, Ec.edBLS12.curve⟩ otherElement
      (sixNumbers (otherElement.1.val, otherElement.2.val)) :=
  (negates_iff exact_integers (reachable_sixNumbers _) rfl (pointOf_firstPoint _) (pointOf_secondPoint _)
    ⟨rfl, rfl, rfl⟩ ⟨rfl, rfl, rfl⟩ (by decide) noNorm).mpr (by decide)

/-- The first coordinate of the neutral element becomes the modulus. -/
theorem not_negates_neutralElement :
    Ec.edBLS12.plane.OnCurve neutralElement ∧
      ¬ Negates .integers noNorm Ec.edBLS12 firstPoint secondPoint
        ⟨0, 1, 2, Ec.edBLS12.curve⟩ neutralElement
        (sixNumbers (neutralElement.1.val, neutralElement.2.val)) := by
  refine ⟨by decide, ?_⟩
  exact not_negates_of_eq_zero exact_integers (locked_of_reachable (reachable_sixNumbers _) rfl)
    (pointOf_firstPoint _) ⟨rfl, rfl, rfl⟩ noNorm (by decide) (by decide)

end Speculos.Ec
