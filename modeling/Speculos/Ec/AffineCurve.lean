import Mathlib.FieldTheory.Finite.Basic
import Speculos.Bn.Modular
import Speculos.Ec.CxEcpoint
import Speculos.Ec.PointSlots
import Speculos.Lib.PlaneCurve
import Speculos.Ec.EdwardsCurve

/-!
# Points in affine coordinates

The equation of each curve over the residues of its modulus, and the points of an application with
`z = 1`: three numbers of its unit, of which the coordinates are below the modulus.
-/

namespace Speculos.Ec

open Lib Bn

-- ---------------------------------------------------------------------------
-- Domains
-- ---------------------------------------------------------------------------

/-- What the numbers of every domain have in common. -/
structure CxCurveDomain.Proper (domain : CxCurveDomain) : Prop where
  odd : domain.p % 2 = 1
  two_lt : 2 < domain.p
  p_lt : domain.p < 256 ^ domain.length.toNat
  a_lt : domain.a < domain.p
  b_lt : domain.b < domain.p
  length_le : domain.length.toNat ≤ 66

instance (domain : CxCurveDomain) : Decidable domain.Proper :=
  decidable_of_iff (domain.p % 2 = 1 ∧ 2 < domain.p ∧ domain.p < 256 ^ domain.length.toNat ∧
      domain.a < domain.p ∧ domain.b < domain.p ∧ domain.length.toNat ≤ 66)
    ⟨fun ⟨h₁, h₂, h₃, h₄, h₅, h₆⟩ => ⟨h₁, h₂, h₃, h₄, h₅, h₆⟩,
      fun ⟨h₁, h₂, h₃, h₄, h₅, h₆⟩ => ⟨h₁, h₂, h₃, h₄, h₅, h₆⟩⟩

theorem proper_of_cxEcdomain (h : cxEcdomain curve = some domain) : domain.Proper := by
  have hall : (cxAllCurves.all fun domain => domain.Proper) = true := by decide
  exact of_decide_eq_true (List.all_eq_true.mp hall domain (List.mem_of_find?_eq_some h))

theorem CxCurveDomain.Proper.neZero {domain : CxCurveDomain} (h : domain.Proper) :
    NeZero domain.p :=
  ⟨Nat.ne_of_gt (Nat.lt_trans Nat.zero_lt_two h.two_lt)⟩

def familyOf (curve : CxCurve) : Option Family :=
  if isWeierstrass curve then some .weierstrass
  else if isTwistedEdwards curve then some .twistedEdwards
  else if isMontgomery curve then some .montgomery
  else none

/-- The curve of the domain; every domain belongs to a family. -/
def CxCurveDomain.plane (domain : CxCurveDomain) : PlaneCurve (ZMod domain.p) :=
  ⟨(familyOf domain.curve).getD .weierstrass, domain.a, domain.b⟩

theorem familyOf_cxEcdomain (h : cxEcdomain curve = some domain) :
    familyOf curve = some domain.plane.family := by
  have hall : (cxAllCurves.all fun domain => (familyOf domain.curve).isSome) = true := by decide
  have hsome := List.all_eq_true.mp hall domain (List.mem_of_find?_eq_some h)
  obtain ⟨family, hfamily⟩ := Option.isSome_iff_exists.mp hsome
  rw [← curve_of_cxEcdomain h, CxCurveDomain.plane, hfamily]
  rfl

-- ---------------------------------------------------------------------------
-- Points
-- ---------------------------------------------------------------------------

def MpiPoint.shared (P : MpiPoint) : Family → Slot
  | .twistedEdwards => P.y
  | _ => P.x

/-- The coordinate that the inverse of a point negates. -/
def MpiPoint.negated (P : MpiPoint) : Family → Slot
  | .twistedEdwards => P.x
  | _ => P.y

/-- The numbers of an affine point. -/
structure AffineAt (domain : CxCurveDomain) (P : MpiPoint) (xy : ZMod domain.p × ZMod domain.p)
    (m : Mpis) : Prop where
  x : m P.x = xy.1.val
  y : m P.y = xy.2.val
  z : m P.z = 1

theorem affineAt_iff {domain : CxCurveDomain} {P : MpiPoint} {xy : ZMod domain.p × ZMod domain.p}
    {m : Mpis} :
    AffineAt domain P xy m ↔
      m (P.shared domain.plane.family) = (domain.plane.shared xy).val ∧
        m (P.negated domain.plane.family) = (domain.plane.negated xy).val ∧ m P.z = 1 := by
  unfold MpiPoint.shared MpiPoint.negated PlaneCurve.shared PlaneCurve.negated
  cases domain.plane.family with
  | weierstrass => exact ⟨fun h => ⟨h.x, h.y, h.z⟩, fun h => ⟨h.1, h.2.1, h.2.2⟩⟩
  | twistedEdwards => exact ⟨fun h => ⟨h.y, h.x, h.z⟩, fun h => ⟨h.2.1, h.1, h.2.2⟩⟩
  | montgomery => exact ⟨fun h => ⟨h.x, h.y, h.z⟩, fun h => ⟨h.1, h.2.1, h.2.2⟩⟩

/-- A point of an application on the curve of a domain: its numbers are there, and different
ones. -/
structure PointOf (domain : CxCurveDomain) (Q : EcPoint) (P : MpiPoint) (s : State) : Prop where
  domain : cxEcdomain Q.curve = some domain
  found : cxMpiEcpointFromEcpoint Q s = .ok P
  distinct : P.x ≠ P.y ∧ P.x ≠ P.z ∧ P.y ≠ P.z

variable {domain : CxCurveDomain} {Q : EcPoint} {P : MpiPoint} {s : State} {ssl : Openssl}

theorem cxMpiEcpointFromEcpoint_sameUnit (h : SameUnit s s') (Q : EcPoint) :
    cxMpiEcpointFromEcpoint Q s' = cxMpiEcpointFromEcpoint Q s := by
  have hbns : cxBnsToMpi [Q.x, Q.y, Q.z] s' = cxBnsToMpi [Q.x, Q.y, Q.z] s := by
    rw [cxBnsToMpi, cxBnsToMpi, cxBnLocked, cxBnLocked, h.localBnCtx]
    simp only [h.live]
  rw [cxMpiEcpointFromEcpoint, cxMpiEcpointFromEcpoint, hbns]

theorem PointOf.of_sameUnit (hQ : PointOf domain Q P s) (h : SameUnit s s') :
    PointOf domain Q P s' :=
  ⟨hQ.domain, (cxMpiEcpointFromEcpoint_sameUnit h Q).trans hQ.found, hQ.distinct⟩

theorem PointOf.spec (hQ : PointOf domain Q P s) : P.IsLive s ∧ P.curve = Q.curve := by
  have hfound := hQ.found
  rw [cxMpiEcpointFromEcpoint, hQ.domain] at hfound
  dsimp only at hfound
  split at hfound
  · cases hfound
  · rename_i hbns
    cases hfound
    rw [not_not, cxBnsToMpi] at hbns
    split at hbns
    · rename_i hlocked
      exact absurd hbns hlocked
    · split at hbns
      · split at hbns
        · rename_i hlive
          simp only [List.all_cons, List.all_nil, Bool.and_true, Bool.and_eq_true] at hlive
          exact ⟨hlive, rfl⟩
        · cases hbns
      · split at hbns <;> cases hbns

theorem cxEcpointNormalize_affine (hssl : ssl.Exact) (hQ : PointOf domain Q P s)
    (hz : s.values P.z = 1) (stack : NormVar → UInt32) :
    cxEcpointNormalize ssl stack Q s = some (.ok P, s) := by
  have hone : s.values P.z = (1 : Nat) := hz
  have hcmp (b : UInt32) := cxMpiCmpU32_eq_zero_iff hssl (by decide : byteLength 1 ≤ 2048) b
  have hnormalize : cxMpiEcpointNormalize ssl stack P s = some (.ok, s) := by
    rw [cxMpiEcpointNormalize, hQ.spec.2, hQ.domain]
    dsimp only
    rw [if_neg (not_not.mpr hQ.spec.1), hone, if_neg (mt (hcmp 0).mp (by decide)),
      if_pos ((hcmp 1).mpr (by decide))]
  rw [cxEcpointNormalize, hQ.found]
  simp only [Option.bind_eq_bind, hnormalize, Option.bind_some, if_true]
  rfl

end Speculos.Ec

/-!
## Affine coordinates

`cx_mpi_ecpoint_normalize` on EdBLS12 and Jubjub, where OpenSSL computes with the integers: the
coordinates are divided by `z`.
-/

namespace Speculos.Ec

open Lib Bn

variable {ssl : Openssl} {c : EdwardsCurve} {m : Mpis}

/-- The slot holds the number of a residue. -/
def HoldsResidue (c : EdwardsCurve) (m : Mpis) (i : Slot) (x : ZMod c.p) : Prop := m i = x.val

theorem HoldsResidue.exists_nat {x : ZMod c.p} (h : HoldsResidue c m i x) :
    ∃ n : Nat, n < c.p ∧ m i = n ∧ (n : ZMod c.p) = x :=
  ⟨x.val, ZMod.val_lt x, h, ZMod.natCast_zmod_val x⟩

theorem holdsResidue_of_lt {x : ZMod c.p} (hlt : n < c.p) (hn : m i = n) (hx : (n : ZMod c.p) = x) :
    HoldsResidue c m i x := by
  rw [HoldsResidue, hn, ← hx, ZMod.val_natCast_of_lt hlt]

theorem length_domain (c : EdwardsCurve) : c.domain.length = 32 := by cases c <;> rfl

theorem p_odd (c : EdwardsCurve) : c.p % 2 = 1 := by cases c <;> decide

theorem p_lt (c : EdwardsCurve) : c.p < 256 ^ c.domain.length.toNat := by cases c <;> decide

theorem cxEcdomain_domain (c : EdwardsCurve) : cxEcdomain c.domain.curve = some c.domain := by
  cases c <;> decide

theorem isTwistedEdwards_domain (c : EdwardsCurve) :
    isWeierstrass c.domain.curve = false ∧ isTwistedEdwards c.domain.curve = true := by
  cases c <;> decide

theorem byteLength_le_of_lt (hn : n < c.p) : byteLength n ≤ 32 := by
  have hlt := Nat.lt_trans hn (p_lt c)
  rw [length_domain] at hlt
  exact byteLength_le hlt

theorem padded_of_lt (hssl : ssl.Exact) (hword : w ≠ 0) (hsmall : w.toNat ≤ 2048) (hn : n < c.p) :
    Padded ssl w n :=
  padded_of_short hssl hword hsmall (Nat.le_trans (byteLength_le_of_lt hn) (by decide))

theorem cxMpiModMul_exact (hssl : ssl.Exact) (hmod : ssl.ExactModular) (hodd : q % 2 = 1) (r : Slot)
    {a b n : Slot} {x y : Nat} (ha : m a = x) (hb : m b = y) (hn : m n = (q : Nat)) :
    cxMpiModMul ssl r a b n m = (.ok, m.set r (x * y % q : Nat)) := by
  have hcall := ModOp.call_exact hssl hmod hodd .mul r a b hn
  rw [ha, hb] at hcall
  exact_mod_cast hcall

theorem divide_exact (hssl : ssl.Exact) (hmod : ssl.ExactModular) (hword : w ≠ 0)
    (hsmall : w.toNat ≤ 2048) {dst tmp inv n : Slot} (hne : dst ≠ tmp) {x v : Nat} (hx : m dst = x)
    (hv : m inv = v) (hp : m n = (c.p : Nat)) :
    checked [cxMpiModMul ssl tmp dst inv n, cxMpiCopy ssl w dst tmp] m =
      (.ok, (m.set tmp (x * v % c.p : Nat)).set dst (x * v % c.p : Nat)) := by
  have hlt : x * v % c.p < c.p := Nat.mod_lt _ c.prime.pos
  have hproduct := cxMpiModMul_exact hssl hmod (p_odd c) tmp hx hv hp
  have hcopy := cxMpiCopy_padded (m := m.set tmp (x * v % c.p : Nat)) hssl hne (set_self ..)
    (padded_of_lt hssl hword hsmall hlt)
  simp only [checked, hproduct, hcopy, ne_eq, not_true_eq_false, if_false]

theorem checked_append (calls calls' : List (Mpis → CxErr × Mpis))
    (h : checked calls m = (.ok, m')) :
    checked (calls ++ calls') m = checked calls' m' := by
  induction calls generalizing m with
  | nil =>
    cases h
    rfl
  | cons call calls ih =>
    rw [checked] at h
    rw [List.cons_append, checked]
    split at h
    · rename_i herror
      rw [h] at herror
      exact absurd rfl herror
    · rename_i hok
      rw [if_neg hok, ih h]

theorem affine_exact (hssl : ssl.Exact) (hmod : ssl.ExactModular) (hword : w ≠ 0)
    (hsmall : w.toNat ≤ 2048) (hcurve : P.curve = c.domain.curve) {t : NormVar → Slot}
    (hpoint : P.x ≠ P.y) (hfresh : ∀ id, t id ≠ P.x ∧ t id ≠ P.y) (hinj : Function.Injective t)
    {x y v : Nat} (hx : m P.x = x) (hy : m P.y = y) (hv : m (t .invz) = v)
    (hp : m (t .p) = (c.p : Nat)) :
    ∃ m', affine ssl w P t m = (.ok, m') ∧ m' P.x = (x * v % c.p : Nat) ∧
    m' P.y = (y * v % c.p : Nat) := by
  obtain ⟨hweierstrass, hedwards⟩ := isTwistedEdwards_domain c
  have hinv : t .invz ≠ t .tmp1 := hinj.ne (by decide)
  have hn : t .p ≠ t .tmp1 := hinj.ne (by decide)
  have hfirst := divide_exact hssl hmod hword hsmall (hfresh .tmp1).1.symm hx hv hp
  generalize hm₁ : (m.set (t .tmp1) (x * v % c.p : Nat)).set P.x (x * v % c.p : Nat) = m₁ at hfirst
  have hx₁ : m₁ P.x = (x * v % c.p : Nat) := by rw [← hm₁, set_self]
  have hkept (i : Slot) (hi : i ≠ t .tmp1) (hi' : i ≠ P.x) : m₁ i = m i := by
    rw [← hm₁, set_of_ne _ hi', set_of_ne _ hi]
  have hy₁ := (hkept P.y (hfresh .tmp1).2.symm hpoint.symm).trans hy
  have hsecond := divide_exact hssl hmod hword hsmall (hfresh .tmp1).2.symm hy₁
    ((hkept _ hinv (hfresh .invz).1).trans hv) ((hkept _ hn (hfresh .p).1).trans hp)
  have hall := (checked_append _ _ hfirst).trans hsecond
  rw [affine, hcurve, hweierstrass, hedwards]
  rw [List.cons_append, List.cons_append, List.nil_append] at hall
  simp only [Bool.false_eq_true, if_false, Bool.true_or, if_true, hall]
  refine ⟨_, rfl, ?_, set_self ..⟩
  rw [set_of_ne _ hpoint, set_of_ne _ (hfresh .tmp1).1.symm, hx₁]

theorem normalizeWith_exact (hssl : ssl.Exact) (hmod : ssl.ExactModular) (hs : Locked s)
    (hsmall : s.mpiWordSize.toNat ≤ 2048) (hlive : P.IsLive s) (hcurve : P.curve = c.domain.curve)
    (hxy : P.x ≠ P.y) (hxz : P.x ≠ P.z) (hyz : P.y ≠ P.z) {t : NormVar → Slot}
    (hfresh : ∀ id, t id ≠ P.x ∧ t id ≠ P.y ∧ t id ≠ P.z) (hinj : Function.Injective t)
    (ht : ∀ id, (s.mpiArray (t id)).live = true) (hp : s.values (t .p) = (c.p : Nat))
    (hgranted : grants ssl [⟨cxMpiNbytes ssl s.mpiWordSize c.p, none⟩] s = 1)
    {x y z : Nat} (hx : s.values P.x = x) (hy : s.values P.y = y) (hz : s.values P.z = z) :
    ∃ s', normalizeWith ssl P t s = some (.ok, s') ∧
      s'.values P.x = (x * (z ^ (c.p - 2) % c.p) % c.p : Nat) ∧
      s'.values P.y = (y * (z ^ (c.p - 2) % c.p) % c.p : Nat) ∧ s'.values P.z = 1 := by
  obtain ⟨hlx, hly, hlz⟩ := hlive
  have hisSome : (cxMpiAlloc ssl (cxMpiNbytes ssl s.mpiWordSize c.p) s).isSome :=
    cxMpiAlloc_isSome hs.word
  obtain ⟨⟨⟨bn, r⟩, u⟩, halloc⟩ := Option.isSome_iff_exists.mp hisSome
  have hsome : r ≠ none := by
    rintro rfl
    simp [grants, Request.alloc, halloc] at hgranted
  rw [← hp] at halloc
  obtain ⟨v, hinvert, hvalues⟩ :=
    cxMpiModInvertNprime_exact (r := t .invz) hmod hs.ctx halloc hsome hlz
    (ht .p) hz hp (p_odd c) c.prime.two_le
  have hsame := sameUnit_cxMpiModInvertNprime hs.wordSized hinvert
  have hkept (i : Slot) (hi : (s.mpiArray i).live = true) (hne : i ≠ t .invz) :
      v.values i = s.values i := by
    rw [hvalues i hi, set_of_ne _ hne]
  have hinvz : v.values (t .invz) = (z ^ (c.p - 2) % c.p : Nat) := by
    rw [hvalues _ (ht .invz), set_self]
  obtain ⟨m, haffine, hmx, hmy⟩ :=
    affine_exact (m := v.values) hssl hmod (hs.of_sameUnit hsame).word
    (hsame.wordSize.symm ▸ hsmall) hcurve hxy (fun id => ⟨(hfresh id).1, (hfresh id).2.1⟩) hinj
    ((hkept _ hlx (hfresh .invz).1.symm).trans hx) ((hkept _ hly (hfresh .invz).2.1.symm).trans hy)
    hinvz ((hkept _ (ht .p) (hinj.ne (by decide))).trans hp)
  have hlive' (i : Slot) (hi : (s.mpiArray i).live = true) := (hsame.live i).trans hi
  rw [normalizeWith, hinvert]
  refine ⟨_, by simp only [Option.bind_eq_bind, Option.bind_some, haffine, if_true]; rfl, ?_, ?_, ?_⟩
  · rw [values_withValues _ _ _ (hlive' _ hlx), cxMpiSetU32_exact hssl, set_of_ne _ hxz, hmx]
  · rw [values_withValues _ _ _ (hlive' _ hly), cxMpiSetU32_exact hssl, set_of_ne _ hyz, hmy]
  · rw [values_withValues _ _ _ (hlive' _ hlz), cxMpiSetU32_exact hssl, set_self]
    rfl

/-- The power that the code takes for the inverse. -/
theorem cast_mul_pow (x : Nat) {z : Nat} (hz : (z : ZMod c.p) ≠ 0) :
    ((x * (z ^ (c.p - 2) % c.p) % c.p : Nat) : ZMod c.p) = x / z := by
  have hfermat := ZMod.pow_card_sub_one_eq_one hz
  have hpow : (z : ZMod c.p) ^ (c.p - 1) = z ^ (c.p - 2) * z := by
    rw [← pow_succ]
    have htwo := c.prime.two_le
    congr 1
    omega
  rw [ZMod.natCast_mod, Nat.cast_mul, ZMod.natCast_mod, Nat.cast_pow, eq_div_iff hz, mul_assoc,
    ← hpow, hfermat, mul_one]

theorem cxMpiEcpointNormalize_exact (hssl : ssl.Exact) (hmod : ssl.ExactModular) (hs : Locked s)
    (hsmall : s.mpiWordSize.toNat ≤ 2048) (hlive : P.IsLive s) (hcurve : P.curve = c.domain.curve)
    (hxy : P.x ≠ P.y) (hxz : P.x ≠ P.z) (hyz : P.y ≠ P.z)
    (hgranted : grants ssl (normVars.map (normRequest c.domain) ++
      [⟨cxMpiNbytes ssl s.mpiWordSize c.p, none⟩]) s = 5)
    {x y z : ZMod c.p} (hx : HoldsResidue c s.values P.x x) (hy : HoldsResidue c s.values P.y y)
    (hz : HoldsResidue c s.values P.z z) (hne : z ≠ 0) (stack : NormVar → UInt32) :
    ∃ s', cxMpiEcpointNormalize ssl stack P s = some (.ok, s') ∧
      HoldsResidue c s'.values P.x (x / z) ∧
      HoldsResidue c s'.values P.y (y / z) ∧ s'.values P.z = 1 := by
  obtain ⟨zn, hzlt, hzval, rfl⟩ := hz.exists_nat
  have hzlen : byteLength zn ≤ 2048 := Nat.le_trans (byteLength_le_of_lt hzlt) (by decide)
  have hzero : zn ≠ 0 := by
    rintro rfl
    exact hne Nat.cast_zero
  rw [cxMpiEcpointNormalize, hcurve, cxEcdomain_domain]
  dsimp only
  rw [if_neg (not_not.mpr hlive), hzval,
    if_neg (mt (cxMpiCmpU32_eq_zero_iff hssl hzlen 0).mp hzero)]
  by_cases hone : zn = 1
  · rw [if_pos ((cxMpiCmpU32_eq_zero_iff hssl hzlen 1).mpr hone)]
    subst hone
    refine ⟨s, rfl, ?_, ?_, hzval⟩
    · simpa using hx
    · simpa using hy
  · rw [if_neg (mt (cxMpiCmpU32_eq_zero_iff hssl hzlen 1).mp hone)]
    obtain ⟨xn, -, hxval, rfl⟩ := hx.exists_nat
    obtain ⟨yn, -, hyval, rfl⟩ := hy.exists_nat
    obtain ⟨t, u, halloc, htaken⟩ := allocAll_granted ⟨stack, fun _ => 0⟩ hs.ctx hs.word
      (by decide : normVars.Nodup) (grants_of_append _ _ hgranted)
    have hu := hs.of_balanced htaken.grown.balanced
    have hmem (id : NormVar) : id ∈ normVars := by cases id <;> decide
    have hlast : grants ssl [⟨cxMpiNbytes ssl u.mpiWordSize c.p, none⟩] u = 1 := by
      rw [grants_append_of_ok halloc] at hgranted
      rw [htaken.grown.balanced.wordSize]
      exact Nat.add_left_cancel hgranted
    have hother (id : NormVar) (i : Slot) (hi : (s.mpiArray i).live = true) : t.mpi id ≠ i := by
      rintro rfl
      exact Bool.false_ne_true ((htaken.grown.fresh _ ⟨id, hmem id, rfl⟩).symm.trans hi)
    have hthere (i : Slot) (hi : (s.mpiArray i).live = true) := (htaken.grown.live i).mpr (.inl hi)
    have hloaded : u.values (t.mpi .p) = (c.p : Nat) := by
      rw [State.values, htaken.value .p (hmem .p), Option.getD_some]
      simp only [normRequest, Request.value, CxCurveDomain.bytes]
      rw [List.take_of_length_le (by rw [length_toBE]), hssl.bin2bn, fromBE_toBE_of_lt (p_lt c)]
      rfl
    obtain ⟨hlx, hly, hlz⟩ := hlive
    obtain ⟨v, hrun, hvx, hvy, hvz⟩ := normalizeWith_exact hssl hmod hu
      (htaken.grown.balanced.wordSize ▸ hsmall) ⟨hthere _ hlx, hthere _ hly,
        hthere _ hlz⟩ hcurve hxy hxz hyz
      (fun id => ⟨hother id _ hlx, hother id _ hly, hother id _ hlz⟩)
      (fun id id' h => htaken.injective id (hmem id) id' (hmem id') h)
      (fun id => (htaken.grown.live _).mpr (.inr ⟨id, hmem id, rfl⟩)) hloaded hlast
      ((htaken.keeps.values hlx).trans hxval) ((htaken.keeps.values hly).trans hyval)
      ((htaken.keeps.values hlz).trans hzval)
    obtain ⟨_, _, hrun', hsame⟩ := normalizeWith_sameUnit ssl hu P t.mpi
    rw [hrun] at hrun'
    cases hrun'
    have hkept (i : Slot) (hi : (s.mpiArray i).live = true) :
        (destroyHandles [t.bn .tmp1, t.bn .tmp2, t.bn .invz, t.bn .p] v).values i = v.values i := by
      refine values_destroyHandles _ (hu.of_sameUnit hsame).ctx fun hbn => ?_
      have hne (id : NormVar) : handle (some i) ≠ t.bn id := by
        rw [htaken.bn id (hmem id)]
        exact fun h => hother id i hi (handle_injective h).symm
      simp [hne] at hbn
    have hreduced (n : Nat) : n % c.p < c.p := Nat.mod_lt _ c.prime.pos
    rw [halloc]
    refine ⟨_, by simp only [Option.bind_eq_bind, Option.bind_some, orMemoryFull, if_true, hrun]; rfl,
      holdsResidue_of_lt (hreduced _) ((hkept _ hlx).trans hvx) (cast_mul_pow _ hne),
      holdsResidue_of_lt (hreduced _) ((hkept _ hly).trans hvy) (cast_mul_pow _ hne),
      (hkept _ hlz).trans hvz⟩

end Speculos.Ec
