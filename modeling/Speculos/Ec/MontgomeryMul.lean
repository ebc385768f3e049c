import Speculos.Ec.MontgomeryLadder
import Speculos.Ec.AffineCurve
import Speculos.Ec.Room

/-!
# Multiplication on Curve25519 and Curve448

`cx_montgomery_mul_coordinate` with all its numbers: it leaves in the coordinate what X25519 and
X448 return for it.
-/

namespace Speculos.Ec

open Lib Bn

variable {ssl : Openssl} {c : MontCurve}

instance (c : MontCurve) : NeZero c.p :=
  ⟨Nat.ne_of_gt (Nat.lt_of_lt_of_le Nat.zero_lt_two c.two_le_p)⟩

-- ---------------------------------------------------------------------------
-- The division
-- ---------------------------------------------------------------------------

theorem MontCurve.mul_eq (c : MontCurve) (k U : Nat) :
    Rfc7748.mul c.params k U =
      ((Rfc7748.ladder (c.params.a24 : ZMod c.p) U (Rfc7748.scalarBits c.params.bits k)).x2 *
        (Rfc7748.ladder (c.params.a24 : ZMod c.p) U (Rfc7748.scalarBits c.params.bits k)).z2 ^
          (c.p - 2)).val := by
  rw [Rfc7748.mul, c.p_eq]

/-- The numbers and points of the function, those of the division among them, and its coordinate. -/
structure MontReady (ssl : Openssl) (c : MontCurve) (u : Slot) (f : MontVar → Slot) (s : State) :
    Prop where
  locked : Locked s
  small : s.mpiWordSize.toNat ≤ 2048
  injective : Function.Injective f
  ne : ∀ id, f id ≠ u
  live : ∀ id, (s.mpiArray (f id)).live = true
  liveU : (s.mpiArray u).live = true
  n : s.values (f .n) = c.p
  granted : grants ssl [⟨cxMpiNbytes ssl s.mpiWordSize c.p, none⟩] s = 1

theorem montBody_exact (hssl : ssl.Exact) (hmod : ssl.ExactModular) (hdiv : ssl.ExactDivision)
    {u : Slot} {f : MontVar → Slot} (h : MontReady ssl c u f s) {us : Bytes}
    (hexport : cxMpiExport ssl s.mpiWordSize (s.values u) c.domain.length = .ok us)
    (hus : us.length = c.domain.length.toNat) {k : Bytes} (hk : k.length = c.domain.length.toNat)
    (stack : Nat → UInt8) :
    ∃ s', montBody ssl stack c.domain u k f s = some (.ok, s') ∧ SameUnit s s' ∧
      s'.values u = (c.xFunction k us : Nat) := by
  obtain ⟨m, hladder, hready, hcoordinates⟩ :=
    montLadder_exact h.injective hssl hmod hdiv h.locked.word
    h.small c h.ne h.n hexport hus hk stack
  have hsame := sameUnit_withValues s m
  have hvalue (i : Slot) (hi : (s.mpiArray i).live = true) : (s.withValues m).values i = m i :=
    values_withValues s m i hi
  have hlive (i : Slot) (hi : (s.mpiArray i).live = true) : ((s.withValues m).mpiArray i).live =
      true :=
    (hsame.live i).trans hi
  obtain ⟨z, hz⟩ := Int.eq_ofNat_of_zero_le hready.p1z
  -- the inverse
  have hgranted := (grants_sameUnit hsame h.locked.ctx h.locked.word _).trans h.granted
  have hn := (hvalue _ (h.live .n)).trans hready.n
  have hword : (s.withValues m).mpiWordSize = s.mpiWordSize := rfl
  obtain ⟨⟨⟨bn, r⟩, v⟩, halloc⟩ := Option.isSome_iff_exists.mp
    (cxMpiAlloc_isSome (h.locked.of_sameUnit hsame).word :
      (cxMpiAlloc ssl (cxMpiNbytes ssl s.mpiWordSize c.p) (s.withValues m)).isSome)
  have hsome : r ≠ none := by
    rintro rfl
    simp [grants, Request.alloc, halloc] at hgranted
  rw [← hn, ← hword] at halloc
  have hctx : (s.withValues m).localBnCtx = true := h.locked.ctx
  have hdivisor := (hvalue _ (h.live .p1z)).trans hz
  obtain ⟨w, hinvert, hvalues⟩ := cxMpiModInvertNprime_exact (r := f .v1) hmod hctx halloc hsome
    (hlive _ (h.live .p1z)) (hlive _ (h.live .n)) hdivisor hn c.p_odd c.two_le_p
  have hunit := sameUnit_cxMpiModInvertNprime (h.locked.of_sameUnit hsame).wordSized hinvert
  -- the product
  have hkept (id : MontVar) (hid : id ≠ .v1) : w.values (f id) = m (f id) := by
    rw [hvalues _ (hlive _ (h.live id)), set_of_ne _ (h.injective.ne hid), hvalue _ (h.live id)]
  have hv1 : w.values (f .v1) = (z ^ (c.p - 2) % c.p : Nat) := by
    rw [hvalues _ (hlive _ (h.live .v1)), set_self]
  have hproduct := ModOp.call_exact hssl hmod c.p_odd .mul u (f .v1) (f .p1x)
    ((hkept .n (by decide)).trans hready.n)
  have hresult : ModOp.mul.reduced c.p (w.values (f .v1)) (w.values (f .p1x)) =
      (c.xFunction k us : Nat) := by
    have hx2 := congrArg Rfc7748.Ladder.x2 hcoordinates
    have hz2 := congrArg Rfc7748.Ladder.z2 hcoordinates
    rw [ladderAt] at hx2 hz2
    rw [c.xFunction_eq, c.mul_eq, ← hx2, ← hz2, hz, hv1, hkept .p1x (by decide), ModOp.reduced,
      ModOp.apply, ← ZMod.val_intCast]
    push_cast
    rw [mul_comm]
  refine ⟨w.withValues (w.values.set u (c.xFunction k us : Nat)), ?_, ?_, ?_⟩
  · rw [hresult] at hproduct
    rw [montBody, if_neg (by rw [hk]; exact Nat.not_lt.mpr c.length_le), hladder]
    simp only [Option.bind_eq_bind, Option.bind_some, hinvert, ne_eq, not_true_eq_false, if_false]
    exact congrArg (fun r : CxErr × Mpis => some (EcErr.mpi r.1, w.withValues r.2)) hproduct
  · exact (hsame.trans hunit).trans (sameUnit_withValues w _)
  · rw [values_withValues _ _ _ ((hunit.live u).trans (hlive u h.liveU)), set_self]

-- ---------------------------------------------------------------------------
-- Numbers and points
-- ---------------------------------------------------------------------------

/-- The allocations of the function, the one of its division among them. -/
def montRequests (ssl : Openssl) (wordSize : UInt32) (domain : CxCurveDomain) : List Request :=
  montVars.map (montRequest domain) ++ (pointRequests wordSize domain ++
    (pointRequests wordSize domain ++ [⟨cxMpiNbytes ssl wordSize domain.p, none⟩]))

theorem mont_word_le (hssl : ssl.Exact) (hs : Reachable s) (hctx : s.localBnCtx = true)
    (hgranted : grants ssl (montRequests ssl s.mpiWordSize c.domain) s = 14) :
    s.mpiWordSize.toNat ≤ 2048 := by
  have hvar : montRequest c.domain .a ∈ montRequests ssl s.mpiWordSize c.domain :=
    List.mem_append_left _ (List.mem_map_of_mem (by decide))
  have hcoord : ⟨sizeToMpiWordBytes s.mpiWordSize c.domain.length, none⟩ ∈
      montRequests ssl s.mpiWordSize c.domain := List.mem_append_right _ (by simp [pointRequests])
  exact word_le_of_granted hssl hs hctx hgranted hvar hcoord rfl

theorem sysCxEcpointAlloc_before (hs : Locked s) (hdomain : cxEcdomain curve = some domain)
    (P : EcPoint) {more : List Request}
    (hgranted : grants ssl (pointRequests s.mpiWordSize domain ++ more) s = 3 + more.length) :
    ∃ Q p u, sysCxEcpointAlloc ssl curve P s = some ((.ok, Q), u) ∧
      cxEcdomain Q.curve = some domain ∧
      Allocates Q p s u ∧ grants ssl more u = more.length := by
  have hthree : grants ssl (pointRequests s.mpiWordSize domain) s = 3 :=
    grants_of_append _ _ (hgranted.trans (by rw [List.length_append]; rfl))
  obtain ⟨Q, p, u, halloc, -, hQ⟩ := sysCxEcpointAlloc_granted ssl hs hdomain P hthree
  obtain ⟨-, -, hcurve, -⟩ | ⟨herror, -⟩ := sysCxEcpointAlloc_cases hs hdomain halloc
  swap
  · cases herror
  refine ⟨Q, p, u, halloc, hcurve ▸ hdomain, hQ, ?_⟩
  rw [sysCxEcpointAlloc] at halloc
  dsimp only at halloc
  rw [if_neg (by simp [hs.cxBnLocked]), hdomain] at halloc
  obtain ⟨⟨⟨ok, t⟩, v⟩, hall, hrest⟩ := Option.bind_eq_some_iff.mp halloc
  cases ok with
  | true =>
    cases hrest
    have hmore := grants_append_of_ok hall more
    exact Nat.add_left_cancel (hmore.symm.trans hgranted)
  | false => cases hrest

theorem mem_montVars (id : MontVar) : id ∈ montVars ++ [.p1x, .p1z, .p2x, .p2z] := by
  cases id <;> decide

theorem withPoints_spec {t : Temps MontVar}
    (htaken : Taken ssl (montRequest c.domain) t₀ montVars [] s t u) (h₁ : Allocates Q₁ p₁ u v)
    (h₂ : Allocates Q₂ p₂ v w) :
    Function.Injective (withPoints p₁ p₂ t.mpi) ∧
      ∀ id, (w.mpiArray (withPoints p₁ p₂ t.mpi id)).live = true ∧
        (s.mpiArray (withPoints p₁ p₂ t.mpi id)).live = false := by
  have hvars (id : MontVar) (hid : id ∈ montVars) : (u.mpiArray (t.mpi id)).live = true ∧
      (s.mpiArray (t.mpi id)).live = false :=
    ⟨(htaken.grown.live _).mpr (.inr ⟨id, hid, rfl⟩), htaken.grown.fresh _ ⟨id, hid, rfl⟩⟩
  have hnot {i : Slot} {a b : State} (hlive : (a.mpiArray i).live = true →
    (b.mpiArray i).live = true)
      (hi : (b.mpiArray i).live = false) : (a.mpiArray i).live = false :=
    Bool.eq_false_iff.mpr fun h => Bool.false_ne_true (hi.symm.trans (hlive h))
  have hu (i : Slot) (hi : (s.mpiArray i).live = true) := (htaken.grown.live i).mpr (.inl hi)
  have hv (i : Slot) (hi : (u.mpiArray i).live = true) := (h₁.grown.live i).mpr (.inl hi)
  have hw (i : Slot) (hi : (v.mpiArray i).live = true) := (h₂.grown.live i).mpr (.inl hi)
  have hfirst (i : Slot) (hi : i ∈ ({p₁.x, p₁.y, p₁.z} : Set Slot)) :
      (v.mpiArray i).live = true ∧ (u.mpiArray i).live = false :=
    ⟨(h₁.grown.live i).mpr (.inr hi), h₁.grown.fresh i hi⟩
  have hsecond (i : Slot) (hi : i ∈ ({p₂.x, p₂.y, p₂.z} : Set Slot)) :
      (w.mpiArray i).live = true ∧ (v.mpiArray i).live = false :=
    ⟨(h₂.grown.live i).mpr (.inr hi), h₂.grown.fresh i hi⟩
  have hne {i j : Slot} {a : State} (hi : (a.mpiArray i).live = true)
      (hj : (a.mpiArray j).live = false) :
      i ≠ j := by
    rintro rfl
    exact Bool.false_ne_true (hj.symm.trans hi)
  have hvars' (id : MontVar) (hid : id ∈ montVars) : (v.mpiArray (t.mpi id)).live = true :=
    hv _ (hvars id hid).1
  have hall : montVars.map t.mpi ++ [p₁.x, p₁.z, p₂.x, p₂.z] =
      (montVars ++ [MontVar.p1x, .p1z, .p2x, .p2z]).map (withPoints p₁ p₂ t.mpi) := rfl
  have hnodup : (montVars.map t.mpi ++ [p₁.x, p₁.z, p₂.x, p₂.z]).Nodup := by
    refine List.nodup_append.mpr ⟨?_, ?_, ?_⟩
    · exact List.Nodup.map_on (fun id hid id' hid' h => htaken.injective id hid id' hid' h)
        (by decide)
    · have hcross {i j : Slot} (hi : i ∈ ({p₁.x, p₁.y, p₁.z} : Set Slot))
          (hj : j ∈ ({p₂.x, p₂.y, p₂.z} : Set Slot)) : i ≠ j := hne (hfirst i hi).1 (hsecond j hj).2
      simp [h₁.distinct, h₂.distinct, hcross]
    · rintro i hi j hj
      obtain ⟨id, hid, rfl⟩ := List.mem_map.mp hi
      simp only [List.mem_cons, List.not_mem_nil, or_false] at hj
      rcases hj with rfl | rfl | rfl | rfl
      · exact hne (hvars id hid).1 (hfirst _ (by simp)).2
      · exact hne (hvars id hid).1 (hfirst _ (by simp)).2
      · exact hne (hvars' id hid) (hsecond _ (by simp)).2
      · exact hne (hvars' id hid) (hsecond _ (by simp)).2
  refine ⟨fun id id' h => List.inj_on_of_nodup_map (hall ▸ hnodup) (mem_montVars id) (mem_montVars id') h,
    fun id => ?_⟩
  have hpart : (withPoints p₁ p₂ t.mpi id = t.mpi id ∧ id ∈ montVars) ∨
      withPoints p₁ p₂ t.mpi id ∈ ({p₁.x, p₁.y, p₁.z} : Set Slot) ∨
        withPoints p₁ p₂ t.mpi id ∈ ({p₂.x, p₂.y, p₂.z} : Set Slot) := by
    cases id <;> simp [withPoints, montVars]
  rcases hpart with ⟨hplace, hid⟩ | hplace | hplace
  · rw [hplace]
    exact ⟨hw _ (hvars' id hid), (hvars id hid).2⟩
  · exact ⟨hw _ (hfirst _ hplace).1, hnot (hu _) (hfirst _ hplace).2⟩
  · exact ⟨(hsecond _ hplace).1, hnot (hu _) (hnot (hv _) (hsecond _ hplace).2)⟩

-- ---------------------------------------------------------------------------
-- The function
-- ---------------------------------------------------------------------------

/-- X25519 and X448: `u` holds the string of the coordinate, and the scalar is not zero. -/
theorem cxMontgomeryMulCoordinate_eq (hssl : ssl.Exact) (hmod : ssl.ExactModular)
    (hdiv : ssl.ExactDivision) (hs : Reachable s) (hctx : s.localBnCtx = true) (c : MontCurve)
    {u : Slot}
    (hu : (s.mpiArray u).live = true) {us : Bytes}
    (hexport : cxMpiExport ssl s.mpiWordSize (s.values u) c.domain.length = .ok us)
    (hus : us.length = c.domain.length.toNat) {k : Bytes} (hk : k.length = c.domain.length.toNat)
    (hne : isBufferZero k = false) (stack : MontStack)
    (hgranted : grants ssl (montRequests ssl s.mpiWordSize c.domain) s = 14) :
    ∃ s', cxMontgomeryMulCoordinate ssl stack c.domain.curve u k s = some (.ok, s') ∧
      s'.values u = (c.xFunction k us : Nat) := by
  have hlocked := locked_of_reachable hs hctx
  have hsmall := mont_word_le hssl hs hctx hgranted
  -- the allocations
  obtain ⟨t, s₁, halloc, htaken⟩ := allocAll_granted ⟨stack.bn, fun _ => 0⟩ hctx hlocked.word
    (by decide : montVars.Nodup) (grants_of_append _ _ hgranted)
  have hlocked₁ := hlocked.of_balanced htaken.grown.balanced
  have hword₁ : s₁.mpiWordSize = s.mpiWordSize := htaken.grown.balanced.wordSize
  have hgranted₁ := hgranted
  rw [montRequests, grants_append_of_ok halloc, ← hword₁] at hgranted₁
  obtain ⟨P₁, p₁, s₂, halloc₁, hdomain₁, hP₁, hgranted₂⟩ := sysCxEcpointAlloc_before hlocked₁
    c.cxEcdomain_domain stack.p1 (Nat.add_left_cancel (n := 7) hgranted₁)
  have hlocked₂ := hlocked₁.of_balanced hP₁.grown.balanced
  have hword₂ : s₂.mpiWordSize = s₁.mpiWordSize := hP₁.grown.balanced.wordSize
  rw [← hword₂] at hgranted₂
  obtain ⟨P₂, p₂, s₃, halloc₂, hdomain₂, hP₂, hgranted₃⟩ := sysCxEcpointAlloc_before hlocked₂
    c.cxEcdomain_domain stack.p2 hgranted₂
  have hlocked₃ := hlocked₂.of_balanced hP₂.grown.balanced
  have hword₃ : s₃.mpiWordSize = s₂.mpiWordSize := hP₂.grown.balanced.wordSize
  have hfound₁ := hP₁.fromEcpoint_of_live hlocked₃
    (fun i hi => (hP₂.grown.live i).mpr (.inl hi)) hdomain₁
  have hfound₂ := hP₂.fromEcpoint hlocked₂ hdomain₂
  -- the numbers
  obtain ⟨hinj, hslots⟩ := withPoints_spec htaken hP₁ hP₂
  have hkeeps : Keeps s s₃ := (htaken.keeps.trans hP₁.keeps).trans hP₂.keeps
  have hgrown := (htaken.grown.trans hP₁.grown).trans hP₂.grown
  have hvalue : s₃.values u = s.values u := hkeeps.values hu
  have hn : s₃.values (t.mpi .n) = (c.p : Nat) := by
    have hlive := (htaken.grown.live _).mpr (.inr ⟨.n, by decide, rfl⟩)
    rw [(hP₁.keeps.trans hP₂.keeps).values hlive, State.values, htaken.value .n (by decide),
      Option.getD_some]
    simp only [montRequest, Request.value, CxCurveDomain.bytes]
    rw [List.take_of_length_le (by rw [length_toBE]), hssl.bin2bn, fromBE_toBE_of_lt c.p_lt]
    rfl
  have hword : s₃.mpiWordSize = s.mpiWordSize := (hword₃.trans hword₂).trans hword₁
  have hready : MontReady ssl c u (withPoints p₁ p₂ t.mpi) s₃ := by
    refine ⟨hlocked₃, hword ▸ hsmall, hinj, fun id heq => ?_, fun id => (hslots id).1,
      (hgrown.live u).mpr (.inl hu), hn, ?_⟩
    · have hfree := (hslots id).2
      rw [heq, hu] at hfree
      exact Bool.false_ne_true hfree.symm
    · rw [hword₃]
      exact hgranted₃
  obtain ⟨s₄, hbody, hsame, hresult⟩ := montBody_exact hssl hmod hdiv hready
    (by rw [hvalue, hword]; exact hexport) hus hk stack.bytes
  have hpoints : montPoints ssl true stack c.domain u k t.mpi s₁ = some ((.ok, P₁, P₂), s₄) := by
    rw [montPoints, halloc₁]
    simp only [Option.bind_eq_bind, Option.bind_some, halloc₂, hfound₁, hfound₂, hbody,
      not_true_eq_false, ne_eq, if_false]
    rfl
  -- the numbers go, but for the one of the coordinate
  have hctx₄ : s₄.localBnCtx = true := (hlocked₃.of_sameUnit hsame).ctx
  have hctx₅ := (lacking_destroyHandles (montVars.map t.bn) hctx₄).1.balanced.localBnCtx.trans hctx₄
  have hctx₆ := (lacking_destroyHandles P₁.handles hctx₅).1.balanced.localBnCtx.trans hctx₅
  have hnot : handle (some u) ∉ montVars.map t.bn ++ P₁.handles ++ P₂.handles := by
    intro hmem
    rcases List.mem_append.mp hmem with hmem | hmem
    · rcases List.mem_append.mp hmem with hmem | hmem
      · obtain ⟨id, hid, hbn⟩ := List.mem_map.mp hmem
        exact htaken.harmless (.inl hid) u hu hbn.symm
      · exact (hP₁.harmless _ hmem).of_grown htaken.grown u hu rfl
    · exact ((hP₂.harmless _ hmem).of_grown hP₁.grown).of_grown htaken.grown u hu rfl
  refine ⟨destroyHandles (montVars.map t.bn ++ P₁.handles ++ P₂.handles) s₄, ?_, ?_⟩
  · have hcurve : ¬ (c.domain.curve ≠ CxCurve.curve448 ∧ c.domain.curve ≠ CxCurve.curve25519) := by
      cases c <;> decide
    rw [cxMontgomeryMulCoordinate, hne, c.cxEcdomain_domain]
    dsimp only
    rw [if_neg Bool.false_ne_true, if_neg hcurve, halloc]
    simp only [Option.bind_eq_bind, Option.bind_some, hpoints, sysCxEcpointDestroy_eq hctx₅,
      sysCxEcpointDestroy_eq hctx₆, destroyHandles_append]
    rfl
  · rw [values_destroyHandles _ hctx₄ hnot, hresult]

-- ---------------------------------------------------------------------------
-- The base point
-- ---------------------------------------------------------------------------

/-- A unit with the number 9, as it is read from the string of the base point. -/
def coordinateUnit : State := (lockedUnit.fill 0 32).withValues fun _ => 9 * 256 ^ 31

theorem reachable_coordinateUnit : Reachable coordinateUnit := by
  have hlock : Reachable lockedUnit := Reachable.initial.lock .integers 16
  have halloc : cxMpiAlloc .integers 32 lockedUnit = some (.of (some 0), lockedUnit.fill 0 32) :=
    cxMpiAlloc_of_fits (by decide) (by decide) (by decide) (by decide)
  exact (hlock.alloc halloc).values _

def noMontStack : MontStack :=
  ⟨fun _ => 0, ⟨0, 0, 0, .secp256k1⟩, ⟨0, 0, 0, .secp256k1⟩, fun _ => 0⟩

def basePoint : Bytes := 9 :: List.replicate 31 0

theorem cxMontgomeryMulCoordinate_basePoint :
    ∃ s', cxMontgomeryMulCoordinate .integers noMontStack CxCurve.curve25519 0 (List.replicate 32 1)
        coordinateUnit = some (.ok, s') ∧
      s'.values 0 = (Rfc7748.x25519 (List.replicate 32 1) basePoint : Nat) :=
  have hexport : cxMpiExport .integers coordinateUnit.mpiWordSize (coordinateUnit.values 0) 32 =
      .ok basePoint := by decide
  cxMontgomeryMulCoordinate_eq exact_integers exactModular_integers exactDivision_integers
    reachable_coordinateUnit rfl .curve25519 (by decide) hexport (by decide) (by decide) (by decide)
    noMontStack (by decide)

end Speculos.Ec
