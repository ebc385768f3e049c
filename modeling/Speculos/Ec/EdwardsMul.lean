import Speculos.Ec.AffineCurve
import Speculos.Ec.ScalarBits
import Speculos.Ec.Room

/-!
# Multiplication on EdBLS12 and Jubjub

`cx_twisted_edwards_mul_point` with all its numbers: its two points are a rung of the ladder in
every round, so that they differ by the point that is multiplied.

What `cx_twisted_edwards_mul_point` leaves in the point, where all its allocations succeed: the
multiple by the number of which its ladder takes the bits.
-/

namespace Speculos.Ec

open Lib Bn Lib.TwistedEdwards

variable {ssl : Openssl} {c : EdwardsCurve} {m : Mpis}

/-- The affine coordinates of a point, with `z = 1`. -/
structure IsAffine (c : EdwardsCurve) (P : MpiPoint) (pt : c.curve.Point) (m : Mpis) : Prop where
  x : HoldsResidue c m P.x pt.xy.1
  y : HoldsResidue c m P.y pt.xy.2
  z : m P.z = 1

def mulPointStart (ssl : Openssl) (w : UInt32) (domain : CxCurveDomain) (P R1 : MpiPoint)
    (mpi : TeVar → Slot) (xy : Bool → Slot) (m : Mpis) : Mpis :=
  cxTwistedEdwardsDbl ssl R1 (some (xy true)) mpi (mulPointInit ssl w domain P R1 mpi xy m).2

theorem cxMpiEcpointCopy_exact (hssl : ssl.Exact) {P Q : MpiPoint} {x y z : Nat} (hx : m Q.x = x)
    (hy : m Q.y = y) (hz : m Q.z = z) (hpx : Padded ssl w x) (hpy : Padded ssl w y)
    (hpz : Padded ssl w z) (hxx : P.x ≠ Q.x) (hyy : P.y ≠ Q.y) (hzz : P.z ≠ Q.z) (hyx : Q.y ≠ P.x)
    (hzx : Q.z ≠ P.x) (hzy : Q.z ≠ P.y) :
    cxMpiEcpointCopy ssl w P Q m = ((m.set P.x x).set P.y y).set P.z z := by
  have hfirst := cxMpiCopy_padded hssl hxx hx hpx
  have hsecond := cxMpiCopy_padded (m := m.set P.x x) hssl hyy ((set_of_ne _ hyx _).trans hy) hpy
  have hthird := cxMpiCopy_padded (m := (m.set P.x x).set P.y y) hssl hzz
    ((set_of_ne _ hzy _).trans ((set_of_ne _ hzx _).trans hz)) hpz
  rw [cxMpiEcpointCopy, unchecked, List.foldl_cons, hfirst, List.foldl_cons, hsecond,
    List.foldl_cons, hthird, List.foldl_nil]

section

variable {mpi : TeVar → Slot} {xy : Bool → Slot} {P R1 : MpiPoint} {pt : c.curve.Point}
  (hinj : Function.Injective (mulSlot mpi xy P R1))

variable {w : UInt32} (hssl : ssl.Exact) (hmod : ssl.ExactModular) (hword : w ≠ 0)
    (hsmall : w.toNat ≤ 2048)
include hssl hmod hword hsmall hinj

theorem mulPointInit_exact (h : IsAffine c P pt m) :
    ∃ m', mulPointInit ssl w c.domain P R1 mpi xy m = (.ok, m') ∧
      Ready mpi P R1 c.p c.curve.a c.p m' ∧
      ∀ i, extendedAt xy P R1 c.p m' i = ⟨pt.xy.1, pt.xy.2, 1, pt.xy.1 * pt.xy.2⟩ := by
  obtain ⟨x, hxlt, hx, hxres⟩ := h.x.exists_nat
  obtain ⟨y, hylt, hy, hyres⟩ := h.y.exists_nat
  have ha : c.domain.a < 256 ^ c.domain.length.toNat := by cases c <;> decide
  have hone : 1 < c.p := c.prime.one_lt
  have hlt : x * y % c.p < c.p := Nat.mod_lt _ c.prime.pos
  have hpadded {n : Nat} (hn : n < c.p) := padded_of_lt hssl hword hsmall hn
  let f := mulSlot mpi xy P R1
  have hne {a b : MulName} (h : a ≠ b) : f a ≠ f b := hinj.ne h
  have hset (m : Mpis) (a b : MulName) (v : Int) : (m.set (f a) v) (f b) = if b = a then v
      else m (f b) :=
    set_at hinj m a b v
  let m₁ := m.set (f (.var .a)) c.domain.a
  let m₂ := m₁.set (f (.var .n)) c.p
  let m₃ := m₂.set (f (.t false)) (x * y % c.p : Nat)
  let m₄ := ((m₃.set (f (.coord true .x)) x).set (f (.coord true .y)) y).set (f (.coord true .z))
    (1 : Nat)
  let m₅ := m₄.set (f (.t true)) (x * y % c.p : Nat)
  have h₁ : cxMpiInit ssl (f (.var .a)) (c.domain.bytes c.domain.a) c.domain.length m = (.ok, m₁) :=
    cxMpiInit_toBE hssl _ ha m
  have h₂ : cxMpiInit ssl (f (.var .n)) (c.domain.bytes c.domain.p) c.domain.length m₁ =
      (.ok, m₂) :=
    cxMpiInit_toBE hssl _ (p_lt c) m₁
  have hkept₂ (d : Coord) : m₂ (f (.coord false d)) = m (f (.coord false d)) := by
    simp [m₂, m₁, hset]
  have hx₂ : m₂ (f (.coord false .x)) = x := (hkept₂ .x).trans hx
  have hy₂ : m₂ (f (.coord false .y)) = y := (hkept₂ .y).trans hy
  have hz₂ : m₂ (f (.coord false .z)) = (1 : Nat) := (hkept₂ .z).trans h.z
  have h₃ : cxMpiModMul ssl (f (.t false)) (f (.coord false .x)) (f (.coord false .y))
      (f (.var .n)) m₂ =
      (.ok, m₃) := cxMpiModMul_exact hssl hmod (p_odd c) _ hx₂ hy₂ (set_self ..)
  have hkept (d : Coord) : m₃ (f (.coord false d)) = m₂ (f (.coord false d)) :=
    set_of_ne _ (hne (by simp)) _
  have h₄ : cxMpiEcpointCopy ssl w R1 P m₃ = m₄ :=
    cxMpiEcpointCopy_exact hssl ((hkept .x).trans hx₂) ((hkept .y).trans hy₂) ((hkept .z).trans hz₂)
      (hpadded hxlt) (hpadded hylt) (hpadded hone)
      (hne (a := .coord true .x) (b := .coord false .x) (by decide))
      (hne (a := .coord true .y) (b := .coord false .y) (by decide))
      (hne (a := .coord true .z) (b := .coord false .z) (by decide))
      (hne (a := .coord false .y) (b := .coord true .x) (by decide))
      (hne (a := .coord false .z) (b := .coord true .x) (by decide))
      (hne (a := .coord false .z) (b := .coord true .y) (by decide))
  have h₅ : cxMpiCopy ssl w (f (.t true)) (f (.t false)) m₄ = (.ok, m₅) :=
    cxMpiCopy_padded hssl (hne (by decide)) (by simp [m₄, m₃, hset]) (hpadded hlt)
  have hx₅ (i : Bool) : m₅ (f (.coord i .x)) = x := by cases i <;> simp [m₅, m₄, m₃, hset, hx₂]
  have hy₅ (i : Bool) : m₅ (f (.coord i .y)) = y := by cases i <;> simp [m₅, m₄, m₃, hset, hy₂]
  have hz₅ (i : Bool) : m₅ (f (.coord i .z)) = (1 : Nat) := by
    cases i <;> simp [m₅, m₄, m₃, hset, hz₂]
  have ht₅ (i : Bool) : m₅ (f (.t i)) = (x * y % c.p : Nat) := by
    cases i <;> simp [m₅, m₄, m₃, hset]
  refine ⟨m₅, ?_, ?_, ?_⟩
  · change checked [cxMpiInit ssl (f (.var .a)) _ _, cxMpiInit ssl (f (.var .n)) _ _,
      cxMpiModMul ssl (f (.t false)) (f (.coord false .x)) (f (.coord false .y)) (f (.var .n)),
      fun m => (.ok, cxMpiEcpointCopy ssl w R1 P m),
      cxMpiCopy ssl w (f (.t true)) (f (.t false))] m = _
    simp only [checked, h₁, h₂, h₃, h₄, h₅, ne_eq, not_true_eq_false, if_false]
  · refine ⟨?_, ?_, fun i d => ?_⟩
    · have hn : m₅ (f (.var .n)) = (c.p : Nat) := by simp [m₅, m₄, m₃, m₂, hset]
      exact hn
    · have ha : m₅ (f (.var .a)) = (c.domain.a : Nat) := by
        simp [m₅, m₄, m₃, m₂, m₁, hset]
      exact (congrArg (Int.cast (R := ZMod c.p)) ha).trans (Int.cast_natCast _)
    · have hsmall {n : Nat} {v : Int} (hv : v = n) (hn : n < c.p) :
          0 ≤ v ∧ v < (c.p : Nat) := by
        subst hv
        exact ⟨Int.natCast_nonneg n, Int.ofNat_lt.mpr hn⟩
      cases d with
      | x => exact hsmall (hx₅ i) hxlt
      | y => exact hsmall (hy₅ i) hylt
      | z => exact hsmall (hz₅ i) hone
  · intro i
    have hcast {n : Nat} {v : Int} (hv : v = n) : ((v : Int) : ZMod c.p) = n := by
      rw [hv, Int.cast_natCast]
    refine Extended.ext ((hcast (hx₅ i)).trans hxres) ((hcast (hy₅ i)).trans hyres)
      ((hcast (hz₅ i)).trans Nat.cast_one) ((hcast (ht₅ i)).trans ?_)
    rw [ZMod.natCast_mod, Nat.cast_mul, hxres, hyres]

theorem mulPointWith_exact (h : IsAffine c P pt m) (k : Bytes) :
    ∃ m₁, mulPointStart ssl w c.domain P R1 mpi xy m = m₁ ∧
      Ready mpi P R1 c.p c.curve.a c.p m₁ ∧ Rung (extendedAt xy P R1 c.p m₁) pt 1 ∧
      mulPointWith ssl w c.domain P k mpi xy R1 m =
        (ladderBits k).map fun bits => bits.foldl (mulPointStep ssl P R1 mpi xy) m₁ := by
  obtain ⟨m₀, hinit, hready, haffine⟩ := mulPointInit_exact hinj hssl hmod hword hsmall h
  obtain ⟨m₁, hdbl, hready₁, hdouble, hsame⟩ :=
    hready.dbl hssl hmod (p_odd c) (Nat.le_refl _) hinj true
  have hstart : mulPointStart ssl w c.domain P R1 mpi xy m = m₁ := by
    rw [mulPointStart, hinit]
    exact hdbl
  refine ⟨m₁, hstart, hready₁, fun i => ?_, ?_⟩
  · have hpoint : Represents (⟨pt.xy.1, pt.xy.2, 1,
        pt.xy.1 * pt.xy.2⟩ : Extended (ZMod c.p)) pt.xy :=
      represents_affine pt.xy
    cases i with
    | false =>
      rw [← Bool.not_true, hsame, haffine]
      simpa using hpoint
    | true =>
      rw [hdouble, haffine]
      simpa [two_nsmul] using hpoint.dbl
  · rw [← hstart, mulPointWith, mulPointStart, hinit]
    rfl

end

end Speculos.Ec

-- ---------------------------------------------------------------------------
-- Multiplication on EdBLS12 and Jubjub
-- ---------------------------------------------------------------------------

namespace Speculos.Ec

open Lib Bn Lib.TwistedEdwards

variable {ssl : Openssl} {c : EdwardsCurve}

/-- All allocations of `cx_twisted_edwards_mul_point` succeed: those before the ladder, and those of
the normalisation, which finds the unit as it was before. -/
structure AllGranted (ssl : Openssl) (c : EdwardsCurve) (s : State) : Prop where
  formulas : grants ssl (mulVars.map (mulRequest c.domain) ++
    pointRequests s.mpiWordSize c.domain) s = 27
  normalisation : grants ssl (normVars.map (normRequest c.domain) ++
    [⟨cxMpiNbytes ssl s.mpiWordSize c.p, none⟩]) s = 5

theorem isBufferZero_iff (k : Bytes) : isBufferZero k = true ↔ fromBE k = 0 := by
  rw [isBufferZero, List.all_eq_true]
  constructor
  · intro h
    have hzeros : k = List.replicate k.length 0 :=
      List.eq_replicate_of_mem fun b hb => of_decide_eq_true (h b hb)
    rw [hzeros, fromBE_replicate_zero]
  · intro h b hb
    have hzeros : k = List.replicate k.length 0 :=
      fromBE_injective (by rw [List.length_replicate]) (by rw [h, fromBE_replicate_zero])
    rw [hzeros] at hb
    exact decide_eq_true (List.eq_of_mem_replicate hb)

theorem mem_mulVars (id : MulVar) : id ∈ mulVars := by
  rcases id with id | i
  · cases id <;> simp [mulVars, teVars]
  · cases i <;> simp [mulVars]

theorem nodup_mulVars : mulVars.Nodup := by simp [mulVars, teVars]

theorem AllGranted.word_le (hgranted : AllGranted ssl c s) (hssl : ssl.Exact) (hs : Reachable s)
    (hctx : s.localBnCtx = true) : s.mpiWordSize.toNat ≤ 2048 := by
  have hvar : mulRequest c.domain (.inr false) ∈ mulVars.map (mulRequest c.domain) ++
      pointRequests s.mpiWordSize c.domain :=
        List.mem_append_left _ (List.mem_map_of_mem (mem_mulVars _))
  have hcoord : ⟨sizeToMpiWordBytes s.mpiWordSize c.domain.length, none⟩ ∈ mulVars.map
      (mulRequest c.domain) ++
      pointRequests s.mpiWordSize c.domain := List.mem_append_right _ (by simp [pointRequests])
  exact word_le_of_granted hssl hs hctx hgranted.formulas hvar hcoord rfl

theorem mulSlot_injective {t : Temps MulVar}
    (htaken : Taken ssl (mulRequest c.domain) t₀ mulVars [] s t u) (hR1 : Allocates Q R1 u v)
    (hlive : P.IsLive s) (hxy : P.x ≠ P.y) (hxz : P.x ≠ P.z) (hyz : P.y ≠ P.z) :
    Function.Injective (mulSlot (t.mpi ∘ .inl) (t.mpi ∘ .inr) P R1) := by
  obtain ⟨hlx, hly, hlz⟩ := hlive
  have hvars {id id' : MulVar} (h : t.mpi id = t.mpi id') : id = id' :=
    htaken.injective id (mem_mulVars id) id' (mem_mulVars id') h
  have hlive (d : Coord) : (s.mpiArray (P.coord d)).live = true := by cases d <;> assumption
  have hold (id : MulVar) (d : Coord) : t.mpi id ≠ P.coord d := by
    intro h
    have hfree := htaken.grown.fresh _ ⟨id, mem_mulVars id, rfl⟩
    rw [h, hlive d] at hfree
    exact Bool.false_ne_true hfree.symm
  have hnew (d : Coord) : (u.mpiArray (R1.coord d)).live = false :=
    hR1.grown.fresh _ (by cases d <;> simp [MpiPoint.coord])
  have hvar (id : MulVar) (d : Coord) : t.mpi id ≠ R1.coord d := by
    intro h
    have hthere := (htaken.grown.live _).mpr (.inr ⟨id, mem_mulVars id, rfl⟩)
    rw [h, hnew d] at hthere
    exact Bool.false_ne_true hthere
  have hpoint (d e : Coord) : P.coord d ≠ R1.coord e := by
    intro h
    have hthere := (htaken.grown.live _).mpr (.inl (hlive d))
    rw [h, hnew e] at hthere
    exact Bool.false_ne_true hthere
  obtain ⟨hxy', hxz', hyz'⟩ := hR1.distinct
  have hcoord (i : Bool) {d e : Coord} (h : (rungPoint P R1 i).coord d =
      (rungPoint P R1 i).coord e) :
      d = e := by
    cases i <;> cases d <;> cases e <;> simp_all [rungPoint, MpiPoint.coord]
  have hcross (id : MulVar) (i : Bool) (d : Coord) : t.mpi id ≠ (rungPoint P R1 i).coord d := by
    cases i with
    | false => exact hold id d
    | true => exact hvar id d
  rintro (id | i | ⟨i, d⟩) (id' | i' | ⟨i', d'⟩) h
  · exact congrArg MulName.var (Sum.inl.inj (hvars h))
  · cases hvars h
  · exact absurd h (hcross _ i' d')
  · cases hvars h
  · exact congrArg MulName.t (Sum.inr.inj (hvars h))
  · exact absurd h (hcross _ i' d')
  · exact absurd h.symm (hcross _ i d)
  · exact absurd h.symm (hcross _ i d)
  · rcases Bool.eq_or_eq_not i i' with rfl | rfl
    · rw [hcoord i h]
    · cases i' with
      | false => exact absurd h.symm (hpoint d' d)
      | true => exact absurd h (hpoint d d')

theorem HoldsResidue.congr {m m' : Mpis} {x : ZMod c.p} (h : HoldsResidue c m i x)
    (heq : m' i = m i) :
    HoldsResidue c m' i x := by
  exact heq.trans h

theorem IsAffine.congr {m m' : Mpis} {pt : c.curve.Point} (h : IsAffine c P pt m)
    (heq : ∀ d, m' (P.coord d) = m (P.coord d)) : IsAffine c P pt m' :=
  ⟨h.x.congr (heq .x), h.y.congr (heq .y), (heq .z).trans h.z⟩

theorem Ready.holdsResidue {mpi : TeVar → Slot} {a : ZMod c.p} {m : Mpis}
    (h : Ready mpi P R1 c.p a c.p m) (i : Bool) (d : Coord) :
    HoldsResidue c m ((rungPoint P R1 i).coord d) (m ((rungPoint P R1 i).coord d) : Int) := by
  obtain ⟨hnonneg, hlt⟩ := h.small i d
  refine holdsResidue_of_lt (n := (m ((rungPoint P R1 i).coord d)).toNat) ?_
    (Int.toNat_of_nonneg hnonneg).symm ?_
  · omega
  · rw [← Int.cast_natCast, Int.toNat_of_nonneg hnonneg]

theorem handle_not_mem {t : Temps MulVar}
    (htaken : Taken ssl (mulRequest c.domain) t₀ mulVars [] s t u) (hR1 : Allocates Q R1 u v)
    (hinj : Function.Injective (mulSlot (t.mpi ∘ .inl) (t.mpi ∘ .inr) P R1))
    (d : Coord) : handle (some (P.coord d)) ∉ mulVars.map t.bn ++ Q.handles := by
  have hname {a b : MulName} (h : mulSlot (t.mpi ∘ .inl) (t.mpi ∘ .inr) P R1 a =
      mulSlot (t.mpi ∘ .inl) (t.mpi ∘ .inr) P R1 b) : a = b := hinj h
  rw [List.mem_append, not_or]
  constructor
  · intro hmem
    obtain ⟨id, hid, hbn⟩ := List.mem_map.mp hmem
    rw [htaken.bn id hid] at hbn
    have hslot := handle_injective hbn
    cases id with
    | inl id => cases hname (a := .var id) (b := .coord false d) hslot
    | inr i => cases hname (a := .t i) (b := .coord false d) hslot
  · intro hmem
    simp only [EcPoint.handles, hR1.x, hR1.y, hR1.z, List.mem_cons, List.not_mem_nil,
      or_false] at hmem
    rcases hmem with h | h | h
    · cases hname (a := .coord false d) (b := .coord true .x) (handle_injective h)
    · cases hname (a := .coord false d) (b := .coord true .y) (handle_injective h)
    · cases hname (a := .coord false d) (b := .coord true .z) (handle_injective h)

theorem mulPointReleased_exact (hssl : ssl.Exact) (hmod : ssl.ExactModular) (hs : Locked s)
    (hsmall : s.mpiWordSize.toNat ≤ 2048) (hlive : P.IsLive s) (hxy : P.x ≠ P.y) (hxz : P.x ≠ P.z)
    (hyz : P.y ≠ P.z) {pt : c.curve.Point} (haffine : IsAffine c P pt s.values)
    (hgranted : AllGranted ssl c s) (hx : pt.xy.1 ≠ 0) (hy : pt.xy.2 ≠ 0) (stack : TeStack)
    (k : Bytes) :
    ∃ v : List Bool → State,
      mulPointReleased ssl stack c.domain P k s = (ladderBits k).map (fun bits => (.ok, v bits)) ∧
      ∀ bits, SameUnit s (v bits) ∧
        ∃ w : Extended (ZMod c.p), Represents w (climb 1 bits • pt).xy ∧
          HoldsResidue c (v bits).values P.x w.x ∧ HoldsResidue c (v bits).values P.y w.y ∧
          HoldsResidue c (v bits).values P.z w.z := by
  have hformulas := hgranted.formulas
  obtain ⟨t, u, halloc, htaken⟩ :=
    allocAll_granted ⟨Sum.elim stack.bn stack.xy, fun _ => 0⟩ hs.ctx hs.word
    nodup_mulVars (grants_of_append _ _ hformulas)
  have hu := hs.of_balanced htaken.grown.balanced
  have hthree : grants ssl (pointRequests u.mpiWordSize c.domain) u = 3 := by
    rw [grants_append_of_ok halloc] at hformulas
    rw [htaken.grown.balanced.wordSize]
    exact Nat.add_left_cancel (n := 24) hformulas
  obtain ⟨Q, R1, v, hpoint, hfound, hR1⟩ :=
    sysCxEcpointAlloc_granted ssl hu (cxEcdomain_domain c) stack.q hthree
  have hwith := withPoint_eq hpoint hfound
    (mulPointWith ssl u.mpiWordSize c.domain P k (t.mpi ∘ .inl) (t.mpi ∘ .inr))
  have hinj := mulSlot_injective htaken hR1 hlive hxy hxz hyz
  have hlive' (d : Coord) : (s.mpiArray (P.coord d)).live = true := by
    obtain ⟨hlx, hly, hlz⟩ := hlive
    cases d <;> assumption
  have hkept (d : Coord) : v.values (P.coord d) = s.values (P.coord d) := by
    rw [hR1.keeps.values ((htaken.grown.live _).mpr (.inl (hlive' d))),
      htaken.keeps.values (hlive' d)]
  obtain ⟨m₁, -, hready, hrung, hrun⟩ := mulPointWith_exact hinj hssl hmod hu.word
    (htaken.grown.balanced.wordSize.symm ▸ hsmall) (haffine.congr hkept) k
  let m (bits : List Bool) := bits.foldl (mulPointStep ssl P R1 (t.mpi ∘ .inl) (t.mpi ∘ .inr)) m₁
  have hrelease (bits : List Bool) := htaken.release_sameUnit hs
    (hR1.grown.sameUnit (sameUnit_withValues v (m bits))) hR1.mem_handles hR1.harmless
  refine ⟨fun bits => (release (mulVars.map t.bn) Q (v.withValues (m bits))).2, ?_, fun bits => ?_⟩
  · rw [mulPointReleased, halloc]
    simp only [Option.bind_eq_bind, Option.bind_some, whenTaken, if_true, hwith, hrun,
      Option.map_map]
    cases ladderBits k with
    | none => rfl
    | some bits => exact congrArg some (Prod.ext (hrelease bits).1 rfl)
  · obtain ⟨hready', hladder⟩ := hready.run hssl hmod (p_odd c) (Nat.le_refl _) hinj bits
    have hpoint := (hrung.run hx hy bits) false
    rw [← hladder] at hpoint
    have hv := hu.of_balanced hR1.grown.balanced
    have hvalue (d : Coord) : (release (mulVars.map t.bn) Q (v.withValues (m bits))).2.values
        (P.coord d) =
        m bits (P.coord d) := by
      have hvlive : (v.mpiArray (P.coord d)).live = true :=
        (hR1.grown.live _).mpr (.inl ((htaken.grown.live _).mpr (.inl (hlive' d))))
      have hsame := sameUnit_withValues v (m bits)
      rw [release_eq (hv.of_sameUnit hsame).ctx, values_destroyHandles _ (hv.of_sameUnit hsame).ctx,
        values_withValues _ _ _ hvlive]
      exact handle_not_mem htaken hR1 hinj d
    exact ⟨(hrelease bits).2, extendedAt (t.mpi ∘ .inr) P R1 c.p (m bits) false,
      by simpa using hpoint,
      (hready'.holdsResidue false .x).congr (hvalue .x),
      (hready'.holdsResidue false .y).congr (hvalue .y),
      (hready'.holdsResidue false .z).congr (hvalue .z)⟩

/-- The multiplication comes to an end where a bit of the scalar is found, with the multiple by the
number that was found. -/
theorem cxTwistedEdwardsMulPoint_exact (hssl : ssl.Exact) (hmod : ssl.ExactModular) (hs : Locked s)
    (hsmall : s.mpiWordSize.toNat ≤ 2048) (hlive : P.IsLive s) (hcurve : P.curve = c.domain.curve)
    (hxy : P.x ≠ P.y) (hxz : P.x ≠ P.z) (hyz : P.y ≠ P.z) {pt : c.curve.Point}
    (haffine : IsAffine c P pt s.values) (hgranted : AllGranted ssl c s) (hx : pt.xy.1 ≠ 0)
    (hy : pt.xy.2 ≠ 0) (stack : TeStack) {k : Bytes} (hk : isBufferZero k = false)
    (hlen : k.length < 2 ^ 32) :
    (scanned k = 0 → cxTwistedEdwardsMulPoint ssl stack P k s = none) ∧
      (scanned k ≠ 0 → ∃ s', cxTwistedEdwardsMulPoint ssl stack P k s = some (.ok, s') ∧
        IsAffine c P (scanned k • pt) s'.values) := by
  have hne : fromBE k ≠ 0 := by
    rw [ne_eq, ← isBufferZero_iff, hk]
    exact Bool.false_ne_true
  obtain ⟨v, hrun, hv⟩ :=
    mulPointReleased_exact hssl hmod hs hsmall hlive hxy hxz hyz haffine hgranted hx hy
    stack k
  rw [cxTwistedEdwardsMulPoint, hk, hcurve, cxEcdomain_domain]
  simp only [Bool.false_eq_true, if_false, Option.bind_eq_bind, hrun]
  obtain ⟨hzero, hbits⟩ | ⟨hnonzero, bits, hbits, hclimb⟩ := ladderBits_cases hne hlen
  · rw [hbits]
    exact ⟨fun _ => rfl, fun h => absurd hzero h⟩
  · refine ⟨fun h => absurd h hnonzero, fun _ => ?_⟩
    obtain ⟨hsame, w, hw, hwx, hwy, hwz⟩ := hv bits
    have hlive' : P.IsLive (v bits) :=
      ⟨(hsame.live _).trans hlive.1, (hsame.live _).trans hlive.2.1, (hsame.live _).trans hlive.2.2⟩
    obtain ⟨s', hnormalize, hnx, hny, hnz⟩ :=
      cxMpiEcpointNormalize_exact hssl hmod (hs.of_sameUnit hsame)
      (hsame.wordSize.symm ▸ hsmall) hlive' hcurve hxy hxz hyz
      (by rw [grants_sameUnit hsame hs.ctx hs.word, hsame.wordSize]; exact hgranted.normalisation)
      hwx hwy hwz hw.z_ne stack.norm
    rw [hbits, Option.map_some, Option.bind_some, if_pos rfl, hnormalize]
    rw [hclimb] at hw
    refine ⟨s', rfl, ?_, ?_, hnz⟩
    · rwa [hw.x, mul_div_cancel_right₀ _ hw.z_ne] at hnx
    · rwa [hw.y, mul_div_cancel_right₀ _ hw.z_ne] at hny

end Speculos.Ec
