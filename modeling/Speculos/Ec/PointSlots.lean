import Speculos.Ec.CxEcpoint
import Speculos.Ec.Point

/-!
# Slots of point functions

What allocating, destroying and normalising a point leaves of the table. The only function
here that may lose a number of an application is `cx_mpi_ecpoint_normalize`, where it does not
find room for three of its four numbers.

Each operation on a curve gives its numbers back where all of them could be allocated. The
functions that assign -1 to their handles first always do; the others give back what the
stack holds, as soon as an allocation fails before a variable that is given back.
-/

namespace Speculos.Ec

open Lib Bn

/-- A unit that is locked, with the word size it was locked with. -/
structure Locked (s : State) : Prop where
  ctx : s.localBnCtx = true
  word : s.mpiWordSize ≠ 0

theorem locked_of_reachable (hs : Reachable s) (hctx : s.localBnCtx = true) : Locked s :=
  ⟨hctx, (wordSized_of_reachable hs).mp hctx⟩

theorem Locked.of_balanced (hs : Locked s) (h : Balanced s s') : Locked s' :=
  ⟨h.localBnCtx.trans hs.ctx, fun hzero => hs.word (h.wordSize.symm.trans hzero)⟩

theorem Locked.of_sameUnit (hs : Locked s) (h : SameUnit s s') : Locked s' :=
  hs.of_balanced (balanced_of_sameUnit h)

theorem Locked.wordSized (hs : Locked s) : WordSized s := iff_of_true hs.ctx hs.word

theorem Locked.cxBnLocked (hs : Locked s) : cxBnLocked s = .ok := if_pos hs.ctx

theorem Keeps.values (h : Keeps s s') (hi : (s.mpiArray i).live = true) :
    s'.values i = s.values i := by
  rw [State.values, State.values, h i hi]

theorem values_destroyHandles (bns : List UInt32) (hctx : s.localBnCtx = true)
    (hi : handle (some i) ∉ bns) : (destroyHandles bns s).values i = s.values i := by
  rw [State.values, State.values, (lacking_destroyHandles bns hctx).2 i hi]

variable {ssl : Openssl}

-- ---------------------------------------------------------------------------
-- Allocating and destroying points
-- ---------------------------------------------------------------------------

theorem cxMpiDestroy_ok (hctx : s.localBnCtx = true) (bn : UInt32) :
    (cxMpiDestroy (some bn) s).1 = .ok := by
  simp only [cxMpiDestroy, destroySlot, hctx]
  split
  · split <;> rfl
  · rfl

theorem sysCxEcpointDestroy_eq (hctx : s.localBnCtx = true) (P : EcPoint) :
    sysCxEcpointDestroy P s = ((.ok, .zero), destroyHandles P.handles s) := by
  have hx := cxMpiDestroy_ok hctx P.x
  have hxctx := (localBnCtx_cxMpiDestroy P.x s).trans hctx
  have hy := cxMpiDestroy_ok hxctx P.y
  have hyctx := (localBnCtx_cxMpiDestroy P.y _).trans hxctx
  have hz := cxMpiDestroy_ok hyctx P.z
  simp [sysCxEcpointDestroy, sysCxBnDestroy, cxBnLocked, hctx, hx, hy, hz, EcPoint.handles,
    destroyHandles]

/-- The three numbers of a point that was allocated. -/
structure Allocates (Q : EcPoint) (p : MpiPoint) (s s' : State) : Prop where
  x : Q.x = handle (some p.x)
  y : Q.y = handle (some p.y)
  z : Q.z = handle (some p.z)
  curve : p.curve = Q.curve
  distinct : p.x ≠ p.y ∧ p.x ≠ p.z ∧ p.y ≠ p.z
  grown : Grown {p.x, p.y, p.z} s s'
  keeps : Keeps s s'

def pointRequests (wordSize : UInt32) (domain : CxCurveDomain) : List Request :=
  List.replicate 3 ⟨sizeToMpiWordBytes wordSize domain.length, none⟩

theorem sysCxEcpointAlloc_cases (hs : Locked s) (hdomain : cxEcdomain curve = some domain)
    (h : sysCxEcpointAlloc ssl curve P s = some ((error, Q), s')) :
    (error = .ok ∧ grants ssl (pointRequests s.mpiWordSize domain) s = 3 ∧ Q.curve = curve ∧
        ∃ p, Allocates Q p s s') ∨
      (error = .mpi .memoryFull ∧ grants ssl (pointRequests s.mpiWordSize domain) s ≠ 3 ∧
        (∀ bn ∈ Q.handles, Harmless s bn) ∧ SameUnit s s' ∧ Keeps s s') := by
  rw [sysCxEcpointAlloc] at h
  dsimp only at h
  rw [if_neg (by simp [hs.cxBnLocked]), hdomain] at h
  obtain ⟨⟨⟨ok, t⟩, u⟩, halloc, hrest⟩ := Option.bind_eq_some_iff.mp h
  obtain ⟨got, rest, hids, hok, hcount, -, htaken⟩ := allocAll_cases hs.ctx (by decide) halloc
  have hlength := congrArg List.length hids
  rw [List.length_append] at hlength
  have hrequests : [Coord.x, .y, .z].map (fun _ =>
      (⟨sizeToMpiWordBytes s.mpiWordSize domain.length, none⟩ : Request)) =
      pointRequests s.mpiWordSize domain := rfl
  rw [hrequests] at hcount
  cases ok with
  | true =>
    have hrestnil := hok.mp rfl
    rw [hrestnil, List.append_nil] at hids
    subst hids
    obtain ⟨hQ, rfl⟩ := Prod.mk.inj (Option.some.inj hrest)
    obtain ⟨rfl, rfl⟩ := Prod.mk.inj hQ
    refine .inl ⟨rfl, hcount, rfl, ⟨t.mpi .x, t.mpi .y, t.mpi .z, curve⟩,
      ⟨htaken.bn .x (by simp), htaken.bn .y (by simp), htaken.bn .z (by simp), rfl, ?_, ?_,
        htaken.keeps⟩⟩
    · refine ⟨fun heq => ?_, fun heq => ?_, fun heq => ?_⟩
      · cases htaken.injective .x (by simp) .y (by simp) heq
      · cases htaken.injective .x (by simp) .z (by simp) heq
      · cases htaken.injective .y (by simp) .z (by simp) heq
    · have hset : {i | ∃ id ∈ [Coord.x, .y, .z], t.mpi id = i} =
          {t.mpi .x, t.mpi .y, t.mpi .z} := by
        ext i
        simp [eq_comm]
      exact hset ▸ htaken.grown
  | false =>
    obtain ⟨hQ, rfl⟩ := Prod.mk.inj (Option.some.inj hrest)
    obtain ⟨rfl, rfl⟩ := Prod.mk.inj hQ
    have hfailed : rest ≠ [] := fun hnil => Bool.false_ne_true (hok.mpr hnil)
    have hpos := List.length_pos_iff.mpr hfailed
    have hharmless (id : Coord) : Harmless s (t.bn id) := by
      by_cases hid : id ∈ got ∨ id ∈ rest.head?
      · exact htaken.harmless hid
      · rw [not_or] at hid
        rw [htaken.stale id hid.1 hid.2]
        exact harmless_none s
    have hhandles : ∀ bn ∈ [t.bn .z, t.bn .y, t.bn .x], Harmless s bn := by
      intro bn hbn
      simp only [List.mem_cons, List.not_mem_nil, or_false] at hbn
      rcases hbn with rfl | rfl | rfl <;> exact hharmless _
    refine .inr ⟨rfl, ?_, ?_, ?_, ?_⟩
    · rw [hcount]
      simp at hlength
      omega
    · intro bn hbn
      simp only [EcPoint.handles, List.mem_cons, List.not_mem_nil, or_false] at hbn
      rcases hbn with rfl | rfl | rfl <;> exact hharmless _
    · refine (htaken.lacking _ (.refl u) hs.ctx fun id _ => ?_).sameUnit_of_harmless hhandles
      cases id <;> simp
    · intro i hi
      have hu := hs.ctx ▸ htaken.grown.balanced.localBnCtx
      refine ((lacking_destroyHandles _ hu).2 i fun hmem => ?_).trans (htaken.keeps i hi)
      exact hhandles _ hmem i hi rfl

theorem Allocates.fromEcpoint_of_live (h : Allocates Q p s s') (hu : Locked u)
    (hlive : ∀ i, (s'.mpiArray i).live = true → (u.mpiArray i).live = true)
    (hdomain : cxEcdomain Q.curve = some domain) : cxMpiEcpointFromEcpoint Q u = .ok p := by
  have hlt (i : Slot) : handle (some i) < 64 := by
    rw [UInt32.lt_iff_toNat_lt, handle_some_toNat]
    exact i.isLt
  have hthere (i : Slot) (hi : i ∈ ({p.x, p.y, p.z} : Set Slot)) : (u.mpiArray i).live = true :=
    hlive i ((h.grown.live i).mpr (.inr hi))
  have hfound : cxBnsToMpi [Q.x, Q.y, Q.z] u = .ok := by
    simp [cxBnsToMpi, hu.cxBnLocked, h.x, h.y, h.z, hlt, slotOf_handle, hthere]
  rw [cxMpiEcpointFromEcpoint, hdomain]
  dsimp only
  rw [if_neg (not_not.mpr hfound), h.x, h.y, h.z, slotOf_handle, slotOf_handle, slotOf_handle,
    ← h.curve]

theorem Allocates.fromEcpoint (h : Allocates Q p s s') (hs : Locked s)
    (hdomain : cxEcdomain Q.curve = some domain) : cxMpiEcpointFromEcpoint Q s' = .ok p :=
  h.fromEcpoint_of_live (hs.of_balanced h.grown.balanced) (fun _ hi => hi) hdomain

variable (ssl) in
theorem isSome_sysCxEcpointAlloc (hs : Locked s) (curve : CxCurve) (P : EcPoint) :
    (sysCxEcpointAlloc ssl curve P s).isSome := by
  rw [sysCxEcpointAlloc]
  dsimp only
  rw [if_neg (by simp [hs.cxBnLocked])]
  split
  · rfl
  · refine isSome_bind (isSome_allocAll _ _ _ hs.ctx hs.word _) ?_
    rintro ⟨⟨ok, t⟩, u⟩
    cases ok <;> rfl

variable (ssl) in
theorem sysCxEcpointAlloc_granted (hs : Locked s) (hdomain : cxEcdomain curve = some domain)
    (P : EcPoint) (hgranted : grants ssl (pointRequests s.mpiWordSize domain) s = 3) :
    ∃ Q p u, sysCxEcpointAlloc ssl curve P s = some ((.ok, Q), u) ∧
      cxMpiEcpointFromEcpoint Q u = .ok p ∧ Allocates Q p s u := by
  obtain ⟨⟨⟨error, Q⟩, u⟩, halloc⟩ := Option.isSome_iff_exists.mp
    (isSome_sysCxEcpointAlloc ssl hs curve P)
  obtain ⟨rfl, -, hcurve, p, hp⟩ | ⟨-, hrefused, -⟩ := sysCxEcpointAlloc_cases hs hdomain halloc
  · exact ⟨Q, p, u, halloc, hp.fromEcpoint hs (hcurve ▸ hdomain), hp⟩
  · exact absurd hgranted hrefused

theorem withPoint_eq (halloc : sysCxEcpointAlloc ssl curve P s = some ((.ok, Q), u))
    (hfound : cxMpiEcpointFromEcpoint Q u = .ok p) (formulas : MpiPoint → Mpis → Option Mpis) :
    withPoint ssl curve P formulas s = (formulas p u.values).map fun m =>
      ((true, Q), u.withValues m) := by
  rw [withPoint, halloc]
  simp only [Option.bind_eq_bind, Option.bind_some, ne_eq, not_true_eq_false, if_false, hfound]
  cases formulas p u.values <;> rfl

theorem Allocates.harmless (h : Allocates Q p s u) : ∀ bn ∈ Q.handles, Harmless s bn := by
  intro bn hbn
  simp only [EcPoint.handles, h.x, h.y, h.z, List.mem_cons, List.not_mem_nil, or_false] at hbn
  rcases hbn with rfl | rfl | rfl <;> exact harmless_of_free (h.grown.fresh _ (by simp))

theorem Allocates.mem_handles (h : Allocates Q p s u) :
    ∀ i ∈ ({p.x, p.y, p.z} : Set Slot), handle (some i) ∈ Q.handles := by
  rintro i (rfl | rfl | rfl) <;> simp [EcPoint.handles, h.x, h.y, h.z]

-- ---------------------------------------------------------------------------
-- Normalising points
-- ---------------------------------------------------------------------------

variable (ssl) in
theorem isSome_cxMpiModInvertNprime (hs : Locked s) (r a n : Slot) :
    (cxMpiModInvertNprime ssl r a n s).isSome :=
  isSome_bind (cxMpiAlloc_isSome hs.word) fun _ => rfl

variable (ssl) in
theorem normalizeWith_sameUnit (hs : Locked s) (P : MpiPoint) (t : NormVar → Slot) :
    ∃ error s', normalizeWith ssl P t s = some (error, s') ∧ SameUnit s s' := by
  obtain ⟨⟨error, u⟩, hinvert⟩ := Option.isSome_iff_exists.mp
    (isSome_cxMpiModInvertNprime ssl hs (t .invz) P.z (t .p))
  have hsame := sameUnit_cxMpiModInvertNprime hs.wordSized hinvert
  rw [normalizeWith, hinvert]
  exact ⟨_, _, rfl, hsame.trans (sameUnit_withValues u _)⟩

end Speculos.Ec

-- ---------------------------------------------------------------------------
-- Slots of point operations
-- ---------------------------------------------------------------------------

namespace Speculos.Ec

open Lib Bn

variable {ssl : Openssl}

-- ---------------------------------------------------------------------------
-- Twisted Edwards curves
-- ---------------------------------------------------------------------------

theorem destroyHandles_append (bns bns' : List UInt32) (s : State) :
    destroyHandles (bns ++ bns') s = destroyHandles bns' (destroyHandles bns s) :=
  List.foldl_append

theorem release_eq (hctx : s.localBnCtx = true) (bns : List UInt32) (Q : EcPoint) :
    release bns Q s = (.ok, destroyHandles (bns ++ Q.handles) s) := by
  have hbalanced := (lacking_destroyHandles bns hctx).1.balanced
  rw [release, sysCxEcpointDestroy_eq (hbalanced.localBnCtx.trans hctx), destroyHandles_append]

theorem Taken.release_sameUnit {vars : List ι} {request : ι → Request}
    (htaken : Taken ssl request t vars [] s t' u) (hs : Locked s) (hgrown : Grown held u u')
    (hheld : ∀ i ∈ held, handle (some i) ∈ Q.handles)
    (hharmless : ∀ bn ∈ Q.handles, Harmless u bn) :
    (release (vars.map t'.bn) Q u').1 = .ok ∧
      SameUnit s (release (vars.map t'.bn) Q u').2 := by
  have hall := htaken.grown.trans hgrown
  have hctx := hall.balanced.localBnCtx.trans hs.ctx
  rw [release_eq hctx]
  refine ⟨rfl, (hall.lacking (lacking_destroyHandles _ hctx).1 ?_).sameUnit_of_harmless ?_⟩
  · rintro i (⟨id, hid, rfl⟩ | hi)
    · rw [Set.mem_ofPred_eq, ← htaken.bn id hid]
      exact List.mem_append_left _ (List.mem_map_of_mem hid)
    · exact List.mem_append_right _ (hheld i hi)
  · intro bn hbn
    rcases List.mem_append.mp hbn with hbn | hbn
    · obtain ⟨id, hid, rfl⟩ := List.mem_map.mp hbn
      exact htaken.harmless (.inl hid)
    · exact (hharmless bn hbn).of_grown htaken.grown

end Speculos.Ec
