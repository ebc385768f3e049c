import Mathlib.Data.UInt
import Mathlib.Tactic.Abel
import Speculos.Bn.Leaks

/-!
# Numbers for one operation

A function of the curve code takes its numbers one after the other, and gives them back by
their handles at one label. A handle that was not assigned when an allocation failed holds
what was on the stack, so that the number of an application may go with the others.
-/

namespace Speculos.Ec

open Lib Bn

-- ---------------------------------------------------------------------------
-- Taking and giving back
-- ---------------------------------------------------------------------------

/-- `cx_mpi_alloc`, or `cx_mpi_alloc_init` with as many bytes. -/
structure Request where
  size : UInt32
  contents : Option Bytes
  deriving DecidableEq, Repr

def Request.alloc (ssl : Openssl) (request : Request) (s : State) : Option (Allocated × State) :=
  match request.contents with
  | none => cxMpiAlloc ssl request.size s
  | some bytes => cxMpiAllocInit ssl request.size bytes request.size s

def Request.value (ssl : Openssl) (request : Request) : Int :=
  match request.contents with
  | none => 0
  | some bytes => (ssl.bin2bn (bytes.take request.size.toNat)).value

/-- The handles and the pointers among the variables of a function. -/
structure Temps (ι : Type) where
  bn : ι → UInt32
  mpi : ι → Slot

variable {ι : Type}

def allocAll [DecidableEq ι] (ssl : Openssl) (request : ι → Request) :
    List ι → Temps ι → State → Option ((Bool × Temps ι) × State)
  | [], t, s => some ((true, t), s)
  | id :: ids, t, s => do
    let (x, s) ← (request id).alloc ssl s
    let t := { t with bn := Function.update t.bn id x.bnX }
    match x.x with
    | none => return ((false, t), s)
    | some i => allocAll ssl request ids { t with mpi := Function.update t.mpi id i } s

def grants (ssl : Openssl) : List Request → State → Nat
  | [], _ => 0
  | request :: requests, s =>
    match request.alloc ssl s with
    | some (⟨_, some _⟩, s) => grants ssl requests s + 1
    | _ => 0

/-- `cx_mpi_destroy` of one handle after the other. -/
def destroyHandles (bns : List UInt32) (s : State) : State :=
  bns.foldl (fun s bn => (cxMpiDestroy (some bn) s).2) s

-- ---------------------------------------------------------------------------
-- Counters
-- ---------------------------------------------------------------------------

/-- A sum over the sizes of the numbers that are there. -/
def sumSizes (f : UInt32 → UInt32) (s : State) : UInt32 :=
  ∑ i, if (s.mpiArray i).live then f (s.mpiArray i).size else 0

/-- The counters differ from the sizes by the same amount as before. -/
structure Balanced (s s' : State) : Prop where
  localBnCtx : s'.localBnCtx = s.localBnCtx
  wordSize : s'.mpiWordSize = s.mpiWordSize
  totalMemory : s'.mpiTotalMemory - sumSizes id s' = s.mpiTotalMemory - sumSizes id s
  wordsCount : s'.mpiWordsCount - sumSizes (· / s'.mpiWordSize) s' =
    s.mpiWordsCount - sumSizes (· / s.mpiWordSize) s

theorem Balanced.refl (s : State) : Balanced s s := ⟨rfl, rfl, rfl, rfl⟩

theorem Balanced.trans (h : Balanced s s') (h' : Balanced s' s'') : Balanced s s'' where
  localBnCtx := h'.localBnCtx.trans h.localBnCtx
  wordSize := h'.wordSize.trans h.wordSize
  totalMemory := h'.totalMemory.trans h.totalMemory
  wordsCount := h'.wordsCount.trans h.wordsCount

theorem sumSizes_update (f : UInt32 → UInt32) (s s' : State) (i : Slot) (x : CxMpi)
    (h : s'.mpiArray = Function.update s.mpiArray i x) :
    sumSizes f s' = sumSizes f s -
      (if (s.mpiArray i).live then f (s.mpiArray i).size else 0) +
        if x.live then f x.size else 0 := by
  unfold sumSizes
  rw [h, ← Finset.add_sum_erase Finset.univ _ (Finset.mem_univ i),
    ← Finset.add_sum_erase (f := fun j => if (s.mpiArray j).live then f (s.mpiArray j).size else 0)
      Finset.univ (Finset.mem_univ i)]
  have hrest : ∑ j ∈ Finset.univ.erase i, (if (Function.update s.mpiArray i x j).live then
      f (Function.update s.mpiArray i x j).size else 0) =
      ∑ j ∈ Finset.univ.erase i, if (s.mpiArray j).live then f (s.mpiArray j).size else 0 :=
    Finset.sum_congr rfl fun j hj => by rw [Function.update_of_ne (Finset.ne_of_mem_erase hj)]
  rw [hrest, Function.update_self]
  abel

theorem balanced_fill (hfree : (s.mpiArray i).live = false) (size : UInt32) :
    Balanced s (s.fill i size) := by
  have hsum (f : UInt32 → UInt32) : sumSizes f (s.fill i size) = sumSizes f s + f size := by
    rw [sumSizes_update f s (s.fill i size) i ⟨some 0, size⟩ rfl, hfree]
    simp [CxMpi.live]
  refine ⟨rfl, rfl, ?_, ?_⟩
  · rw [hsum]
    exact add_sub_add_right_eq_sub _ _ _
  · rw [hsum]
    exact add_sub_add_right_eq_sub _ _ _

theorem balanced_release (hlive : (s.mpiArray i).live = true) : Balanced s (s.release i) := by
  have hsum (f : UInt32 → UInt32) :
      sumSizes f (s.release i) = sumSizes f s - f (s.mpiArray i).size := by
    rw [sumSizes_update f s (s.release i) i .empty rfl, hlive]
    simp
  refine ⟨rfl, rfl, ?_, ?_⟩
  · rw [hsum]
    exact sub_sub_sub_cancel_right _ _ _
  · rw [hsum]
    exact sub_sub_sub_cancel_right _ _ _

theorem sumSizes_congr (f : UInt32 → UInt32)
    (hlive : ∀ i, (s'.mpiArray i).live = (s.mpiArray i).live)
    (hsize : ∀ i, (s.mpiArray i).live = true → (s'.mpiArray i).size = (s.mpiArray i).size) :
    sumSizes f s' = sumSizes f s := by
  refine Finset.sum_congr rfl fun i _ => ?_
  rw [hlive i]
  split
  · rename_i h
    rw [hsize i h]
  · rfl

theorem balanced_of_sameUnit (h : SameUnit s s') : Balanced s s' := by
  have hsum (f : UInt32 → UInt32) := sumSizes_congr f h.live h.size
  exact ⟨h.localBnCtx, h.wordSize, by rw [hsum, h.totalMemory],
    by rw [hsum, h.wordsCount, h.wordSize]⟩

theorem Balanced.sameUnit (h : Balanced s s')
    (hlive : ∀ i, (s'.mpiArray i).live = (s.mpiArray i).live)
    (hsize : ∀ i, (s.mpiArray i).live = true → (s'.mpiArray i).size = (s.mpiArray i).size) :
    SameUnit s s' := by
  have htotal := h.totalMemory
  have hwords := h.wordsCount
  rw [sumSizes_congr id hlive hsize] at htotal
  rw [sumSizes_congr _ hlive hsize, h.wordSize] at hwords
  exact ⟨⟨hlive, hsize, sub_left_injective htotal⟩, h.localBnCtx, h.wordSize,
    sub_left_injective hwords⟩

-- ---------------------------------------------------------------------------
-- Slots that are taken, and slots that are lost
-- ---------------------------------------------------------------------------

/-- There are more numbers, those of `held`. -/
structure Grown (held : Set Slot) (s s' : State) : Prop where
  live : ∀ i, (s'.mpiArray i).live = true ↔ (s.mpiArray i).live = true ∨ i ∈ held
  fresh : ∀ i ∈ held, (s.mpiArray i).live = false
  size : ∀ i, (s.mpiArray i).live = true → (s'.mpiArray i).size = (s.mpiArray i).size
  balanced : Balanced s s'

/-- The numbers of `lost` are gone. -/
structure Lacking (lost : Set Slot) (s s' : State) : Prop where
  live : ∀ i, (s'.mpiArray i).live = true ↔ (s.mpiArray i).live = true ∧ i ∉ lost
  size : ∀ i, (s'.mpiArray i).live = true → (s'.mpiArray i).size = (s.mpiArray i).size
  balanced : Balanced s s'

/-- The numbers that are there have not been written. -/
def Keeps (s s' : State) : Prop :=
  ∀ i, (s.mpiArray i).live = true → s'.mpiArray i = s.mpiArray i

/-- The handle is not the one of a number that is there. -/
def Harmless (s : State) (bn : UInt32) : Prop :=
  ∀ i, (s.mpiArray i).live = true → handle (some i) ≠ bn

theorem Grown.of_sameUnit (h : SameUnit s s') : Grown ∅ s s' where
  live i := by simp [h.live i]
  fresh i hi := absurd hi (Set.notMem_empty i)
  size := h.size
  balanced := balanced_of_sameUnit h

theorem Grown.trans (h : Grown held s s') (h' : Grown held' s' s'') :
    Grown (held ∪ held') s s'' where
  live i := by rw [h'.live i, h.live i, Set.mem_union, or_assoc]
  fresh i hi := by
    rcases hi with hi | hi
    · exact h.fresh i hi
    · have hfree := h'.fresh i hi
      rw [Bool.eq_false_iff, ne_eq, h.live i, not_or] at hfree
      exact Bool.eq_false_iff.mpr hfree.1
  size i hi := (h'.size i ((h.live i).mpr (.inl hi))).trans (h.size i hi)
  balanced := h.balanced.trans h'.balanced

theorem Grown.sameUnit (h : Grown held s s') (h' : SameUnit s' s'') : Grown held s s'' := by
  have htrans := h.trans (.of_sameUnit h')
  rwa [Set.union_empty] at htrans

theorem grown_fill (hfree : (s.mpiArray i).live = false) (size : UInt32) :
    Grown {i} s (s.fill i size) where
  live j := by
    by_cases hj : j = i
    · subst hj
      simp [CxMpi.live]
    · simp [hj]
  fresh j hj := by rwa [Set.mem_singleton_iff.mp hj]
  size j hj := by
    have hne : j ≠ i := fun h => by simp [h, hfree] at hj
    simp [hne]
  balanced := balanced_fill hfree size

theorem keeps_fill (hfree : (s.mpiArray i).live = false) (size : UInt32) :
    Keeps s (s.fill i size) := by
  intro j hj
  have hne : j ≠ i := fun h => by simp [h, hfree] at hj
  simp [hne]

theorem Lacking.of_sameUnit (h : SameUnit s s') : Lacking ∅ s s' where
  live i := by simp [h.live i]
  size i hi := h.size i ((h.live i).symm.trans hi)
  balanced := balanced_of_sameUnit h

theorem Lacking.trans (h : Lacking lost s s') (h' : Lacking lost' s' s'') :
    Lacking (lost ∪ lost') s s'' where
  live i := by rw [h'.live i, h.live i, Set.mem_union, not_or, and_assoc]
  size i hi := (h'.size i hi).trans (h.size i ((h'.live i).mp hi).1)
  balanced := h.balanced.trans h'.balanced

theorem Lacking.sameUnit (h : Lacking lost s s')
    (hnone : ∀ i ∈ lost, (s.mpiArray i).live = false) : SameUnit s s' := by
  have hlive (i : Slot) : (s'.mpiArray i).live = (s.mpiArray i).live := by
    rw [Bool.eq_iff_iff, h.live i, and_iff_left_iff_imp]
    intro hi hlost
    exact Bool.false_ne_true ((hnone i hlost).symm.trans hi)
  exact h.balanced.sameUnit hlive fun i hi => h.size i ((hlive i).trans hi)

/-- Numbers that were taken and are lost again leave no trace. -/
theorem Grown.lacking (h : Grown held s s') (h' : Lacking lost s' s'') (hheld : held ⊆ lost) :
    Lacking lost s s'' where
  live i := by
    rw [h'.live i, h.live i, or_and_right, or_iff_left_iff_imp]
    rintro ⟨hi, hkept⟩
    exact absurd (hheld hi) hkept
  size i hi := by
    obtain ⟨hthere, hkept⟩ := (h'.live i).mp hi
    rcases (h.live i).mp hthere with hold | hnew
    · exact (h'.size i hi).trans (h.size i hold)
    · exact absurd (hheld hnew) hkept
  balanced := h.balanced.trans h'.balanced

-- ---------------------------------------------------------------------------
-- Giving back
-- ---------------------------------------------------------------------------

theorem handle_injective : Function.Injective fun i : Slot => handle (some i) := by
  intro i j h
  have hnat := congrArg UInt32.toNat h
  simp only [handle_some_toNat] at hnat
  exact Fin.ext hnat

theorem cxMpiDestroy_some (hctx : s.localBnCtx = true) (bn : UInt32) :
    Harmless s bn ∧ (cxMpiDestroy (some bn) s).2 = s ∨
      ∃ i, bn = handle (some i) ∧ (s.mpiArray i).live = true ∧
        (cxMpiDestroy (some bn) s).2 = s.release i := by
  by_cases hbn : ∃ i, (s.mpiArray i).live = true ∧ handle (some i) = bn
  · obtain ⟨i, hi, rfl⟩ := hbn
    exact .inr ⟨i, rfl, hi, by rw [cxMpiDestroy_handle, destroySlot_of_live hi hctx]⟩
  · refine .inl ⟨fun i hi h => hbn ⟨i, hi, h⟩, ?_⟩
    rw [cxMpiDestroy]
    split
    · rename_i hlt
      have hslot : handle (some ⟨bn.toNat, hlt⟩) = bn := by simp [handle]
      have hfree : ¬ (s.mpiArray ⟨bn.toNat, hlt⟩).live = true := fun h => hbn ⟨_, h, hslot⟩
      rw [destroySlot, if_neg hfree]
    · rfl

theorem lacking_release (hlive : (s.mpiArray i).live = true) : Lacking {i} s (s.release i) where
  live j := by
    by_cases hj : j = i
    · subst hj
      simp
    · simp [hj]
  size j hj := by
    have hne : j ≠ i := fun h => by simp [h] at hj
    simp [hne]
  balanced := balanced_release hlive

theorem localBnCtx_cxMpiDestroy (bn : UInt32) (s : State) :
    (cxMpiDestroy (some bn) s).2.localBnCtx = s.localBnCtx := by
  rw [cxMpiDestroy]
  split
  · exact localBnCtx_destroySlot _ s
  · rfl

theorem lacking_destroyHandles (bns : List UInt32) (hctx : s.localBnCtx = true) :
    Lacking {i | handle (some i) ∈ bns} s (destroyHandles bns s) ∧
      ∀ i, handle (some i) ∉ bns → (destroyHandles bns s).mpiArray i = s.mpiArray i := by
  induction bns generalizing s with
  | nil => exact ⟨by simpa [destroyHandles] using Lacking.of_sameUnit (.refl s), fun _ _ => rfl⟩
  | cons bn bns ih =>
    have hrest := ih ((localBnCtx_cxMpiDestroy bn s).trans hctx)
    have hcons : destroyHandles (bn :: bns) s =
        destroyHandles bns (cxMpiDestroy (some bn) s).2 := rfl
    rw [hcons]
    obtain ⟨hharmless, hsame⟩ | ⟨i, rfl, hlive, hrelease⟩ := cxMpiDestroy_some hctx bn
    · rw [hsame] at hrest ⊢
      refine ⟨⟨fun i => ?_, hrest.1.size, hrest.1.balanced⟩, fun i hi => ?_⟩
      · rw [hrest.1.live i]
        refine and_congr_right fun hi => ?_
        simp [hharmless i hi]
      · exact hrest.2 i fun hmem => hi (List.mem_cons_of_mem _ hmem)
    · rw [hrelease] at hrest ⊢
      have hsets : {j | handle (some j) ∈ handle (some i) :: bns} =
          {i} ∪ {j | handle (some j) ∈ bns} := by
        ext j
        simp only [Set.mem_ofPred_eq, List.mem_cons, Set.mem_union, Set.mem_singleton_iff]
        exact or_congr_left (handle_injective.eq_iff (a := j) (b := i))
      refine ⟨hsets ▸ (lacking_release hlive).trans hrest.1, fun j hj => ?_⟩
      have hne : j ≠ i := fun h => hj (by simp [h])
      rw [hrest.2 j fun hmem => hj (List.mem_cons_of_mem _ hmem)]
      simp [hne]

-- ---------------------------------------------------------------------------
-- Taking
-- ---------------------------------------------------------------------------

theorem Keeps.trans (h : Keeps s s') (h' : Keeps s' s'') : Keeps s s'' := by
  intro i hi
  have hfirst := h i hi
  rw [h' i (by rw [hfirst]; exact hi), hfirst]

theorem Harmless.mono (hkeeps : Keeps s s') (h : Harmless s' bn) : Harmless s bn :=
  fun i hi => h i (by rw [hkeeps i hi]; exact hi)

theorem Harmless.of_grown (hgrown : Grown held s s') (h : Harmless s' bn) : Harmless s bn :=
  fun i hi => h i ((hgrown.live i).mpr (.inl hi))

theorem harmless_none (s : State) : Harmless s (handle none) := by
  intro i _ h
  have hnat := congrArg UInt32.toNat h
  rw [handle_some_toNat] at hnat
  exact absurd (i.isLt.trans_eq' hnat) (by decide)

theorem harmless_of_free (hfree : (s.mpiArray i).live = false) : Harmless s (handle (some i)) := by
  intro j hj h
  rw [handle_injective h, hfree] at hj
  exact Bool.false_ne_true hj

theorem Request.alloc_cases (hctx : s.localBnCtx = true) {request : Request}
    (h : request.alloc ssl s = some (x, s')) :
    x.x = none ∧ Harmless s x.bnX ∧ SameUnit s s' ∧ Keeps s s' ∨
      ∃ i, x = .of (some i) ∧ Grown {i} s s' ∧ Keeps s s' ∧
        (s'.mpiArray i).mpi = some (request.value ssl) := by
  obtain ⟨size, contents⟩ := request
  cases contents with
  | none =>
    obtain ⟨rfl, rfl⟩ | ⟨i, hi, -, -, -, rfl, rfl⟩ := cxMpiAlloc_cases h
    · exact .inl ⟨rfl, harmless_none _, .refl _, fun _ _ => rfl⟩
    · have hfree := SlotTable.not_live_of_firstFree hi
      exact .inr ⟨i, rfl, grown_fill hfree _, keeps_fill hfree _, by simp [Request.value]⟩
  | some bytes =>
    change cxMpiAllocInit ssl size bytes size s = _ at h
    rw [cxMpiAllocInit] at h
    split at h
    · cases h
    · obtain ⟨⟨x', u⟩, halloc, hinit⟩ := Option.map_eq_some_iff.mp h
      obtain ⟨rfl, rfl⟩ | ⟨i, hi, -, -, -, rfl, rfl⟩ := cxMpiAlloc_cases halloc
      · obtain ⟨rfl, rfl⟩ := Prod.mk.inj hinit
        exact .inl ⟨rfl, harmless_none _, .refl _, fun _ _ => rfl⟩
      · have hfree := SlotTable.not_live_of_firstFree hi
        rw [Allocated.of, initAllocated] at hinit
        split at hinit
        · obtain ⟨rfl, rfl⟩ := Prod.mk.inj hinit
          refine .inr ⟨i, rfl, (grown_fill hfree _).sameUnit (sameUnit_setValue (live_fill s i _) _),
            fun j hj => ?_, by simp [Request.value]⟩
          have hne : j ≠ i := fun h => by simp [h, hfree] at hj
          simp [hne]
        · obtain ⟨rfl, rfl⟩ := Prod.mk.inj hinit
          rw [cxMpiDestroy_handle, destroySlot_of_live (live_fill s i _) hctx]
          refine .inl ⟨rfl, harmless_of_free hfree, sameUnit_release_fill hfree _, fun j hj => ?_⟩
          have hne : j ≠ i := fun h => by simp [h, hfree] at hj
          simp [hne]

theorem Request.isSome_alloc (hword : s.mpiWordSize ≠ 0) (request : Request) :
    (request.alloc ssl s).isSome := by
  obtain ⟨size, contents⟩ := request
  cases contents with
  | none => exact cxMpiAlloc_isSome hword
  | some bytes =>
    change (cxMpiAllocInit ssl size bytes size s).isSome
    rw [cxMpiAllocInit]
    rw [if_neg (fun h => hword h.1), Option.isSome_map]
    exact cxMpiAlloc_isSome hword

variable {request : ι → Request}

/-- What a sequence of allocations leaves: the numbers of `got`, and behind them one variable
that was assigned, while the others still hold what they held. -/
structure Taken (ssl : Openssl) (request : ι → Request) (t : Temps ι) (got rest : List ι)
    (s : State) (t' : Temps ι) (s' : State) : Prop where
  grown : Grown {i | ∃ id ∈ got, t'.mpi id = i} s s'
  keeps : Keeps s s'
  bn : ∀ id ∈ got, t'.bn id = handle (some (t'.mpi id))
  injective : ∀ id ∈ got, ∀ id' ∈ got, t'.mpi id = t'.mpi id' → id = id'
  value : ∀ id ∈ got, (s'.mpiArray (t'.mpi id)).mpi = some ((request id).value ssl)
  assigned : ∀ id ∈ rest.head?, Harmless s (t'.bn id)
  stale : ∀ id ∉ got, id ∉ rest.head? → t'.bn id = t.bn id

theorem allocAll_cases [DecidableEq ι] {ids : List ι} (hctx : s.localBnCtx = true)
    (hnodup : ids.Nodup) (h : allocAll ssl request ids t s = some ((ok, t'), s')) :
    ∃ got rest, ids = got ++ rest ∧ (ok = true ↔ rest = []) ∧
      grants ssl (ids.map request) s = got.length ∧ (∀ id ∉ got, t'.mpi id = t.mpi id) ∧
        Taken ssl request t got rest s t' s' := by
  induction ids generalizing t s with
  | nil =>
    obtain ⟨ht, rfl⟩ := Prod.mk.inj (Option.some.inj h)
    obtain ⟨rfl, rfl⟩ := Prod.mk.inj ht
    refine ⟨[], [], rfl, by simp, rfl, fun _ _ => rfl,
      ⟨?_, fun _ _ => rfl, by simp, by simp, by simp, by simp, fun _ _ _ => rfl⟩⟩
    simpa using Grown.of_sameUnit (.refl s)
  | cons id ids ih =>
    obtain ⟨hid, hnodup⟩ := List.nodup_cons.mp hnodup
    obtain ⟨⟨x, u⟩, halloc, hrest⟩ := Option.bind_eq_some_iff.mp h
    rw [List.map_cons, grants, halloc]
    obtain ⟨hnone, hharmless, hsame, hkeeps⟩ | ⟨i, rfl, hgrown, hkeeps, hvalue⟩ :=
      Request.alloc_cases hctx halloc
    · obtain ⟨bnX, x⟩ := x
      cases hnone
      obtain ⟨ht, rfl⟩ := Prod.mk.inj (Option.some.inj hrest)
      obtain ⟨rfl, rfl⟩ := Prod.mk.inj ht
      refine ⟨[], id :: ids, rfl, by simp, rfl, fun _ _ => rfl,
        ⟨?_, hkeeps, by simp, by simp, by simp, ?_, ?_⟩⟩
      · simpa using Grown.of_sameUnit hsame
      · simpa using hharmless
      · intro id' _ hne
        simp only [List.head?_cons, Option.mem_def, Option.some.injEq] at hne
        exact Function.update_of_ne (Ne.symm hne) _ _
    · have hu : u.localBnCtx = true := hgrown.balanced.localBnCtx.trans hctx
      obtain ⟨got, rest, rfl, hok, hcount, hmpi, htaken⟩ := ih hu hnodup hrest
      have hnot : id ∉ got := fun hmem => hid (List.mem_append_left _ hmem)
      have hslot : t'.mpi id = i := by
        rw [hmpi id hnot]
        exact Function.update_self _ _ _
      have hhead : id ∉ rest.head? := fun hmem =>
        hid (List.mem_append_right _ (List.mem_of_head? hmem))
      have hbn : t'.bn id = handle (some i) := by
        rw [htaken.stale id hnot hhead]
        exact Function.update_self _ _ _
      have hlive : (u.mpiArray i).live = true := (hgrown.live i).mpr (.inr rfl)
      have hother (id' : ι) (hmem : id' ∈ got) : t'.mpi id' ≠ i := by
        intro heq
        have hfree := htaken.grown.fresh i ⟨id', hmem, heq⟩
        exact Bool.false_ne_true (hfree.symm.trans hlive)
      refine ⟨id :: got, rest, rfl, hok, congrArg (· + 1) hcount, fun id' hid' => ?_,
        ⟨?_, hkeeps.trans htaken.keeps, ?_, ?_, ?_, fun id' hid' => ?_, fun id' hid' hhead' => ?_⟩⟩
      · rw [List.mem_cons, not_or] at hid'
        rw [hmpi id' hid'.2]
        exact Function.update_of_ne hid'.1 _ _
      · have hsets : {j | ∃ id' ∈ id :: got, t'.mpi id' = j} =
            {i} ∪ {j | ∃ id' ∈ got, t'.mpi id' = j} := by
          ext j
          simp [hslot, eq_comm]
        exact hsets ▸ hgrown.trans htaken.grown
      · rintro id' (_ | ⟨_, hmem⟩)
        · rw [hbn, hslot]
        · exact htaken.bn id' hmem
      · rintro id₁ (_ | ⟨_, hmem₁⟩) id₂ (_ | ⟨_, hmem₂⟩) heq
        · rfl
        · exact absurd (heq.symm.trans hslot) (hother id₂ hmem₂)
        · exact absurd (heq.trans hslot) (hother id₁ hmem₁)
        · exact htaken.injective id₁ hmem₁ id₂ hmem₂ heq
      · rintro id' (_ | ⟨_, hmem⟩)
        · rw [hslot, htaken.keeps i hlive, hvalue]
        · exact htaken.value id' hmem
      · exact (htaken.assigned id' hid').mono hkeeps
      · rw [List.mem_cons, not_or] at hid'
        rw [htaken.stale id' hid'.2 hhead']
        exact Function.update_of_ne hid'.1 _ _

theorem Taken.harmless {id : ι} (h : Taken ssl request t got rest s t' s')
    (hid : id ∈ got ∨ id ∈ rest.head?) : Harmless s (t'.bn id) := by
  rcases hid with hid | hid
  · rw [h.bn id hid]
    exact harmless_of_free (h.grown.fresh _ ⟨id, hid, rfl⟩)
  · exact h.assigned id hid

theorem Taken.lacking (h : Taken ssl request t got rest s t' u) (bns : List UInt32)
    (hsame : SameUnit u u') (hctx : s.localBnCtx = true) (hgot : ∀ id ∈ got, t'.bn id ∈ bns) :
    Lacking {i | handle (some i) ∈ bns} s (destroyHandles bns u') := by
  have hgrown := h.grown.sameUnit hsame
  refine hgrown.lacking (lacking_destroyHandles bns (hgrown.balanced.localBnCtx.trans hctx)).1 ?_
  rintro i ⟨id, hid, rfl⟩
  rw [Set.mem_ofPred_eq, ← h.bn id hid]
  exact hgot id hid

/-- Handles that do no harm are those of no number. -/
theorem Lacking.sameUnit_of_harmless {bns : List UInt32}
    (h : Lacking {i | handle (some i) ∈ bns} s s') (hharmless : ∀ bn ∈ bns, Harmless s bn) :
    SameUnit s s' := by
  refine h.sameUnit fun i hi => ?_
  by_contra hlive
  exact hharmless _ hi i (by simpa using hlive) rfl

theorem grants_append_of_ok [DecidableEq ι] {ids : List ι}
    (h : allocAll ssl request ids t s = some ((true, t'), s')) (requests : List Request) :
    grants ssl (ids.map request ++ requests) s = ids.length + grants ssl requests s' := by
  induction ids generalizing t s with
  | nil =>
    obtain ⟨-, rfl⟩ := Prod.mk.inj (Option.some.inj h)
    simp
  | cons id ids ih =>
    obtain ⟨⟨⟨bnX, x⟩, u⟩, halloc, hrest⟩ := Option.bind_eq_some_iff.mp h
    rw [List.map_cons, List.cons_append, grants, halloc]
    cases x with
    | none =>
      obtain ⟨ht, -⟩ := Prod.mk.inj (Option.some.inj hrest)
      cases (Prod.mk.inj ht).1
    | some i =>
      dsimp only
      rw [ih hrest, List.length_cons]
      omega

theorem isSome_allocAll [DecidableEq ι] (ssl : Openssl) (request : ι → Request) (t : Temps ι)
    (hctx : s.localBnCtx = true) (hword : s.mpiWordSize ≠ 0) (ids : List ι) :
    (allocAll ssl request ids t s).isSome := by
  induction ids generalizing t s with
  | nil => rfl
  | cons id ids ih =>
    obtain ⟨⟨x, u⟩, halloc⟩ := Option.isSome_iff_exists.mp (Request.isSome_alloc hword (request id))
    rw [allocAll, halloc]
    obtain ⟨hnone, -⟩ | ⟨i, rfl, hgrown, -⟩ := Request.alloc_cases hctx halloc
    · obtain ⟨bnX, x⟩ := x
      cases hnone
      rfl
    · refine ih _ (hgrown.balanced.localBnCtx.trans hctx) ?_
      rw [hgrown.balanced.wordSize]
      exact hword

theorem allocAll_granted [DecidableEq ι] {ids : List ι} (t : Temps ι) (hctx : s.localBnCtx = true)
    (hword : s.mpiWordSize ≠ 0) (hnodup : ids.Nodup)
    (hgranted : grants ssl (ids.map request) s = ids.length) :
    ∃ t' s', allocAll ssl request ids t s = some ((true, t'), s') ∧
    Taken ssl request t ids [] s t' s' := by
  obtain ⟨⟨⟨ok, t'⟩, s'⟩, halloc⟩ := Option.isSome_iff_exists.mp
    (isSome_allocAll ssl request t hctx hword ids)
  obtain ⟨got, rest, rfl, hok, hcount, -, htaken⟩ := allocAll_cases hctx hnodup halloc
  have hrest : rest = [] := by
    rw [hgranted, List.length_append] at hcount
    exact List.eq_nil_of_length_eq_zero (by omega)
  rw [hok.mpr hrest] at halloc
  subst hrest
  rw [List.append_nil] at halloc ⊢
  exact ⟨t', s', halloc, htaken⟩

theorem grants_of_append (requests more : List Request)
    (h : grants ssl (requests ++ more) s = (requests ++ more).length) :
    grants ssl requests s = requests.length := by
  induction requests generalizing s with
  | nil => rfl
  | cons request requests ih =>
    rw [List.cons_append, grants, List.length_cons] at h
    rw [grants, List.length_cons]
    generalize request.alloc ssl s = r at h ⊢
    rcases r with - | ⟨⟨bn, - | i⟩, u⟩
    · simp at h
    · simp at h
    · exact congrArg (· + 1) (ih (Nat.succ.inj h))

theorem Request.alloc_sameUnit (h : SameUnit s s') (hctx : s.localBnCtx = true) {request : Request}
    (halloc : request.alloc ssl s = some (x, u)) :
    ∃ u', request.alloc ssl s' = some (x, u') ∧ SameUnit u u' := by
  obtain ⟨size, contents⟩ := request
  cases contents with
  | none => exact cxMpiAlloc_sameUnit h halloc
  | some bytes =>
    change cxMpiAllocInit ssl size bytes size s = _ at halloc
    change ∃ u', cxMpiAllocInit ssl size bytes size s' = _ ∧ _
    rw [cxMpiAllocInit] at halloc ⊢
    rw [h.wordSize]
    split_ifs at halloc ⊢
    obtain ⟨⟨y, v⟩, hbare, hinit⟩ := Option.map_eq_some_iff.mp halloc
    obtain ⟨v', hbare', hsame⟩ := cxMpiAlloc_sameUnit h hbare
    rw [hbare', Option.map_some]
    obtain ⟨rfl, rfl⟩ | ⟨i, hi, -, -, -, rfl, rfl⟩ := cxMpiAlloc_cases hbare
    · cases hinit
      exact ⟨v', rfl, hsame⟩
    · have hlive := live_fill s i (sizeToMpiWordBytes s.mpiWordSize
        (sizeToMpiWordBytes s.mpiWordSize (requestedInit size size)))
      have hlive' := (hsame.live i).trans hlive
      rw [Allocated.of, initAllocated] at hinit ⊢
      split_ifs at hinit ⊢
      · cases hinit
        exact ⟨_, rfl, ((sameUnit_setValue hlive _).symm.trans hsame).trans (sameUnit_setValue hlive' _)⟩
      · cases hinit
        rw [cxMpiDestroy_handle, cxMpiDestroy_handle, destroySlot_of_live hlive hctx,
          destroySlot_of_live hlive' (hsame.localBnCtx.trans hctx)]
        exact ⟨_, rfl, hsame.release hlive⟩

theorem Request.balanced_alloc (hctx : s.localBnCtx = true) {request : Request}
    (halloc : request.alloc ssl s = some (x, u)) : Balanced s u := by
  obtain ⟨-, -, hsame, -⟩ | ⟨i, -, hgrown, -⟩ := Request.alloc_cases hctx halloc
  · exact balanced_of_sameUnit hsame
  · exact hgrown.balanced

theorem grants_sameUnit (h : SameUnit s s') (hctx : s.localBnCtx = true) (hword : s.mpiWordSize ≠ 0)
    (requests : List Request) : grants ssl requests s' = grants ssl requests s := by
  induction requests generalizing s s' with
  | nil => rfl
  | cons request requests ih =>
    have hsome : (request.alloc ssl s).isSome := Request.isSome_alloc hword request
    obtain ⟨⟨⟨bn, x⟩, u⟩, halloc⟩ := Option.isSome_iff_exists.mp hsome
    obtain ⟨u', halloc', hsame⟩ := Request.alloc_sameUnit h hctx halloc
    rw [grants, grants, halloc, halloc']
    cases x with
    | none => rfl
    | some i =>
      have hbalanced := Request.balanced_alloc hctx halloc
      exact congrArg (· + 1) (ih hsame (hbalanced.localBnCtx.trans hctx) (hbalanced.wordSize.trans_ne hword))

end Speculos.Ec
