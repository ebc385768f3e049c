import Speculos.Bn.Modular
import Speculos.Ec.PointSlots

/-!
# Room for numbers

How many of the allocations of a function succeed depends on their sizes alone, rounded up to
words: a function that found room for its numbers finds room for fewer of the same size.
-/

namespace Speculos.Ec

open Lib Bn

variable {ssl : Openssl}

/-- The size of the number in a slot that is allocated. -/
def Request.rounded (wordSize : UInt32) (request : Request) : UInt32 :=
  match request.contents with
  | none => sizeToMpiWordBytes wordSize request.size
  | some _ => sizeToMpiWordBytes wordSize (sizeToMpiWordBytes wordSize request.size)

/-- There is a slot, memory for a number, and room for so many bytes. -/
def HasRoom (ssl : Openssl) (size : UInt32) (s : State) (i : Slot) : Prop :=
  s.firstFree = some i ∧ ssl.bnNew i = true ∧ size + s.mpiTotalMemory ≤ maxMpiByteSize

theorem Request.alloc_of_room (hssl : ssl.Exact) (hs : Locked s) (request : Request) :
    (∃ i u, HasRoom ssl (request.rounded s.mpiWordSize) s i ∧
        request.alloc ssl s = some (.of (some i), u) ∧
        SameUnit (s.fill i (request.rounded s.mpiWordSize)) u) ∨
      (∀ i, ¬ HasRoom ssl (request.rounded s.mpiWordSize) s i) ∧
      request.alloc ssl s = some (.of none, s) := by
  have hroom (size : UInt32) : (∃ i, HasRoom ssl (sizeToMpiWordBytes s.mpiWordSize size) s i ∧
        cxMpiAlloc ssl size s = some (.of (some i),
          s.fill i (sizeToMpiWordBytes s.mpiWordSize size))) ∨
      (∀ i, ¬ HasRoom ssl (sizeToMpiWordBytes s.mpiWordSize size) s i) ∧
        cxMpiAlloc ssl size s = some (.of none, s) := by
    obtain ⟨⟨x, u⟩, halloc⟩ := Option.isSome_iff_exists.mp (@cxMpiAlloc_isSome ssl size s hs.word)
    obtain ⟨rfl, rfl⟩ | ⟨i, hi, hnew, -, hfits, rfl, rfl⟩ := cxMpiAlloc_cases halloc
    · refine .inr ⟨fun i hi => ?_, halloc⟩
      rw [cxMpiAlloc_of_fits hi.1 hi.2.1 hs.word hi.2.2] at halloc
      simp [Allocated.of] at halloc
    · exact .inl ⟨i, ⟨hi, hnew, hfits⟩, halloc⟩
  obtain ⟨size, contents⟩ := request
  cases contents with
  | none =>
    obtain ⟨i, hi, halloc⟩ | ⟨hno, halloc⟩ := hroom size
    · exact .inl ⟨i, _, hi, halloc, .refl _⟩
    · exact .inr ⟨hno, halloc⟩
  | some bytes =>
    have hsize : requestedInit size size = size := by simp [requestedInit]
    change (∃ i u, _ ∧ cxMpiAllocInit ssl size bytes size s = _ ∧ _) ∨ _ ∧
      cxMpiAllocInit ssl size bytes size s = _
    rw [cxMpiAllocInit, hsize, if_neg fun h => hs.word h.1]
    obtain ⟨i, hi, halloc⟩ | ⟨hno, halloc⟩ := hroom (sizeToMpiWordBytes s.mpiWordSize size)
    · have hinit : (cxMpiAlloc ssl (sizeToMpiWordBytes s.mpiWordSize size) s).map
          (initAllocated ssl (bytes.take size.toNat)) = some (.of (some i),
            (s.fill i (sizeToMpiWordBytes s.mpiWordSize (sizeToMpiWordBytes s.mpiWordSize size))).setValue i
              (fromBE (bytes.take size.toNat))) := by
        rw [halloc, Option.map_some, Allocated.of, initAllocated, hssl.bin2bn]
        rfl
      exact .inl ⟨i, _, hi, hinit, sameUnit_setValue (live_fill s i _) _⟩
    · exact .inr ⟨hno, by rw [halloc]; rfl⟩

/-- In words that are longer than the arrays, only requests that are rounded to nothing are
granted. -/
theorem rounded_of_granted (hssl : ssl.Exact) (hs : Locked s) (hlong : 2048 < s.mpiWordSize.toNat)
    (htotal : s.mpiTotalMemory = 0) (requests : List Request)
    (hgranted : grants ssl requests s = requests.length) :
    ∀ request ∈ requests, request.rounded s.mpiWordSize = 0 := by
  induction requests generalizing s with
  | nil => simp
  | cons request requests ih =>
    obtain ⟨i, u, ⟨-, -, hfits⟩, halloc, hsame⟩ | ⟨-, halloc⟩ :=
      Request.alloc_of_room hssl hs request
    · have hfirst : request.rounded s.mpiWordSize = 0 := by
        rw [htotal, UInt32.add_zero, UInt32.le_iff_toNat_le] at hfits
        have hcases (size : UInt32) := sizeToMpiWordBytes_cases hs.word size
        rw [Request.rounded] at hfits ⊢
        split at hfits
        · exact (hcases _).resolve_right (Nat.not_le.mpr (Nat.lt_of_le_of_lt hfits hlong))
        · exact (hcases _).resolve_right (Nat.not_le.mpr (Nat.lt_of_le_of_lt hfits hlong))
      have hu : u.mpiTotalMemory = 0 := by
        rw [hsame.totalMemory, hfirst]
        simp [State.fill, htotal]
      have hfilled : Locked (s.fill i (request.rounded s.mpiWordSize)) := ⟨hs.ctx, hs.word⟩
      have hlocked := hfilled.of_sameUnit hsame
      have hword : u.mpiWordSize = s.mpiWordSize := hsame.wordSize
      rintro request' (_ | ⟨_, hmem⟩)
      · exact hfirst
      · rw [← hword]
        refine ih hlocked (hword ▸ hlong) hu ?_ request' hmem
        simpa [grants, halloc, Allocated.of] using hgranted
    · simp [grants, halloc, Allocated.of] at hgranted

/-- Words are not longer than the arrays where a size and its multiple of words are granted. -/
theorem word_le_of_granted (hssl : ssl.Exact) (hs : Reachable s) (hctx : s.localBnCtx = true)
    {requests : List Request} (hgranted : grants ssl requests s = requests.length)
    (hr : r ∈ requests) (hr' : r' ∈ requests)
    (h : r'.rounded s.mpiWordSize = sizeToMpiWordBytes s.mpiWordSize (r.rounded s.mpiWordSize)) :
    s.mpiWordSize.toNat ≤ 2048 := by
  by_contra hlong
  have hlocked := locked_of_reachable hs hctx
  have hrounded := rounded_of_granted hssl hlocked (Nat.not_le.mp hlong)
    (empty_of_long_words hs (Nat.not_le.mp hlong)).1 requests hgranted
  rw [hrounded r hr, hrounded r' hr', sizeToMpiWordBytes, if_pos rfl] at h
  exact hlocked.word h.symm

end Speculos.Ec
