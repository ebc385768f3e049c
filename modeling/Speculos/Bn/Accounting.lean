import Speculos.Bn.Allocator
import Speculos.Lib.Lts

/-!
# What the bignum allocator accounts for

A run is any sequence of calls of the allocator, and the size that was asked for a number
goes along with its slot. The sizes are rounded up and added in 32 bits before they are
compared with the limit. The counters stay true in exactly the runs where neither of the
two goes past 32 bits for a number that is allocated.
-/

namespace Speculos.Bn

open Lib

-- ---------------------------------------------------------------------------
-- Runs
-- ---------------------------------------------------------------------------

inductive Call
  | lock (ssl : Openssl) (wordSize : UInt32)
  | unlock
  | alloc (ssl : Openssl) (size : UInt32)
  | allocInit (ssl : Openssl) (size : UInt32) (bytes : Bytes) (nbytes : UInt32)
  | destroy (bnX : Option UInt32)

/-- The variables of the allocator, and what was asked for the number of each slot. -/
structure Tracked where
  s : State
  requested : Slot → UInt32

def Tracked.initial : Tracked := ⟨.initial, fun _ => 0⟩

/-- What an allocation that asked for `size` leaves. -/
def Tracked.record (t : Tracked) (size : UInt32) : Allocated × State → Tracked
  | (⟨_, none⟩, s) => { t with s }
  | (⟨_, some i⟩, s) => ⟨s, Function.update t.requested i size⟩

def step (t : Tracked) : Call → Option Tracked
  | .lock ssl wordSize => some { t with s := (cxMpiLock ssl wordSize t.s).2 }
  | .unlock => some { t with s := (cxMpiUnlock t.s).2 }
  | .alloc ssl size => (cxMpiAlloc ssl size t.s).map (t.record size)
  | .allocInit ssl size bytes nbytes =>
    (cxMpiAllocInit ssl size bytes nbytes t.s).map (t.record (requestedInit size nbytes))
  | .destroy bnX => some { t with s := (cxMpiDestroy bnX t.s).2 }

-- ---------------------------------------------------------------------------
-- The invariant
-- ---------------------------------------------------------------------------

def State.liveBytes (s : State) : Nat := SlotTable.total CxMpi.live (·.size.toNat) s.mpiArray

/-- The counters of a unit that is locked. -/
structure Accounts (s : State) (requested : Slot → UInt32) : Prop where
  total : s.mpiTotalMemory.toNat = s.liveBytes
  limit : s.mpiTotalMemory.toNat ≤ maxMpiByteSize.toNat
  words : s.mpiWordsCount.toNat * s.mpiWordSize.toNat = s.mpiTotalMemory.toNat
  multiple : ∀ i, (s.mpiArray i).live = true → s.mpiWordSize.toNat ∣ (s.mpiArray i).size.toNat
  enough : ∀ i, (s.mpiArray i).live = true → requested i ≤ (s.mpiArray i).size

structure Accounted (t : Tracked) : Prop where
  locked : t.s.localBnCtx = true → Accounts t.s t.requested
  unlocked : t.s.localBnCtx = false → ∀ i, (t.s.mpiArray i).live = false

/-- A unit has a word size while it is locked. -/
def WordSized (s : State) : Prop := s.localBnCtx = true ↔ s.mpiWordSize ≠ 0

-- ---------------------------------------------------------------------------
-- Sizes
-- ---------------------------------------------------------------------------

/-- The size is rounded up within 32 bits. -/
def RoundsIn (wordSize size : UInt32) : Prop :=
  size ≠ 0 → size.toNat + (wordSize.toNat - 1) < 2 ^ 32

/-- Neither the size nor the sum goes past 32 bits. -/
def Fits (s : State) (size : UInt32) : Prop :=
  RoundsIn s.mpiWordSize size ∧
    (sizeToMpiWordBytes s.mpiWordSize size).toNat + s.mpiTotalMemory.toNat < 2 ^ 32

/-- The same for a number with contents, whose size is rounded twice: a first result of 0 is
rounded to one word, which there may be no memory for. -/
def FitsInit (s : State) (size : UInt32) : Prop :=
  size ≠ 0 →
    (RoundsIn s.mpiWordSize size → Fits s (sizeToMpiWordBytes s.mpiWordSize size)) ∧
      (¬ RoundsIn s.mpiWordSize size →
        maxMpiByteSize.toNat < s.mpiWordSize.toNat + s.mpiTotalMemory.toNat)

instance (wordSize size : UInt32) : Decidable (RoundsIn wordSize size) :=
  inferInstanceAs (Decidable (_ → _))

instance (s : State) (size : UInt32) : Decidable (Fits s size) :=
  inferInstanceAs (Decidable (_ ∧ _))

instance (s : State) (size : UInt32) : Decidable (FitsInit s size) :=
  inferInstanceAs (Decidable (_ → (_ → _) ∧ (_ → _)))

theorem toNat_pos_of_ne_zero {a : UInt32} (h : a ≠ 0) : 0 < a.toNat := by
  refine Nat.pos_of_ne_zero fun hzero => h ?_
  exact UInt32.toNat.inj (by simpa using hzero)

theorem toNat_add_pred {wordSize : UInt32} (hword : wordSize ≠ 0) (size : UInt32) :
    (size + (wordSize - 1)).toNat = (size.toNat + (wordSize.toNat - 1)) % 2 ^ 32 := by
  have hpos := toNat_pos_of_ne_zero hword
  have hle : (1 : UInt32) ≤ wordSize := by
    rw [UInt32.le_iff_toNat_le]
    exact hpos
  rw [UInt32.toNat_add, UInt32.toNat_sub_of_le _ _ hle]
  rfl

theorem toNat_rounded {wordSize : UInt32} (hword : wordSize ≠ 0) (hsize : size ≠ 0)
    (hin : size.toNat + (wordSize.toNat - 1) < 2 ^ 32) :
    (sizeToMpiWordBytes wordSize size).toNat =
      (size.toNat + (wordSize.toNat - 1)) / wordSize.toNat * wordSize.toNat := by
  have hle := Nat.div_mul_le_self (size.toNat + (wordSize.toNat - 1)) wordSize.toNat
  rw [sizeToMpiWordBytes, if_neg hsize, UInt32.toNat_mul, UInt32.toNat_div, toNat_add_pred hword,
    Nat.mod_eq_of_lt hin]
  exact Nat.mod_eq_of_lt (Nat.lt_of_le_of_lt hle hin)

theorem rounded_of_roundsIn {wordSize : UInt32} (hword : wordSize ≠ 0)
    (hin : RoundsIn wordSize size) :
    wordSize.toNat ∣ (sizeToMpiWordBytes wordSize size).toNat ∧
      size ≤ sizeToMpiWordBytes wordSize size := by
  have hpos := toNat_pos_of_ne_zero hword
  by_cases hsize : size = 0
  · subst hsize
    simp [sizeToMpiWordBytes, UInt32.le_iff_toNat_le]
  · rw [UInt32.le_iff_toNat_le, toNat_rounded hword hsize (hin hsize)]
    refine ⟨Nat.dvd_mul_left _ _, ?_⟩
    have hmod := Nat.mod_lt (size.toNat + (wordSize.toNat - 1)) hpos
    have hdiv := Nat.div_add_mod' (size.toNat + (wordSize.toNat - 1)) wordSize.toNat
    omega

theorem rounded_of_not_roundsIn {wordSize : UInt32} (hword : wordSize ≠ 0)
    (hout : ¬ RoundsIn wordSize size) : sizeToMpiWordBytes wordSize size = 0 := by
  obtain ⟨hsize, hwrap⟩ := Classical.not_imp.mp hout
  have hpos := toNat_pos_of_ne_zero hword
  have hlt := size.toNat_lt
  have hwlt := wordSize.toNat_lt
  have hmod : (size + (wordSize - 1)).toNat < wordSize.toNat := by
    rw [toNat_add_pred hword, Nat.mod_eq_sub_mod (by omega), Nat.mod_eq_of_lt (by omega)]
    omega
  have hdiv : (size + (wordSize - 1)) / wordSize = 0 := by
    refine UInt32.toNat.inj ?_
    rw [UInt32.toNat_div, Nat.div_eq_of_lt hmod]
    rfl
  rw [sizeToMpiWordBytes, if_neg hsize, hdiv, UInt32.zero_mul]

theorem rounded_word {wordSize : UInt32} (hword : wordSize ≠ 0) (hin : RoundsIn wordSize wordSize) :
    sizeToMpiWordBytes wordSize wordSize = wordSize := by
  have hpos := toNat_pos_of_ne_zero hword
  refine UInt32.toNat.inj ?_
  rw [toNat_rounded hword hword (hin hword), Nat.add_div_left _ hpos,
    Nat.div_eq_of_lt (Nat.sub_one_lt hpos.ne'), Nat.zero_add, Nat.one_mul]

-- ---------------------------------------------------------------------------
-- One slot
-- ---------------------------------------------------------------------------

section

variable {s : State} {requested : Slot → UInt32}

theorem liveBytes_fill (hfree : (s.mpiArray i).live = false) (size : UInt32) :
    (s.fill i size).liveBytes = s.liveBytes + size.toNat := by
  have hsum := @SlotTable.total_update _ _ CxMpi.live (·.size.toNat) s.mpiArray i
    ⟨some 0, size⟩
  rw [SlotTable.slotWeight_of_not_live hfree, SlotTable.slotWeight_of_live rfl,
    Nat.add_zero] at hsum
  rw [State.liveBytes, mpiArray_fill, hsum, State.liveBytes]

theorem liveBytes_release (hlive : (s.mpiArray i).live = true) :
    (s.release i).liveBytes + (s.mpiArray i).size.toNat = s.liveBytes := by
  have hsum := @SlotTable.total_update _ _ CxMpi.live (·.size.toNat) s.mpiArray i
    .empty
  rw [SlotTable.slotWeight_of_live hlive, SlotTable.slotWeight_of_not_live rfl,
    Nat.add_zero] at hsum
  rw [State.liveBytes, mpiArray_release, hsum, State.liveBytes]

theorem accounts_fill_iff (h : Accounts s requested) (hfree : (s.mpiArray i).live = false)
    (hword : s.mpiWordSize ≠ 0) (size n : UInt32) :
    Accounts (s.fill i size) (Function.update requested i n) ↔
      s.mpiWordSize.toNat ∣ size.toNat ∧ n ≤ size ∧
        s.mpiTotalMemory.toNat + size.toNat ≤ maxMpiByteSize.toNat := by
  have hpos := toNat_pos_of_ne_zero hword
  constructor
  · intro h'
    have htotal := h'.total
    rw [liveBytes_fill hfree, ← h.total] at htotal
    have hlimit := h'.limit
    have hmultiple := h'.multiple i
    have henough := h'.enough i
    simp only [State.fill, Function.update_self] at hmultiple henough
    rw [htotal] at hlimit
    exact ⟨hmultiple rfl, henough rfl, hlimit⟩
  · rintro ⟨⟨k, hk⟩, hn, hlimit⟩
    have hmax : maxMpiByteSize.toNat < 2 ^ 32 := by decide
    have htotal : (s.fill i size).mpiTotalMemory.toNat = s.mpiTotalMemory.toNat + size.toNat := by
      rw [show (s.fill i size).mpiTotalMemory = s.mpiTotalMemory + size from rfl, UInt32.toNat_add]
      exact Nat.mod_eq_of_lt (by omega)
    have hcount : size.toNat / s.mpiWordSize.toNat = k := by
      rw [hk, Nat.mul_div_cancel_left k hpos]
    have hwords : (s.fill i size).mpiWordsCount.toNat = s.mpiWordsCount.toNat + k := by
      rw [show (s.fill i size).mpiWordsCount = s.mpiWordsCount + size / s.mpiWordSize from rfl,
        UInt32.toNat_add, UInt32.toNat_div, hcount]
      have hle : s.mpiWordsCount.toNat + k ≤ (s.mpiWordsCount.toNat + k) * s.mpiWordSize.toNat :=
        Nat.le_mul_of_pos_right _ hpos
      rw [Nat.add_mul, h.words, Nat.mul_comm k, ← hk] at hle
      exact Nat.mod_eq_of_lt (by omega)
    refine ⟨?_, ?_, ?_, fun j hj => ?_, fun j hj => ?_⟩
    · rw [htotal, liveBytes_fill hfree, h.total]
    · rw [htotal]
      exact hlimit
    · rw [hwords, htotal, show (s.fill i size).mpiWordSize = s.mpiWordSize from rfl, Nat.add_mul,
        h.words, hk, Nat.mul_comm k]
    · by_cases hji : j = i
      · subst hji
        simpa [State.fill] using ⟨k, hk⟩
      · simp only [State.fill, Function.update_of_ne hji] at hj ⊢
        exact h.multiple j hj
    · by_cases hji : j = i
      · subst hji
        simpa [State.fill] using hn
      · simp only [State.fill, Function.update_of_ne hji] at hj ⊢
        exact h.enough j hj

theorem accounts_release (h : Accounts s requested) (hlive : (s.mpiArray i).live = true)
    (hword : s.mpiWordSize ≠ 0) : Accounts (s.release i) requested := by
  have hpos := toNat_pos_of_ne_zero hword
  have hsum := liveBytes_release hlive
  have hsize : (s.mpiArray i).size.toNat ≤ s.mpiTotalMemory.toNat := by rw [h.total]; omega
  have htotal : (s.release i).mpiTotalMemory.toNat =
      s.mpiTotalMemory.toNat - (s.mpiArray i).size.toNat :=
    UInt32.toNat_sub_of_le _ _ (UInt32.le_iff_toNat_le.mpr hsize)
  obtain ⟨k, hk⟩ := h.multiple i hlive
  have hcount : (s.mpiArray i).size.toNat / s.mpiWordSize.toNat = k := by
    rw [hk, Nat.mul_div_cancel_left k hpos]
  have hkle : k ≤ s.mpiWordsCount.toNat := by
    refine Nat.le_of_mul_le_mul_right ?_ hpos
    rw [h.words, Nat.mul_comm k, ← hk]
    exact hsize
  have hwords : (s.release i).mpiWordsCount.toNat = s.mpiWordsCount.toNat - k := by
    rw [← hcount, ← UInt32.toNat_div]
    refine UInt32.toNat_sub_of_le _ _ (UInt32.le_iff_toNat_le.mpr ?_)
    rw [UInt32.toNat_div, hcount]
    exact hkle
  refine ⟨?_, ?_, ?_, fun j hj => ?_, fun j hj => ?_⟩
  · have hbefore := h.total
    omega
  · have hlimit := h.limit
    omega
  · rw [hwords, htotal, show (s.release i).mpiWordSize = s.mpiWordSize from rfl, Nat.sub_mul,
      h.words, hk, Nat.mul_comm k]
  · by_cases hji : j = i
    · subst hji
      simp [State.release] at hj
    · simp only [State.release, Function.update_of_ne hji] at hj ⊢
      exact h.multiple j hj
  · by_cases hji : j = i
    · subst hji
      simp [State.release] at hj
    · simp only [State.release, Function.update_of_ne hji] at hj ⊢
      exact h.enough j hj

theorem Accounts.of_sameUnit (h : Accounts s requested) (hsame : SameUnit s s') :
    Accounts s' requested := by
  have hbytes : s'.liveBytes = s.liveBytes := by
    refine SlotTable.total_congr fun i => ?_
    by_cases hi : (s.mpiArray i).live = true
    · rw [SlotTable.slotWeight_of_live ((hsame.live i).trans hi), SlotTable.slotWeight_of_live hi,
        hsame.size i hi]
    · rw [Bool.not_eq_true] at hi
      rw [SlotTable.slotWeight_of_not_live ((hsame.live i).trans hi),
        SlotTable.slotWeight_of_not_live hi]
  refine ⟨?_, ?_, ?_, fun i hi => ?_, fun i hi => ?_⟩
  · rw [hsame.totalMemory, hbytes, h.total]
  · rw [hsame.totalMemory]
    exact h.limit
  · rw [hsame.wordsCount, hsame.wordSize, hsame.totalMemory, h.words]
  · rw [hsame.live] at hi
    rw [hsame.wordSize, hsame.size i hi]
    exact h.multiple i hi
  · rw [hsame.live] at hi
    rw [hsame.size i hi]
    exact h.enough i hi

-- ---------------------------------------------------------------------------
-- An allocation
-- ---------------------------------------------------------------------------

/-- The limit is met in 32 bits where the sum wraps, and where the size became 0. -/
theorem not_fits_accepted (hword : s.mpiWordSize ≠ 0)
    (hlimit : s.mpiTotalMemory.toNat ≤ maxMpiByteSize.toNat) (hnot : ¬ Fits s size) :
    sizeToMpiWordBytes s.mpiWordSize size + s.mpiTotalMemory ≤ maxMpiByteSize := by
  have hmax : maxMpiByteSize.toNat = 2048 := rfl
  rw [UInt32.le_iff_toNat_le, UInt32.toNat_add]
  by_cases hin : RoundsIn s.mpiWordSize size
  · have hlt := (sizeToMpiWordBytes s.mpiWordSize size).toNat_lt
    have hwrap : ¬ (sizeToMpiWordBytes s.mpiWordSize size).toNat + s.mpiTotalMemory.toNat <
        2 ^ 32 := fun h => hnot ⟨hin, h⟩
    rw [Nat.mod_eq_sub_mod (by omega), Nat.mod_eq_of_lt (by omega)]
    omega
  · rw [rounded_of_not_roundsIn hword hin, UInt32.toNat_zero, Nat.zero_add,
      Nat.mod_eq_of_lt (by omega)]
    exact hlimit

theorem fits_sum (hfits : Fits s size)
    (haccepted : sizeToMpiWordBytes s.mpiWordSize size + s.mpiTotalMemory ≤ maxMpiByteSize) :
    s.mpiTotalMemory.toNat + (sizeToMpiWordBytes s.mpiWordSize size).toNat ≤
      maxMpiByteSize.toNat := by
  rw [UInt32.le_iff_toNat_le, UInt32.toNat_add, Nat.mod_eq_of_lt hfits.2] at haccepted
  omega

/-- What `cx_mpi_alloc` does where a size of `size` bytes is recorded for a number that was to
have `n` bytes. -/
theorem accounts_alloc_iff (h : Accounts s requested) (hfree : (s.mpiArray i).live = false)
    (hword : s.mpiWordSize ≠ 0)
    (haccepted : sizeToMpiWordBytes s.mpiWordSize size + s.mpiTotalMemory ≤ maxMpiByteSize) :
    Accounts (s.fill i (sizeToMpiWordBytes s.mpiWordSize size))
        (Function.update requested i size) ↔ Fits s size := by
  rw [accounts_fill_iff h hfree hword]
  constructor
  · rintro ⟨-, hn, hsum⟩
    have hmax : maxMpiByteSize.toNat = 2048 := rfl
    refine ⟨fun hsize => ?_, by omega⟩
    by_contra hout
    rw [rounded_of_not_roundsIn hword fun hin => hout (hin hsize), UInt32.le_iff_toNat_le,
      UInt32.toNat_zero] at hn
    have hpos := toNat_pos_of_ne_zero hsize
    omega
  · intro hfits
    obtain ⟨hdvd, hn⟩ := rounded_of_roundsIn hword hfits.1
    exact ⟨hdvd, hn, fits_sum hfits haccepted⟩

theorem Accounts.word_add_total_lt (h : Accounts s requested) :
    s.mpiWordSize.toNat + s.mpiTotalMemory.toNat < 2 ^ 32 := by
  have hmax : maxMpiByteSize.toNat = 2048 := rfl
  have hlt := s.mpiWordSize.toNat_lt
  have hlimit := h.limit
  rcases Nat.eq_zero_or_pos s.mpiWordsCount.toNat with hzero | hcount
  · have htotal : s.mpiTotalMemory.toNat = 0 := by rw [← h.words, hzero, Nat.zero_mul]
    omega
  · have hle := Nat.le_mul_of_pos_left s.mpiWordSize.toNat hcount
    rw [h.words] at hle
    omega

/-- The same for `cx_mpi_alloc_init`, which rounds the size before `cx_mpi_alloc` does. -/
theorem accounts_allocInit_iff (h : Accounts s requested) (hfree : (s.mpiArray i).live = false)
    (hword : s.mpiWordSize ≠ 0)
    (haccepted : sizeToMpiWordBytes s.mpiWordSize (sizeToMpiWordBytes s.mpiWordSize size) +
      s.mpiTotalMemory ≤ maxMpiByteSize) :
    Accounts (s.fill i (sizeToMpiWordBytes s.mpiWordSize (sizeToMpiWordBytes s.mpiWordSize size)))
        (Function.update requested i size) ↔ FitsInit s size := by
  have hmax : maxMpiByteSize.toNat = 2048 := rfl
  have hlimit := h.limit
  have hone := h.word_add_total_lt
  rw [accounts_fill_iff h hfree hword]
  by_cases hsize : size = 0
  · -- one word, or nothing at all
    refine iff_of_true ?_ fun hne => absurd hsize hne
    rw [show sizeToMpiWordBytes s.mpiWordSize size = s.mpiWordSize from if_pos hsize] at haccepted ⊢
    by_cases hin : RoundsIn s.mpiWordSize s.mpiWordSize
    · rw [rounded_word hword hin, UInt32.le_iff_toNat_le, UInt32.toNat_add,
        Nat.mod_eq_of_lt hone] at haccepted
      rw [rounded_word hword hin, hsize, UInt32.le_iff_toNat_le, UInt32.toNat_zero]
      exact ⟨Nat.dvd_refl _, Nat.zero_le _, by omega⟩
    · rw [rounded_of_not_roundsIn hword hin, hsize]
      exact ⟨Nat.dvd_zero _, UInt32.le_refl _, hlimit⟩
  · by_cases hin : RoundsIn s.mpiWordSize size
    · obtain ⟨-, hle⟩ := rounded_of_roundsIn hword hin
      have hfits : FitsInit s size ↔ Fits s (sizeToMpiWordBytes s.mpiWordSize size) :=
        ⟨fun hfits => (hfits hsize).1 hin, fun hfits _ => ⟨fun _ => hfits, absurd hin⟩⟩
      rw [hfits, ← accounts_alloc_iff h hfree hword haccepted, accounts_fill_iff h hfree hword]
      refine ⟨fun ⟨hdvd, hn, hsum⟩ => ⟨hdvd, ?_, hsum⟩, fun ⟨hdvd, hn, hsum⟩ => ⟨hdvd, ?_, hsum⟩⟩
      · by_cases hin' : RoundsIn s.mpiWordSize (sizeToMpiWordBytes s.mpiWordSize size)
        · exact (rounded_of_roundsIn hword hin').2
        · rw [rounded_of_not_roundsIn hword hin', UInt32.le_iff_toNat_le, UInt32.toNat_zero] at hn
          have hpos := toNat_pos_of_ne_zero hsize
          omega
      · exact UInt32.le_trans hle hn
    · have hone' : sizeToMpiWordBytes s.mpiWordSize (sizeToMpiWordBytes s.mpiWordSize size) =
          s.mpiWordSize := by
        rw [rounded_of_not_roundsIn hword hin]
        exact if_pos rfl
      rw [hone', UInt32.le_iff_toNat_le, UInt32.toNat_add, Nat.mod_eq_of_lt hone] at haccepted
      obtain ⟨-, hwrap⟩ := Classical.not_imp.mp hin
      rw [hone', UInt32.le_iff_toNat_le]
      refine iff_of_false (fun ⟨_, hn, _⟩ => ?_) fun hfits => ?_
      · omega
      · have hfull := (hfits hsize).2 hin
        omega

end

-- ---------------------------------------------------------------------------
-- Every call
-- ---------------------------------------------------------------------------

/-- The condition on a call: for a number that is allocated, the size and the sum stay within
32 bits. -/
def Meets (t : Tracked) : Call → Prop
  | .alloc ssl size =>
    t.s.localBnCtx = true → ∀ i ∈ t.s.firstFree, ssl.bnNew i = true → Fits t.s size
  | .allocInit ssl size bytes nbytes =>
    t.s.localBnCtx = true → ∀ i ∈ t.s.firstFree, ssl.bnNew i = true →
      (ssl.bin2bn (bytes.take nbytes.toNat)).ok = true → FitsInit t.s (requestedInit size nbytes)
  | _ => True

instance : ∀ (t : Tracked) (call : Call), Decidable (Meets t call)
  | _, .alloc _ _ => inferInstanceAs (Decidable (_ → ∀ _ ∈ _, _ → _))
  | _, .allocInit _ _ _ _ => inferInstanceAs (Decidable (_ → ∀ _ ∈ _, _ → _ → _))
  | _, .lock _ _ | _, .unlock | _, .destroy _ => .isTrue trivial

theorem sizeToMpiBytes_ne_zero (size : UInt32) : sizeToMpiBytes size ≠ 0 := by
  unfold sizeToMpiBytes
  simp only
  split
  · decide
  · assumption

theorem wordSized_cxMpiLock (ssl : Openssl) (wordSize : UInt32) (h : WordSized s) :
    WordSized (cxMpiLock ssl wordSize s).2 := by
  unfold cxMpiLock
  split
  · exact h
  · split
    · exact h
    · simp [WordSized, sizeToMpiBytes_ne_zero]

theorem SameUnit.wordSized (hsame : SameUnit s s') (h : WordSized s) : WordSized s' := by
  rw [WordSized, hsame.localBnCtx, hsame.wordSize]
  exact h

theorem cxMpiAllocInit_cases (hw : WordSized s)
    (h : cxMpiAllocInit ssl size bytes nbytes s = some (x, s')) :
    x.x = none ∧ SameUnit s s' ∨
      ∃ i, s.firstFree = some i ∧ ssl.bnNew i = true ∧ s.mpiWordSize ≠ 0 ∧
        (ssl.bin2bn (bytes.take nbytes.toNat)).ok = true ∧
        sizeToMpiWordBytes s.mpiWordSize (sizeToMpiWordBytes s.mpiWordSize
          (requestedInit size nbytes)) + s.mpiTotalMemory ≤ maxMpiByteSize ∧
        x = .of (some i) ∧
        s' = (s.fill i (sizeToMpiWordBytes s.mpiWordSize (sizeToMpiWordBytes s.mpiWordSize
          (requestedInit size nbytes)))).setValue i
            (ssl.bin2bn (bytes.take nbytes.toNat)).value := by
  rw [cxMpiAllocInit] at h
  split at h
  · simp at h
  · obtain ⟨⟨y, u⟩, halloc, hinit⟩ := Option.map_eq_some_iff.mp h
    obtain ⟨rfl, rfl⟩ | ⟨i, hi, hnew, hword, hfits, rfl, rfl⟩ := cxMpiAlloc_cases halloc
    · simp only [Allocated.of, initAllocated, Prod.mk.injEq] at hinit
      obtain ⟨rfl, rfl⟩ := hinit
      exact .inl ⟨rfl, .refl _⟩
    · have hfree := SlotTable.not_live_of_firstFree hi
      simp only [Allocated.of, initAllocated] at hinit
      split at hinit
      · rename_i hok
        simp only [Prod.mk.injEq] at hinit
        exact .inr ⟨i, hi, hnew, hword, hok, hfits, hinit.1.symm, hinit.2.symm⟩
      · rw [cxMpiDestroy_handle] at hinit
        simp only [Prod.mk.injEq] at hinit
        obtain ⟨rfl, rfl⟩ := hinit
        refine .inl ⟨rfl, ?_⟩
        have hctx : s.localBnCtx = true := hw.mpr hword
        rw [destroySlot_of_live (live_fill s i _) hctx]
        exact sameUnit_release_fill hfree _

theorem wordSized_step (h : WordSized t.s) (hstep : step t call = some t') : WordSized t'.s := by
  cases call with
  | lock ssl wordSize =>
    obtain rfl := Option.some.inj hstep
    exact wordSized_cxMpiLock ssl wordSize h
  | unlock =>
    obtain rfl := Option.some.inj hstep
    simp [WordSized, cxMpiUnlock, State.close]
  | alloc ssl size =>
    obtain ⟨⟨x, s'⟩, halloc, rfl⟩ := Option.map_eq_some_iff.mp hstep
    obtain ⟨rfl, rfl⟩ | ⟨i, -, -, -, -, rfl, rfl⟩ := cxMpiAlloc_cases halloc
    · exact h
    · exact h
  | allocInit ssl size bytes nbytes =>
    obtain ⟨⟨⟨bnX, x⟩, s'⟩, halloc, rfl⟩ := Option.map_eq_some_iff.mp hstep
    obtain ⟨rfl, hsame⟩ | ⟨i, -, -, -, -, -, hx, rfl⟩ := cxMpiAllocInit_cases h halloc
    · exact hsame.wordSized h
    · obtain ⟨rfl, rfl⟩ := Allocated.mk.inj hx
      exact h
  | destroy bnX =>
    obtain rfl := Option.some.inj hstep
    obtain hstay | ⟨i, -, -, hrelease⟩ := cxMpiDestroy_cases bnX t.s
    · simpa [hstay] using h
    · simp only [hrelease]
      exact h

theorem Accounted.of_sameUnit {t : Tracked} (h : Accounted t) (hsame : SameUnit t.s s') :
    Accounted ⟨s', t.requested⟩ where
  locked hctx := (h.locked (hsame.localBnCtx.symm.trans hctx)).of_sameUnit hsame
  unlocked hctx i := (hsame.live i).trans (h.unlocked (hsame.localBnCtx.symm.trans hctx) i)

theorem accounted_cxMpiLock {t : Tracked} (h : Accounted t) (ssl : Openssl) (wordSize : UInt32) :
    Accounted ⟨(cxMpiLock ssl wordSize t.s).2, t.requested⟩ := by
  unfold cxMpiLock
  split
  · exact h
  · rename_i hctx
    rw [Bool.not_eq_true] at hctx
    split
    · exact h
    · have hnone := h.unlocked hctx
      have hbytes : State.liveBytes { t.s with
          localBnCtx := true, mpiTotalMemory := 0, mpiWordSize := sizeToMpiBytes wordSize,
          mpiWordsCount := 0 } = 0 := SlotTable.total_eq_zero hnone
      refine ⟨fun _ => ⟨?_, Nat.zero_le _, Nat.zero_mul _, fun i hi => ?_, fun i hi => ?_⟩, ?_⟩
      · rw [hbytes, UInt32.toNat_zero]
      · simp [hnone i] at hi
      · simp [hnone i] at hi
      · simp

theorem accounted_cxMpiUnlock {t : Tracked} (h : Accounted t) :
    Accounted ⟨(cxMpiUnlock t.s).2, t.requested⟩ := by
  refine ⟨fun hctx => absurd hctx Bool.false_ne_true, fun _ i => ?_⟩
  rw [cxMpiUnlock]
  cases hctx : t.s.localBnCtx with
  | true => exact not_live_unlocked hctx i
  | false =>
    rw [mpiArray_close, destroyAll_of_unlocked _ hctx]
    exact h.unlocked hctx i

theorem accounted_cxMpiDestroy {t : Tracked} (hw : WordSized t.s) (h : Accounted t)
    (bnX : Option UInt32) : Accounted ⟨(cxMpiDestroy bnX t.s).2, t.requested⟩ := by
  obtain hstay | ⟨i, hlive, hctx, hrelease⟩ := cxMpiDestroy_cases bnX t.s
  · rw [hstay]
    exact h
  · rw [hrelease]
    refine ⟨fun _ => accounts_release (h.locked hctx) hlive (hw.mp hctx), fun hno => ?_⟩
    exact absurd (hctx.symm.trans hno) (by decide)

theorem accounted_cxMpiAlloc_iff {t : Tracked} (hw : WordSized t.s) (h : Accounted t)
    (halloc : cxMpiAlloc ssl size t.s = some r) :
    Accounted (t.record size r) ↔ Meets t (.alloc ssl size) := by
  obtain ⟨x, s'⟩ := r
  obtain ⟨rfl, rfl⟩ | ⟨i, hi, hnew, hword, hfits, rfl, rfl⟩ := cxMpiAlloc_cases halloc
  · refine iff_of_true h fun hctx i hi hnew => ?_
    by_contra hnot
    have haccepted := not_fits_accepted (hw.mp hctx) (h.locked hctx).limit hnot
    rw [cxMpiAlloc_of_fits hi hnew (hw.mp hctx) haccepted] at halloc
    simp [Allocated.of] at halloc
  · have hctx := hw.mpr hword
    have hiff := accounts_alloc_iff (h.locked hctx) (SlotTable.not_live_of_firstFree hi) hword hfits
    constructor
    · intro hnext _ j hj _
      exact hiff.mp (hnext.locked hctx)
    · intro hmeets
      refine ⟨fun _ => hiff.mpr (hmeets hctx i hi hnew), fun hno => ?_⟩
      exact absurd (hctx.symm.trans hno) (by decide)

theorem not_fitsInit_accepted (hword : s.mpiWordSize ≠ 0)
    (hlimit : s.mpiTotalMemory.toNat ≤ maxMpiByteSize.toNat) (hnot : ¬ FitsInit s size) :
    sizeToMpiWordBytes s.mpiWordSize (sizeToMpiWordBytes s.mpiWordSize size) + s.mpiTotalMemory ≤
      maxMpiByteSize := by
  have hmax : maxMpiByteSize.toNat = 2048 := rfl
  obtain ⟨-, hnot⟩ := Classical.not_imp.mp hnot
  by_cases hin : RoundsIn s.mpiWordSize size
  · exact not_fits_accepted hword hlimit fun hfits => hnot ⟨fun _ => hfits, absurd hin⟩
  · have hle : s.mpiWordSize.toNat + s.mpiTotalMemory.toNat ≤ maxMpiByteSize.toNat := by
      by_contra hfull
      exact hnot ⟨fun hin' => absurd hin' hin, fun _ => Nat.lt_of_not_le hfull⟩
    rw [rounded_of_not_roundsIn hword hin, show sizeToMpiWordBytes s.mpiWordSize 0 = s.mpiWordSize
      from if_pos rfl, UInt32.le_iff_toNat_le, UInt32.toNat_add, Nat.mod_eq_of_lt (by omega)]
    exact hle

theorem cxMpiAllocInit_of_fits (hi : s.firstFree = some i) (hnew : ssl.bnNew i = true)
    (hword : s.mpiWordSize ≠ 0) (hok : (ssl.bin2bn (bytes.take nbytes.toNat)).ok = true)
    (haccepted : sizeToMpiWordBytes s.mpiWordSize (sizeToMpiWordBytes s.mpiWordSize
      (requestedInit size nbytes)) + s.mpiTotalMemory ≤ maxMpiByteSize) :
    cxMpiAllocInit ssl size bytes nbytes s =
      some (.of (some i), (s.fill i (sizeToMpiWordBytes s.mpiWordSize (sizeToMpiWordBytes
        s.mpiWordSize (requestedInit size nbytes)))).setValue i
          (ssl.bin2bn (bytes.take nbytes.toNat)).value) := by
  rw [cxMpiAllocInit, if_neg fun h => hword h.1, cxMpiAlloc_of_fits hi hnew hword haccepted,
    Option.map_some, Allocated.of, initAllocated, if_pos hok]

theorem accounted_cxMpiAllocInit_iff {t : Tracked} (hw : WordSized t.s) (h : Accounted t)
    (halloc : cxMpiAllocInit ssl size bytes nbytes t.s = some r) :
    Accounted (t.record (requestedInit size nbytes) r) ↔
      Meets t (.allocInit ssl size bytes nbytes) := by
  obtain ⟨⟨bnX, x⟩, s'⟩ := r
  obtain ⟨rfl, hsame⟩ | ⟨i, hi, hnew, hword, hok, hfits, hx, rfl⟩ := cxMpiAllocInit_cases hw halloc
  · refine iff_of_true (h.of_sameUnit hsame) fun hctx i hi hnew hok => ?_
    by_contra hnot
    have haccepted := not_fitsInit_accepted (hw.mp hctx) (h.locked hctx).limit hnot
    rw [cxMpiAllocInit_of_fits hi hnew (hw.mp hctx) hok haccepted] at halloc
    simp [Allocated.of] at halloc
  · obtain ⟨rfl, rfl⟩ := Allocated.mk.inj hx
    have hctx := hw.mpr hword
    have hiff := accounts_allocInit_iff (h.locked hctx) (SlotTable.not_live_of_firstFree hi) hword
      hfits
    constructor
    · intro hnext _ j hj _ _
      exact hiff.mp ((hnext.locked hctx).of_sameUnit (sameUnit_setValue (live_fill _ i _) _).symm)
    · intro hmeets
      refine ⟨fun _ => ?_, fun hno => absurd (hctx.symm.trans hno) (by decide)⟩
      exact (hiff.mpr (hmeets hctx i hi hnew hok)).of_sameUnit
        (sameUnit_setValue (live_fill _ i _) _)

theorem accounted_step_iff (hw : WordSized t.s) (h : Accounted t) (hstep : step t call = some t') :
    Accounted t' ↔ Meets t call := by
  cases call with
  | lock ssl wordSize =>
    obtain rfl := Option.some.inj hstep
    exact iff_of_true (accounted_cxMpiLock h ssl wordSize) trivial
  | unlock =>
    obtain rfl := Option.some.inj hstep
    exact iff_of_true (accounted_cxMpiUnlock h) trivial
  | alloc ssl size =>
    obtain ⟨r, halloc, rfl⟩ := Option.map_eq_some_iff.mp hstep
    exact accounted_cxMpiAlloc_iff hw h halloc
  | allocInit ssl size bytes nbytes =>
    obtain ⟨r, halloc, rfl⟩ := Option.map_eq_some_iff.mp hstep
    exact accounted_cxMpiAllocInit_iff hw h halloc
  | destroy bnX =>
    obtain rfl := Option.some.inj hstep
    exact iff_of_true (accounted_cxMpiDestroy hw h bnX) trivial

-- ---------------------------------------------------------------------------
-- Every run
-- ---------------------------------------------------------------------------

theorem wordSized_initial : WordSized State.initial := by simp [WordSized, State.initial]

theorem accounted_initial : Accounted .initial :=
  ⟨fun hctx => absurd hctx Bool.false_ne_true, fun _ _ => rfl⟩

/-- The counters are true in all states of a run exactly where every allocation of it stays
within 32 bits. -/
theorem accounted_iff (calls : List Call) (h : exec step .initial calls = some t) :
    (∀ before after u, calls = before ++ after → exec step .initial before = some u →
      Accounted u) ↔ Guarded step Meets .initial calls := by
  have hsized : ∀ before u, exec step .initial before = some u → WordSized u.s := fun _ _ hu =>
    exec_invariant (I := fun u : Tracked => WordSized u.s) (fun _ _ _ hw => wordSized_step hw)
      wordSized_initial hu
  have hboth : ∀ s a s', WordSized s.s ∧ Accounted s → True → step s a = some s' →
      ((WordSized s'.s ∧ Accounted s') ↔ Meets s a) := by
    rintro s a s' ⟨hw, hacc⟩ - hstep
    rw [← accounted_step_iff hw hacc hstep]
    exact ⟨fun h => h.2, fun h => ⟨wordSized_step hw hstep, h⟩⟩
  rw [← forall_prefix_iff_guarded hboth ⟨wordSized_initial, accounted_initial⟩
    (guarded_of_forall (fun _ _ => trivial) _ calls) h]
  exact ⟨fun hall before after u hc hu => ⟨hsized before u hu, hall before after u hc hu⟩,
    fun hall before after u hc hu => (hall before after u hc hu).2⟩

/-- Two numbers, one of which is destroyed twice, and the unit unlocked twice. -/
def twoNumbers : List Call :=
  [.lock .integers 16, .alloc .integers 40, .allocInit .integers 16 [1, 2, 3] 3, .destroy (some 0),
    .destroy (some 0), .unlock, .unlock]

theorem accounted_twoNumbers :
    ∃ t, exec step .initial twoNumbers = some t ∧
      ∀ before after u, twoNumbers = before ++ after → exec step .initial before = some u →
        Accounted u := by
  have hrun : (exec step .initial twoNumbers).isSome := by decide
  have hexec := (Option.some_get hrun).symm
  exact ⟨_, hexec, (accounted_iff twoNumbers hexec).mpr (by decide)⟩

/-- Rounded up, a size of all ones is 0. -/
def hugeNumber : List Call := [.lock .integers 16, .alloc .integers 0xFFFFFFFF]

theorem isSome_exec_hugeNumber : (exec step .initial hugeNumber).isSome := by decide

theorem not_accounted_hugeNumber :
    ¬ ∀ calls t, exec step .initial calls = some t → Accounted t := by
  intro hall
  have hacc := hall hugeNumber _ (Option.some_get isSome_exec_hugeNumber).symm
  have henough := (hacc.locked (by decide)).enough 0 (by decide)
  exact absurd henough (by decide)

end Speculos.Bn
