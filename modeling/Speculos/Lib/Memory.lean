import Mathlib.Data.List.GetD
import Mathlib.Algebra.Ring.Nat
import Speculos.Lib.Octets

/-!
# A region of memory reached through one pointer

`Region` is what a C function sees behind a byte pointer: the contents at
every index, also past the end of the object, and the list of the indices
written so far, latest first. The size of the object is not part of it, so
that a write past the end can be expressed; staying in bounds is a property
of the list of written indices.
-/

namespace Lib

structure Region where
  cell : Nat → UInt8
  written : List Nat

namespace Region

def zeroed : Region := ⟨fun _ => 0, []⟩

def store (r : Region) (i : Nat) (b : UInt8) : Region :=
  { cell := fun j => if j = i then b else r.cell j, written := i :: r.written }

/-- `memcpy(&r[dst], src, n)`. A byte read past the end of `src` is
unspecified in C; it is taken as zero here. -/
def memcpy (r : Region) (dst : Nat) (src : Bytes) : Nat → Region
  | 0 => r
  | n + 1 => (r.memcpy dst src n).store (dst + n) (src.getD n 0)

def memset (r : Region) (dst : Nat) (b : UInt8) (n : Nat) : Region :=
  r.memcpy dst (List.replicate n b) n

def storeBE16 (r : Region) (i n : Nat) : Region :=
  r.memcpy i (be16 n) 2

def slice (r : Region) (off n : Nat) : Bytes :=
  (List.range n).map fun i => r.cell (off + i)

-- ---------------------------------------------------------------------------
-- Contents
-- ---------------------------------------------------------------------------

theorem cell_store (r : Region) (i j : Nat) (b : UInt8) :
    (r.store i b).cell j = if j = i then b else r.cell j := rfl

theorem cell_memcpy (r : Region) (dst : Nat) (src : Bytes) (n i : Nat) :
    (r.memcpy dst src n).cell i =
      if dst ≤ i ∧ i < dst + n then src.getD (i - dst) 0 else r.cell i := by
  induction n with
  | zero =>
    have h : ¬ (dst ≤ i ∧ i < dst + 0) := by omega
    rw [if_neg h, memcpy]
  | succ n ih =>
    rw [memcpy, cell_store, ih]
    by_cases hi : i = dst + n
    · have h : dst ≤ i ∧ i < dst + (n + 1) := by omega
      rw [if_pos hi, if_pos h, hi, Nat.add_sub_cancel_left]
    · have h : (dst ≤ i ∧ i < dst + n) ↔ (dst ≤ i ∧ i < dst + (n + 1)) := by omega
      rw [if_neg hi]
      simp only [h]

@[simp] theorem length_slice (r : Region) (off n : Nat) : (r.slice off n).length = n := by
  simp [slice]

theorem getElem_slice (r : Region) (off n i : Nat) (h : i < (r.slice off n).length) :
    (r.slice off n)[i] = r.cell (off + i) := by
  simp [slice]

theorem slice_add (r : Region) (off n m : Nat) :
    r.slice off (n + m) = r.slice off n ++ r.slice (off + n) m := by
  simp [slice, List.range_add, Nat.add_assoc]

theorem slice_one (r : Region) (off : Nat) : r.slice off 1 = [r.cell off] := rfl

theorem take_slice (r : Region) (off n m : Nat) (h : m ≤ n) :
    (r.slice off n).take m = r.slice off m := by
  obtain ⟨k, rfl⟩ := Nat.exists_eq_add_of_le h
  rw [slice_add, List.take_left' (length_slice ..)]

theorem take_slice_concat_iff (r : Region) (off n : Nat) (b : UInt8) (h : m ≤ n + 1) :
    (r.slice off n ++ [b]).take m = r.slice off m ↔ m ≤ n ∨ m = n + 1 ∧ r.cell (off + n) = b := by
  rcases Nat.lt_or_eq_of_le h with hlt | rfl
  · have hle := Nat.le_of_lt_succ hlt
    rw [List.take_append_of_le_length (by rwa [length_slice]), take_slice r off n m hle]
    exact iff_of_true rfl (.inl hle)
  · have hlen : (r.slice off n ++ [b]).length = n + 1 := by
      rw [List.length_append, length_slice, List.length_singleton]
    rw [List.take_of_length_le (Nat.le_of_eq hlen), slice_add, slice_one,
      List.append_cancel_left_eq, List.singleton_inj]
    constructor
    · exact fun heq => .inr ⟨rfl, heq.symm⟩
    · rintro (hle | ⟨-, heq⟩)
      · omega
      · exact heq.symm

theorem slice_memcpy_self (r : Region) (dst : Nat) (src : Bytes) (n : Nat) (h : n ≤ src.length) :
    (r.memcpy dst src n).slice dst n = src.take n := by
  apply List.ext_getElem
  · simp [h]
  · intro i hi _
    rw [length_slice] at hi
    have hin : dst ≤ dst + i ∧ dst + i < dst + n := by omega
    rw [getElem_slice, cell_memcpy, if_pos hin, Nat.add_sub_cancel_left, List.getElem_take,
      List.getD_eq_getElem _ _ (by omega)]

theorem slice_memcpy_eq (r : Region) (dst : Nat) (src : Bytes) (h : src.length = n) :
    (r.memcpy dst src n).slice dst n = src := by
  rw [slice_memcpy_self _ _ _ _ (Nat.le_of_eq h.symm), List.take_of_length_le (Nat.le_of_eq h)]

theorem slice_store_self (r : Region) (i : Nat) (b : UInt8) : (r.store i b).slice i 1 = [b] :=
  r.slice_memcpy_eq i [b] rfl

theorem slice_memcpy_of_disjoint (r : Region) (dst : Nat) (src : Bytes) (n off m : Nat)
    (h : off + m ≤ dst ∨ dst + n ≤ off) : (r.memcpy dst src n).slice off m = r.slice off m := by
  apply List.ext_getElem
  · simp
  · intro i hi _
    rw [length_slice] at hi
    have hout : ¬ (dst ≤ off + i ∧ off + i < dst + n) := by omega
    rw [getElem_slice, getElem_slice, cell_memcpy, if_neg hout]

theorem slice_store_of_disjoint (r : Region) (i : Nat) (b : UInt8) (off m : Nat)
    (h : off + m ≤ i ∨ i < off) : (r.store i b).slice off m = r.slice off m :=
  r.slice_memcpy_of_disjoint i [b] 1 off m h

theorem slice_memset_self (r : Region) (dst : Nat) (b : UInt8) (n off m : Nat)
    (hlo : dst ≤ off) (hhi : off + m ≤ dst + n) :
    (r.memset dst b n).slice off m = List.replicate m b := by
  apply List.ext_getElem
  · simp
  · intro i hi _
    rw [length_slice] at hi
    have hin : dst ≤ off + i ∧ off + i < dst + n := by omega
    rw [getElem_slice, memset, cell_memcpy, if_pos hin, List.getElem_replicate,
      List.getD_eq_getElem _ _ (by simp; omega), List.getElem_replicate]

theorem slice_memset_of_disjoint (r : Region) (dst : Nat) (b : UInt8) (n off m : Nat)
    (h : off + m ≤ dst ∨ dst + n ≤ off) : (r.memset dst b n).slice off m = r.slice off m :=
  slice_memcpy_of_disjoint _ _ _ _ _ _ h

theorem memcpy_append_of_le (r : Region) (dst : Nat) (xs ys : Bytes) (h : n ≤ xs.length) :
    r.memcpy dst (xs ++ ys) n = r.memcpy dst xs n := by
  induction n with
  | zero => rfl
  | succ n ih => rw [memcpy, memcpy, ih (by omega), List.getD_append _ _ _ _ (by omega)]

theorem memcpy_take (r : Region) (dst : Nat) (src : Bytes) (h : m ≤ n) :
    r.memcpy dst (src.take n) m = r.memcpy dst src m := by
  induction m with
  | zero => rfl
  | succ m ih =>
    rw [memcpy, memcpy, ih (Nat.le_of_succ_le h), List.getD_eq_getElem?_getD,
      List.getElem?_take_of_lt h, ← List.getD_eq_getElem?_getD]

theorem memcpy_memcpy (r : Region) (dst : Nat) (xs ys : Bytes) (n : Nat) :
    (r.memcpy dst xs xs.length).memcpy (dst + xs.length) ys n =
      r.memcpy dst (xs ++ ys) (xs.length + n) := by
  induction n with
  | zero => exact (memcpy_append_of_le r dst xs ys (Nat.le_refl _)).symm
  | succ n ih =>
    rw [memcpy, ih, ← Nat.add_assoc, memcpy, List.getD_append_right _ _ _ _ (by omega),
      Nat.add_sub_cancel_left, Nat.add_assoc]

theorem memcpy_cons (r : Region) (dst : Nat) (b : UInt8) (src : Bytes) :
    (r.store dst b).memcpy (dst + 1) src src.length =
      r.memcpy dst (b :: src) (b :: src).length := by
  have h := r.memcpy_memcpy dst [b] src src.length
  rw [List.length_singleton, Nat.add_comm 1] at h
  exact h

theorem slice_memcpy_length (r : Region) (src : Bytes) :
    (r.memcpy 0 src src.length).slice 0 src.length = src := by
  rw [slice_memcpy_self _ _ _ _ (Nat.le_refl _), List.take_length]

theorem slice_eq_iff {r r' : Region} :
    r.slice off n = r'.slice off n ↔ ∀ i < n, r.cell (off + i) = r'.cell (off + i) := by
  simp [slice]

theorem slice_memcpy_congr {r r' : Region} (h : r.slice 0 size = r'.slice 0 size) (dst : Nat)
    (src : Bytes) (n : Nat) :
    (r.memcpy dst src n).slice 0 size = (r'.memcpy dst src n).slice 0 size := by
  rw [slice_eq_iff] at h ⊢
  intro i hi
  rw [cell_memcpy, cell_memcpy, h i hi]

theorem slice_memset_tail (r : Region) (k size : Nat) {b : UInt8} (hk : k ≤ size) :
    (r.memset k b (size - k)).slice 0 size = r.slice 0 k ++ List.replicate (size - k) b := by
  obtain ⟨n, rfl⟩ := Nat.exists_eq_add_of_le hk
  rw [Nat.add_sub_cancel_left, slice_add, Nat.zero_add,
    slice_memset_of_disjoint _ _ _ _ _ _ (.inl (by omega)),
    slice_memset_self _ _ _ _ _ _ (Nat.le_refl _) (Nat.le_refl _)]

theorem slice_memcpy_memset (r : Region) (src : Bytes) (k n size : Nat) {b : UInt8}
    (hn : n ≤ src.length) (hsize : k + n ≤ size) :
    ((r.memset k b (size - k)).memcpy k src n).slice 0 size =
      r.slice 0 k ++ (src.take n ++ List.replicate (size - k - n) b) := by
  rw [show size = k + (n + (size - k - n)) by omega, slice_add, slice_add,
    slice_memcpy_of_disjoint _ _ _ _ _ _ (.inl (by omega)),
    slice_memset_of_disjoint _ _ _ _ _ _ (.inl (by omega)), Nat.zero_add,
    slice_memcpy_self _ _ _ _ hn, slice_memcpy_of_disjoint _ _ _ _ _ _ (.inr (by omega)),
    slice_memset_self _ _ _ _ _ _ (by omega) (by omega)]
  rw [show k + (n + (size - k - n)) - k - n = size - k - n by omega]

-- ---------------------------------------------------------------------------
-- Written indices
-- ---------------------------------------------------------------------------

@[simp] theorem mem_written_store (r : Region) (i j : Nat) (b : UInt8) :
    j ∈ (r.store i b).written ↔ j = i ∨ j ∈ r.written := by
  simp [store]

theorem mem_written_memcpy (r : Region) (dst : Nat) (src : Bytes) (n j : Nat) :
    j ∈ (r.memcpy dst src n).written ↔ (dst ≤ j ∧ j < dst + n) ∨ j ∈ r.written := by
  induction n with
  | zero =>
    have hempty : ¬ (dst ≤ j ∧ j < dst + 0) := by omega
    simp only [memcpy, hempty, false_or]
  | succ n ih =>
    rw [memcpy, mem_written_store, ih, ← or_assoc]
    apply or_congr_left
    omega

/-- Between `r` and `r'` exactly `n` bytes were stored, all below index `size`. -/
def Stores (r r' : Region) (n size : Nat) : Prop :=
  ∃ indices, r'.written = indices ++ r.written ∧ indices.length = n ∧ ∀ i ∈ indices, i < size

theorem Stores.refl (r : Region) (size : Nat) : r.Stores r 0 size := ⟨[], rfl, rfl, by simp⟩

theorem Stores.trans {r₁ r₂ r₃ : Region} (h₁ : r₁.Stores r₂ n size) (h₂ : r₂.Stores r₃ m size) :
    r₁.Stores r₃ (n + m) size := by
  obtain ⟨is₁, heq₁, hlen₁, hlt₁⟩ := h₁
  obtain ⟨is₂, heq₂, hlen₂, hlt₂⟩ := h₂
  refine ⟨is₂ ++ is₁, ?_, ?_, ?_⟩
  · rw [heq₂, heq₁, List.append_assoc]
  · rw [List.length_append, hlen₁, hlen₂, Nat.add_comm]
  · intro i hi
    rcases List.mem_append.mp hi with hi | hi
    · exact hlt₂ i hi
    · exact hlt₁ i hi

theorem Stores.store {r r' : Region} (h : r.Stores r' n size) (hlt : i < size) (b : UInt8) :
    r.Stores (r'.store i b) (n + 1) size := by
  obtain ⟨indices, heq, hlen, hall⟩ := h
  refine ⟨i :: indices, congrArg (i :: ·) heq, congrArg (· + 1) hlen, ?_⟩
  exact List.forall_mem_cons.mpr ⟨hlt, hall⟩

theorem stores_memcpy (r : Region) (dst : Nat) (src : Bytes) (h : dst + n ≤ size) :
    r.Stores (r.memcpy dst src n) n size := by
  induction n with
  | zero => exact .refl r size
  | succ n ih =>
    obtain ⟨indices, heq, hlen, hlt⟩ := ih (by omega)
    refine ⟨(dst + n) :: indices, ?_, congrArg (· + 1) hlen, ?_⟩
    · rw [memcpy, store, heq]
      rfl
    · intro i hi
      rcases List.mem_cons.mp hi with rfl | hi
      · omega
      · exact hlt i hi

theorem written_memcpy (r : Region) (dst : Nat) (src : Bytes) (n : Nat) :
    (r.memcpy dst src n).written = (List.range n).reverse.map (dst + ·) ++ r.written := by
  induction n with
  | zero => rfl
  | succ n ih =>
    rw [memcpy, store, ih, List.range_succ, List.reverse_append]
    rfl

theorem stores_memcpy_iff (r : Region) (dst : Nat) (src : Bytes) (n m size : Nat) :
    r.Stores (r.memcpy dst src n) m size ↔ m = n ∧ (n = 0 ∨ dst + n ≤ size) := by
  constructor
  · rintro ⟨indices, heq, rfl, hlt⟩
    rw [written_memcpy, List.append_left_inj] at heq
    rw [← heq] at hlt ⊢
    refine ⟨by simp, ?_⟩
    rcases Nat.eq_zero_or_pos n with hzero | hpos
    · exact .inl hzero
    · have hmem : dst + (n - 1) ∈ (List.range n).reverse.map (dst + ·) :=
        List.mem_map_of_mem (List.mem_reverse.mpr (List.mem_range.mpr (by omega)))
      have hlast := hlt _ hmem
      exact .inr (by omega)
  · rintro ⟨rfl, rfl | hle⟩
    · exact .refl r size
    · exact r.stores_memcpy dst src hle

/-- Every write so far went below index `size`. -/
def InBounds (r : Region) (size : Nat) : Prop := ∀ i ∈ r.written, i < size

instance (r : Region) (size : Nat) : Decidable (r.InBounds size) :=
  inferInstanceAs (Decidable (∀ i ∈ r.written, i < size))

theorem inBounds_store (r : Region) (i size : Nat) (b : UInt8) :
    (r.store i b).InBounds size ↔ i < size ∧ r.InBounds size := by
  simp [InBounds]

theorem inBounds_memcpy (r : Region) (dst : Nat) (src : Bytes) (n size : Nat) :
    (r.memcpy dst src n).InBounds size ↔ (n = 0 ∨ dst + n ≤ size) ∧ r.InBounds size := by
  simp only [InBounds, mem_written_memcpy]
  constructor
  · intro h
    refine ⟨?_, fun i hi => h i (.inr hi)⟩
    rcases Nat.eq_zero_or_pos n with hn | hn
    · exact .inl hn
    · have := h (dst + n - 1) (.inl (by omega))
      exact .inr (by omega)
  · rintro ⟨hn, h⟩ i (hi | hi)
    · omega
    · exact h i hi

end Region

end Lib

/-!
## An address space of 32 bits

Pointers are 32-bit numbers that wrap around. A byte is found by its distance from
the pointer that a copy or a fill starts from, so that no rule needs the region to
end below the top of the address space.
-/

namespace Lib

abbrev AddressSpace := UInt32 → UInt8

namespace AddressSpace

def memcpy (m : AddressSpace) (dst : UInt32) (src : Bytes) : AddressSpace :=
  fun a => src[(a - dst).toNat]?.getD (m a)

def memset (m : AddressSpace) (dst : UInt32) (b : UInt8) (n : Nat) : AddressSpace :=
  fun a => if (a - dst).toNat < n then b else m a

def read (m : AddressSpace) (src : UInt32) (n : Nat) : Bytes :=
  (List.range n).map fun i => m (src + UInt32.ofNat i)

/-- A word, the lowest byte first. -/
def loadWord (m : AddressSpace) (a : UInt32) : UInt32 :=
  (m a).toUInt32 ||| (m (a + 1)).toUInt32 <<< 8 ||| (m (a + 2)).toUInt32 <<< 16 |||
    (m (a + 3)).toUInt32 <<< 24

def storeWord (m : AddressSpace) (a : UInt32) (w : UInt32) : AddressSpace :=
  m.memcpy a [w.toUInt8, (w >>> 8).toUInt8, (w >>> 16).toUInt8, (w >>> 24).toUInt8]

/-- The string at an address, without its end and of at most `n` bytes. -/
def string (m : AddressSpace) (a : UInt32) : Nat → Bytes
  | 0 => []
  | n + 1 => if m a = 0 then [] else m a :: m.string (a + 1) n

-- ---------------------------------------------------------------------------
-- Offsets
-- ---------------------------------------------------------------------------

theorem toNat_sub_ofNat (start : UInt32) (hi : i < 2 ^ 32) (hj : j < 2 ^ 32) :
    (start + UInt32.ofNat j - (start + UInt32.ofNat i)).toNat =
      if i ≤ j then j - i else 2 ^ 32 + j - i := by
  have hstart := start.toNat_lt
  rw [UInt32.toNat_sub, UInt32.toNat_add, UInt32.toNat_add, UInt32.toNat_ofNat_of_lt' hi,
    UInt32.toNat_ofNat_of_lt' hj]
  split <;> omega

@[simp] theorem toNat_sub_start (start : UInt32) (hj : j < 2 ^ 32) :
    (start + UInt32.ofNat j - start).toNat = j := by
  have hstart := start.toNat_lt
  rw [UInt32.toNat_sub, UInt32.toNat_add, UInt32.toNat_ofNat_of_lt' hj]
  omega

theorem add_ofNat_sub (start a : UInt32) : start + UInt32.ofNat (a - start).toNat = a := by
  rw [UInt32.ofNat_toNat, UInt32.add_comm, UInt32.sub_add_cancel]

theorem memcpy_at (m : AddressSpace) (start : UInt32) (src : Bytes)
    (hoff : off + src.length ≤ 2 ^ 32) (hj : j < 2 ^ 32) :
    m.memcpy (start + UInt32.ofNat off) src (start + UInt32.ofNat j) =
      if off ≤ j ∧ j < off + src.length then src.getD (j - off) 0
      else m (start + UInt32.ofNat j) := by
  by_cases hlt : off < 2 ^ 32
  · rw [memcpy, toNat_sub_ofNat start hlt hj]
    by_cases hle : off ≤ j
    · rw [if_pos hle]
      by_cases hin : j < off + src.length
      · have hlen : j - off < src.length := by omega
        rw [if_pos ⟨hle, hin⟩, List.getElem?_eq_getElem hlen, List.getD_eq_getElem _ _ hlen,
          Option.getD_some]
      · rw [if_neg (fun h => hin h.2), List.getElem?_eq_none (by omega), Option.getD_none]
    · rw [if_neg hle, if_neg (fun h => hle h.1), List.getElem?_eq_none (by omega), Option.getD_none]
  · obtain rfl : src = [] := List.eq_nil_of_length_eq_zero (by omega)
    rw [if_neg (by omega)]
    rfl

theorem memcpy_start (m : AddressSpace) (start : UInt32) (src : Bytes) (hj : j < 2 ^ 32) :
    m.memcpy start src (start + UInt32.ofNat j) = src[j]?.getD (m (start + UInt32.ofNat j)) := by
  rw [memcpy, toNat_sub_start start hj]

-- ---------------------------------------------------------------------------
-- Reading
-- ---------------------------------------------------------------------------

@[simp] theorem length_read (m : AddressSpace) (src : UInt32) (n : Nat) :
    (m.read src n).length = n := by
  simp [read]

theorem read_memcpy (m : AddressSpace) (dst : UInt32) (src : Bytes) (h : src.length ≤ 2 ^ 32) :
    (m.memcpy dst src).read dst src.length = src := by
  apply List.ext_getElem (length_read ..)
  intro i hi hi'
  simp only [read, List.getElem_map, List.getElem_range, memcpy,
    toNat_sub_start dst (Nat.lt_of_lt_of_le hi' h)]
  exact List.getD_eq_getElem _ _ hi'

end AddressSpace

end Lib
