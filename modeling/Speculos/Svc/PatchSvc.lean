import Speculos.Svc.Patching

/-!
# The svc instructions of a region

`patch_svc` looks for the two bytes of an svc instruction and makes an undefined instruction of
those that are aligned and, on newer API levels, are followed by one of two instructions. An
address that it has recorded is one that `is_syscall_instruction` finds.
-/

namespace Speculos.Svc

open Lib

/-- `is_syscall_instruction`, whose table has the latest address first here. -/
def isSyscallInstruction (svcAddr : List UInt32) (addr : UInt32) : Bool :=
  svcAddr.reverse.any fun a => a == addr

-- ---------------------------------------------------------------------------
-- Sites
-- ---------------------------------------------------------------------------

/-- The bytes of an svc instruction. -/
def IsSvc (m : AddressSpace) (a : UInt32) : Prop := m a = 0x01 ∧ m (a + 1) = 0xdf

/-- Behind the instruction stands CMP R1 or BX LR. -/
def Followed (m : AddressSpace) (a : UInt32) : Prop :=
  (m (a + 2) = 0x00 ∧ m (a + 3) = 0x29) ∨ (m (a + 2) = 0x70 ∧ m (a + 3) = 0x47)

/-- An address at which the svc instruction is to be patched. -/
structure IsSite (apiLevel : Nat) (m : AddressSpace) (a : UInt32) : Prop where
  even : a &&& 1 = 0
  isSvc : IsSvc m a
  followed : 23 ≤ apiLevel → Followed m a

instance : DecidablePred (IsSvc m) := fun a => by
  unfold IsSvc
  infer_instance

instance : DecidablePred (Followed m) := fun a => by
  unfold Followed
  infer_instance

instance : DecidablePred (IsSite apiLevel m) := fun a =>
  decidable_of_iff (a &&& 1 = 0 ∧ IsSvc m a ∧ (23 ≤ apiLevel → Followed m a))
    ⟨fun h => ⟨h.1, h.2.1, h.2.2⟩, fun h => ⟨h.even, h.isSvc, h.followed⟩⟩

/-- The sites with both bytes among so many bytes from an address on. -/
def sites (apiLevel : Nat) (m : AddressSpace) : Nat → UInt32 → List UInt32
  | 0, _ => []
  | n + 1, addr =>
    if 0 < n ∧ IsSite apiLevel m addr then addr :: sites apiLevel m n (addr + 1)
    else sites apiLevel m n (addr + 1)

/-- The memory with undefined instructions at the sites. -/
def marked (m : AddressSpace) (as : List UInt32) : AddressSpace := fun b =>
  if b ∈ as then 0xff else if b - 1 ∈ as then 0xde else m b

section

variable {apiLevel : Nat} {m : AddressSpace}

theorem add_ofNat_succ (addr : UInt32) (k : Nat) :
    addr + UInt32.ofNat (k + 1) = addr + 1 + UInt32.ofNat k := by
  rw [UInt32.ofNat_add, UInt32.add_comm (UInt32.ofNat k), ← UInt32.add_assoc]
  rfl

theorem add_ofNat_zero (addr : UInt32) : addr + UInt32.ofNat 0 = addr := UInt32.add_zero addr

theorem toNat_sub_succ {a addr : UInt32} (h : a ≠ addr) :
    (a - addr).toNat = (a - (addr + 1)).toNat + 1 := by
  have hne : a.toNat ≠ addr.toNat := fun heq => h (UInt32.toNat_inj.mp heq)
  have ha := a.toNat_lt
  have haddr := addr.toNat_lt
  have hone : (1 : UInt32).toNat = 1 := rfl
  rw [UInt32.toNat_sub, UInt32.toNat_sub, UInt32.toNat_add, hone]
  omega

theorem toNat_self_sub_succ (addr : UInt32) : (addr - (addr + 1)).toNat = 2 ^ 32 - 1 := by
  have haddr := addr.toNat_lt
  have hone : (1 : UInt32).toNat = 1 := rfl
  rw [UInt32.toNat_sub, UInt32.toNat_add, hone]
  omega

theorem sites_of_not (h : ¬ IsSite apiLevel m addr) (n : Nat) :
    sites apiLevel m (n + 1) addr = sites apiLevel m n (addr + 1) := by
  rw [sites, if_neg fun hsite => h hsite.2]

/-- Where there is no site, nothing is found. -/
theorem sites_skip (hle : k ≤ n) (h : ∀ i < k, ¬ IsSite apiLevel m (addr + UInt32.ofNat i)) :
    sites apiLevel m n addr = sites apiLevel m (n - k) (addr + UInt32.ofNat k) := by
  induction k generalizing n addr with
  | zero => rw [Nat.sub_zero, add_ofNat_zero]
  | succ k ih =>
    obtain ⟨n, rfl⟩ := Nat.exists_eq_succ_of_ne_zero (Nat.ne_of_gt (Nat.zero_lt_of_lt hle))
    have hfirst : ¬ IsSite apiLevel m addr := by
      have h0 := h 0 (Nat.succ_pos k)
      rwa [add_ofNat_zero] at h0
    have hrest : ∀ i < k, ¬ IsSite apiLevel m (addr + 1 + UInt32.ofNat i) := by
      intro i hi
      rw [← add_ofNat_succ]
      exact h (i + 1) (Nat.succ_lt_succ hi)
    rw [Nat.succ_eq_add_one, sites_of_not hfirst, ih (Nat.le_of_succ_le_succ hle) hrest,
      add_ofNat_succ, Nat.succ_sub_succ]

theorem mem_sites (hn : n ≤ 2 ^ 32) (a : UInt32) :
    a ∈ sites apiLevel m n addr ↔ (a - addr).toNat + 1 < n ∧ IsSite apiLevel m a := by
  induction n generalizing addr with
  | zero => simp [sites]
  | succ n ih =>
    have hrest : a ∈ sites apiLevel m n (addr + 1) ↔
        (a - (addr + 1)).toNat + 1 < n ∧ IsSite apiLevel m a := ih (Nat.le_of_succ_le hn)
    by_cases haddr : a = addr
    · subst haddr
      have hout : a ∉ sites apiLevel m n (a + 1) := by
        rw [hrest, toNat_self_sub_succ]
        omega
      have hzero : (a - a).toNat = 0 := by
        rw [UInt32.sub_self]
        rfl
      rw [sites, hzero]
      split
      · rename_i hsite
        exact iff_of_true List.mem_cons_self ⟨by omega, hsite.2⟩
      · rename_i hsite
        exact iff_of_false hout fun h => hsite ⟨by omega, h.2⟩
    · rw [toNat_sub_succ haddr, sites]
      have hmem : a ∈ sites apiLevel m n (addr + 1) ↔
          (a - (addr + 1)).toNat + 1 + 1 < n + 1 ∧ IsSite apiLevel m a := by
        rw [hrest, Nat.add_lt_add_iff_right]
      split
      · rw [List.mem_cons, or_iff_right haddr, hmem]
      · exact hmem

theorem nodup_sites (hn : n ≤ 2 ^ 32) (addr : UInt32) : (sites apiLevel m n addr).Nodup := by
  induction n generalizing addr with
  | zero => exact List.nodup_nil
  | succ n ih =>
    have hout : addr ∉ sites apiLevel m n (addr + 1) := by
      rw [mem_sites (Nat.le_of_succ_le hn), toNat_self_sub_succ]
      omega
    rw [sites]
    split
    · exact List.nodup_cons.mpr ⟨hout, ih (Nat.le_of_succ_le hn) _⟩
    · exact ih (Nat.le_of_succ_le hn) _

theorem sites_congr {m' : AddressSpace}
    (h : ∀ i, i + 1 < n → (IsSite apiLevel m (addr + UInt32.ofNat i) ↔
      IsSite apiLevel m' (addr + UInt32.ofNat i))) :
    sites apiLevel m n addr = sites apiLevel m' n addr := by
  induction n generalizing addr with
  | zero => rfl
  | succ n ih =>
    have hrest : sites apiLevel m n (addr + 1) = sites apiLevel m' n (addr + 1) := by
      refine ih fun i hi => ?_
      rw [← add_ofNat_succ]
      exact h (i + 1) (Nat.succ_lt_succ hi)
    have hfirst : 0 < n → (IsSite apiLevel m addr ↔ IsSite apiLevel m' addr) := by
      intro hn
      have h0 := h 0 (Nat.succ_lt_succ hn)
      rwa [add_ofNat_zero] at h0
    rw [sites, sites, hrest]
    simp only [and_congr_right_iff.mpr hfirst]

-- ---------------------------------------------------------------------------
-- Marks
-- ---------------------------------------------------------------------------

theorem memcpy_pair (m : AddressSpace) (next : UInt32) (x y : UInt8) (b : UInt32) :
    m.memcpy next [x, y] b = if b = next then x else if b = next + 1 then y else m b := by
  by_cases hnext : b = next
  · subst hnext
    rw [if_pos rfl, AddressSpace.memcpy, UInt32.sub_self]
    rfl
  · rw [if_neg hnext, AddressSpace.memcpy, toNat_sub_succ hnext, List.getElem?_cons_succ]
    by_cases hsnd : b = next + 1
    · subst hsnd
      rw [if_pos rfl, UInt32.sub_self]
      rfl
    · rw [if_neg hsnd, toNat_sub_succ hsnd, List.getElem?_cons_succ, List.getElem?_nil]
      rfl

/-- What is compared with the next instructions is none of the bytes of an svc instruction,
before and after. -/
theorem followed_memcpy (hsvc : IsSvc m next) (a : UInt32) :
    Followed (m.memcpy next [0xff, 0xde]) a ↔ Followed m a := by
  have hbyte (b : UInt32) (x : UInt8) (hx : x = 0x00 ∨ x = 0x29 ∨ x = 0x70 ∨ x = 0x47) :
      m.memcpy next [0xff, 0xde] b = x ↔ m b = x := by
    rw [memcpy_pair]
    split
    · rename_i hb
      rw [hb, hsvc.1]
      rcases hx with rfl | rfl | rfl | rfl <;> decide
    · split
      · rename_i hb
        rw [hb, hsvc.2]
        rcases hx with rfl | rfl | rfl | rfl <;> decide
      · rfl
  unfold Followed
  rw [hbyte _ 0x00 (by decide), hbyte _ 0x29 (by decide), hbyte _ 0x70 (by decide),
    hbyte _ 0x47 (by decide)]

theorem isSite_memcpy (hsvc : IsSvc m next) (h : a ≠ next) (hafter : a ≠ next + 1)
    (hbefore : a + 1 ≠ next) :
    IsSite apiLevel (m.memcpy next [0xff, 0xde]) a ↔ IsSite apiLevel m a := by
  have hfst : m.memcpy next [0xff, 0xde] a = m a := by
    rw [memcpy_pair, if_neg h, if_neg hafter]
  have hsnd : m.memcpy next [0xff, 0xde] (a + 1) = m (a + 1) := by
    rw [memcpy_pair, if_neg hbefore, if_neg fun heq => h ((UInt32.add_left_inj 1).mp heq)]
  constructor
  · rintro ⟨heven, hsite, hfollowed⟩
    exact ⟨heven, ⟨hfst ▸ hsite.1, hsnd ▸ hsite.2⟩,
      fun hlevel => (followed_memcpy hsvc a).mp (hfollowed hlevel)⟩
  · rintro ⟨heven, hsite, hfollowed⟩
    exact ⟨heven, ⟨hfst ▸ hsite.1, hsnd ▸ hsite.2⟩,
      fun hlevel => (followed_memcpy hsvc a).mpr (hfollowed hlevel)⟩

theorem odd_pred {a : UInt32} (heven : a &&& 1 = 0) : (a - 1) &&& 1 ≠ 0 := by
  intro hodd
  have hlow (x : UInt32) (h : x &&& 1 = 0) : x.toNat % 2 = 0 := by
    rw [← Nat.and_one_is_mod]
    exact congrArg UInt32.toNat h
  have ha := hlow a heven
  have hpred := hlow (a - 1) hodd
  have hone : (1 : UInt32).toNat = 1 := rfl
  have hlt := a.toNat_lt
  rw [UInt32.toNat_sub, hone] at hpred
  omega

theorem marked_cons (heven : next &&& 1 = 0) (hall : ∀ a ∈ as, a &&& 1 = 0) :
    marked (m.memcpy next [0xff, 0xde]) as = marked m (next :: as) := by
  funext b
  simp only [marked, memcpy_pair, List.mem_cons]
  by_cases hb : b = next
  · subst hb
    have hpred : b - 1 ∉ as := fun hmem => odd_pred heven (hall _ hmem)
    simp [hpred]
  · have hsnd : b = next + 1 ↔ b - 1 = next := by
      constructor
      · rintro rfl
        rw [UInt32.add_sub_cancel]
      · rintro rfl
        rw [UInt32.sub_add_cancel]
    by_cases hbas : b ∈ as <;> by_cases hpred : b - 1 = next <;> simp [hb, hbas, hsnd, hpred]

-- ---------------------------------------------------------------------------
-- The search
-- ---------------------------------------------------------------------------

theorem firstSvc_none (h : firstSvc m n addr = none) :
    ∀ i, i + 1 < n → ¬ IsSvc m (addr + UInt32.ofNat i) := by
  fun_induction firstSvc m n addr with
  | case1 n addr hfirst => cases h
  | case2 n addr hfirst ih =>
    intro i hi
    cases i with
    | zero =>
      rw [add_ofNat_zero]
      exact hfirst
    | succ i =>
      rw [add_ofNat_succ]
      exact ih (Option.map_eq_none_iff.mp h) i (by omega)
  | case3 n addr hshort =>
    intro i hi
    exact (hshort (n - 2) (by omega)).elim

theorem firstSvc_some (h : firstSvc m n addr = some k) :
    k + 1 < n ∧ IsSvc m (addr + UInt32.ofNat k) ∧ ∀ i < k, ¬ IsSvc m (addr + UInt32.ofNat i) := by
  fun_induction firstSvc m n addr generalizing k with
  | case1 n addr hfirst =>
    cases h
    refine ⟨by omega, ?_, fun i hi => absurd hi (Nat.not_lt_zero i)⟩
    rw [add_ofNat_zero]
    exact hfirst
  | case2 n addr hfirst ih =>
    obtain ⟨k, hk, rfl⟩ := Option.map_eq_some_iff.mp h
    obtain ⟨hlt, hsvc, hbefore⟩ := ih hk
    refine ⟨by omega, ?_, fun i hi => ?_⟩
    · rw [add_ofNat_succ]
      exact hsvc
    · cases i with
      | zero =>
        rw [add_ofNat_zero]
        exact hfirst
      | succ i =>
        rw [add_ofNat_succ]
        exact hbefore i (Nat.lt_of_succ_lt_succ hi)
  | case3 n addr hshort => cases h

theorem read_pair (m : AddressSpace) (a : UInt32) : m.read a 2 = [m a, m (a + 1)] := by
  have hzero : m (a + UInt32.ofNat 0) = m a := congrArg m (add_ofNat_zero a)
  show [m (a + UInt32.ofNat 0), m (a + UInt32.ofNat 1)] = _
  rw [hzero]
  rfl

theorem otherInstruction_value (apiLevel : Nat) (m : AddressSpace) (next : UInt32) :
    (otherInstruction apiLevel m next).value = decide (¬ (23 ≤ apiLevel → Followed m next)) := by
  have hthird : next + 2 + 1 = next + 3 := UInt32.add_assoc next 2 1
  unfold otherInstruction
  by_cases hlevel : apiLevel ≥ 23
  · rw [if_pos hlevel]
    simp only [Traced.value_bind, readBytes, read_pair, hthird, Followed]
    split <;> simp_all
  · rw [if_neg hlevel]
    simp [hlevel]

-- ---------------------------------------------------------------------------
-- The loop
-- ---------------------------------------------------------------------------

/-- The table can be made larger by `k` entries, one after another. -/
def Granted (realloc : Nat → Bool) (n k : Nat) : Prop := ∀ i < k, realloc (4 * (n + i + 1)) = true

instance (realloc : Nat → Bool) (n k : Nat) : Decidable (Granted realloc n k) := by
  unfold Granted
  infer_instance

/-- What the loop comes to, with the sites in the order in which they are found. -/
def patched (realloc : Nat → Bool) (s : Patching) (as : List UInt32) : Option Patching :=
  if Granted realloc s.svcAddr.length as.length
    then some ⟨marked s.memory as, as.reverse ++ s.svcAddr⟩
  else none

variable {realloc : Nat → Bool} {s : Patching}

theorem granted_succ : Granted realloc n (k + 1) ↔
    realloc (4 * (n + 1)) = true ∧ Granted realloc (n + 1) k := by
  unfold Granted
  rw [Nat.forall_lt_succ_left]
  simp only [Nat.add_zero, Nat.add_right_comm n, Nat.add_assoc n, Nat.add_comm 1]

theorem sites_of_lt_two (hn : n < 2) (addr : UInt32) : sites apiLevel m n addr = [] := by
  match n with
  | 0 => rfl
  | 1 => simp [sites]

theorem patched_nil : patched realloc s [] = some s := by
  have hmarked : marked s.memory [] = s.memory := by
    funext b
    simp [marked]
  simp [patched, Granted, hmarked]

theorem patched_cons (heven : next &&& 1 = 0) (hall : ∀ a ∈ as, a &&& 1 = 0) :
    patched realloc s (next :: as) =
      if realloc (4 * (s.svcAddr.length + 1)) then
        patched realloc ⟨s.memory.memcpy next [0xff, 0xde], next :: s.svcAddr⟩ as
      else none := by
  simp only [patched, List.length_cons, granted_succ, marked_cons heven hall, List.reverse_cons,
    List.append_assoc, List.singleton_append]
  by_cases hfirst : realloc (4 * (s.svcAddr.length + 1)) = true
  · simp [hfirst]
  · simp [hfirst]

theorem sites_next (hsvc : IsSvc m next) (n : Nat) :
    sites apiLevel m (n + 2) next =
      if IsSite apiLevel m next then next :: sites apiLevel m n (next + 2)
      else sites apiLevel m n (next + 2) := by
  have hsecond : ¬ IsSite apiLevel m (next + 1) := by
    intro hsite
    have hbyte := hsite.isSvc.1.symm.trans hsvc.2
    exact absurd hbyte (by decide)
  have htwo : next + 1 + 1 = next + 2 := UInt32.add_assoc next 1 1
  rw [sites, sites_of_not hsecond, htwo]
  simp only [Nat.zero_lt_succ, true_and]

theorem ne_of_distance {a b : UInt32} (h : (a - b).toNat ≠ 0) : a ≠ b := by
  rintro rfl
  rw [UInt32.sub_self] at h
  exact h rfl

theorem sites_memcpy (hsvc : IsSvc m next) (hn : n + 2 ≤ 2 ^ 32) :
    sites apiLevel (m.memcpy next [0xff, 0xde]) n (next + 2) = sites apiLevel m n (next + 2) := by
  refine sites_congr fun i hi => ?_
  have hat : next + 2 + UInt32.ofNat i = next + UInt32.ofNat (i + 2) := by
    rw [add_ofNat_succ, add_ofNat_succ, UInt32.add_assoc next 1 1]
    rfl
  have hdist (j : Nat) (hj : j < 2 ^ 32) : (next + UInt32.ofNat j - next).toNat = j :=
    AddressSpace.toNat_sub_start next hj
  have hne : next + UInt32.ofNat (i + 2) ≠ next :=
    ne_of_distance (by rw [hdist _ (by omega)]; omega)
  have hafter : next + UInt32.ofNat (i + 2) ≠ next + 1 := by
    rw [add_ofNat_succ]
    exact ne_of_distance (by rw [AddressSpace.toNat_sub_start _ (by omega)]; omega)
  have hbefore : next + UInt32.ofNat (i + 2) + 1 ≠ next := by
    have hsucc : next + UInt32.ofNat (i + 2) + 1 = next + UInt32.ofNat (i + 3) := by
      rw [UInt32.add_assoc, UInt32.ofNat_add (i + 2) 1]
      rfl
    rw [hsucc]
    exact ne_of_distance (by rw [hdist _ (by omega)]; omega)
  rw [hat]
  exact isSite_memcpy hsvc hne hafter hbefore

theorem even_of_mem_sites (hn : n ≤ 2 ^ 32) (h : a ∈ sites apiLevel m n addr) : a &&& 1 = 0 :=
  ((mem_sites hn a).mp h).2.even

theorem patchLoop_value (apiLevel : Nat) (realloc : Nat → Bool) (addr : UInt32)
    (hleft : left ≤ 2 ^ 32) (s : Patching) :
    (patchLoop apiLevel realloc addr left s).value =
      patched realloc s (sites apiLevel s.memory left addr) := by
  induction left using Nat.strongRecOn generalizing addr s with
  | _ left ih =>
  rw [patchLoop]
  split
  · rename_i hshort
    rw [sites_of_lt_two hshort, patched_nil]
    rfl
  · have hsearch : (memmemSvc s.memory addr left).value = firstSvc s.memory left addr := rfl
    rw [Traced.value_bind, hsearch]
    cases hfound : firstSvc s.memory left addr with
    | none =>
      have hnone : sites apiLevel s.memory left addr = [] := by
        refine List.eq_nil_iff_forall_not_mem.mpr fun a ha => ?_
        obtain ⟨hlt, hsite⟩ := (mem_sites hleft a).mp ha
        have hsvc := firstSvc_none hfound _ hlt
        rw [AddressSpace.add_ofNat_sub] at hsvc
        exact hsvc hsite.isSvc
      rw [hnone, patched_nil]
      rfl
    | some k =>
      obtain ⟨hlt, hsvc, hbefore⟩ := firstSvc_some hfound
      obtain ⟨n, rfl⟩ : ∃ n, left = n + 2 + k := ⟨left - (k + 2), by omega⟩
      have hskip : sites apiLevel s.memory (n + 2 + k) addr =
          sites apiLevel s.memory (n + 2) (addr + UInt32.ofNat k) := by
        rw [sites_skip (Nat.le_add_left k (n + 2)) fun i hi hsite => hbefore i hi hsite.isSvc,
          Nat.add_sub_cancel]
      have hone : n + 2 + k - (k + 1) = n + 1 := by omega
      have htwo : n + 2 + k - (k + 2) = n := by omega
      rw [hskip]
      dsimp only
      rw [hone, htwo]
      generalize addr + UInt32.ofNat k = next at hsvc ⊢
      split
      · rename_i hodd
        have hnot : ¬ IsSite apiLevel s.memory next := fun hsite => hodd hsite.even
        rw [ih (n + 1) (by omega) _ (by omega), sites_of_not hnot]
      · rename_i heven
        rw [ne_eq, Decidable.not_not] at heven
        rw [Traced.value_bind, otherInstruction_value, sites_next hsvc]
        split
        · rename_i hother
          have hnot : ¬ IsSite apiLevel s.memory next := fun hsite =>
            of_decide_eq_true hother hsite.followed
          rw [ih n (by omega) _ (by omega), if_neg hnot]
        · rename_i hother
          have hsite : IsSite apiLevel s.memory next :=
            ⟨heven, hsvc, by simpa using hother⟩
          have hall : ∀ a ∈ sites apiLevel s.memory n (next + 2), a &&& 1 = 0 := fun a ha =>
            even_of_mem_sites (by omega) ha
          rw [if_pos hsite, patched_cons heven hall, ← sites_memcpy hsvc (by omega)]
          split
          · exact ih n (by omega) _ (by omega) _
          · rfl

-- ---------------------------------------------------------------------------
-- Reads
-- ---------------------------------------------------------------------------

/-- The address is less than `n` bytes behind `p`. -/
def Within (p : UInt32) (n : Nat) (a : UInt32) : Prop := (a - p).toNat < n

theorem within_of_lt (p : UInt32) (h : off < n) : Within p n (p + UInt32.ofNat off) := by
  have hsub : p + UInt32.ofNat off - p = UInt32.ofNat off := by
    rw [UInt32.add_comm, UInt32.add_sub_cancel]
  rw [Within, hsub, UInt32.toNat_ofNat']
  exact Nat.lt_of_le_of_lt (Nat.mod_le _ _) h

theorem readBytes_within (m : AddressSpace) (p : UInt32) (h : off + k ≤ n) :
    (readBytes m (p + UInt32.ofNat off) k).All (Within p n) := by
  intro a ha
  obtain ⟨i, hi, rfl⟩ := List.mem_map.mp ha
  rw [UInt32.add_assoc, ← UInt32.ofNat_add]
  exact within_of_lt p (by rw [List.mem_range] at hi; omega)

theorem otherInstruction_within (m : AddressSpace) (p : UInt32) (h : off + 4 ≤ n) :
    (otherInstruction apiLevel m (p + UInt32.ofNat off)).All (Within p n) := by
  have hbytes : (readBytes m (p + UInt32.ofNat off + 2) 2).All (Within p n) := by
    have hread : (readBytes m (p + UInt32.ofNat (off + 2)) 2).All (Within p n) :=
      readBytes_within m p h
    rwa [UInt32.ofNat_add, ← UInt32.add_assoc] at hread
  unfold otherInstruction
  split
  · refine (Traced.all_bind _ _).mpr ⟨hbytes, ?_⟩
    split
    · exact (Traced.all_bind _ _).mpr ⟨hbytes, (Traced.all_pure _).mpr trivial⟩
    · exact (Traced.all_pure _).mpr trivial
  · exact (Traced.all_pure _).mpr trivial

/-- Only the look-ahead of an svc instruction at the very end reads behind the region. -/
theorem patchLoop_within (p : UInt32) (hend : off + left = size) (s : Patching) :
    (patchLoop apiLevel realloc (p + UInt32.ofNat off) left s).All (Within p (size + 2)) := by
  induction left using Nat.strongRecOn generalizing off s with
  | _ left ih =>
  rw [patchLoop]
  split
  · exact (Traced.all_pure _).mpr trivial
  · have hsearch : (memmemSvc s.memory (p + UInt32.ofNat off) left).All (Within p (size + 2)) :=
      (Traced.all_bind _ _).mpr ⟨readBytes_within s.memory p (by omega),
        (Traced.all_pure _).mpr trivial⟩
    refine (Traced.all_bind _ _).mpr ⟨hsearch, ?_⟩
    have hvalue : (memmemSvc s.memory (p + UInt32.ofNat off) left).value =
        firstSvc s.memory left (p + UInt32.ofNat off) := rfl
    rw [hvalue]
    cases hfound : firstSvc s.memory left (p + UInt32.ofNat off) with
    | none => exact (Traced.all_pure _).mpr trivial
    | some k =>
      have hlt := (firstSvc_some hfound).1
      have hnext (j : Nat) : p + UInt32.ofNat off + UInt32.ofNat k + UInt32.ofNat j =
          p + UInt32.ofNat (off + k + j) := by
        rw [UInt32.ofNat_add, UInt32.ofNat_add, ← UInt32.add_assoc, ← UInt32.add_assoc]
      have hone (s : Patching) : (patchLoop apiLevel realloc
          (p + UInt32.ofNat (off + k + 1)) (left - (k + 1)) s).All (Within p (size + 2)) :=
        ih (left - (k + 1)) (by omega) (by omega) s
      have htwo (s : Patching) : (patchLoop apiLevel realloc
          (p + UInt32.ofNat (off + k + 2)) (left - (k + 2)) s).All (Within p (size + 2)) :=
        ih (left - (k + 2)) (by omega) (by omega) s
      have hother : (otherInstruction apiLevel s.memory (p + UInt32.ofNat (off + k))).All
          (Within p (size + 2)) := otherInstruction_within s.memory p (by omega)
      rw [← hnext] at hone htwo
      dsimp only
      split
      · exact hone s
      · refine (Traced.all_bind _ _).mpr ⟨?_, ?_⟩
        · rw [UInt32.ofNat_add, ← UInt32.add_assoc] at hother
          exact hother
        · split
          · exact htwo s
          · split
            · exact htwo _
            · exact (Traced.all_pure _).mpr trivial

end

-- ---------------------------------------------------------------------------
-- Calls
-- ---------------------------------------------------------------------------

/-- The sites of a region, in order. -/
def regionSites (apiLevel : Nat) (m : AddressSpace) (p size : UInt32) : List UInt32 :=
  sites apiLevel m size.toNat p

theorem mem_regionSites (apiLevel : Nat) (m : AddressSpace) (p size a : UInt32) :
    a ∈ regionSites apiLevel m p size ↔ (a - p).toNat + 1 < size.toNat ∧ IsSite apiLevel m a :=
  mem_sites (Nat.le_of_lt size.toNat_lt) a

theorem isSyscallInstruction_iff (svcAddr : List UInt32) (addr : UInt32) :
    isSyscallInstruction svcAddr addr = true ↔ addr ∈ svcAddr := by
  simp [isSyscallInstruction]

theorem patchSvc_value (apiLevel : Nat) (realloc : Nat → Bool) (p size : UInt32) (s : Patching) :
    (patchSvc apiLevel realloc p size s).value =
      (patched realloc s (regionSites apiLevel s.memory p size)).map fun s =>
        (if s.svcAddr = [] then -1 else 0, s) := by
  rw [patchSvc, Traced.value_bind, patchLoop_value apiLevel realloc p (Nat.le_of_lt size.toNat_lt) s]
  rfl

theorem patchSvc_within (apiLevel : Nat) (realloc : Nat → Bool) (p size : UInt32) (s : Patching) :
    (patchSvc apiLevel realloc p size s).All (Within p (size.toNat + 2)) := by
  have hloop : (patchLoop apiLevel realloc (p + UInt32.ofNat 0) size.toNat s).All
      (Within p (size.toNat + 2)) := patchLoop_within p (Nat.zero_add size.toNat) s
  rw [add_ofNat_zero] at hloop
  exact (Traced.all_bind _ _).mpr ⟨hloop, (Traced.all_pure _).mpr trivial⟩

/-- A call reads at most two bytes behind the region, and comes to an end: the sites of the region
are patched and recorded, and nothing else changes, unless the table cannot be made larger. -/
theorem patchSvc_exact (apiLevel : Nat) (realloc : Nat → Bool) (p size : UInt32) (s : Patching) :
    (patchSvc apiLevel realloc p size s).All (Within p (size.toNat + 2)) ∧
      (patchSvc apiLevel realloc p size s).value =
        (if Granted realloc s.svcAddr.length (regionSites apiLevel s.memory p size).length then
          some (if (regionSites apiLevel s.memory p size).reverse ++ s.svcAddr = [] then -1 else 0,
            ⟨marked s.memory (regionSites apiLevel s.memory p size),
              (regionSites apiLevel s.memory p size).reverse ++ s.svcAddr⟩)
        else none) ∧
      (regionSites apiLevel s.memory p size).Nodup ∧
      (∀ a, a ∈ regionSites apiLevel s.memory p size ↔
        (a - p).toNat + 1 < size.toNat ∧ IsSite apiLevel s.memory a) ∧
      ∀ a, isSyscallInstruction ((regionSites apiLevel s.memory p size).reverse ++ s.svcAddr) a =
        true ↔
        a ∈ regionSites apiLevel s.memory p size ∨ a ∈ s.svcAddr := by
  refine ⟨patchSvc_within apiLevel realloc p size s, ?_, nodup_sites (Nat.le_of_lt size.toNat_lt) p,
    mem_regionSites apiLevel s.memory p size, ?_⟩
  · rw [patchSvc_value, patched]
    split <;> rfl
  · intro a
    rw [isSyscallInstruction_iff, List.mem_append, List.mem_reverse]

/-- A region that is patched, with the memory at that time. -/
structure PatchCall where
  memory : AddressSpace
  p : UInt32
  size : UInt32

def patchCalls (apiLevel : Nat) (realloc : Nat → Bool) : List PatchCall → List UInt32 →
    Option (List UInt32)
  | [], svcAddr => some svcAddr
  | call :: calls, svcAddr => do
    let (_, s) ← (patchSvc apiLevel realloc call.p call.size ⟨call.memory, svcAddr⟩).value
    patchCalls apiLevel realloc calls s.svcAddr

theorem patchCalls_isSyscallInstruction
    (h : patchCalls apiLevel realloc calls svcAddr = some svcAddr') (a : UInt32) :
    isSyscallInstruction svcAddr' a = true ↔
      (∃ call ∈ calls, a ∈ regionSites apiLevel call.memory call.p call.size) ∨ a ∈ svcAddr := by
  induction calls generalizing svcAddr with
  | nil =>
    cases h
    simp [isSyscallInstruction_iff]
  | cons call calls ih =>
    rw [patchCalls, patchSvc_value, patched] at h
    split at h
    · have hrest := ih h
      rw [hrest]
      simp only [List.mem_append, List.mem_reverse, List.mem_cons, exists_eq_or_imp]
      exact ⟨fun h => h.elim (fun h => .inl (.inr h)) fun h => h.elim (fun h => .inl (.inl h)) .inr,
        fun h => h.elim (fun h => h.elim (fun h => .inr (.inl h)) .inl) fun h => .inr (.inr h)⟩
    · cases h

end Speculos.Svc
