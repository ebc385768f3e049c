import Speculos.Bn.CxBn
import Speculos.Bn.Integers
import Speculos.Bn.Leaks

/-!
# Modular arithmetic on integers

What the functions of `cx_mpi.c` for modular arithmetic leave in the slots, where OpenSSL
computes with the integers, and what a copy and a comparison with a small number find.
-/

namespace Speculos.Bn

open Lib

/-- The modular operations of OpenSSL compute with the integers: the result is not negative. -/
structure Openssl.ExactModular (ssl : Openssl) : Prop where
  modAdd : ∀ (a b : Int) (n : Nat), n ≠ 0 → ssl.modAdd a b n = .done ((a + b) % n)
  modSub : ∀ (a b : Int) (n : Nat), n ≠ 0 → ssl.modSub a b n = .done ((a - b) % n)
  modMul : ∀ (a b : Int) (n : Nat), n ≠ 0 → ssl.modMul a b n = .done (a * b % n)
  modExp : ∀ a e n : Nat, n % 2 = 1 → ssl.modExp a e n = .done (a ^ e % n : Nat)
  copy : ∀ x, ssl.copy x = .done x
  subWord : ∀ n w : Nat, w ≤ n → ssl.subWord n w = .done (n - w : Nat)

theorem exactModular_integers : Openssl.integers.ExactModular where
  modAdd _ _ n hn := by simp [Openssl.integers, hn]
  modSub _ _ n hn := by simp [Openssl.integers, hn]
  modMul _ _ n hn := by simp [Openssl.integers, hn]
  modExp a e n hn := by
    have hne : n ≠ 0 := by
      rintro rfl
      simp at hn
    simp [Openssl.integers, hne]
  copy _ := rfl
  subWord n w h := by simp [Openssl.integers, Int.ofNat_sub h]

/-- OpenSSL divides natural numbers. -/
structure Openssl.ExactDivision (ssl : Openssl) : Prop where
  rem : ∀ a n : Nat, n ≠ 0 → ssl.rem a n = .done (a % n : Nat)
  rshift : ∀ (n : Nat) (k : UInt32), ssl.rshift n k = .done (n / 2 ^ k.toNat : Nat)

theorem exactDivision_integers : Openssl.integers.ExactDivision where
  rem a n hn := by
    have hmod : (a : Int).tmod n = (a % n : Nat) := rfl
    simp [Openssl.integers, hn, hmod]
  rshift n k := by simp [Openssl.integers]

variable {ssl : Openssl} {wordSize : UInt32} {m : Mpis}

theorem write_done (m : Mpis) (r : Slot) (x : Int) : m.write r (.done x) = (.ok, m.set r x) := rfl

theorem set_of_ne (m : Mpis) {r i : Slot} (h : i ≠ r) (x : Int) : m.set r x i = m i :=
  Function.update_of_ne h _ _

-- ---------------------------------------------------------------------------
-- Loading, copying and comparing
-- ---------------------------------------------------------------------------

theorem cxMpiInit_toBE (hssl : ssl.Exact) (x : Slot) {len : UInt32} (h : n < 256 ^ len.toNat)
    (m : Mpis) :
    cxMpiInit ssl x (toBE len.toNat n) len m = (.ok, m.set x n) := by
  have htake : (toBE len.toNat n).take len.toNat = toBE len.toNat n :=
    List.take_of_length_le (by rw [length_toBE])
  rw [cxMpiInit, htake, hssl.bin2bn, fromBE_toBE_of_lt h, write_done]

theorem cxMpiSetU32_exact (hssl : ssl.Exact) (x : Slot) (n : UInt32) (m : Mpis) :
    cxMpiSetU32 ssl x n m = m.set x n.toNat := by
  rw [cxMpiSetU32, hssl.bin2bn, fromBE_toBE_of_lt n.toNat_lt]
  rfl

theorem cxMpiSub_exact (hssl : ssl.Exact) (r : Slot) {a b : Slot} {x y : Nat} (hx : m a = x)
    (hy : m b = y) (hle : y ≤ x) :
    cxMpiSub ssl wordSize r a b m = (.ok, m.set r (x - y : Nat)) := by
  have hnonneg : ¬ (x : Int) - y < 0 := by omega
  simp [cxMpiSub, hx, hy, hssl.sub, hssl.isNegative, Written.done, hnonneg, Int.ofNat_sub hle]

theorem padded_of_short (hssl : ssl.Exact) (hword : wordSize ≠ 0) (hsmall : wordSize.toNat ≤ 2048)
    (hn : byteLength n ≤ 1024) : Padded ssl wordSize n := by
  have hpos : 0 < wordSize.toNat := Nat.pos_of_ne_zero fun h => hword (UInt32.toNat_inj.mp h)
  have hlen : (ssl.numBytes n).toNat = byteLength n := by
    rw [hssl.numBytes]
    exact UInt32.toNat_ofNat_of_lt' (Nat.lt_of_le_of_lt hn (by decide))
  have hsize : (sizeToMpiBytes (ssl.numBytes n)).toNat = roundedBytes (byteLength n) := by
    rw [toNat_sizeToMpiBytes (by omega), hlen]
  have hround : byteLength n ≤ roundedBytes (byteLength n) ∧ 16 ≤ roundedBytes (byteLength n) ∧
      roundedBytes (byteLength n) ≤ 1024 := by
    rw [roundedBytes]
    omega
  have hbytes : (cxMpiNbytes ssl wordSize n).toNat =
      (roundedBytes (byteLength n) + (wordSize.toNat - 1)) / wordSize.toNat * wordSize.toNat := by
    rw [cxMpiNbytes, toNat_sizeToMpiWordBytes hword (sizeToMpiBytes_ne_zero _), hsize,
      if_pos (by omega)]
  have hup := Nat.lt_div_mul_add (a := roundedBytes (byteLength n) + (wordSize.toNat - 1)) hpos
  have hdown := Nat.div_mul_le_self (roundedBytes (byteLength n) + (wordSize.toNat - 1)) wordSize.toNat
  rw [← hbytes] at hup hdown
  refine ⟨?_, (byteLength_le_iff _ _).mp (by omega)⟩
  rcases Nat.lt_or_ge wordSize.toNat (roundedBytes (byteLength n)) with hlong | hone
  · omega
  · rw [hbytes, Nat.div_eq_of_lt_le (k := 1) (by omega) (by omega), Nat.one_mul]
    exact hsmall

theorem cxMpiCopy_padded (hssl : ssl.Exact) {dst src : Slot} (hne : dst ≠ src)
    (hsrc : m src = (n : Nat)) (h : Padded ssl wordSize n) :
    cxMpiCopy ssl wordSize dst src m = (.ok, m.set dst n) := by
  rw [cxMpiCopy, if_neg hne, hsrc, if_neg (by simp [h.tooLong]), cxMpiExport]
  simp only [h.tooLong, h.bn2binpad hssl, Bool.false_eq_true, if_false, ge_iff_le, UInt32.le_refl,
    if_true, UInt32.sub_self, UInt32.toNat_zero, List.drop_zero]
  rw [List.take_of_length_le (by rw [length_toBE]), hssl.bin2bn, fromBE_toBE_of_lt h.lt, write_done]

theorem zeros_of_any {bs : Bytes} (h : bs.any (· ≠ 0) = false) :
    bs = List.replicate bs.length 0 := by
  refine List.eq_replicate_of_mem fun b hb => ?_
  simpa using List.any_eq_false.mp h b hb

theorem fromBE_pos_of_any {bs : Bytes} (h : bs.any (· ≠ 0) = true) : 0 < fromBE bs := by
  refine Nat.pos_of_ne_zero fun hzero => ?_
  have hbytes : bs = List.replicate bs.length 0 :=
    fromBE_injective (by rw [List.length_replicate]) (by rw [hzero, fromBE_replicate_zero])
  rw [hbytes, List.any_eq_true] at h
  obtain ⟨b, hb, hne⟩ := h
  simp [List.eq_of_mem_replicate hb] at hne

theorem cxMpiCmpU32_eq_zero_iff (hssl : ssl.Exact) (hn : byteLength n ≤ 2048) (b : UInt32) :
    cxMpiCmpU32 ssl n b = 0 ↔ n = b.toNat := by
  have hfits : ¬ maxMpiByteSize < ssl.numBytes n := by
    rw [hssl.numBytes, UInt32.lt_iff_toNat_lt,
      UInt32.toNat_ofNat_of_lt' (Nat.lt_of_le_of_lt hn (by decide))]
    exact Nat.not_lt.mpr hn
  have hvalue := fromBE_toBE_of_lt (lt_pow_byteLength n)
  rw [cxMpiCmpU32, if_neg hfits, hssl.bn2bin]
  generalize toBE (byteLength n) n = bytes at hvalue ⊢
  have hsplit := fromBE_append (bytes.take (bytes.length - 4)) (bytes.drop (bytes.length - 4))
  have hlast : fromBE (bytes.drop (bytes.length - 4)) < 2 ^ 32 := by
    refine Nat.lt_of_lt_of_le (fromBE_lt _) ?_
    rw [List.length_drop, show 2 ^ 32 = 256 ^ 4 from rfl]
    exact Nat.pow_le_pow_right (by decide) (by omega)
  rw [List.take_append_drop, hvalue] at hsplit
  dsimp only
  cases hany : (bytes.take (bytes.length - 4)).any (· ≠ 0) with
  | true =>
    have hlong : 4 < bytes.length := by
      by_contra hshort
      rw [Nat.sub_eq_zero_of_le (Nat.not_lt.mp hshort)] at hany
      simp at hany
    have hpos := fromBE_pos_of_any hany
    have hb := b.toNat_lt
    have hfour : (bytes.drop (bytes.length - 4)).length = 4 := by
      rw [List.length_drop]
      omega
    rw [hfour] at hsplit
    rw [if_pos rfl]
    refine iff_of_false (by decide) ?_
    omega
  | false =>
    rw [zeros_of_any hany, fromBE_replicate_zero, Nat.zero_mul, Nat.zero_add] at hsplit
    have hlastBytes : (lastBytes bytes).toNat = n := by
      rw [lastBytes, UInt32.toNat_ofNat_of_lt' hlast, hsplit]
    rw [if_neg Bool.false_ne_true, ← hlastBytes, UInt32.toNat_inj]
    split
    · rename_i hlt
      exact iff_of_false (by decide) (UInt32.ne_of_lt hlt)
    · split
      · rename_i heq
        exact iff_of_true rfl heq
      · rename_i hne
        exact iff_of_false (by decide) hne

-- ---------------------------------------------------------------------------
-- Inverting
-- ---------------------------------------------------------------------------

theorem powNMinus2_exact (hssl : ssl.ExactModular) {r a n p : Slot} (hap : a ≠ p) (hnp : n ≠ p)
    (hvalue : m a = (z : Nat)) (hmod : m n = (q : Nat)) (hodd : q % 2 = 1) (hq : 2 ≤ q) :
    powNMinus2 ssl r a n p m = (.ok, ((m.set p (q - 2 : Nat)).set r (z ^ (q - 2) % q : Nat))) := by
  simp [powNMinus2, hmod, hssl.copy, hssl.subWord q 2 hq, Written.done, set_of_ne, hap, hnp, hvalue,
    hssl.modExp z (q - 2) q hodd, Mpis.write]

theorem values_withValues (s : State) (m : Mpis) (i : Slot) (hi : (s.mpiArray i).live = true) :
    (s.withValues m).values i = m i := by
  obtain ⟨x, hx⟩ := Option.isSome_iff_exists.mp hi
  simp [State.values, State.withValues, hx]

theorem values_release (s : State) (h : j ≠ i) : (s.release i).values j = s.values j := by
  simp [State.values, h]

/-- The power with the exponent `n - 2`, which a number of its own holds for the time of the
call. -/
theorem cxMpiModInvertNprime_exact (hssl : ssl.ExactModular) (hctx : s.localBnCtx = true)
    {x : Allocated} (halloc : cxMpiAlloc ssl (cxMpiNbytes ssl s.mpiWordSize (s.values n)) s =
    some (x, u)) (hx : x.x ≠ none) (ha : (s.mpiArray a).live = true) (hn :
    (s.mpiArray n).live = true) (hvalue : s.values a = (z : Nat)) (hmod :
    s.values n = (q : Nat)) (hodd : q % 2 = 1) (hq : 2 ≤ q) :
    ∃ s', cxMpiModInvertNprime ssl r a n s = some (.ok, s') ∧
      ∀ i, (s.mpiArray i).live = true → s'.values i = s.values.set r (z ^ (q - 2) % q : Nat) i := by
  rw [cxMpiModInvertNprime, halloc]
  obtain ⟨rfl, -⟩ | ⟨i, hi, -, -, -, rfl, rfl⟩ := cxMpiAlloc_cases halloc
  · exact absurd rfl hx
  have hfree := SlotTable.not_live_of_firstFree hi
  have hother (j : Slot) (hj : (s.mpiArray j).live = true) : j ≠ i := by
    rintro rfl
    exact Bool.false_ne_true (hfree.symm.trans hj)
  have hkept (j : Slot) (hj : (s.mpiArray j).live = true) :
      (s.fill i (sizeToMpiWordBytes s.mpiWordSize
        (cxMpiNbytes ssl s.mpiWordSize (s.values n)))).values j = s.values j := by
    simp [State.values, hother j hj]
  have hpow := powNMinus2_exact (r := r) hssl (hother a ha) (hother n hn)
    ((hkept a ha).trans hvalue)
    ((hkept n hn).trans hmod) hodd hq
  refine ⟨_, by simp only [Option.bind_eq_bind, Option.bind_some, Allocated.of, hpow]; rfl,
    fun j hj => ?_⟩
  have hlive : ((s.fill i (sizeToMpiWordBytes s.mpiWordSize
      (cxMpiNbytes ssl s.mpiWordSize (s.values n)))).mpiArray j).live = true := by
    simpa [hother j hj] using hj
  rw [cxMpiDestroy_handle, destroySlot_of_live ((live_withValues _ _ i).trans (live_fill s i _)) hctx,
    values_release _ (hother j hj), values_withValues _ _ _ hlive]
  by_cases hjr : j = r
  · simp [hjr]
  · rw [set_of_ne _ hjr, set_of_ne _ hjr, set_of_ne _ (hother j hj), hkept j hj]

-- ---------------------------------------------------------------------------
-- Long words
-- ---------------------------------------------------------------------------

theorem sizeToMpiWordBytes_cases (hword : wordSize ≠ 0) (size : UInt32) :
    sizeToMpiWordBytes wordSize size = 0 ∨
      wordSize.toNat ≤ (sizeToMpiWordBytes wordSize size).toNat := by
  by_cases hsize : size = 0
  · rw [sizeToMpiWordBytes, if_pos hsize]
    exact .inr (Nat.le_refl _)
  · have hbytes := toNat_sizeToMpiWordBytes hword hsize
    split at hbytes
    · rcases Nat.eq_zero_or_pos ((size.toNat + (wordSize.toNat - 1)) / wordSize.toNat) with hzero | hpos
      · rw [hzero, Nat.zero_mul] at hbytes
        exact .inl (UInt32.toNat_inj.mp hbytes)
      · rw [hbytes]
        exact .inr (Nat.le_mul_of_pos_left _ hpos)
    · exact .inl (UInt32.toNat_inj.mp hbytes)

theorem not_live_of_unlocked (hs : Reachable s) (hctx : s.localBnCtx = false) (i : Slot) :
    (s.mpiArray i).live = false := by
  induction hs with
  | initial => rfl
  | lock _ _ _ ih =>
    rw [cxMpiLock] at hctx ⊢
    split_ifs at hctx ⊢
    · exact ih hctx
    · exact ih hctx
  | @unlock s _ ih =>
    cases hs : s.localBnCtx with
    | true => exact not_live_unlocked hs i
    | false =>
      rw [cxMpiUnlock, mpiArray_close, destroyAll_of_unlocked _ hs]
      exact ih hs
  | alloc h halloc ih =>
    obtain ⟨-, rfl⟩ | ⟨j, -, -, hword, -, -, rfl⟩ := cxMpiAlloc_cases halloc
    · exact ih hctx
    · exact absurd (((wordSized_of_reachable h).mpr hword).symm.trans hctx) (by decide)
  | @destroy s _ bnX ih =>
    obtain hstay | ⟨j, -, hlocked, hrelease⟩ := cxMpiDestroy_cases bnX s
    · rw [hstay] at hctx ⊢
      exact ih hctx
    · rw [hrelease] at hctx
      exact absurd (hlocked.symm.trans hctx) (by decide)
  | values _ m ih => exact (live_withValues _ m i).trans (ih hctx)

/-- In words that are longer than the arrays, only numbers without bytes are there. -/
theorem empty_of_long_words (hs : Reachable s) (hlong : 2048 < s.mpiWordSize.toNat) :
    s.mpiTotalMemory = 0 ∧ ∀ i, (s.mpiArray i).live = true → (s.mpiArray i).size = 0 := by
  induction hs with
  | initial => simp [State.initial] at hlong
  | @lock s h ssl wordSize ih =>
    rw [cxMpiLock] at hlong ⊢
    split_ifs at hlong ⊢ with hlocked hnew
    · exact ih hlong
    · refine ⟨rfl, fun i hi => ?_⟩
      have hnone := not_live_of_unlocked h (Bool.eq_false_iff.mpr hlocked) i
      exact absurd (hnone.symm.trans hi) (by decide)
    · exact ih hlong
  | unlock _ => simp [cxMpiUnlock, State.close] at hlong
  | alloc h halloc ih =>
    obtain ⟨-, rfl⟩ | ⟨j, -, -, hword, hfits, -, rfl⟩ := cxMpiAlloc_cases halloc
    · exact ih hlong
    · obtain ⟨htotal, hsizes⟩ := ih hlong
      rw [htotal, UInt32.add_zero, UInt32.le_iff_toNat_le] at hfits
      have hnone := (sizeToMpiWordBytes_cases hword _).resolve_right
        (Nat.not_le.mpr (Nat.lt_of_le_of_lt hfits hlong))
      refine ⟨by simp [State.fill, hnone, htotal], fun i hi => ?_⟩
      by_cases hij : i = j
      · simp [hij, hnone]
      · simp only [mpiArray_fill, Function.update_of_ne hij] at hi ⊢
        exact hsizes i hi
  | @destroy s _ bnX ih =>
    obtain hstay | ⟨j, hj, hlocked, hrelease⟩ := cxMpiDestroy_cases bnX s
    · rw [hstay] at hlong ⊢
      exact ih hlong
    · rw [hrelease] at hlong ⊢
      obtain ⟨htotal, hsizes⟩ := ih hlong
      refine ⟨by simp [State.release, htotal, hsizes j hj], fun i hi => ?_⟩
      by_cases hij : i = j
      · simp [hij] at hi
      · simp only [mpiArray_release, Function.update_of_ne hij] at hi ⊢
        exact hsizes i hi
  | @values s _ m ih =>
    obtain ⟨htotal, hsizes⟩ := ih hlong
    have hsame := sameUnit_withValues s m
    refine ⟨htotal, fun i hi => ?_⟩
    have hi' := (live_withValues _ m i).symm.trans hi
    exact (hsame.size i hi').trans (hsizes i hi')

end Speculos.Bn
