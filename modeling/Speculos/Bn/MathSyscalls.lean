import Speculos.Bip32.CxMath
import Speculos.Bn.Modular
import Speculos.Bn.NextPrime
import Speculos.Lib.Memory

/-!
# Arithmetic on the memory of an application

Syscalls of `cx_math.c` and `cx_utils.c` on numbers in memory, most significant byte first. The
operands are read before the result is written, so that it may lie over them.
-/

namespace Speculos.Bn

open Lib Bip32

-- ---------------------------------------------------------------------------
-- Sums and differences
-- ---------------------------------------------------------------------------

/-- `sys_cx_math_add`, which ends the emulator where the numbers are too long. -/
def sysCxMathAdd (m : AddressSpace) (r a b len : UInt32) : Option (Int × AddressSpace) :=
  if len > 4096 then none
  else
    let (bytes, carry) := cxMathAdd (m.read a len.toNat) (m.read b len.toNat) len.toNat
    some (if carry then 1 else 0, m.memcpy r bytes)

/-- `sys_cx_math_sub`. The sign of a number is not among its bytes. -/
def sysCxMathSub (m : AddressSpace) (r a b len : UInt32) : Int × AddressSpace :=
  let difference : Int := fromBE (m.read a len.toNat) - fromBE (m.read b len.toNat)
  match bnBn2binpad difference.natAbs len.toNat with
  | some bytes => (0, m.memcpy r bytes)
  | none => (0, m)

/-- Sum and difference modulo `256 ^ len`, with carry and borrow, and each the inverse of the
other. -/
structure Modular (m : AddressSpace) (r a b len : UInt32) : Prop where
  add : ∃ m', sysCxMathAdd m r a b len =
      some (if 256 ^ len.toNat ≤ fromBE (m.read a len.toNat) + fromBE (m.read b len.toNat) then 1
        else 0, m') ∧
    fromBE (m'.read r len.toNat) =
      (fromBE (m.read a len.toNat) + fromBE (m.read b len.toNat)) % 256 ^ len.toNat
  borrow : (sysCxMathSub m r a b len).1 =
    if fromBE (m.read a len.toNat) < fromBE (m.read b len.toNat) then 1 else 0
  sub : (fromBE ((sysCxMathSub m r a b len).2.read r len.toNat) : Int) =
    ((fromBE (m.read a len.toNat) : Int) - fromBE (m.read b len.toNat)) % (256 ^ len.toNat : Nat)
  /-- Subtracting what was added, wherever the sum and the summand are. -/
  back : ∀ (m' : AddressSpace) (r' a' b' : UInt32),
    fromBE (m'.read a' len.toNat) =
        (fromBE (m.read a len.toNat) + fromBE (m.read b len.toNat)) % 256 ^ len.toNat →
      m'.read b' len.toNat = m.read b len.toNat →
        (sysCxMathSub m' r' a' b' len).2.read r' len.toNat = m.read a len.toNat

theorem read_memcpy_toBE (m : AddressSpace) (r len : UInt32) (n : Nat) :
    (m.memcpy r (toBE len.toNat n)).read r len.toNat = toBE len.toNat n := by
  have hread := AddressSpace.read_memcpy m r (toBE len.toNat n) (by
    rw [length_toBE]
    exact Nat.le_of_lt len.toNat_lt)
  rwa [length_toBE] at hread

theorem sysCxMathAdd_eq (m : AddressSpace) (r a b : UInt32) (hlen : len ≤ 4096) :
    ∃ m', sysCxMathAdd m r a b len =
        some (if 256 ^ len.toNat ≤ fromBE (m.read a len.toNat) + fromBE (m.read b len.toNat) then 1
          else 0, m') ∧
      fromBE (m'.read r len.toNat) =
        (fromBE (m.read a len.toNat) + fromBE (m.read b len.toNat)) % 256 ^ len.toNat := by
  have hle : len.toNat ≤ 4097 := Nat.le_trans (UInt32.le_iff_toNat_le.mp hlen) (by decide)
  have hbytes := cxMathAdd_fst (m.read a len.toNat) (m.read b len.toNat) hle
  have hcarry : (cxMathAdd (m.read a len.toNat) (m.read b len.toNat) len.toNat).2 =
      decide (256 ^ len.toNat ≤ fromBE (m.read a len.toNat) + fromBE (m.read b len.toNat)) := by
    rw [cxMathAdd, bnBn2binpadTruncate, bnBn2binpad]
    split
    · rename_i dst heq
      split at heq
      · rename_i hlt
        exact (decide_eq_false (Nat.not_le.mpr hlt)).symm
      · cases heq
    · rename_i heq
      split at heq
      · cases heq
      · rename_i hlt
        exact (decide_eq_true (Nat.not_lt.mp hlt)).symm
  rw [sysCxMathAdd, if_neg (UInt32.not_lt.mpr hlen)]
  refine ⟨_, by simp only [hcarry, decide_eq_true_eq]; rfl, ?_⟩
  rw [hbytes, read_memcpy_toBE, fromBE_toBE]

/-- The difference is written without its sign, and there never is a borrow. -/
theorem sysCxMathSub_eq (m : AddressSpace) (r a b len : UInt32) :
    (sysCxMathSub m r a b len).1 = 0 ∧
      fromBE ((sysCxMathSub m r a b len).2.read r len.toNat) =
        ((fromBE (m.read a len.toNat) : Int) - fromBE (m.read b len.toNat)).natAbs := by
  have ha := fromBE_lt (m.read a len.toNat)
  have hb := fromBE_lt (m.read b len.toNat)
  rw [AddressSpace.length_read] at ha hb
  have hlt : ((fromBE (m.read a len.toNat) : Int) - fromBE (m.read b len.toNat)).natAbs <
      256 ^ len.toNat := by
    omega
  rw [sysCxMathSub, bnBn2binpad]
  simp only [if_pos hlt, read_memcpy_toBE, fromBE_toBE_of_lt hlt, and_self]

theorem exists_two_reads (as bs : Bytes) (hbs : bs.length ≤ 4096) (has : as.length ≤ 4096) :
    ∃ (m : AddressSpace) (a b : UInt32), m.read a as.length = as ∧ m.read b bs.length = bs := by
  have hapart : (0 : UInt32) + UInt32.ofNat 4096 = 4096 := rfl
  refine ⟨(AddressSpace.memcpy (fun _ => 0) 0 bs).memcpy 4096 as, 4096, 0, ?_, ?_⟩
  · exact AddressSpace.read_memcpy _ 4096 as (Nat.le_trans has (by norm_num))
  · apply List.ext_getElem (AddressSpace.length_read ..)
    intro i hi hi'
    have hlt : i < 2 ^ 32 := by omega
    have hcell := AddressSpace.memcpy_at (AddressSpace.memcpy (fun _ => 0) 0 bs) 0 as
      (show 4096 + as.length ≤ 2 ^ 32 by omega) hlt
    rw [hapart, if_neg (by omega), AddressSpace.memcpy_start _ _ _ hlt,
      List.getElem?_eq_getElem hi', Option.getD_some] at hcell
    simpa [AddressSpace.read] using hcell

/-- The arithmetic is modular where there is no borrow, and where no sum overflows but twice the
half of `256 ^ len`. -/
theorem modular_iff (m : AddressSpace) (r a b : UInt32) (hlen : len ≤ 4096) :
    Modular m r a b len ↔ fromBE (m.read b len.toNat) ≤ fromBE (m.read a len.toNat) ∧
      (fromBE (m.read a len.toNat) + fromBE (m.read b len.toNat) < 256 ^ len.toNat ∨
        2 * fromBE (m.read a len.toNat) = 256 ^ len.toNat) := by
  have ha := fromBE_lt (m.read a len.toNat)
  have hb := fromBE_lt (m.read b len.toNat)
  rw [AddressSpace.length_read] at ha hb
  obtain ⟨hreturned, hstored⟩ := sysCxMathSub_eq m r a b len
  -- a sum that is subtracted from, in memory of its own
  have hback (m' : AddressSpace) (r' a' b' : UInt32)
      (hsum : fromBE (m'.read a' len.toNat) =
        (fromBE (m.read a len.toNat) + fromBE (m.read b len.toNat)) % 256 ^ len.toNat)
      (hsummand : m'.read b' len.toNat = m.read b len.toNat) :
      (sysCxMathSub m' r' a' b' len).2.read r' len.toNat = m.read a len.toNat ↔
        fromBE (m.read a len.toNat) + fromBE (m.read b len.toNat) < 256 ^ len.toNat ∨
          2 * fromBE (m.read a len.toNat) = 256 ^ len.toNat := by
    have hsub := (sysCxMathSub_eq m' r' a' b' len).2
    rw [hsum, hsummand] at hsub
    have hbytes : (sysCxMathSub m' r' a' b' len).2.read r' len.toNat = m.read a len.toNat ↔
        fromBE ((sysCxMathSub m' r' a' b' len).2.read r' len.toNat) = fromBE (m.read a len.toNat) :=
      ⟨congrArg fromBE, fun h => fromBE_injective (by simp) h⟩
    rw [hbytes, hsub]
    rcases Nat.lt_or_ge (fromBE (m.read a len.toNat) + fromBE (m.read b len.toNat))
      (256 ^ len.toNat)
      with hsmall | hlarge
    · rw [Nat.mod_eq_of_lt hsmall]
      omega
    · rw [Nat.mod_eq_sub_mod hlarge, Nat.mod_eq_of_lt (by omega)]
      omega
  constructor
  · rintro ⟨-, hborrow, -, hinverse⟩
    have hle : fromBE (m.read b len.toNat) ≤ fromBE (m.read a len.toNat) := by
      by_contra hlt
      rw [hreturned, if_pos (Nat.not_le.mp hlt)] at hborrow
      cases hborrow
    refine ⟨hle, ?_⟩
    obtain ⟨m', a', b', hsum, hsummand⟩ := exists_two_reads
      (toBE len.toNat ((fromBE (m.read a len.toNat) + fromBE (m.read b len.toNat)) % 256 ^ len.toNat))
      (m.read b len.toNat) (by simpa using UInt32.le_iff_toNat_le.mp hlen)
      (by simpa using UInt32.le_iff_toNat_le.mp hlen)
    rw [length_toBE] at hsum
    rw [AddressSpace.length_read] at hsummand
    have hvalue : fromBE (m'.read a' len.toNat) =
        (fromBE (m.read a len.toNat) + fromBE (m.read b len.toNat)) % 256 ^ len.toNat := by
      rw [hsum, fromBE_toBE, Nat.mod_mod]
    exact (hback m' 0 a' b' hvalue hsummand).mp (hinverse m' 0 a' b' hvalue hsummand)
  · rintro ⟨hle, hfits⟩
    refine ⟨sysCxMathAdd_eq m r a b hlen, ?_, ?_, fun m' r' a' b' hsum hsummand => ?_⟩
    · rw [hreturned, if_neg (Nat.not_lt.mpr hle)]
    · rw [hstored, Int.emod_eq_of_lt (by omega) (by omega)]
      omega
    · exact (hback m' r' a' b' hsum hsummand).mpr hfits

/-- A sum of one byte and what was added to it. -/
theorem modular_small : Modular (fun a => if a = 0 then 2 else 1) 2 0 1 1 :=
  (modular_iff (fun a => if a = 0 then 2 else 1) 2 0 1 (by decide)).mpr (by decide)

/-- From 0, 1 leaves 1 in place of 255, without a borrow. -/
theorem not_modular_borrow :
    (sysCxMathSub (fun a => if a = 0 then 0 else 1) 2 0 1 1).1 = 0 ∧
      (sysCxMathSub (fun a => if a = 0 then 0 else 1) 2 0 1 1).2.read 2 1 = [1] ∧
      ¬ Modular (fun a => if a = 0 then 0 else 1) 2 0 1 1 := by
  refine ⟨by decide, by decide, fun h => ?_⟩
  have hborrow := h.borrow
  revert hborrow
  decide

-- ---------------------------------------------------------------------------
-- The next prime
-- ---------------------------------------------------------------------------

/-- The loop of `sys_cx_math_next_prime`, which a prime ends, and an error of the test with the
emulator. -/
def nextPrimeSearch (ssl : Openssl) (p : Int) : Nat → Option Int
  | 0 => none
  | fuel + 1 =>
    let added := ssl.addWord p 2
    if !added.ok then none
    else
      let ret := ssl.isPrimeEx added.value
      if ret = 0 then nextPrimeSearch ssl added.value fuel
      else if ret = -1 then none
      else some added.value

/-- `sys_cx_math_next_prime`. The number that is found stays in `p`. -/
def sysCxMathNextPrime (ssl : Openssl) (fuel : Nat) (m : AddressSpace) (buf len : UInt32) :
    Option (Int × AddressSpace) :=
  let p : Int := fromBE (m.read buf len.toNat)
  let start := if p % 2 = 0 then ssl.subWord p 1 else .done p
  if !start.ok then none else (nextPrimeSearch ssl start.value fuel).map fun _ => (0, m)

/-- The search ends, and in the buffer there is the least of the larger primes. -/
def LeavesNextPrime (ssl : Openssl) (m : AddressSpace) (buf len : UInt32) : Prop :=
  ∃ (fuel : Nat) (ret : Int) (m' : AddressSpace), sysCxMathNextPrime ssl fuel m buf len =
    some (ret, m') ∧
    IsLeast {p | p.Prime ∧ fromBE (m.read buf len.toNat) < p} (fromBE (m'.read buf len.toNat))

/-- The search finds the least odd prime ahead. -/
theorem nextPrimeSearch_least {ssl : Openssl} (hssl : ssl.Exact) (hprimes : ssl.ExactPrimes)
    {y fuel : Nat}
    (hy : y % 2 = 1) (h : nextPrimeSearch ssl y fuel = some found) :
    ∃ q : Nat, found = q ∧ IsLeast {p | p.Prime ∧ p % 2 = 1 ∧ y < p} q := by
  induction fuel generalizing y with
  | zero => cases h
  | succ fuel ih =>
    rw [nextPrimeSearch, show ssl.addWord (y : Int) 2 =
      .done (y + 2 : Nat) from hssl.addWord y 2] at h
    simp only [Written.done, Bool.not_true, Bool.false_eq_true, if_false, hprimes (y + 2)] at h
    by_cases hprime : (y + 2).Prime
    · rw [if_pos hprime] at h
      cases h
      refine ⟨y + 2, rfl, ⟨hprime, by omega, by omega⟩, fun p hp => ?_⟩
      have hodd := hp.2.1
      have hlt := hp.2.2
      omega
    · rw [if_neg hprime, if_pos rfl] at h
      obtain ⟨q, rfl, hq, hleast⟩ := ih (by omega) h
      refine ⟨q, rfl, ⟨hq.1, hq.2.1, Nat.lt_of_succ_lt (Nat.lt_of_succ_lt hq.2.2)⟩, fun p hp => ?_⟩
      have hne : p ≠ y + 2 := by
        rintro rfl
        exact hprime hp.1
      have hodd := hp.2.1
      have hlt := hp.2.2
      exact hleast ⟨hp.1, hodd, by omega⟩

theorem sysCxMathNextPrime_memory (h : sysCxMathNextPrime ssl fuel m buf len = some (ret, m')) :
    m' = m := by
  rw [sysCxMathNextPrime] at h
  generalize (if (fromBE (m.read buf len.toNat) : Int) % 2 = 0 then _ else _ : Written) = start at h
  split at h
  · cases h
  · obtain ⟨q, -, hq⟩ := Option.map_eq_some_iff.mp h
    exact (congrArg Prod.snd hq).symm

/-- No buffer gets a larger prime. -/
theorem not_leavesNextPrime (ssl : Openssl) (m : AddressSpace) (buf len : UInt32) :
    ¬ LeavesNextPrime ssl m buf len := by
  rintro ⟨fuel, ret, m', hrun, hleast⟩
  rw [sysCxMathNextPrime_memory hrun] at hleast
  exact Nat.lt_irrefl _ hleast.1.2

/-- After 4 comes 5, and the buffer keeps 4. -/
theorem nextPrime_of_four :
    sysCxMathNextPrime .primes 1 (fun _ => 4) 0 1 = some (0, fun _ => 4) ∧
      IsLeast {p | p.Prime ∧ fromBE (AddressSpace.read (fun _ => 4) 0 1) < p} 5 ∧
      ¬ LeavesNextPrime .primes (fun _ => 4) 0 1 := by
  have hvalue : fromBE (AddressSpace.read (fun _ => 4) 0 (1 : UInt32).toNat) = 4 := rfl
  have hfive : (5 : Nat).Prime := by norm_num
  have hsearch : nextPrimeSearch .primes 3 1 = some 5 := by
    have htest : Openssl.primes.isPrimeEx 5 = 1 := (exactPrimes_primes 5).trans (if_pos hfive)
    simp [nextPrimeSearch, show Openssl.primes.addWord 3 2 = .done 5 from rfl, Written.done, htest]
  refine ⟨?_, ⟨⟨hfive, by decide⟩, fun p hp => Nat.succ_le_of_lt hp.2⟩, ?_⟩
  · rw [sysCxMathNextPrime, hvalue]
    exact congrArg (Option.map fun _ => ((0 : Int), (fun _ => 4 : AddressSpace))) hsearch
  · rintro ⟨fuel, ret, m', hrun, hleast⟩
    rw [sysCxMathNextPrime_memory hrun] at hleast
    exact Nat.lt_irrefl _ hleast.1.2

end Speculos.Bn
