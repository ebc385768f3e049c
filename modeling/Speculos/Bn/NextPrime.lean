import Mathlib.NumberTheory.Bertrand
import Speculos.Bn.Integers

/-!
# The next prime

`cx_mpi_next_prime` goes over the odd numbers behind the odd number that it makes of `x`. It
ends, because there is a prime below twice that number, but it never tests that number itself.
-/

namespace Speculos.Bn

open Lib

variable {ssl : Openssl} {wordSize : UInt32} {v : Slot → Nat} {x : Slot}

/-- `BN_is_prime_ex` is an exact test. -/
def Openssl.ExactPrimes (ssl : Openssl) : Prop :=
  ∀ n : Nat, ssl.isPrimeEx n = if n.Prime then 1 else 0

def Openssl.primes : Openssl :=
  { Openssl.integers with isPrimeEx := fun x => if x.natAbs.Prime then 1 else 0 }

theorem exact_primes : Openssl.primes.Exact where
  numBytes := exact_integers.numBytes
  bin2bn := exact_integers.bin2bn
  bn2bin := exact_integers.bn2bin
  bn2binpad := exact_integers.bn2binpad
  isOdd := exact_integers.isOdd
  isNegative := exact_integers.isNegative
  setNegative := exact_integers.setNegative
  maskBits := exact_integers.maskBits
  lshift := exact_integers.lshift
  add := exact_integers.add
  sub := exact_integers.sub
  addWord := exact_integers.addWord

theorem exactPrimes_primes : Openssl.primes.ExactPrimes := fun _ => rfl

-- ---------------------------------------------------------------------------
-- The loop
-- ---------------------------------------------------------------------------

theorem nextPrimeLoop_succ (hssl : ssl.Exact) (hprimes : ssl.ExactPrimes) (xSize : UInt32)
    (y fuel : Nat) :
    nextPrimeLoop ssl wordSize x xSize (naturals (Function.update v x y)) (fuel + 1) =
      if cxMpiNbytes ssl wordSize (y + 2 : Nat) > xSize then
        some (.overflow, naturals (Function.update v x (y + 2)))
      else if (y + 2).Prime then some (.ok, naturals (Function.update v x (y + 2)))
      else nextPrimeLoop ssl wordSize x xSize (naturals (Function.update v x (y + 2))) fuel := by
  rw [nextPrimeLoop, naturals_apply, Function.update_self]
  have hadd : ssl.addWord (y : Nat) 2 = .done (y + 2 : Nat) := hssl.addWord y 2
  have hset : (naturals (Function.update v x y)).set x (y + 2 : Nat) =
      naturals (Function.update v x (y + 2)) := by
    rw [naturals_set, Function.update_idem]
  rw [hadd, Written.done]
  dsimp only
  rw [hset, naturals_apply, Function.update_self, hprimes]
  generalize y + 2 = next
  by_cases hlong : cxMpiNbytes ssl wordSize next > xSize
  · simp [hlong]
  · by_cases hprime : next.Prime
    · simp [hlong, hprime]
    · simp [hlong, hprime]

/-- What the loop ends with: an odd number `z` such that no odd prime lies between. -/
structure Found (ssl : Openssl) (wordSize xSize : UInt32) (y z : Nat) (error : CxErr) : Prop where
  lt : y < z
  odd : z % 2 = 1
  least : ∀ p, p.Prime → p % 2 = 1 → y < p → z ≤ p
  error : error = .overflow ∧ xSize < cxMpiNbytes ssl wordSize z ∨ error = .ok ∧ z.Prime

theorem nextPrimeLoop_found (hssl : ssl.Exact) (hprimes : ssl.ExactPrimes) {xSize : UInt32}
    {y fuel : Nat}
    {error : CxErr} {m : Mpis} (hy : y % 2 = 1)
    (h : nextPrimeLoop ssl wordSize x xSize (naturals (Function.update v x y)) fuel =
    some (error, m)) :
    ∃ z, m = naturals (Function.update v x z) ∧ Found ssl wordSize xSize y z error := by
  have hnext (p : Nat) (hodd : p % 2 = 1) (hlt : y < p) : y + 2 ≤ p := by omega
  induction fuel generalizing y with
  | zero => cases h
  | succ fuel ih =>
    rw [nextPrimeLoop_succ hssl hprimes] at h
    split at h
    · rename_i hlong
      cases h
      exact ⟨y + 2, rfl, by omega, by omega, fun p _ => hnext p, .inl ⟨rfl, hlong⟩⟩
    · split at h
      · rename_i hprime
        cases h
        exact ⟨y + 2, rfl, by omega, by omega, fun p _ => hnext p, .inr ⟨rfl, hprime⟩⟩
      · rename_i hprime
        obtain ⟨z, rfl, hfound⟩ := ih (by omega) h fun p hodd hlt => by omega
        refine ⟨z, rfl, Nat.lt_trans (by omega) hfound.lt, hfound.odd, fun p hp hodd hlt => ?_,
          hfound.error⟩
        have hne : p ≠ y + 2 := by
          rintro rfl
          exact hprime hp
        exact hfound.least p hp hodd (Nat.lt_of_le_of_ne (hnext p hodd hlt) hne.symm)

/-- A prime ahead ends the loop. -/
theorem nextPrimeLoop_ends (hssl : ssl.Exact) (hprimes : ssl.ExactPrimes) (wordSize xSize : UInt32)
    (v : Slot → Nat) (x : Slot) {p : Nat} (hp : p.Prime) (k : Nat) {y : Nat}
    (hy : y + 2 * (k + 1) = p) :
    ∃ fuel result, nextPrimeLoop ssl wordSize x xSize (naturals (Function.update v x y)) fuel =
      some result := by
  induction k generalizing y with
  | zero =>
    refine ⟨1, ?_⟩
    have hprime : (y + 2).Prime := hy ▸ hp
    rw [nextPrimeLoop_succ hssl hprimes, if_pos hprime]
    split
    · exact ⟨_, rfl⟩
    · exact ⟨_, rfl⟩
  | succ k ih =>
    obtain ⟨fuel, result, hend⟩ := ih (y := y + 2) (by omega)
    refine ⟨fuel + 1, ?_⟩
    rw [nextPrimeLoop_succ hssl hprimes, hend]
    split
    · exact ⟨_, rfl⟩
    · split
      · exact ⟨_, rfl⟩
      · exact ⟨_, rfl⟩

-- ---------------------------------------------------------------------------
-- Sizes
-- ---------------------------------------------------------------------------

section

variable {w : UInt32} {k m n : Nat}

theorem roundedBytes_mono (h : m ≤ n) : roundedBytes m ≤ roundedBytes n := by
  rw [roundedBytes, roundedBytes]
  omega

theorem wordBytes_le (hmod : k % 16 = 0) (hpos : 0 < k) (hwords : 0 < wordBytes k m)
    (hfits : n ≤ wordBytes k m) : wordBytes k n ≤ wordBytes k m := by
  have hround : roundedBytes n ≤ wordBytes k m := by
    have hsixteen : wordBytes k m % 16 = 0 := by
      rw [wordBytes]
      split
      · exact Nat.mod_eq_zero_of_dvd (Nat.dvd_mul_left_of_dvd (Nat.dvd_of_mod_eq_zero hmod) _)
      · rfl
    rw [roundedBytes]
    omega
  have hmultiple : (wordBytes k m + (k - 1)) / k * k = wordBytes k m := by
    rw [wordBytes]
    split
    · rw [Nat.add_comm, Nat.add_mul_div_right _ _ hpos,
        Nat.div_eq_of_lt (Nat.sub_lt hpos Nat.one_pos), Nat.zero_add]
    · rw [Nat.zero_add, Nat.div_eq_of_lt (Nat.sub_lt hpos Nat.one_pos), Nat.zero_mul]
  calc wordBytes k n ≤ (roundedBytes n + (k - 1)) / k * k := by
        rw [wordBytes]
        split
        · exact Nat.le_refl _
        · exact Nat.zero_le _
    _ ≤ (wordBytes k m + (k - 1)) / k * k :=
        Nat.mul_le_mul_right _ (Nat.div_le_div_right (Nat.add_le_add_right hround _))
    _ = wordBytes k m := hmultiple

theorem wordBytes_zero (hpos : 0 < k) (h : m ≤ n) (hzero : wordBytes k m = 0) :
    wordBytes k n = 0 := by
  have hround := roundedBytes_mono h
  have hsixteen : 16 ≤ roundedBytes m := Nat.le_max_left _ _
  rcases wordBytes_cases m hpos with ⟨hle, -⟩ | ⟨hwrap, -⟩
  · omega
  · rw [wordBytes, if_neg (by omega)]

/-- A number with more words than a smaller one does not fit the words of that one. -/
theorem pow_le_of_nbytes_lt (hssl : ssl.Exact) (hn : byteLength n ≤ 2 ^ 28) (hle : m ≤ n)
    (hlt : cxMpiNbytes ssl (sizeToMpiBytes w) m < cxMpiNbytes ssl (sizeToMpiBytes w) n) :
    16 ≤ (cxMpiNbytes ssl (sizeToMpiBytes w) m).toNat ∧
      256 ^ (cxMpiNbytes ssl (sizeToMpiBytes w) m).toNat ≤ n := by
  have hm := byteLength_mono hle
  have hword := sizeToMpiBytes_pos w
  rw [UInt32.lt_iff_toNat_lt, toNat_cxMpiNbytes hssl w (by omega),
    toNat_cxMpiNbytes hssl w (by omega)]
    at hlt
  rw [toNat_cxMpiNbytes hssl w (by omega)]
  rcases wordBytes_cases (byteLength m) hword with ⟨hround, -⟩ | ⟨-, hzero⟩
  · have hsixteen : 16 ≤ wordBytes (sizeToMpiBytes w).toNat (byteLength m) :=
      Nat.le_trans (Nat.le_max_left _ _) hround
    refine ⟨hsixteen, ?_⟩
    by_contra hfits
    rw [Nat.not_le, ← byteLength_le_iff] at hfits
    exact absurd (wordBytes_le (sizeToMpiBytes_mod w) hword (by omega) hfits) (Nat.not_le.mpr hlt)
  · rw [wordBytes_zero hword hm hzero] at hlt
    exact absurd hlt (Nat.not_lt_zero _)

theorem nbytes_succ (hssl : ssl.Exact) (heven : n % 2 = 0) (hn : byteLength n < 2 ^ 28) :
    cxMpiNbytes ssl (sizeToMpiBytes w) (n + 1 : Nat) = cxMpiNbytes ssl (sizeToMpiBytes w) n := by
  have hround : roundedBytes (byteLength (n + 1)) = roundedBytes (byteLength n) := by
    by_cases hzero : n = 0
    · subst hzero
      rfl
    · have hle : byteLength (n + 1) ≤ byteLength n := by
        have hlt := lt_pow_byteLength n
        obtain ⟨k, hk⟩ : ∃ k, byteLength n = k + 1 := by
          refine Nat.exists_eq_succ_of_ne_zero ?_
          rw [byteLength, if_neg hzero]
          exact Nat.succ_ne_zero _
        refine byteLength_le ?_
        rw [hk, Nat.pow_succ] at hlt ⊢
        omega
      rw [Nat.le_antisymm hle (byteLength_mono (Nat.le_succ n))]
  have hlen := byteLength_add_le n 1
  have hone : byteLength 1 = 1 := rfl
  rw [← UInt32.toNat_inj, toNat_cxMpiNbytes hssl w (by omega), toNat_cxMpiNbytes hssl w (by omega),
    wordBytes, wordBytes, hround]

theorem byteLength_double_le (n : Nat) : byteLength (2 * (n + 2)) ≤ byteLength n + 1 := by
  apply byteLength_le
  have hlt := lt_pow_byteLength n
  rw [Nat.pow_succ]
  omega

end

-- ---------------------------------------------------------------------------
-- The search
-- ---------------------------------------------------------------------------

section

/-- The number that the search starts with: `x` is made odd. -/
def searchStart (n : Nat) : Nat := if n % 2 = 1 then n else n + 1

theorem searchStart_odd (n : Nat) : searchStart n % 2 = 1 := by
  rw [searchStart]
  split
  · assumption
  · omega

theorem searchStart_cases (n : Nat) :
    searchStart n = n ∧ n % 2 = 1 ∨ searchStart n = n + 1 ∧ n % 2 = 0 := by
  rw [searchStart]
  split
  · exact .inl ⟨rfl, ‹_›⟩
  · exact .inr ⟨rfl, by omega⟩

/-- There is an odd prime below twice the number. -/
theorem exists_odd_prime (n : Nat) :
    ∃ p, p.Prime ∧ p % 2 = 1 ∧ searchStart n < p ∧ p ≤ 2 * (n + 2) := by
  obtain ⟨p, hp, hlt, hle⟩ :=
    Nat.exists_prime_lt_and_le_two_mul (searchStart n + 1) (Nat.succ_ne_zero _)
  have hodd := searchStart_odd n
  have hstart : searchStart n ≤ n + 1 := by
    rcases searchStart_cases n with ⟨h, -⟩ | ⟨h, -⟩
    · omega
    · omega
  exact ⟨p, hp, hp.eq_two_or_odd.resolve_left fun h => by omega, by omega, by omega⟩

end

section

variable {w : UInt32}

theorem cxMpiNextPrime_eq (hssl : ssl.Exact) (v : Slot → Nat) (x : Slot) (hx : IsBignum (v x))
    (fuel : Nat) :
    cxMpiNextPrime ssl (sizeToMpiBytes w) fuel x (naturals v) =
      nextPrimeLoop ssl (sizeToMpiBytes w) x (cxMpiNbytes ssl (sizeToMpiBytes w) (v x))
        (naturals (Function.update v x (searchStart (v x)))) fuel := by
  rw [cxMpiNextPrime, naturals_apply, hssl.isOdd]
  rcases searchStart_cases (v x) with ⟨hstart, hodd⟩ | ⟨hstart, heven⟩
  · simp [hstart, hodd]
  · have hadd : ssl.addWord (v x : Nat) 1 = .done (v x + 1 : Nat) := hssl.addWord (v x) 1
    rw [hadd, naturals_write, hstart, decide_eq_false (by omega)]
    simp only [Bool.false_eq_true, if_false, ne_eq, not_true_eq_false, naturals_apply,
      Function.update_self]
    rw [nbytes_succ hssl heven hx]

/-- The least prime behind the number, or none that fits the bytes of the number. -/
def NextPrime (ssl : Openssl) (wordSize : UInt32) (v : Slot → Nat) (x : Slot) : Prop :=
  ∃ fuel error m, cxMpiNextPrime ssl wordSize fuel x (naturals v) = some (error, m) ∧
    (error = .ok ∧ (∃ p, IsLeast {p | p.Prime ∧ v x < p} p ∧ m = naturals (Function.update v x p)) ∨
      error = .overflow ∧
        ∀ p, p.Prime → v x < p → 256 ^ (cxMpiNbytes ssl wordSize (v x)).toNat ≤ p)

/-- The search ends, below twice the number. -/
theorem cxMpiNextPrime_ends (hssl : ssl.Exact) (hprimes : ssl.ExactPrimes) (w : UInt32)
    (v : Slot → Nat) (x : Slot) (hx : IsBignum (v x)) :
    ∃ fuel result, cxMpiNextPrime ssl (sizeToMpiBytes w) fuel x (naturals v) = some result := by
  have hodd := searchStart_odd (v x)
  obtain ⟨p, hp, hpodd, hlt, -⟩ := exists_odd_prime (v x)
  have hturns : searchStart (v x) + 2 * ((p - searchStart (v x)) / 2 - 1 + 1) = p := by omega
  obtain ⟨fuel, result, hend⟩ := nextPrimeLoop_ends hssl hprimes (sizeToMpiBytes w)
    (cxMpiNbytes ssl (sizeToMpiBytes w) (v x)) v x hp _ hturns
  exact ⟨fuel, result, by rw [cxMpiNextPrime_eq hssl v x hx, hend]⟩

theorem cxMpiNextPrime_found (hssl : ssl.Exact) (hprimes : ssl.ExactPrimes) (hx : IsBignum (v x))
    {fuel : Nat} {error : CxErr} {m : Mpis}
    (h : cxMpiNextPrime ssl (sizeToMpiBytes w) fuel x (naturals v) = some (error, m)) :
    ∃ z, m = naturals (Function.update v x z) ∧ v x < z ∧ z % 2 = 1 ∧ searchStart (v x) < z ∧
      (∀ p, p.Prime → p % 2 = 1 → searchStart (v x) < p → z ≤ p) ∧
      (error = .overflow ∧ 16 ≤ (cxMpiNbytes ssl (sizeToMpiBytes w) (v x)).toNat ∧
          256 ^ (cxMpiNbytes ssl (sizeToMpiBytes w) (v x)).toNat ≤ z ∨
        error = .ok ∧ z.Prime) := by
  rw [cxMpiNextPrime_eq hssl v x hx] at h
  obtain ⟨z, hm, hfound⟩ := nextPrimeLoop_found hssl hprimes (searchStart_odd _) h
  have hstart : v x ≤ searchStart (v x) := by
    rcases searchStart_cases (v x) with ⟨h, -⟩ | ⟨h, -⟩
    · omega
    · omega
  refine ⟨z, hm, Nat.lt_of_le_of_lt hstart hfound.lt, hfound.odd, hfound.lt, hfound.least, ?_⟩
  rcases hfound.error with ⟨herror, hlong⟩ | hprime
  · obtain ⟨p, hp, hodd, hlt, hle⟩ := exists_odd_prime (v x)
    have hz : byteLength z ≤ byteLength (v x) + 1 :=
      Nat.le_trans (byteLength_mono (Nat.le_trans (hfound.least p hp hodd hlt) hle))
        (byteLength_double_le _)
    rw [IsBignum] at hx
    exact .inl ⟨herror, pow_le_of_nbytes_lt hssl (by omega)
      (Nat.le_trans hstart (Nat.le_of_lt hfound.lt)) hlong⟩
  · exact .inr hprime

/-- Where the search is right, no prime that fits the bytes of the number is skipped. -/
theorem nextPrime_skips (hssl : ssl.Exact) (hprimes : ssl.ExactPrimes) (hx : IsBignum (v x))
    (h : NextPrime ssl (sizeToMpiBytes w) v x) {p : Nat} (hp : p.Prime) (hgt : v x < p)
    (hle : p ≤ searchStart (v x) + 1)
    (hfits : 16 ≤ (cxMpiNbytes ssl (sizeToMpiBytes w) (v x)).toNat →
      p < 256 ^ (cxMpiNbytes ssl (sizeToMpiBytes w) (v x)).toNat) : False := by
  obtain ⟨fuel, error, m, hend, hresult⟩ := h
  obtain ⟨z, rfl, -, hodd, hlt, -, hfound⟩ := cxMpiNextPrime_found hssl hprimes hx hend
  rcases hresult with ⟨-, q, hleast, hm⟩ | ⟨rfl, hnone⟩
  · have hq := congrFun (naturals_injective hm) x
    rw [Function.update_self, Function.update_self] at hq
    have hstart := searchStart_odd (v x)
    have hqp : q ≤ p := hleast.2 ⟨hp, hgt⟩
    omega
  · rcases hfound with ⟨-, hsixteen, -⟩ | ⟨herror, -⟩
    · exact absurd (hnone p hp hgt) (Nat.not_le.mpr (hfits hsixteen))
    · cases herror

/-- The search finds the least prime exactly where the number that it starts with, and does not
test, is not that prime, and 2 is not. -/
theorem nextPrime_iff (hssl : ssl.Exact) (hprimes : ssl.ExactPrimes) (w : UInt32) (v : Slot → Nat)
    (x : Slot) (hx : IsBignum (v x)) :
    NextPrime ssl (sizeToMpiBytes w) v x ↔ 2 ≤ v x ∧ (v x % 2 = 0 → ¬ (v x + 1).Prime) := by
  constructor
  · intro h
    constructor
    · by_contra hsmall
      have hstart := searchStart_odd (v x)
      refine nextPrime_skips hssl hprimes hx h Nat.prime_two (by omega) (by omega)
        fun hsixteen => ?_
      exact Nat.lt_of_lt_of_le (show 2 < 256 ^ 16 by decide)
        (Nat.pow_le_pow_right (by decide) hsixteen)
    · intro heven hprime
      have hstart : searchStart (v x) = v x + 1 := by
        rw [searchStart, if_neg (by omega)]
      refine nextPrime_skips hssl hprimes hx h hprime (Nat.lt_succ_self _) (by omega)
        fun hsixteen => ?_
      rw [IsBignum] at hx
      rcases nbytes_cases hssl w (Nat.le_of_lt hx) with ⟨hholds, -⟩ | ⟨hzero, -⟩
      · refine Nat.lt_of_le_of_ne hholds fun heq => ?_
        have htwo : (256 ^ (cxMpiNbytes ssl (sizeToMpiBytes w) (v x)).toNat) % 2 = 0 :=
          Nat.mod_eq_zero_of_dvd (dvd_pow (by decide : 2 ∣ 256) (by omega))
        rw [← heq] at htwo
        omega
      · omega
  · rintro ⟨htwo, hnext⟩
    obtain ⟨fuel, ⟨error, m⟩, hend⟩ := cxMpiNextPrime_ends hssl hprimes w v x hx
    obtain ⟨z, rfl, hgt, -, -, hleast, herror⟩ := cxMpiNextPrime_found hssl hprimes hx hend
    have hle (p : Nat) (hp : p.Prime) (hlt : v x < p) : z ≤ p := by
      refine hleast p hp (hp.eq_two_or_odd.resolve_left fun h => by omega) ?_
      rcases searchStart_cases (v x) with ⟨hstart, -⟩ | ⟨hstart, heven⟩
      · rwa [hstart]
      · rw [hstart]
        refine Nat.lt_of_le_of_ne hlt ?_
        rintro rfl
        exact hnext heven hp
    refine ⟨fuel, error, _, hend, ?_⟩
    rcases herror with ⟨rfl, -, hlong⟩ | ⟨rfl, hprime⟩
    · exact .inr ⟨rfl, fun p hp hlt => Nat.le_trans hlong (hle p hp hlt)⟩
    · exact .inl ⟨rfl, z, ⟨⟨hprime, hgt⟩, fun p hp => hle p hp.1 hp.2⟩, rfl⟩

end

theorem nextPrime_eight : NextPrime .primes (sizeToMpiBytes 16) (fun _ => 8) 0 :=
  (nextPrime_iff exact_primes exactPrimes_primes 16 (fun _ => 8) 0 (by decide)).mpr
    ⟨by decide, fun _ => by decide⟩

/-- The prime behind 4 is said to be 7. -/
theorem not_nextPrime_four : ¬ NextPrime .primes (sizeToMpiBytes 16) (fun _ => 4) 0 :=
  fun h => nextPrime_skips exact_primes exactPrimes_primes (by decide) h Nat.prime_five (by decide)
    (by decide) fun _ => by decide

end Speculos.Bn
