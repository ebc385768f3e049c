import Mathlib.Data.List.Prime
import Mathlib.NumberTheory.LucasPrimality

/-!
# Primes by powers

A number is prime where a residue has the order `p - 1`: this takes the prime factors of
`p - 1` and one power for each of them. The powers are by squaring, so that the kernel
computes them.
-/

namespace Lib

/-- `a ^ e` from the lowest `len` bits of `e`. -/
def powBits {M : Type} [Monoid M] (a : M) (e : Nat) : Nat → M
  | 0 => 1
  | len + 1 =>
    if e % 2 = 1 then powBits (a * a) (e / 2) len * a else powBits (a * a) (e / 2) len

theorem powBits_eq {M : Type} [Monoid M] (a : M) (h : e < 2 ^ len) : powBits a e len = a ^ e := by
  induction len generalizing a e with
  | zero =>
    rw [Nat.lt_one_iff.mp h, powBits, pow_zero]
  | succ len ih =>
    have hhalf : e / 2 < 2 ^ len := by
      rw [Nat.div_lt_iff_lt_mul Nat.two_pos, ← pow_succ]
      exact h
    have hsplit := Nat.div_add_mod e 2
    rw [powBits, ih (a * a) hhalf, ← sq, ← pow_mul]
    split
    · rename_i hodd
      rw [hodd] at hsplit
      rw [← pow_succ, hsplit]
    · rename_i heven
      rw [Nat.mod_two_ne_one.mp heven, Nat.add_zero] at hsplit
      rw [hsplit]

/-- The test of Lucas, where `factors` has all primes that divide `p - 1`. -/
theorem prime_of_powers {p : Nat} (a : ZMod p) (factors : List Nat) (len k : Nat)
    (hprimes : ∀ q ∈ factors, q.Prime) (hfactors : p - 1 ∣ factors.prod ^ k)
    (hlen : p - 1 < 2 ^ len) (hone : powBits a (p - 1) len = 1)
    (hne : ∀ q ∈ factors, powBits a ((p - 1) / q) len ≠ 1) :
    p.Prime := by
  rw [powBits_eq a hlen] at hone
  refine lucas_primality p a hone fun q hq hdvd => ?_
  have hprod : q ∣ factors.prod := hq.dvd_of_dvd_pow (hdvd.trans hfactors)
  obtain ⟨r, hr, hqr⟩ := (Prime.dvd_prod_iff hq.prime).mp hprod
  rw [(Nat.prime_dvd_prime_iff_eq hq (hprimes r hr)).mp hqr]
  have hpow := hne r hr
  rwa [powBits_eq a (Nat.lt_of_le_of_lt (Nat.div_le_self _ _) hlen)] at hpow

/-- A residue `a` of order `p - 1`, and the primes that divide `p - 1`. -/
structure Powers where
  p : Nat
  a : Nat
  factors : List Nat

/-- Each list passes the test of Lucas with factors among the numbers `known` before it. -/
def PassLucas (known : List Nat) : List Powers → Prop
  | [] => True
  | c :: cs =>
    (∀ q ∈ c.factors, q ∈ known) ∧ c.p - 1 ∣ c.factors.prod ^ c.p.log2 ∧
      powBits (c.a : ZMod c.p) (c.p - 1) (c.p.log2 + 1) = 1 ∧
      (∀ q ∈ c.factors, powBits (c.a : ZMod c.p) ((c.p - 1) / q) (c.p.log2 + 1) ≠ 1) ∧
      PassLucas (c.p :: known) cs

instance PassLucas.decidable (known : List Nat) :
    (cs : List Powers) → Decidable (PassLucas known cs)
  | [] => instDecidableTrue
  | c :: cs =>
    have := PassLucas.decidable (c.p :: known) cs
    inferInstanceAs (Decidable (_ ∧ _ ∧ _ ∧ _ ∧ _))

theorem PassLucas.prime {known : List Nat} {cs : List Powers} (hknown : ∀ q ∈ known, q.Prime)
    (h : PassLucas known cs) : ∀ c ∈ cs, c.p.Prime := by
  induction cs generalizing known with
  | nil => simp
  | cons c cs ih =>
    obtain ⟨hfactors, hdvd, hone, hne, hrest⟩ := h
    have hlen : c.p - 1 < 2 ^ (c.p.log2 + 1) :=
      Nat.lt_of_le_of_lt (Nat.sub_le _ _) Nat.lt_log2_self
    have hprime : c.p.Prime :=
      prime_of_powers c.a c.factors _ _ (fun q hq => hknown q (hfactors q hq)) hdvd hlen hone hne
    rw [List.forall_mem_cons]
    exact ⟨hprime, ih (List.forall_mem_cons.mpr ⟨hprime, hknown⟩) hrest⟩

end Lib
