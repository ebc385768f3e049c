import Mathlib.NumberTheory.LegendreSymbol.Basic
import Mathlib.Tactic.NormNum.Prime
import Speculos.Ec.Domain
import Speculos.Lib.TwistedEdwards
import Speculos.Lib.Primality
import Speculos.Bn.Modular
import Speculos.Ec.CxTwistedEdwards
import Speculos.Lib.ExtendedEdwards

/-!
# EdBLS12 and Jubjub

The curves of the twisted Edwards formulas. Their moduli are primes, `a` is a square and `d`,
which the domain calls `b`, is none: the points are a group.
-/

namespace Speculos.Ec

open Lib

inductive EdwardsCurve
  | edBLS12
  | jubjub
  deriving DecidableEq, Repr

namespace EdwardsCurve

def domain : EdwardsCurve → CxCurveDomain
  | .edBLS12 => Ec.edBLS12
  | .jubjub => Ec.jubjub

abbrev p (c : EdwardsCurve) : Nat := c.domain.p

-- ---------------------------------------------------------------------------
-- Primes
-- ---------------------------------------------------------------------------

/-- The primes that divide `p - 1`. -/
def factors : EdwardsCurve → List Nat
  | .edBLS12 => [2, 3, 5, 7, 13, 499, 958612291309063373, 9586122913090633729]
  | .jubjub => [2, 3, 11, 19, 10177, 125527, 859267, 906349, 2508409, 2529403, 52437899, 254760293]

/-- A residue of order `p - 1`. -/
def generator : EdwardsCurve → Nat
  | .edBLS12 => 22
  | .jubjub => 7

theorem prime_1832756501 : Nat.Prime 1832756501 := by
  refine prime_of_powers 2 [2, 5, 29, 126397] 31 3 ?_ (by decide) (by decide)
    (by decide) (by decide)
  norm_num

theorem primes_edBLS12 :
    Nat.Prime 958612291309063373 ∧ Nat.Prime 9586122913090633729 := by
  constructor
  · have h : Nat.Prime 49484425527001 := by
      refine prime_of_powers 14 [2, 3, 5, 1832756501] 46 3 ?_ (by decide) (by decide)
        (by decide +kernel) (by decide +kernel)
      simp [prime_1832756501, Nat.prime_two, Nat.prime_three, Nat.prime_five]
    refine prime_of_powers 2 [2, 29, 167, 49484425527001] 60 2 ?_ (by decide)
      (by decide) (by decide +kernel) (by decide +kernel)
    simp only [List.forall_mem_cons, h]
    norm_num
  · refine prime_of_powers 11 [2, 3, 7, 13, 499] 64 46 ?_ (by decide) (by decide)
      (by decide +kernel) (by decide +kernel)
    norm_num

theorem prime_52437899 : Nat.Prime 52437899 := by
  refine prime_of_powers 2 [2, 43, 609743] 26 1 ?_ (by decide) (by decide)
    (by decide) (by decide)
  norm_num

theorem prime_254760293 : Nat.Prime 254760293 := by
  have h : Nat.Prime 63690073 := by
    refine prime_of_powers 7 [2, 3, 2653753] 26 3 ?_ (by decide) (by decide)
      (by decide) (by decide)
    norm_num
  refine prime_of_powers 2 [2, 63690073] 28 2 ?_ (by decide) (by decide)
    (by decide) (by decide)
  simp [h, Nat.prime_two]

theorem prime_factors (c : EdwardsCurve) : ∀ q ∈ c.factors, q.Prime := by
  cases c with
  | edBLS12 =>
    simp only [factors, List.forall_mem_cons, primes_edBLS12]
    norm_num
  | jubjub =>
    simp only [factors, List.forall_mem_cons, prime_52437899, prime_254760293]
    norm_num

theorem powers (c : EdwardsCurve) :
    powBits (c.generator : ZMod c.p) (c.p - 1) 255 = 1 ∧
    (∀ q ∈ c.factors, powBits (c.generator : ZMod c.p) ((c.p - 1) / q) 255 ≠ 1) ∧
    powBits (c.domain.b : ZMod c.p) (c.p / 2) 255 ≠ 1 := by
  cases c <;> decide +kernel

theorem prime (c : EdwardsCurve) : c.p.Prime := by
  refine prime_of_powers (c.generator : ZMod c.p) c.factors 255 47 c.prime_factors ?_ ?_ ?_ ?_
  · cases c <;> decide
  · cases c <;> decide
  · exact c.powers.1
  · exact c.powers.2.1

instance (c : EdwardsCurve) : Fact c.p.Prime := ⟨c.prime⟩

-- ---------------------------------------------------------------------------
-- Groups
-- ---------------------------------------------------------------------------

def curve (c : EdwardsCurve) : TwistedEdwards (ZMod c.p) := ⟨c.domain.a, c.domain.b⟩

/-- A square root of `a`. -/
def rootOfA : EdwardsCurve → Nat
  | .edBLS12 => 880904806456922042258150504921383618666682042621506879489
  | .jubjub => 3465144826073652318776269530687742778270252468765361963008

theorem complete (c : EdwardsCurve) : c.curve.Complete where
  two_ne := by cases c <;> decide
  a_ne := by cases c <;> decide
  a_square := ⟨c.rootOfA, by cases c <;> decide⟩
  d_nonsquare := by
    have hd : c.curve.d ≠ 0 := by cases c <;> decide
    have hpow : powBits c.curve.d (c.p / 2) 255 ≠ 1 := c.powers.2.2
    rw [powBits_eq _ (by cases c <;> decide)] at hpow
    exact fun hsquare => hpow ((ZMod.euler_criterion c.p hd).mp hsquare)

instance (c : EdwardsCurve) : Fact c.curve.Complete := ⟨c.complete⟩

end EdwardsCurve

end Speculos.Ec

/-!
## Formulas on slots

A program of modular operations leaves in its slots what it computes with the residues, as
long as its slots are different ones. The two formulas of the ladder are those of extended
coordinates.
-/

namespace Speculos.Ec

open Lib Bn Lib.TwistedEdwards

-- ---------------------------------------------------------------------------
-- Programs
-- ---------------------------------------------------------------------------

def ModOp.apply {K : Type} [CommRing K] : ModOp → K → K → K
  | .mul => (· * ·)
  | .add => (· + ·)
  | .sub => (· - ·)

def ModOp.reduced (q : Nat) (op : ModOp) (x y : Int) : Int := op.apply x y % q

variable {ssl : Openssl} {q : Nat}

theorem ModOp.call_exact (hssl : ssl.Exact) (hmod : ssl.ExactModular) (hodd : q % 2 = 1)
    (op : ModOp) (r a b : Slot) {n : Slot} {m : Mpis} (hn : m n = q) :
    op.call ssl r a b n m = (.ok, m.set r (op.reduced q (m a) (m b))) := by
  have hne : q ≠ 0 := by
    rintro rfl
    simp at hodd
  cases op with
  | mul =>
    simp [call, cxMpiModMul, hn, hssl.isOdd, hodd, hmod.modMul _ _ q hne, write_done, reduced,
      apply]
  | add => simp [call, cxMpiModAdd, hn, hmod.modAdd _ _ q hne, write_done, reduced, apply]
  | sub => simp [call, cxMpiModSub, hn, hmod.modSub _ _ q hne, write_done, reduced, apply]

variable {ι : Type} {mpi : ι → Slot} {n : ι} {program : List (Instr ι ModOp)} {m : Mpis}

theorem runProgram_eq (hssl : ssl.Exact) (hmod : ssl.ExactModular) (hodd : q % 2 = 1)
    (hprogram : ∀ i ∈ program, mpi i.r ≠ mpi n) (hn : m (mpi n) = q) :
    runProgram ssl mpi n program m = Instr.exec (ModOp.reduced q)
      (program.map (Instr.place mpi)) m := by
  induction program generalizing m with
  | nil => rfl
  | cons i program ih =>
    have hcall := ModOp.call_exact hssl hmod hodd i.op (mpi i.r) (mpi i.a) (mpi i.b) hn
    have hcons : runProgram ssl mpi n (i :: program) m = runProgram ssl mpi n program
        (i.op.call ssl (mpi i.r) (mpi i.a) (mpi i.b) (mpi n) m).2 := rfl
    rw [hcons, hcall, ih fun j hj => hprogram j (List.mem_cons_of_mem _ hj)]
    · rfl
    · exact (set_of_ne _ (Ne.symm (hprogram i List.mem_cons_self)) _).trans hn

variable [DecidableEq ι]

theorem set_at (hinj : Function.Injective mpi) (m : Mpis) (i j : ι) (v : Int) :
    (m.set (mpi i) v) (mpi j) = if j = i then v else m (mpi j) := by
  simp only [Mpis.set, Function.update_apply, hinj.eq_iff]

/-- What a program on different slots leaves: the residues that it computes, numbers below the
modulus where it writes, and the numbers elsewhere. -/
structure Computes (q : Nat) (mpi : ι → Slot) (program : List (Instr ι ModOp)) (m m' : Mpis) :
    Prop where
  residue : ∀ id, ((m' (mpi id) : Int) : ZMod q) =
    Instr.exec ModOp.apply program (fun id => ((m (mpi id) : Int) : ZMod q)) id
  written : ∀ id, (∃ i ∈ program, i.r = id) → 0 ≤ m' (mpi id) ∧ m' (mpi id) < q
  kept : ∀ slot, (∀ i ∈ program, mpi i.r ≠ slot) → m' slot = m slot

theorem computes_runProgram (hssl : ssl.Exact) (hmod : ssl.ExactModular) (hodd : q % 2 = 1)
    (hinj : Function.Injective mpi) (hprogram : ∀ i ∈ program, i.r ≠ n) (hn : m (mpi n) = q) :
    Computes q mpi program m (runProgram ssl mpi n program m) := by
  rw [runProgram_eq hssl hmod hodd (fun i hi => hinj.ne (hprogram i hi)) hn]
  have hplaces := Instr.exec_place (f := ModOp.reduced q) hinj program m
  have hpos : (0 : Int) < q := by omega
  refine ⟨fun id => ?_, fun id hid => ?_, fun slot hslot => ?_⟩
  · have hcast (op : ModOp) (a b : Int) : ((op.reduced q a b : Int) : ZMod q) =
        op.apply (a : ZMod q) b := by
      cases op <;> simp [ModOp.reduced, ModOp.apply, ZMod.intCast_mod]
    have hmap := congrFun (Instr.map_exec hcast program (m ∘ mpi)) id
    rw [← hplaces] at hmap
    exact hmap
  · have hrange (op : ModOp) (a b : Int) : 0 ≤ op.reduced q a b ∧ op.reduced q a b < q :=
      ⟨Int.emod_nonneg _ (Int.ne_of_gt hpos), Int.emod_lt_of_pos _ hpos⟩
    have hplace := congrFun hplaces id
    rw [Function.comp_apply] at hplace
    rw [hplace]
    exact Instr.exec_of_written (S := fun x : Int => 0 ≤ x ∧ x < q) hrange hid _
  · refine Instr.exec_of_not_written (fun i hi => ?_) m
    obtain ⟨j, hj, rfl⟩ := List.mem_map.mp hi
    exact hslot j hj

-- ---------------------------------------------------------------------------
-- The formulas of the ladder
-- ---------------------------------------------------------------------------

/-- The numbers of the ladder: those of the array, the two products of coordinates, and the
coordinates of the two points. -/
inductive MulName
  | var (id : TeVar)
  | t (i : Bool)
  | coord (i : Bool) (c : Coord)
  deriving DecidableEq, Repr

def MpiPoint.coord (P : MpiPoint) : Coord → Slot
  | .x => P.x
  | .y => P.y
  | .z => P.z

variable (mpi : TeVar → Slot) (xy : Bool → Slot) (P R1 : MpiPoint)

/-- `RR` -/
def rungPoint (i : Bool) : MpiPoint := if i then R1 else P

def mulSlot : MulName → Slot
  | .var id => mpi id
  | .t i => xy i
  | .coord i c => (rungPoint P R1 i).coord c

/-- The entries of the array, where it points to one of the points. -/
def firstName (i : Bool) : TeVar → MulName
  | .x1 => .coord i .x
  | .y1 => .coord i .y
  | .z1 => .coord i .z
  | .t1 => .t i
  | id => .var id

def secondName (i : Bool) : TeVar → MulName
  | .x2 => .coord (!i) .x
  | .y2 => .coord (!i) .y
  | .z2 => .coord (!i) .z
  | .t2 => .t (!i)
  | id => firstName i id

theorem firstName_injective (i : Bool) : Function.Injective (firstName i) := by
  let back : MulName → TeVar
    | .var id => id
    | .t _ => .t1
    | .coord _ .x => .x1
    | .coord _ .y => .y1
    | .coord _ .z => .z1
  exact Function.LeftInverse.injective (g := back) fun id => by cases id <;> rfl

theorem secondName_injective (i : Bool) : Function.Injective (secondName i) := by
  let back : MulName → TeVar
    | .var id => id
    | .t j => if j = i then .t1 else .t2
    | .coord j .x => if j = i then .x1 else .x2
    | .coord j .y => if j = i then .y1 else .y2
    | .coord j .z => if j = i then .z1 else .z2
  exact Function.LeftInverse.injective (g := back) fun id => by cases id <;> cases i <;> rfl

theorem atFirst_eq (i : Bool) :
    atFirst (rungPoint P R1 i) (some (xy i)) mpi = mulSlot mpi xy P R1 ∘ firstName i := by
  funext id
  cases id <;> rfl

theorem atSecond_eq (i : Bool) :
    atSecond (rungPoint P R1 !i) (some (xy !i)) (atFirst (rungPoint P R1 i) (some (xy i)) mpi) =
      mulSlot mpi xy P R1 ∘ secondName i := by
  funext id
  cases id <;> rfl

def extendedAt (q : Nat) (m : Mpis) (i : Bool) : Extended (ZMod q) :=
  ⟨m ((rungPoint P R1 i).coord .x), m ((rungPoint P R1 i).coord .y),
    m ((rungPoint P R1 i).coord .z), m (xy i)⟩

/-- The modulus and the coefficient are loaded, and the coordinates are numbers below `bound`. -/
structure Ready (q : Nat) (a : ZMod q) (bound : Nat) (m : Mpis) : Prop where
  n : m (mpi .n) = q
  a : ((m (mpi .a) : Int) : ZMod q) = a
  small : ∀ i c, 0 ≤ m ((rungPoint P R1 i).coord c) ∧ m ((rungPoint P R1 i).coord c) < bound

variable {mpi xy P R1} {a : ZMod q} {bound : Nat}

theorem dblProgram_apply {K : Type} [CommRing K] (ρ : TeVar → K) :
    (⟨Instr.exec ModOp.apply dblProgram ρ .x1, Instr.exec ModOp.apply dblProgram ρ .y1,
      Instr.exec ModOp.apply dblProgram ρ .z1,
      Instr.exec ModOp.apply dblProgram ρ .t1⟩ : Extended K) =
      (⟨ρ .x1, ρ .y1, ρ .z1, ρ .t1⟩ : Extended K).dbl (ρ .a) := rfl

theorem addProgram_apply {K : Type} [CommRing K] (ρ : TeVar → K) :
    (⟨Instr.exec ModOp.apply addProgram ρ .x2, Instr.exec ModOp.apply addProgram ρ .y2,
      Instr.exec ModOp.apply addProgram ρ .z2,
      Instr.exec ModOp.apply addProgram ρ .t2⟩ : Extended K) =
      (⟨ρ .x1, ρ .y1, ρ .z1, ρ .t1⟩ : Extended K).add (ρ .a) ⟨ρ .x2, ρ .y2, ρ .z2, ρ .t2⟩ := rfl

theorem firstName_ne (i : Bool) (id : TeVar) (c : Coord) :
    firstName i id ≠ .coord (!i) c ∧ firstName i id ≠ .t (!i) := by
  cases i <;> cases id <;> simp [firstName]

theorem secondName_ne (i : Bool) (c : Coord) :
    (∀ j ∈ addProgram, secondName i j.r ≠ .coord i c) ∧ ∀ j ∈ addProgram,
      secondName i j.r ≠ .t i := by
  cases i <;> cases c <;> decide

theorem Ready.of_small {m' : Mpis} (h : Ready mpi P R1 q a bound m) (hn : m' (mpi .n) = m (mpi .n))
    (ha : m' (mpi .a) = m (mpi .a)) (i : Bool)
    (hi : ∀ c, 0 ≤ m' ((rungPoint P R1 i).coord c) ∧ m' ((rungPoint P R1 i).coord c) < bound)
    (hother : ∀ c, m' ((rungPoint P R1 !i).coord c) = m ((rungPoint P R1 !i).coord c)) :
    Ready mpi P R1 q a bound m' := by
  refine ⟨hn.trans h.n, (congrArg (Int.cast (R := ZMod q)) ha).trans h.a, fun j c => ?_⟩
  rcases Bool.eq_or_eq_not j i with rfl | rfl
  · exact hi c
  · rw [hother c]
    exact h.small (!i) c

section

variable (hssl : ssl.Exact) (hmod : ssl.ExactModular) (hodd : q % 2 = 1) (hbound : q ≤ bound)
  (hinj : Function.Injective (mulSlot mpi xy P R1))
include hssl hmod hodd hbound hinj

theorem Ready.dbl (h : Ready mpi P R1 q a bound m) (i : Bool) :
    ∃ m', cxTwistedEdwardsDbl ssl (rungPoint P R1 i) (some (xy i)) mpi m = m' ∧
      Ready mpi P R1 q a bound m' ∧
      extendedAt xy P R1 q m' i = (extendedAt xy P R1 q m i).dbl a ∧
      extendedAt xy P R1 q m' (!i) = extendedAt xy P R1 q m (!i) := by
  have hmodulus : ∀ j ∈ dblProgram, j.r ≠ TeVar.n := by decide
  have hcomputes := computes_runProgram hssl hmod hodd
    (hinj.comp (firstName_injective i)) hmodulus h.n
  have hkept (name : MulName) (hname : ∀ j ∈ dblProgram, firstName i j.r ≠ name) :=
    hcomputes.kept (mulSlot mpi xy P R1 name) fun j hj => hinj.ne (hname j hj)
  have hother (c : Coord) := hkept (.coord (!i) c) fun j _ => (firstName_ne i j.r c).1
  have hsmall (id : TeVar) (hid : ∃ j ∈ dblProgram, j.r = id) :=
    (hcomputes.written id hid).imp_right fun hlt => Int.lt_of_lt_of_le hlt (Int.ofNat_le.mpr hbound)
  rw [cxTwistedEdwardsDbl, atFirst_eq]
  refine ⟨_, rfl, h.of_small (hkept (.var .n) ?_) (hkept (.var .a) ?_) i (fun c => ?_) hother, ?_,
    ?_⟩
  · cases i <;> decide
  · cases i <;> decide
  · cases c with
    | x => exact hsmall .x1 (by decide)
    | y => exact hsmall .y1 (by decide)
    | z => exact hsmall .z1 (by decide)
  · have hdbl := dblProgram_apply fun id =>
      ((m ((mulSlot mpi xy P R1 ∘ firstName i) id) : Int) : ZMod q)
    refine (Extended.ext (hcomputes.residue .x1) (hcomputes.residue .y1) (hcomputes.residue .z1)
      (hcomputes.residue .t1)).trans (hdbl.trans ?_)
    rw [← h.a]
    rfl
  · exact Extended.ext (congrArg Int.cast (hother .x)) (congrArg Int.cast (hother .y))
      (congrArg Int.cast (hother .z))
      (congrArg Int.cast (hkept (.t !i) fun j _ => (firstName_ne i j.r .x).2))

theorem Ready.add (h : Ready mpi P R1 q a bound m) (i : Bool) :
    ∃ m', cxTwistedEdwardsAdd ssl (rungPoint P R1 i) (xy i) (rungPoint P R1 !i) (xy !i) mpi m = m' ∧
      Ready mpi P R1 q a bound m' ∧
      extendedAt xy P R1 q m' (!i) = (extendedAt xy P R1 q m i).add a
      (extendedAt xy P R1 q m (!i)) ∧
      extendedAt xy P R1 q m' i = extendedAt xy P R1 q m i := by
  have hmodulus : ∀ j ∈ addProgram, j.r ≠ TeVar.n := by decide
  have hcomputes := computes_runProgram hssl hmod hodd
    (hinj.comp (secondName_injective i)) hmodulus h.n
  have hkept (name : MulName) (hname : ∀ j ∈ addProgram, secondName i j.r ≠ name) :=
    hcomputes.kept (mulSlot mpi xy P R1 name) fun j hj => hinj.ne (hname j hj)
  have hother (c : Coord) := hkept (.coord i c) (secondName_ne i c).1
  have hsmall (id : TeVar) (hid : ∃ j ∈ addProgram, j.r = id) :=
    (hcomputes.written id hid).imp_right fun hlt => Int.lt_of_lt_of_le hlt (Int.ofNat_le.mpr hbound)
  rw [cxTwistedEdwardsAdd, atSecond_eq]
  refine ⟨_, rfl, h.of_small (hkept (.var .n) ?_) (hkept (.var .a) ?_) (!i) (fun c => ?_)
    (by rw [Bool.not_not]; exact hother), ?_, ?_⟩
  · cases i <;> decide
  · cases i <;> decide
  · cases c with
    | x => exact hsmall .x2 (by decide)
    | y => exact hsmall .y2 (by decide)
    | z => exact hsmall .z2 (by decide)
  · have hadd := addProgram_apply fun id =>
      ((m ((mulSlot mpi xy P R1 ∘ secondName i) id) : Int) : ZMod q)
    refine (Extended.ext (hcomputes.residue .x2) (hcomputes.residue .y2) (hcomputes.residue .z2)
      (hcomputes.residue .t2)).trans (hadd.trans ?_)
    rw [← h.a]
    rfl
  · exact Extended.ext (congrArg Int.cast (hother .x)) (congrArg Int.cast (hother .y))
      (congrArg Int.cast (hother .z)) (congrArg Int.cast (hkept (.t i) (secondName_ne i .x).2))

theorem Ready.step (h : Ready mpi P R1 q a bound m) (bit : Bool) :
    Ready mpi P R1 q a bound (mulPointStep ssl P R1 mpi xy m bit) ∧
      extendedAt xy P R1 q (mulPointStep ssl P R1 mpi xy m bit) =
        TwistedEdwards.ladderStep a (extendedAt xy P R1 q m) bit := by
  obtain ⟨m₁, hm₁, hready₁, hsum, hsame⟩ := h.add hssl hmod hodd hbound hinj bit
  obtain ⟨m₂, hm₂, hready₂, hdouble, hother⟩ := hready₁.dbl hssl hmod hodd hbound hinj bit
  have hstep : mulPointStep ssl P R1 mpi xy m bit = m₂ := by
    rw [← hm₂, ← hm₁]
    rfl
  rw [hstep]
  refine ⟨hready₂, funext fun i => ?_⟩
  rw [TwistedEdwards.ladderStep]
  rcases Bool.eq_or_eq_not i bit with rfl | rfl
  · rw [if_pos rfl, hdouble, hsame]
  · rw [if_neg (Bool.not_ne_self bit), hother, hsum]

theorem Ready.run (h : Ready mpi P R1 q a bound m) (bits : List Bool) :
    Ready mpi P R1 q a bound (bits.foldl (mulPointStep ssl P R1 mpi xy) m) ∧
      extendedAt xy P R1 q (bits.foldl (mulPointStep ssl P R1 mpi xy) m) =
        bits.foldl (TwistedEdwards.ladderStep a) (extendedAt xy P R1 q m) := by
  induction bits generalizing m with
  | nil => exact ⟨h, rfl⟩
  | cons bit bits ih =>
    obtain ⟨hready, hstep⟩ := h.step hssl hmod hodd hbound hinj bit
    rw [List.foldl_cons, List.foldl_cons, ← hstep]
    exact ih hready

end

end Speculos.Ec
