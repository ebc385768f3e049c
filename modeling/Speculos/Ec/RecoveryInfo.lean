import Mathlib.Algebra.Group.Defs
import Speculos.Ec.EcdsaSign

/-!
# The recovery information of a signature

`*info` tells which of the points with the `r` of a signature the nonce has given: the flags are
those of every turn of the loop, so that a turn that signed nothing may leave one behind. A turn
that goes on at once looks at a pointer that nothing may have been written to.
-/

namespace Speculos.Ec

open Lib CxEc

-- ---------------------------------------------------------------------------
-- Flags
-- ---------------------------------------------------------------------------

/-- `*info`, by its two flags. -/
def eccinfo (xGTn parityOdd : Bool) : UInt32 :=
  (if xGTn then eccinfoXGTn else 0) ||| (if parityOdd then eccinfoParityOdd else 0)

theorem eccinfo_or_xGTn (xGTn parityOdd : Bool) :
    eccinfo xGTn parityOdd ||| eccinfoXGTn = eccinfo true parityOdd := by
  cases xGTn <;> cases parityOdd <;> rfl

theorem eccinfo_or_parityOdd (xGTn parityOdd : Bool) :
    eccinfo xGTn parityOdd ||| eccinfoParityOdd = eccinfo xGTn true := by
  cases xGTn <;> cases parityOdd <;> rfl

theorem eccinfo_xor_parityOdd (xGTn parityOdd : Bool) :
    eccinfo xGTn parityOdd ^^^ eccinfoParityOdd = eccinfo xGTn !parityOdd := by
  cases xGTn <;> cases parityOdd <;> rfl

theorem eccinfo_and_xGTn (xGTn parityOdd : Bool) :
    eccinfo xGTn parityOdd &&& eccinfoXGTn ≠ 0 ↔ xGTn = true := by
  cases xGTn <;> cases parityOdd <;> decide

theorem eccinfo_and_parityOdd (xGTn parityOdd : Bool) :
    eccinfo xGTn parityOdd &&& eccinfoParityOdd ≠ 0 ↔ parityOdd = true := by
  cases xGTn <;> cases parityOdd <;> decide

-- ---------------------------------------------------------------------------
-- Turns
-- ---------------------------------------------------------------------------

section

variable {P : Type} [AddCommGroup P]

/-- OpenSSL knows the curve of the key: it multiplies the generator, and a signature has the `r`
that was passed, with an `s` below the order. -/
structure EcdsaLib.Correct (lib : EcdsaLib P) (curve : CxCurve) (generator : P) : Prop where
  order : lib.order curve = orderToSign curve
  pointMul : ∀ k, lib.pointMul curve k = some (k • generator)
  doSignEx : ∀ {i hash kinv rp d r s}, lib.doSignEx curve i hash kinv rp d = some (r, s) →
    r = rp ∧ s < lib.order curve

variable (lib : EcdsaLib P) (key : CxEcfpPrivateKey) (generator : P) (nonce : Nat → Nat)
    (hash : Bytes)

def coordinates (i : Nat) : Option (Nat × Nat) :=
  lib.affineCoordinates key.curve (nonce i • generator)

def signatureOf (i x : Nat) : Option (Nat × Nat) :=
  lib.doSignEx key.curve i hash (lib.modInverse (nonce i) (orderToSign key.curve))
    (x % orderToSign key.curve)
    (fromBE key.d)

/-- The nonce of a turn gives no signature, and the loop draws another one. -/
def Retried (i : Nat) : Prop :=
  ∃ x y, coordinates lib key generator nonce i = some (x, y) ∧
    (x % orderToSign key.curve = 0 ∨ signatureOf lib key nonce hash i x = none)

/-- The abscissa of a turn is not below the order. -/
def XGTn (i : Nat) : Prop :=
  ∃ x y, coordinates lib key generator nonce i = some (x, y) ∧ orderToSign key.curve ≤ x

/-- The ordinate of a turn is odd, and the turn looks at it. -/
def ParityOdd (i : Nat) : Prop :=
  ∃ x y, coordinates lib key generator nonce i = some (x, y) ∧ x % orderToSign key.curve ≠ 0 ∧
    y % 2 = 1

/-- What the loop has in front of turn `i`, if no turn has signed. -/
structure Drawing (stackIsNull : Bool) (i : Nat) (st : SignState) : Prop where
  info : ∃ g p, st.info = some (eccinfo g p) ∧
    (g = true ↔ ∃ j < i, XGTn lib key generator nonce j) ∧
    (p = true ↔ ∃ j < i, ParityOdd lib key generator nonce j)
  first : i = 0 → st.ecdsaSig = .garbage stackIsNull
  isNull : i ≠ 0 → st.ecdsaSig.isNull = true

variable {lib key generator nonce hash}

theorem drawing_start (stackIsNull : Bool) :
    Drawing lib key generator nonce stackIsNull 0 ⟨some 0, .garbage stackIsNull⟩ where
  info := ⟨false, false, rfl, by simp, by simp⟩
  first _ := rfl
  isNull h := absurd rfl h

theorem xGTn_iff (h : coordinates lib key generator nonce i = some (x, y)) :
    XGTn lib key generator nonce i ↔ orderToSign key.curve ≤ x := by
  simp [XGTn, h]

theorem parityOdd_iff (h : coordinates lib key generator nonce i = some (x, y)) :
    ParityOdd lib key generator nonce i ↔ x % orderToSign key.curve ≠ 0 ∧ y % 2 = 1 := by
  simp [ParityOdd, h]

theorem signTurn_eq (hlib : lib.Correct key.curve generator)
    (h : coordinates lib key generator nonce i = some (x, y)) (g p : Bool) (ecdsaSig : EcdsaSig) :
    signTurn lib key (orderToSign key.curve) hash i (nonce i) ⟨some (eccinfo g p), ecdsaSig⟩ =
      some ⟨some (eccinfo (g || decide (orderToSign key.curve ≤ x))
          (p || decide (x % orderToSign key.curve ≠ 0 ∧ y % 2 = 1))),
        if x % orderToSign key.curve = 0 then ecdsaSig
        else .result (signatureOf lib key nonce hash i x)⟩ := by
  have hxy : lib.affineCoordinates key.curve (nonce i • generator) = some (x, y) := h
  have hrp : (if x ≥ orderToSign key.curve then
      (x % orderToSign key.curve, (some (eccinfo g p)).map (· ||| eccinfoXGTn))
    else (x, some (eccinfo g p))) =
      (x % orderToSign key.curve, some (eccinfo (g || decide (orderToSign key.curve ≤ x)) p)) := by
    by_cases hge : orderToSign key.curve ≤ x
    · simp [hge, eccinfo_or_xGTn]
    · rw [Nat.mod_eq_of_lt (Nat.not_le.mp hge)]
      simp [hge]
  rw [signTurn, hlib.pointMul, Option.bind_eq_bind, Option.bind_some, hxy, Option.bind_eq_bind,
    Option.bind_some]
  dsimp only
  rw [hrp]
  by_cases hzero : x % orderToSign key.curve = 0
  · simp [hzero]
  · by_cases hodd : y % 2 = 1
    · simp [hzero, hodd, eccinfo_or_parityOdd, signatureOf]
    · simp [hzero, hodd, signatureOf]

theorem Drawing.flags (hst : Drawing lib key generator nonce stackIsNull i st)
    (hlib : lib.Correct key.curve generator) (hash : Bytes)
    (h : coordinates lib key generator nonce i = some (x, y)) :
    ∃ g p, (g = true ↔ ∃ j < i + 1, XGTn lib key generator nonce j) ∧
      (p = true ↔ ∃ j < i + 1, ParityOdd lib key generator nonce j) ∧
      signTurn lib key (orderToSign key.curve) hash i (nonce i) st =
        some ⟨some (eccinfo g p), if x % orderToSign key.curve = 0 then st.ecdsaSig
          else .result (signatureOf lib key nonce hash i x)⟩ := by
  obtain ⟨info, ecdsaSig⟩ := st
  obtain ⟨g, p, rfl, hg, hp⟩ := hst.info
  refine ⟨_, _, ?_, ?_, signTurn_eq hlib h g p ecdsaSig⟩
  · rw [Bool.or_eq_true, hg, decide_eq_true_eq, ← xGTn_iff h]
    simp only [Nat.lt_succ_iff_lt_or_eq, or_and_right, exists_or, exists_eq_left]
  · rw [Bool.or_eq_true, hp, decide_eq_true_eq, ← parityOdd_iff h]
    simp only [Nat.lt_succ_iff_lt_or_eq, or_and_right, exists_or, exists_eq_left]

/-- A turn without a signature goes on to the next one, unless the pointer is garbage. -/
theorem Drawing.next (hst : Drawing lib key generator nonce stackIsNull i st)
    (hlib : lib.Correct key.curve generator) (h : Retried lib key generator nonce hash i)
    (hfirst : i = 0 → stackIsNull = true ∨
      ∀ x y, coordinates lib key generator nonce 0 = some (x, y) → x % orderToSign key.curve ≠ 0) :
    ∃ st', signTurn lib key (orderToSign key.curve) hash i (nonce i) st = some st' ∧
      st'.ecdsaSig.isNull = true ∧ Drawing lib key generator nonce stackIsNull (i + 1) st' := by
  obtain ⟨x, y, hxy, hretry⟩ := h
  obtain ⟨g, p, hg, hp, hturn⟩ := hst.flags hlib hash hxy
  have hnull : (if x % orderToSign key.curve = 0 then st.ecdsaSig
      else .result (signatureOf lib key nonce hash i x)).isNull = true := by
    split
    · rename_i hzero
      by_cases hi : i = 0
      · subst hi
        rw [hst.first rfl]
        exact (hfirst rfl).resolve_right fun h => h x y hxy hzero
      · exact hst.isNull hi
    · rename_i hne
      rw [hretry.resolve_left hne]
      rfl
  exact ⟨_, hturn, hnull, ⟨g, p, rfl, hg, hp⟩, fun h => absurd h (Nat.succ_ne_zero i),
    fun _ => hnull⟩

theorem signLoop_retried (hlib : lib.Correct key.curve generator) {stackIsNull : Bool} {j : Nat}
    (h : ∀ i < j, Retried lib key generator nonce hash i)
    (hfirst : 0 < j → stackIsNull = true ∨
      ∀ x y, coordinates lib key generator nonce 0 = some (x, y) → x % orderToSign key.curve ≠ 0) :
    ∃ st, Drawing lib key generator nonce stackIsNull j st ∧ ∀ fuel,
      signLoop lib key (orderToSign key.curve) hash nonce (fuel + j) 0 ⟨some 0,
        .garbage stackIsNull⟩ =
        signLoop lib key (orderToSign key.curve) hash nonce fuel j st := by
  induction j with
  | zero => exact ⟨_, drawing_start stackIsNull, fun _ => rfl⟩
  | succ j ih =>
    obtain ⟨st, hst, hrun⟩ := ih (fun i hi => h i (Nat.lt_succ_of_lt hi)) fun _ =>
      hfirst (Nat.succ_pos j)
    obtain ⟨st', hturn, hnull, hst'⟩ := hst.next hlib (h j (Nat.lt_succ_self j)) fun _ =>
      hfirst (Nat.succ_pos j)
    refine ⟨st', hst', fun fuel => ?_⟩
    rw [← Nat.add_assoc, Nat.add_right_comm, hrun, signLoop, hturn]
    dsimp only
    rw [if_pos hnull]

theorem Drawing.signs (hst : Drawing lib key generator nonce stackIsNull i st)
    (hlib : lib.Correct key.curve generator)
    (hxy : coordinates lib key generator nonce i = some (x, y))
    (hne : x % orderToSign key.curve ≠ 0) (hsig : signatureOf lib key nonce hash i x = some rs)
    (fuel : Nat) :
    ∃ g p, (g = true ↔ ∃ j < i + 1, XGTn lib key generator nonce j) ∧
      (p = true ↔ ∃ j < i + 1, ParityOdd lib key generator nonce j) ∧
      signLoop lib key (orderToSign key.curve) hash nonce (fuel + 1) i st =
        some (some (i, ⟨some (eccinfo g p), .result (some rs)⟩)) := by
  obtain ⟨g, p, hg, hp, hturn⟩ := hst.flags hlib hash hxy
  refine ⟨g, p, hg, hp, ?_⟩
  rw [signLoop, hturn, if_neg hne, hsig]
  rfl

theorem signLoop_ends (hlib : lib.Correct key.curve generator)
    (h : coordinates lib key generator nonce i = none) (fuel : Nat) (st : SignState) :
    signLoop lib key (orderToSign key.curve) hash nonce (fuel + 1) i st = some none := by
  have hxy : lib.affineCoordinates key.curve (nonce i • generator) = none := h
  rw [signLoop, signTurn, hlib.pointMul, Option.bind_eq_bind, Option.bind_some, hxy]
  rfl

end

-- ---------------------------------------------------------------------------
-- Normalized signatures
-- ---------------------------------------------------------------------------

section

variable {P : Type} [AddCommGroup P] (lib : EcdsaLib P) (key : CxEcfpPrivateKey) (generator : P)
  (nonce : Nat → Nat) (hash : Bytes) (mode : UInt32)

/-- `s` is replaced by `n - s`. -/
def Replaced (n s : Nat) : Prop := mode &&& cxNoCanonical = 0 ∧ s > n / 2

instance (n s : Nat) : Decidable (Replaced mode n s) := inferInstanceAs (Decidable (_ ∧ _))

/-- The signature is that of the nonce of its turn, and `*info` tells which point the nonce has
given. -/
structure Reports (out : Signed) (x y s : Nat) (info : UInt32) : Prop where
  point : coordinates lib key generator nonce out.turn = some (x, y)
  signature : signatureOf lib key nonce hash out.turn x = some (out.r, s)
  written : out.info = some info
  r : out.r = x % orderToSign key.curve
  xGTn : info &&& eccinfoXGTn ≠ 0 ↔ orderToSign key.curve ≤ x
  parityOdd : info &&& eccinfoParityOdd ≠ 0 ↔
    ¬ (y % 2 = 1 ↔ Replaced mode (orderToSign key.curve) s)
  s : out.s = if Replaced mode (orderToSign key.curve) s then orderToSign key.curve - s else s
  canonical : mode &&& cxNoCanonical = 0 → out.s ≤ orderToSign key.curve / 2

variable {lib key generator nonce hash mode}

theorem normalizeAndEncode_eq (mode : UInt32) (hlib : lib.Correct key.curve generator)
    {length : UInt32} {r s : Nat} (hn : orderToSign key.curve < 256 ^ length.toNat)
    (hr : r < orderToSign key.curve) (hs : s < orderToSign key.curve) (sig : Region)
    (sigLen turn : Nat) (g p : Bool) :
    ∃ ret sig', normalizeAndEncode lib key length mode sig sigLen turn
        ⟨some (eccinfo g p), .result (some (r, s))⟩ =
      .returned ⟨turn, r, if Replaced mode (orderToSign key.curve) s then orderToSign key.curve - s
        else s, some (eccinfo g (p ^^ decide (Replaced mode (orderToSign key.curve) s))), ret,
          sig'⟩ := by
  have hlen (k : Nat) (hk : k ≤ orderToSign key.curve) : k < 256 ^ length.toNat :=
    Nat.lt_of_le_of_lt hk hn
  rw [normalizeAndEncode]
  dsimp only
  rw [hlib.order]
  by_cases h : Replaced mode (orderToSign key.curve) s
  · have hmode : mode &&& cxNoCanonical = 0 ∧ s > orderToSign key.curve / 2 := h
    rw [if_pos hmode, if_pos h, decide_eq_true h]
    dsimp only
    rw [if_pos ⟨hlen r (Nat.le_of_lt hr), hlen _ (Nat.sub_le _ _)⟩, Option.map_some,
      eccinfo_xor_parityOdd, Bool.xor_true]
    exact ⟨_, _, rfl⟩
  · have hmode : ¬ (mode &&& cxNoCanonical = 0 ∧ s > orderToSign key.curve / 2) := h
    rw [if_neg hmode, if_neg h, decide_eq_false h]
    dsimp only
    rw [if_pos ⟨hlen r (Nat.le_of_lt hr), hlen s (Nat.le_of_lt hs)⟩, Bool.xor_false]
    exact ⟨_, _, rfl⟩

theorem reports_iff (hxy : coordinates lib key generator nonce turn = some (x, y))
    (hsig : signatureOf lib key nonce hash turn x = some (r, s))
    (hr : r = x % orderToSign key.curve) (hs : s < orderToSign key.curve) (g p : Bool) (ret : Nat)
    (sig' : Region) :
    (∃ x' y' s' info, Reports lib key generator nonce hash mode
      ⟨turn, r, if Replaced mode (orderToSign key.curve) s then orderToSign key.curve - s else s,
        some (eccinfo g (p ^^ decide (Replaced mode (orderToSign key.curve) s))), ret,
        sig'⟩ x' y' s' info) ↔
      (g = true ↔ orderToSign key.curve ≤ x) ∧ (p = true ↔ y % 2 = 1) := by
  have hparity : (p ^^ decide (Replaced mode (orderToSign key.curve) s)) = true ↔
      ¬ (p = true ↔ Replaced mode (orderToSign key.curve) s) := by
    rw [Bool.xor_iff_ne]
    by_cases h : Replaced mode (orderToSign key.curve) s
    · simp [h]
    · simp [h]
  constructor
  · rintro ⟨x', y', s', info, h⟩
    obtain ⟨rfl, rfl⟩ : x = x' ∧ y = y' := by
      have heq := hxy.symm.trans h.point
      simpa using heq
    obtain rfl : s = s' := by
      have heq := hsig.symm.trans h.signature
      simpa using heq
    obtain rfl := Option.some.inj h.written
    refine ⟨(eccinfo_and_xGTn g _).symm.trans h.xGTn, ?_⟩
    have hodd := (eccinfo_and_parityOdd g _).symm.trans h.parityOdd
    rw [hparity, not_iff_not] at hodd
    by_cases hrep : Replaced mode (orderToSign key.curve) s
    · simpa only [hrep, iff_true] using hodd
    · simpa only [hrep, iff_false, not_iff_not] using hodd
  · rintro ⟨hg, hp⟩
    refine ⟨x, y, s, _, hxy, hsig, rfl, hr, (eccinfo_and_xGTn g _).trans hg, ?_, rfl,
      fun hmode => ?_⟩
    · rw [eccinfo_and_parityOdd, hparity, hp]
    · dsimp only
      split
      · rename_i hrep
        have hlarge := hrep.2
        omega
      · rename_i hrep
        exact Nat.not_lt.mp fun hlarge => hrep ⟨hmode, hlarge⟩

end

-- ---------------------------------------------------------------------------
-- Signing
-- ---------------------------------------------------------------------------

section

variable {P : Type} [AddCommGroup P] (lib : EcdsaLib P) (key : CxEcfpPrivateKey) (generator : P)
  (nonces : Nonces) (stackIsNull : Bool) (mode hashID : UInt32) (hash : Bytes) (sig : Region)
  (sigLen : Nat)

/-- The call draws nonces, from the source that is told. -/
structure Draws (rfc6979 : Bool) : Prop where
  curve : hasNidToSign key.curve = true
  source : doRfc6979Signature mode hashID = some rfc6979
  hash : ¬ (rfc6979 = true ∧ hashOutputSize hashID = 0)

/-- A turn that signs. -/
def SignsAt (nonce : Nat → Nat) (i : Nat) : Prop :=
  ∃ x y rs, coordinates lib key generator nonce i = some (x, y) ∧ x % orderToSign key.curve ≠ 0 ∧
    signatureOf lib key nonce hash i x = some rs

/-- The first nonce gives an `r` that is not 0, unless the stack holds a null pointer, and the
nonces that are given up set no flag that the last one does not set. -/
structure Steady (nonce : Nat → Nat) : Prop where
  first : stackIsNull = true ∨
    ∀ x y, coordinates lib key generator nonce 0 = some (x, y) → x % orderToSign key.curve ≠ 0
  flags : ∀ j, (∀ i < j, Retried lib key generator nonce hash i) →
    SignsAt lib key generator hash nonce j →
      ∀ i < j, (XGTn lib key generator nonce i → XGTn lib key generator nonce j) ∧
      (ParityOdd lib key generator nonce i → ParityOdd lib key generator nonce j)

/-- A call with `*info = 0` uses no memory that was not written to, and what it returns is
reported. -/
def SignsRight : Prop :=
  ∀ fuel outcome, sysCxEcdsaSign lib key nonces stackIsNull mode hashID hash sig sigLen
    (some 0) fuel =
    some outcome → outcome ≠ .indeterminate ∧ ∀ out, outcome = .returned out →
      ∃ rfc6979, doRfc6979Signature mode hashID = some rfc6979 ∧ ∃ x y s info,
        Reports lib key generator (nonces.at rfc6979) hash mode out x y s info

variable {lib key generator nonces stackIsNull mode hashID hash sig sigLen}

omit [AddCommGroup P] in
theorem sysCxEcdsaSign_eq (lib : EcdsaLib P) (nonces : Nonces) (stackIsNull : Bool) (hash : Bytes)
    (h : Draws key mode hashID rfc6979) (sig : Region) (sigLen : Nat)
    (info : Option UInt32) (fuel : Nat) :
    ∃ domain, cxEcfpGetDomain key.curve = .ok domain ∧
      sysCxEcdsaSign lib key nonces stackIsNull mode hashID hash sig sigLen info fuel =
        afterLoop lib key domain.length mode sig sigLen
          (signLoop lib key (orderToSign key.curve) hash (nonces.at rfc6979) fuel 0
            ⟨info, .garbage stackIsNull⟩) := by
  obtain ⟨domain, hfound⟩ := domain_of_hasNid h.curve
  have hlength := (domain_bounds (cxEcfpGetDomain_ok hfound).1).2.2
  have horder : orderToSign key.curve = domain.n := by rw [orderToSign, hfound]
  refine ⟨domain, hfound, ?_⟩
  rw [sysCxEcdsaSign, hfound, horder]
  dsimp only
  rw [if_neg (not_not_intro h.curve), h.source]
  dsimp only
  rw [if_neg fun hlong => hlength hlong.2, if_neg h.hash]

omit [AddCommGroup P] in
theorem sysCxEcdsaSign_stops {info : Option UInt32} {fuel : Nat} {outcome : SignOutcome}
    (h : ∀ rfc6979, ¬ Draws key mode hashID rfc6979)
    (hrun : sysCxEcdsaSign lib key nonces stackIsNull mode hashID hash sig sigLen info fuel =
      some outcome) : outcome = .ends ∨ outcome = .thrown := by
  rw [sysCxEcdsaSign] at hrun
  split at hrun
  · cases hrun
    exact .inr rfl
  · cases hrun
    exact .inl rfl
  · split at hrun
    · cases hrun
      exact .inl rfl
    · rename_i hcurve
      split at hrun
      · cases hrun
        exact .inr rfl
      · rename_i rfc6979 hsource
        split at hrun
        · cases hrun
          exact .inl rfl
        · split at hrun
          · cases hrun
            exact .inr rfl
          · rename_i hhash
            exact absurd ⟨not_not.mp hcurve, hsource, hhash⟩ (h rfc6979)

theorem sysCxEcdsaSign_signs (hlib : lib.Correct key.curve generator)
    (hdraws : Draws key mode hashID rfc6979)
    (hretried : ∀ i < j, Retried lib key generator (nonces.at rfc6979) hash i)
    (hfirst : 0 < j → stackIsNull = true ∨ ∀ x y,
      coordinates lib key generator (nonces.at rfc6979) 0 = some (x, y) →
      x % orderToSign key.curve ≠ 0)
    (hsigns : SignsAt lib key generator hash (nonces.at rfc6979) j) (sig : Region)
    (sigLen fuel : Nat) :
    ∃ out, sysCxEcdsaSign lib key nonces stackIsNull mode hashID hash sig sigLen (some 0)
        (fuel + 1 + j) =
        some (.returned out) ∧
      ((∃ x y s info, Reports lib key generator (nonces.at rfc6979) hash mode out x y s info) ↔
        ∀ i < j, (XGTn lib key generator (nonces.at rfc6979) i →
            XGTn lib key generator (nonces.at rfc6979) j) ∧
          (ParityOdd lib key generator (nonces.at rfc6979) i →
            ParityOdd lib key generator (nonces.at rfc6979) j)) := by
  obtain ⟨domain, hfound, heq⟩ := sysCxEcdsaSign_eq lib nonces stackIsNull hash hdraws sig sigLen
    (some 0) (fuel + 1 + j)
  obtain ⟨st, hst, hrun⟩ := signLoop_retried hlib hretried hfirst
  obtain ⟨x, y, ⟨r, s⟩, hxy, hne, hsig⟩ := hsigns
  obtain ⟨g, p, hg, hp, hlast⟩ := hst.signs hlib hxy hne hsig fuel
  obtain ⟨rfl, hs⟩ := hlib.doSignEx hsig
  rw [hlib.order] at hs
  have horder : orderToSign key.curve = domain.n := by rw [orderToSign, hfound]
  have hbounds := domain_bounds (cxEcfpGetDomain_ok hfound).1
  rw [← horder] at hbounds
  obtain ⟨ret, sig', hout⟩ := normalizeAndEncode_eq mode hlib hbounds.2.1
    (Nat.mod_lt x hbounds.1) hs sig sigLen j g p
  rw [heq, hrun, hlast, afterLoop, hout]
  refine ⟨_, rfl, ?_⟩
  refine (reports_iff hxy hsig rfl hs g p ret sig').trans ?_
  rw [hg, hp, ← xGTn_iff hxy]
  have hparity : ParityOdd lib key generator (nonces.at rfc6979) j ↔ y % 2 = 1 := by
    rw [parityOdd_iff hxy, and_iff_right hne]
  rw [← hparity]
  simp only [Nat.lt_succ_iff_lt_or_eq, or_and_right, exists_or, exists_eq_left,
    or_iff_right_iff_imp]
  constructor
  · rintro ⟨hgt, hodd⟩ i hi
    exact ⟨fun h => hgt ⟨i, hi, h⟩, fun h => hodd ⟨i, hi, h⟩⟩
  · intro h
    constructor
    · rintro ⟨i, hi, hgt⟩
      exact (h i hi).1 hgt
    · rintro ⟨i, hi, hodd⟩
      exact (h i hi).2 hodd

theorem not_retried (h : ¬ Retried lib key generator nonce hash i) :
    coordinates lib key generator nonce i = none ∨ SignsAt lib key generator hash nonce i := by
  cases hxy : coordinates lib key generator nonce i with
  | none => exact .inl rfl
  | some xy =>
    right
    have hne : xy.1 % orderToSign key.curve ≠ 0 := fun hzero => h ⟨xy.1, xy.2, hxy, .inl hzero⟩
    cases hsig : signatureOf lib key nonce hash i xy.1 with
    | none => exact absurd ⟨xy.1, xy.2, hxy, .inr hsig⟩ h
    | some rs => exact ⟨xy.1, xy.2, rs, hxy, hne, hsig⟩

theorem retried_cases (lib : EcdsaLib P) (key : CxEcfpPrivateKey) (generator : P)
    (nonce : Nat → Nat) (hash : Bytes) (fuel : Nat) :
    (∀ i < fuel, Retried lib key generator nonce hash i) ∨
      ∃ j fuel', fuel = fuel' + 1 + j ∧ (∀ i < j, Retried lib key generator nonce hash i) ∧
        ¬ Retried lib key generator nonce hash j := by
  classical
  by_cases h : ∃ j, j < fuel ∧ ¬ Retried lib key generator nonce hash j
  · refine .inr ⟨Nat.find h, fuel - Nat.find h - 1, ?_, fun i hi => ?_, (Nat.find_spec h).2⟩
    · have hlt := (Nat.find_spec h).1
      omega
    · exact not_not.mp fun hnot => Nat.find_min h hi ⟨Nat.lt_trans hi (Nat.find_spec h).1, hnot⟩
  · exact .inl fun i hi => not_not.mp fun hnot => h ⟨i, hi, hnot⟩

/-- Where the first turn goes on at once, the loop is left with the garbage of the stack. -/
theorem sysCxEcdsaSign_indeterminate (hlib : lib.Correct key.curve generator)
    (hdraws : Draws key mode hashID rfc6979)
    (hxy : coordinates lib key generator (nonces.at rfc6979) 0 = some (x, y))
    (hzero : x % orderToSign key.curve = 0) (sig : Region) (sigLen : Nat) :
    sysCxEcdsaSign lib key nonces false mode hashID hash sig sigLen (some 0) 1 =
      some .indeterminate := by
  obtain ⟨domain, -, heq⟩ := sysCxEcdsaSign_eq lib nonces false hash hdraws sig sigLen (some 0) 1
  have hstart : Drawing lib key generator (nonces.at rfc6979) false 0 _ := drawing_start false
  obtain ⟨g, p, -, -, hturn⟩ := hstart.flags hlib hash hxy
  rw [heq, signLoop, hturn, if_pos hzero]
  rfl

/-- What a call does that draws nonces, where the first turn does not use the garbage. -/
theorem sysCxEcdsaSign_cases {fuel : Nat} {outcome : SignOutcome}
    (hlib : lib.Correct key.curve generator) (hdraws : Draws key mode hashID rfc6979)
    (hfirst : stackIsNull = true ∨ ∀ x y,
      coordinates lib key generator (nonces.at rfc6979) 0 = some (x, y) →
      x % orderToSign key.curve ≠ 0)
    (hrun : sysCxEcdsaSign lib key nonces stackIsNull mode hashID hash sig sigLen (some 0) fuel =
      some outcome) :
    outcome = .ends ∨ ∃ j fuel', fuel = fuel' + 1 + j ∧
      (∀ i < j, Retried lib key generator (nonces.at rfc6979) hash i) ∧
      SignsAt lib key generator hash (nonces.at rfc6979) j := by
  obtain ⟨domain, -, heq⟩ := sysCxEcdsaSign_eq lib nonces stackIsNull hash hdraws sig
    sigLen (some 0) fuel
  rw [heq] at hrun
  rcases retried_cases lib key generator (nonces.at rfc6979) hash fuel with
    hall | ⟨j, fuel', rfl, hretried, hnot⟩
  · obtain ⟨st, -, hloop⟩ := signLoop_retried hlib hall fun _ => hfirst
    have hnone := hloop 0
    rw [Nat.zero_add, signLoop] at hnone
    rw [hnone] at hrun
    cases hrun
  · rcases not_retried hnot with hxy | hsigns
    · obtain ⟨st, -, hloop⟩ := signLoop_retried hlib hretried fun _ => hfirst
      rw [hloop, signLoop_ends hlib hxy] at hrun
      cases hrun
      exact .inl rfl
    · exact .inr ⟨j, fuel', rfl, hretried, hsigns⟩

theorem SignsRight.steady (hlib : lib.Correct key.curve generator)
    (h : SignsRight lib key generator nonces stackIsNull mode hashID hash sig sigLen)
    (hdraws : Draws key mode hashID rfc6979) :
    Steady lib key generator stackIsNull hash (nonces.at rfc6979) := by
  have hfirst : stackIsNull = true ∨ ∀ x y,
      coordinates lib key generator (nonces.at rfc6979) 0 = some (x, y) →
      x % orderToSign key.curve ≠ 0 := by
    cases stackIsNull with
    | true => exact .inl rfl
    | false =>
      refine .inr fun x y hxy hzero => ?_
      exact (h 1 _ (sysCxEcdsaSign_indeterminate hlib hdraws hxy hzero sig sigLen)).1 rfl
  refine ⟨hfirst, fun j hretried hsigns => ?_⟩
  obtain ⟨out, hrun, hiff⟩ := sysCxEcdsaSign_signs hlib hdraws hretried (fun _ => hfirst) hsigns sig
    sigLen 0
  obtain ⟨rfc6979', hsource, hreports⟩ := (h _ _ hrun).2 out rfl
  cases Option.some.inj (hdraws.source.symm.trans hsource)
  exact hiff.mp hreports

/-- The signature and its recovery information are right exactly where the nonces that are given
up leave nothing behind. -/
theorem signsRight_iff (hlib : lib.Correct key.curve generator) (nonces : Nonces)
    (stackIsNull : Bool) (mode hashID : UInt32) (hash : Bytes) (sig : Region) (sigLen : Nat) :
    SignsRight lib key generator nonces stackIsNull mode hashID hash sig sigLen ↔
      ∀ rfc6979, Draws key mode hashID rfc6979 →
        Steady lib key generator stackIsNull hash (nonces.at rfc6979) := by
  refine ⟨fun h rfc6979 hdraws => h.steady hlib hdraws, fun h fuel outcome hrun => ?_⟩
  by_cases hdraws : ∃ rfc6979, Draws key mode hashID rfc6979
  · obtain ⟨rfc6979, hdraws⟩ := hdraws
    have hsteady := h rfc6979 hdraws
    rcases sysCxEcdsaSign_cases hlib hdraws hsteady.first hrun with
      rfl | ⟨j, fuel', rfl, hretried, hsigns⟩
    · exact ⟨nofun, nofun⟩
    · obtain ⟨out, hout, hiff⟩ := sysCxEcdsaSign_signs hlib hdraws hretried (fun _ => hsteady.first)
        hsigns sig sigLen fuel'
      cases Option.some.inj (hout.symm.trans hrun)
      refine ⟨nofun, fun out' heq => ?_⟩
      cases heq
      exact ⟨rfc6979, hdraws.source, hiff.mpr (hsteady.flags j hretried hsigns)⟩
  · rcases sysCxEcdsaSign_stops (not_exists.mp hdraws) hrun with rfl | rfl
    · exact ⟨nofun, nofun⟩
    · exact ⟨nofun, nofun⟩

end

/-- secp256k1 with the nonces 2^31 and 2^31 + 1, whose ordinates are odd and even. -/
def twoPoints : EcdsaLib Int where
  order := orderToSign
  pointMul _ k := some k
  affineCoordinates _ point :=
    if point = 2 ^ 31 then
      some (0x5318f9b1a2697010c5ac235e9af475a8c7e5419f33d47b18d33feeb329eb99a4,
        0xf44ccfeb4beda4195772d93aebb405e8a41f2b40d1e3ec652c726eeefe91f92d)
    else if point = 2 ^ 31 + 1 then
      some (0x91b418fd1778356ce947a5cbb46539fd29842aea168486fae91fc5317177a575,
        0xeca580065b8758a2d18e80caa5ef71f653fbc4a64b68bc4c632a7947e7bab9ee)
    else none
  modInverse k _ :=
    if k = 2 ^ 31 then 0xab11627dffffffffffffffffffffffff269cb60195082f7ea02efef7482a8234
    else 0xfd3c2a1c0587abc7f4f0a870161eaf1e91f4fd892e1d9c18b3253906eaa627d0
  doSignEx curve _ hash kinv rp d :=
    let s := kinv * (fromBE hash + rp * d) % orderToSign curve
    if s = 0 ∨ orderToSign curve = 0 then none else some (rp, s)

def oneKey : CxEcfpPrivateKey := ⟨Curve.secp256k1, toBE 32 1⟩

/-- A hash that is not signed with the nonce 2^31: `s` would be 0. -/
def unsignedHash : Bytes :=
  toBE 32 0xace7064e5d968fef3a53dca1650b8a55f2c99b477b742522ec926fd9a64aa79d

theorem correct_twoPoints : twoPoints.Correct oneKey.curve 1 where
  order := rfl
  pointMul k := by simp [twoPoints]
  doSignEx := by
    intro i hash kinv rp d r s h
    simp only [twoPoints] at h
    split at h
    · cases h
    · rename_i hne
      cases h
      exact ⟨rfl, Nat.mod_lt _ (Nat.pos_of_ne_zero fun hzero => hne (.inr hzero))⟩

theorem coordinates_even (nonce : Nat → Nat) {i : Nat} (h : nonce i = 2 ^ 31 + 1) :
    coordinates twoPoints oneKey 1 nonce i = some
      (0x91b418fd1778356ce947a5cbb46539fd29842aea168486fae91fc5317177a575,
        0xeca580065b8758a2d18e80caa5ef71f653fbc4a64b68bc4c632a7947e7bab9ee) := by
  rw [coordinates, h]
  decide

theorem coordinates_odd (nonce : Nat → Nat) {i : Nat} (h : nonce i = 2 ^ 31) :
    coordinates twoPoints oneKey 1 nonce i = some
      (0x5318f9b1a2697010c5ac235e9af475a8c7e5419f33d47b18d33feeb329eb99a4,
        0xf44ccfeb4beda4195772d93aebb405e8a41f2b40d1e3ec652c726eeefe91f92d) := by
  rw [coordinates, h]
  decide

theorem signsAt_even (nonce : Nat → Nat) {i : Nat} (h : nonce i = 2 ^ 31 + 1) :
    SignsAt twoPoints oneKey 1 unsignedHash nonce i := by
  refine ⟨_, _, (0x91b418fd1778356ce947a5cbb46539fd29842aea168486fae91fc5317177a575,
    0x2fc09fb61db4ff2aaeb38c62e9cfec142293033fd8cdead7f1f2c5d513f8ed6c), coordinates_even nonce h,
    by decide, ?_⟩
  rw [signatureOf, h]
  change twoPoints.doSignEx oneKey.curve 0 _ _ _ _ = _
  decide

theorem retried_odd (nonce : Nat → Nat) {i : Nat} (h : nonce i = 2 ^ 31) :
    Retried twoPoints oneKey 1 nonce unsignedHash i := by
  refine ⟨_, _, coordinates_odd nonce h, .inr ?_⟩
  rw [signatureOf, h]
  change twoPoints.doSignEx oneKey.curve 0 _ _ _ _ = _
  decide

/-- A hash that is not signed with the nonce 2^31 + 1. -/
def unsignedEven : Bytes :=
  toBE 32 0x6e4be702e887ca9316b85a344b9ac601912ab1fc98c41940d6b2995b5ebe9bcc

theorem signsAt_odd (nonce : Nat → Nat) {i : Nat} (h : nonce i = 2 ^ 31) :
    SignsAt twoPoints oneKey 1 unsignedEven nonce i := by
  refine ⟨_, _, (0x5318f9b1a2697010c5ac235e9af475a8c7e5419f33d47b18d33feeb329eb99a4,
    0xc8ab2d2182c9c16915e27547b8c8fb24ce1d8d5e8bd7e38efc352c4673891989), coordinates_odd nonce h,
    by decide, ?_⟩
  rw [signatureOf, h]
  change twoPoints.doSignEx oneKey.curve 0 _ _ _ _ = _
  decide

/-- The nonce 2^31 + 1 is given up and leaves no flag, and 2^31 signs. -/
theorem signsRight_secondNonce :
    SignsRight twoPoints oneKey 1 ⟨fun _ => [], fun i => if i = 0 then 2 ^ 31 + 1 else 2 ^ 31⟩ false
      cxRndTrng 7 unsignedEven Region.zeroed 72 := by
  refine (signsRight_iff correct_twoPoints _ _ _ _ _ _ _).mpr fun rfc6979 hdraws => ?_
  obtain rfl : false = rfc6979 := Option.some.inj hdraws.source
  generalize hnonce : (⟨fun _ => [], fun i => if i = 0 then 2 ^ 31 + 1
    else 2 ^ 31⟩ : Nonces).at false =
    nonce
  have hfirst : nonce 0 = 2 ^ 31 + 1 := by
    rw [← hnonce]
    rfl
  have hsecond : nonce 1 = 2 ^ 31 := by
    rw [← hnonce]
    rfl
  refine ⟨.inr fun x y hxy => ?_, fun j hretried _ i hi => ?_⟩
  · rw [coordinates_even _ hfirst] at hxy
    cases hxy
    decide
  · -- the second nonce is not given up
    have hj : j ≤ 1 := by
      by_contra hj
      obtain ⟨x, y, hxy, hretry⟩ := hretried 1 (by omega)
      obtain ⟨x', y', rs, hxy', hne, hsig⟩ := signsAt_odd _ hsecond
      cases hxy.symm.trans hxy'
      rcases hretry with hzero | hnone
      · exact hne hzero
      · cases hnone.symm.trans hsig
    obtain rfl : i = 0 := by omega
    rw [xGTn_iff (coordinates_even nonce hfirst), parityOdd_iff (coordinates_even nonce hfirst)]
    exact ⟨fun h => absurd h (by decide), fun h => absurd h.2 (by decide)⟩

/-- The nonce 2^31 sets the flag for an odd ordinate, and the one that signs leaves it. -/
theorem not_signsRight_twoNonces :
    ¬ SignsRight twoPoints oneKey 1 ⟨fun _ => [],
      fun i => 2 ^ 31 + i⟩ false cxRndTrng 7 unsignedHash
      Region.zeroed 72 := by
  intro h
  have hdraws : Draws oneKey cxRndTrng 7 false := ⟨by decide, by decide, by decide⟩
  have hsteady := h.steady correct_twoPoints hdraws
  generalize hnonce : (⟨fun _ => [], fun i => 2 ^ 31 + i⟩ : Nonces).at false = nonce at hsteady
  have hfirst : nonce 0 = 2 ^ 31 := by
    rw [← hnonce]
    rfl
  have hsecond : nonce 1 = 2 ^ 31 + 1 := by
    rw [← hnonce]
    rfl
  have hretried (i : Nat) (hi : i < 1) : Retried twoPoints oneKey 1 nonce unsignedHash i :=
    retried_odd nonce (by rw [Nat.lt_one_iff.mp hi, hfirst])
  have hodd := (hsteady.flags 1 hretried (signsAt_even nonce hsecond) 0 Nat.one_pos).2
    ((parityOdd_iff (coordinates_odd nonce hfirst)).mpr (by decide))
  rw [parityOdd_iff (coordinates_even nonce hsecond)] at hodd
  exact absurd hodd.2 (by decide)

end Speculos.Ec
