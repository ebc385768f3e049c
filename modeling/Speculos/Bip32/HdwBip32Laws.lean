import Speculos.Bip32.HdwBip32

/-!
# Derivation over secp256k1 and secp256r1 follows the standard

Every turn of a retry loop is a step of the standard: it ends with its key, or
leaves the data of its next hash in the buffer. A derivation therefore ends
exactly where the one of the standard does, with the same key.
-/

namespace Speculos.Bip32

open Lib

-- ---------------------------------------------------------------------------
-- The retry loops
-- ---------------------------------------------------------------------------

section
variable (crypto : Crypto) {curve : Curve} (hcurve : curve ∈ [.secp256k1, .secp256r1])
include hcurve

/-- One turn of `hdw_bip32`: it ends with the child, or leaves the data of the
next hash. -/
theorem childLoop_turn (key : ExtendedPrivateKey) (index : UInt32) (tmp : Region) :
    let n := fromBE (domainN curve)
    let data := tmp.slice 0 33 ++ Standard.ser32 index
    let hash := crypto.hmacSha512 key.node.c data
    (Standard.Valid crypto.hmacSha512 n key.node data → ∃ tmp',
      (∀ fuel, childLoop crypto (domainN curve) key index (fuel + 1) tmp = some tmp') ∧
      tmp'.slice 0 32 = Standard.ser256 ((fromBE (hash.take 32) + key.node.k) % n) ∧
      tmp'.slice 32 32 = hash.drop 32) ∧
    (¬ Standard.Valid crypto.hmacSha512 n key.node data → ∃ tmp',
      (∀ fuel, childLoop crypto (domainN curve) key index (fuel + 1) tmp =
        childLoop crypto (domainN curve) key index fuel tmp') ∧
      tmp'.slice 0 33 = 0x01 :: hash.drop 32) := by
  intro n data hash
  have hn : (domainN curve).length = 32 := length_domainN hcurve
  have hlen : hash.length = 64 := crypto.length_hmacSha512 _ _
  obtain ⟨hleft, hright⟩ := slice_memcpy_halves (loadIndex tmp index) hash hlen
  have hsum : cxMathAddm (hash.take 32) (hash.take 32) (key.privateKey.slice 0 32) (domainN curve)
      32 = Standard.ser256 ((fromBE (hash.take 32) + key.node.k) % n) :=
    cxMathAddm_eq _ _ _ (domainN_pos hcurve) hn
  have hlt : cxMathCmp (hash.take 32) (domainN curve) < 0 ↔ fromBE (hash.take 32) < n :=
    cxMathCmp_lt_iff (by rw [List.length_take, hlen, hn]; rfl)
  generalize hT : (loadIndex tmp index).memcpy 0 hash 64 = T at hleft hright
  generalize hS : T.memcpy 0 (Standard.ser256 ((fromBE (hash.take 32) + key.node.k) % n)) 32 = S
  have hSleft : S.slice 0 32 = Standard.ser256 ((fromBE (hash.take 32) + key.node.k) % n) := by
    rw [← hS, Region.slice_memcpy_eq _ _ _ (Standard.length_ser256 _)]
  have hSright : S.slice 32 32 = hash.drop 32 := by
    rw [← hS, Region.slice_memcpy_of_disjoint _ _ _ _ _ _ (.inr (by decide)), hright]
  have hzero : cxMathIsZero (S.slice 0 32) = 0 ↔
      (fromBE (hash.take 32) + key.node.k) % n ≠ 0 := by
    have hmod : (fromBE (hash.take 32) + key.node.k) % n < 256 ^ 32 := by
      have hn' := fromBE_lt (domainN curve)
      rw [hn] at hn'
      exact Nat.lt_trans (Nat.mod_lt _ (domainN_pos hcurve)) hn'
    rw [cxMathIsZero_eq_zero_iff, hSleft, Standard.ser256, fromBE_toBE_of_lt hmod]
  have hturn : ∀ fuel, childLoop crypto (domainN curve) key index (fuel + 1) tmp =
      if fromBE (hash.take 32) < n then
        if (fromBE (hash.take 32) + key.node.k) % n ≠ 0 then some S
        else childLoop crypto (domainN curve) key index fuel (loadRetry S)
      else childLoop crypto (domainN curve) key index fuel (loadRetry T) := by
    intro fuel
    rw [childLoop]
    simp only [slice_loadIndex]
    rw [show crypto.hmacSha512 (key.chainCode.slice 0 32)
      (tmp.slice 0 33 ++ Standard.ser32 index) = hash from rfl, hT, hleft, hsum, hS]
    simp only [hlt, hzero]
  constructor
  · rintro ⟨hvalid, hne⟩
    refine ⟨S, fun fuel => ?_, hSleft, hSright⟩
    rw [hturn, if_pos hvalid, if_pos hne]
  · intro hnot
    by_cases hvalid : fromBE (hash.take 32) < n
    · refine ⟨loadRetry S, fun fuel => ?_, ?_⟩
      · rw [hturn, if_pos hvalid, if_neg fun hne => hnot ⟨hvalid, hne⟩]
      · rw [slice_loadRetry, hSright]
    · refine ⟨loadRetry T, fun fuel => ?_, ?_⟩
      · rw [hturn, if_neg hvalid]
      · rw [slice_loadRetry, hright]

theorem childLoop_sound (key : ExtendedPrivateKey) (index : UInt32)
    (h : childLoop crypto (domainN curve) key index fuel tmp = some tmp') :
    ∃ child, Standard.Child crypto.hmacSha512 (fromBE (domainN curve)) key.node index
        (tmp.slice 0 33 ++ Standard.ser32 index) child ∧
      tmp'.slice 0 32 = Standard.ser256 child.k ∧ tmp'.slice 32 32 = child.c := by
  induction fuel generalizing tmp with
  | zero => cases h
  | succ fuel ih =>
    obtain ⟨hvalid, hretry⟩ := childLoop_turn crypto hcurve key index tmp
    by_cases hchild : Standard.Valid crypto.hmacSha512 (fromBE (domainN curve)) key.node
        (tmp.slice 0 33 ++ Standard.ser32 index)
    · obtain ⟨S, hturn, hleft, hright⟩ := hvalid hchild
      rw [hturn] at h
      cases h
      exact ⟨_, .valid hchild, hleft, hright⟩
    · obtain ⟨T, hturn, hnext⟩ := hretry hchild
      rw [hturn] at h
      obtain ⟨child, hstep, hslices⟩ := ih h
      rw [hnext] at hstep
      exact ⟨child, .retry hchild hstep, hslices⟩

theorem childLoop_complete (key : ExtendedPrivateKey) (index : UInt32)
    (h : Standard.Child crypto.hmacSha512 (fromBE (domainN curve)) key.node index data child)
    (htmp : tmp.slice 0 33 ++ Standard.ser32 index = data) :
    ∃ fuel tmp', childLoop crypto (domainN curve) key index fuel tmp = some tmp' ∧
      tmp'.slice 0 32 = Standard.ser256 child.k ∧ tmp'.slice 32 32 = child.c := by
  induction h generalizing tmp with
  | valid hchild =>
    subst htmp
    obtain ⟨S, hturn, hleft, hright⟩ :=
      (childLoop_turn crypto hcurve key index tmp).1 hchild
    exact ⟨1, S, hturn 0, hleft, hright⟩
  | retry hchild _ ih =>
    subst htmp
    obtain ⟨T, hturn, hnext⟩ := (childLoop_turn crypto hcurve key index tmp).2 hchild
    obtain ⟨fuel, tmp', hloop, hslices⟩ := ih (by rw [hnext])
    exact ⟨fuel + 1, tmp', (hturn fuel).trans hloop, hslices⟩

theorem expandLoop_turn (sk seed : Bytes) (key : ExtendedPrivateKey) (hash : Region)
    (hkey : key.Holds (crypto.hmacSha512 sk seed)) :
    (0 < key.node.k ∧ key.node.k < fromBE (domainN curve) →
      ∀ fuel, expandLoop crypto curve sk (fuel + 1) key hash = some key) ∧
    (¬ (0 < key.node.k ∧ key.node.k < fromBE (domainN curve)) → ∃ key' hash',
      (∀ fuel, expandLoop crypto curve sk (fuel + 1) key hash =
        expandLoop crypto curve sk fuel key' hash') ∧
      key'.Holds (crypto.hmacSha512 sk (crypto.hmacSha512 sk seed))) := by
  have hcond : (cxMathIsZero (key.privateKey.slice 0 32) ≠ 0 ∨
      cxMathCmp (key.privateKey.slice 0 32) (domainN curve) ≥ 0) ↔
        ¬ (0 < key.node.k ∧ key.node.k < fromBE (domainN curve)) := by
    have hlt : cxMathCmp (key.privateKey.slice 0 32) (domainN curve) < 0 ↔
        key.node.k < fromBE (domainN curve) :=
      cxMathCmp_lt_iff (by rw [Region.length_slice, length_domainN hcurve])
    have hzero : cxMathIsZero (key.privateKey.slice 0 32) = 0 ↔ key.node.k ≠ 0 :=
      cxMathIsZero_eq_zero_iff _
    rw [not_and_or, ← hlt, Nat.pos_iff_ne_zero, ← hzero, Int.not_lt]
  constructor
  · intro hvalid fuel
    rw [expandLoop, if_neg fun h => hcond.mp h hvalid]
  · intro hnot
    -- the buffer holds the hash again when it is hashed
    generalize hbuffer : (hash.memcpy 0 (key.privateKey.slice 0 32) 32).memcpy 32
      (key.chainCode.slice 0 32) 32 = buffer
    have hagain : buffer.slice 0 64 = crypto.hmacSha512 sk seed := by
      rw [← hbuffer, show 64 = 32 + 32 from rfl, Region.slice_add,
        Region.slice_memcpy_of_disjoint _ _ _ _ _ _ (.inl (by decide)), Nat.zero_add,
        Region.slice_memcpy_eq _ _ _ (Region.length_slice ..),
        Region.slice_memcpy_eq _ _ _ (Region.length_slice ..), hkey.1, hkey.2,
        List.take_append_drop]
    refine ⟨_, buffer.memcpy 0 (crypto.hmacSha512 sk (crypto.hmacSha512 sk seed)) 64,
      fun fuel => ?_, holds_load key buffer (crypto.length_hmacSha512 _ _)⟩
    rw [expandLoop, if_pos (hcond.mpr hnot)]
    simp only [hbuffer, hagain]

theorem expandLoop_sound (hkey : key.Holds (crypto.hmacSha512 sk seed))
    (h : expandLoop crypto curve sk fuel key buffer = some key') :
    Standard.Master crypto.hmacSha512 (fromBE (domainN curve)) sk seed key'.node := by
  induction fuel generalizing key buffer seed with
  | zero => cases h
  | succ fuel ih =>
    obtain ⟨hvalid, hretry⟩ := expandLoop_turn crypto hcurve sk seed key buffer hkey
    by_cases hnode : 0 < key.node.k ∧ key.node.k < fromBE (domainN curve)
    · rw [hvalid hnode] at h
      cases h
      rw [node_of_holds hkey] at hnode ⊢
      exact .valid hnode
    · obtain ⟨next, buffer', hturn, hnext⟩ := hretry hnode
      rw [hturn] at h
      rw [node_of_holds hkey] at hnode
      exact .retry hnode (ih hnext h)

theorem expandLoop_complete (hkey : key.Holds (crypto.hmacSha512 sk seed))
    (h : Standard.Master crypto.hmacSha512 (fromBE (domainN curve)) sk seed node) :
    ∃ fuel key', expandLoop crypto curve sk fuel key buffer = some key' ∧ key'.node = node := by
  induction h generalizing key buffer with
  | valid hnode =>
    have hturn := (expandLoop_turn crypto hcurve sk _ key buffer hkey).1
    rw [node_of_holds hkey] at hturn
    exact ⟨1, key, hturn hnode 0, node_of_holds hkey⟩
  | retry hnode _ ih =>
    have hturn := (expandLoop_turn crypto hcurve sk _ key buffer hkey).2
    rw [node_of_holds hkey] at hturn
    obtain ⟨next, buffer', hturn, hnext⟩ := hturn hnode
    obtain ⟨fuel, key', hloop, hnode'⟩ := ih hnext
    exact ⟨fuel + 1, key', (hturn fuel).trans hloop, hnode'⟩

-- ---------------------------------------------------------------------------
-- The path
-- ---------------------------------------------------------------------------

theorem node_load_child (key : ExtendedPrivateKey)
    (hchild : Standard.Child crypto.hmacSha512 (fromBE (domainN curve)) parent index data child)
    (hleft : tmp.slice 0 32 = Standard.ser256 child.k) (hright : tmp.slice 32 32 = child.c) :
    (key.load tmp).node = child := by
  have hn := fromBE_lt (domainN curve)
  rw [length_domainN hcurve] at hn
  have hk : child.k < 256 ^ 32 :=
    Nat.lt_trans (hchild.inRange (domainN_pos hcurve)).2 hn
  rw [node_load, hleft, hright, Standard.ser256, fromBE_toBE_of_lt hk]

theorem hdwBip32_sound {path : List UInt32}
    (h : path.foldlM (hdwBip32Step crypto curve fuel) (key, tmp) = some (key', tmp')) :
    Standard.Derives crypto.hmacSha512 (fromBE (domainN curve)) (crypto.multiply curve) key.node
      path key'.node := by
  induction path generalizing key tmp with
  | nil =>
    cases h
    exact .nil
  | cons index path ih =>
    rw [List.foldlM_cons] at h
    obtain ⟨⟨next, tmp₁⟩, hstep, h⟩ := Option.bind_eq_some_iff.mp h
    obtain ⟨tmp₂, hloop, heq⟩ := Option.bind_eq_some_iff.mp hstep
    cases heq
    obtain ⟨child, hchild, hleft, hright⟩ := childLoop_sound crypto hcurve key index hloop
    rw [slice_loadParent] at hchild
    have hrest := ih h
    rw [node_load_child crypto hcurve key hchild hleft hright] at hrest
    exact .cons hchild hrest

omit hcurve in
theorem childLoop_mono (h : childLoop crypto n key index fuel tmp = some tmp')
    (hle : fuel ≤ fuel') : childLoop crypto n key index fuel' tmp = some tmp' := by
  induction fuel generalizing fuel' tmp with
  | zero => cases h
  | succ fuel ih =>
    obtain ⟨fuel', rfl⟩ := Nat.exists_eq_add_of_le' (Nat.le_trans (Nat.le_add_left 1 fuel) hle)
    have hle : fuel ≤ fuel' := Nat.le_of_succ_le_succ hle
    rw [childLoop] at h ⊢
    simp only at h ⊢
    split at h
    · rename_i hlt
      rw [if_pos hlt]
      split at h
      · rename_i hzero
        rwa [if_pos hzero]
      · rename_i hzero
        rw [if_neg hzero]
        exact ih h hle
    · rename_i hlt
      rw [if_neg hlt]
      exact ih h hle

omit hcurve in
theorem foldlM_mono {path : List UInt32}
    (h : path.foldlM (hdwBip32Step crypto curve fuel) s = some s') (hle : fuel ≤ fuel') :
    path.foldlM (hdwBip32Step crypto curve fuel') s = some s' := by
  induction path generalizing s with
  | nil => exact h
  | cons index path ih =>
    rw [List.foldlM_cons] at h ⊢
    obtain ⟨next, hstep, h⟩ := Option.bind_eq_some_iff.mp h
    obtain ⟨tmp', hloop, heq⟩ := Option.bind_eq_some_iff.mp hstep
    refine Option.bind_eq_some_iff.mpr ⟨next, ?_, ih h⟩
    exact Option.bind_eq_some_iff.mpr ⟨tmp', childLoop_mono crypto hloop hle, heq⟩

theorem hdwBip32_complete (hkey : key.node = parent)
    (h : Standard.Derives crypto.hmacSha512 (fromBE (domainN curve)) (crypto.multiply curve) parent
      path node) :
    ∃ fuel key' tmp', path.foldlM (hdwBip32Step crypto curve fuel) (key, tmp) = some (key', tmp') ∧
      key'.node = node := by
  induction h generalizing key tmp with
  | nil => exact ⟨0, key, tmp, rfl, hkey⟩
  | @cons parent index child path node hchild _ ih =>
    subst hkey
    obtain ⟨fuel, tmp₁, hloop, hleft, hright⟩ := childLoop_complete crypto hcurve key index hchild
      (slice_loadParent crypto curve key index tmp)
    obtain ⟨fuel', key', tmp', hrest, hnode⟩ : ∃ fuel' key' tmp',
        path.foldlM (hdwBip32Step crypto curve fuel') (key.load tmp₁, tmp₁) = some (key', tmp') ∧
          key'.node = node :=
      ih (node_load_child crypto hcurve key hchild hleft hright)
    refine ⟨max fuel fuel', key', tmp', ?_, hnode⟩
    have hstep : hdwBip32Step crypto curve (max fuel fuel') (key, tmp) index =
        some (key.load tmp₁, tmp₁) :=
      Option.bind_eq_some_iff.mpr
        ⟨tmp₁, childLoop_mono crypto hloop (Nat.le_max_left _ _), rfl⟩
    rw [List.foldlM_cons]
    exact Option.bind_eq_some_iff.mpr
      ⟨_, hstep, foldlM_mono crypto hrest (Nat.le_max_right _ _)⟩

omit hcurve in
theorem expandLoop_mono (h : expandLoop crypto curve sk fuel key buffer = some key')
    (hle : fuel ≤ fuel') : expandLoop crypto curve sk fuel' key buffer = some key' := by
  induction fuel generalizing fuel' key buffer with
  | zero => cases h
  | succ fuel ih =>
    obtain ⟨fuel', rfl⟩ := Nat.exists_eq_add_of_le' (Nat.le_trans (Nat.le_add_left 1 fuel) hle)
    have hle : fuel ≤ fuel' := Nat.le_of_succ_le_succ hle
    rw [expandLoop] at h ⊢
    split at h
    · rename_i hretry
      rw [if_pos hretry]
      exact ih h hle
    · rename_i hvalid
      rwa [if_neg hvalid]

end

-- ---------------------------------------------------------------------------
-- Derivation from a seed
-- ---------------------------------------------------------------------------

/-- `expand_seed` followed by `hdw_bip32`. -/
def deriveNode (crypto : Crypto) (curve : Curve) (sk seed : Bytes) (path : List UInt32)
    (key : ExtendedPrivateKey) (hash tmp : Region) (fuel : Nat) : Option HdwResult := do
  let key ← expandSeed crypto curve sk seed key hash fuel
  hdwBip32 crypto key curve path tmp fuel

/-- The standard derives this node from the seed. -/
def Standard.DerivesFrom (crypto : Crypto) (curve : Curve) (sk seed : Bytes) (path : List UInt32)
    (node : Standard.Node) : Prop :=
  ∃ master, Standard.Master crypto.hmacSha512 (fromBE (domainN curve)) sk seed master ∧
    Standard.Derives crypto.hmacSha512 (fromBE (domainN curve)) (crypto.multiply curve) master path
      node

theorem hdwBip32_eq (crypto : Crypto) (hcurve : curve ∈ [.secp256k1, .secp256r1])
    (key : ExtendedPrivateKey) (path : List UInt32) (tmp : Region) (fuel : Nat) :
    hdwBip32 crypto key curve path tmp fuel =
      (path.foldlM (hdwBip32Step crypto curve fuel) (key, tmp)).map fun s =>
        .derived (Standard.ser256 s.1.node.k) s.1.node.c := by
  have hne : ¬ (curve ≠ .secp256k1 ∧ curve ≠ .secp256r1) := by
    simp only [List.mem_cons, List.not_mem_nil, or_false] at hcurve
    rcases hcurve with rfl | rfl
    · simp
    · simp
  rw [hdwBip32, if_neg hne]
  simp only [slice_privateKey]
  cases path.foldlM (hdwBip32Step crypto curve fuel) (key, tmp) with
  | none => rfl
  | some s => rfl

theorem deriveNode_iff (crypto : Crypto) (hcurve : curve ∈ [.secp256k1, .secp256r1])
    (sk seed : Bytes) (path : List UInt32) (key : ExtendedPrivateKey) (hash tmp : Region)
    (result : HdwResult) :
    (∃ fuel, deriveNode crypto curve sk seed path key hash tmp fuel = some result) ↔
      ∃ node, Standard.DerivesFrom crypto curve sk seed path node ∧
        result = .derived (Standard.ser256 node.k) node.c := by
  have hholds := holds_load key hash (crypto.length_hmacSha512 sk seed)
  constructor
  · rintro ⟨fuel, h⟩
    obtain ⟨master, hmaster, h⟩ := Option.bind_eq_some_iff.mp h
    rw [hdwBip32_eq crypto hcurve] at h
    obtain ⟨⟨key', tmp'⟩, hfold, rfl⟩ := Option.map_eq_some_iff.mp h
    exact ⟨key'.node, ⟨master.node, expandLoop_sound crypto hcurve hholds hmaster,
      hdwBip32_sound crypto hcurve hfold⟩, rfl⟩
  · rintro ⟨node, ⟨master, hmaster, hderives⟩, rfl⟩
    obtain ⟨fuel, key₁, hexpand, hkey₁⟩ := expandLoop_complete crypto hcurve hholds hmaster
    obtain ⟨fuel', key₂, tmp₂, hfold, rfl⟩ := hdwBip32_complete crypto hcurve hkey₁ hderives
    refine ⟨max fuel fuel', Option.bind_eq_some_iff.mpr ⟨key₁, ?_, ?_⟩⟩
    · exact expandLoop_mono crypto hexpand (Nat.le_max_left _ _)
    · rw [hdwBip32_eq crypto hcurve]
      exact Option.map_eq_some_iff.mpr
        ⟨_, foldlM_mono crypto hfold (Nat.le_max_right _ _), rfl⟩

/-- The derivation ends where the standard's does, with its key, and after the
seed and every index of the path the key is in range. -/
theorem deriveNode_standard (crypto : Crypto) (curve : Curve)
    (hcurve : curve ∈ [.secp256k1, .secp256r1]) (sk seed : Bytes) (path : List UInt32)
    (key : ExtendedPrivateKey) (hash tmp : Region) :
    (∀ result, (∃ fuel, deriveNode crypto curve sk seed path key hash tmp fuel = some result) ↔
      ∃ node, Standard.DerivesFrom crypto curve sk seed path node ∧
        result = .derived (Standard.ser256 node.k) node.c) ∧
    ∀ fuel start privateKey chain, start <+: path →
      deriveNode crypto curve sk seed start key hash tmp fuel = some (.derived privateKey chain) →
      0 < fromBE privateKey ∧ fromBE privateKey < fromBE (domainN curve) := by
  refine ⟨deriveNode_iff crypto hcurve sk seed path key hash tmp, ?_⟩
  intro fuel start privateKey chain _ h
  obtain ⟨node, ⟨master, hmaster, hderives⟩, heq⟩ :=
    (deriveNode_iff crypto hcurve sk seed start key hash tmp _).mp ⟨fuel, h⟩
  have hkey : privateKey = Standard.ser256 node.k := (HdwResult.derived.inj heq).1
  have hrange := hderives.inRange (domainN_pos hcurve) hmaster.inRange
  have hn := fromBE_lt (domainN curve)
  rw [length_domainN hcurve] at hn
  rw [hkey, Standard.ser256, fromBE_toBE_of_lt (Nat.lt_trans hrange.2 hn)]
  exact hrange

/-- The hashes of the first test vector of BIP32, up to its first child. -/
def testVector : Crypto where
  hmacSha512 key data :=
    if key = bip32SecpSeed ∧ data = toBE 16 0x000102030405060708090a0b0c0d0e0f then
      toBE 32 0xe8f32e723decf4051aefac8e2c93c9c5b214313817cdb01a1494b917c8436b35 ++
        toBE 32 0x873dff81c02f525623fd1fe5167eac3a55a049de3d314bb42ee227ffed37d508
    else if key = toBE 32 0x873dff81c02f525623fd1fe5167eac3a55a049de3d314bb42ee227ffed37d508 ∧
        data = 0x00 :: toBE 32 0xe8f32e723decf4051aefac8e2c93c9c5b214313817cdb01a1494b917c8436b35 ++
          toBE 4 0x80000000 then
      toBE 32 0x04bfb2dd60fa8921c2a4085ec15507a921f49cdc839f27f0f280e9c1495d44b5 ++
        toBE 32 0x47fdacbd0f1097043b78c63c20c34ef4ed9a111d980047ad16282c7ae6236141
    else List.replicate 64 0
  hmacSha256 _ _ := List.replicate 32 0
  multiply _ _ := (0, 0)
  edwardsPoint _ := List.replicate 32 0
  length_hmacSha512 key data := by
    split
    · simp
    · split
      · simp
      · simp
  length_hmacSha256 _ _ := rfl
  length_edwardsPoint _ := rfl

theorem deriveNode_testVector :
    ∃ fuel, deriveNode testVector .secp256k1 bip32SecpSeed
      (toBE 16 0x000102030405060708090a0b0c0d0e0f) [0x80000000] ⟨.zeroed, .zeroed⟩ .zeroed .zeroed
      fuel = some (.derived
        (toBE 32 0xedb2e14f9ee77d26dd93b4ecede8d16ed408ce149b6cd80b0715a2d911a0afea)
        (toBE 32 0x47fdacbd0f1097043b78c63c20c34ef4ed9a111d980047ad16282c7ae6236141)) := by
  refine ((deriveNode_standard testVector .secp256k1 (by decide) bip32SecpSeed
    (toBE 16 0x000102030405060708090a0b0c0d0e0f) [0x80000000] ⟨.zeroed, .zeroed⟩ .zeroed
    .zeroed).1 _).mpr ⟨_, ⟨_, .valid (by decide), .cons (.valid ?_) .nil⟩, ?_⟩
  · exact ⟨by decide, by decide⟩
  · exact congrArg₂ HdwResult.derived (by decide) (by decide)

end Speculos.Bip32
