import Speculos.Bip32.HdwBip32

/-!
# Derivation over Ed25519 follows the standard

Every step of the derivation has the bytes of the node that the standard
derives, and the left half of the key never exceeds its 32 bytes: it starts
below `2 ^ 254 + 2 ^ 253` and a step adds less than `2 ^ 227` to it.
-/

namespace Speculos.Bip32

open Lib

-- ---------------------------------------------------------------------------
-- The parts of a step
-- ---------------------------------------------------------------------------

theorem slice_be2le_le2be (r : Region) (base : Nat) :
    (be2le (le2be r base 32) base 32).slice 0 64 = r.slice 0 64 := by
  rw [Region.slice_eq_iff]
  exact fun i _ => cell_be2le_be2le r base 32 (0 + i)

theorem publicKeyEd25519_spec (crypto : Crypto) (kP : Region) :
    (publicKeyEd25519 crypto kP).1.slice 0 64 = kP.slice 0 64 ∧
      (publicKeyEd25519 crypto kP).2 = crypto.edwardsPoint (kP.slice 0 32).reverse := by
  refine ⟨slice_be2le_le2be kP 0, ?_⟩
  rw [publicKeyEd25519]
  simp only [le2be, slice_be2le _ _ (show 32 % 2 = 0 from rfl)]

theorem slice_loadIndexLE (tmp : Region) (len : Nat) (index : UInt32) :
    (loadIndexLE tmp len index).slice 0 (len + 4) =
      tmp.slice 0 len ++ Standard.Ed25519.ser32 index := by
  have hbytes : [index.toUInt8, (index >>> 8).toUInt8, (index >>> 16).toUInt8,
      (index >>> 24).toUInt8] = Standard.Ed25519.ser32 index :=
    congrArg List.reverse (index_bytes index)
  rw [loadIndexLE, hbytes, Region.slice_add,
    Region.slice_memcpy_of_disjoint _ _ _ _ _ _ (.inl (by omega)), Nat.zero_add,
    Region.slice_memcpy_eq _ _ _ (Standard.Ed25519.length_ser32 _)]

theorem slice_memcpy_cxMathAdd (tmp : Region) (base : Nat) (b : Bytes) :
    (tmp.memcpy base (cxMathAdd (tmp.slice base 32) b 32).1 32).slice base 32 =
      toBE 32 (fromBE (tmp.slice base 32) + fromBE b) := by
  rw [cxMathAdd_fst _ _ (by decide), Region.slice_memcpy_eq _ _ _ (length_toBE 32 _)]

theorem fromBE_double (tmp : Region) (hv : fromBE (tmp.slice 1 32) = v) (hlt : 2 * v < 256 ^ 32) :
    fromBE ((tmp.memcpy 1 (cxMathAdd (tmp.slice 1 32) (tmp.slice 1 32) 32).1 32).slice 1 32) =
      2 * v := by
  rw [slice_memcpy_cxMathAdd, hv, ← Nat.two_mul, fromBE_toBE_of_lt hlt]

theorem fromBE_truncated (tmp : Region) :
    fromBE (((le2be tmp 1 32).memset 1 0 4).slice 1 32) = fromLE ((tmp.slice 1 32).take 28) := by
  have hdrop : (le2be tmp 1 32).slice 5 28 = ((tmp.slice 1 32).take 28).reverse := by
    have hall : (le2be tmp 1 32).slice 1 (4 + 28) = (tmp.slice 1 32).reverse :=
      slice_be2le tmp 1 rfl
    rw [Region.slice_add] at hall
    have hrest := congrArg (List.drop 4) hall
    rw [List.drop_left' (Region.length_slice ..), List.drop_reverse, Region.length_slice] at hrest
    exact hrest
  rw [show 32 = 4 + 28 from rfl, Region.slice_add,
    Region.slice_memset_self _ _ _ _ _ _ (Nat.le_refl _) (Nat.le_refl _),
    Region.slice_memset_of_disjoint _ _ _ _ _ _ (.inr (by decide)), hdrop, fromBE_append,
    fromBE_replicate_zero, Nat.zero_mul, Nat.zero_add]
  rfl

theorem slice_addLeft (tmp kP : Region) :
    (addLeft tmp kP).1.slice 1 32 =
      toLE 32 (8 * fromLE ((tmp.slice 1 32).take 28) + fromLE (kP.slice 0 32)) := by
  have hv := fromBE_truncated tmp
  have hlt := fromLE_lt ((tmp.slice 1 32).take 28)
  rw [List.length_take, Region.length_slice, show min 28 32 = 28 from rfl] at hlt
  generalize fromLE ((tmp.slice 1 32).take 28) = v at hv hlt ⊢
  simp only [addLeft]
  generalize (le2be tmp 1 32).memset 1 0 4 = t₁ at hv ⊢
  have hv₂ := fromBE_double t₁ hv (by omega)
  generalize t₁.memcpy 1 (cxMathAdd (t₁.slice 1 32) (t₁.slice 1 32) 32).1 32 = t₂ at hv₂ ⊢
  have hv₃ := fromBE_double t₂ hv₂ (by omega)
  generalize t₂.memcpy 1 (cxMathAdd (t₂.slice 1 32) (t₂.slice 1 32) 32).1 32 = t₃ at hv₃ ⊢
  have hv₄ := fromBE_double t₃ hv₃ (by omega)
  generalize t₃.memcpy 1 (cxMathAdd (t₃.slice 1 32) (t₃.slice 1 32) 32).1 32 = t₄ at hv₄ ⊢
  rw [slice_be2le _ _ rfl, slice_memcpy_cxMathAdd, hv₄, le2be, slice_be2le _ _ rfl,
    show 2 * (2 * (2 * v)) = 8 * v by omega]
  rfl

theorem addLeft_frame (tmp kP : Region) :
    (addLeft tmp kP).1.slice 33 32 = tmp.slice 33 32 ∧
      (addLeft tmp kP).2.slice 0 64 = kP.slice 0 64 := by
  refine ⟨?_, slice_be2le_le2be kP 0⟩
  simp only [addLeft]
  rw [slice_be2le_of_disjoint _ (.inr (by decide)),
    Region.slice_memcpy_of_disjoint _ _ _ _ _ _ (.inr (by decide)),
    Region.slice_memcpy_of_disjoint _ _ _ _ _ _ (.inr (by decide)),
    Region.slice_memcpy_of_disjoint _ _ _ _ _ _ (.inr (by decide)),
    Region.slice_memcpy_of_disjoint _ _ _ _ _ _ (.inr (by decide)),
    Region.slice_memset_of_disjoint _ _ _ _ _ _ (.inr (by decide)), le2be,
    slice_be2le_of_disjoint _ (.inr (by decide))]

theorem addRight_spec (tmp kP : Region) :
    (addRight tmp kP).1.slice 33 32 =
        toLE 32 (fromLE (tmp.slice 33 32) + fromLE (kP.slice 32 32)) ∧
      (addRight tmp kP).1.slice 1 32 = tmp.slice 1 32 ∧
      (addRight tmp kP).2.slice 0 64 = kP.slice 0 64 := by
  refine ⟨?_, ?_, slice_be2le_le2be kP 32⟩
  · simp only [addRight]
    rw [slice_be2le _ _ rfl, slice_memcpy_cxMathAdd, le2be, le2be, slice_be2le _ _ rfl,
      slice_be2le _ _ rfl]
    rfl
  · simp only [addRight]
    rw [slice_be2le_of_disjoint _ (.inl (by decide)),
      Region.slice_memcpy_of_disjoint _ _ _ _ _ _ (.inl (by decide)), le2be,
      slice_be2le_of_disjoint _ (.inl (by decide))]

theorem cell_exchange (tmp kP : Region) (n i : Nat) :
    (exchange tmp kP n).1.cell i =
        (if 1 ≤ i ∧ i < 1 + n then kP.cell (i - 1) else tmp.cell i) ∧
      (exchange tmp kP n).2.cell i = if i < n then tmp.cell (1 + i) else kP.cell i := by
  induction n generalizing i with
  | zero => exact ⟨by rw [exchange, if_neg (by omega)], by rw [exchange, if_neg (by omega)]⟩
  | succ n ih =>
    simp only [exchange, Region.cell_store]
    constructor
    · by_cases hi : i = 1 + n
      · rw [if_pos hi, (ih n).2, if_neg (by omega), if_pos (by omega), hi, Nat.add_sub_cancel_left]
      · rw [if_neg hi, (ih i).1]
        by_cases hin : 1 ≤ i ∧ i < 1 + n
        · rw [if_pos hin, if_pos (by omega)]
        · rw [if_neg hin, if_neg (by omega)]
    · by_cases hi : i = n
      · rw [if_pos hi, (ih (1 + n)).1, if_neg (by omega), if_pos (by omega), hi]
      · rw [if_neg hi, (ih i).2]
        by_cases hin : i < n
        · rw [if_pos hin, if_pos (by omega)]
        · rw [if_neg hin, if_neg (by omega)]

theorem slice_exchange (tmp kP : Region) (n : Nat) :
    (exchange tmp kP n).1.slice 1 n = kP.slice 0 n ∧
      (exchange tmp kP n).2.slice 0 n = tmp.slice 1 n := by
  constructor
  · apply List.ext_getElem
    · simp
    · intro i hi _
      rw [Region.length_slice] at hi
      rw [Region.getElem_slice, Region.getElem_slice, (cell_exchange tmp kP n _).1,
        if_pos (by omega), Nat.add_sub_cancel_left, Nat.zero_add]
  · apply List.ext_getElem
    · simp
    · intro i hi _
      rw [Region.length_slice] at hi
      rw [Region.getElem_slice, Region.getElem_slice, (cell_exchange tmp kP n _).2,
        if_pos (by omega), Nat.zero_add]

-- ---------------------------------------------------------------------------
-- A step
-- ---------------------------------------------------------------------------

theorem slice_halves {r : Region} (h : r.slice base 64 = left ++ right) (hleft : left.length = 32) :
    r.slice base 32 = left ∧ r.slice (base + 32) 32 = right := by
  rw [show 64 = 32 + 32 from rfl, Region.slice_add] at h
  exact List.append_inj h (by rw [Region.length_slice, hleft])

/-- The key has the bytes of the node. -/
structure Represents (key : ExtendedPrivateKey) (node : Standard.Ed25519.Node) : Prop where
  privateKey : key.privateKey.slice 0 64 = node.k
  chainCode : key.chainCode.slice 0 32 = node.c
  kL_lt : node.kL < 2 ^ 256
  kR_lt : node.kR < 2 ^ 256

theorem Represents.kL (h : Represents key node) :
    key.privateKey.slice 0 32 = toLE 32 node.kL :=
  (slice_halves h.privateKey (length_toLE 32 _)).1

theorem slice_data (tmp : Region) (tag : UInt8) (body : Bytes) (index : UInt32)
    (h : body.length = n) :
    (loadIndexLE ((tmp.store 0 tag).memcpy 1 body n) (1 + n) index).slice 0 (1 + n + 4) =
      tag :: body ++ Standard.Ed25519.ser32 index := by
  rw [slice_loadIndexLE, Region.slice_add,
    Region.slice_memcpy_of_disjoint _ _ _ _ _ _ (.inl (by omega)), Region.slice_store_self,
    Nat.zero_add, Region.slice_memcpy_eq _ _ _ h, List.singleton_append]

section
variable (crypto : Crypto) {chainCode kP : Region} {node : Standard.Ed25519.Node} {a : Bytes}
  (hchain : chainCode.slice 0 32 = node.c) (ha : a = crypto.edwardsPoint (toBE 32 node.kL))
  (index : UInt32) (tmp : Region)
include hchain ha

theorem slice_firstHash (hkP : kP.slice 0 64 = node.k) :
    (firstHash crypto chainCode kP a index tmp).slice 1 64 = crypto.hmacSha512 node.c
      (Standard.Ed25519.hashData crypto.edwardsPoint node index 0x00 0x02) := by
  have hlen : a.length = 32 := by rw [ha, crypto.length_edwardsPoint]
  have hk : node.k.length = 64 := by rw [← hkP, Region.length_slice]
  rw [firstHash, Standard.Ed25519.hashData, hchain, hkP, ← ha]
  by_cases hhard : Standard.Hardened index
  · have hbool := (isHardenedChild_iff index).mpr hhard
    simp only [hbool, not_true_eq_false, if_false, if_pos hhard]
    rw [Region.slice_memcpy_eq _ _ _ (crypto.length_hmacSha512 _ _), slice_data _ _ _ _ hk]
  · have hbool := mt (isHardenedChild_iff index).mp hhard
    simp only [hbool, Bool.false_eq_true, not_false_eq_true, if_true, if_neg hhard]
    rw [Region.slice_memcpy_eq _ _ _ (crypto.length_hmacSha512 _ _), slice_data _ _ _ _ hlen]

theorem slice_secondHash (htmp : tmp.slice 1 64 = node.k) :
    (secondHash crypto chainCode a index tmp).slice 32 32 = (crypto.hmacSha512 node.c
      (Standard.Ed25519.hashData crypto.edwardsPoint node index 0x01 0x03)).drop 32 := by
  have hlen : a.length = 32 := by rw [ha, crypto.length_edwardsPoint]
  rw [secondHash, Standard.Ed25519.hashData, hchain, ← ha]
  by_cases hhard : Standard.Hardened index
  · have hbool := (isHardenedChild_iff index).mpr hhard
    have hdata : (loadIndexLE (tmp.store 0 0x01) (1 + 64) index).slice 0 (1 + 64 + 4) =
        0x01 :: node.k ++ Standard.Ed25519.ser32 index := by
      rw [slice_loadIndexLE, Region.slice_add, Region.slice_store_self,
        Region.slice_store_of_disjoint _ _ _ _ _ (.inr (by decide)), Nat.zero_add, htmp,
        List.singleton_append]
    simp only [hbool, not_true_eq_false, if_false, if_pos hhard]
    rw [hdata, (slice_memcpy_halves _ _ (crypto.length_hmacSha512 _ _)).2]
  · have hbool := mt (isHardenedChild_iff index).mp hhard
    simp only [hbool, Bool.false_eq_true, not_false_eq_true, if_true, if_neg hhard]
    rw [slice_data _ _ _ _ hlen, (slice_memcpy_halves _ _ (crypto.length_hmacSha512 _ _)).2]

end

theorem k_ckd (crypto : Crypto) (node : Standard.Ed25519.Node) (index : UInt32) :
    let z := crypto.hmacSha512 node.c
      (Standard.Ed25519.hashData crypto.edwardsPoint node index 0x00 0x02)
    (Standard.Ed25519.ckd crypto.hmacSha512 crypto.edwardsPoint node index).k =
      toLE 32 (8 * fromLE (z.take 28) + node.kL) ++ toLE 32 (fromLE (z.drop 32) + node.kR) := by
  intro z
  rw [← toLE_mod 32 (fromLE (z.drop 32) + node.kR), show 256 ^ 32 = 2 ^ 256 by norm_num]
  rfl

/-- A step has the bytes of the child. -/
theorem hdwBip32Ed25519Step_spec (crypto : Crypto) (key : ExtendedPrivateKey) (tmp : Region)
    (index : UInt32) (h : Represents key node) :
    let next := hdwBip32Ed25519Step crypto (key, tmp) index
    let node' := Standard.Ed25519.ckd crypto.hmacSha512 crypto.edwardsPoint node index
    next.1.privateKey.slice 0 64 = node'.k ∧ next.1.chainCode.slice 0 32 = node'.c := by
  intro next node'
  obtain ⟨hkP, ha⟩ := publicKeyEd25519_spec crypto key.privateKey
  rw [h.privateKey] at hkP
  rw [h.kL, toLE, List.reverse_reverse] at ha
  have hnext : next = hdwBip32Ed25519Step crypto (key, tmp) index := rfl
  simp only [hdwBip32Ed25519Step] at hnext
  generalize (publicKeyEd25519 crypto key.privateKey).1 = kP at hkP hnext
  generalize (publicKeyEd25519 crypto key.privateKey).2 = a at ha hnext
  have hZ := slice_firstHash crypto h.chainCode ha index tmp hkP
  generalize firstHash crypto key.chainCode kP a index tmp = t₁ at hZ hnext
  have hleft := slice_addLeft t₁ kP
  obtain ⟨hframe, hkP₁⟩ := addLeft_frame t₁ kP
  generalize (addLeft t₁ kP).1 = t₂ at hleft hframe hnext
  generalize (addLeft t₁ kP).2 = kP₁ at hkP₁ hnext
  obtain ⟨hright, hframe', hkP₂⟩ := addRight_spec t₂ kP₁
  generalize (addRight t₂ kP₁).1 = t₃ at hright hframe' hnext
  generalize (addRight t₂ kP₁).2 = kP₂ at hkP₂ hnext
  obtain ⟨hold, hnew⟩ := slice_exchange t₃ kP₂ 64
  generalize (exchange t₃ kP₂ 64).1 = t₄ at hold hnext
  generalize (exchange t₃ kP₂ 64).2 = kP₃ at hnew hnext
  rw [hkP₂, hkP₁, hkP] at hold
  have hchain := slice_secondHash crypto h.chainCode ha index t₄ hold
  rw [hnext]
  refine ⟨?_, ?_⟩
  · obtain ⟨hkL, hkR⟩ := slice_halves hkP (length_toLE 32 _)
    have hhalves := hZ.trans (List.take_append_drop 32 _).symm
    obtain ⟨hZL, hZR⟩ := slice_halves hhalves (by simp [crypto.length_hmacSha512])
    obtain ⟨-, hkR₁⟩ := slice_halves (hkP₁.trans hkP) (length_toLE 32 _)
    rw [hkL, fromLE_toLE_of_lt h.kL_lt, hZL, List.take_take, Nat.min_eq_left (by decide)] at hleft
    rw [hframe, hZR, hkR₁, fromLE_toLE_of_lt h.kR_lt] at hright
    show kP₃.slice 0 64 = _
    rw [hnew, show 64 = 32 + 32 from rfl, Region.slice_add, hframe', hleft, hright, k_ckd]
  · show (key.chainCode.memcpy 0 _ 32).slice 0 32 = _
    rw [Region.slice_memcpy_eq _ _ _ (Region.length_slice ..), hchain]
    rfl

-- ---------------------------------------------------------------------------
-- The path
-- ---------------------------------------------------------------------------

/-- What holds of a node that is `m` steps below the master. -/
structure Bounded (m : Nat) (node : Standard.Ed25519.Node) : Prop where
  kL_lt : node.kL < 2 ^ 254 + 2 ^ 253 + m * 2 ^ 227
  kL_dvd : 8 ∣ node.kL
  kR_lt : node.kR < 2 ^ 256

theorem Bounded.kL_lt_pow (h : Bounded m node) (hm : m ≤ 2 ^ 26) : node.kL < 2 ^ 256 := by
  have hlt := h.kL_lt
  omega

theorem Bounded.ckd (crypto : Crypto) (index : UInt32) (h : Bounded m node) :
    Bounded (m + 1)
      (Standard.Ed25519.ckd crypto.hmacSha512 crypto.edwardsPoint node index) := by
  generalize hz : crypto.hmacSha512 node.c
    (Standard.Ed25519.hashData crypto.edwardsPoint node index 0x00 0x02) = z
  have hlt := fromLE_lt (z.take 28)
  rw [List.length_take, ← hz, crypto.length_hmacSha512, hz, Nat.min_eq_left (by decide)] at hlt
  have hkL := h.kL_lt
  simp only [Standard.Ed25519.ckd, hz]
  refine ⟨?_, ?_, Nat.mod_lt _ (by decide)⟩
  · show 8 * fromLE (z.take 28) + node.kL < _
    omega
  · exact Nat.dvd_add (Nat.dvd_mul_right 8 _) h.kL_dvd

/-- The steps of the code are those of the standard, on a path of any start. -/
theorem foldl_hdwBip32Ed25519Step (crypto : Crypto) (path : List UInt32) (tmp : Region)
    (h : Represents key node) (hbound : Bounded m node) (hm : m + path.length ≤ 2 ^ 26) :
    let node' := path.foldl (Standard.Ed25519.ckd crypto.hmacSha512 crypto.edwardsPoint) node
    Represents (path.foldl (hdwBip32Ed25519Step crypto) (key, tmp)).1 node' ∧
      Bounded (m + path.length) node' := by
  induction path generalizing key node tmp m with
  | nil => exact ⟨h, hbound⟩
  | cons index path ih =>
    rw [List.length_cons] at hm ⊢
    have hnext := hbound.ckd crypto index
    obtain ⟨hk, hc⟩ := hdwBip32Ed25519Step_spec crypto key tmp index h
    have hrep : Represents (hdwBip32Ed25519Step crypto (key, tmp) index).1
        (Standard.Ed25519.ckd crypto.hmacSha512 crypto.edwardsPoint node index) :=
      ⟨hk, hc, hnext.kL_lt_pow (by omega), hnext.kR_lt⟩
    have hrest := ih (hdwBip32Ed25519Step crypto (key, tmp) index).2 hrep hnext (by omega)
    rwa [show m + 1 + path.length = m + (path.length + 1) by omega] at hrest

-- ---------------------------------------------------------------------------
-- The master key
-- ---------------------------------------------------------------------------

theorem fromLE_left (r : Region) :
    ∃ mid, mid < 256 ^ 30 ∧ ∀ (first last : UInt8),
      fromLE (first :: r.slice 1 30 ++ [last]) = last.toNat * 256 ^ 31 + mid * 256 +
        first.toNat := by
  refine ⟨fromLE (r.slice 1 30), ?_, fun first last => ?_⟩
  · have hlt := fromLE_lt (r.slice 1 30)
    rwa [Region.length_slice] at hlt
  · rw [fromLE, fromLE, List.reverse_append, List.reverse_singleton, List.singleton_append,
      List.reverse_cons, fromBE_cons, fromBE_concat, List.length_append, List.length_reverse,
      Region.length_slice, List.length_singleton, Nat.add_assoc]

theorem slice_left (r : Region) : r.slice 0 32 = r.cell 0 :: r.slice 1 30 ++ [r.cell 31] := by
  rw [show 32 = 1 + (30 + 1) from rfl, Region.slice_add, Region.slice_add, Region.slice_one,
    Region.slice_one]
  rfl

theorem bit_253 (r : Region) :
    r.cell 31 &&& 0x20 ≠ 0 ↔ fromLE (r.slice 0 32) / 2 ^ 253 % 2 ≠ 0 := by
  obtain ⟨mid, hmid, hleft⟩ := fromLE_left r
  have hbit : ∀ n < 256, UInt8.ofNat n &&& 0x20 ≠ 0 ↔ n / 32 % 2 ≠ 0 := by decide +kernel
  have h0 := (r.cell 0).toNat_lt
  have h := hbit _ (r.cell 31).toNat_lt
  rw [UInt8.ofNat_toNat] at h
  rw [h, slice_left, hleft]
  omega

theorem clamped_bytes (b : UInt8) :
    (b &&& 0xF8).toNat = b.toNat / 8 * 8 ∧ (b &&& 0x7F ||| 0x40).toNat = 64 + b.toNat % 64 := by
  have hall : ∀ n < 256, (UInt8.ofNat n &&& 0xF8).toNat = n / 8 * 8 ∧
      (UInt8.ofNat n &&& 0x7F ||| 0x40).toNat = 64 + n % 64 := by decide +kernel
  have h := hall b.toNat b.toNat_lt
  rwa [UInt8.ofNat_toNat] at h

theorem slice_clampEd25519 (r : Region) :
    (clampEd25519 r).slice 0 32 = toLE 32 (Standard.Ed25519.clamp (fromLE (r.slice 0 32))) ∧
      (clampEd25519 r).slice 32 32 = r.slice 32 32 := by
  have hslice : ∀ off n, 31 + 1 ≤ off ∨ 0 + 1 ≤ off ∧ off + n ≤ 31 →
      (clampEd25519 r).slice off n = r.slice off n := by
    intro off n h
    rw [clampEd25519, Region.slice_store_of_disjoint _ _ _ _ _ (by omega),
      Region.slice_store_of_disjoint _ _ _ _ _ (by omega)]
  refine ⟨?_, hslice 32 32 (.inl (by decide))⟩
  obtain ⟨mid, hmid, hleft⟩ := fromLE_left r
  have hcell : (clampEd25519 r).cell 0 = r.cell 0 &&& 0xF8 ∧
      (clampEd25519 r).cell 31 = r.cell 31 &&& 0x7F ||| 0x40 := by
    simp [clampEd25519, Region.cell_store]
  have hvalue : fromLE ((clampEd25519 r).slice 0 32) =
      Standard.Ed25519.clamp (fromLE (r.slice 0 32)) := by
    have h0 := (r.cell 0).toNat_lt
    rw [slice_left, hslice 1 30 (.inr (by decide)), hcell.1, hcell.2, hleft, slice_left, hleft,
      (clamped_bytes _).1, (clamped_bytes _).2, Standard.Ed25519.clamp]
    omega
  have hbytes := toLE_fromLE ((clampEd25519 r).slice 0 32)
  rwa [Region.length_slice, hvalue, eq_comm] at hbytes

section
variable (crypto : Crypto) {sk : Bytes}

/-- One turn of `expand_seed_ed25519_bip32` on a hash. -/
theorem expandEd25519Loop_turn {r : Region} (h : r.slice 0 64 = crypto.hmacSha512 sk data)
    (fuel : Nat) :
    expandEd25519Loop crypto sk (fuel + 1) r =
      if fromLE ((crypto.hmacSha512 sk data).take 32) / 2 ^ 253 % 2 ≠ 0 then
        expandEd25519Loop crypto sk fuel
          (r.memcpy 0 (crypto.hmacSha512 sk (crypto.hmacSha512 sk data)) 64)
      else some r := by
  rw [expandEd25519Loop, ← h, Region.take_slice _ _ _ _ (by decide)]
  simp only [bit_253]

theorem expandEd25519Loop_sound {r : Region} (hr : r.slice 0 64 = crypto.hmacSha512 sk data)
    (h : expandEd25519Loop crypto sk fuel r = some r') :
    Standard.Ed25519.Expands crypto.hmacSha512 sk data (r'.slice 0 64) := by
  induction fuel generalizing r data with
  | zero => cases h
  | succ fuel ih =>
    rw [expandEd25519Loop_turn crypto hr] at h
    by_cases hbit : fromLE ((crypto.hmacSha512 sk data).take 32) / 2 ^ 253 % 2 = 0
    · rw [if_neg (not_not.mpr hbit)] at h
      cases h
      rw [hr]
      exact .valid hbit
    · rw [if_pos hbit] at h
      exact .retry hbit (ih (Region.slice_memcpy_eq _ _ _ (crypto.length_hmacSha512 _ _)) h)

theorem expandEd25519Loop_complete {r : Region} (hr : r.slice 0 64 = crypto.hmacSha512 sk data)
    (h : Standard.Ed25519.Expands crypto.hmacSha512 sk data k) :
    ∃ fuel r', expandEd25519Loop crypto sk fuel r = some r' ∧ r'.slice 0 64 = k := by
  induction h generalizing r with
  | valid hbit =>
    refine ⟨1, r, ?_, hr⟩
    rw [expandEd25519Loop_turn crypto hr, if_neg (not_not.mpr hbit)]
  | retry hbit _ ih =>
    obtain ⟨fuel, r', hloop, hk⟩ :=
      ih (Region.slice_memcpy_eq r 0 _ (crypto.length_hmacSha512 _ _))
    refine ⟨fuel + 1, r', ?_, hk⟩
    rw [expandEd25519Loop_turn crypto hr, if_pos hbit, hloop]

theorem expands_bit (h : Standard.Ed25519.Expands crypto.hmacSha512 sk data k) :
    fromLE (k.take 32) / 2 ^ 253 % 2 = 0 ∧ k.length = 64 := by
  induction h with
  | valid hbit => exact ⟨hbit, crypto.length_hmacSha512 _ _⟩
  | retry _ _ ih => exact ih

def masterNode (sk seed k : Bytes) : Standard.Ed25519.Node :=
  ⟨Standard.Ed25519.clamp (fromLE (k.take 32)), fromLE (k.drop 32),
    crypto.hmacSha256 sk (0x01 :: seed)⟩

theorem bounded_masterNode (h : Standard.Ed25519.Expands crypto.hmacSha512 sk seed k) :
    Bounded 0 (masterNode crypto sk seed k) := by
  obtain ⟨hbit, hlen⟩ := expands_bit crypto h
  have hkR := fromLE_lt (k.drop 32)
  rw [List.length_drop, hlen] at hkR
  refine ⟨?_, ?_, hkR⟩
  · show 2 ^ 254 + fromLE (k.take 32) % 2 ^ 254 / 8 * 8 < _
    omega
  · show 8 ∣ 2 ^ 254 + fromLE (k.take 32) % 2 ^ 254 / 8 * 8
    omega

theorem represents_masterNode (key : ExtendedPrivateKey) (buf : Region)
    {r : Region} (h : Standard.Ed25519.Expands crypto.hmacSha512 sk seed (r.slice 0 64)) :
    Represents ⟨clampEd25519 r, key.chainCode.memcpy 0 (crypto.hmacSha256 sk
        (((buf.store 0 0x01).memcpy 1 seed seed.length).slice 0 (1 + seed.length))) 32⟩
      (masterNode crypto sk seed (r.slice 0 64)) := by
  have hbound := bounded_masterNode crypto h
  obtain ⟨hleft, hright⟩ := slice_clampEd25519 r
  refine ⟨?_, ?_, hbound.kL_lt_pow (Nat.zero_le _), hbound.kR_lt⟩
  · have hrest := toLE_fromLE (r.slice 32 32)
    have hdrop : (r.slice 0 64).drop 32 = r.slice 32 32 := by
      rw [show 64 = 32 + 32 from rfl, Region.slice_add, List.drop_left' (Region.length_slice ..)]
    rw [Region.length_slice] at hrest
    show (clampEd25519 r).slice 0 (32 + 32) = _
    rw [Region.slice_add, hleft, hright, Standard.Ed25519.Node.k, masterNode, hdrop, hrest,
      Region.take_slice _ _ _ _ (by decide)]
  · show (key.chainCode.memcpy 0 _ 32).slice 0 32 = _
    rw [Region.slice_memcpy_eq _ _ _ (crypto.length_hmacSha256 _ _), Region.slice_add,
      Region.slice_memcpy_of_disjoint _ _ _ _ _ _ (.inl (by decide)), Region.slice_store_self,
      Nat.zero_add, Region.slice_memcpy_eq _ _ _ rfl]
    rfl

end

-- ---------------------------------------------------------------------------
-- Derivation from a seed
-- ---------------------------------------------------------------------------

/-- The node that the standard derives from the master. -/
def Standard.Ed25519.derive (crypto : Crypto) (master : Standard.Ed25519.Node)
    (path : List UInt32) : Standard.Ed25519.Node :=
  path.foldl (Standard.Ed25519.ckd crypto.hmacSha512 crypto.edwardsPoint) master

theorem hdwBip32Ed25519_eq (crypto : Crypto) (path : List UInt32) (tmp : Region)
    (h : Represents key master) (hbound : Bounded 0 master) (hpath : path.length ≤ 2 ^ 26) :
    hdwBip32Ed25519 crypto key path tmp =
      .derived (Standard.Ed25519.derive crypto master path).k
        (Standard.Ed25519.derive crypto master path).c := by
  obtain ⟨hrep, -⟩ := foldl_hdwBip32Ed25519Step crypto path tmp h hbound (by omega)
  exact congrArg₂ HdwResult.derived hrep.privateKey hrep.chainCode

/-- The derivation ends where the standard's does, with its key, and after the
seed and every index of the path the left half of the key is a multiple of 8 that
fits its bytes. -/
theorem deriveNodeEd25519_standard (crypto : Crypto) (sk seed : Bytes) (path : List UInt32)
    (hpath : path.length ≤ 2 ^ 26) (key : ExtendedPrivateKey) (buf tmp : Region) :
    (∀ result,
      (∃ fuel, deriveNodeEd25519 crypto sk seed path key buf tmp fuel = some result) ↔
        ∃ master,
          Standard.Ed25519.Master crypto.hmacSha512 crypto.hmacSha256 sk seed master ∧
          result = .derived (Standard.Ed25519.derive crypto master path).k
            (Standard.Ed25519.derive crypto master path).c) ∧
    ∀ master start, Standard.Ed25519.Master crypto.hmacSha512 crypto.hmacSha256 sk seed master →
      start <+: path →
      8 ∣ (Standard.Ed25519.derive crypto master start).kL ∧
        (Standard.Ed25519.derive crypto master start).kL < 2 ^ 256 := by
  have hhash : (key.privateKey.memcpy 0 (crypto.hmacSha512 sk seed) 64).slice 0 64 =
      crypto.hmacSha512 sk seed := Region.slice_memcpy_eq _ _ _ (crypto.length_hmacSha512 _ _)
  refine ⟨fun result => ⟨?_, ?_⟩, ?_⟩
  · rintro ⟨fuel, h⟩
    obtain ⟨key', hexpand, h⟩ := Option.bind_eq_some_iff.mp h
    obtain ⟨r, hloop, hkey'⟩ := Option.bind_eq_some_iff.mp hexpand
    have hexpands := expandEd25519Loop_sound crypto hhash hloop
    have hrep := represents_masterNode crypto key buf hexpands
    rw [← Option.some.inj h, ← Option.some.inj hkey',
      hdwBip32Ed25519_eq crypto path tmp hrep (bounded_masterNode crypto hexpands) hpath]
    exact ⟨_, ⟨_, hexpands, rfl⟩, rfl⟩
  · rintro ⟨_, ⟨k, hexpands, rfl⟩, rfl⟩
    obtain ⟨fuel, r, hloop, rfl⟩ := expandEd25519Loop_complete crypto hhash hexpands
    have hrep := represents_masterNode crypto key buf hexpands
    refine ⟨fuel, Option.bind_eq_some_iff.mpr
      ⟨_, Option.bind_eq_some_iff.mpr ⟨r, hloop, rfl⟩, ?_⟩⟩
    rw [hdwBip32Ed25519_eq crypto path tmp hrep (bounded_masterNode crypto hexpands) hpath]
    rfl
  · rintro _ start ⟨k, hexpands, rfl⟩ hstart
    have hlen := hstart.length_le
    obtain ⟨fuel, r, -, rfl⟩ := expandEd25519Loop_complete crypto hhash hexpands
    have hrep := represents_masterNode crypto key buf hexpands
    obtain ⟨-, hbound⟩ := foldl_hdwBip32Ed25519Step crypto start tmp hrep
      (bounded_masterNode crypto hexpands) (by omega)
    exact ⟨hbound.kL_dvd, hbound.kL_lt_pow (by omega)⟩

/-- The hashes of a seed whose first hash has bit 253 set, up to its first child. -/
def edHmacSha512 (key data : Bytes) : Bytes :=
  if key = bip32EdSeed then
    if data = List.replicate 16 0x01 then
      toBE 32 0x8caf54188c5baab7c5e6b930368e8dae6dd47fdc6cd3cdf9852cafa20a0f8322 ++
        toBE 32 0x7aaae1cf467530e800672c28f7f812c504d940f6ab657ca4e3886fe1042ce2f9
    else
      toBE 32 0x588588dd2c81ab8537f855ecbecd83dfbc0676f707b770e9487bcebef9f456d2 ++
        toBE 32 0xdddfc9b180baef059758b86ce93227e76734451497c0210f7fc387360fb8bfc5
  else if data.head? = some 0x00 then
    toBE 32 0x343cefbff1b6e173d2f8928f30d91fc2acf31ccbe79dc7eec9c9bcb22aa523bd ++
      toBE 32 0x31a46d53ba9af5ee22e1000c956b70fd41605adfdce765560872e6909e71067b
  else
    toBE 32 0x82f0371d8c350a4da529bc13543d8b6b1d6d9d81d2e9080c61f137bec4b918f3 ++
      toBE 32 0xfbb07678f4085d97cb7dd6ba7a1df329ba46df0738edc637e45d503ba1116417

theorem length_edHmacSha512 (key data : Bytes) : (edHmacSha512 key data).length = 64 := by
  rw [edHmacSha512]
  split
  · split
    · simp
    · simp
  · split
    · simp
    · simp

def edTestVector : Crypto where
  hmacSha512 := edHmacSha512
  hmacSha256 _ _ := toBE 32 0xbe372080319926c76dc776b92d6556608974f35674405ca87828e30b78bca4b8
  multiply _ _ := (0, 0)
  edwardsPoint _ := 0x01 :: List.replicate 31 0
  length_hmacSha512 := length_edHmacSha512
  length_hmacSha256 _ _ := length_toBE 32 _
  length_edwardsPoint _ := rfl

theorem deriveNodeEd25519_testVector :
    ∃ fuel, deriveNodeEd25519 edTestVector bip32EdSeed (List.replicate 16 0x01) [0x80000000]
      ⟨.zeroed, .zeroed⟩ .zeroed .zeroed fuel = some (.derived
        (toBE 32 0xf86602ddba38b924cbbeed68439782f022a45d5046a6ad5f98c9b454fff45652 ++
          toBE 32 0x0e8437053b55e5f4b939b9787e9e97e4a9949ff373a8876587356ec7ad29c640)
        (toBE 32 0xfbb07678f4085d97cb7dd6ba7a1df329ba46df0738edc637e45d503ba1116417)) := by
  refine ((deriveNodeEd25519_standard edTestVector bip32EdSeed (List.replicate 16 0x01)
    [0x80000000] (by decide) ⟨.zeroed, .zeroed⟩ .zeroed .zeroed).1 _).mpr
    ⟨_, ⟨_, .retry ?_ (.valid ?_), rfl⟩, ?_⟩
  · decide
  · decide
  · exact congrArg₂ HdwResult.derived (by decide) (by decide)

end Speculos.Bip32
