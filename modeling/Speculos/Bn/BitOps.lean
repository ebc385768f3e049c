import Speculos.Bn.Integers
import Speculos.Lib.Bytewise

/-!
# Bits of numbers

`cx_mpi_cmp` compares the bytes of numbers of one size. Of two sizes it says that the first number
is the smaller one, whichever of them is longer.

The functions that go over the bytes of numbers, and the shift that cuts its result, agree with
the integers where the bytes of every number fit the arrays.
-/

namespace Speculos.Bn

open Lib

variable {ssl : Openssl} {wordSize : UInt32} {x y : Nat}

/-- The first bytes that differ tell which number is larger. -/
theorem sign_memcmp (hlen : as.length = bs.length) :
    (memcmp as bs).sign = (fromBE as - fromBE bs : Int).sign := by
  induction as generalizing bs with
  | nil =>
    cases bs with
    | nil => rfl
    | cons b bs => cases hlen
  | cons a as ih =>
    cases bs with
    | nil => cases hlen
    | cons b bs =>
      have hlen' : as.length = bs.length := Nat.succ.inj hlen
      rw [memcmp]
      by_cases hab : a = b
      · subst hab
        have hdiff : (fromBE (a :: as) - fromBE (a :: bs) : Int) = fromBE as - fromBE bs := by
          rw [fromBE_cons, fromBE_cons, hlen']
          push_cast
          exact Int.add_sub_add_left ..
        rw [if_pos rfl, ih hlen', hdiff]
      · rw [if_neg hab]
        rcases Nat.lt_or_gt_of_ne (mt UInt8.toNat_inj.mp hab) with hlt | hgt
        · have hbytes := fromBE_cons_lt hlen' hlt
          rw [Int.sign_eq_neg_one_of_neg (by omega), Int.sign_eq_neg_one_of_neg (by omega)]
        · have hbytes := fromBE_cons_lt hlen'.symm hgt
          rw [Int.sign_eq_one_of_pos (by omega), Int.sign_eq_one_of_pos (by omega)]

/-- The comparison has the sign of the difference. -/
def Compares (ssl : Openssl) (wordSize : UInt32) (x y : Nat) : Prop :=
  (cxMpiCmp ssl wordSize x y).sign = (x - y : Int).sign

instance (ssl : Openssl) (wordSize : UInt32) (x y : Nat) : Decidable (Compares ssl wordSize x y) :=
  inferInstanceAs (Decidable (_ = _))

theorem compares_of_padded (hssl : ssl.Exact)
    (hlen : cxMpiNbytes ssl wordSize x = cxMpiNbytes ssl wordSize y) (hx : Padded ssl wordSize x)
    (hy : Padded ssl wordSize y) : Compares ssl wordSize x y := by
  have hbytes : (toBE (cxMpiNbytes ssl wordSize x).toNat x).length =
      (toBE (cxMpiNbytes ssl wordSize y).toNat y).length := by
    rw [length_toBE, length_toBE, hlen]
  rw [Compares, cxMpiCmp, hx.tooLong, hy.tooLong, Bool.or_false, if_neg Bool.false_ne_true,
    if_pos hlen, hx.bn2binpad hssl, hy.bn2binpad hssl]
  dsimp only
  rw [sign_memcmp hbytes, fromBE_toBE_of_lt hx.lt, fromBE_toBE_of_lt hy.lt]

/-- Of all others the first one is said to be smaller. -/
theorem cxMpiCmp_neg (hssl : ssl.Exact)
    (h : ¬ (cxMpiNbytes ssl wordSize x = cxMpiNbytes ssl wordSize y ∧ Padded ssl wordSize x ∧
      Padded ssl wordSize y)) : cxMpiCmp ssl wordSize x y < 0 := by
  rw [cxMpiCmp]
  split
  · decide
  · rename_i hlong
    rw [Bool.or_eq_true, not_or] at hlong
    split
    · rename_i hlen
      split
      · rename_i hx hy
        by_cases hpadded : Padded ssl wordSize x
        · have hnone := bn2binpad_none (fun hpad => h ⟨hlen, hpadded, hpad⟩) hssl hlong.2
          rw [hnone] at hy
          cases hy
        · rw [bn2binpad_none hpadded hssl hlong.1] at hx
          cases hx
      · decide
    · decide

/-- The comparison is that of the integers exactly where the first number is the smaller one, or
where both have one size, whose bytes hold them and fit the arrays. -/
theorem compares_iff (hssl : ssl.Exact) (wordSize : UInt32) (x y : Nat) :
    Compares ssl wordSize x y ↔
      x < y ∨ cxMpiNbytes ssl wordSize x = cxMpiNbytes ssl wordSize y ∧ Padded ssl wordSize x ∧
        Padded ssl wordSize y := by
  by_cases h : cxMpiNbytes ssl wordSize x = cxMpiNbytes ssl wordSize y ∧ Padded ssl wordSize x ∧
      Padded ssl wordSize y
  · exact iff_of_true (compares_of_padded hssl h.1 h.2.1 h.2.2) (.inr h)
  · have hneg := cxMpiCmp_neg hssl h
    rw [Compares, Int.sign_eq_neg_one_of_neg hneg, eq_comm, Int.sign_eq_neg_one_iff_neg]
    constructor
    · intro hlt
      exact .inl (by omega)
    · rintro (hlt | hsame)
      · omega
      · exact absurd hsame h

theorem compares_words : Compares .integers 16 5 3 :=
  (compares_iff exact_integers 16 5 3).mpr
    (.inr ⟨rfl, ⟨by decide, by decide⟩, ⟨by decide, by decide⟩⟩)

/-- 2^128 is said to be smaller than 1, and 1 smaller than 2^128. -/
theorem not_compares_words : ¬ Compares .integers 16 (2 ^ 128) 1 := by
  decide

end Speculos.Bn

-- ---------------------------------------------------------------------------
-- Bits of numbers
-- ---------------------------------------------------------------------------

namespace Speculos.Bn

open Lib

variable {ssl : Openssl} {wordSize : UInt32} {v : Slot → Nat} {r a b x : Slot}

-- ---------------------------------------------------------------------------
-- Two operands
-- ---------------------------------------------------------------------------

section

variable {op : UInt8 → UInt8 → UInt8} {opNat : Nat → Nat → Nat} {f : Bool → Bool → Bool}

theorem fromBE_combine (h : Bitwise op opNat f) (hlead : ∀ c, lead c = op c 0) (hm : m < 256 ^ len)
    (hn : n < 256 ^ len') : fromBE (combine op lead (toBE len m) (toBE len' n)) = opNat m n := by
  have hfun : lead = (op · 0) := funext hlead
  rw [combine]
  split
  · rename_i hge
    rw [hfun, h.fromBE_lead hge, fromBE_toBE_of_lt hm, fromBE_toBE_of_lt hn]
  · rename_i hlt
    rw [hfun, h.fromBE_lead (Nat.le_of_not_le hlt), fromBE_toBE_of_lt hm, fromBE_toBE_of_lt hn]
    exact h.comm n m

/-- The operation is that of the numbers exactly where both are padded. -/
theorem bitwise_iff (hssl : ssl.Exact) (h : Bitwise op opNat f) (hid : ∀ c, op c 0 = c)
    (wordSize : UInt32) (v : Slot → Nat) (r a b : Slot) :
    bitwise ssl wordSize op r a b (naturals v) =
        (.ok, naturals (Function.update v r (opNat (v a) (v b)))) ↔
      Padded ssl wordSize (v a) ∧ Padded ssl wordSize (v b) := by
  have hlead (c : UInt8) : id c = op c 0 := (hid c).symm
  rw [bitwise, naturals_apply, naturals_apply]
  rcases operand_cases hssl wordSize (v a) with ⟨hnot, hlong⟩ | ⟨hnot, hshort, hnone⟩ | ha
  · simp [hlong, hnot]
  · simp [hshort, hnone, hnot]
  · rcases operand_cases hssl wordSize (v b) with ⟨hnot, hlong⟩ | ⟨hnot, hshort, hnone⟩ | hb
    · simp [ha.tooLong, ha.bn2binpad hssl, hlong, hnot]
    · simp [ha.tooLong, ha.bn2binpad hssl, hshort, hnone, hnot]
    · simp [ha.tooLong, ha.bn2binpad hssl, hb.tooLong, hb.bn2binpad hssl, hssl.bin2bn,
        fromBE_combine h hlead ha.lt hb.lt, naturals_write, ha, hb]

end

theorem cxMpiAnd_iff (hssl : ssl.Exact) (wordSize : UInt32) (v : Slot → Nat) (r a b : Slot) :
    cxMpiAnd ssl wordSize r a b (naturals v) =
        some (.ok, naturals (Function.update v r (v a &&& v b))) ↔
      Padded ssl wordSize (v a) ∧ Padded ssl wordSize (v b) := by
  have hlead (c : UInt8) : 0 = c &&& 0 := UInt8.and_zero.symm
  rw [cxMpiAnd, naturals_apply, naturals_apply]
  rcases operand_cases hssl wordSize (v a) with ⟨hnot, hlong⟩ | ⟨hnot, hshort, hnone⟩ | ha
  · simp [hlong, hnot]
  · simp [hshort, hnone, hnot]
  · rcases operand_cases hssl wordSize (v b) with ⟨hnot, hlong⟩ | ⟨hnot, hshort, hnone⟩ | hb
    · simp [ha.tooLong, ha.bn2binpad hssl, hlong, hnot]
    · simp [ha.tooLong, ha.bn2binpad hssl, hshort, hnone, hnot]
    · simp [ha.tooLong, ha.bn2binpad hssl, hb.tooLong, hb.bn2binpad hssl, hssl.bin2bn,
        fromBE_combine bitwise_and hlead ha.lt hb.lt, naturals_write, ha, hb]

-- ---------------------------------------------------------------------------
-- One operand
-- ---------------------------------------------------------------------------

theorem export_of_padded (hssl : ssl.Exact) (h : Padded ssl wordSize n) (dstLen : UInt32) :
    cxMpiExport ssl wordSize n dstLen = .ok (toBE dstLen.toNat (n % 256 ^ dstLen.toNat)) := by
  rw [cxMpiExport, h.tooLong, if_neg Bool.false_ne_true, h.bn2binpad hssl]
  dsimp only
  split
  · rename_i hge
    have hle := UInt32.le_iff_toNat_le.mp hge
    have hdrop := drop_toBE dstLen.toNat ((cxMpiNbytes ssl wordSize n).toNat - dstLen.toNat) n
    rw [Nat.sub_add_cancel hle] at hdrop
    rw [UInt32.toNat_sub_of_le _ _ hge, hdrop, List.take_of_length_le (by simp), toBE_mod]
  · rename_i hlt
    have hle : cxMpiNbytes ssl wordSize n ≤ dstLen := UInt32.le_of_lt (UInt32.not_le.mp hlt)
    have hzeros := toBE_add_of_lt (dstLen.toNat - (cxMpiNbytes ssl wordSize n).toNat) h.lt
    rw [Nat.sub_add_cancel (UInt32.le_iff_toNat_le.mp hle)] at hzeros
    rw [UInt32.toNat_sub_of_le _ _ hle, ← hzeros, toBE_mod]

theorem cxMpiExport_iff (hssl : ssl.Exact) (wordSize : UInt32) (n : Nat) (dstLen : UInt32) :
    cxMpiExport ssl wordSize n dstLen = .ok (toBE dstLen.toNat (n % 256 ^ dstLen.toNat)) ↔
      Padded ssl wordSize n := by
  rcases operand_cases hssl wordSize n with ⟨hnot, hlong⟩ | ⟨hnot, hshort, hnone⟩ | h
  · simp [cxMpiExport, hlong, hnot]
  · simp [cxMpiExport, hshort, hnone, hnot]
  · exact iff_of_true (export_of_padded hssl h dstLen) h

theorem cxMpiCopy_iff (hssl : ssl.Exact) (wordSize : UInt32) (v : Slot → Nat) (dst src : Slot) :
    cxMpiCopy ssl wordSize dst src (naturals v) = (.ok, naturals (Function.update v dst (v src))) ↔
      dst = src ∨ Padded ssl wordSize (v src) := by
  by_cases hsame : dst = src
  · subst hsame
    simp [cxMpiCopy]
  · rw [cxMpiCopy, if_neg hsame, naturals_apply]
    rcases operand_cases hssl wordSize (v src) with ⟨hnot, hlong⟩ | ⟨hnot, hshort, hnone⟩ | h
    · simp [hlong, hnot, hsame]
    · simp [cxMpiExport, hshort, hnone, hnot, hsame]
    · simp [h.tooLong, export_of_padded hssl h, hssl.bin2bn, fromBE_toBE, Nat.mod_eq_of_lt h.lt,
        naturals_write, h]

-- ---------------------------------------------------------------------------
-- Shift
-- ---------------------------------------------------------------------------

theorem byteLength_shift_le (m k : Nat) : byteLength (m * 2 ^ k) ≤ byteLength m + k / 8 + 1 := by
  apply byteLength_le
  have hm := lt_pow_byteLength m
  have hk : 2 ^ k < 256 ^ (k / 8 + 1) := by
    rw [show 256 = 2 ^ 8 from rfl, ← Nat.pow_mul]
    exact Nat.pow_lt_pow_right (by decide) (by omega)
  rw [Nat.add_assoc, Nat.pow_add]
  exact Nat.mul_lt_mul'' hm hk

variable {m : Nat} {n w : UInt32}

theorem shifted_lt (hssl : ssl.Exact) (hm : byteLength m ≤ 2048)
    (hlt : m < 256 ^ (cxMpiNbytes ssl (sizeToMpiBytes w) m).toNat)
    (hn : n.toNat ≤ 8 * (cxMpiNbytes ssl (sizeToMpiBytes w) m).toNat)
    (hle : cxMpiNbytes ssl (sizeToMpiBytes w) (m * 2 ^ n.toNat : Nat) ≤
      cxMpiNbytes ssl (sizeToMpiBytes w) m) :
    m * 2 ^ n.toNat < 256 ^ (cxMpiNbytes ssl (sizeToMpiBytes w) m).toNat := by
  have hlen := byteLength_shift_le m n.toNat
  have hmax := n.toNat_lt
  have hword := (sizeToMpiBytes w).toNat_lt
  rw [UInt32.le_iff_toNat_le, toNat_cxMpiNbytes hssl w (by omega),
    toNat_cxMpiNbytes hssl w (by omega)]
    at hle
  rw [toNat_cxMpiNbytes hssl w (by omega)] at hlt hn ⊢
  rw [← byteLength_le_iff] at hlt ⊢
  rcases wordBytes_cases (byteLength (m * 2 ^ n.toNat)) (sizeToMpiBytes_pos w) with
    ⟨hround, -⟩ | ⟨hwrap, -⟩
  · exact Nat.le_trans (le_roundedBytes _) (Nat.le_trans hround hle)
  · -- the words are almost as long as 32 bits can tell
    rcases wordBytes_cases (byteLength m) (sizeToMpiBytes_pos w) with ⟨-, hone⟩ | ⟨-, hzero⟩
    · rw [roundedBytes] at hwrap
      omega
    · rw [hzero, Nat.mul_zero, Nat.le_zero] at hn
      rwa [hn, Nat.pow_zero, Nat.mul_one]

theorem cxMpiShl_eq (hssl : ssl.Exact) (hn : n ≤ cxMpiNbytes ssl wordSize (v x) * 8) :
    cxMpiShl ssl wordSize x n (naturals v) =
      if tooLong ssl wordSize (v x * 2 ^ n.toNat : Nat) then
        (.invalidParameter, naturals (Function.update v x (v x * 2 ^ n.toNat)))
      else if cxMpiNbytes ssl wordSize (v x * 2 ^ n.toNat : Nat) > cxMpiNbytes ssl wordSize (v x) ∧
          UInt32.ofNat (byteLength (v x * 2 ^ n.toNat)) > cxMpiNbytes ssl wordSize (v x) then
        (.ok, naturals (Function.update v x (fromBE ((toBE (byteLength (v x * 2 ^ n.toNat))
          (v x * 2 ^ n.toNat)).drop
            (byteLength (v x * 2 ^ n.toNat) - (cxMpiNbytes ssl wordSize (v x)).toNat)))))
      else (.ok, naturals (Function.update v x (v x * 2 ^ n.toNat))) := by
  rw [cxMpiShl, naturals_apply]
  dsimp only
  rw [if_neg (UInt32.not_lt.mpr hn), hssl.lshift]
  simp only [Written.done, not_true_eq_false, if_false, set_self, hssl.bn2bin, length_toBE,
    hssl.bin2bn, naturals_set]
  have hwrite (k : Nat) : (naturals (Function.update v x (v x * 2 ^ n.toNat))).write x (.done k) =
      (.ok, naturals (Function.update v x k)) := by
    rw [naturals_write, Function.update_idem]
  rw [← hwrite (fromBE _)]
  rfl

theorem cxMpiShl_of_fits (hssl : ssl.Exact) (hm : byteLength (v x) ≤ 2048)
    (hlt : v x < 256 ^ (cxMpiNbytes ssl (sizeToMpiBytes w) (v x)).toNat)
    (hn : n ≤ cxMpiNbytes ssl (sizeToMpiBytes w) (v x) * 8)
    (hbits : n.toNat ≤ 8 * (cxMpiNbytes ssl (sizeToMpiBytes w) (v x)).toNat)
    (hfits : (cxMpiNbytes ssl (sizeToMpiBytes w) (v x * 2 ^ n.toNat : Nat)).toNat ≤ 2048) :
    cxMpiShl ssl (sizeToMpiBytes w) x n (naturals v) =
      (.ok, naturals (Function.update v x
        (v x * 2 ^ n.toNat % 256 ^ (cxMpiNbytes ssl (sizeToMpiBytes w) (v x)).toNat))) := by
  have hlen : byteLength (v x * 2 ^ n.toNat) < 2 ^ 32 := by
    have hle := byteLength_shift_le (v x) n.toNat
    have hmax := n.toNat_lt
    omega
  have hshort : tooLong ssl (sizeToMpiBytes w) (v x * 2 ^ n.toNat : Nat) = false := by
    rw [Bool.eq_false_iff, ne_eq, tooLong_iff]
    exact Nat.not_lt.mpr hfits
  have hkeep : ¬ (cxMpiNbytes ssl (sizeToMpiBytes w) (v x * 2 ^ n.toNat : Nat) >
        cxMpiNbytes ssl (sizeToMpiBytes w) (v x) ∧
      UInt32.ofNat (byteLength (v x * 2 ^ n.toNat)) > cxMpiNbytes ssl (sizeToMpiBytes w) (v x)) →
      v x * 2 ^ n.toNat < 256 ^ (cxMpiNbytes ssl (sizeToMpiBytes w) (v x)).toNat := by
    intro hnot
    rcases UInt32.le_or_lt (cxMpiNbytes ssl (sizeToMpiBytes w) (v x * 2 ^ n.toNat : Nat))
      (cxMpiNbytes ssl (sizeToMpiBytes w) (v x)) with hle | hgt
    · exact shifted_lt hssl hm hlt hbits hle
    · rw [← byteLength_le_iff]
      have hle := UInt32.not_lt.mp fun h => hnot ⟨hgt, h⟩
      rwa [UInt32.le_iff_toNat_le, UInt32.toNat_ofNat_of_lt' hlen] at hle
  rw [cxMpiShl_eq hssl hn, hshort, if_neg Bool.false_ne_true]
  split
  · rename_i hlong
    have hcut : (cxMpiNbytes ssl (sizeToMpiBytes w) (v x)).toNat ≤
        byteLength (v x * 2 ^ n.toNat) := by
      have hle := UInt32.le_of_lt hlong.2
      rwa [UInt32.le_iff_toNat_le, UInt32.toNat_ofNat_of_lt' hlen] at hle
    have hdrop := drop_toBE (cxMpiNbytes ssl (sizeToMpiBytes w) (v x)).toNat
      (byteLength (v x * 2 ^ n.toNat) - (cxMpiNbytes ssl (sizeToMpiBytes w) (v x)).toNat)
      (v x * 2 ^ n.toNat)
    rw [Nat.sub_add_cancel hcut] at hdrop
    rw [hdrop, fromBE_toBE]
  · rename_i hnot
    rw [Nat.mod_eq_of_lt (hkeep hnot)]

/-- The shift is that of the integers, cut to the bytes of the number, where `n` is not above the
bits that the code counts, the bytes hold the number, and the shifted one fits the array. -/
theorem cxMpiShl_iff (hssl : ssl.Exact) (hm : byteLength (v x) ≤ 2048)
    (hbits : n.toNat ≤ 8 * (cxMpiNbytes ssl (sizeToMpiBytes w) (v x)).toNat) :
    cxMpiShl ssl (sizeToMpiBytes w) x n (naturals v) =
        (.ok, naturals (Function.update v x
          (v x * 2 ^ n.toNat % 256 ^ (cxMpiNbytes ssl (sizeToMpiBytes w) (v x)).toNat))) ↔
      n ≤ cxMpiNbytes ssl (sizeToMpiBytes w) (v x) * 8 ∧
        v x < 256 ^ (cxMpiNbytes ssl (sizeToMpiBytes w) (v x)).toNat ∧
        (cxMpiNbytes ssl (sizeToMpiBytes w) (v x * 2 ^ n.toNat : Nat)).toNat ≤ 2048 := by
  refine ⟨fun heq => ?_, fun ⟨hn, hlt, hfits⟩ => cxMpiShl_of_fits hssl hm hlt hn hbits hfits⟩
  have hn : n ≤ cxMpiNbytes ssl (sizeToMpiBytes w) (v x) * 8 := by
    by_contra hgt
    simp [cxMpiShl, UInt32.not_le.mp hgt] at heq
  have hfits : (cxMpiNbytes ssl (sizeToMpiBytes w) (v x * 2 ^ n.toNat : Nat)).toNat ≤ 2048 := by
    by_contra hlong
    rw [cxMpiShl_eq hssl hn, if_pos ((tooLong_iff _).mpr (Nat.not_le.mp hlong))] at heq
    cases congrArg Prod.fst heq
  refine ⟨hn, ?_, hfits⟩
  rcases nbytes_cases hssl w (n := v x) (by omega) with ⟨hlt, -⟩ | ⟨hzero, -⟩
  · exact hlt
  · -- nothing is shifted, and nothing is cut
    rw [hzero, Nat.mul_zero, Nat.le_zero] at hbits
    have hnumber : cxMpiNbytes ssl (sizeToMpiBytes w) (v x) = 0 := UInt32.toNat_inj.mp hzero
    have hshort : ¬ tooLong ssl (sizeToMpiBytes w) (v x) = true := by
      rw [tooLong_iff, hzero]
      decide
    rw [cxMpiShl_eq hssl hn, hbits, Nat.pow_zero, Nat.mul_one, if_neg hshort, hnumber,
      if_neg fun h => UInt32.not_lt_zero h.1] at heq
    have hvalue := congrFun (naturals_injective (congrArg Prod.snd heq)) x
    rw [Function.update_self, Function.update_self] at hvalue
    rw [hnumber, hvalue]
    exact Nat.mod_lt _ (Nat.pow_pos (by decide))

-- ---------------------------------------------------------------------------
-- Operations
-- ---------------------------------------------------------------------------

inductive BitOp where
  | xor (r a b : Slot)
  | or (r a b : Slot)
  | and (r a b : Slot)
  | shl (x : Slot) (n : UInt32)
  | exportTo (src : Slot) (dstLen : UInt32)
  | copy (dst src : Slot)

/-- The operation does to the numbers what it is there for. -/
def BitOp.Agrees (ssl : Openssl) (wordSize : UInt32) (v : Slot → Nat) : BitOp → Prop
  | .xor r a b => cxMpiXor ssl wordSize r a b (naturals v) =
      (.ok, naturals (Function.update v r (v a ^^^ v b)))
  | .or r a b => cxMpiOr ssl wordSize r a b (naturals v) =
      (.ok, naturals (Function.update v r (v a ||| v b)))
  | .and r a b => cxMpiAnd ssl wordSize r a b (naturals v) =
      some (.ok, naturals (Function.update v r (v a &&& v b)))
  | .shl x n =>
    let nbytes := (cxMpiNbytes ssl wordSize (v x)).toNat
    n.toNat ≤ 8 * nbytes → cxMpiShl ssl wordSize x n (naturals v) =
      (.ok, naturals (Function.update v x (v x * 2 ^ n.toNat % 256 ^ nbytes)))
  | .exportTo src dstLen =>
    cxMpiExport ssl wordSize (v src) dstLen = .ok (toBE dstLen.toNat (v src % 256 ^ dstLen.toNat))
  | .copy dst src => cxMpiCopy ssl wordSize dst src (naturals v) =
      (.ok, naturals (Function.update v dst (v src)))

/-- The arrays of the functions have room for the bytes. -/
def BitOp.Room (ssl : Openssl) (wordSize : UInt32) (v : Slot → Nat) : BitOp → Prop
  | .xor _ a b | .or _ a b | .and _ a b => Padded ssl wordSize (v a) ∧ Padded ssl wordSize (v b)
  | .shl x n =>
    let nbytes := cxMpiNbytes ssl wordSize (v x)
    n.toNat ≤ 8 * nbytes.toNat → n ≤ nbytes * 8 ∧ v x < 256 ^ nbytes.toNat ∧
      (cxMpiNbytes ssl wordSize (v x * 2 ^ n.toNat : Nat)).toNat ≤ 2048
  | .exportTo src _ => Padded ssl wordSize (v src)
  | .copy dst src => dst = src ∨ Padded ssl wordSize (v src)

/-- The operations agree with the integers exactly where the arrays have room. -/
theorem bitOp_agrees_iff (hssl : ssl.Exact) (w : UInt32) (v : Slot → Nat)
    (hv : ∀ i, byteLength (v i) ≤ 2048) (op : BitOp) :
    op.Agrees ssl (sizeToMpiBytes w) v ↔ op.Room ssl (sizeToMpiBytes w) v := by
  cases op with
  | xor r a b => exact bitwise_iff hssl bitwise_xor (fun _ => UInt8.xor_zero) _ v r a b
  | or r a b => exact bitwise_iff hssl bitwise_or (fun _ => UInt8.or_zero) _ v r a b
  | and r a b => exact cxMpiAnd_iff hssl _ v r a b
  | shl x n => exact forall_congr' fun hbits => cxMpiShl_iff hssl (hv x) hbits
  | exportTo src dstLen => exact cxMpiExport_iff hssl _ (v src) dstLen
  | copy dst src => exact cxMpiCopy_iff hssl _ v dst src

theorem agrees_words : (BitOp.xor 2 0 1).Agrees .integers (sizeToMpiBytes 16) fun i => i.val :=
  (bitOp_agrees_iff exact_integers 16 (fun i => i.val) (by decide) (.xor 2 0 1)).mpr
    ⟨⟨by decide, by decide⟩, ⟨by decide, by decide⟩⟩

/-- A number of 2048 bytes is shifted by one byte, but not cut. -/
theorem not_agrees_shl :
    ¬ (BitOp.shl 0 8).Agrees .integers (sizeToMpiBytes 16) fun _ => 256 ^ 2047 := by
  intro h
  have herror := congrArg Prod.fst (h (by decide +kernel))
  exact absurd herror (by decide +kernel)

end Speculos.Bn
