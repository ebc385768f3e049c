import Speculos.Hash.Sha2Block
import Speculos.Lib.Blake2
import Speculos.Lib.MachineInt

/-!
# BLAKE2b

The reference implementation that `cx_blake2b.c` contains, in words of 64 bits. A state holds
back the last block, also where it is whole, because only `spec_blake2b_final` tells
that nothing follows. The bytes are counted in two words.
-/

namespace Speculos.Hash

open Lib

-- ---------------------------------------------------------------------------
-- Words
-- ---------------------------------------------------------------------------

/-- `load64`, byte by byte. -/
def load64 (src : Bytes) : UInt64 :=
  let p i := (src.getD i 0).toUInt64
  (p 0 <<< 0) ||| (p 1 <<< 8) ||| (p 2 <<< 16) ||| (p 3 <<< 24) ||| (p 4 <<< 32) |||
    (p 5 <<< 40) ||| (p 6 <<< 48) ||| (p 7 <<< 56)

def store64 (w : UInt64) : Bytes :=
  [(w >>> 0).toUInt8, (w >>> 8).toUInt8, (w >>> 16).toUInt8, (w >>> 24).toUInt8,
   (w >>> 32).toUInt8, (w >>> 40).toUInt8, (w >>> 48).toUInt8, (w >>> 56).toUInt8]

def blake2bRotr64 (w c : UInt64) : UInt64 := (w >>> c) ||| (w <<< (64 - c))

abbrev blake2bStateWords : Nat := 8

abbrev blake2bBlockWords : Nat := 16

local instance neZero_stateWords : NeZero blake2bStateWords := ⟨by decide⟩

local instance neZero_blockWords : NeZero blake2bBlockWords := ⟨by decide⟩

def blake2bIV : Vector UInt64 blake2bStateWords :=
  ⟨#[0x6a09e667f3bcc908, 0xbb67ae8584caa73b, 0x3c6ef372fe94f82b, 0xa54ff53a5f1d36f1,
    0x510e527fade682d1, 0x9b05688c2b3e6c1f, 0x1f83d9abfb41bd6b, 0x5be0cd19137e2179], by decide⟩

def blake2bSigma : Vector (Vector (Fin blake2bBlockWords) blake2bBlockWords) 12 :=
  #v[#v[0, 1, 2, 3, 4, 5, 6, 7, 8, 9, 10, 11, 12, 13, 14, 15],
    #v[14, 10, 4, 8, 9, 15, 13, 6, 1, 12, 0, 2, 11, 7, 5, 3],
    #v[11, 8, 12, 0, 5, 2, 15, 13, 10, 14, 3, 6, 7, 1, 9, 4],
    #v[7, 9, 3, 1, 13, 12, 11, 14, 2, 6, 5, 10, 4, 0, 15, 8],
    #v[9, 0, 5, 7, 2, 4, 10, 15, 14, 1, 11, 12, 6, 8, 3, 13],
    #v[2, 12, 6, 10, 0, 11, 8, 3, 4, 13, 7, 5, 15, 14, 1, 9],
    #v[12, 5, 1, 15, 14, 13, 4, 10, 0, 7, 6, 3, 9, 2, 8, 11],
    #v[13, 11, 7, 14, 12, 1, 3, 9, 5, 0, 15, 4, 8, 6, 2, 10],
    #v[6, 15, 14, 9, 11, 3, 0, 8, 12, 2, 13, 7, 1, 4, 10, 5],
    #v[10, 2, 8, 4, 7, 6, 1, 5, 15, 11, 9, 14, 3, 12, 13, 0],
    #v[0, 1, 2, 3, 4, 5, 6, 7, 8, 9, 10, 11, 12, 13, 14, 15],
    #v[14, 10, 4, 8, 9, 15, 13, 6, 1, 12, 0, 2, 11, 7, 5, 3]]

-- ---------------------------------------------------------------------------
-- States
-- ---------------------------------------------------------------------------

/-- `struct blake2b_state__`, where the arrays `t` and `f` are two words each. -/
structure Blake2bState where
  h : Vector UInt64 blake2bStateWords
  t0 : UInt64
  t1 : UInt64
  f0 : UInt64
  f1 : UInt64
  buf : Bytes
  buflen : Nat
  outlen : Nat
  lastNode : Bool
  deriving DecidableEq

def blake2bIsLastblock (S : Blake2bState) : Bool := S.f0 ≠ 0

/-- All bits of `f[0]`, and of `f[1]` for the last node. -/
def blake2bSetLastblock (S : Blake2bState) : Blake2bState :=
  { S with
    f1 := if S.lastNode then -1 else S.f1
    f0 := -1 }

def blake2bIncrementCounter (S : Blake2bState) (inc : UInt64) : Blake2bState :=
  let t0 := S.t0 + inc
  { S with
    t0
    t1 := S.t1 + if t0 < inc then 1 else 0 }

theorem two_mul_add_lt (i : Fin blake2bStateWords) (hk : k < 2) :
    2 * i.val + k < blake2bBlockWords := by
  have hi : i.val < 8 := i.isLt
  show 2 * i.val + k < 16
  omega

/-- The macro `G`, where `a` to `d` are places in `v`. -/
def blake2bG (m : Vector UInt64 blake2bBlockWords) (r : Fin 12) (i : Fin blake2bStateWords)
    (a b c d : Fin blake2bBlockWords) (v : Vector UInt64 blake2bBlockWords) :
    Vector UInt64 blake2bBlockWords :=
  let s := blake2bSigma.get r
  let v := v.set a (v[a] + v[b] + m[s.get ⟨2 * i + 0, two_mul_add_lt i (by decide)⟩])
  let v := v.set d (blake2bRotr64 (v[d] ^^^ v[a]) 32)
  let v := v.set c (v[c] + v[d])
  let v := v.set b (blake2bRotr64 (v[b] ^^^ v[c]) 24)
  let v := v.set a (v[a] + v[b] + m[s.get ⟨2 * i + 1, two_mul_add_lt i (by decide)⟩])
  let v := v.set d (blake2bRotr64 (v[d] ^^^ v[a]) 16)
  let v := v.set c (v[c] + v[d])
  v.set b (blake2bRotr64 (v[b] ^^^ v[c]) 63)

/-- The body of the loop over `r`. -/
def blake2bRound (m v : Vector UInt64 blake2bBlockWords) (r : Fin 12) :
    Vector UInt64 blake2bBlockWords :=
  let v := (List.finRange 4).foldl (fun v (i : Fin 4) =>
    blake2bG m r (.ofNat 8 i) (.ofNat 16 i) (.ofNat 16 (4 + i)) (.ofNat 16 (8 + i))
      (.ofNat 16 (12 + i)) v) v
  (List.finRange 4).foldl (fun v (i : Fin 4) =>
    blake2bG m r (.ofNat 8 (4 + i)) (.ofNat 16 i) (.ofNat 16 (4 + ((i.val + 1) &&& 3)))
      (.ofNat 16 (8 + ((i.val + 2) &&& 3))) (.ofNat 16 (12 + ((i.val + 3) &&& 3))) v) v

def blake2bCompress (S : Blake2bState) (block : Bytes) : Blake2bState :=
  let m : Vector UInt64 blake2bBlockWords := .ofFn fun i => load64 (block.drop (i * 8))
  let v : Vector UInt64 blake2bBlockWords :=
    #v[S.h[0], S.h[1], S.h[2], S.h[3], S.h[4], S.h[5], S.h[6], S.h[7], blake2bIV[0], blake2bIV[1],
      blake2bIV[2], blake2bIV[3], blake2bIV[4] ^^^ S.t0, blake2bIV[5] ^^^ S.t1,
      blake2bIV[6] ^^^ S.f0, blake2bIV[7] ^^^ S.f1]
  let v := (List.finRange 12).foldl (blake2bRound m) v
  { S with h := .ofFn fun i => S.h[i] ^^^ v[i.val] ^^^ v.get ⟨i.val + 8, Nat.add_lt_add_right i.isLt 8⟩ }

-- ---------------------------------------------------------------------------
-- spec_blake2b_init, spec_blake2b_update, spec_blake2b_final
-- ---------------------------------------------------------------------------

/-- `blake2b_param`, as it is in memory; the fields that are always zero are left together. -/
structure Blake2bParam where
  digestLength : UInt8
  keyLength : UInt8
  fanout : UInt8
  depth : UInt8
  salt : Bytes
  personal : Bytes

def Blake2bParam.bytes (P : Blake2bParam) : Bytes :=
  [P.digestLength, P.keyLength, P.fanout, P.depth] ++ List.replicate 28 0 ++ P.salt ++ P.personal

def specBlake2bInitParam (P : Blake2bParam) : Blake2bState where
  h := .ofFn fun i => blake2bIV[i] ^^^ load64 (P.bytes.drop (8 * i))
  t0 := 0
  t1 := 0
  f0 := 0
  f1 := 0
  buf := List.replicate 128 0
  buflen := 0
  outlen := P.digestLength.toNat
  lastNode := false

/-- `salt` or `personal` of the parameters, where the pointer may be `NULL`. -/
def blake2bParamField : Option Bytes → Bytes
  | some src => overwrite (List.replicate 16 0) 0 src
  | none => List.replicate 16 0

def specBlake2bInit (outlen : Nat) (salt personal : Option Bytes) : Option Blake2bState :=
  if outlen = 0 ∨ outlen > 64 then none
  else
    some (specBlake2bInitParam {
      digestLength := UInt8.ofNat outlen
      keyLength := 0
      fanout := 1
      depth := 1
      salt := blake2bParamField salt
      personal := blake2bParamField personal })

def specBlake2bBlocks (S : Blake2bState) (inp : Bytes) : Blake2bState × Bytes :=
  if inp.length > 128 then
    specBlake2bBlocks (blake2bCompress (blake2bIncrementCounter S 128) (inp.take 128))
      (inp.drop 128)
  else (S, inp)
termination_by inp.length
decreasing_by
  rw [List.length_drop]
  omega

/-- "Fill buffer" and "Compress". -/
def blake2bFill (S : Blake2bState) (inp : Bytes) : Blake2bState :=
  let S := { S with buflen := 0, buf := overwrite S.buf S.buflen inp }
  let S := blake2bIncrementCounter S 128
  blake2bCompress S S.buf

def blake2bKeep (S : Blake2bState) (inp : Bytes) : Blake2bState :=
  { S with
    buf := overwrite S.buf S.buflen inp
    buflen := S.buflen + inp.length }

def specBlake2bUpdate (S : Blake2bState) (inp : Bytes) : Blake2bState :=
  if inp.length > 0 then
    let fill := 128 - S.buflen
    if inp.length > fill then
      let (S, inp) := specBlake2bBlocks (blake2bFill S (inp.take fill)) (inp.drop fill)
      blake2bKeep S inp
    else blake2bKeep S inp
  else S

def specBlake2bInitKey (outlen : Nat) (key : Bytes) : Option Blake2bState :=
  if outlen = 0 ∨ outlen > 64 then none
  else if key.length = 0 ∨ key.length > 64 then none
  else
    let S := specBlake2bInitParam {
      digestLength := UInt8.ofNat outlen
      keyLength := UInt8.ofNat key.length
      fanout := 1
      depth := 1
      salt := List.replicate 16 0
      personal := List.replicate 16 0 }
    some (specBlake2bUpdate S (overwrite (List.replicate 128 0) 0 key))

/-- The last block is marked, and there are zeros behind what is held back. -/
def blake2bPadded (S : Blake2bState) : Blake2bState :=
  let S := blake2bIncrementCounter S (UInt64.ofNat S.buflen)
  let S := blake2bSetLastblock S
  { S with buf := overwrite S.buf S.buflen (List.replicate (128 - S.buflen) 0) }

/-- The length of `out` is `none` where it is `NULL`; the bytes are what is copied there. There
is no result where the function returns -1. -/
def specBlake2bFinal (S : Blake2bState) (outlen : Option Nat) : Option Bytes × Blake2bState :=
  if outlen.any (· < S.outlen) then (none, S)
  else if blake2bIsLastblock S then (none, S)
  else
    let S := blake2bPadded S
    let S := blake2bCompress S S.buf
    let buffer := S.h.toList.flatMap store64
    (some (buffer.take S.outlen), { S with buf := overwrite S.buf 0 (buffer.take S.outlen) })

-- ---------------------------------------------------------------------------
-- Words as numbers
-- ---------------------------------------------------------------------------

theorem byte_shiftLeft (b : UInt8) {n : UInt64} {k : Nat} (hn : n.toNat = k) (hk : k ≤ 56) :
    (b.toUInt64 <<< n).toNat = b.toNat <<< k := by
  have hb := b.toNat_lt
  have hlt : b.toNat <<< k < 2 ^ 64 := by
    rw [Nat.shiftLeft_eq]
    calc b.toNat * 2 ^ k < 2 ^ 8 * 2 ^ k := Nat.mul_lt_mul_of_pos_right hb (Nat.two_pow_pos k)
      _ ≤ 2 ^ 8 * 2 ^ 56 := Nat.mul_le_mul_left _ (Nat.pow_le_pow_right (by decide) hk)
  rw [UInt64.toNat_shiftLeft, UInt8.toNat_toUInt64, hn, Nat.mod_eq_of_lt (a := k) (by omega),
    Nat.mod_eq_of_lt hlt]

theorem toNat_or_byte {w : UInt64} {bs : Bytes} (hw : w.toNat = fromLE bs) (b : UInt8) {n : UInt64}
    (hn : n.toNat = 8 * bs.length) (hlen : bs.length ≤ 7) :
    (w ||| (b.toUInt64 <<< n)).toNat = fromLE (bs ++ [b]) := by
  have hlt : fromLE bs < 2 ^ (8 * bs.length) := by
    rw [Nat.pow_mul]
    exact fromLE_lt bs
  rw [UInt64.toNat_or, hw, byte_shiftLeft b hn (by omega), or_shiftLeft_of_lt hlt, fromLE, fromLE,
    List.reverse_append, List.reverse_singleton, List.singleton_append, fromBE_cons,
    List.length_reverse, Nat.pow_mul, Nat.mul_comm, Nat.add_comm]

theorem load64_eq (src : Bytes) :
    load64 src = UInt64.ofNat (fromLE ((List.range 8).map fun j => src.getD j 0)) := by
  have hfirst : ((src.getD 0 0).toUInt64 <<< 0).toNat = fromLE [src.getD 0 0] := by
    rw [byte_shiftLeft _ (k := 0) rfl (by decide), fromLE_cons]
    rfl
  have hword : (load64 src).toNat = fromLE ((List.range 8).map fun j => src.getD j 0) := by
    refine toNat_or_byte (toNat_or_byte (toNat_or_byte (toNat_or_byte (toNat_or_byte (toNat_or_byte
      (toNat_or_byte hfirst _ ?_ ?_) _ ?_ ?_) _ ?_ ?_) _ ?_ ?_) _ ?_ ?_) _ ?_ ?_) _ ?_ ?_
    all_goals first | rfl | simp
  rw [← hword, UInt64.ofNat_toNat]

theorem toUInt8_shiftRight (w : UInt64) {n : UInt64} {k : Nat} (hn : n.toNat = k) (hk : k ≤ 56) :
    (w >>> n).toUInt8 = UInt8.ofNat (w.toNat / 2 ^ k) := by
  apply UInt8.toNat_inj.mp
  rw [UInt64.toNat_toUInt8, UInt64.toNat_shiftRight, hn, Nat.mod_eq_of_lt (a := k) (by omega),
    Nat.shiftRight_eq_div_pow, UInt8.toNat_ofNat']

theorem store64_eq (w : UInt64) : store64 w = toLE 8 w.toNat := by
  rw [store64, toUInt8_shiftRight w (n := 0) (k := 0) rfl (by decide),
    toUInt8_shiftRight w (n := 8) (k := 8) rfl (by decide),
    toUInt8_shiftRight w (n := 16) (k := 16) rfl (by decide),
    toUInt8_shiftRight w (n := 24) (k := 24) rfl (by decide),
    toUInt8_shiftRight w (n := 32) (k := 32) rfl (by decide),
    toUInt8_shiftRight w (n := 40) (k := 40) rfl (by decide),
    toUInt8_shiftRight w (n := 48) (k := 48) rfl (by decide),
    toUInt8_shiftRight w (n := 56) (k := 56) rfl (by decide)]
  simp only [toLE, toBE, List.nil_append, List.cons_append, List.reverse_cons, List.reverse_nil,
    Nat.div_div_eq_div_mul]
  rw [Nat.pow_zero, Nat.div_one]
  rfl

-- ---------------------------------------------------------------------------
-- The compression function
-- ---------------------------------------------------------------------------

theorem blake2bStateWords_pos : 0 < blake2bStateWords := by decide

def blake2bWords : Blake2.Words UInt64 where
  width := 8
  width_pos := blake2bStateWords_pos
  rounds := 12
  iv := blake2bIV
  rotr1 x := Fips180.rotr64 x 32
  rotr2 x := Fips180.rotr64 x 24
  rotr3 x := Fips180.rotr64 x 16
  rotr4 x := Fips180.rotr64 x 63
  ofNat := UInt64.ofNat
  toNat := UInt64.toNat

theorem blake2bG_eq (m : Vector UInt64 blake2bBlockWords) (r : Fin 12) (i : Fin blake2bStateWords)
    (a b c d : Fin blake2bBlockWords) (v : Vector UInt64 blake2bBlockWords) :
    blake2bG m r i a b c d v = Blake2.mix blake2bWords v a b c d
      m[(blake2bSigma.get r).get ⟨2 * i + 0, two_mul_add_lt i (by decide)⟩]
      m[(blake2bSigma.get r).get ⟨2 * i + 1, two_mul_add_lt i (by decide)⟩] := by
  have h32 (x : UInt64) : blake2bRotr64 x 32 = Fips180.rotr64 x 32 :=
    cxRotr64_eq x (n := 32) (by decide) (by decide)
  have h24 (x : UInt64) : blake2bRotr64 x 24 = Fips180.rotr64 x 24 :=
    cxRotr64_eq x (n := 24) (by decide) (by decide)
  have h16 (x : UInt64) : blake2bRotr64 x 16 = Fips180.rotr64 x 16 :=
    cxRotr64_eq x (n := 16) (by decide) (by decide)
  have h63 (x : UInt64) : blake2bRotr64 x 63 = Fips180.rotr64 x 63 :=
    cxRotr64_eq x (n := 63) (by decide) (by decide)
  simp only [blake2bG, h32, h24, h16, h63]
  rfl

theorem blake2bSigma_eq : ∀ r : Fin 12,
    blake2bSigma.get r = Blake2.sigma.get ⟨r.val % 10, Nat.mod_lt _ (by decide)⟩ := by
  decide

theorem blake2bRound_eq (m v : Vector UInt64 16) (r : Fin 12) :
    blake2bRound m v r = Blake2.round blake2bWords m v r := by
  have h4 : List.finRange 4 = [0, 1, 2, 3] := by decide
  rw [blake2bRound]
  simp only [h4, List.foldl_cons, List.foldl_nil]
  simp only [blake2bG_eq, blake2bSigma_eq]
  rw [Blake2.round]
  rfl

theorem blake2bWordAt (bs : Bytes) (k : Nat) :
    load64 (bs.drop (8 * k)) = Blake2.wordAt blake2bWords bs k := by
  rw [load64_eq]
  refine congrArg (fun l => UInt64.ofNat (fromLE l)) (List.map_congr_left fun j _ => ?_)
  rw [List.getD_eq_getElem?_getD, List.getD_eq_getElem?_getD, List.getElem?_drop]
  rfl

/-- The words `t` count `n` bytes. -/
def Blake2bState.Counts (S : Blake2bState) (n : Nat) : Prop :=
  S.t0 = UInt64.ofNat n ∧ S.t1 = UInt64.ofNat (n / 2 ^ 64)

theorem Blake2bState.Counts.increment (h : S.Counts n) {inc : UInt64} (hinc : inc.toNat = k) :
    (blake2bIncrementCounter S inc).Counts (n + k) := by
  obtain ⟨h0, h1⟩ := h
  have hk := inc.toNat_lt
  rw [hinc] at hk
  have hsum : S.t0 + inc = UInt64.ofNat (n + k) := by
    apply UInt64.toNat_inj.mp
    rw [h0, UInt64.toNat_add, UInt64.toNat_ofNat', UInt64.toNat_ofNat', hinc, Nat.mod_add_mod]
  refine ⟨hsum, ?_⟩
  show S.t1 + (if S.t0 + inc < inc then 1 else 0) = _
  have hwraps : UInt64.ofNat (n + k) < inc ↔ (n + k) % 2 ^ 64 < k := by
    rw [UInt64.lt_iff_toNat_lt, UInt64.toNat_ofNat', hinc]
  rw [hsum, h1]
  apply UInt64.toNat_inj.mp
  split
  · rename_i hlt
    have hlt := hwraps.mp hlt
    rw [UInt64.toNat_add, UInt64.toNat_ofNat', UInt64.toNat_ofNat', UInt64.toNat_one]
    omega
  · rename_i hge
    have hge := mt hwraps.mpr hge
    rw [UInt64.toNat_add, UInt64.toNat_ofNat', UInt64.toNat_ofNat', UInt64.toNat_zero]
    omega

theorem blake2bCompress_eq (S : Blake2bState) (block : Bytes) {t : Nat} (ht : S.Counts t)
    (last : Bool) (hf0 : S.f0 = if last then -1 else 0) (hf1 : S.f1 = 0) :
    blake2bCompress S block =
      { S with h := Blake2.compress blake2bWords S.h (Blake2.blockWords blake2bWords block 0) t last } := by
  have hm : (Vector.ofFn fun i : Fin 16 => load64 (block.drop (i * 8))) =
      Blake2.blockWords blake2bWords block 0 := by
    apply Vector.ext
    intro i hi
    rw [Vector.getElem_ofFn, Nat.mul_comm, blake2bWordAt, Blake2.blockWords, Vector.getElem_ofFn,
      Nat.mul_zero, Nat.zero_add]
  have hfold (m v : Vector UInt64 16) : (List.finRange 12).foldl (blake2bRound m) v =
      (List.range 12).foldl (Blake2.round blake2bWords m) v := by
    have hrange : List.range 12 = (List.finRange 12).map Fin.val := by decide
    rw [hrange, List.foldl_map]
    exact congrArg (fun f => (List.finRange 12).foldl f v)
      (funext fun v => funext fun r => blake2bRound_eq m v r)
  have hlast : S.f0 = UInt64.ofNat (if last then 256 ^ 8 - 1 else 0) := by
    rw [hf0]
    cases last <;> rfl
  rw [blake2bCompress, hm]
  simp only [hfold, ht.1, ht.2, hlast, hf1, UInt64.xor_zero]
  rfl

-- ---------------------------------------------------------------------------
-- What a state stands for
-- ---------------------------------------------------------------------------

/-- The blocks before the last one that are compressed, and how many bytes they have. -/
abbrev blake2bAbsorbed (h : Vector UInt64 8) (m : Bytes) : Vector UInt64 8 × Nat :=
  absorbInit (Blake2.absorbBlock blake2bWords) 128 (h, 0) m

/-- Between blocks, before the last one. -/
structure Blake2bState.At (S : Blake2bState) (s : Vector UInt64 8 × Nat) : Prop where
  h : S.h = s.1
  counts : S.Counts s.2
  f0 : S.f0 = 0
  f1 : S.f1 = 0

/-- The state behind the message `m`, from the chaining value `h`. -/
structure Blake2bState.Holds (S : Blake2bState) (h : Vector UInt64 8) (m : Bytes) : Prop where
  at_absorbed : S.At (blake2bAbsorbed h m)
  length_buf : S.buf.length = 128
  buflen : S.buflen = (lastBlock 128 m).length
  buf : S.buf.take S.buflen = lastBlock 128 m
  lastNode : S.lastNode = false

/-- Only the chaining value and the counter differ. -/
structure Blake2bState.SameBuffer (S S' : Blake2bState) : Prop where
  buf : S'.buf = S.buf
  buflen : S'.buflen = S.buflen
  outlen : S'.outlen = S.outlen
  lastNode : S'.lastNode = S.lastNode

section

variable {S S' S'' : Blake2bState} {s : Vector UInt64 8 × Nat} {h : Vector UInt64 8} {m inp : Bytes}

theorem Blake2bState.Holds.buflen_le (hS : S.Holds h m) : S.buflen ≤ 128 := by
  rw [hS.buflen]
  exact length_lastBlock_le (by decide) m

theorem Blake2bState.At.block (hS : S.At s) (block : Bytes) :
    (blake2bCompress (blake2bIncrementCounter S 128) block).At
        (Blake2.absorbBlock blake2bWords s block) ∧
      S.SameBuffer (blake2bCompress (blake2bIncrementCounter S 128) block) := by
  have hcounts := hS.counts.increment (show (128 : UInt64).toNat = 128 from rfl)
  rw [blake2bCompress_eq _ block hcounts false hS.f0 hS.f1]
  refine ⟨⟨?_, hcounts, hS.f0, hS.f1⟩, ⟨rfl, rfl, rfl, rfl⟩⟩
  show Blake2.compress blake2bWords S.h _ _ _ = _
  rw [hS.h]
  rfl

theorem Blake2bState.SameBuffer.trans (h : S.SameBuffer S') (h' : S'.SameBuffer S'') :
    S.SameBuffer S'' :=
  ⟨h'.buf.trans h.buf, h'.buflen.trans h.buflen, h'.outlen.trans h.outlen,
    h'.lastNode.trans h.lastNode⟩

theorem Blake2bState.At.blocks (hS : S.At s) (inp : Bytes) :
    (specBlake2bBlocks S inp).1.At (absorbInit (Blake2.absorbBlock blake2bWords) 128 s inp) ∧
      S.SameBuffer (specBlake2bBlocks S inp).1 ∧
      (specBlake2bBlocks S inp).2 = lastBlock 128 inp := by
  induction hlen : inp.length using Nat.strongRecOn generalizing S s inp with
  | _ len ih =>
  rw [specBlake2bBlocks]
  split
  · rename_i hgt
    have htake : (inp.take 128).length = 128 := by
      rw [List.length_take]
      omega
    have hdrop : 0 < (inp.drop 128).length := by
      rw [List.length_drop]
      omega
    obtain ⟨hat, hsame⟩ := hS.block (inp.take 128)
    obtain ⟨hat', hsame', hrest⟩ := ih _ (by rw [List.length_drop]; omega) hat (inp.drop 128) rfl
    have habsorb := absorbInit_block (f := Blake2.absorbBlock blake2bWords)
      (by decide) s htake hdrop
    have hlast := lastBlock_block (by decide) htake hdrop
    rw [List.take_append_drop] at habsorb hlast
    exact ⟨habsorb ▸ hat', hsame.trans hsame', hrest.trans hlast.symm⟩
  · rename_i hle
    rw [absorbInit_of_le s (Nat.not_lt.mp hle), lastBlock_of_le (Nat.not_lt.mp hle)]
    exact ⟨hS, ⟨rfl, rfl, rfl, rfl⟩, rfl⟩

-- ---------------------------------------------------------------------------
-- Updates
-- ---------------------------------------------------------------------------

@[simp] theorem specBlake2bUpdate_nil (S : Blake2bState) : specBlake2bUpdate S [] = S := rfl

theorem Blake2bState.Holds.keep (hS : S.Holds h m) (hle : S.buflen + inp.length ≤ 128) :
    (blake2bKeep S inp).Holds h (m ++ inp) := by
  have happend := absorbInit_append (f := Blake2.absorbBlock blake2bWords) (n := 128) (by decide)
    (h, 0) m inp
  have hfits : (lastBlock 128 m ++ inp).length ≤ 128 := by
    rw [List.length_append, ← hS.buflen]
    exact hle
  have hlast : lastBlock 128 (m ++ inp) = lastBlock 128 m ++ inp := by
    rw [happend.2, lastBlock_of_le hfits]
  refine ⟨?_, ?_, ?_, ?_, hS.lastNode⟩
  · rw [blake2bAbsorbed, happend.1, absorbInit_of_le _ hfits]
    exact ⟨hS.at_absorbed.h, hS.at_absorbed.counts, hS.at_absorbed.f0, hS.at_absorbed.f1⟩
  · show (overwrite S.buf S.buflen inp).length = 128
    rw [length_overwrite (by rw [hS.length_buf]; exact hle), hS.length_buf]
  · show S.buflen + inp.length = _
    rw [hlast, List.length_append, hS.buflen]
  · show (overwrite S.buf S.buflen inp).take (S.buflen + inp.length) = _
    have hlen : (S.buf.take S.buflen ++ inp).length = S.buflen + inp.length := by
      rw [List.length_append, List.length_take, hS.length_buf, Nat.min_eq_left hS.buflen_le]
    rw [overwrite, List.take_left' hlen, hlast, hS.buf]

theorem Blake2bState.Holds.fill (hS : S.Holds h m) (hlen : S.buflen + inp.length = 128) :
    (blake2bFill S inp).At
        (Blake2.absorbBlock blake2bWords (blake2bAbsorbed h m) (lastBlock 128 m ++ inp)) ∧
      (blake2bFill S inp).buf.length = 128 ∧ (blake2bFill S inp).buflen = 0 ∧
      (blake2bFill S inp).outlen = S.outlen ∧ (blake2bFill S inp).lastNode = false := by
  have hblock : overwrite S.buf S.buflen inp = lastBlock 128 m ++ inp := by
    rw [overwrite_end _ _ (by rw [hlen, hS.length_buf]), hS.buf]
  have hS' : Blake2bState.At { S with buflen := 0, buf := overwrite S.buf S.buflen inp }
      (blake2bAbsorbed h m) :=
    ⟨hS.at_absorbed.h, hS.at_absorbed.counts, hS.at_absorbed.f0, hS.at_absorbed.f1⟩
  obtain ⟨hat, hsame⟩ := hS'.block (overwrite S.buf S.buflen inp)
  have hlength : (blake2bFill S inp).buf.length = 128 := by
    show (overwrite S.buf S.buflen inp).length = 128
    rw [hblock, List.length_append, ← hS.buflen, hlen]
  rw [← hblock]
  exact ⟨hat, hlength, hsame.buflen, hsame.outlen, hsame.lastNode.trans hS.lastNode⟩

theorem Blake2bState.Holds.update_of_gt (hS : S.Holds h m) (hgt : 128 < S.buflen + inp.length) :
    (specBlake2bUpdate S inp).Holds h (m ++ inp) ∧ (specBlake2bUpdate S inp).outlen = S.outlen := by
  have hle := hS.buflen_le
  have htake : (inp.take (128 - S.buflen)).length = 128 - S.buflen := by
    rw [List.length_take]
    omega
  have hdrop : 0 < (inp.drop (128 - S.buflen)).length := by
    rw [List.length_drop]
    omega
  have hlen : (lastBlock 128 m ++ inp.take (128 - S.buflen)).length = 128 := by
    rw [List.length_append, htake, ← hS.buflen]
    omega
  obtain ⟨hat, hbuf, hbuflen, houtlen, hnode⟩ :=
    hS.fill (show S.buflen + (inp.take (128 - S.buflen)).length = 128 by rw [htake]; omega)
  obtain ⟨hat', hsame, hrest⟩ := hat.blocks (inp.drop (128 - S.buflen))
  have hsplit : lastBlock 128 m ++ inp =
      (lastBlock 128 m ++ inp.take (128 - S.buflen)) ++ inp.drop (128 - S.buflen) := by
    rw [List.append_assoc, List.take_append_drop]
  have happend := absorbInit_append (f := Blake2.absorbBlock blake2bWords) (n := 128) (by decide)
    (h, 0) m inp
  rw [hsplit, absorbInit_block (by decide) _ hlen hdrop, lastBlock_block (by decide) hlen hdrop,
    ← hrest] at happend
  have hrest_le : (lastBlock 128 (m ++ inp)).length ≤ 128 := length_lastBlock_le (by decide) _
  rw [specBlake2bUpdate, if_pos (by omega), if_pos (by omega)]
  generalize specBlake2bBlocks _ _ = r at hat' hsame happend
  have hzero : r.1.buflen = 0 := hsame.buflen.trans hbuflen
  have hlength : r.1.buf.length = 128 := by rw [hsame.buf, hbuf]
  refine ⟨⟨?_, ?_, ?_, ?_, ?_⟩, hsame.outlen.trans houtlen⟩
  · rw [blake2bAbsorbed, happend.1]
    exact ⟨hat'.h, hat'.counts, hat'.f0, hat'.f1⟩
  · show (overwrite r.1.buf r.1.buflen r.2).length = 128
    rw [hzero, ← happend.2, length_overwrite (by omega), hlength]
  · show r.1.buflen + r.2.length = _
    rw [hzero, Nat.zero_add, happend.2]
  · show (overwrite r.1.buf r.1.buflen r.2).take (r.1.buflen + r.2.length) = _
    rw [hzero, overwrite_zero, Nat.zero_add, List.take_left, happend.2]
  · exact hsame.lastNode.trans hnode

theorem Blake2bState.Holds.update (hS : S.Holds h m) (inp : Bytes) :
    (specBlake2bUpdate S inp).Holds h (m ++ inp) ∧ (specBlake2bUpdate S inp).outlen = S.outlen := by
  by_cases hgt : 128 < S.buflen + inp.length
  · exact hS.update_of_gt hgt
  · rcases Nat.eq_zero_or_pos inp.length with hzero | hpos
    · rw [List.eq_nil_of_length_eq_zero hzero, List.append_nil]
      exact ⟨hS, rfl⟩
    · rw [specBlake2bUpdate, if_pos hpos, if_neg (by omega)]
      exact ⟨hS.keep (by omega), rfl⟩

-- ---------------------------------------------------------------------------
-- The end of the message
-- ---------------------------------------------------------------------------

theorem Blake2bState.Holds.bytes (hS : S.Holds h m) :
    (blake2bAbsorbed h m).2 + S.buflen = m.length := by
  have habsorbed := Blake2.absorbInit_absorbBlock blake2bWords h m
  have hsnd : (blake2bAbsorbed h m).2 = (m.length - 1) / 128 * 128 := congrArg Prod.snd habsorbed
  have hdiv := Nat.div_mul_le_self (m.length - 1) 128
  rw [hsnd, hS.buflen, lastBlock, List.length_drop]
  omega

/-- What the last block is compressed with. -/
structure Blake2bState.Ends (S : Blake2bState) (h : Vector UInt64 8) (m : Bytes) : Prop where
  h : S.h = (blake2bAbsorbed h m).1
  counts : S.Counts m.length
  f0 : S.f0 = -1
  f1 : S.f1 = 0
  buf : ∃ n, S.buf = lastBlock 128 m ++ List.replicate n 0

theorem Blake2bState.Holds.padded (hS : S.Holds h m) :
    (blake2bPadded S).Ends h m ∧ (blake2bPadded S).outlen = S.outlen := by
  have hle := hS.buflen_le
  have hinc : (UInt64.ofNat S.buflen).toNat = S.buflen :=
    UInt64.toNat_ofNat_of_lt' (by show S.buflen < 2 ^ 64; omega)
  have hcounts := hS.at_absorbed.counts.increment hinc
  rw [hS.bytes] at hcounts
  refine ⟨⟨hS.at_absorbed.h, hcounts, rfl, ?_, 128 - S.buflen, ?_⟩, rfl⟩
  · show (if S.lastNode then (-1 : UInt64) else S.f1) = 0
    rw [hS.lastNode]
    exact hS.at_absorbed.f1
  · show overwrite S.buf S.buflen (List.replicate (128 - S.buflen) 0) = _
    rw [overwrite_end _ _ (by rw [List.length_replicate, hS.length_buf]; omega), hS.buf]

theorem Blake2bState.Ends.compress (hS : S.Ends h m) :
    blake2bCompress S S.buf = { S with h := Blake2.final blake2bWords h m } := by
  obtain ⟨n, hbuf⟩ := hS.buf
  rw [blake2bCompress_eq S S.buf hS.counts true hS.f0 hS.f1, hS.h, hbuf,
    Blake2.final_eq blake2bWords h m n]
  rfl

theorem flatMap_store64 (v : Vector UInt64 8) :
    v.toList.flatMap store64 = v.toList.flatMap fun w => toLE 8 w.toNat :=
  List.flatMap_congr fun w _ => store64_eq w

theorem Blake2bState.Holds.final (hS : S.Holds h m) {outlen : Option Nat}
    (hout : outlen.any (· < S.outlen) = false) :
    (specBlake2bFinal S outlen).1 =
        some (Blake2.output blake2bWords (Blake2.final blake2bWords h m) S.outlen) ∧
      blake2bIsLastblock (specBlake2bFinal S outlen).2 = true ∧
      (specBlake2bFinal S outlen).2.outlen = S.outlen := by
  obtain ⟨hends, houtlen⟩ := hS.padded
  have hnot : blake2bIsLastblock S = false := by
    rw [blake2bIsLastblock, hS.at_absorbed.f0]
    rfl
  have hlast : blake2bIsLastblock (blake2bPadded S) = true := by
    rw [blake2bIsLastblock, hends.f0]
    rfl
  rw [specBlake2bFinal, hout, hnot, if_neg Bool.false_ne_true, if_neg Bool.false_ne_true]
  simp only [hends.compress, flatMap_store64, houtlen]
  exact ⟨rfl, hlast, trivial⟩

/-- A marked state gives no digest, -/
theorem specBlake2bFinal_of_last (hS : blake2bIsLastblock S = true) (outlen : Option Nat) :
    specBlake2bFinal S outlen = (none, S) := by
  rw [specBlake2bFinal, hS, if_pos rfl, ite_self]

theorem blake2bIsLastblock_blocks (S : Blake2bState) (inp : Bytes) :
    blake2bIsLastblock (specBlake2bBlocks S inp).1 = blake2bIsLastblock S ∧
      (specBlake2bBlocks S inp).1.outlen = S.outlen ∧
      (specBlake2bBlocks S inp).1.buflen = S.buflen ∧ (specBlake2bBlocks S inp).2.length ≤ 128 := by
  induction hlen : inp.length using Nat.strongRecOn generalizing S inp with
  | _ len ih =>
  rw [specBlake2bBlocks]
  split
  · exact ih _ (by rw [List.length_drop]; omega) _ _ rfl
  · rename_i hle
    exact ⟨rfl, rfl, rfl, Nat.not_lt.mp hle⟩

/-- and no input changes that. -/
theorem blake2bIsLastblock_update (hS : S.buflen ≤ 128) (inp : Bytes) :
    blake2bIsLastblock (specBlake2bUpdate S inp) = blake2bIsLastblock S ∧
      (specBlake2bUpdate S inp).outlen = S.outlen ∧ (specBlake2bUpdate S inp).buflen ≤ 128 := by
  rw [specBlake2bUpdate]
  split
  · by_cases hgt : inp.length > 128 - S.buflen
    · obtain ⟨hlast, houtlen, hbuflen, hle⟩ := blake2bIsLastblock_blocks
        (blake2bFill S (inp.take (128 - S.buflen))) (inp.drop (128 - S.buflen))
      have hzero : (blake2bFill S (inp.take (128 - S.buflen))).buflen = 0 := rfl
      rw [if_pos hgt]
      refine ⟨hlast, houtlen, ?_⟩
      show (specBlake2bBlocks _ _).1.buflen + (specBlake2bBlocks _ _).2.length ≤ 128
      omega
    · rw [if_neg hgt]
      refine ⟨rfl, rfl, ?_⟩
      show S.buflen + inp.length ≤ 128
      omega
  · exact ⟨rfl, rfl, hS⟩

end

-- ---------------------------------------------------------------------------
-- The start of the message
-- ---------------------------------------------------------------------------

theorem overwrite_zeros (src : Bytes) (n : Nat) :
    overwrite (List.replicate n 0) 0 src = Blake2.field n src := by
  rw [overwrite_zero, List.drop_replicate, Blake2.field]

theorem Blake2bParam.bytes_eq (p : Blake2.Params) :
    Blake2bParam.bytes {
        digestLength := UInt8.ofNat p.digestLength
        keyLength := UInt8.ofNat p.key.length
        fanout := 1
        depth := 1
        salt := Blake2.field 16 p.salt
        personal := Blake2.field 16 p.personal } = p.block blake2bWords := rfl

theorem specBlake2bInitParam_holds {P : Blake2bParam} {p : Blake2.Params}
    (hP : P.bytes = p.block blake2bWords) :
    (specBlake2bInitParam P).Holds (Blake2.start blake2bWords p) [] := by
  have hh : (specBlake2bInitParam P).h = Blake2.start blake2bWords p := by
    apply Vector.ext
    intro i hi
    rw [specBlake2bInitParam, Blake2.start, Vector.getElem_ofFn, Vector.getElem_ofFn, hP,
      blake2bWordAt]
    rfl
  have hcounts : (specBlake2bInitParam P).Counts 0 := ⟨rfl, rfl⟩
  exact ⟨⟨hh, hcounts, rfl, rfl⟩, List.length_replicate, rfl, rfl, rfl⟩

theorem blake2bParamField_eq (src : Option Bytes) :
    blake2bParamField src = Blake2.field 16 (src.getD []) := by
  cases src with
  | none => rfl
  | some src => exact overwrite_zeros src 16

theorem specBlake2bInit_holds (salt personal : Option Bytes) (hpos : 0 < outlen)
    (hle : outlen ≤ 64) :
    ∃ S, specBlake2bInit outlen salt personal = some S ∧
      S.Holds (Blake2.start blake2bWords ⟨outlen, [], salt.getD [], personal.getD []⟩) [] ∧
      S.outlen = outlen := by
  rw [specBlake2bInit, if_neg (by omega)]
  refine ⟨_, rfl, ?_, ?_⟩
  · rw [blake2bParamField_eq, blake2bParamField_eq]
    exact specBlake2bInitParam_holds
      (Blake2bParam.bytes_eq ⟨outlen, [], salt.getD [], personal.getD []⟩)
  · exact UInt8.toNat_ofNat_of_lt' (by show outlen < 256; omega)

theorem specBlake2bInitKey_holds {key : Bytes} (hpos : 0 < outlen) (hle : outlen ≤ 64)
    (hkey : 0 < key.length) (hkey_le : key.length ≤ 64) :
    ∃ S, specBlake2bInitKey outlen key = some S ∧
      S.Holds (Blake2.start blake2bWords ⟨outlen, key, [], []⟩) (Blake2.keyBlock blake2bWords key) ∧
      S.outlen = outlen := by
  have hstart := specBlake2bInitParam_holds (Blake2bParam.bytes_eq ⟨outlen, key, [], []⟩)
  obtain ⟨hupdate, houtlen⟩ := hstart.update (overwrite (List.replicate 128 0) 0 key)
  have hblock : Blake2.keyBlock blake2bWords key = overwrite (List.replicate 128 0) 0 key := by
    rw [overwrite_zeros, Blake2.keyBlock, if_neg (List.ne_nil_of_length_pos hkey)]
    rfl
  rw [specBlake2bInitKey, if_neg (by omega), if_neg (by omega)]
  refine ⟨_, rfl, ?_, ?_⟩
  · rw [hblock]
    exact hupdate
  · exact houtlen.trans (UInt8.toNat_ofNat_of_lt' (by show outlen < 256; omega))

theorem Blake2bState.Holds.updates {h : Vector UInt64 8} (pieces : List Bytes) :
    ∀ {S : Blake2bState} {m : Bytes},
    S.Holds h m → (pieces.foldl specBlake2bUpdate S).Holds h (m ++ pieces.flatten) ∧
      (pieces.foldl specBlake2bUpdate S).outlen = S.outlen := by
  induction pieces with
  | nil =>
    intro S m hS
    rw [List.flatten_nil, List.append_nil]
    exact ⟨hS, rfl⟩
  | cons piece pieces ih =>
    intro S m hS
    obtain ⟨hupdate, houtlen⟩ := hS.update piece
    obtain ⟨hupdates, houtlen'⟩ := ih hupdate
    rw [List.flatten_cons, ← List.append_assoc]
    exact ⟨hupdates, houtlen'.trans houtlen⟩

/-- `spec_blake2b_init_key` is for a hash with a key: what the other functions then give. -/
theorem specBlake2b_keyed {key : Bytes} (hpos : 0 < outlen) (hle : outlen ≤ 64)
    (hkey : 0 < key.length) (hkey_le : key.length ≤ 64) (pieces : List Bytes) :
    ∃ S, specBlake2bInitKey outlen key = some S ∧
      (specBlake2bFinal (pieces.foldl specBlake2bUpdate S) (some outlen)).1 =
        some (Blake2.hash blake2bWords ⟨outlen, key, [], []⟩ pieces.flatten) := by
  obtain ⟨S, hinit, hS, houtlen⟩ := specBlake2bInitKey_holds hpos hle hkey hkey_le
  obtain ⟨hupdates, hsame⟩ := hS.updates pieces
  have hsize : (some outlen).any (· < (pieces.foldl specBlake2bUpdate S).outlen) = false := by
    rw [hsame, houtlen]
    exact decide_eq_false (Nat.lt_irrefl outlen)
  refine ⟨S, hinit, ?_⟩
  rw [(hupdates.final hsize).1, hsame, houtlen]
  rfl

end Speculos.Hash
