import Speculos.Hash.Hmac
import Speculos.Lib.Hkdf
import Speculos.Lib.Memory

/-!
# HKDF

Extraction and expansion through HMAC contexts, over hash functions of which only the
streaming law is used. The counter of the expansion is a byte, which gives the position of a
block too: 255 blocks are the last ones that it can count.
-/

namespace Speculos.Hash

open Lib

-- ---------------------------------------------------------------------------
-- cx_hkdf_extract, spec_cx_hkdf_expand
-- ---------------------------------------------------------------------------

section

variable {γ : Type} (S : HashFunctions γ) (stack : HmacCtx γ)

def sysCxHashSha256 (data : Bytes) : Option Bytes :=
  (S.update (S.init .sha256) data).map fun ctx => (S.final ctx).1

/-- `cx_hkdf_extract`, where the context is one on the stack. -/
def cxHkdfExtract (md : CxMd) (ikm : Bytes) (salt : Option Bytes) : Option Bytes := do
  let salt := salt.getD (List.replicate md.outputSize 0)
  let (_, ctx) ← specCxHmacInit S stack md (.data salt)
  let (_, ctx) ← specCxHmacUpdate S ctx (.data ikm)
  let (_, _, prk, _) ← specCxHmacFinal S ctx true md.outputSize
  return prk

/-- The variables of `spec_cx_hkdf_expand`. -/
structure Expansion where
  i : UInt8
  offset : Nat
  T : Bytes
  mdLen : Nat
  okm : Region
  okmLen : Nat

/-- `spec_cx_hmac_update(&hmac_ctx, T, offset)`, which the first turn leaves out. -/
def updatePrevious (e : Expansion) (ctx : HmacCtx γ) : Option (Bool × HmacCtx γ) :=
  if e.i > 1 then specCxHmacUpdate S ctx (.data (e.T.take e.offset)) else some (true, ctx)

/-- A turn of the loop. There is no result where the block would be one before `okm`. -/
def expansionTurn (md : CxMd) (prk info : Bytes) (e : Expansion) : Option Expansion := do
  let (_, ctx) ← specCxHmacInit S stack md (.data prk)
  let (_, ctx) ← updatePrevious S e ctx
  let (_, ctx) ← specCxHmacUpdate S ctx (.data info)
  let (_, ctx) ← specCxHmacUpdate S ctx (.data [e.i])
  let (_, _, T, mdLen) ← specCxHmacFinal S ctx true e.mdLen
  if e.i = 0 then none
  else
    let offset := if e.okmLen < mdLen then e.okmLen else mdLen
    return {
      i := e.i + 1
      offset
      T
      mdLen
      okm := e.okm.memcpy ((e.i.toNat - 1) * mdLen) T offset
      okmLen := e.okmLen - offset }

/-- The loop, with as many turns as `turns` allows. -/
def expansionLoop (md : CxMd) (prk info : Bytes) : Nat → Expansion → Option Expansion
  | 0, e => if e.okmLen > 0 then none else some e
  | turns + 1, e =>
    if e.okmLen > 0 then
      (expansionTurn S stack md prk info e).bind (expansionLoop md prk info turns)
    else some e

/-- `spec_cx_hkdf_expand` and the memory behind `okm`. -/
def specCxHkdfExpandInto (turns : Nat) (md : CxMd) (prk info : Bytes) (okm : Region)
    (okmLen : Nat) :
    Option Region :=
  (expansionLoop S stack md prk info turns ⟨1, 0, [], md.outputSize, okm, okmLen⟩).map (·.okm)

def specCxHkdfExpand (md : CxMd) (prk info : Bytes) (okmLen : Nat) : Option Bytes :=
  (specCxHkdfExpandInto S stack 255 md prk info .zeroed okmLen).map fun okm => okm.slice 0 okmLen

end

-- ---------------------------------------------------------------------------
-- Turns
-- ---------------------------------------------------------------------------

section

variable {γ : Type} {S : HashFunctions γ} {H : CxMd → Bytes → Bytes}
  {fits : CxMd → List Bytes → Prop} {md : CxMd} {prk info : Bytes} {okm : Region}

theorem length_hmac (hS : S.Streams H fits) (hmd : isAllowedDigest md) (key m : Bytes) :
    (hmac md.blockSize (H md) key m).length = md.outputSize := hS.length_digest hmd

theorem HmacFits.final_whole (hfits : HmacFits fits H md key pieces) (hS : S.Streams H fits)
    (hmd : isAllowedDigest md) (hctx : Keyed S md (hmacKey md.blockSize (H md) key) pieces ctx) :
    ∃ ctx', specCxHmacFinal S ctx true md.outputSize =
      some (true, ctx', hmac md.blockSize (H md) key pieces.flatten, md.outputSize) := by
  obtain ⟨ctx', hfinal⟩ := hfits.final_ok hS hmd hctx md.outputSize
  rw [Nat.min_self, List.take_of_length_le (Nat.le_of_eq (length_hmac hS hmd ..))] at hfinal
  exact ⟨ctx', hfinal⟩

theorem sysCxHashSha256_eq (hS : S.Streams H fits) (hfits : fits .sha256 [data]) :
    sysCxHashSha256 S data = some (H .sha256 data) := by
  obtain ⟨ctx, hupdates, -, -, hfinal, -⟩ := hS.updates rfl hfits
  obtain ⟨ctx', hupdate, hnil⟩ := Option.bind_eq_some_iff.mp hupdates
  cases hnil
  simp [sysCxHashSha256, hupdate, hfinal]

theorem cxHkdfExtract_eq (hS : S.Streams H fits) (hmd : isAllowedDigest md) (stack : HmacCtx γ)
    (hfits : HmacFits fits H md salt [ikm]) :
    cxHkdfExtract S stack md ikm (some salt) =
      some (hkdfExtract (hmac md.blockSize (H md)) salt ikm) := by
  obtain ⟨ctx₁, hinit, hctx₁⟩ := hfits.init_ok hS hmd stack
  obtain ⟨ctx₂, hupdate, hctx₂⟩ := specCxHmacUpdate_ok hS hmd hctx₁ hfits.inner
  obtain ⟨ctx₃, hfinal⟩ := hfits.final_whole hS hmd hctx₂
  simp [cxHkdfExtract, hinit, hupdate, hfinal, hkdfExtract]

/-- The block before the next one, which is none for the first. -/
def previousBlock (H : CxMd → Bytes → Bytes) (md : CxMd) (prk info : Bytes) (k : Nat) :
    List Bytes :=
  if k = 0 then [] else [hkdfBlock (hmac md.blockSize (H md)) prk info k]

def expansionPieces (H : CxMd → Bytes → Bytes) (md : CxMd) (prk info : Bytes) (k : Nat) :
    List Bytes := previousBlock H md prk info k ++ [info, [UInt8.ofNat (k + 1)]]

/-- The hash takes what every block of an expansion is the value of. -/
def ExpansionFits (fits : CxMd → List Bytes → Prop) (H : CxMd → Bytes → Bytes) (md : CxMd)
    (prk info : Bytes) (okmLen : Nat) : Prop :=
  ∀ k, k * md.outputSize < okmLen → HmacFits fits H md prk (expansionPieces H md prk info k)

theorem hmac_expansionPieces (H : CxMd → Bytes → Bytes) (md : CxMd) (prk info : Bytes) (k : Nat) :
    hmac md.blockSize (H md) prk (expansionPieces H md prk info k).flatten =
      hkdfBlock (hmac md.blockSize (H md)) prk info (k + 1) := by
  cases k <;> simp [expansionPieces, previousBlock, hkdfBlock]

/-- The first `k` blocks are written, and `len` bytes are left. -/
structure Expanded (H : CxMd → Bytes → Bytes) (md : CxMd) (prk info : Bytes) (okm : Region)
    (k len : Nat) (e : Expansion) : Prop where
  i : e.i = UInt8.ofNat (k + 1)
  previous : e.T.take e.offset = hkdfBlock (hmac md.blockSize (H md)) prk info k
  mdLen : e.mdLen = md.outputSize
  okm : e.okm = okm.memcpy 0 (hkdfBlocks (hmac md.blockSize (H md)) prk info 0 k).flatten
    (k * md.outputSize)
  okmLen : e.okmLen = len

theorem hkdfBlocks_concat (hmac : Bytes → Bytes → Bytes) (prk info : Bytes) (k : Nat) :
    hkdfBlocks hmac prk info 0 (k + 1) =
      hkdfBlocks hmac prk info 0 k ++ [hkdfBlock hmac prk info (k + 1)] := by
  simp [hkdfBlocks, List.range_succ]

theorem length_hkdfBlocks (hS : S.Streams H fits) (hmd : isAllowedDigest md) (prk info : Bytes)
    (k : Nat) :
    (hkdfBlocks (hmac md.blockSize (H md)) prk info 0 k).flatten.length = k * md.outputSize := by
  have hall : ∀ p ∈ hkdfBlocks (hmac md.blockSize (H md)) prk info 0 k,
      p.length = md.outputSize := by
    intro p hp
    obtain ⟨j, -, rfl⟩ := List.mem_map.mp hp
    exact length_hmac hS hmd ..
  rw [length_flatten_of_forall _ hall]
  simp [hkdfBlocks]

theorem updatePrevious_ok (hS : S.Streams H fits) (hmd : isAllowedDigest md)
    (he : Expanded H md prk info okm k len e) (hk : k < 255)
    (hfits : HmacFits fits H md prk (expansionPieces H md prk info k))
    (hctx : Keyed S md (hmacKey md.blockSize (H md) prk) [] ctx) :
    ∃ ret ctx', updatePrevious S e ctx = some (ret, ctx') ∧
      Keyed S md (hmacKey md.blockSize (H md) prk) (previousBlock H md prk info k) ctx' := by
  have hcount : e.i > 1 ↔ k ≠ 0 := by
    rw [he.i, gt_iff_lt, UInt8.lt_iff_toNat_lt,
      UInt8.toNat_ofNat_of_lt' (Nat.lt_of_le_of_lt hk (by decide))]
    show 1 < k + 1 ↔ _
    omega
  rw [updatePrevious, he.previous]
  by_cases hzero : k = 0
  · subst hzero
    exact ⟨true, ctx, if_neg fun h => hcount.mp h rfl, hctx⟩
  · have hone : previousBlock H md prk info k =
        [] ++ [hkdfBlock (hmac md.blockSize (H md)) prk info k] :=
      if_neg hzero
    have hinner : fits md ((xorAll (hmacKey md.blockSize (H md) prk) ipad ::
        previousBlock H md prk info k) ++ [info, [UInt8.ofNat (k + 1)]]) := hfits.inner
    rw [hone] at hinner ⊢
    obtain ⟨ctx', hupdate, hctx'⟩ :=
      specCxHmacUpdate_ok hS hmd hctx (hS.fits_append hinner)
    exact ⟨true, ctx', (if_pos (hcount.mpr hzero)).trans hupdate, hctx'⟩

theorem expansionTurn_ok (hS : S.Streams H fits) (hmd : isAllowedDigest md) (stack : HmacCtx γ)
    (he : Expanded H md prk info okm k len e) (hk : k < 255)
    (hfits : HmacFits fits H md prk (expansionPieces H md prk info k)) :
    ∃ e', expansionTurn S stack md prk info e = some e' ∧
      e'.okmLen = len - min len md.outputSize ∧
      e'.okm = okm.memcpy 0 (hkdfBlocks (hmac md.blockSize (H md)) prk info 0 (k + 1)).flatten
        (k * md.outputSize + min len md.outputSize) ∧
      (md.outputSize ≤ len → Expanded H md prk info okm (k + 1) (len - md.outputSize) e') := by
  have hsplit : expansionPieces H md prk info k =
      (previousBlock H md prk info k ++ [info]) ++ [[UInt8.ofNat (k + 1)]] := by
    simp [expansionPieces]
  have hinner := hfits.inner
  rw [hsplit, ← List.cons_append] at hinner
  obtain ⟨ctx₁, hinit, hctx₁⟩ := hfits.init_ok hS hmd stack
  obtain ⟨ret, ctx₂, hprevious, hctx₂⟩ := updatePrevious_ok hS hmd he hk hfits hctx₁
  obtain ⟨ctx₃, hinfo, hctx₃⟩ := specCxHmacUpdate_ok hS hmd hctx₂ (hS.fits_append hinner)
  obtain ⟨ctx₄, hcounter, hctx₄⟩ := specCxHmacUpdate_ok hS hmd hctx₃ hinner
  rw [← hsplit] at hctx₄
  rw [← he.i] at hcounter
  obtain ⟨ctx₅, hfinal⟩ := hfits.final_whole hS hmd hctx₄
  rw [hmac_expansionPieces] at hfinal
  have htoNat : e.i.toNat = k + 1 := by
    rw [he.i, UInt8.toNat_ofNat_of_lt' (Nat.lt_of_le_of_lt hk (by decide))]
  have hne : e.i ≠ 0 := by
    intro h
    rw [h] at htoNat
    exact absurd htoNat (by simp)
  have hmin : (if len < md.outputSize then len else md.outputSize) = min len md.outputSize := by
    rw [Nat.min_def]
    split <;> split <;> omega
  have hblocks := length_hkdfBlocks hS hmd prk info k
  have hokm := okm.memcpy_memcpy 0 (hkdfBlocks (hmac md.blockSize (H md)) prk info 0 k).flatten
    (hkdfBlock (hmac md.blockSize (H md)) prk info (k + 1)) (min len md.outputSize)
  rw [hblocks, Nat.zero_add] at hokm
  refine ⟨_, by
    simp only [expansionTurn, Option.bind_eq_bind, hinit, hprevious, hinfo, hcounter, hfinal,
      Option.bind_some, he.mdLen, hne, if_false]
    rfl, ?_, ?_, fun hle => ⟨?_, ?_, rfl, ?_, ?_⟩⟩
  · rw [he.okmLen, hmin]
  · show e.okm.memcpy ((e.i.toNat - 1) * md.outputSize) _ _ = _
    rw [htoNat, Nat.add_sub_cancel, he.okm, he.okmLen, hmin, hokm, hkdfBlocks_concat,
      List.flatten_concat]
  · show e.i + 1 = _
    rw [he.i, UInt8.ofNat_add (k + 1) 1]
    rfl
  · show List.take _ _ = _
    have hblock := length_hmac hS hmd prk (hkdfBlock (hmac md.blockSize (H md)) prk info k ++
      info ++
      [UInt8.ofNat (k + 1)])
    rw [he.okmLen, hmin, Nat.min_eq_right hle]
    exact List.take_of_length_le (Nat.le_of_eq hblock)
  · show e.okm.memcpy ((e.i.toNat - 1) * md.outputSize) _ _ = _
    rw [htoNat, Nat.add_sub_cancel, he.okm, he.okmLen, hmin, hokm, hkdfBlocks_concat,
      List.flatten_concat, Nat.min_eq_right hle, Nat.succ_mul]
  · show e.okmLen - _ = _
    rw [he.okmLen, hmin, Nat.min_eq_right hle]

theorem expansionLoop_done (md : CxMd) (prk info : Bytes) (turns : Nat) (he : e.okmLen = 0) :
    expansionLoop S stack md prk info turns e = some e := by
  cases turns <;> exact if_neg (by simp [he])

theorem memcpy_hkdfExpand (okm : Region) (hmac : Bytes → Bytes → Bytes) (prk info : Bytes)
    (hcount : (len + n - 1) / n = count) :
    okm.memcpy 0 (hkdfExpand hmac n prk info len) len =
      okm.memcpy 0 (hkdfBlocks hmac prk info 0 count).flatten len := by
  rw [hkdfExpand, hkdfExpandFrom, hcount, Region.memcpy_take _ _ _ (Nat.le_refl len)]

theorem expansionLoop_ok (hS : S.Streams H fits) (hmd : isAllowedDigest md)
    (hpos : 0 < md.outputSize) (stack : HmacCtx γ) (he : Expanded H md prk info okm k len e)
    (hlen : len ≤ turns * md.outputSize) (hturns : k + turns ≤ 255)
    (hfits : ExpansionFits fits H md prk info (k * md.outputSize + len)) :
    ∃ e', expansionLoop S stack md prk info turns e = some e' ∧
      e'.okm = okm.memcpy 0
        (hkdfExpand (hmac md.blockSize (H md)) md.outputSize prk info (k * md.outputSize + len))
        (k * md.outputSize + len) := by
  have hdone {k : Nat} {e : Expansion} (he : Expanded H md prk info okm k 0 e) :
      e.okm = okm.memcpy 0
        (hkdfExpand (hmac md.blockSize (H md)) md.outputSize prk info (k * md.outputSize + 0))
        (k * md.outputSize + 0) := by
    have hcount : (k * md.outputSize + 0 + md.outputSize - 1) / md.outputSize = k := by
      rw [Nat.div_eq_iff hpos]
      omega
    rw [memcpy_hkdfExpand _ _ _ _ hcount]
    exact he.okm
  induction turns generalizing k len e with
  | zero =>
    obtain rfl : len = 0 := by simpa using hlen
    exact ⟨e, expansionLoop_done _ _ _ _ he.okmLen, hdone he⟩
  | succ turns ih =>
    rcases Nat.eq_zero_or_pos len with rfl | hlenpos
    · exact ⟨e, expansionLoop_done _ _ _ _ he.okmLen, hdone he⟩
    · obtain ⟨e', hturn, hleft, hokm, hnext⟩ := expansionTurn_ok hS hmd stack he (by omega)
        (hfits k (by omega))
      have hloop : expansionLoop S stack md prk info (turns + 1) e =
          expansionLoop S stack md prk info turns e' := by
        rw [expansionLoop, if_pos (he.okmLen ▸ hlenpos), hturn]
        rfl
      rw [hloop]
      by_cases hle : md.outputSize ≤ len
      · have hrest : len - md.outputSize ≤ turns * md.outputSize := by
          rw [Nat.succ_mul] at hlen
          omega
        have hsum : (k + 1) * md.outputSize + (len - md.outputSize) = k * md.outputSize + len := by
          rw [Nat.succ_mul]
          omega
        have hend := ih (hnext hle) hrest (by omega) (hsum ▸ hfits)
        rwa [hsum] at hend
      · have hmin := Nat.min_eq_left (Nat.le_of_not_le hle)
        have hcount :
            (k * md.outputSize + len + md.outputSize - 1) / md.outputSize = k + 1 := by
          rw [Nat.div_eq_iff hpos, Nat.succ_mul]
          omega
        rw [hmin, Nat.sub_self] at hleft
        rw [hmin] at hokm
        refine ⟨e', expansionLoop_done _ _ _ _ hleft, ?_⟩
        rw [memcpy_hkdfExpand _ _ _ _ hcount]
        exact hokm

theorem expandInto_ok (hS : S.Streams H fits) (hmd : isAllowedDigest md)
    (hpos : 0 < md.outputSize) (stack : HmacCtx γ) (okm : Region)
    (hlen : okmLen ≤ 255 * md.outputSize) (hfits : ExpansionFits fits H md prk info okmLen) :
    specCxHkdfExpandInto S stack 255 md prk info okm okmLen =
      some (okm.memcpy 0 (hkdfExpand (hmac md.blockSize (H md)) md.outputSize prk info okmLen)
        okmLen) := by
  have hstart : Expanded H md prk info okm 0 okmLen ⟨1, 0, [], md.outputSize, okm, okmLen⟩ :=
    ⟨rfl, rfl, rfl, by rw [Nat.zero_mul]; rfl, rfl⟩
  have hsum : 0 * md.outputSize + okmLen = okmLen := by omega
  obtain ⟨e', hloop, hokm⟩ :=
    expansionLoop_ok hS hmd hpos stack hstart hlen (Nat.le_refl _) (hsum.symm ▸ hfits)
  rw [hsum] at hokm
  rw [specCxHkdfExpandInto, hloop, Option.map_some, hokm]

theorem length_hkdfExpand (hS : S.Streams H fits) (hmd : isAllowedDigest md)
    (hpos : 0 < md.outputSize) (prk info : Bytes) (okmLen : Nat) :
    (hkdfExpand (hmac md.blockSize (H md)) md.outputSize prk info okmLen).length = okmLen := by
  have hblocks := length_hkdfBlocks hS hmd prk info ((okmLen + md.outputSize - 1) / md.outputSize)
  have hceil : okmLen + md.outputSize - 1 <
      (okmLen + md.outputSize - 1) / md.outputSize * md.outputSize + md.outputSize :=
    Nat.lt_div_mul_add hpos
  rw [hkdfExpand, hkdfExpandFrom, List.length_take, hblocks]
  omega

/-- For every allowed hash the bytes asked for are written, and they are those of the standard.
Of a hash that takes every sequence of pieces, `hfits` asks nothing. -/
theorem specCxHkdfExpandInto_eq (hS : S.Streams H fits) (hmd : isAllowedDigest md)
    (stack : HmacCtx γ) (prk info : Bytes) (okm : Region) (okmLen : Nat)
    (hlen : okmLen ≤ 255 * md.outputSize) (hfits : ExpansionFits fits H md prk info okmLen) :
    specCxHkdfExpandInto S stack 255 md prk info okm okmLen =
        some (okm.memcpy 0 (hkdfExpand (hmac md.blockSize (H md)) md.outputSize prk info okmLen)
          okmLen) ∧
      (hkdfExpand (hmac md.blockSize (H md)) md.outputSize prk info okmLen).length = okmLen := by
  have hpos : 0 < md.outputSize := (outputSize_lt hmd).1
  exact ⟨expandInto_ok hS hmd hpos stack okm hlen hfits, length_hkdfExpand hS hmd hpos ..⟩

theorem specCxHkdfExpand_eq (hS : S.Streams H fits) (hmd : isAllowedDigest md) (stack : HmacCtx γ)
    (hlen : okmLen ≤ 255 * md.outputSize) (hfits : ExpansionFits fits H md prk info okmLen) :
    specCxHkdfExpand S stack md prk info okmLen =
      some (hkdfExpand (hmac md.blockSize (H md)) md.outputSize prk info okmLen) := by
  have hpos : 0 < md.outputSize := (outputSize_lt hmd).1
  have hlength := length_hkdfExpand hS hmd hpos prk info okmLen
  rw [specCxHkdfExpand, expandInto_ok hS hmd hpos stack .zeroed hlen hfits, Option.map_some,
    Region.slice_memcpy_self _ _ _ _ (Nat.le_of_eq hlength.symm),
    List.take_of_length_le (Nat.le_of_eq hlength)]

theorem length_of_mem_previousBlock (hlen : ∀ m, (H md m).length = md.outputSize)
    (h : piece ∈ previousBlock H md prk info k) : piece.length = md.outputSize := by
  cases k with
  | zero => cases h
  | succ k =>
    rw [List.mem_singleton.mp h, hkdfBlock]
    exact hlen _

theorem length_previousBlock_le (hlen : ∀ m, (H md m).length = md.outputSize) (prk info : Bytes)
    (k : Nat) : (previousBlock H md prk info k).flatten.length ≤ md.outputSize := by
  cases k with
  | zero => exact Nat.zero_le _
  | succ k =>
    have hblock : hkdfBlock (hmac md.blockSize (H md)) prk info (k + 1) ∈
        previousBlock H md prk info (k + 1) := List.mem_singleton.mpr rfl
    simp [previousBlock, length_of_mem_previousBlock hlen hblock]

theorem length_expansionPieces_le (hlen : ∀ m, (H md m).length = md.outputSize) (prk info : Bytes)
    (k : Nat) :
    (expansionPieces H md prk info k).flatten.length ≤ md.outputSize + (info.length + 1) := by
  simpa [expansionPieces] using length_previousBlock_le hlen prk info k

theorem expansionFits_of_takes (hmd : isAllowedDigest md)
    (hlen : ∀ m, (H md m).length = md.outputSize) (hprk : md.fits [prk]) (hinfo : inMemory info)
    (htakes : md.takes (md.blockSize + (md.outputSize + (info.length + 1)))) (okmLen : Nat) :
    ExpansionFits CxMd.fits H md prk info okmLen := by
  intro k _
  obtain ⟨hpos, hlt⟩ := outputSize_lt hmd
  refine hmacFits_of_takes hmd hlen hprk ?_
    (htakes.mono (Nat.add_le_add_left (length_expansionPieces_le hlen prk info k) _))
  intro piece hpiece
  rcases List.mem_append.mp hpiece with hprevious | hrest
  · have hlength := length_of_mem_previousBlock hlen hprevious
    exact inMemory_short hmd (hlength ▸ Nat.le_of_lt hlt)
  · rcases List.mem_pair.mp hrest with rfl | rfl
    · exact hinfo
    · exact inMemory_short hmd (show 1 ≤ md.blockSize by omega)

end

theorem specCxHkdfExpandInto_endHash :
    specCxHkdfExpandInto (limitedHashes endHash) ⟨(.sha256, []), []⟩ 255 .sha256 [0x6b] [0x69]
          .zeroed 40 =
        some (Region.zeroed.memcpy 0 (hkdfExpand (hmac 64 (endHash .sha256)) 32 [0x6b] [0x69] 40)
          40) ∧
      (hkdfExpand (hmac 64 (endHash .sha256)) 32 [0x6b] [0x69] 40).length = 40 :=
  specCxHkdfExpandInto_eq (limitedHashes_streams length_endHash) rfl _ [0x6b] [0x69] .zeroed 40
    (by decide)
    (expansionFits_of_takes rfl (length_endHash _) (by decide) (by decide) (by decide) 40)

end Speculos.Hash
