import Speculos.Hash.Update
import Speculos.Lib.Hkdf

/-!
# HMAC contexts

A context holds the hash of what was given so far and the key, which is kept added to
the inner pad. The outer pad is reached by a second addition. The hash functions are
parameters, of which only the streaming law is used.
-/

namespace Speculos.Hash

open Lib

-- ---------------------------------------------------------------------------
-- Hash functions
-- ---------------------------------------------------------------------------

/-- `output_size` of `cx_hash_info_t` -/
def CxMd.outputSize : CxMd → Nat
  | .ripemd160 => 20
  | .sha224 => 28
  | .sha256 => 32
  | .sha384 => 48
  | .sha512 => 64
  | _ => 0

/-- `block_size` of `cx_hash_info_t` -/
def CxMd.blockSize : CxMd → Nat
  | .ripemd160 => 64
  | .sha224 => 64
  | .sha256 => 64
  | .sha384 => 128
  | .sha512 => 128
  | _ => 0

/-- `spec_cx_hash_init`, `spec_cx_hash_update`, `spec_cx_hash_final` and the check of a context,
on contexts that are of one type. There is no result where an update throws. -/
structure HashFunctions (γ : Type) where
  algo : γ → CxMd
  valid : γ → Bool
  init : CxMd → γ
  update : γ → Bytes → Option γ
  final : γ → Bytes × γ

def HashFunctions.updates (S : HashFunctions γ) : γ → List Bytes → Option γ
  | ctx, [] => some ctx
  | ctx, piece :: pieces => (S.update ctx piece).bind fun ctx => S.updates ctx pieces

def isAllowedDigest (md : CxMd) : Bool :=
  md = .sha256 ∨ md = .sha224 ∨ md = .sha384 ∨ md = .sha512 ∨ md = .ripemd160

/-- The streaming law: the digest is that of all pieces together, where `fits` says which
sequences of pieces the hash accepts. -/
structure HashFunctions.Streams (S : HashFunctions γ) (H : CxMd → Bytes → Bytes)
    (fits : CxMd → List Bytes → Prop) : Prop where
  fits_append : fits md (pieces ++ more) → fits md pieces
  updates : isAllowedDigest md → fits md pieces →
    ∃ ctx, S.updates (S.init md) pieces = some ctx ∧ S.algo ctx = md ∧ S.valid ctx = true ∧
      (S.final ctx).1 = H md pieces.flatten ∧ S.algo (S.final ctx).2 = md
  length_digest : isAllowedDigest md → (H md m).length = md.outputSize

-- ---------------------------------------------------------------------------
-- What the hash functions take
-- ---------------------------------------------------------------------------

/-- The blocks that are counted. Beyond `CX_HASH_MAX_BLOCK_COUNT` an update throws, but for those
of SHA-256, where the counter goes back to 0. -/
def CxMd.maxBlocks (md : CxMd) : Nat :=
  if md = .sha224 ∨ md = .sha256 then 2 ^ 32 - 1 else cxHashMaxBlockCount.toNat

def CxMd.takes (md : CxMd) (n : Nat) : Prop := n / md.blockSize ≤ md.maxBlocks

/-- A piece is in memory beside a context, of which that of SHA-512 is the largest. -/
def inMemory (piece : Bytes) : Prop := piece.length + 204 ≤ 2 ^ 32

def CxMd.fits (md : CxMd) (pieces : List Bytes) : Prop :=
  md.takes pieces.flatten.length ∧ ∀ piece ∈ pieces, inMemory piece

instance (md : CxMd) (n : Nat) : Decidable (md.takes n) := inferInstanceAs (Decidable (_ ≤ _))

instance (piece : Bytes) : Decidable (inMemory piece) := inferInstanceAs (Decidable (_ ≤ _))

instance (md : CxMd) (pieces : List Bytes) : Decidable (md.fits pieces) :=
  inferInstanceAs (Decidable (_ ∧ _))

section

variable {md : CxMd} {piece block digest : Bytes} {pieces more : List Bytes}

theorem blockSize_le (h : isAllowedDigest md) :
    md.outputSize ≤ md.blockSize ∧ md.blockSize ≤ 128 := by
  cases md <;> first | exact absurd h (by decide) | decide

theorem outputSize_lt (h : isAllowedDigest md) :
    0 < md.outputSize ∧ md.outputSize < md.blockSize := by
  cases md <;> first | exact absurd h (by decide) | decide

theorem CxMd.takes.mono (h : md.takes n) (hle : k ≤ n) : md.takes k :=
  Nat.le_trans (Nat.div_le_div_right hle) h

theorem takes_short (hmd : isAllowedDigest md) (h : n ≤ 2 * md.blockSize) : md.takes n := by
  refine CxMd.takes.mono ?_ h
  cases md <;> first | exact absurd hmd (by decide) | decide

theorem CxMd.fits.append_left (h : md.fits (pieces ++ more)) : md.fits pieces := by
  rw [CxMd.fits, List.flatten_append, List.length_append] at h
  exact ⟨h.1.mono (Nat.le_add_right _ _),
    fun piece hpiece => h.2 piece (List.mem_append_left _ hpiece)⟩

theorem CxMd.fits.concat (h : md.fits pieces) (hpiece : inMemory piece)
    (htakes : md.takes (pieces.flatten.length + piece.length)) : md.fits (pieces ++ [piece]) := by
  refine ⟨by simpa using htakes, fun p hp => ?_⟩
  rcases List.mem_append.mp hp with hp | hp
  · exact h.2 p hp
  · rwa [List.mem_singleton.mp hp]

theorem inMemory_short (hmd : isAllowedDigest md) (h : piece.length ≤ md.blockSize) :
    inMemory piece := by
  have hle := (blockSize_le hmd).2
  rw [inMemory]
  omega

theorem fits_block (hmd : isAllowedDigest md) (h : block.length = md.blockSize) :
    md.fits [block] := by
  refine ⟨takes_short hmd ?_, fun piece hpiece => ?_⟩
  · rw [List.flatten_singleton, h]
    omega
  · rw [List.mem_singleton.mp hpiece]
    exact inMemory_short hmd (Nat.le_of_eq h)

theorem fits_outer (hmd : isAllowedDigest md) (hblock : block.length = md.blockSize)
    (hdigest : digest.length = md.outputSize) : md.fits [block, digest] := by
  have hle := (blockSize_le hmd).1
  refine (fits_block hmd hblock).concat (inMemory_short hmd (hdigest ▸ hle)) (takes_short hmd ?_)
  rw [List.flatten_singleton, hblock, hdigest]
  omega

end

-- ---------------------------------------------------------------------------
-- spec_cx_hmac_init, spec_cx_hmac_update, spec_cx_hmac_final
-- ---------------------------------------------------------------------------

def ipad : UInt8 := 0x36

def opad : UInt8 := 0x5c

/-- A pointer with a length. -/
inductive Buf
  | null (len : Nat)
  | data (bs : Bytes)
  deriving DecidableEq, Repr

def Buf.bytes : Buf → Bytes
  | .null _ => []
  | .data bs => bs

/-- `cx_hmac_ctx`, where `key` has 128 bytes. -/
structure HmacCtx (γ : Type) where
  hash : γ
  key : Bytes

section

variable {γ : Type} (S : HashFunctions γ)

/-- The key in an array that was zero: itself, or its hash. -/
def keyArray (md : CxMd) (key : Bytes) : Option Bytes :=
  if key.length > md.blockSize then
    (S.update (S.init md) key).map fun ctx => overwrite (List.replicate 128 0) 0 (S.final ctx).1
  else some (overwrite (List.replicate 128 0) 0 key)

/-- The loop that adds the pad to the first bytes of the key. -/
def addPad (key : Bytes) (blockSize : Nat) (pad : UInt8) : Bytes :=
  xorAll (key.take blockSize) pad ++ key.drop blockSize

def startInner (md : CxMd) (key : Bytes) : Option (Bool × HmacCtx γ) :=
  (S.update (S.init md) (key.take md.blockSize)).map fun hash => (true, ⟨hash, key⟩)

/-- `spec_cx_hmac_init` and what it returns. Without a key the array stays zero. -/
def specCxHmacInit (ctx : HmacCtx γ) (md : CxMd) (key : Buf) : Option (Bool × HmacCtx γ) :=
  match key with
  | .null len =>
    if len ≠ 0 then some (false, ctx)
    else if isAllowedDigest md then startInner S md (List.replicate 128 0)
    else some (false, ctx)
  | .data key =>
    if isAllowedDigest md then
      (keyArray S md key).bind fun array => startInner S md (addPad array md.blockSize ipad)
    else some (false, ctx)

def specCxHmacUpdate (ctx : HmacCtx γ) (data : Buf) : Option (Bool × HmacCtx γ) :=
  match data with
  | .null _ => some (false, ctx)
  | .data bs =>
    if isAllowedDigest (S.algo ctx.hash) then
      (S.update ctx.hash bs).map fun hash => (true, { ctx with hash })
    else some (false, ctx)

/-- `spec_cx_hmac_final`: what it returns, the context, what is written to `out`, and
`*out_len`. Nothing happens if `out` is `NULL`. -/
def specCxHmacFinal (ctx : HmacCtx γ) (hasOut : Bool) (outLen : Nat) :
    Option (Bool × HmacCtx γ × Bytes × Nat) :=
  let md := S.algo ctx.hash
  if hasOut ∧ isAllowedDigest md then
    let innerHash := (S.final ctx.hash).1
    let hkey := xorAll (ctx.key.take md.blockSize) (opad ^^^ ipad)
    (S.updates (S.init md) [hkey, innerHash]).map fun hash =>
      let (digest, hash) := S.final hash
      let outLen := if outLen ≥ md.outputSize then md.outputSize else outLen
      (true, { ctx with hash }, digest.take outLen, outLen)
  else some (false, ctx, [], outLen)

/-- A sequence of updates, which all have to succeed. -/
def hmacUpdates : HmacCtx γ → List Bytes → Option (HmacCtx γ)
  | ctx, [] => some ctx
  | ctx, piece :: pieces =>
    (specCxHmacUpdate S ctx (.data piece)).bind fun (ret, ctx) =>
      if ret then hmacUpdates ctx pieces else none

/-- A message in pieces: what is written, and `*out_len`. -/
def hmacPieces (ctx : HmacCtx γ) (md : CxMd) (key : Bytes) (pieces : List Bytes) (outLen : Nat) :
    Option (Bytes × Nat) :=
  (specCxHmacInit S ctx md (.data key)).bind fun (ret, ctx) =>
    if ret then
      (hmacUpdates S ctx pieces).bind fun ctx =>
        (specCxHmacFinal S ctx true outLen).bind fun (ret, _, out, outLen) =>
          if ret then some (out, outLen) else none
    else none

end

-- ---------------------------------------------------------------------------
-- What a context stands for
-- ---------------------------------------------------------------------------

section

variable {γ : Type} {S : HashFunctions γ} {H : CxMd → Bytes → Bytes}
  {fits : CxMd → List Bytes → Prop}
  {md : CxMd} {ctx : HmacCtx γ} {key K : Bytes} {done pieces : List Bytes}

theorem HashFunctions.updates_append (ctx : γ) (ps qs : List Bytes) :
    S.updates ctx (ps ++ qs) = (S.updates ctx ps).bind fun ctx => S.updates ctx qs := by
  induction ps generalizing ctx with
  | nil => rfl
  | cons p ps ih =>
    show (S.update ctx p).bind (fun ctx => S.updates ctx (ps ++ qs)) = _
    rw [HashFunctions.updates, Option.bind_assoc]
    exact congrArg _ (funext fun ctx => ih ctx)

/-- The context stands for the pieces given so far under the key block `K`. -/
structure Keyed (S : HashFunctions γ) (md : CxMd) (K : Bytes) (done : List Bytes)
    (ctx : HmacCtx γ) :
    Prop where
  hash : S.updates (S.init md) (xorAll K ipad :: done) = some ctx.hash
  key : ctx.key.take md.blockSize = xorAll K ipad

/-- The array holds the key and zeros, which is the block of the standard. -/
theorem keyArray_ok (hS : S.Streams H fits) (hmd : isAllowedDigest md) (hfits : fits md [key]) :
    ∃ array, keyArray S md key = some array ∧
    array.take md.blockSize = hmacKey md.blockSize (H md) key := by
  obtain ⟨hle, hblock⟩ := blockSize_le hmd
  have htake (k : Bytes) (hk : k.length ≤ md.blockSize) :
      (overwrite (List.replicate 128 0) 0 k).take md.blockSize =
        k ++ List.replicate (md.blockSize - k.length) 0 := by
    rw [overwrite_zero, List.drop_replicate, List.take_append, List.take_of_length_le hk,
      List.take_replicate, Nat.min_eq_left (by omega)]
  rw [keyArray]
  by_cases hlong : key.length > md.blockSize
  · obtain ⟨ctx, hupdates, -, -, hfinal, -⟩ := hS.updates hmd hfits
    obtain ⟨ctx', hupdate, hnil⟩ := Option.bind_eq_some_iff.mp hupdates
    cases hnil
    refine ⟨_, (if_pos hlong).trans (congrArg (Option.map _) hupdate), ?_⟩
    rw [List.flatten_singleton] at hfinal
    show (overwrite _ 0 (S.final ctx).1).take md.blockSize = _
    rw [hfinal, htake _ (by rw [hS.length_digest hmd]; exact hle), hmacKey, if_pos hlong]
  · exact ⟨_, if_neg hlong, by rw [htake _ (Nat.not_lt.mp hlong), hmacKey, if_neg hlong]⟩

theorem startInner_ok (hS : S.Streams H fits) (hmd : isAllowedDigest md)
    (hK : array.take md.blockSize = xorAll K ipad) (hfits : fits md [xorAll K ipad]) :
    ∃ ctx, startInner S md array = some (true, ctx) ∧ Keyed S md K [] ctx := by
  obtain ⟨hash, hupdates, -⟩ := hS.updates hmd hfits
  obtain ⟨hash', hupdate, hnil⟩ := Option.bind_eq_some_iff.mp hupdates
  cases hnil
  refine ⟨⟨hash, array⟩, ?_, ⟨hupdates, hK⟩⟩
  rw [startInner, hK, hupdate]
  rfl

theorem specCxHmacInit_ok (ctx : HmacCtx γ) (hS : S.Streams H fits) (hmd : isAllowedDigest md)
    (hkey : fits md [key]) (hfits : fits md [xorAll (hmacKey md.blockSize (H md) key) ipad]) :
    ∃ ctx', specCxHmacInit S ctx md (.data key) = some (true, ctx') ∧
      Keyed S md (hmacKey md.blockSize (H md) key) [] ctx' := by
  obtain ⟨array, harray, htake⟩ := keyArray_ok hS hmd hkey
  have hlen : (hmacKey md.blockSize (H md) key).length = md.blockSize :=
    length_hmacKey (by rw [hS.length_digest hmd]; exact (blockSize_le hmd).1)
  obtain ⟨ctx', hstart, hkeyed⟩ := startInner_ok hS hmd
    (show (addPad array md.blockSize ipad).take md.blockSize = _ by
      rw [addPad, htake]
      exact List.take_left' (by rw [length_xorAll, hlen])) hfits
  refine ⟨ctx', ?_, hkeyed⟩
  rw [specCxHmacInit, if_pos hmd, harray]
  exact hstart

theorem Keyed.context (hS : S.Streams H fits) (hmd : isAllowedDigest md)
    (hctx : Keyed S md K done ctx) (hfits : fits md (xorAll K ipad :: done)) :
    S.algo ctx.hash = md ∧ S.valid ctx.hash = true ∧
      (S.final ctx.hash).1 = H md (xorAll K ipad ++ done.flatten) := by
  obtain ⟨hash, hupdates, halgo, hvalid, hfinal, -⟩ := hS.updates hmd hfits
  cases hupdates.symm.trans hctx.hash
  exact ⟨halgo, hvalid, hfinal⟩

theorem specCxHmacUpdate_ok (hS : S.Streams H fits) (hmd : isAllowedDigest md)
    (hctx : Keyed S md K done ctx) (hfits : fits md (xorAll K ipad :: (done ++ [piece]))) :
    ∃ ctx', specCxHmacUpdate S ctx (.data piece) = some (true, ctx') ∧
      Keyed S md K (done ++ [piece]) ctx' := by
  have hdone : fits md ((xorAll K ipad :: done) ++ [piece]) := hfits
  obtain ⟨halgo, -⟩ := hctx.context hS hmd (hS.fits_append hdone)
  obtain ⟨hash, hupdates, -⟩ := hS.updates hmd hfits
  have hsplit := S.updates_append (S.init md) (xorAll K ipad :: done) [piece]
  rw [hctx.hash] at hsplit
  have hone : S.updates ctx.hash [piece] = some hash := hsplit.symm.trans hupdates
  obtain ⟨hash', hupdate, hnil⟩ := Option.bind_eq_some_iff.mp hone
  cases hnil
  refine ⟨{ ctx with hash }, ?_, ⟨hupdates, hctx.key⟩⟩
  rw [specCxHmacUpdate, halgo, if_pos hmd, hupdate]
  rfl

theorem hmacUpdates_ok (hS : S.Streams H fits) (hmd : isAllowedDigest md)
    (hctx : Keyed S md K done ctx) (hfits : fits md (xorAll K ipad :: (done ++ pieces))) :
    ∃ ctx', hmacUpdates S ctx pieces = some ctx' ∧ Keyed S md K (done ++ pieces) ctx' := by
  induction pieces generalizing done ctx with
  | nil =>
    rw [List.append_nil]
    exact ⟨ctx, rfl, hctx⟩
  | cons piece pieces ih =>
    have hassoc : done ++ piece :: pieces = (done ++ [piece]) ++ pieces := by simp
    rw [hassoc] at hfits ⊢
    have hsplit : fits md ((xorAll K ipad :: (done ++ [piece])) ++ pieces) := hfits
    obtain ⟨ctx₁, hstep, hctx₁⟩ := specCxHmacUpdate_ok hS hmd hctx (hS.fits_append hsplit)
    obtain ⟨ctx₂, hrest, hctx₂⟩ := ih hctx₁ hfits
    refine ⟨ctx₂, ?_, hctx₂⟩
    rw [hmacUpdates, hstep]
    exact hrest

def hmacBlock (H : CxMd → Bytes → Bytes) (md : CxMd) (K m : Bytes) : Bytes :=
  H md (xorAll K opad ++ H md (xorAll K ipad ++ m))

theorem specCxHmacFinal_ok (hS : S.Streams H fits) (hmd : isAllowedDigest md)
    (hctx : Keyed S md K done ctx) (hinner : fits md (xorAll K ipad :: done))
    (houter : fits md [xorAll K opad, H md (xorAll K ipad ++ done.flatten)]) (outLen : Nat) :
    ∃ ctx', specCxHmacFinal S ctx true outLen = some (true, ctx',
        (hmacBlock H md K done.flatten).take (min outLen md.outputSize), min outLen md.outputSize) ∧
      S.algo ctx'.hash = md := by
  obtain ⟨halgo, -, hfinal⟩ := hctx.context hS hmd hinner
  obtain ⟨hash, hupdates, -, -, hdigest, halgo'⟩ := hS.updates hmd houter
  have hpad : ipad ^^^ (opad ^^^ ipad) = opad := rfl
  have hmin : (if outLen ≥ md.outputSize then md.outputSize else outLen) =
      min outLen md.outputSize := by
    split <;> omega
  refine ⟨{ ctx with hash := (S.final hash).2 }, ?_, halgo'⟩
  simp only [specCxHmacFinal, halgo, hctx.key, hfinal, xorAll_xorAll, hpad, hupdates, hmd]
  rw [if_pos ⟨trivial, trivial⟩, Option.map_some, hdigest, hmin]
  simp [hmacBlock]

/-- The hash takes what it is given for a message: the key, the inner message and the outer one. -/
structure HmacFits (fits : CxMd → List Bytes → Prop) (H : CxMd → Bytes → Bytes) (md : CxMd)
    (key : Bytes) (pieces : List Bytes) : Prop where
  keyAlone : fits md [key]
  inner : fits md (xorAll (hmacKey md.blockSize (H md) key) ipad :: pieces)
  outer : fits md [xorAll (hmacKey md.blockSize (H md) key) opad,
    H md (xorAll (hmacKey md.blockSize (H md) key) ipad ++ pieces.flatten)]

theorem HmacFits.init_ok (hfits : HmacFits fits H md key pieces) (hS : S.Streams H fits)
    (hmd : isAllowedDigest md) (ctx : HmacCtx γ) :
    ∃ ctx', specCxHmacInit S ctx md (.data key) = some (true, ctx') ∧
      Keyed S md (hmacKey md.blockSize (H md) key) [] ctx' :=
  specCxHmacInit_ok ctx hS hmd hfits.keyAlone (hS.fits_append hfits.inner)

theorem HmacFits.final_ok (hfits : HmacFits fits H md key pieces) (hS : S.Streams H fits)
    (hmd : isAllowedDigest md) (hctx : Keyed S md (hmacKey md.blockSize (H md) key) pieces ctx)
    (outLen : Nat) :
    ∃ ctx', specCxHmacFinal S ctx true outLen = some (true, ctx',
      (hmac md.blockSize (H md) key pieces.flatten).take (min outLen md.outputSize),
      min outLen md.outputSize) := by
  obtain ⟨ctx', hfinal, -⟩ := specCxHmacFinal_ok hS hmd hctx hfits.inner hfits.outer outLen
  exact ⟨ctx', hfinal⟩

/-- For every allowed hash with the streaming law, the value is that of the standard. A hash that
takes every sequence of pieces has `fits` true of all of them, and then `hfits` asks nothing. -/
theorem hmacPieces_eq (hS : S.Streams H fits) (hmd : isAllowedDigest md) (ctx : HmacCtx γ)
    (hfits : HmacFits fits H md key pieces) (outLen : Nat) :
    hmacPieces S ctx md key pieces outLen =
      some ((hmac md.blockSize (H md) key pieces.flatten).take (min outLen md.outputSize),
        min outLen md.outputSize) := by
  obtain ⟨ctx₁, hinit, hctx₁⟩ := hfits.init_ok hS hmd ctx
  obtain ⟨ctx₂, hupdates, hctx₂⟩ := hmacUpdates_ok hS hmd hctx₁ hfits.inner
  obtain ⟨ctx₃, hfinal⟩ := hfits.final_ok hS hmd hctx₂ outLen
  rw [hmacPieces, hinit]
  show (hmacUpdates S ctx₁ pieces).bind _ = _
  rw [hupdates]
  show (specCxHmacFinal S ctx₂ true outLen).bind _ = _
  rw [hfinal]
  rfl

end

-- ---------------------------------------------------------------------------
-- The limits of the program
-- ---------------------------------------------------------------------------

section

variable {H : CxMd → Bytes → Bytes} {md : CxMd} {key : Bytes} {pieces : List Bytes}

theorem hmacFits_of_takes (hmd : isAllowedDigest md) (hlen : ∀ m, (H md m).length = md.outputSize)
    (hkey : md.fits [key]) (hpieces : ∀ piece ∈ pieces, inMemory piece)
    (htakes : md.takes (md.blockSize + pieces.flatten.length)) :
    HmacFits CxMd.fits H md key pieces := by
  have hblock (pad : UInt8) :
      (xorAll (hmacKey md.blockSize (H md) key) pad).length = md.blockSize := by
    rw [length_xorAll, length_hmacKey (by rw [hlen]; exact (blockSize_le hmd).1)]
  refine ⟨hkey, ⟨?_, ?_⟩, fits_outer hmd (hblock opad) (hlen _)⟩
  · rwa [List.flatten_cons, List.length_append, hblock]
  · exact List.forall_mem_cons.mpr
      ⟨inMemory_short hmd (Nat.le_of_eq (hblock ipad)), hpieces⟩

/-- Hash functions that keep what they are given, and throw beyond the limit. -/
def limitedHashes (H : CxMd → Bytes → Bytes) : HashFunctions (CxMd × Bytes) where
  algo ctx := ctx.1
  valid _ := true
  init md := (md, [])
  update ctx data := if ctx.1.takes (ctx.2 ++ data).length then some (ctx.1, ctx.2 ++ data)
    else none
  final ctx := (H ctx.1 ctx.2, ctx)

theorem limitedHashes_updates {ctx : CxMd × Bytes} {pieces : List Bytes}
    (h : ctx.1.takes (ctx.2 ++ pieces.flatten).length) :
    (limitedHashes H).updates ctx pieces = some (ctx.1, ctx.2 ++ pieces.flatten) := by
  induction pieces generalizing ctx with
  | nil =>
    rw [List.flatten_nil, List.append_nil]
    rfl
  | cons piece pieces ih =>
    rw [List.flatten_cons, ← List.append_assoc] at h ⊢
    have hpiece : ctx.1.takes (ctx.2 ++ piece).length :=
      h.mono ((Nat.le_add_right _ _).trans_eq List.length_append.symm)
    have hupdate : (limitedHashes H).update ctx piece = some (ctx.1, ctx.2 ++ piece) :=
      if_pos hpiece
    rw [HashFunctions.updates, hupdate]
    exact ih h

theorem limitedHashes_streams (h : ∀ md m, (H md m).length = md.outputSize) :
    (limitedHashes H).Streams H CxMd.fits where
  fits_append := CxMd.fits.append_left
  updates _ hfits := ⟨_, limitedHashes_updates hfits.1, rfl, rfl, rfl, rfl⟩
  length_digest _ := h _ _

end

def endHash (md : CxMd) (m : Bytes) : Bytes :=
  (m.reverse ++ List.replicate md.outputSize 0).take md.outputSize

theorem length_endHash (md : CxMd) (m : Bytes) : (endHash md m).length = md.outputSize := by
  rw [endHash, List.length_take, List.length_append, List.length_replicate]
  omega

theorem hmacPieces_endHash :
    hmacPieces (limitedHashes endHash) ⟨(.sha256, []), []⟩ .sha256 [0x6b] [[0x61], [], [0x62]] 3 =
      some ((hmac 64 (endHash .sha256) [0x6b] [0x61, 0x62]).take 3, 3) :=
  hmacPieces_eq (limitedHashes_streams length_endHash) rfl _
    (hmacFits_of_takes rfl (length_endHash _) (by decide) (by decide) (by decide)) 3

end Speculos.Hash
