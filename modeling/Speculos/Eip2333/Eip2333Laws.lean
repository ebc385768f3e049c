import Speculos.Eip2333.OsEip2333

/-!
# The derivation is that of the standard

Every loop is read as what the standard says of its result: the fused loop of a Lamport
key by the blocks of one expansion, the search of a key by the relation of the standard.
-/

namespace Speculos.Eip2333

open Lib Hash
open Standard (order)
open Speculos.Bn (bnBn2binpad)
open Speculos.Bip32 (cxMathIsZero cxMathIsZero_eq)

theorem fromBE_cxBls12381G1N : fromBE cxBls12381G1N = order := by decide

theorem order_bounds : 0 < order ∧ order < 256 ^ 32 := by decide

section

variable {γ : Type} {S : HashFunctions γ} {H : CxMd → Bytes → Bytes}

def hmacSha256 (H : CxMd → Bytes → Bytes) : Bytes → Bytes → Bytes := hmac 64 (H .sha256)

theorem length_sha256 (hS : S.Streams H CxMd.fits) (m : Bytes) : (H .sha256 m).length = 32 :=
  hS.length_digest (show isAllowedDigest .sha256 from rfl)

theorem fits_short (h : pieces.flatten.length ≤ 2 ^ 20) : CxMd.fits .sha256 pieces := by
  refine ⟨CxMd.takes.mono (show CxMd.takes .sha256 (2 ^ 20) by decide) h, fun piece hpiece => ?_⟩
  have hle := (List.sublist_flatten_of_mem hpiece).length_le
  rw [inMemory]
  omega

theorem hmacFits_short (hS : S.Streams H CxMd.fits) (hkey : key.length ≤ 2 ^ 20)
    (h : pieces.flatten.length ≤ 2 ^ 19) : HmacFits CxMd.fits H .sha256 key pieces := by
  have hblock : CxMd.blockSize .sha256 + pieces.flatten.length ≤ 2 ^ 20 := by
    show 64 + _ ≤ _
    omega
  refine hmacFits_of_takes rfl (fun m => hS.length_digest rfl) (fits_short (by simpa using hkey)) ?_
    (CxMd.takes.mono (show CxMd.takes .sha256 (2 ^ 20) by decide) hblock)
  exact (fits_short (Nat.le_trans h (by decide))).2

theorem length_hmacSha256 (hS : S.Streams H CxMd.fits) (key m : Bytes) :
    (hmacSha256 H key m).length = 32 := length_sha256 hS _

theorem sysCxHashSha256_short (hS : S.Streams H CxMd.fits) (h : data.length ≤ 2 ^ 20) :
    sysCxHashSha256 S data = some (H .sha256 data) :=
  sysCxHashSha256_eq hS (fits_short (by simpa using h))

theorem cxHkdfExtract_short (hS : S.Streams H CxMd.fits) (stack : HmacCtx γ)
    (hsalt : salt.length ≤ 32) (hikm : ikm.length ≤ 65) :
    cxHkdfExtract S stack .sha256 ikm (some salt) = some (hkdfExtract (hmacSha256 H) salt ikm) := by
  have hmessage : [ikm].flatten.length ≤ 2 ^ 19 := by
    rw [List.flatten_singleton]
    exact Nat.le_trans hikm (by decide)
  exact cxHkdfExtract_eq hS rfl stack (hmacFits_short hS (Nat.le_trans hsalt (by decide)) hmessage)

-- ---------------------------------------------------------------------------
-- cx_hkdf_mod_r
-- ---------------------------------------------------------------------------

theorem cxMathModm_drop (hlen : okm.length = 48) :
    ((cxMathModm okm cxBls12381G1N).drop (cxHkdfModRCeil - keyLength)).take keyLength =
      toBE 32 (fromBE okm % order) := by
  have hlt : fromBE okm % order < 256 ^ 48 :=
    Nat.lt_trans (Nat.mod_lt _ order_bounds.1) (Nat.lt_trans order_bounds.2 (by decide))
  have hmod : cxMathModm okm cxBls12381G1N = toBE (16 + 32) (fromBE okm % order) := by
    rw [cxMathModm, hlen, fromBE_cxBls12381G1N, bnBn2binpad, if_pos hlt]
    rfl
  rw [hmod]
  show ((toBE (16 + 32) (fromBE okm % order)).drop 16).take 32 = _
  rw [drop_toBE, List.take_of_length_le (Nat.le_of_eq (length_toBE ..))]

theorem cxMathIsZero_toBE (hsk : sk < order) : cxMathIsZero (toBE 32 sk) ≠ 0 ↔ sk = 0 := by
  rw [cxMathIsZero_eq, fromBE_toBE_of_lt (Nat.lt_trans hsk order_bounds.2)]
  by_cases h : sk = 0 <;> simp [h]

theorem cxHkdfExpand_short (hS : S.Streams H CxMd.fits) (stack : HmacCtx γ)
    (hprk : prk.length = 32) (hinfo : info.length ≤ 66) :
    specCxHkdfExpand S stack .sha256 prk info cxHkdfModRCeil =
        some (hkdfExpand (hmacSha256 H) 32 prk info 48) ∧
      (hkdfExpand (hmacSha256 H) 32 prk info 48).length = 48 := by
  have hmd : isAllowedDigest .sha256 := rfl
  have hmemory : inMemory info := by
    rw [inMemory]
    omega
  have htakes : CxMd.takes .sha256 (64 + (32 + (info.length + 1))) :=
    CxMd.takes.mono (show CxMd.takes .sha256 256 by decide) (by omega)
  have hfits : ExpansionFits CxMd.fits H .sha256 prk info 48 :=
    expansionFits_of_takes hmd (fun m => hS.length_digest hmd)
      (fits_short (by rw [List.flatten_singleton, hprk]; decide)) hmemory htakes 48
  exact ⟨specCxHkdfExpand_eq hS hmd stack (by decide) hfits,
    length_hkdfExpand hS hmd (by decide) prk info 48⟩

theorem hkdfModRLoop_turn (hS : S.Streams H CxMd.fits) (stack : HmacCtx γ)
    (hlen : ikm.length + info.length ≤ 64) (fuel : Nat) (hsalt : keySalt.length = 32) :
    hkdfModRLoop S stack (ikm ++ toBE 1 0) (info ++ toBE 2 48) (fuel + 1) keySalt (toBE 32 0) =
      hkdfModRLoop S stack (ikm ++ toBE 1 0) (info ++ toBE 2 48) fuel (H .sha256 keySalt)
        (toBE 32 (Standard.okmModR (hmacSha256 H) order ikm info keySalt)) := by
  have hextract : cxHkdfExtract S stack .sha256 (ikm ++ toBE 1 0) (some keySalt) =
      some (hkdfExtract (hmacSha256 H) keySalt (ikm ++ toBE 1 0)) := by
    refine cxHkdfExtract_short hS stack (Nat.le_of_eq hsalt) ?_
    rw [List.length_append, length_toBE]
    omega
  have hinfo : (info ++ toBE 2 48).length ≤ 66 := by
    rw [List.length_append, length_toBE]
    omega
  obtain ⟨hexpand, hlength⟩ := cxHkdfExpand_short hS stack
    (length_hmacSha256 hS keySalt (ikm ++ toBE 1 0)) hinfo
  have hhash : sysCxHashSha256 S keySalt = some (H .sha256 keySalt) :=
    sysCxHashSha256_short hS (hsalt ▸ by decide)
  rw [hkdfModRLoop, if_pos ((cxMathIsZero_toBE order_bounds.1).mpr rfl), hextract, hhash]
  simp only [Option.bind_eq_bind, Option.bind_some, hkdfExtract, hexpand, cxMathModm_drop hlength]
  rfl

/-- The loop stops as soon as the key is not zero. -/
theorem hkdfModRLoop_stop (stack : HmacCtx γ) (ikm info keySalt : Bytes) (fuel : Nat)
    (hlt : sk < order) (h : sk ≠ 0) :
    hkdfModRLoop S stack ikm info (fuel + 1) keySalt (toBE 32 sk) = some (toBE 32 sk) := by
  rw [hkdfModRLoop, if_neg (mt (cxMathIsZero_toBE hlt).mp h)]

theorem okmModR_lt (H : CxMd → Bytes → Bytes) (ikm info salt : Bytes) :
    Standard.okmModR (hmacSha256 H) order ikm info salt < order := Nat.mod_lt _ order_bounds.1

theorem hkdfModRLoop_sound (hS : S.Streams H CxMd.fits) (stack : HmacCtx γ)
    (hlen : ikm.length + info.length ≤ 64) (salt : Bytes)
    (h : hkdfModRLoop S stack (ikm ++ toBE 1 0) (info ++ toBE 2 48) fuel (H .sha256 salt)
      (toBE 32 0) = some out) :
    ∃ sk, Standard.HkdfModR (H .sha256) (hmacSha256 H) order ikm info salt sk ∧
      out = toBE 32 sk := by
  induction fuel generalizing salt with
  | zero => cases h
  | succ fuel ih =>
    rw [hkdfModRLoop_turn hS stack hlen fuel (length_sha256 hS salt)] at h
    have hlt := okmModR_lt H ikm info (H .sha256 salt)
    by_cases hzero : Standard.okmModR (hmacSha256 H) order ikm info (H .sha256 salt) = 0
    · rw [hzero] at h
      obtain ⟨sk, hsk, hout⟩ := ih (H .sha256 salt) h
      exact ⟨sk, .rehash hzero hsk, hout⟩
    · cases fuel with
      | zero => cases h
      | succ fuel =>
        rw [hkdfModRLoop_stop stack _ _ _ _ hlt hzero] at h
        exact ⟨_, .key hzero, (Option.some.inj h).symm⟩

theorem hkdfModRLoop_complete (hS : S.Streams H CxMd.fits) (stack : HmacCtx γ)
    (hlen : ikm.length + info.length ≤ 64)
    (h : Standard.HkdfModR (H .sha256) (hmacSha256 H) order ikm info salt sk) :
    ∃ fuel, hkdfModRLoop S stack (ikm ++ toBE 1 0) (info ++ toBE 2 48) fuel (H .sha256 salt)
      (toBE 32 0) = some (toBE 32 sk) := by
  induction h with
  | key h =>
    refine ⟨2, ?_⟩
    rw [hkdfModRLoop_turn hS stack hlen _ (length_sha256 hS _),
      hkdfModRLoop_stop stack _ _ _ _ (okmModR_lt ..) h]
  | rehash h _ ih =>
    obtain ⟨fuel, hloop⟩ := ih
    refine ⟨fuel + 1, ?_⟩
    rw [hkdfModRLoop_turn hS stack hlen _ (length_sha256 hS _), h, hloop]

theorem hkdfModRLoop_mono (h : hkdfModRLoop S stack ikm info fuel keySalt sk = some out)
    (hle : fuel ≤ fuel') : hkdfModRLoop S stack ikm info fuel' keySalt sk = some out := by
  induction fuel generalizing fuel' keySalt sk with
  | zero => cases h
  | succ fuel ih =>
    obtain ⟨fuel', rfl⟩ := Nat.exists_eq_add_of_le' (Nat.le_trans (Nat.le_add_left 1 fuel) hle)
    rw [hkdfModRLoop] at h ⊢
    split at h
    · rename_i hzero
      simp only [Option.bind_eq_bind, Option.bind_eq_some_iff] at h
      obtain ⟨prk, hprk, okm, hokm, keySalt, hsalt, h⟩ := h
      rw [if_pos hzero, hprk]
      simp only [Option.bind_eq_bind, Option.bind_some, hokm, hsalt]
      exact ih h (Nat.le_of_succ_le_succ hle)
    · rename_i hkey
      rwa [if_neg hkey]

theorem cxHkdfModR_eq (hS : S.Streams H CxMd.fits) (stack : HmacCtx γ) (ikm info : Bytes)
    (fuel : Nat) :
    cxHkdfModR S stack ikm none info fuel =
      hkdfModRLoop S stack ikm info fuel (H .sha256 Standard.keygenSalt) (toBE 32 0) := by
  have hsalt : sysCxHashSha256 S hkdfModRSalt = some (H .sha256 Standard.keygenSalt) :=
    sysCxHashSha256_short hS (by decide)
  simp only [cxHkdfModR, hsalt, Option.bind_eq_bind, Option.bind_some]
  rfl

-- ---------------------------------------------------------------------------
-- cx_parent_sk_to_lamport_pk
-- ---------------------------------------------------------------------------

theorem xorAll_eq_flipBits (bs : Bytes) : xorAll bs 0xff = Standard.flipBits bs :=
  List.map_congr_left fun _ _ => UInt8.xor_neg_one

theorem sysCxHash_piece (hS : S.Streams H CxMd.fits)
    (hctx : S.updates (S.init .sha256) pieces = some ctx) (data : Bytes)
    (hfits : CxMd.fits .sha256 (pieces ++ [data])) :
    ∃ ctx', sysCxHash S ctx false data 0 = some (ctx', []) ∧
      S.updates (S.init .sha256) (pieces ++ [data]) = some ctx' := by
  have hmd : isAllowedDigest .sha256 := rfl
  obtain ⟨_, hctx', -, hvalid, -⟩ := hS.updates hmd (hS.fits_append hfits)
  cases hctx.symm.trans hctx'
  obtain ⟨ctx', hupdates, -⟩ := hS.updates hmd hfits
  have hsplit := hupdates
  rw [HashFunctions.updates_append, hctx, Option.bind_some] at hsplit
  obtain ⟨_, hupdate, hnil⟩ := Option.bind_eq_some_iff.mp hsplit
  cases hnil
  exact ⟨ctx', by simp [sysCxHash, hvalid, hupdate], hupdates⟩

theorem sysCxHash_last (hS : S.Streams H CxMd.fits)
    (hctx : S.updates (S.init .sha256) pieces = some ctx)
    (hfits : CxMd.fits .sha256 (pieces ++ [[]])) :
    ∃ ctx', sysCxHash S ctx true [] 32 = some (ctx', H .sha256 pieces.flatten) := by
  have hmd : isAllowedDigest .sha256 := rfl
  obtain ⟨_, hctx', -, hvalid, -⟩ := hS.updates hmd (hS.fits_append hfits)
  cases hctx.symm.trans hctx'
  obtain ⟨ctx', hupdates, halgo', -, hfinal, -⟩ := hS.updates hmd hfits
  rw [HashFunctions.updates_append, hctx, Option.bind_some] at hupdates
  obtain ⟨_, hupdate, hnil⟩ := Option.bind_eq_some_iff.mp hupdates
  cases hnil
  refine ⟨(S.final ctx').2, ?_⟩
  simp [sysCxHash, hvalid, hupdate, halgo', hfinal, CxMd.outputSize]

theorem cxHmac_data (hS : S.Streams H CxMd.fits) (hctx : Keyed S .sha256 K done ctx)
    (hfits : CxMd.fits .sha256 (xorAll K ipad :: (done ++ [data]))) (call : HmacCall)
    (hacc : call.accepted) (hinput : call.input = .data data) :
    ∃ ctx', Keyed S .sha256 K (done ++ [data]) ctx' ∧
      cxHmac S ctx call =
        if call.last then
          (specCxHmacFinal S ctx' call.hasOut call.outLen).bind fun (_, ctx, out, outputSize) =>
            if call.noReinit then some (some (outputSize, out), ctx)
            else
              (specCxHmacInit S ctx (S.algo ctx.hash) (.null 0)).map fun (_, ctx) =>
                (some (outputSize, out), ctx)
        else some (some (0, []), ctx') := by
  have hmd : isAllowedDigest .sha256 := rfl
  rw [← List.cons_append] at hfits
  obtain ⟨halgo, hvalid, -⟩ := hctx.context hS hmd (hS.fits_append hfits)
  obtain ⟨ctx', hupdate, hctx'⟩ := specCxHmacUpdate_ok hS hmd hctx hfits
  refine ⟨ctx', hctx', ?_⟩
  simp [cxHmac, hacc, cxSccStructCheckHashmac, halgo, hvalid, isHmacDigest, hinput, hupdate]

theorem sysCxHmac_piece (hS : S.Streams H CxMd.fits) (hctx : Keyed S .sha256 K done ctx)
    (hfits : CxMd.fits .sha256 (xorAll K ipad :: (done ++ [data]))) :
    ∃ ctx', sysCxHmac S ctx ⟨false, false, .data data, false, 0⟩ = some (ctx', []) ∧
      Keyed S .sha256 K (done ++ [data]) ctx' := by
  obtain ⟨ctx', hctx', hstep⟩ :=
    cxHmac_data hS hctx hfits ⟨false, false, .data data, false, 0⟩ rfl rfl
  refine ⟨ctx', ?_, hctx'⟩
  rw [sysCxHmac, hstep]
  rfl

theorem sysCxHmac_last (hS : S.Streams H CxMd.fits)
    (hctx : Keyed S .sha256 (hmacKey 64 (H .sha256) key) done ctx)
    (hfits : HmacFits CxMd.fits H .sha256 key (done ++ [data])) :
    ∃ ctx', sysCxHmac S ctx ⟨true, true, .data data, true, 32⟩ =
      some (ctx', hmacSha256 H key (done ++ [data]).flatten) := by
  obtain ⟨ctx₁, hctx₁, hstep⟩ :=
    cxHmac_data hS hctx hfits.inner ⟨true, true, .data data, true, 32⟩ rfl rfl
  obtain ⟨ctx₂, hfinal⟩ := hfits.final_whole hS rfl hctx₁
  refine ⟨ctx₂, ?_⟩
  have hfinal : specCxHmacFinal S ctx₁ true 32 =
      some (true, ctx₂, hmacSha256 H key (done ++ [data]).flatten, 32) := hfinal
  rw [sysCxHmac, hstep]
  simp [hfinal]

/-- The chunks of the key, hashed. -/
def hashedBlocks (H : CxMd → Bytes → Bytes) (prk : Bytes) (k turns : Nat) : List Bytes :=
  (hkdfBlocks (hmacSha256 H) prk [] k turns).map (H .sha256)

theorem lamportLoop_turn (hS : S.Streams H CxMd.fits) (stack : HmacCtx γ) (hprk : prk.length = 32)
    (k turns : Nat) (hctx : S.updates (S.init .sha256) pieces = some ctx)
    (hlen : pieces.flatten.length + 32 ≤ 2 ^ 20) :
    ∃ ctx', S.updates (S.init .sha256) (pieces ++
        [H .sha256 (hkdfBlock (hmacSha256 H) prk [] (k + 1))]) =
        some ctx' ∧
      lamportLoop S stack prk (turns + 1) (k + 1) (UInt8.ofNat (k + 1))
          (hkdfBlock (hmacSha256 H) prk [] k) ctx =
        lamportLoop S stack prk turns (k + 2) (UInt8.ofNat (k + 2))
          (hkdfBlock (hmacSha256 H) prk [] (k + 1)) ctx' := by
  have hnext : UInt8.ofNat (k + 1) + 1 = UInt8.ofNat (k + 2) := (UInt8.ofNat_add (k + 1) 1).symm
  have hprevious : (previousBlock H .sha256 prk [] k).flatten.length ≤ 32 :=
    length_previousBlock_le (length_sha256 hS) prk [] k
  have hfits : HmacFits CxMd.fits H .sha256 prk
      (previousBlock H .sha256 prk [] k ++ [[UInt8.ofNat (k + 1)]]) := by
    refine hmacFits_short hS (hprk ▸ by decide) ?_
    rw [List.flatten_append, List.length_append, List.flatten_singleton, List.length_singleton]
    omega
  obtain ⟨ctx₁, hinit, hctx₁⟩ := hfits.init_ok hS rfl stack
  -- in the first turn there is no block before
  obtain ⟨ctx₂, hfirst, hctx₂⟩ : ∃ ctx₂,
      (if k + 1 ≠ 1 then
        sysCxHmac S ctx₁ ⟨false, false, .data (hkdfBlock (hmacSha256 H) prk [] k), false, 0⟩
        else some (ctx₁, [])) = some (ctx₂, []) ∧
      Keyed S .sha256 (hmacKey 64 (H .sha256) prk) (previousBlock H .sha256 prk [] k) ctx₂ := by
    cases k with
    | zero => exact ⟨ctx₁, rfl, hctx₁⟩
    | succ k =>
      obtain ⟨ctx₂, hpiece, hctx₂⟩ := sysCxHmac_piece hS hctx₁ (hS.fits_append hfits.inner)
      exact ⟨ctx₂, (if_pos (by simp)).trans hpiece, hctx₂⟩
  obtain ⟨ctx₃, hlast⟩ := sysCxHmac_last hS hctx₂ hfits
  have hvalue : hmacSha256 H prk
      (previousBlock H .sha256 prk [] k ++ [[UInt8.ofNat (k + 1)]]).flatten =
        hkdfBlock (hmacSha256 H) prk [] (k + 1) := by
    have hflatten : (previousBlock H .sha256 prk [] k ++ [[UInt8.ofNat (k + 1)]]).flatten =
        (expansionPieces H .sha256 prk [] k).flatten := by simp [expansionPieces]
    rw [hflatten]
    exact hmac_expansionPieces H .sha256 prk [] k
  rw [hvalue] at hlast
  have hchunk : sysCxHashSha256 S (hkdfBlock (hmacSha256 H) prk [] (k + 1)) =
      some (H .sha256 (hkdfBlock (hmacSha256 H) prk [] (k + 1))) :=
    sysCxHashSha256_short hS (by rw [hkdfBlock, length_hmacSha256 hS]; decide)
  obtain ⟨ctx', hpiece, hctx'⟩ := sysCxHash_piece hS hctx
    (H .sha256 (hkdfBlock (hmacSha256 H) prk [] (k + 1))) (fits_short (by
      rw [List.flatten_append, List.length_append, List.flatten_singleton, length_sha256 hS]
      exact hlen))
  refine ⟨ctx', hctx', ?_⟩
  rw [lamportLoop, hinit]
  simp only [Option.bind_eq_bind, Option.bind_some, hfirst, hlast, hchunk, hpiece, hnext]

theorem lamportLoop_eq (hS : S.Streams H CxMd.fits) (stack : HmacCtx γ) (hprk : prk.length = 32)
    (k turns : Nat) (hctx : S.updates (S.init .sha256) pieces = some ctx)
    (hlen : pieces.flatten.length + 32 * turns ≤ 2 ^ 20) :
    ∃ ctx', lamportLoop S stack prk turns (k + 1) (UInt8.ofNat (k + 1))
        (hkdfBlock (hmacSha256 H) prk [] k) ctx = some ctx' ∧
      S.updates (S.init .sha256) (pieces ++ hashedBlocks H prk k turns) = some ctx' := by
  induction turns generalizing k pieces ctx with
  | zero => exact ⟨ctx, rfl, by simpa [hashedBlocks, hkdfBlocks] using hctx⟩
  | succ turns ih =>
    obtain ⟨ctx₁, hctx₁, hturn⟩ := lamportLoop_turn hS stack hprk k turns hctx (by omega)
    have hlen₁ : (pieces ++ [H .sha256 (hkdfBlock (hmacSha256 H) prk [] (k + 1))]).flatten.length +
        32 * turns ≤ 2 ^ 20 := by
      rw [List.flatten_append, List.length_append, List.flatten_singleton, length_sha256 hS]
      omega
    obtain ⟨ctx', hloop, hctx'⟩ := ih (k + 1) hctx₁ hlen₁
    refine ⟨ctx', hturn.trans hloop, ?_⟩
    rw [hashedBlocks, hkdfBlocks_succ, List.map_cons]
    simpa [hashedBlocks] using hctx'

theorem lamportHalf_eq (hS : S.Streams H CxMd.fits) (stack : HmacCtx γ)
    (hsk : localSk.length = 32) (hsalt : salt.length = 4)
    (hctx : S.updates (S.init .sha256) pieces = some ctx)
    (hlen : pieces.flatten.length + 32 * 255 ≤ 2 ^ 20) :
    ∃ ctx', lamportHalf S stack localSk salt ctx = some ctx' ∧
      S.updates (S.init .sha256) (pieces ++
        (Standard.ikmToLamportSk (hmacSha256 H) localSk salt).map (H .sha256)) = some ctx' := by
  have hextract : cxHkdfExtract S stack .sha256 localSk (some salt) =
      some (hkdfExtract (hmacSha256 H) salt localSk) :=
    cxHkdfExtract_short hS stack (hsalt ▸ by decide) (hsk ▸ by decide)
  rw [Standard.ikmToLamportSk, bytesSplit_hkdfExpand (by decide) (length_hmacSha256 hS _)]
  obtain ⟨ctx', hloop, hctx'⟩ :=
    lamportLoop_eq hS stack (length_hmacSha256 hS salt localSk) 0 255 hctx hlen
  refine ⟨ctx', ?_, hctx'⟩
  rw [lamportHalf, hextract]
  exact hloop

theorem length_hashedLamport (hS : S.Streams H CxMd.fits) (ikm salt : Bytes) :
    ((Standard.ikmToLamportSk (hmacSha256 H) ikm salt).map (H .sha256)).flatten.length =
      255 * 32 := by
  have hall : ∀ p ∈ (Standard.ikmToLamportSk (hmacSha256 H) ikm salt).map (H .sha256),
      p.length = 32 := by
    intro p hp
    obtain ⟨m, -, rfl⟩ := List.mem_map.mp hp
    exact length_sha256 hS m
  rw [length_flatten_of_forall _ hall, Standard.ikmToLamportSk,
    bytesSplit_hkdfExpand (by decide) (length_hmacSha256 hS _)]
  simp [hkdfBlocks]

theorem cxParentSkToLamportPk_eq (hS : S.Streams H CxMd.fits) (stack : HmacCtx γ) (sk : Nat)
    (index : UInt32) :
    cxParentSkToLamportPk S stack (toBE 32 sk) index =
      some (Standard.parentSkToLamportPk (H .sha256) (hmacSha256 H) sk index) := by
  have htake : (toBE 32 sk).take keyLength = toBE 32 sk :=
    List.take_of_length_le (Nat.le_of_eq (length_toBE ..))
  have hstart : S.updates (S.init .sha256) [] = some (S.init .sha256) := rfl
  have hsk : (toBE 32 sk).length = 32 := length_toBE ..
  have hsalt : (toBE 4 index.toNat).length = 4 := length_toBE ..
  have hhalf (ikm : Bytes) := length_hashedLamport hS ikm (toBE 4 index.toNat)
  obtain ⟨ctx₁, hfirst, hctx₁⟩ := lamportHalf_eq hS stack hsk hsalt hstart (by decide)
  obtain ⟨ctx₂, hsecond, hctx₂⟩ := lamportHalf_eq hS stack
    (show (xorAll (toBE 32 sk) 0xff).length = 32 by rw [length_xorAll, hsk]) hsalt hctx₁
    (by rw [List.nil_append, hhalf]; decide)
  obtain ⟨ctx₃, hlast⟩ := sysCxHash_last hS hctx₂ (fits_short (by
    rw [List.nil_append, List.flatten_append, List.flatten_append, List.length_append,
      List.length_append, hhalf, hhalf]
    decide))
  rw [cxParentSkToLamportPk, htake]
  simp only [Option.bind_eq_bind, hfirst, Option.bind_some, hsecond, hlast]
  rw [Standard.parentSkToLamportPk, ← xorAll_eq_flipBits, List.nil_append, List.flatten_append]
  rfl

-- ---------------------------------------------------------------------------
-- The path
-- ---------------------------------------------------------------------------

theorem cxDeriveMasterSk_eq (hS : S.Streams H CxMd.fits) (stack : HmacCtx γ) (seed : Bytes)
    (fuel : Nat) :
    cxDeriveMasterSk S stack seed fuel =
      hkdfModRLoop S stack (seed ++ toBE 1 0) ([] ++ toBE 2 48) fuel (H .sha256 Standard.keygenSalt)
        (toBE 32 0) := by
  have hikm : (overwrite (overwrite (List.replicate 65 0) 0 seed) seed.length [0]).take
      (seed.length + 1) =
      seed ++ [0] := by
    have hlen : (seed ++ (List.replicate 65 0).drop seed.length).take seed.length = seed :=
      List.take_left
    rw [overwrite_zero, overwrite, hlen]
    exact List.take_left' (by simp)
  rw [cxDeriveMasterSk, hikm]
  exact cxHkdfModR_eq hS stack _ _ fuel

theorem childStep_eq (hS : S.Streams H CxMd.fits) (stack : HmacCtx γ) (sk : Nat)
    (index : UInt32) (fuel : Nat) :
    childStep S stack fuel (toBE 32 sk) index =
      hkdfModRLoop S stack
        (Standard.parentSkToLamportPk (H .sha256) (hmacSha256 H) sk index ++ toBE 1 0)
        ([] ++ toBE 2 48)
        fuel (H .sha256 Standard.keygenSalt) (toBE 32 0) := by
  have hlen : (Standard.parentSkToLamportPk (H .sha256) (hmacSha256 H) sk index).length = 32 :=
    length_sha256 hS _
  have hikm : overwrite (Standard.parentSkToLamportPk (H .sha256) (hmacSha256 H) sk index ++ [0])
      keyLength [0] = Standard.parentSkToLamportPk (H .sha256) (hmacSha256 H) sk index ++ [0] := by
    rw [overwrite_end _ _ (by simp [hlen, keyLength]), keyLength, List.take_left' hlen]
  rw [childStep, cxParentSkToLamportPk_eq hS]
  simp only [Option.bind_eq_bind, Option.bind_some, hikm]
  exact cxHkdfModR_eq hS stack _ _ fuel

theorem length_lamportPk (hS : S.Streams H CxMd.fits) (sk : Nat) (index : UInt32) :
    (Standard.parentSkToLamportPk (H .sha256) (hmacSha256 H) sk index).length +
      ([] : Bytes).length ≤ 64 := by
  rw [Standard.parentSkToLamportPk, length_sha256 hS]
  decide

theorem path_sound (hS : S.Streams H CxMd.fits) (stack : HmacCtx γ) (path : List UInt32)
    (sk : Nat) (h : path.foldlM (childStep S stack fuel) (toBE 32 sk) = some out) :
    ∃ sk', Standard.Derives (H .sha256) (hmacSha256 H) order sk path sk' ∧ out = toBE 32 sk' := by
  induction path generalizing sk with
  | nil => exact ⟨sk, .nil, (Option.some.inj h).symm⟩
  | cons index path ih =>
    rw [List.foldlM_cons, childStep_eq hS] at h
    obtain ⟨child, hchild, h⟩ := Option.bind_eq_some_iff.mp h
    obtain ⟨sk₁, hsk₁, hout₁⟩ := hkdfModRLoop_sound hS stack (length_lamportPk hS ..) _ hchild
    rw [hout₁] at h
    obtain ⟨sk', hderives, hout⟩ := ih sk₁ h
    exact ⟨sk', .cons hsk₁ hderives, hout⟩

theorem childStep_mono (h : childStep S stack fuel sk index = some out) (hle : fuel ≤ fuel') :
    childStep S stack fuel' sk index = some out := by
  obtain ⟨lamportPk, hlamport, h⟩ := Option.bind_eq_some_iff.mp h
  obtain ⟨keySalt, hsalt, h⟩ := Option.bind_eq_some_iff.mp h
  exact Option.bind_eq_some_iff.mpr
    ⟨lamportPk, hlamport, Option.bind_eq_some_iff.mpr ⟨keySalt, hsalt, hkdfModRLoop_mono h hle⟩⟩

theorem path_mono {path : List UInt32} (h : path.foldlM (childStep S stack fuel) sk = some out)
    (hle : fuel ≤ fuel') :
    path.foldlM (childStep S stack fuel') sk = some out := by
  induction path generalizing sk with
  | nil => exact h
  | cons index path ih =>
    rw [List.foldlM_cons] at h ⊢
    obtain ⟨child, hchild, h⟩ := Option.bind_eq_some_iff.mp h
    exact Option.bind_eq_some_iff.mpr ⟨child, childStep_mono hchild hle, ih h⟩

theorem path_complete (hS : S.Streams H CxMd.fits) (stack : HmacCtx γ)
    (h : Standard.Derives (H .sha256) (hmacSha256 H) order sk path sk') :
    ∃ fuel, path.foldlM (childStep S stack fuel) (toBE 32 sk) = some (toBE 32 sk') := by
  induction h with
  | nil => exact ⟨0, rfl⟩
  | cons hchild _ ih =>
    obtain ⟨fuel, hloop⟩ := hkdfModRLoop_complete hS stack (length_lamportPk hS ..) hchild
    obtain ⟨fuel', hrest⟩ := ih
    refine ⟨max fuel fuel', ?_⟩
    rw [List.foldlM_cons, childStep_eq hS]
    exact Option.bind_eq_some_iff.mpr ⟨_, hkdfModRLoop_mono hloop (Nat.le_max_left ..),
      path_mono hrest (Nat.le_max_right ..)⟩

-- ---------------------------------------------------------------------------
-- sys_os_perso_derive_eip2333
-- ---------------------------------------------------------------------------

theorem derive_iff (hS : S.Streams H CxMd.fits) (stack : HmacCtx γ) (seed : Bytes)
    (hseed : seed.length ≤ 64) (hcurve : curve = 0x2f ∨ curve = 0x39) (path : List UInt32)
    (hpath : path ≠ []) (result : DeriveResult) :
    (∃ fuel, sysOsPersoDeriveEip2333 S stack seed curve (some path) true fuel = some result) ↔
      ∃ sk, Standard.DerivesFrom (H .sha256) (hmacSha256 H) order seed path sk ∧
        result = .written (toBE 32 sk) := by
  have hcurve : ¬ (curve ≠ 0x2f ∧ curve ≠ 0x39) := by
    rcases hcurve with rfl | rfl <;> simp
  have hpath : ¬ path.length < 1 := by
    rw [Nat.lt_one_iff, List.length_eq_zero_iff]
    exact hpath
  have hlen : seed.length + ([] : Bytes).length ≤ 64 := hseed
  have hget : envGetSeed seed 64 = seed := List.take_of_length_le hseed
  have hsys (fuel : Nat) : sysOsPersoDeriveEip2333 S stack seed curve (some path) true fuel =
      (hkdfModRLoop S stack (seed ++ toBE 1 0) ([] ++
        toBE 2 48) fuel (H .sha256 Standard.keygenSalt)
        (toBE 32 0)).bind fun sk => (path.foldlM (childStep S stack fuel) sk).map .written := by
    rw [sysOsPersoDeriveEip2333, if_neg hcurve, hget, cxDeriveMasterSk_eq hS stack seed]
    simp only [cxDeriveChildSk, if_neg hpath, if_true]
  simp only [hsys, Option.bind_eq_some_iff, Option.map_eq_some_iff]
  constructor
  · rintro ⟨fuel, master, hmaster, key, hkey, hresult⟩
    obtain ⟨masterSk, hmasterSk, hout⟩ := hkdfModRLoop_sound hS stack hlen _ hmaster
    rw [hout] at hkey
    obtain ⟨sk, hderives, hout⟩ := path_sound hS stack path masterSk hkey
    exact ⟨sk, ⟨masterSk, hmasterSk, hderives⟩, hresult.symm.trans (congrArg _ hout)⟩
  · rintro ⟨sk, ⟨masterSk, hmaster, hderives⟩, hresult⟩
    obtain ⟨fuel, hloop⟩ := hkdfModRLoop_complete hS stack hlen hmaster
    obtain ⟨fuel', hfold⟩ := path_complete hS stack hderives
    exact ⟨max fuel fuel', _, hkdfModRLoop_mono hloop (Nat.le_max_left ..), _,
      path_mono hfold (Nat.le_max_right ..), hresult.symm⟩

/-- The derivation ends where that of the standard does, with its key, and the master key and the
key after every index of the path are in range. -/
theorem eip2333_standard (hS : S.Streams H CxMd.fits) (stack : HmacCtx γ) (seed : Bytes)
    (hseed : seed.length ≤ 64) (hcurve : curve = 0x2f ∨ curve = 0x39) (path : List UInt32)
    (hpath : path ≠ []) :
    (∀ result,
      (∃ fuel, sysOsPersoDeriveEip2333 S stack seed curve (some path) true fuel = some result) ↔
        ∃ sk, Standard.DerivesFrom (H .sha256) (hmac 64 (H .sha256)) order seed path sk ∧
          result = .written (toBE 32 sk)) ∧
    (∀ fuel sk, cxDeriveMasterSk S stack seed fuel = some sk → 0 < fromBE sk ∧ fromBE sk < order) ∧
    ∀ fuel start sk, start <+: path → start ≠ [] →
      sysOsPersoDeriveEip2333 S stack seed curve (some start) true fuel = some (.written sk) →
      0 < fromBE sk ∧ fromBE sk < order := by
  have hvalue (sk : Nat) (h : 0 < sk ∧ sk < order) :
      0 < fromBE (toBE 32 sk) ∧ fromBE (toBE 32 sk) < order := by
    rwa [fromBE_toBE_of_lt (Nat.lt_trans h.2 order_bounds.2)]
  have hlen : seed.length + ([] : Bytes).length ≤ 64 := hseed
  refine ⟨derive_iff hS stack seed hseed hcurve path hpath, ?_, ?_⟩
  · intro fuel sk h
    rw [cxDeriveMasterSk_eq hS stack seed] at h
    obtain ⟨masterSk, hmaster, hout⟩ := hkdfModRLoop_sound hS stack hlen _ h
    rw [hout]
    exact hvalue _ (hmaster.inRange order_bounds.1)
  · intro fuel start sk _ hstart h
    obtain ⟨sk', hderives, hsk⟩ :=
      (derive_iff hS stack seed hseed hcurve start hstart _).mp ⟨fuel, h⟩
    rw [DeriveResult.written.inj hsk]
    exact hvalue _ (hderives.inRange order_bounds.1)

end

def onesHash (md : CxMd) (_ : Bytes) : Bytes := List.replicate md.outputSize 1

theorem onesHash_streams : (limitedHashes onesHash).Streams onesHash CxMd.fits :=
  limitedHashes_streams fun _ _ => List.length_replicate

theorem okmModR_onesHash (ikm salt : Bytes) :
    Standard.okmModR (hmac 64 (onesHash .sha256)) order ikm [] salt =
      fromBE (List.replicate 48 1) % order := rfl

theorem eip2333_onesHash :
    ∃ fuel, sysOsPersoDeriveEip2333 (limitedHashes onesHash) ⟨(.sha256, []), []⟩ [0x2a] 0x39
      (some [0x80000000]) true fuel =
        some (.written (toBE 32 (fromBE (List.replicate 48 1) % order))) := by
  have hne (ikm salt : Bytes) : Standard.okmModR (hmac 64 (onesHash .sha256)) order ikm [] salt ≠
      0 := by
    rw [okmModR_onesHash]
    decide
  refine ((eip2333_standard onesHash_streams ⟨(.sha256, []), []⟩ [0x2a] (by decide) (.inr rfl)
    [0x80000000] (List.cons_ne_nil _ _)).1 _).mpr
      ⟨_, ⟨_, .key (hne _ _), .cons (.key (hne _ _)) .nil⟩, ?_⟩
  rw [okmModR_onesHash]

end Speculos.Eip2333
