import Speculos.Bn.BitOps
import Speculos.Bn.Modular
import Speculos.Ec.Domain
import Speculos.Ec.Temporaries
import Speculos.Hash.Sha2Block
import Speculos.Lib.HashToField
import Speculos.Lib.Memory

/-!
# Hashing to a field

`cx_expand_message_xmd` and `sys_cx_hash_to_field` of `cx_bls.c`. The buffer of the expanded message
is the block of zeros at first, and each digest is mixed with the one that stands before its place.
The length of the tag is written behind it, into an array of 64 bytes.
-/

namespace Speculos.Bls

open Lib Bn Ec Hash

-- ---------------------------------------------------------------------------
-- Expansion
-- ---------------------------------------------------------------------------

/-- `spec_cx_hash_init` for SHA-256, an update for each piece, and `spec_cx_hash_final`. There is no
result where an update throws. -/
def specCxSha256 (pieces : List Bytes) : Option Bytes :=
  match pieces.foldlM (specCxSha256Update sha256BlockFunction) cxSha256Init with
  | .ok ctx => some (specCxSha256Final sha256BlockFunction ctx)
  | .error _ => none

/-- The rounds of the loop over `i` that are left, as many as `n`. -/
def expandRounds (dst b0 : Bytes) (i offset : Nat) (out : Region) : Nat → Option Region
  | 0 => some out
  | n + 1 => do
    let tmp := strxor (out.slice offset 32) b0 ++ [UInt8.ofNat i]
    let digest ← specCxSha256 [tmp, dst]
    expandRounds dst b0 (i + 1) (offset + 32) (out.memcpy (offset + 32) digest 32) n

/-- `cx_expand_message_xmd`, where `dst` is the tag with its length. -/
def cxExpandMessageXmd (msg dst : Bytes) (out : Region) (outLen : Nat) : Option (CxErr × Region) :=
  let ell := outLen / 32
  if ell > 255 then some (.invalidParameter, out)
  else if outLen < 64 then some (.invalidParameter, out)
  else do
    let out := out.memset 0 0 64
    let libStr := be16 outLen ++ [0]
    let b0 ← specCxSha256 [out.slice 0 64, msg, libStr, dst]
    let digest ← specCxSha256 [b0 ++ [1], dst]
    let out ← expandRounds dst b0 2 0 (out.memcpy 0 digest 32) (ell - 1)
    return (.ok, out)

-- ---------------------------------------------------------------------------
-- Elements
-- ---------------------------------------------------------------------------

/-- The numbers of `sys_cx_hash_to_field`. -/
inductive FieldVar
  | p
  | tv
  | ej
  deriving DecidableEq, Repr

def fieldVars : List FieldVar := [.p, .tv, .ej]

def fieldRequest (domain : CxCurveDomain) : FieldVar → Request
  | .p => ⟨domain.length, some (domain.bytes domain.p)⟩
  | .tv => ⟨2 * domain.length, none⟩
  | .ej => ⟨domain.length, none⟩

section

variable (ssl : Openssl)

/-- The loops over `i` and `j`, where `len` bytes are written. -/
def fieldElements (wordSize pLen : UInt32) (t : FieldVar → Slot) (msgExp : Region) :
    List (Nat × Nat) → Nat → Region → Mpis → (CxErr × Region) × Mpis
  | [], _, hash, m => ((.ok, hash), m)
  | (i, j) :: rest, len, hash, m =>
    let elmOffset := 64 * (j + i * 2)
    let (error, m) := cxMpiInit ssl (t .tv) (msgExp.slice elmOffset 64) 64 m
    if error ≠ .ok then ((error, hash), m)
    else
      let (error, m) := cxMpiRem ssl (t .ej) (t .tv) (t .p) m
      if error ≠ .ok then ((error, hash), m)
      else
        match cxMpiExport ssl wordSize (m (t .ej)) pLen with
        | .error error => ((error, hash), m)
        | .ok bytes =>
          fieldElements wordSize pLen t msgExp rest (len + pLen.toNat)
            (hash.memcpy len bytes pLen.toNat) m

/-- What a call of `sys_cx_hash_to_field` leaves. -/
structure FieldRun where
  error : CxErr
  hash : Region
  dstPrime : Region
  unit : State

/-- What is behind the label `end`. -/
def FieldRun.finish (bn : FieldVar → UInt32) (run : FieldRun) : FieldRun :=
  { run with unit := (cxMpiUnlock (destroyHandles [bn .p, bn .tv, bn .ej] run.unit)).2 }

/-- `sys_cx_hash_to_field`, with what the handles and the arrays hold on the stack. There is no
result where the tag or a curve is read through a null pointer. -/
def sysCxHashToField (stack : FieldVar → UInt32) (dstPrime msgExp : Region) (msg dst : Bytes)
    (hash : Region) (hashLen : Nat) (s : State) : Option FieldRun :=
  if dst.length > 64 then some ⟨.invalidParameter, hash, dstPrime, s⟩
  else do
    let domain ← cxEcdomain CxCurve.bls12N381G1
    if hashLen ≠ 2 * 2 * domain.length.toNat then return ⟨.invalidParameter, hash, dstPrime, s⟩
    else
      let (error, s) := cxMpiLock ssl domain.length s
      if error ≠ .ok then return FieldRun.finish stack ⟨error, hash, dstPrime, s⟩
      else
        let ((ok, t), s) ← allocAll ssl (fieldRequest domain) fieldVars ⟨stack, fun _ => 0⟩ s
        if ¬ ok then return FieldRun.finish t.bn ⟨.memoryFull, hash, dstPrime, s⟩
        else
          let dstPrime := dstPrime.memcpy 0 dst dst.length
          let dstPrime := dstPrime.store dst.length (UInt8.ofNat dst.length)
          let (_, msgExp) ← cxExpandMessageXmd msg (dstPrime.slice 0 (dst.length + 1)) msgExp 256
          let ((error, hash), m) := fieldElements ssl s.mpiWordSize domain.length t.mpi msgExp
            [(0, 0), (0, 1), (1, 0), (1, 1)] 0 hash s.values
          return FieldRun.finish t.bn ⟨error, hash, dstPrime, s.withValues m⟩

end

-- ---------------------------------------------------------------------------
-- SHA-256
-- ---------------------------------------------------------------------------

def sha256Standard (m : Bytes) : Bytes :=
  sha256.digest (fun acc block => Fips180.compress Fips180.sha256Words acc (message32 block)) m

def xmdSha256 : XmdHash := ⟨sha256Standard, 32, 64⟩

theorem length_sha256Standard (m : Bytes) : (sha256Standard m).length = 32 := by
  have hwords (acc : Vector UInt32 8) : (wordsBE32 acc).length = 32 := by
    rw [wordsBE32, List.length_flatMap]
    simp
  exact List.length_take_of_le (Nat.le_of_eq (hwords _).symm)

theorem foldlM_pieces (pieces : List (Piece 108)) (ctx : Context (Vector UInt32 8)) :
    (pieces.map Piece.data).foldlM (specCxSha256Update sha256BlockFunction) ctx =
      updates (specCxSha256Update sha256BlockFunction) ctx pieces := by
  induction pieces generalizing ctx with
  | nil => rfl
  | cons piece pieces ih =>
    rw [List.map_cons, List.foldlM_cons, updates]
    exact bind_congr fun ctx => ih ctx

theorem specCxSha256_eq {pieces : List Bytes}
    (hpieces : ∀ piece ∈ pieces, piece.length + 108 ≤ 2 ^ 32)
    (hlen : pieces.flatten.length < 2 ^ 38) :
    specCxSha256 pieces = some (sha256Standard pieces.flatten) := by
  obtain ⟨ps, rfl⟩ : ∃ ps : List (Piece 108), ps.map Piece.data = pieces := by
    refine ⟨pieces.attach.map fun p => ⟨p.1, hpieces p.1 p.2⟩, ?_⟩
    rw [List.map_map]
    exact List.attach_map_subtype_val pieces
  have hmessage : message ps = (ps.map Piece.data).flatten := List.flatMap_def
  rw [← hmessage] at hlen ⊢
  have hdigest := streamed_sha256_standard ps (by omega) (by omega)
  rw [streamed] at hdigest
  rw [specCxSha256, foldlM_pieces]
  cases hupdates : updates (specCxSha256Update sha256BlockFunction) cxSha256Init ps with
  | error e =>
    rw [hupdates] at hdigest
    cases hdigest
  | ok ctx =>
    rw [hupdates] at hdigest
    exact congrArg some (Except.ok.inj hdigest)

theorem specCxSha256_pair {as bs : Bytes} (has : as.length ≤ 33) (hbs : bs.length ≤ 65) :
    specCxSha256 [as, bs] = some (sha256Standard (as ++ bs)) := by
  have hflat : [as, bs].flatten = as ++ bs := by simp
  rw [specCxSha256_eq, hflat]
  · simp only [List.forall_mem_cons, List.not_mem_nil, false_imp_iff, implies_true, and_true]
    omega
  · rw [hflat, List.length_append]
    omega

-- ---------------------------------------------------------------------------
-- The chain of digests
-- ---------------------------------------------------------------------------

theorem strxor_comm (as bs : Bytes) : strxor as bs = strxor bs as := by
  rw [strxor, strxor, List.zipWith_comm]
  simp only [UInt8.xor_comm]

theorem length_dstPrime (dst : Bytes) : (Lib.dstPrime dst).length = dst.length + 1 := by
  rw [Lib.dstPrime, List.length_append, length_toBE]

/-- The first blocks are written. -/
def HoldsBlocks (block : Nat → Bytes) (k : Nat) (out : Region) : Prop :=
  out.slice 0 (32 * k) = (List.range k).flatMap block

section

variable {block : Nat → Bytes} {out : Region} {k : Nat}

theorem HoldsBlocks.last (hblock : ∀ i, (block i).length = 32) (h : HoldsBlocks block (k + 1) out) :
    out.slice (32 * k) 32 = block k := by
  rw [HoldsBlocks, Nat.mul_succ, Region.slice_add, Nat.zero_add, List.range_succ,
    List.flatMap_append, List.flatMap_singleton] at h
  exact (List.append_inj' h (by rw [Region.length_slice, hblock])).2

theorem HoldsBlocks.write (hblock : ∀ i, (block i).length = 32) (h : HoldsBlocks block k out) :
    HoldsBlocks block (k + 1) (out.memcpy (32 * k) (block k) 32) := by
  rw [HoldsBlocks, Nat.mul_succ, Region.slice_add, Nat.zero_add,
    Region.slice_memcpy_of_disjoint _ _ _ _ _ _ (.inl (by omega)), h,
    Region.slice_memcpy_eq _ _ _ (hblock k), List.range_succ, List.flatMap_append,
    List.flatMap_singleton]

end

section

variable {dst b0 : Bytes} {out : Region}

theorem expandRounds_eq (hb0 : b0.length = 32) (hdst : dst.length ≤ 64) (n : Nat)
    (h : HoldsBlocks (xmdBlock xmdSha256 b0 dst) (k + 1) out) :
    ∃ out', expandRounds (Lib.dstPrime dst) b0 (k + 2) (32 * k) out n = some out' ∧
      HoldsBlocks (xmdBlock xmdSha256 b0 dst) (k + 1 + n) out' := by
  have hblock (i : Nat) : (xmdBlock xmdSha256 b0 dst i).length = 32 :=
    length_xmdBlock length_sha256Standard b0 dst i
  induction n generalizing out k with
  | zero => exact ⟨out, rfl, h⟩
  | succ n ih =>
    have hlen : (strxor b0 (xmdBlock xmdSha256 b0 dst k) ++ [UInt8.ofNat (k + 2)]).length ≤ 33 := by
      simp [strxor, hb0, hblock]
    have hdigest : specCxSha256 [strxor b0 (xmdBlock xmdSha256 b0 dst k) ++ [UInt8.ofNat (k + 2)],
        Lib.dstPrime dst] = some (xmdBlock xmdSha256 b0 dst (k + 1)) :=
      specCxSha256_pair hlen (by rw [length_dstPrime]; omega)
    obtain ⟨out', hrounds, hout'⟩ := ih (h.write hblock)
    rw [expandRounds, h.last hblock, strxor_comm, hdigest]
    refine ⟨out', hrounds, ?_⟩
    rwa [Nat.add_comm n 1, ← Nat.add_assoc]

/-- The block of zeros is read before the first digest is written over it. -/
theorem cxExpandMessageXmd_eq {msg : Bytes} (hmsg : msg.length + 108 ≤ 2 ^ 32)
    (hdst : dst.length ≤ 64) (out : Region) :
    ∃ out', cxExpandMessageXmd msg (Lib.dstPrime dst) out 256 = some (.ok, out') ∧
      expandMessageXmd xmdSha256 msg dst 256 = some (out'.slice 0 256) := by
  have hlen := length_dstPrime dst
  have hzeros : (out.memset 0 0 64).slice 0 64 = List.replicate 64 0 :=
    Region.slice_memset_self _ _ _ _ _ _ (Nat.le_refl 0) (Nat.le_refl _)
  have hflat : [List.replicate 64 0, msg, be16 256 ++ [0], Lib.dstPrime dst].flatten =
      List.replicate 64 0 ++ msg ++ toBE 2 256 ++ toBE 1 0 ++ Lib.dstPrime dst := by
    simp only [List.flatten_cons, List.flatten_nil, List.append_nil, List.append_assoc]
    rfl
  have hfirst : specCxSha256 [List.replicate 64 0, msg, be16 256 ++ [0], Lib.dstPrime dst] =
      some (xmdFirst xmdSha256 msg dst 256) := by
    rw [specCxSha256_eq, hflat]
    · rfl
    · simp [hlen]
      omega
    · simp [hlen]
      omega
  have hb0 : (xmdFirst xmdSha256 msg dst 256).length = 32 := length_sha256Standard _
  have hblock (i : Nat) : (xmdBlock xmdSha256 (xmdFirst xmdSha256 msg dst 256) dst i).length = 32 :=
    length_xmdBlock length_sha256Standard _ _ i
  have hsecond : specCxSha256 [xmdFirst xmdSha256 msg dst 256 ++ [1], Lib.dstPrime dst] =
      some (xmdBlock xmdSha256 (xmdFirst xmdSha256 msg dst 256) dst 0) :=
    specCxSha256_pair (by simp [hb0]) (by omega)
  have hnone : HoldsBlocks (xmdBlock xmdSha256 (xmdFirst xmdSha256 msg dst 256) dst) 0
    (out.memset 0 0 64) := rfl
  obtain ⟨out', hrounds, hout'⟩ := expandRounds_eq hb0 hdst 7 (hnone.write hblock)
  refine ⟨out', ?_, ?_⟩
  · rw [cxExpandMessageXmd, if_neg (by decide), if_neg (by decide)]
    dsimp only
    rw [hzeros, hfirst, Option.bind_eq_bind, Option.bind_some, hsecond, Option.bind_eq_bind,
      Option.bind_some]
    exact congrArg (Option.bind · _) hrounds
  · have hexpand : expandMessageXmd xmdSha256 msg dst (8 * xmdSha256.bInBytes) = _ :=
      expandMessageXmd_blocks length_sha256Standard (by decide) (by decide) (by decide)
        (Nat.le_trans hdst (by decide))
    exact hexpand.trans (congrArg some hout'.symm)

end

-- ---------------------------------------------------------------------------
-- The elements
-- ---------------------------------------------------------------------------

section

variable {ssl : Openssl} {t : FieldVar → Slot} {m : Mpis}

/-- The bytes of the element at `i` and `j`. -/
def elementBytes (msgExp : Region) (i j : Nat) : Bytes :=
  toBE 48 (fromBE (msgExp.slice (64 * (j + i * 2)) 64) % bls12N381G1.p)

theorem fieldElements_eq (hssl : ssl.Exact) (hdivision : ssl.ExactDivision) (htv : t .p ≠ t .tv)
    (hej : t .p ≠ t .ej) (hm : m (t .p) = bls12N381G1.p) (msgExp : Region)
    (pairs : List (Nat × Nat)) (len : Nat) (hash : Region) :
    ∃ hash' m', fieldElements ssl 48 48 t msgExp pairs len hash m = ((.ok, hash'), m') ∧
      hash'.slice 0 (len + 48 * pairs.length) =
        hash.slice 0 len ++ pairs.flatMap fun (i, j) => elementBytes msgExp i j := by
  induction pairs generalizing len hash m with
  | nil => exact ⟨hash, m, rfl, by simp⟩
  | cons pair pairs ih =>
    obtain ⟨i, j⟩ := pair
    generalize hx : fromBE (msgExp.slice (64 * (j + i * 2)) 64) = x
    have htake : (msgExp.slice (64 * (j + i * 2)) 64).take 64 =
        msgExp.slice (64 * (j + i * 2)) 64 :=
      List.take_of_length_le (by simp)
    have hinit : cxMpiInit ssl (t .tv) (msgExp.slice (64 * (j + i * 2)) 64) 64 m =
        (.ok, m.set (t .tv) x) := by
      rw [cxMpiInit, show (64 : UInt32).toNat = 64 from rfl, htake, hssl.bin2bn, hx, write_done]
    have hp : (m.set (t .tv) x) (t .p) = bls12N381G1.p := by rw [set_of_ne _ htv, hm]
    have htv' : (m.set (t .tv) x) (t .tv) = (x : Nat) := Function.update_self ..
    have hrem : cxMpiRem ssl (t .ej) (t .tv) (t .p) (m.set (t .tv) x) =
        (.ok, (m.set (t .tv) x).set (t .ej) (x % bls12N381G1.p : Nat)) := by
      rw [cxMpiRem, hp, htv', hdivision.rem x _ (by norm_num [bls12N381G1]), write_done]
    have hlt : x % bls12N381G1.p < 256 ^ 48 :=
      Nat.lt_of_lt_of_le (Nat.mod_lt _ (by norm_num [bls12N381G1])) (by norm_num [bls12N381G1])
    have hpadded : Padded ssl 48 (x % bls12N381G1.p) :=
      padded_of_short hssl (by decide) (by decide) (Nat.le_trans (byteLength_le hlt) (by decide))
    have hexport : cxMpiExport ssl 48 (((m.set (t .tv) x).set (t .ej) (x % bls12N381G1.p : Nat)) (t .ej)) 48 =
        .ok (elementBytes msgExp i j) := by
      have hself : ((m.set (t .tv) x).set (t .ej) (x % bls12N381G1.p : Nat)) (t .ej) =
          (x % bls12N381G1.p : Nat) := Function.update_self ..
      rw [hself, export_of_padded hssl hpadded, elementBytes, hx]
      exact congrArg (fun n => Except.ok (toBE 48 n)) (Nat.mod_eq_of_lt hlt)
    obtain ⟨hash', m', hrest, hslice⟩ :=
      ih (m := (m.set (t .tv) x).set (t .ej) (x % bls12N381G1.p : Nat))
      (by rw [set_of_ne _ hej, hp]) (len + 48) (hash.memcpy len (elementBytes msgExp i j) 48)
    refine ⟨hash', m', ?_, ?_⟩
    · rw [fieldElements]
      dsimp only
      rw [hinit]
      dsimp only
      rw [if_neg (not_not.mpr rfl), hrem]
      dsimp only
      rw [if_neg (not_not.mpr rfl), hexport]
      exact hrest
    · have hlen : (elementBytes msgExp i j).length = 48 := length_toBE ..
      rw [List.length_cons, Nat.mul_succ, Nat.add_comm (48 * pairs.length) 48, ← Nat.add_assoc,
        hslice, Region.slice_add, Nat.zero_add,
        Region.slice_memcpy_of_disjoint _ _ _ _ _ _ (.inl (by omega)),
        Region.slice_memcpy_eq _ _ _ hlen, List.flatMap_cons, List.append_assoc]

theorem hashToField_eq {msgExp : Region}
    (h : expandMessageXmd xmdSha256 msg dst 256 = some (msgExp.slice 0 256)) :
    ∃ elements, hashToField xmdSha256 bls12N381G1.p 2 64 2 msg dst = some elements ∧
      elements.flatMap (toBE 48) =
        [(0, 0), (0, 1), (1, 0), (1, 1)].flatMap fun (i, j) => elementBytes msgExp i j := by
  have hpart (k : Nat) (hk : k ≤ 3) :
      ((msgExp.slice 0 256).drop (64 * k)).take 64 = msgExp.slice (64 * k) 64 := by
    obtain ⟨r, hr⟩ := Nat.exists_eq_add_of_le (show 64 * k + 64 ≤ 256 by omega)
    rw [hr, Region.slice_add, Region.slice_add, List.append_assoc, Nat.zero_add,
      List.drop_left' (Region.length_slice ..), List.take_left' (Region.length_slice ..)]
  have hmap : hashToField xmdSha256 bls12N381G1.p 2 64 2 msg dst =
      some ([0, 1].flatMap fun i => [0, 1].map fun j =>
        fromBE (((msgExp.slice 0 256).drop (64 * (j + i * 2))).take 64) % bls12N381G1.p) := by
    rw [hashToField]
    exact congrArg _ h
  refine ⟨_, hmap, ?_⟩
  simp only [List.flatMap_cons, List.flatMap_nil, List.map_cons, List.map_nil, List.append_nil,
    List.cons_append, List.nil_append, elementBytes]
  rw [hpart (0 + 0 * 2) (by decide), hpart (1 + 0 * 2) (by decide), hpart (0 + 1 * 2) (by decide),
    hpart (1 + 1 * 2) (by decide)]

end

-- ---------------------------------------------------------------------------
-- The syscall
-- ---------------------------------------------------------------------------

def fieldRequests : List Request := fieldVars.map (fieldRequest bls12N381G1)

/-- The call writes the elements of the standard, and its array of 64 bytes only inside it. -/
def HashesToField (ssl : Openssl) (stack : FieldVar → UInt32) (cells : Nat → UInt8)
    (msgExp : Region) (msg dst : Bytes) (hash : Region) (hashLen : Nat) (s : State) : Prop :=
  ∃ run, sysCxHashToField ssl stack ⟨cells, []⟩ msgExp msg dst hash hashLen s = some run ∧
    run.error = .ok ∧ run.dstPrime.InBounds 64 ∧
    ∃ elements, hashToField xmdSha256 bls12N381G1.p 2 64 2 msg dst = some elements ∧
      run.hash.slice 0 192 = elements.flatMap (toBE 48)

/-- The unit can be locked, and has room for the numbers. -/
structure FieldReady (ssl : Openssl) (s : State) : Prop where
  unlocked : s.localBnCtx = false
  ctxNew : ssl.ctxNew = true
  granted : grants ssl fieldRequests (cxMpiLock ssl 48 s).2 = 3

instance (ssl : Openssl) (s : State) : Decidable (FieldReady ssl s) :=
  decidable_of_iff (s.localBnCtx = false ∧ ssl.ctxNew = true ∧
      grants ssl fieldRequests (cxMpiLock ssl 48 s).2 = 3)
    ⟨fun h => ⟨h.1, h.2.1, h.2.2⟩, fun h => ⟨h.unlocked, h.ctxNew, h.granted⟩⟩

def dstArray (cells : Nat → UInt8) (dst : Bytes) : Region :=
  ((⟨cells, []⟩ : Region).memcpy 0 dst dst.length).store dst.length (UInt8.ofNat dst.length)

theorem slice_dstArray (cells : Nat → UInt8) (dst : Bytes) :
    (dstArray cells dst).slice 0 (dst.length + 1) = Lib.dstPrime dst := by
  rw [dstArray, Region.slice_add, Nat.zero_add, Region.slice_store_self,
    Region.slice_store_of_disjoint _ _ _ _ _ (.inl (by omega)), Region.slice_memcpy_eq _ _ _ rfl,
    Lib.dstPrime]
  rfl

theorem inBounds_dstArray (cells : Nat → UInt8) (dst : Bytes) :
    (dstArray cells dst).InBounds 64 ↔ dst.length < 64 := by
  have hnone : (⟨cells, []⟩ : Region).InBounds 64 := fun i hi => absurd hi List.not_mem_nil
  rw [dstArray, Region.inBounds_store, Region.inBounds_memcpy]
  constructor
  · exact And.left
  · intro hlt
    exact ⟨hlt, .inr (by omega), hnone⟩

section

variable {ssl : Openssl} {s : State} {msg dst : Bytes}

theorem cxMpiLock_ready (h : FieldReady ssl s) :
    ∃ s₁, cxMpiLock ssl 48 s = (.ok, s₁) ∧ s₁.localBnCtx = true ∧ s₁.mpiWordSize = 48 := by
  rw [cxMpiLock, if_neg (by simp [h.unlocked]), if_neg (by simp [h.ctxNew])]
  exact ⟨_, rfl, rfl, rfl⟩

theorem values_modulus (hssl : ssl.Exact) :
    (fieldRequest bls12N381G1 .p).value ssl = bls12N381G1.p := by
  have hp : bls12N381G1.p < 256 ^ 48 := by norm_num [bls12N381G1]
  simp only [fieldRequest, Request.value, CxCurveDomain.bytes]
  rw [List.take_of_length_le (by rw [length_toBE]), hssl.bin2bn]
  exact congrArg Nat.cast (fromBE_toBE_of_lt hp)

theorem sysCxHashToField_ready (hssl : ssl.Exact) (hdivision : ssl.ExactDivision)
    (h : FieldReady ssl s) (hmsg : msg.length + 108 ≤ 2 ^ 32) (hdst : dst.length ≤ 64)
    (stack : FieldVar → UInt32) (cells : Nat → UInt8) (msgExp hash : Region) :
    ∃ run, sysCxHashToField ssl stack ⟨cells, []⟩ msgExp msg dst hash 192 s = some run ∧
      run.error = .ok ∧ run.dstPrime = dstArray cells dst ∧
      ∃ elements, hashToField xmdSha256 bls12N381G1.p 2 64 2 msg dst = some elements ∧
        run.hash.slice 0 192 = elements.flatMap (toBE 48) := by
  obtain ⟨s₁, hlock, hctx, hword⟩ := cxMpiLock_ready h
  have hgranted : grants ssl (fieldVars.map (fieldRequest bls12N381G1)) s₁ = fieldVars.length := by
    have h := h.granted
    rwa [hlock] at h
  obtain ⟨t, s₂, halloc, htaken⟩ :=
    allocAll_granted ⟨stack, fun _ => 0⟩ hctx (by rw [hword]; decide)
    (by decide) hgranted
  obtain ⟨out, hexpand, huniform⟩ := cxExpandMessageXmd_eq hmsg hdst msgExp
  obtain ⟨elements, helements, hbytes⟩ := hashToField_eq huniform
  have hapart {id : FieldVar} (hne : .p ≠ id) : t.mpi .p ≠ t.mpi id := by
    intro heq
    exact hne (htaken.injective .p (by decide) id (by cases id <;> decide) heq)
  have hp : s₂.values (t.mpi .p) = bls12N381G1.p := by
    rw [State.values, htaken.value .p (by decide), Option.getD_some, values_modulus hssl]
  obtain ⟨hash', m', hloop, hslice⟩ :=
    fieldElements_eq hssl hdivision (hapart (by decide)) (hapart (by decide))
    hp out [(0, 0), (0, 1), (1, 0), (1, 1)] 0 hash
  have hword₂ : s₂.mpiWordSize = 48 := htaken.grown.balanced.wordSize.trans hword
  refine ⟨FieldRun.finish t.bn ⟨.ok, hash', dstArray cells dst, s₂.withValues m'⟩, ?_, rfl, rfl,
    elements, helements, ?_⟩
  · rw [sysCxHashToField, if_neg (Nat.not_lt.mpr hdst),
      show cxEcdomain CxCurve.bls12N381G1 = some bls12N381G1 from rfl, Option.bind_eq_bind,
      Option.bind_some]
    dsimp only
    rw [if_neg (by decide), show bls12N381G1.length = 48 from rfl, hlock]
    dsimp only
    rw [if_neg (not_not.mpr rfl), halloc, Option.bind_eq_bind, Option.bind_some]
    dsimp only
    rw [if_neg (not_not.mpr rfl)]
    have harray := slice_dstArray cells dst
    rw [dstArray] at harray ⊢
    rw [harray, hexpand, Option.bind_eq_bind, Option.bind_some]
    dsimp only
    rw [hword₂, hloop]
    rfl
  · rw [hbytes]
    exact hslice.trans (List.nil_append _)

/-- A unit that is not ready makes the call fail. -/
theorem ready_of_ok {run : FieldRun} {stack : FieldVar → UInt32} {dstPrime msgExp hash : Region}
    (hrun : sysCxHashToField ssl stack dstPrime msgExp msg dst hash hashLen s = some run)
    (hok : run.error = .ok) :
    hashLen = 192 ∧ FieldReady ssl s := by
  rw [sysCxHashToField] at hrun
  split at hrun
  · cases hrun
    cases hok
  · rw [show cxEcdomain CxCurve.bls12N381G1 = some bls12N381G1 from rfl, Option.bind_eq_bind,
      Option.bind_some]
      at hrun
    split at hrun
    · cases hrun
      cases hok
    · rename_i hlen
      refine ⟨not_not.mp hlen, ?_⟩
      obtain ⟨error, s₁, hlock⟩ : ∃ error s₁, cxMpiLock ssl 48 s = (error, s₁) := ⟨_, _, rfl⟩
      dsimp only at hrun
      rw [show bls12N381G1.length = 48 from rfl, hlock] at hrun
      dsimp only at hrun
      split at hrun
      · rename_i hne
        cases hrun
        exact absurd hok hne
      · rename_i hlocked
        have hctx := hlock
        rw [cxMpiLock] at hctx
        split_ifs at hctx with hunlocked hnew
        · rw [← (Prod.mk.inj hctx).1] at hlocked
          exact absurd (by decide) hlocked
        · obtain ⟨⟨⟨ok, t⟩, s₂⟩, halloc, hrun⟩ := Option.bind_eq_some_iff.mp hrun
          have hs₁ : s₁.localBnCtx = true := by rw [← (Prod.mk.inj hctx).2]
          obtain ⟨got, rest, hids, hgot, hcount, -⟩ := allocAll_cases hs₁ (by decide) halloc
          dsimp only at hrun
          split at hrun
          · cases hrun
            cases hok
          · rename_i hall
            rw [hgot.mp (not_not.mp hall), List.append_nil] at hids
            refine ⟨by simpa using hunlocked, hnew, ?_⟩
            rw [hlock, fieldRequests, hcount, ← hids]
            rfl
        · rw [← (Prod.mk.inj hctx).1] at hlocked
          exact absurd (by decide) hlocked

/-- A tag as long as the array leaves no place for its length. -/
theorem hashesToField_iff (hssl : ssl.Exact) (hdivision : ssl.ExactDivision)
    (hmsg : msg.length + 108 ≤ 2 ^ 32) (hdst : dst.length ≤ 64) (stack : FieldVar → UInt32)
    (cells : Nat → UInt8) (msgExp hash : Region) (hashLen : Nat) (s : State) :
    HashesToField ssl stack cells msgExp msg dst hash hashLen s ↔
      dst.length < 64 ∧ hashLen = 192 ∧ FieldReady ssl s := by
  constructor
  · rintro ⟨run, hrun, hok, hbounds, -⟩
    obtain ⟨rfl, hready⟩ := ready_of_ok hrun hok
    obtain ⟨run', hrun', -, harray, -⟩ :=
      sysCxHashToField_ready hssl hdivision hready hmsg hdst stack cells
      msgExp hash
    rw [hrun] at hrun'
    cases hrun'
    rw [harray, inBounds_dstArray] at hbounds
    exact ⟨hbounds, rfl, hready⟩
  · rintro ⟨hlt, rfl, hready⟩
    obtain ⟨run, hrun, hok, harray, hwritten⟩ :=
      sysCxHashToField_ready hssl hdivision hready hmsg hdst stack
      cells msgExp hash
    refine ⟨run, hrun, hok, ?_, hwritten⟩
    rw [harray, inBounds_dstArray]
    exact hlt

/-- The message "abc" with the tag "QUUX-V01". -/
theorem hashesToField_abc :
    HashesToField .integers (fun _ => 0) (fun _ => 0) .zeroed [0x61, 0x62, 0x63]
      [0x51, 0x55, 0x55, 0x58, 0x2d, 0x56, 0x30, 0x31] .zeroed 192 .initial :=
  (hashesToField_iff exact_integers exactDivision_integers (by decide) (by decide) _ _ _ _ _ _).mpr
    (by decide)

/-- A tag of 64 bytes has its length written behind the array. -/
theorem not_hashesToField_full :
    (dstArray (fun _ => 0) (List.replicate 64 7)).written.head? = some 64 ∧
      ¬ HashesToField .integers (fun _ => 0) (fun _ => 0) .zeroed [] (List.replicate 64 7)
        .zeroed 192 .initial := by
  refine ⟨by decide, ?_⟩
  rintro ⟨run, hrun, hok, hbounds, -⟩
  obtain ⟨run', hrun', -, harray, -⟩ := sysCxHashToField_ready exact_integers exactDivision_integers
    (ready_of_ok hrun hok).2 (show ([] : Bytes).length + 108 ≤ 2 ^ 32 by decide)
    (show (List.replicate 64 (7 : UInt8)).length ≤ 64 by decide) (fun _ => 0) (fun _ => 0) .zeroed
      .zeroed
  rw [hrun] at hrun'
  cases hrun'
  rw [harray, inBounds_dstArray] at hbounds
  exact absurd hbounds (by decide)

end

end Speculos.Bls
