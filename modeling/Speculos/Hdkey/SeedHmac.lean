import Speculos.Bip32.HdkeyValidate
import Speculos.Bip32.HdwBip32
import Speculos.Bn.Integers
import Speculos.Ec.Point

/-!
# The master key

`hdkey_bip32_hdw_normal_seed_hmac_final` of `hdkey_bip32.c`, and the loop of `expand_seed` for
the curves of `cx_ec_domain.c`. Both start from the hash of the seed. The first compares its
first half with the order only where it is zero, and a number that is zero is below the order:
the hash is left as it is.
-/

namespace Speculos.Hdkey

open Lib
open Bn (CxErr Openssl State Answer sysCxBnLock sysCxBnUnlock sysCxBnAlloc sysCxBnAllocInit sysCxBnInit
  sysCxBnCmp sysCxBnCmpU32)
open Ec (CxCurve CxCurveDomain EcErr cxEcdomain sysCxEcdomainParameterBn)
open Bip32 (OsResult ExtendedPrivateKey cxMathCmp cxMathIsZero)

-- ---------------------------------------------------------------------------
-- hdkey_bip32.c
-- ---------------------------------------------------------------------------

def hdkeyBip32KeyLen : UInt32 := 32

/-- `*diff` of a comparison. -/
def Answer.diff (answer : Answer) : Int :=
  match answer.output with
  | .number diff => diff
  | _ => 0

section

variable (ssl : Openssl) (hmacSha512 : Bytes → Bytes → Bytes) (seedKey : Bytes) (seedLen : Nat)

/-- The `while (diff == 0)`: the error, and the buffer. -/
def finalLoop (bnN bnResult : UInt32) :
    Nat → Int → Bytes → State → Option ((EcErr × Bytes) × State)
  | 0, _, _, _ => none
  | fuel + 1, diff, result, s =>
    if diff ≠ 0 then some ((.ok, result), s)
    else do
      let (answer, s) ← sysCxBnCmp ssl bnResult bnN s
      if answer.error ≠ .ok then return ((.mpi answer.error, result), s)
      if Answer.diff answer < 0 then return ((.ok, result), s)
      let result := hmacSha512 seedKey (result.take seedLen)
      let (answer, s) ← sysCxBnInit ssl bnResult result hdkeyBip32KeyLen s
      if answer.error ≠ .ok then return ((.mpi answer.error, result), s)
      let (answer, s) ← sysCxBnCmpU32 ssl bnResult 0 s
      if answer.error ≠ .ok then return ((.mpi answer.error, result), s)
      finalLoop bnN bnResult fuel (Answer.diff answer) result s

/-- The number of the key, which is compared with 0, and the loop. -/
def finalKey (bnN : UInt32) (result : Bytes) (fuel : Nat) (s : State) :
    Option ((EcErr × Bytes) × State) := do
  let ((error, bnResult), s) ← sysCxBnAllocInit ssl hdkeyBip32KeyLen result hdkeyBip32KeyLen s
  if error ≠ .ok then return ((.mpi error, result), s)
  let (answer, s) ← sysCxBnCmpU32 ssl (bnResult.getD 0) 0 s
  if answer.error ≠ .ok then return ((.mpi answer.error, result), s)
  finalLoop ssl hmacSha512 seedKey seedLen bnN (bnResult.getD 0) fuel (Answer.diff answer) result s

/-- What stands before the label `end`. -/
def finalChecks (curve : CxCurve) (result : Bytes) (fuel : Nat) (s : State) :
    Option ((EcErr × Bytes) × State) := do
  let (error, s) := sysCxBnLock ssl hdkeyBip32KeyLen s
  if error ≠ .ok then return ((.mpi error, result), s)
  let ((error, bnN), s) ← sysCxBnAlloc ssl hdkeyBip32KeyLen s
  if error ≠ .ok then return ((.mpi error, result), s)
  let (error, s) := sysCxEcdomainParameterBn ssl curve (bnN.getD 0) s
  if error ≠ .ok then return ((error, result), s)
  finalKey ssl hmacSha512 seedKey seedLen (bnN.getD 0) result fuel s

/-- `hdkey_bip32_hdw_normal_seed_hmac_final`: what it returns, and the buffer. -/
def hdkeyBip32HdwNormalSeedHmacFinal (curve : CxCurve) (result : Bytes) (fuel : Nat) (s : State) :
    Option ((OsResult × Bytes) × State) := do
  let ((error, result), s) ← finalChecks ssl hmacSha512 seedKey seedLen curve result fuel s
  let (_, s) := sysCxBnUnlock s
  return ((if error ≠ .ok then .errCryptoInternal else .success, result), s)

end

-- ---------------------------------------------------------------------------
-- os_bip32.c
-- ---------------------------------------------------------------------------

/-- The loop of `expand_seed` for a curve of any domain. -/
def expandSeedLoop (hmacSha512 : Bytes → Bytes → Bytes) (n sk : Bytes) :
    Nat → ExtendedPrivateKey → Region → Option ExtendedPrivateKey
  | 0, _, _ => none
  | fuel + 1, key, hash =>
    if cxMathIsZero (key.privateKey.slice 0 32) ≠ 0 ∨
        cxMathCmp (key.privateKey.slice 0 32) (n.take 32) ≥ 0 then
      let hash := hash.memcpy 0 (key.privateKey.slice 0 32) 32
      let hash := hash.memcpy 32 (key.chainCode.slice 0 32) 32
      let hash := hash.memcpy 0 (hmacSha512 sk (hash.slice 0 64)) 64
      expandSeedLoop hmacSha512 n sk fuel (key.load hash) hash
    else some key

/-- `expand_seed` from the first hash on. -/
def expandSeedFrom (hmacSha512 : Bytes → Bytes → Bytes) (n sk first : Bytes)
    (key : ExtendedPrivateKey) (hash : Region) (fuel : Nat) : Option ExtendedPrivateKey :=
  let hash := hash.memcpy 0 first 64
  expandSeedLoop hmacSha512 n sk fuel (key.load hash) hash

-- ---------------------------------------------------------------------------
-- OpenSSL
-- ---------------------------------------------------------------------------

/-- The conversions between numbers and bytes are the ones of the integers. -/
structure Converts (ssl : Openssl) : Prop where
  bin2bn : ∀ bytes, ssl.bin2bn bytes = .done (fromBE bytes)
  numBytes : ∀ n : Nat, ssl.numBytes n = UInt32.ofNat (Bn.byteLength n)
  bn2bin : ∀ n : Nat, ssl.bn2bin n = toBE (Bn.byteLength n) n
  bn2binpad : ∀ (n : Nat) (len : UInt32), ssl.bn2binpad n len =
    if n < 256 ^ len.toNat then some (toBE len.toNat n) else none

theorem memcmp_eq (as bs : Bytes) : Bn.memcmp as bs < 0 ↔ cxMathCmp as bs < 0 := by
  induction as generalizing bs with
  | nil => rfl
  | cons a as ih =>
    cases bs with
    | nil => rfl
    | cons b bs =>
      rw [Bn.memcmp, cxMathCmp]
      by_cases hab : a = b
      · rw [if_pos hab, if_neg (not_not.mpr hab), ih]
      · have hne : a.toNat ≠ b.toNat := mt UInt8.toNat_inj.mp hab
        rw [if_neg hab, if_pos hab]
        by_cases hlt : a < b
        · rw [if_pos hlt]
          have := UInt8.lt_iff_toNat_lt.mp hlt
          omega
        · rw [if_neg hlt]
          have := mt UInt8.lt_iff_toNat_lt.mpr hlt
          omega

theorem eq_replicate_zero {bs : Bytes} (h : bs.any (· ≠ 0) = false) :
    bs = List.replicate bs.length 0 := by
  refine List.eq_replicate_of_mem fun b hb => ?_
  simpa using List.any_eq_false.mp h b hb

section

variable {ssl : Openssl} (hssl : Converts ssl)
include hssl

theorem cmpU32_zero {k : Nat} (hk : k < 256 ^ 32) : Bn.cxMpiCmpU32 ssl k 0 = 0 ↔ k = 0 := by
  have hlen := Bn.byteLength_le hk
  have hfits : ¬ Bn.maxMpiByteSize < ssl.numBytes k := by
    rw [hssl.numBytes, UInt32.lt_iff_toNat_lt, UInt32.toNat_ofNat_of_lt' (show _ < 2 ^ 32 by omega)]
    show ¬ 2048 < _
    omega
  rw [Bn.cxMpiCmpU32, if_neg hfits, hssl.bn2bin]
  constructor
  · intro h
    have hvalue := fromBE_toBE_of_lt (Bn.lt_pow_byteLength k)
    generalize toBE (Bn.byteLength k) k = bytes at h hvalue
    dsimp only at h
    cases hany : (bytes.take (bytes.length - 4)).any (· ≠ 0) with
    | true =>
      rw [hany, if_pos rfl] at h
      cases h
    | false =>
      rw [hany, if_neg (by decide), if_neg (UInt32.not_lt.mpr (UInt32.zero_le ..))] at h
      -- what is before the last four bytes is zero, and so are they
      have hlast : Bn.lastBytes bytes = 0 := by
        by_contra hne
        rw [if_neg hne] at h
        cases h
      have hdrop : fromBE (bytes.drop (bytes.length - 4)) < 2 ^ 32 := by
        refine Nat.lt_of_lt_of_le (fromBE_lt _) ?_
        rw [List.length_drop, show 2 ^ 32 = 256 ^ 4 from rfl]
        exact Nat.pow_le_pow_right (by decide) (by omega)
      have hzero : fromBE (bytes.drop (bytes.length - 4)) = 0 := by
        have := congrArg UInt32.toNat hlast
        rwa [Bn.lastBytes, UInt32.toNat_ofNat_of_lt' hdrop] at this
      rw [← hvalue, ← List.take_append_drop (bytes.length - 4) bytes, fromBE_append, hzero,
        eq_replicate_zero hany, fromBE_replicate_zero, Nat.zero_mul]
  · rintro rfl
    decide

theorem cmp_zero_lt (wordSize : UInt32) {n : Nat} (hn : 0 < n) :
    Bn.cxMpiCmp ssl wordSize 0 n < 0 := by
  have hpos (len : UInt32) : 0 < 256 ^ len.toNat := Nat.pow_pos (by decide)
  rw [Bn.cxMpiCmp]
  split
  · decide
  · split
    · rename_i heq
      rw [heq, hssl.bn2binpad, show (0 : Int) = ((0 : Nat) : Int) from rfl, hssl.bn2binpad,
        if_pos (hpos _)]
      by_cases hfits : n < 256 ^ (Bn.cxMpiNbytes ssl wordSize n).toNat
      · rw [if_pos hfits]
        refine (memcmp_eq ..).mpr ((Bip32.cxMathCmp_lt_iff ?_).mpr ?_)
        · rw [length_toBE, length_toBE]
        · rw [fromBE_toBE_of_lt (hpos _), fromBE_toBE_of_lt hfits]
          exact hn
      · rw [if_neg hfits]
        exact (by decide : (-1 : Int) < 0)
    · decide

end

-- ---------------------------------------------------------------------------
-- The calls on numbers that are there
-- ---------------------------------------------------------------------------

/-- The numbers of the order and of the key are in the slots `i` and `j`. -/
structure Loaded (s : State) (i j : Bn.Slot) (n k : Nat) : Prop where
  locked : s.localBnCtx = true
  order : (s.mpiArray i).mpi = some (n : Int)
  key : (s.mpiArray j).mpi = some (k : Int)

theorem cxBnsToMpi_handles (bns : List Bn.Slot) (hlocked : s.localBnCtx = true)
    (hlive : ∀ i ∈ bns, (s.mpiArray i).live = true) :
    Bn.cxBnsToMpi (bns.map fun i => Bn.handle (some i)) s = .ok := by
  have hlt (i : Bn.Slot) : Bn.handle (some i) < 64 := by
    rw [UInt32.lt_iff_toNat_lt, Bn.handle_some_toNat]
    exact i.isLt
  have hall : (bns.map fun i => Bn.handle (some i)).all (· < 64) = true := by
    simp [hlt]
  have hthere : ((bns.map fun i => Bn.handle (some i)).all fun bn =>
      (s.mpiArray (Bn.slotOf bn)).live) = true := by
    simpa [Bn.slotOf_handle] using hlive
  rw [Bn.cxBnsToMpi, if_neg (by simp [Bn.cxBnLocked, hlocked]), if_pos hall, if_pos hthere]

theorem cxBnsToMpi_handle (hlocked : s.localBnCtx = true) (hlive : (s.mpiArray i).live = true) :
    Bn.cxBnsToMpi [Bn.handle (some i)] s = .ok :=
  cxBnsToMpi_handles [i] hlocked (by simpa using hlive)

theorem withValues_values (s : State) : s.withValues s.values = s := by
  have harray : (fun i => { s.mpiArray i with
      mpi := (s.mpiArray i).mpi.map fun _ => s.values i }) = s.mpiArray := by
    funext i
    cases hx : s.mpiArray i with
    | mk mpi size => cases mpi <;> simp [State.values, hx]
  rw [State.withValues, harray]

section

variable {ssl : Openssl} {s : State} {i j : Bn.Slot} {n k : Nat}

theorem Loaded.live (h : Loaded s i j n k) :
    (s.mpiArray i).live = true ∧ (s.mpiArray j).live = true := by
  simp [Bn.CxMpi.live, h.order, h.key]

theorem Loaded.values (h : Loaded s i j n k) : s.values i = n ∧ s.values j = k := by
  simp [State.values, h.order, h.key]

theorem reading_number (bns : List Bn.Slot) {op : Bn.Mpis → Except CxErr Bn.Output}
    (hfound : Bn.cxBnsToMpi (bns.map fun i => Bn.handle (some i)) s = .ok)
    (hop : op s.values = .ok output) :
    Bn.reading (bns.map fun i => Bn.handle (some i)) op s = some (⟨.ok, output⟩, s) := by
  rw [Bn.reading, Bn.onMpis, if_neg (not_not.mpr hfound), hop]
  simp only [Option.map_some, withValues_values]

theorem Loaded.cmpU32 (h : Loaded s i j n k) : sysCxBnCmpU32 ssl (Bn.handle (some j)) 0 s =
    some (⟨.ok, .number (Bn.cxMpiCmpU32 ssl k 0)⟩, s) := by
  have hfound := cxBnsToMpi_handle h.locked h.live.2
  refine reading_number [j] hfound ?_
  rw [Bn.slotOf_handle, h.values.2]

theorem Loaded.cmp (h : Loaded s i j n k) :
    sysCxBnCmp ssl (Bn.handle (some j)) (Bn.handle (some i)) s =
      some (⟨.ok, .number (Bn.cxMpiCmp ssl s.mpiWordSize k n)⟩, s) := by
  have hfound := cxBnsToMpi_handles [j, i] h.locked (by simp [h.live])
  refine reading_number [j, i] hfound ?_
  rw [Bn.slotOf_handle, Bn.slotOf_handle, h.values.1, h.values.2]

end

variable {ssl : Openssl} {hmacSha512 : Bytes → Bytes → Bytes} {seedKey : Bytes} {seedLen : Nat}

/-- The loop leaves the buffer as it is: a key that is zero is below the order. -/
theorem finalLoop_eq (hssl : Converts ssl) (h : Loaded s i j n k) (hn : 0 < n)
    (hk : k < 256 ^ 32) (result : Bytes) (fuel : Nat) :
    finalLoop ssl hmacSha512 seedKey seedLen (Bn.handle (some i)) (Bn.handle (some j)) fuel
      (Bn.cxMpiCmpU32 ssl k 0) result s = if fuel = 0 then none else some ((.ok, result), s) := by
  cases fuel with
  | zero => rfl
  | succ fuel =>
    rw [finalLoop, if_neg (Nat.succ_ne_zero fuel)]
    by_cases hzero : k = 0
    · subst hzero
      have hlt := cmp_zero_lt hssl s.mpiWordSize hn
      rw [if_neg (not_not.mpr ((cmpU32_zero hssl hk).mpr rfl)), h.cmp]
      simp [Answer.diff, hlt]
    · rw [if_pos (mt (cmpU32_zero hssl hk).mp hzero)]

-- ---------------------------------------------------------------------------
-- The numbers of the function
-- ---------------------------------------------------------------------------

/-- What `sys_cx_bn_lock` leaves of a unit that is not locked. -/
def opened (s : State) : State :=
  { s with localBnCtx := true, mpiTotalMemory := 0, mpiWordSize := 32, mpiWordsCount := 0 }

/-- There are slots and memory for two numbers. -/
def RoomForTwo (ssl : Openssl) (s : State) : Prop :=
  ∃ i, s.firstFree = some i ∧ ssl.bnNew i = true ∧
    ∃ j, (s.fill i hdkeyBip32KeyLen).firstFree = some j ∧ ssl.bnNew j = true

/-- The unit can be locked, the curve is known, and there is room for the order and the key. -/
structure Starts (ssl : Openssl) (curve : CxCurve) (s : State) : Prop where
  unlocked : s.localBnCtx = false
  ctxNew : ssl.ctxNew = true
  known : (cxEcdomain curve).isSome = true
  room : RoomForTwo ssl s

theorem sysCxBnLock_opened (hunlocked : s.localBnCtx = false) (hctx : ssl.ctxNew = true) :
    sysCxBnLock ssl hdkeyBip32KeyLen s = (.ok, opened s) := by
  have hword : Bn.sizeToMpiBytes hdkeyBip32KeyLen = 32 := by decide
  simp [sysCxBnLock, Bn.cxMpiLock, hunlocked, hctx, hword, opened]

/-- A unit that was locked with the length of a key. -/
structure ForKeys (s : State) (total : UInt32) : Prop where
  locked : s.localBnCtx = true
  wordSize : s.mpiWordSize = 32
  totalMemory : s.mpiTotalMemory = total

theorem forKeys_opened (s : State) : ForKeys (opened s) 0 := ⟨rfl, rfl, rfl⟩

theorem ForKeys.fill (h : ForKeys s total) (i : Bn.Slot) (size : UInt32) :
    ForKeys (s.fill i size) (total + size) where
  locked := h.locked
  wordSize := h.wordSize
  totalMemory := congrArg (· + size) h.totalMemory

theorem ForKeys.withValues (h : ForKeys s total) (m : Bn.Mpis) :
    ForKeys (s.withValues m) total := ⟨h.locked, h.wordSize, h.totalMemory⟩

section

variable {ssl : Openssl} {s : State} {total : UInt32}

theorem ForKeys.alloc (h : ForKeys s total) (htotal : 32 + total ≤ Bn.maxMpiByteSize)
    (hi : s.firstFree = some i) (hnew : ssl.bnNew i = true) :
    sysCxBnAlloc ssl hdkeyBip32KeyLen s =
      some ((.ok, some (Bn.handle (some i))), s.fill i hdkeyBip32KeyLen) := by
  have hsize : Bn.sizeToMpiWordBytes s.mpiWordSize hdkeyBip32KeyLen = hdkeyBip32KeyLen := by
    rw [h.wordSize]
    decide
  have hfits : Bn.sizeToMpiWordBytes s.mpiWordSize hdkeyBip32KeyLen + s.mpiTotalMemory ≤
      Bn.maxMpiByteSize := by
    rw [hsize, h.totalMemory]
    exact htotal
  have hword : s.mpiWordSize ≠ 0 := by
    rw [h.wordSize]
    decide
  rw [sysCxBnAlloc, if_neg (by simp [Bn.cxBnLocked, h.locked]),
    Bn.cxMpiAlloc_of_fits hi hnew hword hfits, hsize]
  rfl

theorem ForKeys.alloc_full (h : ForKeys s total)
    (hfull : ∀ i, s.firstFree = some i → ssl.bnNew i = false) :
    sysCxBnAlloc ssl hdkeyBip32KeyLen s = some ((.memoryFull, some (Bn.handle none)), s) := by
  have hword : s.mpiWordSize ≠ 0 := by
    rw [h.wordSize]
    decide
  rw [sysCxBnAlloc, if_neg (by simp [Bn.cxBnLocked, h.locked])]
  have hsome : (Bn.cxMpiAlloc ssl hdkeyBip32KeyLen s).isSome := Bn.cxMpiAlloc_isSome hword
  obtain ⟨⟨x, s'⟩, halloc⟩ := Option.isSome_iff_exists.mp hsome
  rw [halloc]
  obtain ⟨rfl, rfl⟩ | ⟨i, hi, hnew, -⟩ := Bn.cxMpiAlloc_cases halloc
  · rfl
  · rw [hfull i hi] at hnew
    cases hnew

end

section

variable {ssl : Openssl} {s : State}

theorem firstFree_withValues (s : State) (m : Bn.Mpis) :
    (s.withValues m).firstFree = s.firstFree := by
  have hlive : (fun i => !((s.withValues m).mpiArray i).live) = fun i => !(s.mpiArray i).live := by
    funext i
    rw [Bn.live_withValues]
  exact congrArg (fun p => (List.finRange 64).find? p) hlive

theorem sysCxEcdomainParameterBn_eq (hssl : Converts ssl) (hlocked : s.localBnCtx = true)
    (hlive : (s.mpiArray i).live = true) (hdomain : cxEcdomain curve = some domain) :
    sysCxEcdomainParameterBn ssl curve (Bn.handle (some i)) s =
      (.ok, s.withValues (s.values.set i (Ec.orderOf curve))) := by
  have hfound := cxBnsToMpi_handle hlocked hlive
  have horder := Ec.fromBE_n (List.mem_of_find?_eq_some hdomain)
  rw [Ec.curve_of_cxEcdomain hdomain] at horder
  rw [sysCxEcdomainParameterBn, hdomain]
  simp only []
  rw [if_neg (not_not.mpr hfound), Bn.slotOf_handle, hssl.bin2bn, horder]
  rfl

theorem ForKeys.allocInit (h : ForKeys s total) (hssl : Converts ssl)
    (htotal : 32 + total ≤ Bn.maxMpiByteSize) (hi : s.firstFree = some i)
    (hnew : ssl.bnNew i = true) (bytes : Bytes) :
    sysCxBnAllocInit ssl hdkeyBip32KeyLen bytes hdkeyBip32KeyLen s =
      some ((.ok, some (Bn.handle (some i))), (s.fill i hdkeyBip32KeyLen).withValues
        ((s.fill i hdkeyBip32KeyLen).values.set i (fromBE (bytes.take 32)))) := by
  have hfound := cxBnsToMpi_handle (h.fill i hdkeyBip32KeyLen).locked
    (Bn.live_fill s i hdkeyBip32KeyLen)
  have hinit : sysCxBnInit ssl (Bn.handle (some i)) bytes hdkeyBip32KeyLen
      (s.fill i hdkeyBip32KeyLen) = some (.of .ok, (s.fill i hdkeyBip32KeyLen).withValues
        ((s.fill i hdkeyBip32KeyLen).values.set i (fromBE (bytes.take 32)))) := by
    rw [sysCxBnInit, Bn.writing, Bn.onMpis]
    rw [if_neg (not_not.mpr hfound), Bn.slotOf_handle, Bn.cxMpiInit, hssl.bin2bn]
    rfl
  rw [sysCxBnAllocInit, h.alloc htotal hi hnew]
  show (sysCxBnInit ssl (Bn.handle (some i)) bytes hdkeyBip32KeyLen _).bind _ = _
  rw [hinit]
  rfl

theorem ForKeys.allocInit_full (h : ForKeys s total)
    (hfull : ∀ i, s.firstFree = some i → ssl.bnNew i = false) (bytes : Bytes) :
    sysCxBnAllocInit ssl hdkeyBip32KeyLen bytes hdkeyBip32KeyLen s =
      some ((.memoryFull, some (Bn.handle none)), s) := by
  rw [sysCxBnAllocInit, h.alloc_full hfull]
  rfl

end

variable {curve : CxCurve}

theorem finalChecks_order (hssl : Converts ssl) (hunlocked : s.localBnCtx = false)
    (hctx : ssl.ctxNew = true) (hdomain : cxEcdomain curve = some domain)
    (hi : s.firstFree = some i) (hnew : ssl.bnNew i = true) (result : Bytes) (fuel : Nat) :
    ∃ u, ForKeys u 32 ∧ u.firstFree = (s.fill i hdkeyBip32KeyLen).firstFree ∧
      (u.mpiArray i).mpi = some (Ec.orderOf curve : Int) ∧
      finalChecks ssl hmacSha512 seedKey seedLen curve result fuel s =
        finalKey ssl hmacSha512 seedKey seedLen (Bn.handle (some i)) result fuel u := by
  have hkeys := forKeys_opened s
  have halloc := hkeys.alloc (by decide) hi hnew
  have hlive := Bn.live_fill (opened s) i hdkeyBip32KeyLen
  have horder := sysCxEcdomainParameterBn_eq hssl
    (hkeys.fill i hdkeyBip32KeyLen).locked hlive hdomain
  refine ⟨((opened s).fill i hdkeyBip32KeyLen).withValues
    (((opened s).fill i hdkeyBip32KeyLen).values.set i (Ec.orderOf curve)),
    (hkeys.fill i hdkeyBip32KeyLen).withValues _, firstFree_withValues _ _, ?_, ?_⟩
  · show ((((opened s).fill i hdkeyBip32KeyLen).mpiArray i).mpi.map fun _ => _) = _
    simp [Bn.Mpis.set]
  · rw [finalChecks, sysCxBnLock_opened hunlocked hctx]
    simp only [ne_eq, not_true_eq_false, if_false, halloc, Option.bind_eq_bind, Option.bind_some,
      Option.getD_some, horder]

theorem loaded_fill {u : State} {i j : Bn.Slot} {n : Nat} (hlocked : u.localBnCtx = true)
    (horder : (u.mpiArray i).mpi = some (n : Int)) (hj : u.firstFree = some j) (size : UInt32)
    (k : Nat) :
    Loaded ((u.fill j size).withValues ((u.fill j size).values.set j k)) i j n k := by
  have hne : i ≠ j := by
    rintro rfl
    have hfree := SlotTable.not_live_of_firstFree hj
    simp [Bn.CxMpi.live, horder] at hfree
  refine ⟨hlocked, ?_, ?_⟩
  · show (((u.fill j size).mpiArray i).mpi.map fun _ => _) = _
    simp [Bn.Mpis.set, State.values, hne, horder]
  · show (((u.fill j size).mpiArray j).mpi.map fun _ => _) = _
    simp [Bn.Mpis.set]

theorem finalKey_eq (hssl : Converts ssl) {u : State} {n : Nat} (hu : ForKeys u 32)
    (horder : (u.mpiArray i).mpi = some (n : Int)) (hn : 0 < n) (hj : u.firstFree = some j)
    (hnew : ssl.bnNew j = true) (result : Bytes) (fuel : Nat) :
    ∃ u', finalKey ssl hmacSha512 seedKey seedLen (Bn.handle (some i)) result fuel u =
      if fuel = 0 then none else some ((.ok, result), u') := by
  have hinit := hu.allocInit hssl (by decide) hj hnew result
  have hloaded := loaded_fill hu.locked horder hj hdkeyBip32KeyLen (fromBE (result.take 32))
  have hk : fromBE (result.take 32) < 256 ^ 32 :=
    Nat.lt_of_lt_of_le (fromBE_lt _) (Nat.pow_le_pow_right (by decide) (List.length_take_le ..))
  refine ⟨(u.fill j hdkeyBip32KeyLen).withValues
    ((u.fill j hdkeyBip32KeyLen).values.set j (fromBE (result.take 32))), ?_⟩
  rw [finalKey]
  simp only [hinit, Option.bind_eq_bind, Option.bind_some, ne_eq, not_true_eq_false, if_false,
    Option.getD_some, hloaded.cmpU32]
  exact finalLoop_eq hssl hloaded hn hk result fuel

theorem finalChecks_starts (hssl : Converts ssl) (h : Starts ssl curve s) (result : Bytes)
    (fuel : Nat) :
    ∃ u, finalChecks ssl hmacSha512 seedKey seedLen curve result fuel s =
      if fuel = 0 then none else some ((.ok, result), u) := by
  obtain ⟨domain, hdomain⟩ := Option.isSome_iff_exists.mp h.known
  obtain ⟨i, hi, hnew, j, hj, hnew'⟩ := h.room
  obtain ⟨u, hu, hfree, horder, hchecks⟩ :=
    finalChecks_order hssl h.unlocked h.ctxNew hdomain hi hnew result fuel
  have hpos := (Ec.order_bounds (List.mem_of_find?_eq_some hdomain)).1
  rw [Ec.curve_of_cxEcdomain hdomain] at hpos
  rw [hchecks]
  exact finalKey_eq hssl hu horder hpos (hfree.trans hj) hnew' result fuel

theorem finalChecks_not_starts (hssl : Converts ssl) (h : ¬ Starts ssl curve s) (result : Bytes)
    (fuel : Nat) :
    ∃ error u, error ≠ EcErr.ok ∧
      finalChecks ssl hmacSha512 seedKey seedLen curve result fuel s =
        some ((error, result), u) := by
  by_cases hlock : s.localBnCtx = false ∧ ssl.ctxNew = true
  · obtain ⟨hunlocked, hctx⟩ := hlock
    cases hi : s.firstFree.filter (ssl.bnNew ·) with
    | none =>
      have hfull := Option.filter_eq_none_iff.mp hi
      have halloc := (forKeys_opened s).alloc_full (fun i hi => by simpa using hfull i hi)
      refine ⟨.mpi .memoryFull, opened s, nofun, ?_⟩
      rw [finalChecks, sysCxBnLock_opened hunlocked hctx]
      simp only [ne_eq, not_true_eq_false, if_false, halloc, Option.bind_eq_bind, Option.bind_some]
      rfl
    | some i =>
      obtain ⟨hi, hnew⟩ := Option.filter_eq_some_iff.mp hi
      cases hdomain : cxEcdomain curve with
      | none =>
        have halloc := (forKeys_opened s).alloc (by decide) hi hnew
        refine ⟨.invalidCurve, (opened s).fill i hdkeyBip32KeyLen, nofun, ?_⟩
        rw [finalChecks, sysCxBnLock_opened hunlocked hctx]
        simp only [ne_eq, not_true_eq_false, if_false, halloc, Option.bind_eq_bind,
          Option.bind_some, sysCxEcdomainParameterBn, hdomain]
        rfl
      | some domain =>
        obtain ⟨u, hu, hfree, -, hchecks⟩ :=
          finalChecks_order hssl hunlocked hctx hdomain hi hnew result fuel
        have hfull : ∀ j, u.firstFree = some j → ssl.bnNew j = false := by
          intro j hj
          cases hnew' : ssl.bnNew j with
          | false => rfl
          | true =>
            refine absurd ?_ h
            exact ⟨hunlocked, hctx, by rw [hdomain]; rfl, i, hi, hnew, j, hfree.symm.trans hj, hnew'⟩
        refine ⟨.mpi .memoryFull, u, nofun, ?_⟩
        rw [hchecks, finalKey]
        simp only [hu.allocInit_full hfull, Option.bind_eq_bind, Option.bind_some]
        rfl
  · have hfail : (sysCxBnLock ssl hdkeyBip32KeyLen s).1 ≠ .ok := by
      rw [sysCxBnLock, Bn.cxMpiLock]
      cases hctx : s.localBnCtx <;> cases hnew : ssl.ctxNew <;> simp_all
    refine ⟨.mpi (sysCxBnLock ssl hdkeyBip32KeyLen s).1, (sysCxBnLock ssl hdkeyBip32KeyLen s).2, ?_,
      ?_⟩
    · exact fun hok => hfail (EcErr.mpi.inj hok)
    · rw [finalChecks]
      simp only [hfail, ne_eq, not_false_eq_true, if_true]
      rfl

section

variable {result result' : Bytes} {s s' : State} {fuel : Nat}

theorem of_success (hssl : Converts ssl)
    (h : hdkeyBip32HdwNormalSeedHmacFinal ssl hmacSha512 seedKey seedLen curve result fuel s =
      some ((.success, result'), s')) :
    Starts ssl curve s ∧ result' = result := by
  obtain ⟨⟨⟨error, result''⟩, u⟩, hchecks, hend⟩ := Option.bind_eq_some_iff.mp h
  by_cases hstarts : Starts ssl curve s
  · refine ⟨hstarts, ?_⟩
    obtain ⟨v, heq⟩ := finalChecks_starts hssl hstarts result fuel
    rw [heq] at hchecks
    cases fuel with
    | zero => cases hchecks
    | succ fuel =>
      cases hchecks
      cases hend
      rfl
  · obtain ⟨error', v, hne, heq⟩ := finalChecks_not_starts hssl hstarts result fuel
    rw [heq] at hchecks
    cases hchecks
    simp [hne] at hend

theorem success_of_starts (hssl : Converts ssl) (h : Starts ssl curve s) (result : Bytes) :
    ∃ s', hdkeyBip32HdwNormalSeedHmacFinal ssl hmacSha512 seedKey seedLen curve result 1 s =
      some ((.success, result), s') := by
  obtain ⟨u, hchecks⟩ := finalChecks_starts hssl h result 1
  refine ⟨(sysCxBnUnlock u).2, ?_⟩
  rw [hdkeyBip32HdwNormalSeedHmacFinal, hchecks]
  rfl

end

-- ---------------------------------------------------------------------------
-- Valid keys
-- ---------------------------------------------------------------------------

section

variable {hmacSha512 : Bytes → Bytes → Bytes} {n sk first : Bytes} {key key' : ExtendedPrivateKey}
  {hash : Region} {fuel : Nat}

/-- The number that the first half of a hash is compared with. -/
def leading (n : Bytes) : Nat := fromBE (n.take 32)

theorem leading_le_fromBE (n : Bytes) : leading n ≤ fromBE n := by
  have hsplit := fromBE_append (n.take 32) (n.drop 32)
  rw [List.take_append_drop] at hsplit
  have hpos : 0 < 256 ^ (n.drop 32).length := Nat.pow_pos (by decide)
  have hle := Nat.le_mul_of_pos_right (fromBE (n.take 32)) hpos
  rw [leading]
  omega

theorem invalid_iff (hn : 32 ≤ n.length) (key : ExtendedPrivateKey) :
    (cxMathIsZero (key.privateKey.slice 0 32) ≠ 0 ∨
      cxMathCmp (key.privateKey.slice 0 32) (n.take 32) ≥ 0) ↔
      ¬ (0 < fromBE (key.privateKey.slice 0 32) ∧
        fromBE (key.privateKey.slice 0 32) < leading n) := by
  have hlt : cxMathCmp (key.privateKey.slice 0 32) (n.take 32) < 0 ↔
      fromBE (key.privateKey.slice 0 32) < leading n :=
    Bip32.cxMathCmp_lt_iff (by rw [Region.length_slice, List.length_take, Nat.min_eq_left hn])
  have hzero := Bip32.cxMathIsZero_eq_zero_iff (key.privateKey.slice 0 32)
  rw [not_and_or, ← hlt, Nat.pos_iff_ne_zero, ← hzero, Int.not_lt]

theorem expandSeedLoop_valid (hn : 32 ≤ n.length)
    (h : expandSeedLoop hmacSha512 n sk fuel key hash = some key') :
    0 < fromBE (key'.privateKey.slice 0 32) ∧ fromBE (key'.privateKey.slice 0 32) < leading n := by
  induction fuel generalizing key hash with
  | zero => cases h
  | succ fuel ih =>
    rw [expandSeedLoop] at h
    split at h
    · exact ih h
    · rename_i hvalid
      cases h
      exact not_not.mp (mt (invalid_iff hn _).mpr hvalid)

theorem expandSeedFrom_of_valid (hn : 32 ≤ n.length) (hfirst : first.length = 64)
    (hvalid : 0 < fromBE (first.take 32) ∧ fromBE (first.take 32) < leading n)
    (key : ExtendedPrivateKey) (hash : Region) :
    ∃ key', expandSeedFrom hmacSha512 n sk first key hash 1 = some key' ∧ key'.Holds first := by
  have hholds := Bip32.holds_load key hash hfirst
  refine ⟨_, ?_, hholds⟩
  rw [expandSeedFrom, expandSeedLoop, if_neg]
  rw [invalid_iff hn, hholds.1]
  exact not_not.mpr hvalid

end

-- ---------------------------------------------------------------------------
-- The claim on master keys
-- ---------------------------------------------------------------------------

/-- Where the function succeeds, the key is in range, and `expand_seed` leaves the same from the
same hash, in whatever memory it finds. -/
def ValidMaster (ssl : Openssl) (hmacSha512 : Bytes → Bytes → Bytes) (curve : CxCurve)
    (seedKey hmac : Bytes) (s : State) : Prop :=
  ∀ fuel result s',
    hdkeyBip32HdwNormalSeedHmacFinal ssl hmacSha512 seedKey 64 curve hmac fuel s =
      some ((.success, result), s') →
    ∃ domain, cxEcdomain curve = some domain ∧
      (0 < fromBE (result.take 32) ∧ fromBE (result.take 32) < fromBE domain.n) ∧
      ∀ key hash, ∃ fuel key', expandSeedFrom hmacSha512 domain.n seedKey hmac key hash fuel =
        some key' ∧ key'.privateKey.slice 0 32 ++ key'.chainCode.slice 0 32 = result

/-- The function succeeds only with a valid key exactly if it cannot start, or the hash is
valid for `expand_seed` already. -/
theorem validMaster_iff {hmac : Bytes} (hssl : Converts ssl) (hlen : hmac.length = 64) :
    ValidMaster ssl hmacSha512 curve seedKey hmac s ↔
      (Starts ssl curve s → ∀ domain, cxEcdomain curve = some domain →
        0 < fromBE (hmac.take 32) ∧ fromBE (hmac.take 32) < leading domain.n) := by
  have hlong {domain : CxCurveDomain} (hdomain : cxEcdomain curve = some domain) :
      32 ≤ domain.n.length := by
    have hall : ∀ domain ∈ Ec.cxAllCurves, 32 ≤ domain.length.toNat := by decide
    rw [Ec.length_n]
    exact hall domain (List.mem_of_find?_eq_some hdomain)
  constructor
  · intro h hstarts domain hdomain
    obtain ⟨s', hsuccess⟩ : ∃ s', hdkeyBip32HdwNormalSeedHmacFinal ssl hmacSha512 seedKey 64 curve
        hmac 1 s = some ((.success, hmac), s') := success_of_starts hssl hstarts hmac
    obtain ⟨domain', hdomain', hrange, hexpand⟩ := h 1 hmac s' hsuccess
    cases hdomain.symm.trans hdomain'
    obtain ⟨fuel, key', hloop, hbytes⟩ :=
      hexpand ⟨⟨fun _ => 0, []⟩, ⟨fun _ => 0, []⟩⟩ ⟨fun _ => 0, []⟩
    have hvalid := expandSeedLoop_valid (hlong hdomain) hloop
    have hleft : hmac.take 32 = key'.privateKey.slice 0 32 := by
      rw [← hbytes, List.take_left' (Region.length_slice ..)]
    rwa [hleft]
  · intro h fuel result s' hsuccess
    obtain ⟨hstarts, rfl⟩ := of_success hssl hsuccess
    obtain ⟨domain, hdomain⟩ := Option.isSome_iff_exists.mp hstarts.known
    have hvalid := h hstarts domain hdomain
    refine ⟨domain, hdomain, ⟨hvalid.1, Nat.lt_of_lt_of_le hvalid.2 (leading_le_fromBE _)⟩, ?_⟩
    intro key hash
    obtain ⟨key', hloop, hleft, hright⟩ :=
      expandSeedFrom_of_valid (hlong hdomain) hlen hvalid key hash
    exact ⟨1, key', hloop, by rw [hleft, hright, List.take_append_drop]⟩

theorem converts_integers : Converts .integers where
  bin2bn _ := rfl
  numBytes _ := rfl
  bn2bin _ := rfl
  bn2binpad _ _ := rfl

theorem starts_initial : Starts .integers Ec.CxCurve.secp256k1 .initial where
  unlocked := rfl
  ctxNew := rfl
  known := rfl
  room := ⟨0, by decide, rfl, 1, by decide, rfl⟩

theorem validMaster_one : ValidMaster .integers (fun _ _ => List.replicate 64 0)
    Ec.CxCurve.secp256k1 [] (List.replicate 64 1) .initial :=
  (validMaster_iff converts_integers rfl).mpr fun _ domain hdomain => by
    cases hdomain
    decide

/-- A hash above the order is taken for a key. -/
theorem not_validMaster_ones : ¬ ValidMaster .integers (fun _ _ => List.replicate 64 0)
    Ec.CxCurve.secp256k1 [] (List.replicate 64 0xff) .initial := by
  intro h
  obtain ⟨s', hsuccess⟩ : ∃ s', hdkeyBip32HdwNormalSeedHmacFinal .integers
      (fun _ _ => List.replicate 64 0) [] 64 Ec.CxCurve.secp256k1 (List.replicate 64 0xff) 1
        .initial =
        some ((.success, List.replicate 64 0xff), s') :=
    success_of_starts converts_integers starts_initial _
  obtain ⟨domain, hdomain, ⟨-, hlt⟩, -⟩ := h _ _ _ hsuccess
  cases hdomain
  revert hlt
  decide

end Speculos.Hdkey
