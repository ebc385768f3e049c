import Speculos.Hash.Blake2b
import Speculos.Hash.Hmac
import Speculos.Lib.BlockMemory

/-!
# BLAKE2b through the hash calls

The functions of `cx_blake2b.c` that an application reaches, and the system call `sys_cx_hash` on
their contexts. A context is in the memory of the application, and every call checks it.
-/

namespace Speculos.Hash

open Lib

-- ---------------------------------------------------------------------------
-- sys_cx_hash
-- ---------------------------------------------------------------------------

/-- What `cx_hash_info_t` says of the contexts of a hash. A function that returns 0 gives
`false`, or no digest. -/
structure CxHashInfo (γ : Type) where
  /-- 0 where the context tells the size. -/
  outputSize : Nat
  validateContext : γ → Bool
  updateFunc : γ → Buf → Bool × γ
  finishFunc : γ → Option Bytes × γ
  outputSizeFunc : γ → Nat

/-- The arguments of a call: whether `mode` has `CX_LAST`, the input, and whether `out` is
`NULL`. -/
structure HashCall where
  last : Bool
  input : Buf
  outNull : Bool
  outLen : Nat
  deriving DecidableEq, Repr

section

variable {γ : Type} (info : CxHashInfo γ)

def specCxHashGetSize (ctx : γ) : Nat :=
  if info.outputSize ≠ 0 then info.outputSize else info.outputSizeFunc ctx

def specCxHashUpdate (ctx : γ) (input : Buf) : Bool × γ :=
  if !info.validateContext ctx then (false, ctx) else info.updateFunc ctx input

def specCxHashFinal (ctx : γ) (outNull : Bool) : Option Bytes × γ :=
  if outNull then (none, ctx)
  else if !info.validateContext ctx then (none, ctx)
  else info.finishFunc ctx

/-- The context after the call, also where it throws, and the digest if there is one. -/
def sysCxHash (ctx : γ) (call : HashCall) : γ × Except Failure (Option Bytes) :=
  if !info.validateContext ctx then (ctx, .error .thrown)
  else
    let digestLen := specCxHashGetSize info ctx
    let (ok, ctx) := specCxHashUpdate info ctx call.input
    if !ok then (ctx, .error .thrown)
    else if call.last then
      if call.outLen < digestLen then (ctx, .error .thrown)
      else
        match specCxHashFinal info ctx call.outNull with
        | (none, ctx) => (ctx, .error .thrown)
        | (some digest, ctx) => (ctx, .ok (some digest))
    else (ctx, .ok none)

end

-- ---------------------------------------------------------------------------
-- cx_blake2b.c
-- ---------------------------------------------------------------------------

/-- `cx_blake2b_t`, without its header. -/
structure CxBlake2b where
  outputSize : Nat
  ctx : Blake2bState
  deriving DecidableEq

def Buf.length : Buf → Nat
  | .null len => len
  | .data bs => bs.length

/-- A pointer that the callee compares with `NULL`. -/
def Buf.pointer : Buf → Option Bytes
  | .null _ => none
  | .data bs => some bs

/-- `NULL` with a length. -/
def Buf.invalid (b : Buf) : Bool := b.pointer.isNone && b.length ≠ 0

/-- What `cx_blake2b_init2` accepts; the size is in bits. -/
def cxBlake2bAccepts (size : Nat) (salt perso : Buf) : Bool :=
  !salt.invalid && !perso.invalid && salt.length ≤ 16 && perso.length ≤ 16 && size % 8 = 0 &&
    8 ≤ size && size ≤ 512

def cxBlake2bInit2 (size : Nat) (salt perso : Buf) : Except Failure CxBlake2b :=
  if salt.invalid then .error .thrown
  else if perso.invalid then .error .thrown
  else if salt.length > 16 ∨ perso.length > 16 then .error .thrown
  else if size % 8 ≠ 0 ∨ size < 8 ∨ size > 512 then .error .thrown
  else
    match specBlake2bInit (size / 8) salt.pointer perso.pointer with
    | none => .error .thrown
    | some ctx => .ok { outputSize := size / 8, ctx }

def cxBlake2bInit (size : Nat) : Except Failure CxBlake2b := cxBlake2bInit2 size (.null 0) (.null 0)

def specCxBlake2bUpdate (ctx : CxBlake2b) (data : Buf) : Bool × CxBlake2b :=
  if data.invalid then (false, ctx)
  else (true, { ctx with ctx := specBlake2bUpdate ctx.ctx data.bytes })

/-- The digest goes behind a pointer that is not `NULL`. -/
def specCxBlake2bFinal (ctx : CxBlake2b) : Option Bytes × CxBlake2b :=
  let (digest, state) := specBlake2bFinal ctx.ctx (some ctx.outputSize)
  (digest, { ctx with ctx := state })

def specCxBlake2bGetOutputSize (ctx : CxBlake2b) : Nat := ctx.outputSize

def cxBlake2bValidateContext (ctx : CxBlake2b) : Bool :=
  if ctx.outputSize < 1 ∨ ctx.outputSize > 64 then false
  else if ctx.ctx.buflen > 128 ∨ ctx.ctx.outlen > 128 then false
  else true

def cxBlake2bInfo : CxHashInfo CxBlake2b where
  outputSize := 0
  validateContext := cxBlake2bValidateContext
  updateFunc := specCxBlake2bUpdate
  finishFunc := specCxBlake2bFinal
  outputSizeFunc := specCxBlake2bGetOutputSize

-- ---------------------------------------------------------------------------
-- What the calls are for
-- ---------------------------------------------------------------------------

/-- All input so far, and whether the digest has been given. -/
structure Hasher where
  absorbed : Bytes
  done : Bool
  deriving DecidableEq, Repr

/-- A hash `H` with digests of `size` bytes, which are given once. The input of a call that
fails for want of room stays. -/
def Hasher.call (H : Bytes → Bytes) (size : Nat) (s : Hasher) (call : HashCall) :
    Hasher × Except Failure (Option Bytes) :=
  if call.input.invalid then (s, .error .thrown)
  else
    let s := { s with absorbed := s.absorbed ++ call.input.bytes }
    if !call.last then (s, .ok none)
    else if call.outLen < size ∨ call.outNull ∨ s.done then (s, .error .thrown)
    else ({ s with done := true }, .ok (some (H s.absorbed)))

def blake2bParams (size : Nat) (salt perso : Buf) : Blake2.Params where
  digestLength := size / 8
  key := []
  salt := salt.bytes
  personal := perso.bytes

/-- A context that stands for a hasher. -/
structure Simulates (p : Blake2.Params) (ctx : CxBlake2b) (s : Hasher) : Prop where
  outputSize : ctx.outputSize = p.digestLength
  outlen : ctx.ctx.outlen = p.digestLength
  size_pos : 0 < p.digestLength
  size_le : p.digestLength ≤ 64
  key : p.key = []
  buflen : ctx.ctx.buflen ≤ 128
  last : blake2bIsLastblock ctx.ctx = s.done
  holds : s.done = false → ctx.ctx.Holds (Blake2.start blake2bWords p) s.absorbed

section

variable {p : Blake2.Params} {ctx : CxBlake2b} {s : Hasher}

theorem Simulates.validates (h : Simulates p ctx s) : cxBlake2bValidateContext ctx = true := by
  have hpos := h.size_pos
  have hle := h.size_le
  have hbuflen := h.buflen
  rw [cxBlake2bValidateContext, h.outputSize, h.outlen, if_neg (by omega), if_neg (by omega)]

theorem Simulates.update (h : Simulates p ctx s) (inp : Bytes) :
    Simulates p { ctx with ctx := specBlake2bUpdate ctx.ctx inp }
      { s with absorbed := s.absorbed ++ inp } := by
  obtain ⟨hlast, houtlen, hbuflen⟩ := blake2bIsLastblock_update h.buflen inp
  exact ⟨h.outputSize, houtlen.trans h.outlen, h.size_pos, h.size_le, h.key, hbuflen,
    hlast.trans h.last, fun hdone => ((h.holds hdone).update inp).1⟩

theorem specBlake2bFinal_buflen (S : Blake2bState) (outlen : Option Nat) :
    (specBlake2bFinal S outlen).2.buflen = S.buflen := by
  rw [specBlake2bFinal]
  split
  · rfl
  · split <;> rfl

theorem Simulates.final (h : Simulates p ctx s) (hdone : s.done = false) :
    (specCxBlake2bFinal ctx).1 = some (Blake2.hash blake2bWords p s.absorbed) ∧
      Simulates p (specCxBlake2bFinal ctx).2 { s with done := true } := by
  have hroom : (some ctx.outputSize).any (· < ctx.ctx.outlen) = false := by
    rw [h.outputSize, h.outlen]
    exact decide_eq_false (Nat.lt_irrefl _)
  obtain ⟨hdigest, hlast, houtlen⟩ := (h.holds hdone).final hroom
  have hbuflen := specBlake2bFinal_buflen ctx.ctx (some ctx.outputSize)
  refine ⟨?_, h.outputSize, houtlen.trans h.outlen, h.size_pos, h.size_le, h.key, ?_, hlast, nofun⟩
  · rw [specCxBlake2bFinal, hdigest, h.outlen, Blake2.hash, Blake2.keyBlock, if_pos h.key,
      List.nil_append]
  · exact hbuflen.trans_le h.buflen

theorem Simulates.final_of_done (h : Simulates p ctx s) (hdone : s.done = true) :
    specCxBlake2bFinal ctx = (none, ctx) := by
  rw [specCxBlake2bFinal, specBlake2bFinal_of_last (h.last.trans hdone)]

theorem Simulates.call (h : Simulates p ctx s) (call : HashCall) :
    (sysCxHash cxBlake2bInfo ctx call).2 =
        (s.call (Blake2.hash blake2bWords p) p.digestLength call).2 ∧
      Simulates p (sysCxHash cxBlake2bInfo ctx call).1
        (s.call (Blake2.hash blake2bWords p) p.digestLength call).1 := by
  have hvalid : cxBlake2bInfo.validateContext ctx = true := h.validates
  have hsize : specCxHashGetSize cxBlake2bInfo ctx = p.digestLength := h.outputSize
  by_cases hinput : call.input.invalid = true
  · have hupdate : specCxHashUpdate cxBlake2bInfo ctx call.input = (false, ctx) := by
      rw [specCxHashUpdate, hvalid]
      exact if_pos hinput
    rw [sysCxHash, hvalid, hupdate, Hasher.call, if_pos hinput]
    exact ⟨rfl, h⟩
  · have hnext := h.update call.input.bytes
    have hupdate : specCxHashUpdate cxBlake2bInfo ctx call.input =
        (true, { ctx with ctx := specBlake2bUpdate ctx.ctx call.input.bytes }) := by
      rw [specCxHashUpdate, hvalid]
      exact if_neg hinput
    rw [sysCxHash, hvalid, hupdate, hsize, Hasher.call, if_neg hinput]
    generalize ({ ctx with ctx := specBlake2bUpdate ctx.ctx call.input.bytes } : CxBlake2b) = ctx',
      ({ s with absorbed := s.absorbed ++ call.input.bytes } : Hasher) = s' at hnext
    have hvalid' : cxBlake2bInfo.validateContext ctx' = true := hnext.validates
    simp only [Bool.not_true, Bool.false_eq_true, if_false]
    cases call.last with
    | false => exact ⟨rfl, hnext⟩
    | true =>
    simp only [Bool.not_true, Bool.false_eq_true, if_false, if_true]
    by_cases hroom : call.outLen < p.digestLength
    · rw [if_pos hroom, if_pos (.inl hroom)]
      exact ⟨rfl, hnext⟩
    · rw [if_neg hroom, specCxHashFinal, hvalid']
      cases call.outNull with
      | true =>
        rw [if_pos rfl, if_pos (.inr (.inl rfl))]
        exact ⟨rfl, hnext⟩
      | false =>
        rw [if_neg Bool.false_ne_true, Bool.not_true, if_neg Bool.false_ne_true]
        have hfinish : cxBlake2bInfo.finishFunc ctx' = specCxBlake2bFinal ctx' := rfl
        rw [hfinish]
        cases hdone : s'.done with
        | true =>
          rw [hnext.final_of_done hdone, if_pos (.inr (.inr rfl))]
          exact ⟨rfl, hnext⟩
        | false =>
          obtain ⟨hdigest, hfinal⟩ := hnext.final hdone
          rw [if_neg (by simp [hroom])]
          generalize specCxBlake2bFinal ctx' = r at hdigest hfinal
          obtain ⟨digest, ctx''⟩ := r
          cases hdigest
          exact ⟨rfl, hfinal⟩

end

-- ---------------------------------------------------------------------------
-- Runs of calls
-- ---------------------------------------------------------------------------

theorem cxBlake2bAccepts_iff : cxBlake2bAccepts size salt perso = true ↔
    salt.invalid = false ∧ perso.invalid = false ∧ ¬ (salt.length > 16 ∨ perso.length > 16) ∧
      ¬ (size % 8 ≠ 0 ∨ size < 8 ∨ size > 512) := by
  simp only [cxBlake2bAccepts, Bool.and_eq_true, Bool.not_eq_true', decide_eq_true_eq]
  constructor
  · rintro ⟨⟨⟨⟨⟨⟨hsalt, hperso⟩, _⟩, _⟩, _⟩, _⟩, _⟩
    exact ⟨hsalt, hperso, by omega, by omega⟩
  · rintro ⟨hsalt, hperso, hlen, hsize⟩
    exact ⟨⟨⟨⟨⟨⟨hsalt, hperso⟩, by omega⟩, by omega⟩, by omega⟩, by omega⟩, by omega⟩

theorem cxBlake2bInit2_of_not (h : ¬ cxBlake2bAccepts size salt perso = true) :
    cxBlake2bInit2 size salt perso = .error .thrown := by
  rw [cxBlake2bAccepts_iff] at h
  rw [cxBlake2bInit2]
  split
  · rfl
  · split
    · rfl
    · split
      · rfl
      · rename_i hsalt hperso hlen
        rw [if_pos]
        by_contra hsize
        exact h ⟨Bool.eq_false_of_not_eq_true hsalt, Bool.eq_false_of_not_eq_true hperso, hlen,
          hsize⟩

theorem Buf.getD_pointer (b : Buf) : b.pointer.getD [] = b.bytes := by
  cases b <;> rfl

theorem cxBlake2bInit2_simulates (h : cxBlake2bAccepts size salt perso = true) :
    ∃ ctx, cxBlake2bInit2 size salt perso = .ok ctx ∧
      Simulates (blake2bParams size salt perso) ctx ⟨[], false⟩ := by
  obtain ⟨hsalt, hperso, hlen, hsize⟩ := cxBlake2bAccepts_iff.mp h
  have hpos : 0 < size / 8 := by omega
  have hle : size / 8 ≤ 64 := by omega
  obtain ⟨S, hinit, hS, houtlen⟩ := specBlake2bInit_holds salt.pointer perso.pointer hpos hle
  rw [Buf.getD_pointer, Buf.getD_pointer] at hS
  refine ⟨⟨size / 8, S⟩, ?_, rfl, houtlen, hpos, hle, rfl, hS.buflen_le, ?_, fun _ => hS⟩
  · rw [cxBlake2bInit2, hsalt, hperso, if_neg Bool.false_ne_true, if_neg Bool.false_ne_true,
      if_neg hlen, if_neg hsize, hinit]
  · show blake2bIsLastblock S = false
    rw [blake2bIsLastblock, hS.at_absorbed.f0]
    rfl

/-- Every sequence of calls on a context that was made for `size` bits: the digest is that of all
input in the order of the calls, however it is cut, and it is given once. -/
theorem sysCxHash_blake2b (size : Nat) (salt perso : Buf) (calls : List HashCall) :
    (cxBlake2bInit2 size salt perso).map (mapAccum (sysCxHash cxBlake2bInfo) · calls) =
      if cxBlake2bAccepts size salt perso then
        .ok (mapAccum (Hasher.call (Blake2.hash blake2bWords (blake2bParams size salt perso)) (size / 8))
          ⟨[], false⟩ calls)
      else .error .thrown := by
  by_cases haccepts : cxBlake2bAccepts size salt perso = true
  · obtain ⟨ctx, hinit, hsim⟩ := cxBlake2bInit2_simulates haccepts
    rw [hinit, if_pos haccepts]
    exact congrArg Except.ok (mapAccum_eq_of_rel (fun _ _ call h => h.call call) hsim calls)
  · rw [cxBlake2bInit2_of_not haccepts, if_neg haccepts]
    rfl

end Speculos.Hash
