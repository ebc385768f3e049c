import Speculos.Hash.Hmac

/-!
# Reuse of an HMAC context

`cx_hmac` reinitialises a context behind the last piece of a message, through the init
function without a key. That function clears the context first, and the key with it, so
that from the second message on the key is a block of the inner pad.
-/

namespace Speculos.Hash

open Lib

-- ---------------------------------------------------------------------------
-- cx_hmac
-- ---------------------------------------------------------------------------

/-- The arguments of a call, with the two flags of `mode` that matter. -/
structure HmacCall where
  last : Bool
  noReinit : Bool
  input : Buf
  hasOut : Bool
  outLen : Nat
  deriving DecidableEq, Repr

/-- The hashes that `cx_scc_struct_check_hashmac` accepts. -/
def isHmacDigest (md : CxMd) : Bool := md = .sha256 ∨ md = .sha512 ∨ md = .ripemd160

def cxSccStructCheckHashmac (S : HashFunctions γ) (ctx : HmacCtx γ) : Bool :=
  isHmacDigest (S.algo ctx.hash) && S.valid ctx.hash

def Buf.isNull : Buf → Bool
  | .null _ => true
  | .data _ => false

def Buf.len : Buf → Nat
  | .null len => len
  | .data bs => bs.length

def HmacCall.accepted (call : HmacCall) : Bool :=
  !(call.input.isNull && call.input.len != 0) && !(!call.hasOut && call.outLen != 0)

/-- `cx_hmac`: the value with what is written to `out`, or nothing where `INVALID_PARAMETER`
is thrown, and the context. -/
def cxHmac (S : HashFunctions γ) (ctx : HmacCtx γ) (call : HmacCall) :
    Option (Option (Nat × Bytes) × HmacCtx γ) :=
  if !call.accepted then some (none, ctx)
  else if !cxSccStructCheckHashmac S ctx then some (none, ctx)
  else
    (specCxHmacUpdate S ctx call.input).bind fun (_, ctx) =>
      if call.last then
        (specCxHmacFinal S ctx call.hasOut call.outLen).bind fun (_, ctx, out, outputSize) =>
          if call.noReinit then some (some (outputSize, out), ctx)
          else
            (specCxHmacInit S ctx (S.algo ctx.hash) (.null 0)).map fun (_, ctx) =>
              (some (outputSize, out), ctx)
      else some (some (0, []), ctx)

def cxHmacCalls (S : HashFunctions γ) :
    HmacCtx γ → List HmacCall → Option (List (Option (Nat × Bytes)))
  | _, [] => some []
  | ctx, call :: calls =>
    (cxHmac S ctx call).bind fun (ret, ctx) => (cxHmacCalls S ctx calls).map (ret :: ·)

-- ---------------------------------------------------------------------------
-- Messages
-- ---------------------------------------------------------------------------

/-- What is returned at the end of a message: `value`, as far as there is room. -/
def returned (md : CxMd) (value : Bytes) (call : HmacCall) : Nat × Bytes :=
  (min call.outLen md.outputSize, value.take (min call.outLen md.outputSize))

def HmacCall.ends (call : HmacCall) : Bool := call.accepted && call.last

/-- What the calls give where a message `m` has the value `first m`, and the messages behind
it have the values of `later`. -/
def values (md : CxMd) (later : Bytes → Bytes) :
    (Bytes → Bytes) → Bytes → List HmacCall → List (Option (Nat × Bytes))
  | _, _, [] => []
  | first, m, call :: calls =>
    if !call.accepted then none :: values md later first m calls
    else if call.last then
      some (returned md (first (m ++ call.input.bytes)) call) :: values md later later [] calls
    else some (0, []) :: values md later first (m ++ call.input.bytes) calls

/-- The lengths of the messages that are ended, where `n` bytes were given before. -/
def messageLengths : Nat → List HmacCall → List Nat
  | _, [] => []
  | n, call :: calls =>
    if !call.accepted then messageLengths n calls
    else if call.last then (n + call.input.bytes.length) :: messageLengths 0 calls
    else messageLengths (n + call.input.bytes.length) calls

def behindFirst : List HmacCall → List HmacCall
  | [] => []
  | call :: calls => if call.ends then calls else behindFirst calls

/-- No value is asked for. -/
def AsksNothing (calls : List HmacCall) : Prop := ∀ call ∈ calls, call.ends → call.outLen = 0

/-- Each message that is ended has the value under the key that the context was initialised with,
for all hash functions that take what the program's take. -/
def Reuses (md : CxMd) (key : Bytes) (calls : List HmacCall) : Prop :=
  ∀ (γ : Type) (S : HashFunctions γ) (H : CxMd → Bytes → Bytes), S.Streams H CxMd.fits →
    ∀ ctx ctx', specCxHmacInit S ctx md (.data key) = some (true, ctx') →
      ∀ front call rest, calls = front ++ call :: rest → call.ends →
        cxHmacCalls S ctx' (front ++ [call]) =
          some (values md (hmac md.blockSize (H md) key) (hmac md.blockSize (H md) key) []
            (front ++ [call]))

section

variable {md : CxMd} {first later later' : Bytes → Bytes} {m : Bytes} {call : HmacCall}
  {calls : List HmacCall}

@[simp] theorem values_nil : values md later first m [] = [] := rfl

theorem values_refused (h : call.accepted = false) :
    values md later first m (call :: calls) = none :: values md later first m calls := by
  simp [values, h]

theorem values_piece (h : call.accepted = true) (hlast : call.last = false) :
    values md later first m (call :: calls) =
      some (0, []) :: values md later first (m ++ call.input.bytes) calls := by
  simp [values, h, hlast]

theorem values_end (h : call.accepted = true) (hlast : call.last = true) :
    values md later first m (call :: calls) =
      some (returned md (first (m ++ call.input.bytes)) call) :: values md later later [] calls := by
  simp [values, h, hlast]

theorem HmacCall.cases_ends (call : HmacCall) :
    call.accepted = false ∨ (call.accepted = true ∧ call.last = false) ∨
      (call.accepted = true ∧ call.last = true) := by
  cases call.accepted <;> cases call.last <;> simp

theorem values_of_asksNothing (f g : Bytes → Bytes) (m m' : Bytes) (h : AsksNothing calls) :
    values md later f m calls = values md later' g m' calls := by
  induction calls generalizing f g m m' with
  | nil => rfl
  | cons call calls ih =>
    have hcalls : AsksNothing calls := fun c hc => h c (List.mem_cons_of_mem _ hc)
    rcases call.cases_ends with hacc | ⟨hacc, hlast⟩ | ⟨hacc, hlast⟩
    · rw [values_refused hacc, values_refused hacc, ih _ _ _ _ hcalls]
    · rw [values_piece hacc hlast, values_piece hacc hlast, ih _ _ _ _ hcalls]
    · have hzero : call.outLen = 0 :=
        h call List.mem_cons_self (by simp [HmacCall.ends, hacc, hlast])
      rw [values_end hacc hlast, values_end hacc hlast, ih later later' [] [] hcalls]
      simp [returned, hzero]

theorem asksNothing_of_values (hsize : 0 < md.outputSize) (f g : Bytes → Bytes) (m m' : Bytes)
    (hfg : ∀ m m' k, 0 < k → (f m).take k ≠ (g m').take k)
    (hlater : ∀ m m' k, 0 < k → (later m).take k ≠ (later' m').take k)
    (h : values md later f m calls = values md later' g m' calls) : AsksNothing calls := by
  induction calls generalizing f g m m' with
  | nil => exact fun call hcall => absurd hcall List.not_mem_nil
  | cons call calls ih =>
    refine List.forall_mem_cons.mpr ?_
    rcases call.cases_ends with hacc | ⟨hacc, hlast⟩ | ⟨hacc, hlast⟩
    · rw [values_refused hacc, values_refused hacc, List.cons.injEq] at h
      exact ⟨by simp [HmacCall.ends, hacc], ih _ _ _ _ hfg h.2⟩
    · rw [values_piece hacc hlast, values_piece hacc hlast, List.cons.injEq] at h
      exact ⟨by simp [HmacCall.ends, hlast], ih _ _ _ _ hfg h.2⟩
    · rw [values_end hacc hlast, values_end hacc hlast, List.cons.injEq, Option.some.injEq,
        returned, returned, Prod.mk.injEq] at h
      obtain ⟨⟨-, hvalue⟩, hrest⟩ := h
      refine ⟨fun _ => ?_, ih _ _ _ _ hlater hrest⟩
      by_contra hout
      exact hfg _ _ _ (by omega) hvalue

theorem values_behindFirst (h : values md later first m calls = values md later' first m calls) :
    values md later later [] (behindFirst calls) =
      values md later' later' [] (behindFirst calls) := by
  induction calls generalizing m with
  | nil => rfl
  | cons call calls ih =>
    rcases call.cases_ends with hacc | ⟨hacc, hlast⟩ | ⟨hacc, hlast⟩
    · rw [values_refused hacc, values_refused hacc, List.cons.injEq] at h
      simpa [behindFirst, HmacCall.ends, hacc] using ih h.2
    · rw [values_piece hacc hlast, values_piece hacc hlast, List.cons.injEq] at h
      simpa [behindFirst, HmacCall.ends, hlast] using ih h.2
    · rw [values_end hacc hlast, values_end hacc hlast, List.cons.injEq] at h
      simpa [behindFirst, HmacCall.ends, hacc, hlast] using h.2

theorem values_of_behindFirst (h : AsksNothing (behindFirst calls)) :
    values md later first m calls = values md later' first m calls := by
  induction calls generalizing m with
  | nil => rfl
  | cons call calls ih =>
    rcases call.cases_ends with hacc | ⟨hacc, hlast⟩ | ⟨hacc, hlast⟩
    · simp only [behindFirst, HmacCall.ends, hacc, Bool.false_and, Bool.false_eq_true,
        if_false] at h
      rw [values_refused hacc, values_refused hacc, ih h]
    · simp only [behindFirst, HmacCall.ends, hlast, Bool.and_false, Bool.false_eq_true,
        if_false] at h
      rw [values_piece hacc hlast, values_piece hacc hlast, ih h]
    · simp only [behindFirst, HmacCall.ends, hacc, hlast, Bool.and_self, if_true] at h
      rw [values_end hacc hlast, values_end hacc hlast, values_of_asksNothing _ _ _ _ h]

theorem behindFirst_append (h : c ∈ behindFirst calls) (rest : List HmacCall) :
    c ∈ behindFirst (calls ++ rest) := by
  induction calls with
  | nil => cases h
  | cons call calls ih =>
    rw [List.cons_append]
    unfold behindFirst at h ⊢
    split at h
    · rw [if_pos ‹_›]
      exact List.mem_append_left _ h
    · rw [if_neg ‹_›]
      exact ih h

theorem split_behindFirst (h : c ∈ behindFirst calls) :
    ∃ front rest, calls = front ++ c :: rest ∧ c ∈ behindFirst (front ++ [c]) := by
  induction calls with
  | nil => cases h
  | cons call calls ih =>
    unfold behindFirst at h
    split at h
    · obtain ⟨front, rest, rfl⟩ := List.append_of_mem h
      refine ⟨call :: front, rest, rfl, ?_⟩
      rw [List.cons_append, behindFirst, if_pos ‹_›]
      exact List.mem_append_right _ List.mem_cons_self
    · obtain ⟨front, rest, rfl, hmem⟩ := ih h
      refine ⟨call :: front, rest, rfl, ?_⟩
      rw [List.cons_append, behindFirst, if_neg ‹_›]
      exact hmem

theorem messageLengths_refused (n : Nat) (h : call.accepted = false) :
    messageLengths n (call :: calls) = messageLengths n calls := by
  simp [messageLengths, h]

theorem messageLengths_piece (n : Nat) (h : call.accepted = true) (hlast : call.last = false) :
    messageLengths n (call :: calls) = messageLengths (n + call.input.bytes.length) calls := by
  simp [messageLengths, h, hlast]

theorem messageLengths_end (n : Nat) (h : call.accepted = true) (hlast : call.last = true) :
    messageLengths n (call :: calls) = (n + call.input.bytes.length) :: messageLengths 0 calls := by
  simp [messageLengths, h, hlast]

theorem messageLengths_append (n : Nat) (h : k ∈ messageLengths n calls) (rest : List HmacCall) :
    k ∈ messageLengths n (calls ++ rest) := by
  induction calls generalizing n with
  | nil => cases h
  | cons call calls ih =>
    rw [List.cons_append]
    rcases call.cases_ends with hacc | ⟨hacc, hlast⟩ | ⟨hacc, hlast⟩
    · rw [messageLengths_refused n hacc] at h ⊢
      exact ih n h
    · rw [messageLengths_piece n hacc hlast] at h ⊢
      exact ih _ h
    · rw [messageLengths_end n hacc hlast] at h ⊢
      exact (List.mem_cons.mp h).elim (· ▸ List.mem_cons_self) fun h =>
        List.mem_cons_of_mem _ (ih 0 h)

theorem split_messageLengths (n : Nat) (h : k ∈ messageLengths n calls) :
    ∃ front call rest, calls = front ++ call :: rest ∧ call.ends ∧
      k ∈ messageLengths n (front ++ [call]) := by
  induction calls generalizing n with
  | nil => cases h
  | cons call calls ih =>
    rcases call.cases_ends with hacc | ⟨hacc, hlast⟩ | ⟨hacc, hlast⟩
    · rw [messageLengths_refused n hacc] at h
      obtain ⟨front, c, rest, rfl, hends, hmem⟩ := ih n h
      exact ⟨call :: front, c, rest, rfl, hends,
        by rwa [List.cons_append, messageLengths_refused n hacc]⟩
    · rw [messageLengths_piece n hacc hlast] at h
      obtain ⟨front, c, rest, rfl, hends, hmem⟩ := ih _ h
      exact ⟨call :: front, c, rest, rfl, hends,
        by rwa [List.cons_append, messageLengths_piece n hacc hlast]⟩
    · rw [messageLengths_end n hacc hlast] at h
      rcases List.mem_cons.mp h with rfl | h
      · exact ⟨[], call, calls, rfl, by simp [HmacCall.ends, hacc, hlast],
          by simp [messageLengths_end n hacc hlast]⟩
      · obtain ⟨front, c, rest, rfl, hends, hmem⟩ := ih 0 h
        refine ⟨call :: front, c, rest, rfl, hends, ?_⟩
        rw [List.cons_append, messageLengths_end n hacc hlast]
        exact List.mem_cons_of_mem _ hmem

theorem le_messageLengths (n : Nat) (front : List HmacCall) (h : call.ends) :
    ∃ k ∈ messageLengths n (front ++ [call]), n ≤ k := by
  induction front generalizing n with
  | nil =>
    rw [HmacCall.ends, Bool.and_eq_true] at h
    refine ⟨n + call.input.bytes.length, ?_, Nat.le_add_right _ _⟩
    rw [List.nil_append, messageLengths_end n h.1 h.2]
    exact List.mem_cons_self
  | cons c front ih =>
    rw [List.cons_append]
    rcases c.cases_ends with hacc | ⟨hacc, hlast⟩ | ⟨hacc, hlast⟩
    · rw [messageLengths_refused n hacc]
      exact ih n
    · rw [messageLengths_piece n hacc hlast]
      obtain ⟨k, hk, hle⟩ := ih (n + c.input.bytes.length)
      exact ⟨k, hk, Nat.le_trans (Nat.le_add_right _ _) hle⟩
    · rw [messageLengths_end n hacc hlast]
      exact ⟨_, List.mem_cons_self, Nat.le_add_right _ _⟩

end

-- ---------------------------------------------------------------------------
-- What the calls give
-- ---------------------------------------------------------------------------

section

variable {γ : Type} {S : HashFunctions γ} {H : CxMd → Bytes → Bytes} {md : CxMd} {ctx : HmacCtx γ}
  {K m piece block digest : Bytes} {pieces more : List Bytes} {call : HmacCall}
  {calls : List HmacCall}

theorem isAllowedDigest_of_isHmacDigest (h : isHmacDigest md) : isAllowedDigest md := by
  cases md <;> simp_all [isHmacDigest, isAllowedDigest]

theorem HmacCall.outLen_eq_zero (h : call.accepted) (hout : call.hasOut = false) :
    call.outLen = 0 := by
  simp only [accepted, hout] at h
  grind

def padBlock (md : CxMd) : Bytes := List.replicate md.blockSize ipad

/-- All updates are within the limit, where `n` bytes were given before. -/
def TakesAll (md : CxMd) : Nat → List HmacCall → Prop
  | _, [] => True
  | n, call :: calls =>
    if !call.accepted then TakesAll md n calls
    else md.takes (md.blockSize + (n + call.input.bytes.length)) ∧
      TakesAll md (if call.last then 0 else n + call.input.bytes.length) calls

theorem takesAll_of_messageLengths (hends : call.ends) (front : List HmacCall) (n : Nat)
    (h : ∀ k ∈ messageLengths n (front ++ [call]), md.takes (md.blockSize + k)) :
    TakesAll md n (front ++ [call]) := by
  induction front generalizing n with
  | nil =>
    rw [HmacCall.ends, Bool.and_eq_true] at hends
    rw [List.nil_append, messageLengths_end n hends.1 hends.2] at h
    simpa [TakesAll, hends] using h _ List.mem_cons_self
  | cons c front ih =>
    rw [List.cons_append] at h ⊢
    rcases c.cases_ends with hacc | ⟨hacc, hlast⟩ | ⟨hacc, hlast⟩
    · rw [messageLengths_refused n hacc] at h
      simpa [TakesAll, hacc] using ih n h
    · rw [messageLengths_piece n hacc hlast] at h
      obtain ⟨k, hk, hle⟩ := le_messageLengths (n + c.input.bytes.length) front hends
      have htakes := (h k hk).mono (Nat.add_le_add_left hle md.blockSize)
      simpa [TakesAll, hacc, hlast] using ⟨htakes, ih _ h⟩
    · rw [messageLengths_end n hacc hlast] at h
      obtain ⟨hone, hrest⟩ := List.forall_mem_cons.mp h
      simpa [TakesAll, hacc, hlast] using ⟨hone, ih 0 hrest⟩

theorem messageLengths_of_takesAll (n : Nat) (h : TakesAll md n calls) :
    ∀ k ∈ messageLengths n calls, md.takes (md.blockSize + k) := by
  induction calls generalizing n with
  | nil => exact fun k hk => absurd hk List.not_mem_nil
  | cons call calls ih =>
    rcases call.cases_ends with hacc | ⟨hacc, hlast⟩ | ⟨hacc, hlast⟩
    · rw [messageLengths_refused n hacc]
      exact ih n (by simpa [TakesAll, hacc] using h)
    · rw [messageLengths_piece n hacc hlast]
      simp only [TakesAll, hacc, hlast, Bool.not_true, Bool.false_eq_true, if_false] at h
      exact ih _ h.2
    · rw [messageLengths_end n hacc hlast]
      simp only [TakesAll, hacc, hlast, Bool.not_true, Bool.false_eq_true, if_false, if_true] at h
      exact List.forall_mem_cons.mpr ⟨h.1, ih 0 h.2⟩

/-- A context under a key block that stands for `n` bytes. -/
structure Reusable (S : HashFunctions γ) (md : CxMd) (K : Bytes) (m : Bytes) (ctx : HmacCtx γ) :
    Prop where
  length_block : K.length = md.blockSize
  given : ∃ done, Keyed S md K done ctx ∧ md.fits (xorAll K ipad :: done) ∧ done.flatten = m

theorem update_ok (hS : S.Streams H CxMd.fits) (hmd : isAllowedDigest md)
    (hctx : Reusable S md K m ctx) (input : Buf) (hinput : inMemory input.bytes)
    (htakes : md.takes (md.blockSize + (m ++ input.bytes).length)) :
    ∃ ret ctx', specCxHmacUpdate S ctx input = some (ret, ctx') ∧
      Reusable S md K (m ++ input.bytes) ctx' := by
  obtain ⟨hlen, done, hkeyed, hfits, rfl⟩ := hctx
  cases input with
  | null len => exact ⟨false, ctx, rfl, hlen, done, hkeyed, hfits, (List.append_nil _).symm⟩
  | data bs =>
    have hfits' : md.fits (xorAll K ipad :: (done ++ [bs])) := by
      refine hfits.concat hinput ?_
      rw [List.flatten_cons, List.length_append, length_xorAll, hlen, Nat.add_assoc,
        ← List.length_append]
      exact htakes
    obtain ⟨ctx', hupdate, hctx'⟩ := specCxHmacUpdate_ok hS hmd hkeyed hfits'
    exact ⟨true, ctx', hupdate, hlen, done ++ [bs], hctx', hfits', by simp [Buf.bytes]⟩

theorem final_ok (hS : S.Streams H CxMd.fits) (hmd : isAllowedDigest md)
    (hctx : Reusable S md K m ctx) (hacc : call.accepted) :
    ∃ ret ctx', specCxHmacFinal S ctx call.hasOut call.outLen =
        some (ret, ctx', (returned md (hmacBlock H md K m) call).2,
          (returned md (hmacBlock H md K m) call).1) ∧ S.algo ctx'.hash = md := by
  obtain ⟨hlen, done, hkeyed, hfits, rfl⟩ := hctx
  cases hout : call.hasOut with
  | true =>
    have houter : md.fits [xorAll K opad, H md (xorAll K ipad ++ done.flatten)] :=
      fits_outer hmd (by rw [length_xorAll, hlen]) (hS.length_digest hmd)
    obtain ⟨ctx', hfinal, halgo⟩ := specCxHmacFinal_ok hS hmd hkeyed hfits houter call.outLen
    exact ⟨true, ctx', hfinal, halgo⟩
  | false =>
    refine ⟨false, ctx, ?_, (hkeyed.context hS hmd hfits).1⟩
    simp [specCxHmacFinal, returned, HmacCall.outLen_eq_zero hacc hout]

theorem reinit_ok (hS : S.Streams H CxMd.fits) (hmd : isAllowedDigest md) (ctx : HmacCtx γ) :
    ∃ ctx', specCxHmacInit S ctx md (.null 0) = some (true, ctx') ∧
      Reusable S md (padBlock md) [] ctx' := by
  have hzeros : (List.replicate 128 (0 : UInt8)).take md.blockSize = xorAll (padBlock md) ipad := by
    rw [List.take_replicate, Nat.min_eq_left (blockSize_le hmd).2]
    simp [padBlock, xorAll]
  have hlen : (padBlock md).length = md.blockSize := List.length_replicate
  have hfits : md.fits [xorAll (padBlock md) ipad] := fits_block hmd (by rw [length_xorAll, hlen])
  obtain ⟨ctx', hstart, hctx'⟩ := startInner_ok hS hmd hzeros hfits
  refine ⟨ctx', ?_, hlen, [], hctx', hfits, rfl⟩
  simpa [specCxHmacInit, hmd] using hstart

/-- A hash that throws beyond the limit has taken what it was given. -/
theorem takes_of_update (hS : S.Streams H CxMd.fits)
    (hthrows : ∀ pieces ctx, S.updates (S.init md) pieces = some ctx →
    md.takes pieces.flatten.length) (hmd : isAllowedDigest md) (hctx : Reusable S md K m ctx)
    (h : specCxHmacUpdate S ctx input = some ret) :
    md.takes (md.blockSize + (m ++ input.bytes).length) := by
  obtain ⟨hlen, done, hkeyed, hfits, rfl⟩ := hctx
  have hblock : (xorAll K ipad).length = md.blockSize := by rw [length_xorAll, hlen]
  cases input with
  | null len =>
    have htakes := hfits.1
    rwa [List.flatten_cons, List.length_append, hblock, ← List.append_nil done.flatten] at htakes
  | data bs =>
    rw [specCxHmacUpdate, (hkeyed.context hS hmd hfits).1, if_pos hmd] at h
    obtain ⟨hash, hupdate, -⟩ := Option.map_eq_some_iff.mp h
    have hsplit := S.updates_append (S.init md) (xorAll K ipad :: done) [bs]
    rw [hkeyed.hash, Option.bind_some, HashFunctions.updates, hupdate, Option.bind_some] at hsplit
    have htakes := hthrows _ _ hsplit
    simpa [hblock, Buf.bytes] using htakes

theorem cxHmac_checked (hS : S.Streams H CxMd.fits) (hmd : isHmacDigest md)
    (hctx : Reusable S md K m ctx) (hacc : call.accepted) :
    cxHmac S ctx call =
      (specCxHmacUpdate S ctx call.input).bind fun (_, ctx) =>
        if call.last then
          (specCxHmacFinal S ctx call.hasOut call.outLen).bind fun (_, ctx, out, outputSize) =>
            if call.noReinit then some (some (outputSize, out), ctx)
            else
              (specCxHmacInit S ctx (S.algo ctx.hash) (.null 0)).map fun (_, ctx) =>
                (some (outputSize, out), ctx)
        else some (some (0, []), ctx) := by
  obtain ⟨-, done, hkeyed, hfits, rfl⟩ := hctx
  obtain ⟨halgo, hvalid, -⟩ := hkeyed.context hS (isAllowedDigest_of_isHmacDigest hmd) hfits
  simp [cxHmac, hacc, cxSccStructCheckHashmac, halgo, hvalid, hmd]

theorem cxHmac_piece (hS : S.Streams H CxMd.fits) (hmd : isHmacDigest md)
    (hctx : Reusable S md K m ctx) (hacc : call.accepted) (hlast : call.last = false)
    (hinput : inMemory call.input.bytes)
    (htakes : md.takes (md.blockSize + (m ++ call.input.bytes).length)) :
    ∃ ctx', cxHmac S ctx call = some (some (0, []), ctx') ∧
      Reusable S md K (m ++ call.input.bytes) ctx' := by
  obtain ⟨ret, ctx', hupdate, hctx'⟩ :=
    update_ok hS (isAllowedDigest_of_isHmacDigest hmd) hctx call.input hinput htakes
  refine ⟨ctx', ?_, hctx'⟩
  simp [cxHmac_checked hS hmd hctx hacc, hupdate, hlast]

theorem cxHmac_end (hS : S.Streams H CxMd.fits) (hmd : isHmacDigest md)
    (hctx : Reusable S md K m ctx) (hacc : call.accepted) (hlast : call.last = true)
    (hreinit : call.noReinit = false) (hinput : inMemory call.input.bytes)
    (htakes : md.takes (md.blockSize + (m ++ call.input.bytes).length)) :
    ∃ ctx', cxHmac S ctx call =
        some (some (returned md (hmacBlock H md K (m ++ call.input.bytes)) call), ctx') ∧
      Reusable S md (padBlock md) [] ctx' := by
  have hmd' := isAllowedDigest_of_isHmacDigest hmd
  obtain ⟨ret, ctx₁, hupdate, hctx₁⟩ := update_ok hS hmd' hctx call.input hinput htakes
  obtain ⟨ret', ctx₂, hfinal, halgo⟩ := final_ok hS hmd' hctx₁ hacc
  obtain ⟨ctx₃, hinit, hctx₃⟩ := reinit_ok hS hmd' ctx₂
  refine ⟨ctx₃, ?_, hctx₃⟩
  simp [cxHmac_checked hS hmd hctx hacc, hupdate, hlast, hfinal, hreinit, halgo, hinit]

/-- The calls give the values under the first key, and from the second message on those under
the block of the pad. -/
theorem cxHmacCalls_ok (hS : S.Streams H CxMd.fits) (hmd : isHmacDigest md)
    (hctx : Reusable S md K m ctx) (hinputs : ∀ call ∈ calls, inMemory call.input.bytes)
    (hreinit : ∀ call ∈ calls, call.last → call.noReinit = false)
    (htakes : TakesAll md m.length calls) :
    cxHmacCalls S ctx calls =
      some (values md (hmacBlock H md (padBlock md)) (hmacBlock H md K) m calls) := by
  induction calls generalizing ctx K m with
  | nil => rfl
  | cons call calls ih =>
    obtain ⟨hcall, hcalls⟩ := List.forall_mem_cons.mp hreinit
    obtain ⟨hinput, hinputs⟩ := List.forall_mem_cons.mp hinputs
    rcases call.cases_ends with hacc | ⟨hacc, hlast⟩ | ⟨hacc, hlast⟩
    · have hstep : cxHmac S ctx call = some (none, ctx) := by simp [cxHmac, hacc]
      have hrest : TakesAll md m.length calls := by simpa [TakesAll, hacc] using htakes
      simp [cxHmacCalls, hstep, ih hctx hinputs hcalls hrest, values_refused hacc]
    · simp only [TakesAll, hacc, hlast, Bool.not_true, Bool.false_eq_true, if_false,
        ← List.length_append] at htakes
      obtain ⟨ctx', hstep, hctx'⟩ := cxHmac_piece hS hmd hctx hacc hlast hinput htakes.1
      simp [cxHmacCalls, hstep, ih hctx' hinputs hcalls htakes.2, values_piece hacc hlast]
    · simp only [TakesAll, hacc, hlast, Bool.not_true, Bool.false_eq_true, if_false, if_true,
        ← List.length_append] at htakes
      obtain ⟨ctx', hstep, hctx'⟩ := cxHmac_end hS hmd hctx hacc hlast (hcall hlast) hinput htakes.1
      simp [cxHmacCalls, hstep, ih hctx' hinputs hcalls htakes.2, values_end hacc hlast]

theorem takesAll_of_cxHmacCalls (hS : S.Streams H CxMd.fits)
    (hthrows : ∀ pieces ctx, S.updates (S.init md) pieces = some ctx →
    md.takes pieces.flatten.length) (hmd : isHmacDigest md) (hctx : Reusable S md K m ctx)
    (hinputs : ∀ call ∈ calls, inMemory call.input.bytes)
    (hreinit : ∀ call ∈ calls, call.last → call.noReinit = false)
    (h : cxHmacCalls S ctx calls = some rets) : TakesAll md m.length calls := by
  induction calls generalizing ctx K m rets with
  | nil => trivial
  | cons call calls ih =>
    obtain ⟨hcall, hcalls⟩ := List.forall_mem_cons.mp hreinit
    obtain ⟨hinput, hinputs⟩ := List.forall_mem_cons.mp hinputs
    obtain ⟨⟨ret, ctx'⟩, hstep, hmap⟩ := Option.bind_eq_some_iff.mp h
    obtain ⟨rets', hrest, -⟩ := Option.map_eq_some_iff.mp hmap
    by_cases hacc : call.accepted = false
    · have hrefused : cxHmac S ctx call = some (none, ctx) := by simp [cxHmac, hacc]
      cases hstep.symm.trans hrefused
      simpa [TakesAll, hacc] using ih hctx hinputs hcalls hrest
    · rw [Bool.not_eq_false] at hacc
      have htakes : md.takes (md.blockSize + (m ++ call.input.bytes).length) := by
        rw [cxHmac_checked hS hmd hctx hacc] at hstep
        obtain ⟨⟨ret', ctx₁⟩, hupdate, -⟩ := Option.bind_eq_some_iff.mp hstep
        exact takes_of_update hS hthrows (isAllowedDigest_of_isHmacDigest hmd) hctx hupdate
      cases hlast : call.last with
      | false =>
        obtain ⟨ctx₁, hpiece, hctx₁⟩ := cxHmac_piece hS hmd hctx hacc hlast hinput htakes
        cases hstep.symm.trans hpiece
        have hlater := ih hctx₁ hinputs hcalls hrest
        rw [List.length_append] at htakes hlater
        simpa [TakesAll, hacc, hlast] using ⟨htakes, hlater⟩
      | true =>
        obtain ⟨ctx₁, hend, hctx₁⟩ := cxHmac_end hS hmd hctx hacc hlast (hcall hlast) hinput htakes
        cases hstep.symm.trans hend
        have hlater := ih hctx₁ hinputs hcalls hrest
        rw [List.length_append] at htakes
        simpa [TakesAll, hacc, hlast] using ⟨htakes, hlater⟩

end

-- ---------------------------------------------------------------------------
-- When the key is kept
-- ---------------------------------------------------------------------------

/-- A hash that tells whether a message starts with the outer block of a context without a
key. -/
def padHash (md : CxMd) (m : Bytes) : Bytes :=
  List.replicate md.outputSize (if m.take md.blockSize = xorAll (padBlock md) opad then 1 else 0)

section

variable {γ : Type} {S : HashFunctions γ} {H : CxMd → Bytes → Bytes} {md : CxMd} {key K : Bytes}
  {call : HmacCall} {calls front rest : List HmacCall}

theorem takes_of_limitedHashes {ctx ctx' : CxMd × Bytes} {pieces : List Bytes}
    (hctx : ctx.1.takes ctx.2.length) (h : (limitedHashes H).updates ctx pieces = some ctx') :
    ctx.1.takes (ctx.2 ++ pieces.flatten).length := by
  induction pieces generalizing ctx with
  | nil => rwa [List.flatten_nil, List.append_nil]
  | cons piece pieces ih =>
    obtain ⟨ctx₁, hupdate, hrest⟩ := Option.bind_eq_some_iff.mp h
    by_cases hpiece : ctx.1.takes (ctx.2 ++ piece).length
    · cases (if_pos hpiece).symm.trans hupdate
      rw [List.flatten_cons, ← List.append_assoc]
      exact ih hpiece hrest
    · cases (if_neg hpiece).symm.trans hupdate

theorem length_padHash (md : CxMd) (m : Bytes) : (padHash md m).length = md.outputSize :=
  List.length_replicate

theorem xorAll_injective (b : UInt8) (h : xorAll xs b = xorAll ys b) : xs = ys := by
  have h := congrArg (xorAll · b) h
  simpa only [xorAll_xorAll, UInt8.xor_self, xorAll_zero] using h

theorem hmacKey_eq_padBlock_iff {H : Bytes → Bytes} (hmd : isAllowedDigest md)
    (hH : (H key).length = md.outputSize) :
    hmacKey md.blockSize H key = padBlock md ↔ key = padBlock md := by
  obtain ⟨-, hlt⟩ := outputSize_lt hmd
  have hpad : (padBlock md).length = md.blockSize := List.length_replicate
  -- a block that ends with zeros is not all of the pad
  have hzeros (bs : Bytes) (hbs : bs.length < md.blockSize) :
      bs ++ List.replicate (md.blockSize - bs.length) 0 ≠ padBlock md := by
    intro heq
    have hmem : (0 : UInt8) ∈ padBlock md := by
      rw [← heq, List.mem_append, List.mem_replicate]
      exact .inr ⟨by omega, rfl⟩
    exact absurd (List.eq_of_mem_replicate hmem) (by decide)
  rw [hmacKey]
  by_cases hlong : key.length > md.blockSize
  · rw [if_pos hlong]
    refine iff_of_false (hzeros _ (hH ▸ hlt)) fun heq => ?_
    rw [heq, hpad] at hlong
    exact Nat.lt_irrefl _ hlong
  · rw [if_neg hlong]
    rcases Nat.lt_or_eq_of_le (Nat.not_lt.mp hlong) with hshort | heq
    · refine iff_of_false (hzeros _ hshort) fun heq => ?_
      rw [heq, hpad] at hshort
      exact Nat.lt_irrefl _ hshort
    · simp [heq]

theorem padHash_take_ne (hmd : isAllowedDigest md) (hlen : K.length = md.blockSize)
    (hK : K ≠ padBlock md) (m m' : Bytes) (hk : 0 < k) :
    (hmacBlock padHash md (padBlock md) m).take k ≠ (hmacBlock padHash md K m').take k := by
  obtain ⟨hpos, -⟩ := outputSize_lt hmd
  have hpad : (padBlock md).length = md.blockSize := List.length_replicate
  have hblock (B rest : Bytes) (hB : B.length = md.blockSize) :
      padHash md (xorAll B opad ++ rest) =
        List.replicate md.outputSize (if xorAll B opad = xorAll (padBlock md) opad then 1
          else 0) := by
    rw [padHash, List.take_left' (by rw [length_xorAll, hB])]
  have hne : ¬ xorAll K opad = xorAll (padBlock md) opad := fun h => hK (xorAll_injective opad h)
  rw [hmacBlock, hmacBlock, hblock _ _ hpad, hblock _ _ hlen, if_pos rfl, if_neg hne,
    List.take_replicate, List.take_replicate]
  intro heq
  have hmem : (1 : UInt8) ∈ List.replicate (min k md.outputSize) 0 := by
    rw [← heq, List.mem_replicate]
    exact ⟨by omega, rfl⟩
  exact absurd (List.eq_of_mem_replicate hmem) (by decide)

theorem init_reusable (hS : S.Streams H CxMd.fits) (hmd : isAllowedDigest md) (ctx : HmacCtx γ)
    (hkey : md.fits [key]) :
    ∃ ctx', specCxHmacInit S ctx md (.data key) = some (true, ctx') ∧
      Reusable S md (hmacKey md.blockSize (H md) key) [] ctx' := by
  have hlen : (hmacKey md.blockSize (H md) key).length = md.blockSize :=
    length_hmacKey (by rw [hS.length_digest hmd]; exact (blockSize_le hmd).1)
  have hblock : (xorAll (hmacKey md.blockSize (H md) key) ipad).length = md.blockSize := by
    rw [length_xorAll, hlen]
  have hfits := fits_block hmd hblock
  obtain ⟨ctx', hinit, hkeyed⟩ := specCxHmacInit_ok ctx hS hmd hkey hfits
  exact ⟨ctx', hinit, hlen, [], hkeyed, hfits, rfl⟩

theorem reuses_of (hmd : isHmacDigest md) (hkey : md.fits [key])
    (hinputs : ∀ call ∈ calls, inMemory call.input.bytes)
    (hreinit : ∀ call ∈ calls, call.last → call.noReinit = false)
    (htakes : ∀ n ∈ messageLengths 0 calls, md.takes (md.blockSize + n))
    (h : key = padBlock md ∨ AsksNothing (behindFirst calls)) : Reuses md key calls := by
  have hmd' := isAllowedDigest_of_isHmacDigest hmd
  rintro γ S H hS ctx ctx' hinit front call rest rfl hends
  have hsplit : front ++ call :: rest = (front ++ [call]) ++ rest := by simp
  rw [hsplit] at hinputs hreinit htakes h
  obtain ⟨ctx₁, hinit₁, hctx₁⟩ := init_reusable hS hmd' ctx hkey
  cases hinit.symm.trans hinit₁
  have hvalue : hmacBlock H md (hmacKey md.blockSize (H md) key) = hmac md.blockSize (H md) key :=
    rfl
  have hall : TakesAll md 0 (front ++ [call]) :=
    takesAll_of_messageLengths hends front 0 fun k hk => htakes k (messageLengths_append 0 hk rest)
  rw [cxHmacCalls_ok hS hmd hctx₁ (fun c hc => hinputs c (List.mem_append_left _ hc))
    (fun c hc => hreinit c (List.mem_append_left _ hc)) hall, hvalue]
  rcases h with hpad | hnothing
  · rw [← (hmacKey_eq_padBlock_iff hmd' (hS.length_digest hmd')).mpr hpad, hvalue]
  · exact congrArg some (values_of_behindFirst fun c hc => hnothing c (behindFirst_append hc rest))

theorem Reuses.prefix (h : Reuses md key (front ++ call :: rest)) (hmd : isHmacDigest md)
    (hkey : md.fits [key]) (hends : call.ends) :
    ∃ ctx, Reusable (limitedHashes padHash) md (hmacKey md.blockSize (padHash md) key) [] ctx ∧
      cxHmacCalls (limitedHashes padHash) ctx (front ++ [call]) =
        some (values md (hmac md.blockSize (padHash md) key) (hmac md.blockSize (padHash md) key) []
          (front ++ [call])) := by
  have hS := limitedHashes_streams length_padHash
  obtain ⟨ctx, hinit, hctx⟩ :=
    init_reusable hS (isAllowedDigest_of_isHmacDigest hmd) ⟨(md, []), []⟩ hkey
  exact ⟨ctx, hctx, h _ _ _ hS _ _ hinit front call rest rfl hends⟩

theorem takesAll_of_reuses (hmd : isHmacDigest md) (hkey : md.fits [key])
    (hinputs : ∀ call ∈ calls, inMemory call.input.bytes)
    (hreinit : ∀ call ∈ calls, call.last → call.noReinit = false) (hends : call.ends)
    (hcalls : calls = front ++ call :: rest) (h : Reuses md key calls) :
    TakesAll md 0 (front ++ [call]) := by
  have hsplit : calls = (front ++ [call]) ++ rest := by simp [hcalls]
  rw [hsplit] at hinputs hreinit
  rw [hcalls] at h
  obtain ⟨ctx, hctx, hrets⟩ := h.prefix hmd hkey hends
  refine takesAll_of_cxHmacCalls (limitedHashes_streams length_padHash)
    (fun pieces ctx' hupdates => ?_)
    hmd hctx (fun c hc => hinputs c (List.mem_append_left _ hc))
    (fun c hc => hreinit c (List.mem_append_left _ hc)) hrets
  exact takes_of_limitedHashes (takes_short (isAllowedDigest_of_isHmacDigest hmd) (Nat.zero_le _)) hupdates

theorem asksNothing_of_reuses (hmd : isHmacDigest md) (hkey : md.fits [key])
    (hinputs : ∀ call ∈ calls, inMemory call.input.bytes)
    (hreinit : ∀ call ∈ calls, call.last → call.noReinit = false) (hpad : key ≠ padBlock md)
    (h : Reuses md key calls) : AsksNothing (behindFirst calls) := by
  have hmd' := isAllowedDigest_of_isHmacDigest hmd
  have hS := limitedHashes_streams length_padHash
  intro c hc hends
  obtain ⟨front, rest, hcalls, hmem⟩ := split_behindFirst hc
  have htakes := takesAll_of_reuses hmd hkey hinputs hreinit hends hcalls h
  have hsplit : calls = (front ++ [c]) ++ rest := by simp [hcalls]
  rw [hsplit] at hinputs hreinit
  rw [hcalls] at h
  obtain ⟨ctx, hctx, hrets⟩ := h.prefix hmd hkey hends
  rw [cxHmacCalls_ok hS hmd hctx (fun c hc => hinputs c (List.mem_append_left _ hc))
    (fun c hc => hreinit c (List.mem_append_left _ hc)) htakes] at hrets
  have hK : hmacKey md.blockSize (padHash md) key ≠ padBlock md :=
    fun heq => hpad ((hmacKey_eq_padBlock_iff hmd' (length_padHash ..)).mp heq)
  have hne (m m' : Bytes) (k : Nat) (hk : 0 < k) :=
    padHash_take_ne hmd' hctx.length_block hK m m' hk
  exact asksNothing_of_values (outputSize_lt hmd').1 _ _ _ _ hne hne
    (values_behindFirst (Option.some.inj hrets)) c hmem hends

/-- The values are those under the key exactly if the hash takes every message behind the block of
the key, and the key is a block of the inner pad or no value is asked for behind the first
message. -/
theorem hmac_reuses_iff (hmd : isHmacDigest md) (hkey : md.fits [key])
    (hinputs : ∀ call ∈ calls, inMemory call.input.bytes)
    (hreinit : ∀ call ∈ calls, call.last → call.noReinit = false) :
    Reuses md key calls ↔
      (∀ n ∈ messageLengths 0 calls, (md.blockSize + n) / md.blockSize ≤ md.maxBlocks) ∧
      (key = List.replicate md.blockSize ipad ∨
        ∀ call ∈ behindFirst calls, call.accepted → call.last → call.outLen = 0) := by
  have hasks : AsksNothing (behindFirst calls) ↔
      ∀ call ∈ behindFirst calls, call.accepted → call.last → call.outLen = 0 := by
    simp [AsksNothing, HmacCall.ends]
  rw [← hasks]
  refine ⟨fun h => ⟨fun n hn => ?_, ?_⟩, fun h => reuses_of hmd hkey hinputs hreinit h.1 h.2⟩
  · obtain ⟨front, call, rest, hcalls, hends, hmem⟩ := split_messageLengths 0 hn
    exact messageLengths_of_takesAll 0 (takesAll_of_reuses hmd hkey hinputs hreinit hends hcalls h) n hmem
  · by_cases hpad : key = padBlock md
    · exact .inl hpad
    · exact .inr (asksNothing_of_reuses hmd hkey hinputs hreinit hpad h)

end

def oneByteCall (b : UInt8) : HmacCall := ⟨true, false, .data [b], true, 32⟩

theorem hmac_reuses_oneMessage :
    Reuses .sha256 [0x6b] [⟨false, false, .data [0x61], false, 0⟩, oneByteCall 0x62] :=
  (hmac_reuses_iff (by decide) (by decide) (by decide) (by decide)).mpr
    ⟨by decide, .inr (by decide)⟩

theorem not_reuses_twoMessages : ¬ Reuses .sha256 [0x6b] [oneByteCall 0x61, oneByteCall 0x62] := by
  intro h
  have hnothing :=
    asksNothing_of_reuses (by decide) (by decide) (by decide) (by decide) (by decide) h
  exact absurd (hnothing (oneByteCall 0x62) (by decide) (by decide)) (by decide)

end Speculos.Hash
