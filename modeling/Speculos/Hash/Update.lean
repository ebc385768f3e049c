import Speculos.Lib.BlockFold
import Speculos.Lib.Window
import Speculos.Lib.Octets
import Mathlib.Algebra.Ring.Nat

/-!
# Updates of a hash

All hashes append a piece of a message in one way: what is kept of the last block is
filled up, whole blocks are processed, and the rest is kept. They differ in the size of
a block, in the block function, and in whether they count blocks up to a limit.
-/

namespace Speculos.Hash

open Lib

-- ---------------------------------------------------------------------------
-- Contexts
-- ---------------------------------------------------------------------------

inductive CxMd
  | ripemd160
  | sha224
  | sha256
  | sha384
  | sha512
  | keccak
  | sha3
  | shake128
  | shake256
  deriving DecidableEq, Repr

def cxHashMaxBlockCount : UInt32 := 65535

/-- The fields that all contexts share, where `σ` is the type of `acc`. -/
structure Context (σ : Type) where
  algo : CxMd
  counter : UInt32
  blen : Nat
  block : Bytes
  acc : σ

/-- A block function gives `acc`, and it may leave anything in the block. -/
structure BlockFunction (σ : Type) where
  acc : σ → Bytes → σ
  block : σ → Bytes → Bytes
  length_block : ∀ a b, (block a b).length = b.length

/-- An update that fails throws `INVALID_PARAMETER` or returns 0. -/
inductive Failure
  | thrown
  | refused
  deriving DecidableEq, Repr

-- ---------------------------------------------------------------------------
-- Appending input data
-- ---------------------------------------------------------------------------

section

variable {σ : Type} (F : BlockFunction σ) (limited : Bool) (n : Nat)

/-- One round of the loop: `src` goes behind the first `blen` bytes of the block. -/
def round (ctx : Context σ) (blen : Nat) (src : Bytes) : Except Failure (Context σ) :=
  if limited ∧ ctx.counter = cxHashMaxBlockCount then .error .thrown
  else
    let block := overwrite ctx.block blen src
    .ok { ctx with
      counter := ctx.counter + 1
      block := F.block ctx.acc block
      acc := F.acc ctx.acc block }

def rounds (hn : 0 < n) (ctx : Context σ) (data : Bytes) : Except Failure (Context σ × Bytes) :=
  if _h : data.length ≥ n then
    (round F limited ctx 0 (data.take n)).bind fun ctx => rounds hn ctx (data.drop n)
  else .ok (ctx, data)
termination_by data.length
decreasing_by
  rw [List.length_drop]
  omega

/-- "remind rest data" -/
def remind (ctx : Context σ) (blen : Nat) (data : Bytes) : Context σ :=
  { ctx with block := overwrite ctx.block blen data, blen := blen + data.length }

/-- The body that the updates share. The sum of the lengths has 32 bits. -/
def append (hn : 0 < n) (ctx : Context σ) (data : Bytes) : Except Failure (Context σ) :=
  let blen := ctx.blen
  let ctx := { ctx with blen := 0 }
  if (blen + data.length) % 2 ^ 32 ≥ n then
    (round F limited ctx blen (data.take (n - blen))).bind fun ctx =>
      (rounds F limited n hn ctx (data.drop (n - blen))).map fun (ctx, data) => remind ctx 0 data
  else .ok (remind ctx blen data)

end

/-- A piece of a message, which is in memory beside a context of `sizeof` bytes. -/
structure Piece (sizeof : Nat) where
  data : Bytes
  fits : data.length + sizeof ≤ 2 ^ 32

def message (pieces : List (Piece sizeof)) : Bytes := pieces.flatMap Piece.data

def updates (update : γ → Bytes → Except Failure γ) :
    γ → List (Piece sizeof) → Except Failure γ
  | ctx, [] => .ok ctx
  | ctx, piece :: pieces =>
    (update ctx piece.data).bind fun ctx => updates update ctx pieces

-- ---------------------------------------------------------------------------
-- What a context stands for
-- ---------------------------------------------------------------------------

/-- Where blocks meet: `c` blocks are processed. -/
structure Between (size : Nat) (ctx : Context σ) (a : σ) (c : Nat) : Prop where
  acc : ctx.acc = a
  counter : ctx.counter = UInt32.ofNat c
  length_block : ctx.block.length = size

/-- The context stands for the message `m`: its whole blocks are folded into `acc`, the
rest is kept. -/
structure Holds (f : σ → Bytes → σ) (n size : Nat) (iv : σ) (ctx : Context σ) (m : Bytes) :
    Prop extends Between size ctx (absorb f n iv m) (m.length / n) where
  blen : ctx.blen = m.length % n
  rest : ctx.block.take ctx.blen = leftover n m

/-- The block function reads the first `n` bytes of a block of `size` bytes. -/
def BlockFunction.Reads (F : BlockFunction σ) (f : σ → Bytes → σ) (n size : Nat) : Prop :=
  ∀ a b, b.length = size → F.acc a b = f a (b.take n)

section

variable {σ : Type} {F : BlockFunction σ} {f : σ → Bytes → σ} {limited : Bool} {n size : Nat}
  {hn : 0 < n} {ctx ctx' : Context σ} {a iv : σ} {c : Nat} {m src data : Bytes}

/-- The limit is not reached before so many blocks. -/
def WithinLimit (limited : Bool) (c : Nat) : Prop := limited = true → c ≤ 65535

theorem counter_eq_max (hc : c ≤ 65535) :
    UInt32.ofNat c = cxHashMaxBlockCount ↔ c = 65535 := by
  have htoNat : (UInt32.ofNat c).toNat = c :=
    UInt32.toNat_ofNat_of_lt' (Nat.lt_of_le_of_lt hc (by decide))
  rw [← UInt32.toNat_inj, htoNat]
  rfl

theorem round_ok (hreads : F.Reads f n size) (hsize : n ≤ size) (hctx : Between size ctx a c)
    (hlimit : WithinLimit limited (c + 1)) (hsrc : blen + src.length = n) :
    ∃ ctx', round F limited ctx blen src = .ok ctx' ∧
      Between size ctx' (f a (ctx.block.take blen ++ src)) (c + 1) ∧ ctx'.algo = ctx.algo := by
  have hcount : ¬ (limited = true ∧ ctx.counter = cxHashMaxBlockCount) := by
    rintro ⟨hlim, hmax⟩
    have hle := hlimit hlim
    rw [hctx.counter, counter_eq_max (by omega)] at hmax
    omega
  have hlen : (overwrite ctx.block blen src).length = size := by
    rw [length_overwrite (by rw [hctx.length_block]; omega), hctx.length_block]
  have htake : (overwrite ctx.block blen src).take n = ctx.block.take blen ++ src := by
    refine List.take_left' ?_
    rw [List.length_append, List.length_take, hctx.length_block]
    omega
  rw [round, if_neg hcount]
  refine ⟨_, rfl, ⟨?_, ?_, ?_⟩, rfl⟩
  · show F.acc ctx.acc (overwrite ctx.block blen src) = _
    rw [hreads _ _ hlen, htake, hctx.acc]
  · show ctx.counter + 1 = _
    rw [hctx.counter, UInt32.ofNat_add]
    rfl
  · exact (F.length_block _ _).trans hlen

theorem round_thrown (hctx : Between size ctx a 65535) :
    round F true ctx blen src = .error .thrown :=
  if_pos ⟨rfl, hctx.counter⟩

theorem rounds_step (h : data.length ≥ n) :
    rounds F limited n hn ctx data =
      (round F limited ctx 0 (data.take n)).bind fun ctx =>
        rounds F limited n hn ctx (data.drop n) := by
  rw [rounds, dif_pos h]

theorem rounds_ok (hn : 0 < n) (hreads : F.Reads f n size) (hsize : n ≤ size)
    (hctx : Between size ctx a c) (hlimit : WithinLimit limited (c + data.length / n)) :
    ∃ ctx', rounds F limited n hn ctx data = .ok (ctx', leftover n data) ∧
      Between size ctx' (absorb f n a data) (c + data.length / n) ∧ ctx'.algo = ctx.algo := by
  induction hlen : data.length using Nat.strongRecOn generalizing ctx a c data with
  | _ len ih =>
  subst hlen
  by_cases h : data.length ≥ n
  · have hdiv : data.length / n = (data.drop n).length / n + 1 := by
      rw [List.length_drop, Nat.div_eq_sub_div hn h]
    have htake : (data.take n).length = n := List.length_take_of_le h
    rw [hdiv, ← Nat.add_assoc, Nat.add_right_comm] at hlimit ⊢
    obtain ⟨ctx₁, hround, hctx₁, halgo₁⟩ := round_ok hreads hsize hctx
      (fun hlim => Nat.le_trans (Nat.le_add_right ..) (hlimit hlim))
      (show 0 + (data.take n).length = n by omega)
    rw [List.take_zero, List.nil_append] at hctx₁
    obtain ⟨ctx₂, hrounds, hctx₂, halgo₂⟩ := ih _ (by rw [List.length_drop]; omega) hctx₁ hlimit rfl
    have hsplit := List.take_append_drop n data
    rw [rounds_step h, hround, ← hsplit, leftover_block hn htake, absorb_block hn a htake, hsplit]
    exact ⟨ctx₂, hrounds, hctx₂, halgo₂.trans halgo₁⟩
  · have hlt := Nat.not_le.mp h
    rw [rounds, dif_neg h, absorb_of_lt a hlt, leftover_of_lt hlt, Nat.div_eq_of_lt hlt]
    exact ⟨ctx, rfl, hctx, rfl⟩

theorem rounds_thrown (hreads : F.Reads f n size) (hsize : n ≤ size) (hctx : Between size ctx a c)
    (hc : c ≤ 65535) (hover : 65535 < c + data.length / n) :
    rounds F true n hn ctx data = .error .thrown := by
  induction hlen : data.length using Nat.strongRecOn generalizing ctx a c data with
  | _ len ih =>
  subst hlen
  by_cases h : data.length ≥ n
  · have hdiv : data.length / n = (data.drop n).length / n + 1 := by
      rw [List.length_drop, Nat.div_eq_sub_div hn h]
    rw [rounds_step h]
    rcases Nat.lt_or_eq_of_le hc with hlt | rfl
    · obtain ⟨ctx₁, hround, hctx₁, -⟩ := round_ok hreads hsize hctx
        (show WithinLimit true (c + 1) from fun _ => hlt)
        (show 0 + (data.take n).length = n by rw [List.length_take_of_le h, Nat.zero_add])
      rw [hround]
      exact ih _ (by rw [List.length_drop]; omega) hctx₁ hlt (by omega) rfl
    · rw [round_thrown hctx]
      rfl
  · rw [Nat.div_eq_of_lt (Nat.not_le.mp h)] at hover
    omega

theorem remind_between (hctx : Between size ctx a c) (hlen : blen + data.length ≤ size) :
    Between size (remind ctx blen data) a c ∧
      (remind ctx blen data).block.take (remind ctx blen data).blen = ctx.block.take blen ++
        data := by
  have hover : blen + data.length ≤ ctx.block.length := hctx.length_block ▸ hlen
  refine ⟨⟨hctx.acc, hctx.counter, (length_overwrite hover).trans hctx.length_block⟩, ?_⟩
  refine List.take_left' ?_
  rw [List.length_append, List.length_take_of_le (by omega)]
  rfl

theorem blocks_append (hn : 0 < n) (m data : Bytes) :
    (m ++ data).length / n = m.length / n + (leftover n m ++ data).length / n := by
  rw [List.length_append, List.length_append, length_leftover]
  conv_lhs => rw [← Nat.div_add_mod m.length n, Nat.add_assoc, Nat.mul_add_div hn]

theorem append_ok (hn : 0 < n) (hreads : F.Reads f n size) (hsize : n ≤ size)
    (hctx : Holds f n size iv ctx m)
    (hlimit : WithinLimit limited ((m ++ data).length / n)) (hdata : data.length + n ≤ 2 ^ 32) :
    ∃ ctx', append F limited n hn ctx data = .ok ctx' ∧ Holds f n size iv ctx' (m ++ data) ∧
      ctx'.algo = ctx.algo := by
  obtain ⟨habsorb, hleft⟩ := absorb_append hn iv m data (f := f)
  have hblen : ctx.blen < n := hctx.blen ▸ Nat.mod_lt _ hn
  have hrest : (leftover n m).length = ctx.blen := (length_leftover m).trans hctx.blen.symm
  have hcount := blocks_append hn m data
  have hzero : Between size { ctx with blen := 0 } (absorb f n iv m) (m.length / n) :=
    ⟨hctx.acc, hctx.counter, hctx.length_block⟩
  have hmod : (ctx.blen + data.length) % 2 ^ 32 = ctx.blen + data.length :=
    Nat.mod_eq_of_lt (by omega)
  by_cases hfull : ctx.blen + data.length ≥ n
  · have hsrc : ctx.blen + (data.take (n - ctx.blen)).length = n := by
      rw [List.length_take]
      omega
    have hsplit : leftover n m ++ data =
        (leftover n m ++ data.take (n - ctx.blen)) ++ data.drop (n - ctx.blen) := by
      rw [List.append_assoc, List.take_append_drop]
    have hblock : (leftover n m ++ data.take (n - ctx.blen)).length = n := by
      rw [List.length_append, hrest, hsrc]
    have hdiv : (leftover n m ++ data).length / n = 1 + (data.drop (n - ctx.blen)).length / n := by
      rw [hsplit, List.length_append, hblock, Nat.add_div_left _ hn, Nat.add_comm]
    rw [hcount, hdiv, ← Nat.add_assoc] at hlimit
    obtain ⟨ctx₁, hround, hctx₁, halgo₁⟩ := round_ok hreads hsize hzero
      (fun hlim => Nat.le_trans (Nat.le_add_right ..) (hlimit hlim)) hsrc
    obtain ⟨ctx₂, hrounds, hctx₂, halgo₂⟩ := rounds_ok hn hreads hsize hctx₁ hlimit
    obtain ⟨hctx₃, htake⟩ := remind_between hctx₂
      (show 0 + (leftover n (data.drop (n - ctx.blen))).length ≤ size by
        rw [length_leftover, Nat.zero_add]
        exact Nat.le_trans (Nat.le_of_lt (Nat.mod_lt _ hn)) hsize)
    refine ⟨remind ctx₂ 0 (leftover n (data.drop (n - ctx.blen))), ?_, ⟨?_, ?_, ?_⟩,
      halgo₂.trans halgo₁⟩
    · refine (if_pos (by rw [hmod]; exact hfull)).trans ?_
      rw [hround]
      show (rounds F limited n hn ctx₁ _).map _ = _
      rw [hrounds]
      rfl
    · rw [habsorb, hsplit, absorb_block hn _ hblock, hcount, hdiv, ← Nat.add_assoc]
      rw [← hctx.rest]
      exact hctx₃
    · show 0 + (leftover n (data.drop (n - ctx.blen))).length = _
      rw [Nat.zero_add, ← length_leftover, hleft, hsplit, leftover_block hn hblock]
    · rw [htake, List.take_zero, List.nil_append, hleft, hsplit, leftover_block hn hblock]
  · have hshort : (leftover n m ++ data).length < n := by
      rw [List.length_append, hrest]
      omega
    obtain ⟨hctx₃, htake⟩ := remind_between hzero (show ctx.blen + data.length ≤ size by omega)
    refine ⟨remind { ctx with blen := 0 } ctx.blen data, ?_, ⟨?_, ?_, ?_⟩, rfl⟩
    · exact if_neg (by rw [hmod]; exact hfull)
    · rw [habsorb, absorb_of_lt _ hshort, hcount, Nat.div_eq_of_lt hshort]
      exact hctx₃
    · show ctx.blen + data.length = _
      rw [← length_leftover, hleft, leftover_of_lt hshort, List.length_append, hrest]
    · rw [htake, hleft, leftover_of_lt hshort]
      exact congrArg (· ++ data) hctx.rest

theorem append_thrown (hn : 0 < n) (hreads : F.Reads f n size) (hsize : n ≤ size)
    (hctx : Holds f n size iv ctx m) (hm : m.length / n ≤ 65535)
    (hover : 65535 < (m ++ data).length / n) (hdata : data.length + n ≤ 2 ^ 32) :
    append F true n hn ctx data = .error .thrown := by
  have hblen : ctx.blen < n := hctx.blen ▸ Nat.mod_lt _ hn
  have hrest : (leftover n m).length = ctx.blen := (length_leftover m).trans hctx.blen.symm
  have hmod : (ctx.blen + data.length) % 2 ^ 32 = ctx.blen + data.length :=
    Nat.mod_eq_of_lt (by omega)
  rw [blocks_append hn, List.length_append, hrest] at hover
  have hzero : Between size { ctx with blen := 0 } (absorb f n iv m) (m.length / n) :=
    ⟨hctx.acc, hctx.counter, hctx.length_block⟩
  have hfull : ctx.blen + data.length ≥ n := by
    refine Nat.not_lt.mp fun hlt => ?_
    rw [Nat.div_eq_of_lt hlt] at hover
    omega
  refine (if_pos (by rw [hmod]; exact hfull)).trans ?_
  rcases Nat.lt_or_eq_of_le hm with hlt | heq
  · have hsrc : ctx.blen + (data.take (n - ctx.blen)).length = n := by
      rw [List.length_take]
      omega
    obtain ⟨ctx₁, hround, hctx₁, -⟩ := round_ok hreads hsize hzero
      (show WithinLimit true (m.length / n + 1) from fun _ => hlt) hsrc
    have hdiv : (ctx.blen + data.length) / n = (data.drop (n - ctx.blen)).length / n + 1 := by
      rw [Nat.div_eq_sub_div hn hfull, List.length_drop]
      congr 2
      omega
    rw [hround]
    show (rounds F true n hn ctx₁ _).map _ = _
    rw [rounds_thrown hreads hsize hctx₁ hlt (by omega)]
    rfl
  · rw [heq] at hzero
    rw [round_thrown hzero]
    rfl

end

-- ---------------------------------------------------------------------------
-- Sequences of updates
-- ---------------------------------------------------------------------------

section

variable {γ : Type} {update : γ → Bytes → Except Failure γ} {sizeof : Nat} {ctx : γ} {m : Bytes}
    {pieces : List (Piece sizeof)}

theorem message_cons (piece : Piece sizeof) (pieces : List (Piece sizeof)) :
    message (piece :: pieces) = piece.data ++ message pieces := List.flatMap_cons

/-- What one update preserves holds for the whole message, however it is cut. -/
theorem updates_ok (holds : γ → Bytes → Prop) (fits : Bytes → Prop)
    (hfits : ∀ m data, fits (m ++ data) → fits m)
    (hupdate : ∀ ctx m data, holds ctx m → fits (m ++ data) → data.length + sizeof ≤ 2 ^ 32 →
      ∃ ctx', update ctx data = .ok ctx' ∧ holds ctx' (m ++ data))
    (hctx : holds ctx m) (hm : fits (m ++ message pieces)) :
    ∃ ctx', updates update ctx pieces = .ok ctx' ∧ holds ctx' (m ++ message pieces) := by
  induction pieces generalizing ctx m with
  | nil =>
    rw [message, List.flatMap_nil, List.append_nil]
    exact ⟨ctx, rfl, hctx⟩
  | cons piece pieces ih =>
    rw [message_cons, ← List.append_assoc] at hm ⊢
    obtain ⟨ctx₁, hstep, hctx₁⟩ := hupdate ctx m piece.data hctx (hfits _ _ hm) piece.fits
    obtain ⟨ctx₂, hrest, hctx₂⟩ := ih hctx₁ hm
    refine ⟨ctx₂, ?_, hctx₂⟩
    rw [updates, hstep]
    exact hrest

theorem updates_thrown (holds : γ → Bytes → Prop) (fits : Bytes → Prop)
    (hupdate : ∀ ctx m data, holds ctx m → fits (m ++ data) → data.length + sizeof ≤ 2 ^ 32 →
      ∃ ctx', update ctx data = .ok ctx' ∧ holds ctx' (m ++ data))
    (hthrown : ∀ ctx m data, holds ctx m → fits m → ¬ fits (m ++ data) →
      data.length + sizeof ≤ 2 ^ 32 → update ctx data = .error .thrown)
    (hctx : holds ctx m) (hm : fits m) (hover : ¬ fits (m ++ message pieces)) :
    updates update ctx pieces = .error .thrown := by
  induction pieces generalizing ctx m with
  | nil =>
    rw [message, List.flatMap_nil, List.append_nil] at hover
    exact absurd hm hover
  | cons piece pieces ih =>
    rw [message_cons, ← List.append_assoc] at hover
    rw [updates]
    by_cases hfit : fits (m ++ piece.data)
    · obtain ⟨ctx₁, hstep, hctx₁⟩ := hupdate ctx m piece.data hctx hfit piece.fits
      rw [hstep]
      exact ih hctx₁ hfit hover
    · rw [hthrown ctx m piece.data hctx hm hfit piece.fits]
      rfl

end

end Speculos.Hash
