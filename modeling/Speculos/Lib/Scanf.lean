import Mathlib.Data.List.TakeWhile
import Mathlib.Data.Nat.Digits.Defs
import Speculos.Lib.Octets

/-!
# Formatted input and output

Numbers in hexadecimal and decimal as `sscanf` reads them: behind white space, with a
sign, with a prefix and up to a width. What is written in hexadecimal is read back, and
reading stops at the first byte that is no digit.
-/

namespace Lib

-- ---------------------------------------------------------------------------
-- Digits
-- ---------------------------------------------------------------------------

def hexDigit (d : Nat) : UInt8 := if d < 10 then UInt8.ofNat (0x30 + d) else UInt8.ofNat (0x57 + d)

def hexVal (b : UInt8) : Option Nat :=
  if 0x30 ≤ b ∧ b ≤ 0x39 then some (b.toNat - 0x30)
  else if 0x61 ≤ b ∧ b ≤ 0x66 then some (b.toNat - 0x57)
  else if 0x41 ≤ b ∧ b ≤ 0x46 then some (b.toNat - 0x37)
  else none

def isSpace (b : UInt8) : Bool := b = 0x20 ∨ 0x09 ≤ b ∧ b ≤ 0x0d

def digitVal (base : Nat) (b : UInt8) : Option Nat := (hexVal b).filter (· < base)

/-- The digits that come first, at most `width` of them, and what follows. -/
def takeDigits (base : Nat) : Nat → Bytes → List Nat × Bytes
  | width + 1, b :: bs =>
    match digitVal base b with
    | some d => (d :: (takeDigits base width bs).1, (takeDigits base width bs).2)
    | none => ([], b :: bs)
  | _, bs => ([], bs)

/-- A sign, if there is one: whether it is a minus, the width that is left and what follows. -/
def scanSign : Nat → Bytes → Bool × Nat × Bytes
  | width + 1, 0x2d :: bs => (true, width, bs)
  | width + 1, 0x2b :: bs => (false, width, bs)
  | width, bs => (false, width, bs)

/-- The prefix 0x, if there is one, whose zero counts as a digit. -/
def scanPrefix (base : Nat) : Nat → Bytes → Bool × Nat × Bytes
  | width + 2, 0x30 :: x :: bs =>
    if base = 16 ∧ (x = 0x78 ∨ x = 0x58) then (true, width, bs)
    else (false, width + 2, 0x30 :: x :: bs)
  | width, bs => (false, width, bs)

/-- A number: whether it has a minus, its digits as a number, and what follows. -/
def scanNumber (base width : Nat) (bs : Bytes) : Option (Bool × Nat × Bytes) :=
  let (minus, width, bs) := scanSign width (bs.dropWhile isSpace)
  let (zero, width, bs) := scanPrefix base width bs
  let (digits, rest) := takeDigits base width bs
  if zero = false ∧ digits = [] then none
  else some (minus, Nat.ofDigits base digits.reverse, rest)

/-- `strtoul` on 32 bits. -/
def toUnsigned (minus : Bool) (n : Nat) : UInt32 :=
  if n ≥ 2 ^ 32 then 0xffffffff else if minus then 0 - UInt32.ofNat n else UInt32.ofNat n

/-- `strtol` on 32 bits. -/
def toSigned (minus : Bool) (n : Nat) : Int :=
  if minus then max (-2 ^ 31) (-n) else min (2 ^ 31 - 1) n

def scanByte (b : UInt8) : Bytes → Option Bytes
  | b' :: bs => if b' = b then some bs else none
  | [] => none

/-- `%[^:]`, where `stop` is the colon. -/
def scanUntil (stop : UInt8) (bs : Bytes) : Option (Bytes × Bytes) :=
  let field := bs.takeWhile (· ≠ stop)
  if field = [] then none else some (field, bs.dropWhile (· ≠ stop))

/-- The hexadecimal digits of a number, the highest one first. -/
def hexDigits (n : Nat) : List Nat := if n = 0 then [0] else (Nat.digits 16 n).reverse

def hexString (n : Nat) : Bytes := (hexDigits n).map hexDigit

-- ---------------------------------------------------------------------------
-- Reading what was written
-- ---------------------------------------------------------------------------

theorem hexVal_hexDigit (h : d < 16) : hexVal (hexDigit d) = some d := by
  revert h
  revert d
  decide

theorem hexDigit_plain (h : d < 16) :
    isSpace (hexDigit d) = false ∧ hexDigit d ≠ 0x2d ∧ hexDigit d ≠ 0x2b ∧ hexDigit d ≠ 0x78 ∧
      hexDigit d ≠ 0x58 := by
  revert h
  revert d
  decide

/-- Digits end at their width, or at a byte that is neither a digit nor part of a prefix. -/
def Stops (width : Nat) (digits : List Nat) (rest : Bytes) : Prop :=
  digits.length = width ∨ digits.length ≤ width ∧
    ∀ b ∈ rest.head?, hexVal b = none ∧ b ≠ 0x78 ∧ b ≠ 0x58

theorem takeDigits_hexDigit (hdigits : ∀ d ∈ digits, d < 16) (hstop : Stops width digits rest) :
    takeDigits 16 width (digits.map hexDigit ++ rest) = (digits, rest) := by
  induction digits generalizing width with
  | nil =>
    rcases hstop with rfl | ⟨-, hrest⟩
    · rfl
    · cases width with
      | zero => rfl
      | succ width =>
        cases rest with
        | nil => rfl
        | cons b rest =>
          have hb := (hrest b rfl).1
          show (match digitVal 16 b with | some d => _ | none => _) = _
          rw [digitVal, hb]
          rfl
  | cons d digits ih =>
    have hd := hdigits d List.mem_cons_self
    obtain ⟨width, rfl⟩ : ∃ w, width = w + 1 := by
      rcases hstop with rfl | ⟨hle, -⟩
      · exact ⟨_, rfl⟩
      · exact ⟨width - 1, by simp at hle; omega⟩
    have hstop' : Stops width digits rest := by
      rcases hstop with hlen | ⟨hle, hrest⟩
      · exact .inl (Nat.succ.inj hlen)
      · exact .inr ⟨Nat.le_of_succ_le_succ hle, hrest⟩
    have htake := ih (fun d' hd' => hdigits d' (List.mem_cons_of_mem d hd')) hstop'
    have hval : digitVal 16 (hexDigit d) = some d := by
      rw [digitVal, hexVal_hexDigit hd]
      simp [hd]
    show (match digitVal 16 (hexDigit d) with | some d => _ | none => _) = _
    rw [hval]
    show (d :: (takeDigits 16 width (digits.map hexDigit ++ rest)).1,
      (takeDigits 16 width (digits.map hexDigit ++ rest)).2) = _
    rw [htake]

theorem scanPrefix_none (h : 2 ≤ width → ∀ x ∈ (bs.drop 1).head?, x ≠ 0x78 ∧ x ≠ 0x58) :
    scanPrefix base width bs = (false, width, bs) := by
  rw [scanPrefix.eq_def]
  split
  · rename_i w x bs
    obtain ⟨hx, hx'⟩ := h (by omega) x rfl
    rw [if_neg]
    rintro ⟨-, hletter | hletter⟩
    · exact hx hletter
    · exact hx' hletter
  · rfl

theorem scanNumber_hexDigit (hne : digits ≠ []) (hdigits : ∀ d ∈ digits, d < 16)
    (hstop : Stops width digits rest) :
    scanNumber 16 width (digits.map hexDigit ++ rest) =
      some (false, Nat.ofDigits 16 digits.reverse, rest) := by
  obtain ⟨d, digits', rfl⟩ := List.exists_cons_of_ne_nil hne
  obtain ⟨hspace, hminus, hplus, -, -⟩ := hexDigit_plain (hdigits d List.mem_cons_self)
  have hdrop : ((d :: digits').map hexDigit ++ rest).dropWhile isSpace =
      (d :: digits').map hexDigit ++ rest := by
    rw [List.map_cons, List.cons_append, List.dropWhile_cons_of_neg (by simp [hspace])]
  have hsign : scanSign width ((d :: digits').map hexDigit ++ rest) =
      (false, width, (d :: digits').map hexDigit ++ rest) := by
    rw [List.map_cons, List.cons_append]
    rw [scanSign]
    · rintro w bs - heq
      exact hminus (List.cons.inj heq).1
    · rintro w bs - heq
      exact hplus (List.cons.inj heq).1
  have hplain : scanPrefix 16 width ((d :: digits').map hexDigit ++ rest) =
      (false, width, (d :: digits').map hexDigit ++ rest) := by
    refine scanPrefix_none fun hwidth x hx => ?_
    cases digits' with
    | nil =>
      rcases hstop with hlen | ⟨-, hrest⟩
      · simp at hlen
        omega
      · exact (hrest x hx).2
    | cons d' digits' =>
      cases hx
      exact (hexDigit_plain (hdigits d' (by simp))).2.2.2
  rw [scanNumber, hdrop, hsign]
  simp only [hplain, takeDigits_hexDigit hdigits hstop]
  rfl

theorem hexDigits_ne_nil (n : Nat) : hexDigits n ≠ [] := by
  rw [hexDigits]
  split
  · exact List.cons_ne_nil _ _
  · rename_i hn
    exact fun h => Nat.digits_ne_nil_iff_ne_zero.mpr hn (List.reverse_eq_nil_iff.mp h)

theorem lt_of_mem_hexDigits (h : d ∈ hexDigits n) : d < 16 := by
  rw [hexDigits] at h
  split at h
  · cases List.mem_singleton.mp h
    decide
  · exact Nat.digits_lt_base (by decide) (List.mem_reverse.mp h)

theorem ofDigits_hexDigits (n : Nat) : Nat.ofDigits 16 (hexDigits n).reverse = n := by
  rw [hexDigits]
  split
  · rename_i hn
    exact hn.symm
  · rw [List.reverse_reverse]
    exact Nat.ofDigits_digits 16 n

def hexByte (b : UInt8) : Bytes := [hexDigit (b.toNat / 16), hexDigit (b.toNat % 16)]

theorem scanNumber_hexByte (b : UInt8) (rest : Bytes) :
    scanNumber 16 2 (hexByte b ++ rest) = some (false, b.toNat, rest) := by
  have hb := b.toNat_lt
  have hdigits : ∀ d ∈ [b.toNat / 16, b.toNat % 16], d < 16 := by
    intro d hd
    simp only [List.mem_cons, List.not_mem_nil, or_false] at hd
    omega
  have hscan := scanNumber_hexDigit (List.cons_ne_nil _ _) hdigits
    (show Stops 2 _ rest from .inl rfl)
  have hvalue : Nat.ofDigits 16 [b.toNat / 16, b.toNat % 16].reverse = b.toNat := by
    simp [Nat.ofDigits_cons]
    omega
  rw [hvalue] at hscan
  exact hscan

theorem scanUntil_append (hne : field ≠ []) (hstop : stop ∉ field) (rest : Bytes) :
    scanUntil stop (field ++ stop :: rest) = some (field, stop :: rest) := by
  have hall : ∀ b ∈ field, (decide (b ≠ stop)) = true :=
    fun b hb => decide_eq_true fun heq => hstop (heq ▸ hb)
  have htake : (field ++ stop :: rest).takeWhile (· ≠ stop) = field := by
    rw [List.takeWhile_append_of_pos hall]
    simp
  have hdrop : (field ++ stop :: rest).dropWhile (· ≠ stop) = stop :: rest := by
    rw [List.dropWhile_append_of_pos hall]
    simp
  rw [scanUntil, htake, hdrop]
  exact if_neg hne

theorem scanUntil_end (hne : field ≠ []) (hstop : stop ∉ field) :
    scanUntil stop field = some (field, []) := by
  have hall : ∀ b ∈ field, (decide (b ≠ stop)) = true :=
    fun b hb => decide_eq_true fun heq => hstop (heq ▸ hb)
  rw [scanUntil, List.takeWhile_eq_self_iff.mpr hall, List.dropWhile_eq_nil_iff.mpr hall]
  exact if_neg hne

end Lib
