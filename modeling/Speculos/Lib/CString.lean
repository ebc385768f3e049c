import Speculos.Lib.Scanf
import Speculos.Lib.Memory

/-!
# Strings of C and hexadecimal digits

A byte string and its hexadecimal forms, whose letters may be of either case.

A string is the bytes before its terminator. In memory it is read as far as a terminator, or
as far as a bound.
-/

namespace Lib

def IsHexDigit (c : UInt8) : Prop := (hexVal c).isSome = true

instance (c : UInt8) : Decidable (IsHexDigit c) := inferInstanceAs (Decidable (_ = true))

/-- All characters are looked at, in the order of the string. -/
instance decidableHexDigits (s : Bytes) : Decidable (∀ c ∈ s, IsHexDigit c) :=
  List.decidableBAll IsHexDigit s

/-- `s` is a hexadecimal form of `bytes`. -/
inductive IsHexOf : Bytes → Bytes → Prop
  | nil : IsHexOf [] []
  | cons : hexVal high = some a → hexVal low = some b → byte.toNat = 16 * a + b →
      IsHexOf s bytes → IsHexOf (high :: low :: s) (byte :: bytes)

theorem hexVal_lt (h : hexVal c = some a) : a < 16 := by
  unfold hexVal at h
  split at h
  · rename_i hc
    have hle := UInt8.le_iff_toNat_le.mp hc.2
    cases h
    exact Nat.lt_of_le_of_lt (Nat.sub_le_sub_right hle _) (by decide)
  · split at h
    · rename_i hc
      have hle := UInt8.le_iff_toNat_le.mp hc.2
      cases h
      exact Nat.lt_of_le_of_lt (Nat.sub_le_sub_right hle _) (by decide)
    · split at h
      · rename_i hc
        have hle := UInt8.le_iff_toNat_le.mp hc.2
        cases h
        exact Nat.lt_of_le_of_lt (Nat.sub_le_sub_right hle _) (by decide)
      · cases h

theorem IsHexOf.length_eq (h : IsHexOf s bytes) : s.length = 2 * bytes.length := by
  induction h with
  | nil => rfl
  | cons _ _ _ _ ih =>
    simp only [List.length_cons, ih, Nat.mul_add]

theorem exists_isHexOf : ∀ {s : Bytes}, (∀ c ∈ s, IsHexDigit c) → s.length % 2 = 0 →
    ∃ bytes, IsHexOf s bytes
  | [], _, _ => ⟨[], .nil⟩
  | [_], _, h => absurd (show 1 % 2 = 0 from h) (by decide)
  | high :: low :: s, hs, hlen => by
    obtain ⟨a, ha⟩ := Option.isSome_iff_exists.mp (hs high List.mem_cons_self)
    obtain ⟨b, hb⟩ := Option.isSome_iff_exists.mp
      (hs low (List.mem_cons_of_mem _ List.mem_cons_self))
    have hrest (c : UInt8) (hc : c ∈ s) : IsHexDigit c :=
      hs c (List.mem_cons_of_mem _ (List.mem_cons_of_mem _ hc))
    have heven : s.length % 2 = 0 := by
      rw [List.length_cons, List.length_cons, Nat.add_assoc, Nat.add_mod_right] at hlen
      exact hlen
    obtain ⟨bytes, hbytes⟩ := exists_isHexOf hrest heven
    have hlt : 16 * a + b < 2 ^ 8 := by
      have hhigh := hexVal_lt ha
      have hlow := hexVal_lt hb
      omega
    exact ⟨UInt8.ofNat (16 * a + b) :: bytes, .cons ha hb (UInt8.toNat_ofNat_of_lt hlt) hbytes⟩

end Lib

-- ---------------------------------------------------------------------------
-- Strings of C
-- ---------------------------------------------------------------------------

namespace Lib

/-- The bytes of a string, none of which is its terminator. -/
structure CString where
  chars : Bytes
  noNul : 0 ∉ chars

namespace CString

def strlen (s : CString) : Nat := s.chars.length

/-- The place that `strchr` finds. -/
def strchr (s : CString) (c : UInt8) : Option Nat := s.chars.findIdx? (· = c)

/-- A string where it stands in memory, behind a pointer to it. -/
def region (s : CString) : Region := ⟨fun i => s.chars.getD i 0, []⟩

end CString

namespace Region

/-- The string at `off`, as far as `n` bytes go. -/
def string (r : Region) (off : Nat) : Nat → Bytes
  | 0 => []
  | n + 1 => if r.cell off = 0 then [] else r.cell off :: r.string (off + 1) n

/-- `strncpy(&r[dst], &src[off], n)`, which writes `n` bytes. -/
def strncpy (r : Region) (dst : Nat) (src : Region) (off n : Nat) : Region :=
  r.memcpy dst (src.string off n) n

theorem string_eq_take {r : Region} {chars : Bytes} (hnul : 0 ∉ chars)
    (h : ∀ i < n, i ≤ chars.length → r.cell (off + i) = chars.getD i 0) :
    r.string off n = chars.take n := by
  induction n generalizing off chars with
  | zero => rfl
  | succ n ih =>
    have hfirst := h 0 (Nat.zero_lt_succ n) (Nat.zero_le _)
    rw [Nat.add_zero] at hfirst
    cases chars with
    | nil => rw [string, if_pos (show r.cell off = 0 from hfirst), List.take_nil]
    | cons c chars =>
      rw [List.mem_cons, not_or] at hnul
      have hrest (i : Nat) (hi : i < n) (hle : i ≤ chars.length) :
          r.cell (off + 1 + i) = chars.getD i 0 := by
        have hcell := h (i + 1) (Nat.succ_lt_succ hi) (Nat.succ_le_succ hle)
        rw [Nat.add_assoc, Nat.add_comm 1 i]
        exact hcell
      have hne : ¬ r.cell off = 0 := fun h0 => hnul.1 (h0.symm.trans hfirst)
      rw [string, if_neg hne, hfirst, ih hnul.2 hrest]
      rfl

end Region

end Lib
