import Mathlib.Data.List.GetD
import Speculos.Lib.Octets

/-!
# Bits of byte strings

The bits of a byte string in a row, the lowest bit of each byte first. Behind the string all
bits are zero.
-/

namespace Lib

def stringBit (s : Bytes) (i : Nat) : Bool := (s.getD (i / 8) 0).toNat.testBit (i % 8)

theorem bit_of_byte (b : UInt8) (i : Nat) (hi : i < 8) :
    decide ((b >>> UInt8.ofNat i) &&& 1 = 1) = b.toNat.testBit i := by
  have hshift : (UInt8.ofNat i).toNat % 8 = i := by
    rw [UInt8.toNat_ofNat_of_lt' (Nat.lt_trans hi (by decide)), Nat.mod_eq_of_lt hi]
  rw [Nat.testBit_eq_decide_div_mod_eq, decide_eq_decide, ← UInt8.toNat_inj, UInt8.toNat_and,
    UInt8.toNat_shiftRight, hshift, Nat.shiftRight_eq_div_pow]
  exact iff_of_eq (congrArg (· = 1) (Nat.and_one_is_mod _))

@[simp] theorem stringBit_nil (i : Nat) : stringBit [] i = false := by
  simp [stringBit]

theorem stringBit_cons (b : UInt8) (s : Bytes) (i : Nat) :
    stringBit (b :: s) i = if i < 8 then b.toNat.testBit i else stringBit s (i - 8) := by
  split
  · rename_i hlt
    rw [stringBit, Nat.div_eq_of_lt hlt, Nat.mod_eq_of_lt hlt, List.getD_cons_zero]
  · rename_i hge
    have hdiv : i / 8 = (i - 8) / 8 + 1 := by omega
    have hmod : i % 8 = (i - 8) % 8 := by omega
    rw [stringBit, stringBit, hdiv, hmod, List.getD_cons_succ]

theorem stringBit_append (as bs : Bytes) (i : Nat) :
    stringBit (as ++ bs) i =
      if i < 8 * as.length then stringBit as i else stringBit bs (i - 8 * as.length) := by
  induction as generalizing i with
  | nil => simp
  | cons a as ih =>
    rw [List.cons_append, stringBit_cons, stringBit_cons, ih, List.length_cons]
    by_cases hi : i < 8
    · rw [if_pos hi, if_pos (by omega), if_pos hi]
    · rw [if_neg hi]
      by_cases has : i - 8 < 8 * as.length
      · rw [if_pos has, if_pos (by omega), if_neg hi]
      · rw [if_neg has, if_neg (by omega)]
        congr 1
        omega

theorem stringBit_drop (s : Bytes) (n i : Nat) :
    stringBit (s.drop n) i = stringBit s (8 * n + i) := by
  have hdiv : (8 * n + i) / 8 = n + i / 8 := by omega
  have hmod : (8 * n + i) % 8 = i % 8 := by omega
  rw [stringBit, stringBit, hdiv, hmod, List.getD_eq_getElem?_getD, List.getD_eq_getElem?_getD,
    List.getElem?_drop]

theorem stringBit_take (s : Bytes) (h : i < 8 * n) : stringBit (s.take n) i = stringBit s i := by
  have hlt : i / 8 < n := by omega
  rw [stringBit, stringBit, List.getD_eq_getElem?_getD, List.getD_eq_getElem?_getD,
    List.getElem?_take_of_lt hlt]

theorem testBit_fromLE (s : Bytes) (i : Nat) : (fromLE s).testBit i = stringBit s i := by
  induction s generalizing i with
  | nil => simp [fromLE]
  | cons b s ih =>
    have hcons : fromLE (b :: s) = 2 ^ 8 * fromLE s + b.toNat := by
      rw [fromLE, List.reverse_cons, fromBE_concat, Nat.mul_comm]
      rfl
    rw [hcons, Nat.testBit_two_pow_mul_add _ b.toNat_lt, stringBit_cons, ih]

theorem stringBit_toLE (n : Nat) (h : i < 8 * w) : stringBit (toLE w n) i = n.testBit i := by
  have hpow : 256 ^ w = 2 ^ (8 * w) := (Nat.pow_mul 2 8 w).symm
  rw [← testBit_fromLE, fromLE_toLE, hpow, Nat.testBit_mod_two_pow, decide_eq_true h, Bool.true_and]

theorem stringBit_flatMap {value : ω → Nat} (hw : 0 < w) (ws : List ω) (h : i < 8 * w * ws.length) :
    stringBit (ws.flatMap fun x => toLE w (value x)) i =
      ((ws.map value).getD (i / (8 * w)) 0).testBit (i % (8 * w)) := by
  induction ws generalizing i with
  | nil => simp at h
  | cons x ws ih =>
    rw [List.flatMap_cons, stringBit_append, length_toLE]
    by_cases hi : i < 8 * w
    · rw [if_pos hi, stringBit_toLE _ hi, Nat.div_eq_of_lt hi, Nat.mod_eq_of_lt hi]
      rfl
    · have hle : 8 * w ≤ i := Nat.not_lt.mp hi
      rw [List.length_cons, Nat.mul_succ] at h
      rw [if_neg hi, ih (by omega), Nat.div_eq_sub_div (by omega) hle, Nat.mod_eq_sub_mod hle]
      rfl

-- ---------------------------------------------------------------------------
-- Addition
-- ---------------------------------------------------------------------------

/-- The first `n` bytes of `p`, behind which stand zeros, are added to a string. -/
def xorFirst (n : Nat) (s p : Bytes) : Bytes :=
  s.mapIdx fun i b => if i < n then b ^^^ p.getD i 0 else b

theorem stringBit_xorFirst (n : Nat) (s p : Bytes) (h : i < 8 * s.length) :
    stringBit (xorFirst n s p) i =
      if i < 8 * n then stringBit s i ^^ stringBit p i else stringBit s i := by
  have hlt : i / 8 < s.length := by omega
  have hn : i / 8 < n ↔ i < 8 * n := by omega
  rw [stringBit, xorFirst, List.getD_eq_getElem _ _ (by rwa [List.length_mapIdx]),
    List.getElem_mapIdx, stringBit, List.getD_eq_getElem _ _ hlt]
  simp only [hn]
  split
  · rw [UInt8.toNat_xor, Nat.testBit_xor, stringBit]
  · rfl

end Lib
