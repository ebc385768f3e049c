import Mathlib.Data.List.Basic
import Mathlib.Algebra.GroupWithZero.Nat
import Mathlib.Data.Fin.Basic

/-!
# Buffers

`overwrite xs off src` is a copy of `src` to the position `off` of a buffer
that is long enough. Copies side by side are one copy.

The last terms of a sequence in a buffer of `n` places: the place of a term is its index
modulo `n`, and a new term takes the place of the one `n` before it.
-/

namespace Lib

def overwrite (xs : List α) (off : Nat) (src : List α) : List α :=
  xs.take off ++ src ++ xs.drop (off + src.length)

theorem overwrite_zero (xs src : List α) : overwrite xs 0 src = src ++ xs.drop src.length := by
  rw [overwrite, List.take_zero, List.nil_append, Nat.zero_add]

@[simp] theorem length_overwrite (h : off + src.length ≤ xs.length) :
    (overwrite xs off src).length = xs.length := by
  simp only [overwrite, List.length_append, List.length_take, List.length_drop]
  omega

theorem overwrite_overwrite (xs as bs : List α) (h : off ≤ xs.length) (hn : as.length = n) :
    overwrite (overwrite xs off as) (off + n) bs = overwrite xs off (as ++ bs) := by
  have hlen : (xs.take off ++ as).length = off + n := by
    rw [List.length_append, List.length_take, Nat.min_eq_left h, hn]
  rw [overwrite, overwrite, overwrite, List.take_left' hlen, List.drop_append, hlen,
    List.drop_of_length_le (by omega), List.drop_drop, List.length_append]
  simp only [List.nil_append, List.append_assoc, hn]
  congr 3
  congr 1
  omega

theorem overwrite_end (xs src : List α) (h : off + src.length = xs.length) :
    overwrite xs off src = xs.take off ++ src := by
  rw [overwrite, h, List.drop_length, List.append_nil]

theorem overwrite_replicate (xs src : List α) (a : α) (h : src.length ≤ k) :
    overwrite (xs ++ List.replicate k a) (xs.length + (k - src.length)) src =
      xs ++ (List.replicate (k - src.length) a ++ src) := by
  rw [overwrite_end _ _ (by simp; omega), List.take_length_add_append, List.take_replicate,
    Nat.min_eq_left (Nat.sub_le ..), List.append_assoc]

end Lib

-- ---------------------------------------------------------------------------
-- Circular buffers
-- ---------------------------------------------------------------------------

namespace Lib.Window

variable {α : Type} {n : Nat} [NeZero n] {seq : Nat → α} {buf : Vector α n}

def get (buf : Vector α n) (t : Nat) : α := buf.get (Fin.ofNat n t)

def put (buf : Vector α n) (t : Nat) (a : α) : Vector α n :=
  buf.set (Fin.ofNat n t) a (Fin.isLt (Fin.ofNat n t))

/-- The buffer holds the terms `[m - n, m)`. -/
def Holds (seq : Nat → α) (buf : Vector α n) (m : Nat) : Prop :=
  ∀ t < m, m ≤ t + n → get buf t = seq t

theorem get_eq (buf : Vector α n) (hlt : t % n < n) : get buf t = buf[t % n] := rfl

theorem get_put_self (buf : Vector α n) (t : Nat) (a : α) : get (put buf t a) t = a := by
  simp [get_eq _ (Nat.mod_lt t (Nat.pos_of_neZero n)), put]

theorem get_put_of_ne (buf : Vector α n) (a : α) (h : u % n ≠ t % n) :
    get (put buf t a) u = get buf u := by
  simp [get_eq _ (Nat.mod_lt u (Nat.pos_of_neZero n)), put, Vector.getElem_set_ne, h.symm]

theorem holds_fill (h : ∀ i : Fin n, buf.get i = seq i) : Holds seq buf n := by
  intro t ht _
  rw [get, h, Fin.val_ofNat, Nat.mod_eq_of_lt ht]

theorem Holds.push (h : Holds seq buf m) : Holds seq (put buf m (seq m)) (m + 1) := by
  intro t ht hm
  rcases Nat.lt_succ_iff_lt_or_eq.mp ht with hlt | rfl
  · -- two terms at one place are `n` apart
    have hne : t % n ≠ m % n := by
      intro hmod
      have hdvd := Nat.dvd_of_mod_eq_zero (Nat.sub_mod_eq_zero_of_mod_eq hmod.symm)
      have hle := Nat.le_of_dvd (Nat.sub_pos_of_lt hlt) hdvd
      omega
    rw [get_put_of_ne buf _ hne]
    exact h t hlt (Nat.le_of_succ_le hm)
  · exact get_put_self buf t _

theorem Holds.back (h : Holds seq buf m) (hpos : 0 < k) (hn : k ≤ n) (hm : k ≤ m) :
    get buf (m - k) = seq (m - k) :=
  h (m - k) (by omega) (by omega)

end Lib.Window
