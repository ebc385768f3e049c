import Mathlib.Logic.Function.Iterate
import Mathlib.Data.List.Basic
import Speculos.Lib.Octets

/-!
# Folding over blocks

`absorb f n s xs` folds `f` over the blocks of `n` elements of `xs`, and `leftover n xs`
is what comes behind the last block. A sequence that arrives in pieces is absorbed
piece by piece if what is left over goes in front of the next piece. With `absorbInit`
the last block is held back even where it is whole.

A sponge absorbs a message whose last block ends with a bit, and is squeezed `r` bytes at
a time, with a permutation of the state in between.

A message is followed by a byte `0x80`, by as few zeros as possible, and by a field that
tells its length, so that it ends where a block ends.
-/

namespace Lib

section

variable {α σ : Type} (f : σ → List α → σ) (n : Nat)

/-- `k` blocks. -/
def foldBlocks : Nat → σ → List α → σ
  | 0, s, _ => s
  | k + 1, s, xs => foldBlocks k (f s (xs.take n)) (xs.drop n)

def absorb (s : σ) (xs : List α) : σ := foldBlocks f n (xs.length / n) s xs

def leftover (xs : List α) : List α := xs.drop (xs.length / n * n)

variable {f n}

theorem length_leftover (xs : List α) : (leftover n xs).length = xs.length % n := by
  rw [leftover, List.length_drop, Nat.mod_eq_sub_mul_div, Nat.mul_comm]

theorem absorb_of_lt (s : σ) {xs : List α} (h : xs.length < n) : absorb f n s xs = s := by
  rw [absorb, Nat.div_eq_of_lt h]
  rfl

theorem leftover_of_lt {xs : List α} (h : xs.length < n) : leftover n xs = xs := by
  rw [leftover, Nat.div_eq_of_lt h, Nat.zero_mul, List.drop_zero]

theorem absorb_block (hn : 0 < n) (s : σ) {b : List α} (hb : b.length = n) (xs : List α) :
    absorb f n s (b ++ xs) = absorb f n (f s b) xs := by
  rw [absorb, List.length_append, hb, Nat.add_div_left _ hn, foldBlocks, List.take_left' hb,
    List.drop_left' hb]
  rfl

theorem leftover_block (hn : 0 < n) {b : List α} (hb : b.length = n) (xs : List α) :
    leftover n (b ++ xs) = leftover n xs := by
  rw [leftover, List.length_append, hb, Nat.add_div_left _ hn, Nat.succ_mul, Nat.add_comm,
    ← List.drop_drop, List.drop_left' hb]
  rfl

theorem absorb_singleton (hn : 0 < n) (s : σ) {b : List α} (hb : b.length = n) :
    absorb f n s b = f s b := by
  have h := absorb_block hn s hb (f := f) []
  rw [List.append_nil] at h
  rw [h, absorb_of_lt _ hn]

theorem absorb_append (hn : 0 < n) (s : σ) (xs ys : List α) :
    absorb f n s (xs ++ ys) = absorb f n (absorb f n s xs) (leftover n xs ++ ys) ∧
      leftover n (xs ++ ys) = leftover n (leftover n xs ++ ys) := by
  induction hlen : xs.length using Nat.strongRecOn generalizing s xs with
  | _ len ih =>
  subst hlen
  by_cases hlt : xs.length < n
  · rw [absorb_of_lt s hlt, leftover_of_lt hlt]
    exact ⟨rfl, rfl⟩
  · have hb : (xs.take n).length = n := List.length_take_of_le (Nat.not_lt.mp hlt)
    have hshorter : (xs.drop n).length < xs.length := by
      rw [List.length_drop]
      omega
    obtain ⟨habsorb, hleft⟩ := ih _ hshorter (f s (xs.take n)) (xs.drop n) rfl
    rw [← List.take_append_drop n xs, List.append_assoc, absorb_block hn s hb,
      absorb_block hn s hb, leftover_block hn hb, leftover_block hn hb]
    exact ⟨habsorb, hleft⟩

end

-- ---------------------------------------------------------------------------
-- Holding back the last block
-- ---------------------------------------------------------------------------

section

variable {α σ : Type} (f : σ → List α → σ) (n : Nat)

def absorbInit (s : σ) (xs : List α) : σ := foldBlocks f n ((xs.length - 1) / n) s xs

def lastBlock (xs : List α) : List α := xs.drop ((xs.length - 1) / n * n)

variable {f n}

theorem absorbInit_of_le (s : σ) {xs : List α} (h : xs.length ≤ n) : absorbInit f n s xs = s := by
  rcases Nat.eq_zero_or_pos n with rfl | hn
  · rw [absorbInit, Nat.div_zero]
    rfl
  · rw [absorbInit, Nat.div_eq_of_lt (by omega)]
    rfl

theorem lastBlock_of_le {xs : List α} (h : xs.length ≤ n) : lastBlock n xs = xs := by
  rcases Nat.eq_zero_or_pos n with rfl | hn
  · rw [lastBlock, Nat.mul_zero, List.drop_zero]
  · rw [lastBlock, Nat.div_eq_of_lt (by omega), Nat.zero_mul, List.drop_zero]

theorem followed_div (hn : 0 < n) (hpos : 0 < k) : (n + k - 1) / n = (k - 1) / n + 1 := by
  rw [Nat.add_sub_assoc hpos, Nat.add_div_left _ hn]

theorem absorbInit_block (hn : 0 < n) (s : σ) {b : List α} (hb : b.length = n) {xs : List α}
    (hxs : 0 < xs.length) : absorbInit f n s (b ++ xs) = absorbInit f n (f s b) xs := by
  rw [absorbInit, List.length_append, hb, followed_div hn hxs, foldBlocks, List.take_left' hb,
    List.drop_left' hb]
  rfl

theorem lastBlock_block (hn : 0 < n) {b : List α} (hb : b.length = n) {xs : List α}
    (hxs : 0 < xs.length) : lastBlock n (b ++ xs) = lastBlock n xs := by
  rw [lastBlock, List.length_append, hb, followed_div hn hxs, Nat.succ_mul, Nat.add_comm,
    ← List.drop_drop, List.drop_left' hb]
  rfl

theorem length_lastBlock_le (hn : 0 < n) (xs : List α) : (lastBlock n xs).length ≤ n := by
  have hmod := Nat.mod_lt (xs.length - 1) hn
  have hdiv := Nat.div_add_mod (xs.length - 1) n
  rw [lastBlock, List.length_drop, Nat.mul_comm]
  omega

theorem absorbInit_append (hn : 0 < n) (s : σ) (xs ys : List α) :
    absorbInit f n s (xs ++ ys) = absorbInit f n (absorbInit f n s xs) (lastBlock n xs ++ ys) ∧
      lastBlock n (xs ++ ys) = lastBlock n (lastBlock n xs ++ ys) := by
  induction hlen : xs.length using Nat.strongRecOn generalizing s xs with
  | _ len ih =>
  subst hlen
  by_cases hle : xs.length ≤ n
  · rw [absorbInit_of_le s hle, lastBlock_of_le hle]
    exact ⟨rfl, rfl⟩
  · have hb : (xs.take n).length = n := by
      rw [List.length_take]
      omega
    have hrest : 0 < (xs.drop n).length := by
      rw [List.length_drop]
      omega
    have hsplit : xs = xs.take n ++ xs.drop n := (List.take_append_drop n xs).symm
    have happ : 0 < (xs.drop n ++ ys).length := by
      rw [List.length_append]
      omega
    have hih := ih (xs.drop n).length (by rw [List.length_drop]; omega) (f s (xs.take n))
      (xs.drop n) rfl
    rw [hsplit, List.append_assoc, absorbInit_block hn s hb happ, lastBlock_block hn hb happ,
      absorbInit_block hn s hb hrest, lastBlock_block hn hb hrest]
    exact hih

end

end Lib

-- ---------------------------------------------------------------------------
-- Sponges
-- ---------------------------------------------------------------------------

namespace Lib

/-- The first bits, zeros and the last bit behind a message of `len` bytes. -/
def spongePadding (n : Nat) (first : UInt8) (len : Nat) : Bytes :=
  if len % n + 1 = n then [first ||| 0x80]
  else first :: (List.replicate (n - len % n - 2) 0 ++ [0x80])

section

variable {σ β : Type} {f : σ → Bytes → σ} {p : σ → σ} {byteAt : σ → Nat → β} {n : Nat} {s : σ}
    {m : Bytes}

theorem length_spongePadding (h : len % n < n) :
    (spongePadding n first len).length = n - len % n := by
  rw [spongePadding]
  split
  · rw [List.length_singleton]
    omega
  · simp only [List.length_cons, List.length_append, List.length_replicate, List.length_nil]
    omega

theorem absorb_spongePadding (hn : 0 < n) (s : σ) (m : Bytes) (first : UInt8) :
    absorb f n s (m ++ spongePadding n first m.length) =
      f (absorb f n s m) (leftover n m ++ spongePadding n first m.length) := by
  have hlt := Nat.mod_lt m.length hn
  rw [(absorb_append hn s m _).1, absorb_singleton hn]
  rw [List.length_append, length_leftover, length_spongePadding hlt]
  omega

/-- The first `d` bytes that come out. -/
def squeeze (p : σ → σ) (byteAt : σ → Nat → β) (n : Nat) (s : σ) (d : Nat) : List β :=
  (List.range d).map fun i => byteAt (p^[i / n] s) (i % n)

theorem squeeze_of_le (h : d ≤ n) : squeeze p byteAt n s d = (List.range d).map (byteAt s) := by
  refine List.map_congr_left fun i hi => ?_
  have hlt : i < n := Nat.lt_of_lt_of_le (List.mem_range.mp hi) h
  rw [Nat.div_eq_of_lt hlt, Nat.mod_eq_of_lt hlt]
  rfl

theorem squeeze_add (hn : 0 < n) (s : σ) (d : Nat) :
    squeeze p byteAt n s (n + d) = (List.range n).map (byteAt s) ++ squeeze p byteAt n (p s) d := by
  rw [squeeze, List.range_add, List.map_append, List.map_map]
  refine congrArg₂ (· ++ ·) (squeeze_of_le (p := p) (Nat.le_refl n)) ?_
  refine List.map_congr_left fun i _ => ?_
  show byteAt (p^[(n + i) / n] s) ((n + i) % n) = byteAt (p^[i / n] (p s)) (i % n)
  rw [Nat.add_div_left _ hn, Nat.add_mod_left, Function.iterate_succ_apply]

end

end Lib

-- ---------------------------------------------------------------------------
-- Padding with the length
-- ---------------------------------------------------------------------------

namespace Lib

/-- The byte behind the message, the zeros and the length. -/
def lengthPadding (n len : Nat) (field : Bytes) : Bytes :=
  0x80 :: (List.replicate ((n - (len + 1 + field.length) % n) % n) 0 ++ field)

section

variable {σ : Type} {f : σ → Bytes → σ} {n : Nat} {s : σ} {rest field : Bytes}

theorem lengthPadding_mod (n len : Nat) (field : Bytes) :
    lengthPadding n (len % n) field = lengthPadding n len field := by
  rw [lengthPadding, lengthPadding, Nat.add_assoc, Nat.add_assoc, Nat.mod_add_mod]

/-- The padding goes with what is left over of the message. -/
theorem absorb_lengthPadding (hn : 0 < n) (s : σ) (m field : Bytes) :
    absorb f n s (m ++ lengthPadding n m.length field) =
      absorb f n (absorb f n s m)
        (leftover n m ++ lengthPadding n (leftover n m).length field) := by
  rw [(absorb_append hn s m _).1, length_leftover, lengthPadding_mod]

theorem absorb_lengthPadding_one (h : rest.length + 1 + field.length ≤ n) :
    absorb f n s (rest ++ lengthPadding n rest.length field) =
      f s (rest ++ 0x80 :: (List.replicate (n - rest.length - 1 - field.length) 0 ++ field)) := by
  have hzeros : (n - (rest.length + 1 + field.length) % n) % n =
      n - rest.length - 1 - field.length := by
    rcases Nat.lt_or_eq_of_le h with hlt | heq
    · rw [Nat.mod_eq_of_lt hlt, Nat.mod_eq_of_lt (by omega)]
      omega
    · rw [heq, Nat.mod_self, Nat.sub_zero, Nat.mod_self]
      omega
  rw [lengthPadding, hzeros, absorb_singleton (by omega) s]
  simp only [List.length_append, List.length_cons, List.length_replicate]
  omega

theorem absorb_lengthPadding_two (hrest : rest.length < n) (hfield : field.length ≤ n)
    (h : n < rest.length + 1 + field.length) :
    absorb f n s (rest ++ lengthPadding n rest.length field) =
      f (f s (rest ++ 0x80 :: List.replicate (n - rest.length - 1) 0))
        (List.replicate (n - field.length) 0 ++ field) := by
  have hzeros : (n - (rest.length + 1 + field.length) % n) % n =
      (n - rest.length - 1) + (n - field.length) := by
    rcases Nat.lt_or_ge (rest.length + 1 + field.length) (2 * n) with hlt | hge
    · have hmod : (rest.length + 1 + field.length) % n = rest.length + 1 + field.length - n := by
        rw [Nat.mod_eq_sub_mod (Nat.le_of_lt h), Nat.mod_eq_of_lt (by omega)]
      rw [hmod, Nat.mod_eq_of_lt (by omega)]
      omega
    · have heq : rest.length + 1 + field.length = 2 * n := by omega
      rw [heq, Nat.mul_mod_left, Nat.sub_zero, Nat.mod_self]
      omega
  have hsplit : rest ++ lengthPadding n rest.length field =
      (rest ++ 0x80 :: List.replicate (n - rest.length - 1) 0) ++
        (List.replicate (n - field.length) 0 ++ field) := by
    rw [lengthPadding, hzeros, List.replicate_add]
    simp only [List.append_assoc, List.cons_append]
  rw [hsplit, absorb_block (by omega) s (by simp; omega),
    absorb_singleton (by omega) _ (by simp; omega)]

theorem absorb_lengthPadding_last (g : Bytes → σ) (hrest : rest.length < n)
    (hfield : field.length ≤ n) :
    absorb (fun _ b => g (b.drop (n - field.length))) n s
      (rest ++ lengthPadding n rest.length field) =
      g field := by
  by_cases h : rest.length + 1 + field.length ≤ n
  · rw [absorb_lengthPadding_one h]
    have hsplit : rest ++ 0x80 :: (List.replicate (n - rest.length - 1 - field.length) 0 ++ field) =
        (rest ++ 0x80 :: List.replicate (n - rest.length - 1 - field.length) 0) ++ field := by
      simp only [List.append_assoc, List.cons_append]
    rw [hsplit, List.drop_left' (by simp; omega)]
  · rw [absorb_lengthPadding_two hrest hfield (by omega), List.drop_left' (by simp)]

end

end Lib
