import Speculos.Lib.CString

/-!
# The seed of the environment

`unhex` decodes a string into the buffer of the seed while it checks the digits, and halves the
length of the string.
-/

namespace Speculos.Environment

open Lib

-- ---------------------------------------------------------------------------
-- The code
-- ---------------------------------------------------------------------------

/-- The digit `c` behind `acc`, by the ranges of the `switch`. -/
def accumulate (acc c : UInt8) : Option UInt8 :=
  if 0x30 ≤ c ∧ c ≤ 0x39 then some ((acc <<< 4) + c - 0x30)
  else if 0x61 ≤ c ∧ c ≤ 0x66 then some ((acc <<< 4) + c - 0x61 + 10)
  else if 0x41 ≤ c ∧ c ≤ 0x46 then some ((acc <<< 4) + c - 0x41 + 10)
  else none

/-- The loop of `unhex` from the character `i` on: the index where it stops, unless it returns -1,
and the buffer. -/
def unhexLoop (dstSize : Nat) : Bytes → Nat → UInt8 → Region → Option Nat × Region
  | [], i, _, dst => (some i, dst)
  | c :: src, i, acc, dst =>
    if i / 2 < dstSize then
      match accumulate acc c with
      | none => (none, dst)
      | some acc =>
        if i % 2 ≠ 0 then unhexLoop dstSize src (i + 1) 0 (dst.store (i / 2) acc)
        else unhexLoop dstSize src (i + 1) acc dst
    else (some i, dst)

/-- `unhex` of `src_size` characters: the size, or none for -1, and the buffer. -/
def unhex (dst : Region) (dstSize : Nat) (src : Bytes) : Option Nat × Region :=
  match unhexLoop dstSize src 0 0 dst with
  | (none, dst) => (none, dst)
  | (some i, dst) => (if i ≠ src.length then none else some (src.length / 2), dst)

def maxSeedSize : Nat := 64

def defaultSeed : Bytes :=
  [0xb1, 0x19, 0x97, 0xfa, 0xff, 0x42, 0x0a, 0x33, 0x1b, 0xb4, 0xa4, 0xff, 0xdc, 0x8b, 0xdc, 0x8b,
    0xa7, 0xc0, 0x17, 0x32, 0xa9, 0x9a, 0x30, 0xd8, 0x3d, 0xbb, 0xeb, 0xd4, 0x69, 0x66, 0x6c, 0x84,
    0xb4, 0x7d, 0x09, 0xd3, 0xf5, 0xf4, 0x72, 0xb3, 0xb9, 0x38, 0x4a, 0xc6, 0x34, 0xbe, 0xba, 0x2a,
    0x44, 0x0b, 0xa3, 0x6e, 0xc7, 0x66, 0x11, 0x44, 0x13, 0x2f, 0x35, 0xe2, 0x06, 0x87, 0x35, 0x64]

structure ActualSeed where
  size : Nat
  seed : Region

/-- The default seed copied over what the buffer holds. -/
def useDefaultSeed (seed : Region) : ActualSeed :=
  ⟨defaultSeed.length, seed.memcpy 0 defaultSeed maxSeedSize⟩

/-- `env_init_seed`, where `p` is what `getenv` returns. -/
def envInitSeed (p : Option CString) (s : ActualSeed) : ActualSeed :=
  match p with
  | none => useDefaultSeed s.seed
  | some p =>
    match unhex s.seed maxSeedSize p.chars with
    | (none, seed) => useDefaultSeed seed
    | (some size, seed) => ⟨size, seed⟩

def envGetSeed (seed : Region) (maxSize : Nat) (s : ActualSeed) : Nat × Region :=
  (if s.size < maxSize then s.size else maxSize, seed.memcpy 0 (s.seed.slice 0 maxSize) maxSize)

-- ---------------------------------------------------------------------------
-- Digits
-- ---------------------------------------------------------------------------

theorem accumulate_eq (acc c : UInt8) :
    accumulate acc c = (hexVal c).map fun a => acc <<< 4 + UInt8.ofNat a := by
  have hdigit {low : UInt8} (hle : low ≤ c) (k : Nat) :
      acc <<< 4 + c - low + UInt8.ofNat k = acc <<< 4 + UInt8.ofNat (c.toNat - low.toNat + k) := by
    rw [UInt8.ofNat_add, ← UInt8.toNat_sub_of_le _ _ hle, UInt8.ofNat_toNat, UInt8.sub_eq_add_neg,
      UInt8.sub_eq_add_neg, UInt8.add_assoc, UInt8.add_assoc, UInt8.add_assoc]
  unfold accumulate hexVal
  split
  · rename_i hc
    exact congrArg some ((UInt8.add_zero _).symm.trans (hdigit hc.1 0))
  · split
    · rename_i hc
      have hle := UInt8.le_iff_toNat_le.mp hc.1
      have hvalue : c.toNat - 0x61 + 10 = c.toNat - 0x57 := by
        rw [show (0x61 : UInt8).toNat = 0x61 from rfl] at hle
        omega
      exact congrArg some ((hdigit hc.1 10).trans (congrArg (acc <<< 4 + UInt8.ofNat ·) hvalue))
    · split
      · rename_i hc
        have hle := UInt8.le_iff_toNat_le.mp hc.1
        have hvalue : c.toNat - 0x41 + 10 = c.toNat - 0x37 := by
          rw [show (0x41 : UInt8).toNat = 0x41 from rfl] at hle
          omega
        exact congrArg some ((hdigit hc.1 10).trans (congrArg (acc <<< 4 + UInt8.ofNat ·) hvalue))
      · rfl

theorem accumulate_pair (hhigh : hexVal high = some a) (hlow : hexVal low = some b)
    (hbyte : byte.toNat = 16 * a + b) :
    ∃ acc, accumulate 0 high = some acc ∧ accumulate acc low = some byte := by
  refine ⟨UInt8.ofNat a, ?_, ?_⟩
  · rw [accumulate_eq, hhigh, Option.map_some, UInt8.zero_shiftLeft, UInt8.zero_add]
  · rw [accumulate_eq, hlow, Option.map_some, Option.some.injEq, ← UInt8.toNat_inj, hbyte]
    have ha := hexVal_lt hhigh
    have hb := hexVal_lt hlow
    simp [Nat.shiftLeft_eq]
    omega

-- ---------------------------------------------------------------------------
-- The loop
-- ---------------------------------------------------------------------------

theorem unhexLoop_fst (dstSize : Nat) (src : Bytes) (i : Nat) (acc : UInt8) (dst : Region)
    (hi : i ≤ 2 * dstSize) :
    (unhexLoop dstSize src i acc dst).1 =
      if ∀ c ∈ src.take (2 * dstSize - i), IsHexDigit c
        then some (min (i + src.length) (2 * dstSize))
      else none := by
  induction src generalizing i acc dst with
  | nil => simp [unhexLoop, hi]
  | cons c src ih =>
    rw [unhexLoop]
    by_cases hfull : i = 2 * dstSize
    · simp [hfull]
    · have hgo : i / 2 < dstSize := by omega
      have htake : (c :: src).take (2 * dstSize - i) = c :: src.take (2 * dstSize - (i + 1)) := by
        rw [show 2 * dstSize - i = 2 * dstSize - (i + 1) + 1 by omega, List.take_succ_cons]
      have hnext : i + (c :: src).length = i + 1 + src.length := by
        rw [List.length_cons]
        omega
      rw [if_pos hgo, accumulate_eq, htake, hnext]
      simp only [List.forall_mem_cons]
      cases hc : hexVal c with
      | none => simp [IsHexDigit, hc]
      | some a =>
        have hdigit : IsHexDigit c := by simp [IsHexDigit, hc]
        have hle : i + 1 ≤ 2 * dstSize := by omega
        simp only [Option.map_some, hdigit, true_and]
        split
        · exact ih _ _ _ hle
        · exact ih _ _ _ hle

theorem unhexLoop_isHexOf (h : IsHexOf s bytes) (k : Nat) (hfits : k + bytes.length ≤ dstSize)
    (dst : Region) :
    unhexLoop dstSize s (2 * k) 0 dst =
      (some (2 * k + s.length), dst.memcpy k bytes bytes.length) := by
  induction h generalizing k dst with
  | nil => rfl
  | @cons high a low b byte s bytes hhigh hlow hbyte hrest ih =>
    obtain ⟨acc, hfirst, hsecond⟩ := accumulate_pair hhigh hlow hbyte
    rw [List.length_cons] at hfits
    have hgo : 2 * k / 2 < dstSize := by omega
    have hgo' : (2 * k + 1) / 2 < dstSize := by omega
    have heven : ¬ 2 * k % 2 ≠ 0 := by omega
    have hodd : (2 * k + 1) % 2 ≠ 0 := by omega
    have hplace : (2 * k + 1) / 2 = k := by omega
    rw [unhexLoop, if_pos hgo, hfirst]
    dsimp only
    rw [if_neg heven, unhexLoop, if_pos hgo', hsecond]
    dsimp only
    rw [if_pos hodd, hplace, show 2 * k + 1 + 1 = 2 * (k + 1) by omega, ih (k + 1) (by omega),
      List.length_cons, Region.memcpy_cons]
    simp only [List.length_cons, Prod.mk.injEq, Option.some.injEq, and_true]
    omega

theorem unhex_fst (dst : Region) (dstSize : Nat) (src : Bytes) :
    (unhex dst dstSize src).1 =
      if (∀ c ∈ src, IsHexDigit c) ∧ src.length ≤ 2 * dstSize then some (src.length / 2)
        else none := by
  have hloop := unhexLoop_fst dstSize src 0 0 dst (Nat.zero_le _)
  rw [Nat.sub_zero, Nat.zero_add] at hloop
  unfold unhex
  generalize unhexLoop dstSize src 0 0 dst = r at hloop
  obtain ⟨stopped, dst'⟩ := r
  dsimp only at hloop
  rw [hloop]
  by_cases hlen : src.length ≤ 2 * dstSize
  · rw [List.take_of_length_le hlen, Nat.min_eq_left hlen]
    by_cases hdigits : ∀ c ∈ src, IsHexDigit c
    · simp [if_pos hdigits, hlen]
    · simp [hdigits]
  · have hne : 2 * dstSize ≠ src.length := by omega
    rw [Nat.min_eq_right (Nat.le_of_not_le hlen)]
    by_cases hdigits : ∀ c ∈ src.take (2 * dstSize), IsHexDigit c
    · simp [if_pos hdigits, hlen, hne]
    · simp [if_neg hdigits, hlen]

theorem unhex_isHexOf (h : IsHexOf s bytes) (hfits : bytes.length ≤ dstSize) (dst : Region) :
    unhex dst dstSize s = (some bytes.length, dst.memcpy 0 bytes bytes.length) := by
  have hloop := unhexLoop_isHexOf h 0 (Nat.le_trans (Nat.le_of_eq (Nat.zero_add _)) hfits) dst
  rw [Nat.mul_zero, Nat.zero_add] at hloop
  have hhalf : s.length / 2 = bytes.length := by
    rw [h.length_eq, Nat.mul_div_cancel_left _ Nat.two_pos]
  simp [unhex, hloop, hhalf]

-- ---------------------------------------------------------------------------
-- The seed
-- ---------------------------------------------------------------------------

/-- A string that spells a seed. -/
def SpellsSeed (chars : Bytes) : Prop :=
  (∀ c ∈ chars, IsHexDigit c) ∧ chars.length % 2 = 0 ∧ chars.length ≤ 2 * maxSeedSize

/-- The seed that `env_get_seed(buf, 64)` returns. -/
def returnedSeed (buf : Region) (s : ActualSeed) : Bytes :=
  (envGetSeed buf maxSeedSize s).2.slice 0 (envGetSeed buf maxSeedSize s).1

/-- The seed is the one that the string spells, or else the default seed. -/
def SeedParsed (p : CString) (start : ActualSeed) (buf : Region) : Prop :=
  (SpellsSeed p.chars → IsHexOf p.chars (returnedSeed buf (envInitSeed (some p) start))) ∧
    (¬ SpellsSeed p.chars → returnedSeed buf (envInitSeed (some p) start) = defaultSeed)

theorem returnedSeed_eq (buf : Region) {s : ActualSeed} (h : s.size ≤ maxSeedSize) :
    returnedSeed buf s = s.seed.slice 0 s.size := by
  have hsize : (if s.size < maxSeedSize then s.size else maxSeedSize) = s.size := by
    split
    · rfl
    · omega
  have hlen : (s.seed.slice 0 maxSeedSize).length = maxSeedSize := Region.length_slice ..
  rw [returnedSeed, envGetSeed, hsize, ← Region.take_slice _ _ _ _ h,
    Region.slice_memcpy_eq _ _ _ hlen, Region.take_slice _ _ _ _ h]

theorem returnedSeed_default (buf seed : Region) :
    returnedSeed buf (useDefaultSeed seed) = defaultSeed := by
  rw [returnedSeed_eq buf (Nat.le_refl 64)]
  exact Region.slice_memcpy_length seed defaultSeed

theorem envInitSeed_none (h : (unhex s.seed maxSeedSize p.chars).1 = none) :
    envInitSeed (some p) s = useDefaultSeed (unhex s.seed maxSeedSize p.chars).2 := by
  rw [envInitSeed]
  split
  · rename_i heq
    rw [heq]
  · rename_i heq
    rw [heq] at h
    cases h

theorem envInitSeed_some (h : (unhex s.seed maxSeedSize p.chars).1 = some size) :
    envInitSeed (some p) s = ⟨size, (unhex s.seed maxSeedSize p.chars).2⟩ := by
  rw [envInitSeed]
  split
  · rename_i heq
    rw [heq] at h
    cases h
  · rename_i heq
    rw [heq] at h ⊢
    cases h
    rfl

theorem returnedSeed_isHexOf (h : IsHexOf p.chars bytes) (hfits : bytes.length ≤ maxSeedSize)
    (start : ActualSeed) (buf : Region) :
    returnedSeed buf (envInitSeed (some p) start) = bytes := by
  have hsize : (unhex start.seed maxSeedSize p.chars).1 = some bytes.length :=
    congrArg Prod.fst (unhex_isHexOf h hfits start.seed)
  rw [envInitSeed_some hsize, unhex_isHexOf h hfits, returnedSeed_eq buf hfits]
  exact Region.slice_memcpy_length start.seed bytes

/-- A string that is refused leaves the default seed. -/
theorem returnedSeed_refused
    (h : ¬ ((∀ c ∈ p.chars, IsHexDigit c) ∧ p.chars.length ≤ 2 * maxSeedSize)) (start : ActualSeed)
    (buf : Region) : returnedSeed buf (envInitSeed (some p) start) = defaultSeed := by
  have hnone := unhex_fst start.seed maxSeedSize p.chars
  rw [if_neg h] at hnone
  rw [envInitSeed_none hnone]
  exact returnedSeed_default buf _

theorem length_returnedSeed (hdigits : ∀ c ∈ p.chars, IsHexDigit c)
    (hlen : p.chars.length ≤ 2 * maxSeedSize) (start : ActualSeed) (buf : Region) :
    (returnedSeed buf (envInitSeed (some p) start)).length = p.chars.length / 2 := by
  have hsome := unhex_fst start.seed maxSeedSize p.chars
  rw [if_pos ⟨hdigits, hlen⟩] at hsome
  have hhalf : p.chars.length / 2 ≤ maxSeedSize := Nat.div_le_of_le_mul hlen
  rw [envInitSeed_some hsome, returnedSeed_eq buf hhalf, Region.length_slice]

/-- The seed is parsed exactly, but for an odd number of digits, of which the last one is
dropped. -/
theorem seedParsed_iff (p : CString) (start : ActualSeed) (buf : Region) :
    SeedParsed p start buf ↔
      ¬ ((∀ c ∈ p.chars, IsHexDigit c) ∧ p.chars.length % 2 = 1 ∧
        p.chars.length < 2 * maxSeedSize) := by
  constructor
  · rintro ⟨-, hdefault⟩ ⟨hdigits, hodd, hlen⟩
    have hspells : ¬ SpellsSeed p.chars := by
      rintro ⟨-, heven, -⟩
      omega
    have hreturned := length_returnedSeed hdigits (Nat.le_of_lt hlen) start buf
    rw [hdefault hspells] at hreturned
    have hsize : defaultSeed.length = maxSeedSize := rfl
    omega
  · intro h
    refine ⟨?_, fun hspells => returnedSeed_refused ?_ start buf⟩
    · rintro ⟨hdigits, heven, hlen⟩
      obtain ⟨bytes, hbytes⟩ := exists_isHexOf hdigits heven
      have hfits : bytes.length ≤ maxSeedSize := by
        have hlength := hbytes.length_eq
        omega
      rw [returnedSeed_isHexOf hbytes hfits start buf]
      exact hbytes
    · rintro ⟨hdigits, hlen⟩
      by_cases heven : p.chars.length % 2 = 0
      · exact hspells ⟨hdigits, heven, hlen⟩
      · have hsize : maxSeedSize = 64 := rfl
        exact h ⟨hdigits, by omega, by omega⟩

/-- The string `abc` gives the seed of one byte `ab`, and not the default seed. -/
theorem not_seedParsed_abc : ¬ SeedParsed ⟨[0x61, 0x62, 0x63], by decide⟩ ⟨0, .zeroed⟩ .zeroed := by
  intro h
  have hdefault := h.2 fun hspells => absurd hspells.2.1 (by decide)
  have hdigits : ∀ c ∈ [0x61, 0x62, 0x63], IsHexDigit c := by
    intro c hc
    simp only [List.mem_cons, List.not_mem_nil, or_false] at hc
    rcases hc with rfl | rfl | rfl <;> rfl
  have hlength := length_returnedSeed (p := ⟨[0x61, 0x62, 0x63], by decide⟩) hdigits (by decide)
    ⟨0, .zeroed⟩ .zeroed
  rw [hdefault] at hlength
  exact absurd hlength (by decide)

end Speculos.Environment
