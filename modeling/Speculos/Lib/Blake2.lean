import Speculos.Lib.BlockFold

/-!
# BLAKE2

The BLAKE2 hashes over words of any width: the mixing of a block into the chaining value,
the parameter block, and the digest of a message. The last block is compressed apart, with the
length of the message and zeros behind its bytes, and the empty message has one block.
-/

namespace Lib.Blake2

/-- What the words of a member of the family are. -/
structure Words (ω : Type) where
  /-- The bytes of a word. -/
  width : Nat
  width_pos : 0 < width
  rounds : Nat
  iv : Vector ω 8
  /-- The four rotations to the right. -/
  rotr1 : ω → ω
  rotr2 : ω → ω
  rotr3 : ω → ω
  rotr4 : ω → ω
  /-- Modulo the size of a word. -/
  ofNat : Nat → ω
  toNat : ω → Nat

/-- The order in which a round takes the words of the block. -/
def sigma : Vector (Vector (Fin 16) 16) 10 :=
  #v[#v[0, 1, 2, 3, 4, 5, 6, 7, 8, 9, 10, 11, 12, 13, 14, 15],
    #v[14, 10, 4, 8, 9, 15, 13, 6, 1, 12, 0, 2, 11, 7, 5, 3],
    #v[11, 8, 12, 0, 5, 2, 15, 13, 10, 14, 3, 6, 7, 1, 9, 4],
    #v[7, 9, 3, 1, 13, 12, 11, 14, 2, 6, 5, 10, 4, 0, 15, 8],
    #v[9, 0, 5, 7, 2, 4, 10, 15, 14, 1, 11, 12, 6, 8, 3, 13],
    #v[2, 12, 6, 10, 0, 11, 8, 3, 4, 13, 7, 5, 15, 14, 1, 9],
    #v[12, 5, 1, 15, 14, 13, 4, 10, 0, 7, 6, 3, 9, 2, 8, 11],
    #v[13, 11, 7, 14, 12, 1, 3, 9, 5, 0, 15, 4, 8, 6, 2, 10],
    #v[6, 15, 14, 9, 11, 3, 0, 8, 12, 2, 13, 7, 1, 4, 10, 5],
    #v[10, 2, 8, 4, 7, 6, 1, 5, 15, 11, 9, 14, 3, 12, 13, 0]]

/-- The parameters of a hash without a tree. -/
structure Params where
  digestLength : Nat
  key : Bytes
  salt : Bytes
  personal : Bytes
  deriving DecidableEq, Repr

section

variable {ω : Type} (std : Words ω)

def Words.blockBytes : Nat := 16 * std.width

-- ---------------------------------------------------------------------------
-- Compression
-- ---------------------------------------------------------------------------

section

variable [Add ω] [XorOp ω]

def mix (v : Vector ω 16) (a b c d : Fin 16) (x y : ω) : Vector ω 16 :=
  let v := v.set a (v[a] + v[b] + x)
  let v := v.set d (std.rotr1 (v[d] ^^^ v[a]))
  let v := v.set c (v[c] + v[d])
  let v := v.set b (std.rotr2 (v[b] ^^^ v[c]))
  let v := v.set a (v[a] + v[b] + y)
  let v := v.set d (std.rotr3 (v[d] ^^^ v[a]))
  let v := v.set c (v[c] + v[d])
  v.set b (std.rotr4 (v[b] ^^^ v[c]))

def round (m : Vector ω 16) (v : Vector ω 16) (i : Nat) : Vector ω 16 :=
  let s := sigma.get ⟨i % 10, Nat.mod_lt _ (by decide)⟩
  let v := mix std v 0 4 8 12 m[s[0]] m[s[1]]
  let v := mix std v 1 5 9 13 m[s[2]] m[s[3]]
  let v := mix std v 2 6 10 14 m[s[4]] m[s[5]]
  let v := mix std v 3 7 11 15 m[s[6]] m[s[7]]
  let v := mix std v 0 5 10 15 m[s[8]] m[s[9]]
  let v := mix std v 1 6 11 12 m[s[10]] m[s[11]]
  let v := mix std v 2 7 8 13 m[s[12]] m[s[13]]
  mix std v 3 4 9 14 m[s[14]] m[s[15]]

local instance neZero_chain : NeZero 8 := ⟨by decide⟩

/-- What the rounds start from: `t` counts the bytes, and the last block is marked. -/
def localState (h : Vector ω 8) (t : Nat) (last : Bool) : Vector ω 16 :=
  let one := 256 ^ std.width
  let iv := std.iv
  #v[h.get 0, h.get 1, h.get 2, h.get 3, h.get 4, h.get 5, h.get 6, h.get 7,
    iv.get 0, iv.get 1, iv.get 2, iv.get 3, iv.get 4 ^^^ std.ofNat t,
    iv.get 5 ^^^ std.ofNat (t / one), iv.get 6 ^^^ std.ofNat (if last then one - 1 else 0),
    iv.get 7]

def compress (h : Vector ω 8) (m : Vector ω 16) (t : Nat) (last : Bool) : Vector ω 8 :=
  let v := (List.range std.rounds).foldl (round std m) (localState std h t last)
  .ofFn fun i => h[i] ^^^ v[i.val] ^^^ v[i.val + 8]

end

-- ---------------------------------------------------------------------------
-- Digests
-- ---------------------------------------------------------------------------

/-- The word at `k`, lowest byte first. Behind the end are zeros. -/
def wordAt (m : Bytes) (k : Nat) : ω :=
  std.ofNat (fromLE ((List.range std.width).map fun j => m.getD (std.width * k + j) 0))

def blockWords (m : Bytes) (i : Nat) : Vector ω 16 := .ofFn fun j => wordAt std m (16 * i + j)

def lastIndex (m : Bytes) : Nat := (m.length - 1) / std.blockBytes

/-- A string in a field of `n` bytes. -/
def field (n : Nat) (s : Bytes) : Bytes := s ++ List.replicate (n - s.length) 0

def Params.block (p : Params) : Bytes :=
  [UInt8.ofNat p.digestLength, UInt8.ofNat p.key.length, 1, 1] ++
    List.replicate (4 * std.width - 4) 0 ++ field (2 * std.width) p.salt ++
    field (2 * std.width) p.personal

theorem wordAt_drop (m : Bytes) (n k : Nat) :
    wordAt std (m.drop (std.width * n)) k = wordAt std m (n + k) := by
  rw [wordAt, wordAt]
  congr 2
  refine List.map_congr_left fun j _ => ?_
  rw [List.getD_eq_getElem?_getD, List.getD_eq_getElem?_getD, List.getElem?_drop, Nat.mul_add,
    Nat.add_assoc]

theorem blockWords_drop (m : Bytes) (i j : Nat) :
    blockWords std (m.drop (i * std.blockBytes)) j = blockWords std m (i + j) := by
  have hoff : i * std.blockBytes = std.width * (16 * i) := by
    rw [Words.blockBytes]
    ring
  apply Vector.ext
  intro k hk
  simp only [blockWords, Vector.getElem_ofFn, hoff, wordAt_drop]
  congr 1
  ring

theorem wordAt_congr {m m' : Bytes} (h : ∀ j < std.width, m.getD (std.width * k + j) 0 =
    m'.getD (std.width * k + j) 0) : wordAt std m k = wordAt std m' k := by
  rw [wordAt, wordAt, List.map_congr_left fun j hj => h j (List.mem_range.mp hj)]

/-- The words of a block do not depend on what comes behind it, -/
theorem blockWords_take (m : Bytes) :
    blockWords std (m.take std.blockBytes) 0 = blockWords std m 0 := by
  apply Vector.ext
  intro k hk
  simp only [blockWords, Vector.getElem_ofFn]
  refine wordAt_congr std fun j hj => ?_
  have hlt : std.width * (16 * 0 + k) + j < std.blockBytes := by
    calc std.width * (16 * 0 + k) + j < std.width * (k + 1) := by
            rw [Nat.mul_zero, Nat.zero_add, Nat.mul_succ]
            omega
      _ ≤ std.width * 16 := Nat.mul_le_mul_left _ hk
      _ = std.blockBytes := Nat.mul_comm ..
  rw [List.getD_eq_getElem?_getD, List.getD_eq_getElem?_getD, List.getElem?_take_of_lt hlt]

/-- and zeros behind the message are words of zeros anyway. -/
theorem blockWords_append_zeros (m : Bytes) (n i : Nat) :
    blockWords std (m ++ List.replicate n 0) i = blockWords std m i := by
  apply Vector.ext
  intro k hk
  simp only [blockWords, Vector.getElem_ofFn]
  refine wordAt_congr std fun j hj => ?_
  rw [List.getD_eq_getElem?_getD, List.getD_eq_getElem?_getD, List.getElem?_append]
  split
  · rfl
  · rename_i hge
    rw [List.getElem?_replicate, List.getElem?_eq_none (Nat.not_lt.mp hge)]
    split <;> rfl

section

variable [Add ω] [XorOp ω]

def start (p : Params) : Vector ω 8 :=
  .ofFn fun i => std.iv[i] ^^^ wordAt std (p.block std) i

def chain (h : Vector ω 8) (m : Bytes) : Nat → Vector ω 8
  | 0 => h
  | i + 1 => compress std (chain h m i) (blockWords std m i) ((i + 1) * std.blockBytes) false

def final (h : Vector ω 8) (m : Bytes) : Vector ω 8 :=
  compress std (chain std h m (lastIndex std m)) (blockWords std m (lastIndex std m)) m.length true

def output (h : Vector ω 8) (n : Nat) : Bytes :=
  (h.toList.flatMap fun w => toLE std.width (std.toNat w)).take n

/-- A key has a block of its own in front of the message. -/
def keyBlock (key : Bytes) : Bytes := if key = [] then [] else field std.blockBytes key

def hash (p : Params) (m : Bytes) : Bytes :=
  output std (final std (start std p) (keyBlock std p.key ++ m)) p.digestLength

-- ---------------------------------------------------------------------------
-- Block by block
-- ---------------------------------------------------------------------------

/-- A block that others follow, with the bytes before it. -/
def absorbBlock (s : Vector ω 8 × Nat) (b : Bytes) : Vector ω 8 × Nat :=
  (compress std s.1 (blockWords std b 0) (s.2 + std.blockBytes) false, s.2 + std.blockBytes)

theorem chain_append_block (h : Vector ω 8) (m : Bytes) (k : Nat) :
    ∀ i, foldBlocks (absorbBlock std) std.blockBytes k (chain std h m i, i * std.blockBytes)
        (m.drop (i * std.blockBytes)) = (chain std h m (i + k), (i + k) * std.blockBytes) := by
  induction k with
  | zero => intro i; rfl
  | succ k ih =>
    intro i
    have hstep : absorbBlock std (chain std h m i, i * std.blockBytes)
        ((m.drop (i * std.blockBytes)).take std.blockBytes) =
        (chain std h m (i + 1), (i + 1) * std.blockBytes) := by
      rw [absorbBlock, blockWords_take, blockWords_drop, chain, Nat.add_zero, ← Nat.succ_mul]
    rw [foldBlocks, hstep, List.drop_drop, ← Nat.succ_mul, ih, Nat.succ_add_eq_add_succ]

theorem absorbInit_absorbBlock (h : Vector ω 8) (m : Bytes) :
    absorbInit (absorbBlock std) std.blockBytes (h, 0) m =
      (chain std h m (lastIndex std m), lastIndex std m * std.blockBytes) := by
  have hfold := chain_append_block std h m (lastIndex std m) 0
  rwa [Nat.zero_mul, List.drop_zero, Nat.zero_add] at hfold

theorem final_eq (h : Vector ω 8) (m : Bytes) (n : Nat) :
    final std h m =
      compress std (absorbInit (absorbBlock std) std.blockBytes (h, 0) m).1
        (blockWords std (lastBlock std.blockBytes m ++ List.replicate n 0) 0) m.length true := by
  rw [absorbInit_absorbBlock, blockWords_append_zeros, lastBlock]
  exact congrArg (fun w => compress std _ w m.length true) (blockWords_drop std m _ 0).symm

end

end

end Lib.Blake2
