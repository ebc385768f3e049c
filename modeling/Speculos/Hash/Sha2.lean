import Speculos.Hash.Final

/-!
# SHA-2 and RIPEMD-160

The members of the family and their digests: the block function is folded over the
message with its padding. SHA-224 and SHA-256 do not limit the number of blocks, so that
their counter wraps around, and the length is right only for less than 2^32 blocks.
-/

namespace Speculos.Hash

open Lib

-- ---------------------------------------------------------------------------
-- Digests
-- ---------------------------------------------------------------------------

def wordsLE32 (acc : Vector UInt32 k) : Bytes := acc.toList.flatMap fun w => toLE 4 w.toNat

def wordsLE64 (acc : Vector UInt64 k) : Bytes := acc.toList.flatMap fun w => toLE 8 w.toNat

def wordsBE32 (acc : Vector UInt32 k) : Bytes := acc.toList.flatMap fun w => toBE 4 w.toNat

def wordsBE64 (acc : Vector UInt64 k) : Bytes := acc.toList.flatMap fun w => toBE 8 w.toNat

theorem wordsLE32_swap (acc : Vector UInt32 k) :
    wordsLE32 (acc.map specCxSwapUint32) = wordsBE32 acc := by
  rw [wordsLE32, wordsBE32, Vector.toList_map, List.flatMap_map]
  exact congrArg (List.flatMap · acc.toList) (funext toLE_specCxSwapUint32)

theorem wordsLE64_swap (acc : Vector UInt64 k) :
    wordsLE64 (acc.map specCxSwapUint64) = wordsBE64 acc := by
  rw [wordsLE64, wordsBE64, Vector.toList_map, List.flatMap_map]
  exact congrArg (List.flatMap · acc.toList) (funext toLE_specCxSwapUint64)

/-- What a standard fixes beside the block function. -/
structure Standard (σ : Type) where
  n : Nat
  iv : σ
  lengthField : Nat → Bytes
  output : σ → Bytes

/-- The digest: the block function folded over the message, its padding and its length in bits. -/
def Standard.digest (std : Standard σ) (f : σ → Bytes → σ) (m : Bytes) : Bytes :=
  std.output (absorb f std.n std.iv (m ++
    lengthPadding std.n m.length (std.lengthField (8 * m.length))))

-- ---------------------------------------------------------------------------
-- SHA-224 and SHA-256
-- ---------------------------------------------------------------------------

def hzero224 : Vector UInt32 8 :=
  #v[0xc1059ed8, 0x367cd507, 0x3070dd17, 0xf70e5939, 0xffc00b31, 0x68581511, 0x64f98fa7, 0xbefa4fa4]

def hzero256 : Vector UInt32 8 :=
  #v[0x6a09e667, 0xbb67ae85, 0x3c6ef372, 0xa54ff53a, 0x510e527f, 0x9b05688c, 0x1f83d9ab, 0x5be0cd19]

def cxSha224Init : Context (Vector UInt32 8) := ⟨.sha224, 0, 0, List.replicate 64 0, hzero224⟩

def cxSha256Init : Context (Vector UInt32 8) := ⟨.sha256, 0, 0, List.replicate 64 0, hzero256⟩

theorem block64_pos : 0 < 64 := by decide

theorem block128_pos : 0 < 128 := by decide

/-- The counter is not compared with the maximum here. -/
def specCxSha256Update (F : BlockFunction (Vector UInt32 8)) (ctx : Context (Vector UInt32 8))
    (data : Bytes) : Except Failure (Context (Vector UInt32 8)) :=
  if ctx.blen ≥ 64 then .error .thrown else append F false 64 block64_pos ctx data

/-- `uint64_t bitlen`, written from the highest byte on. -/
def sha256Length : LengthFormat where
  size := 8
  bitlen counter blen := (counter.toUInt64 * 64 + blen.toUInt64 - 1) * 8
  field bitlen := toLE 8 (specCxSwapUint64 bitlen).toNat
  length_field _ := length_toLE ..
  le_size := by decide

def specCxSha256Final (F : BlockFunction (Vector UInt32 8)) (ctx : Context (Vector UInt32 8)) :
    Bytes :=
  let acc := (finalAcc F 64 sha256Length ctx).map specCxSwapUint32
  if ctx.algo = .sha256 then (wordsLE32 acc).take 32 else (wordsLE32 acc).take 28

-- ---------------------------------------------------------------------------
-- SHA-384 and SHA-512
-- ---------------------------------------------------------------------------

def hzero384 : Vector UInt64 8 :=
  #v[0xcbbb9d5dc1059ed8, 0x629a292a367cd507, 0x9159015a3070dd17, 0x152fecd8f70e5939,
    0x67332667ffc00b31, 0x8eb44a8768581511, 0xdb0c2e0d64f98fa7, 0x47b5481dbefa4fa4]

def hzero512 : Vector UInt64 8 :=
  #v[0x6a09e667f3bcc908, 0xbb67ae8584caa73b, 0x3c6ef372fe94f82b, 0xa54ff53a5f1d36f1,
    0x510e527fade682d1, 0x9b05688c2b3e6c1f, 0x1f83d9abfb41bd6b, 0x5be0cd19137e2179]

def cxSha384Init : Context (Vector UInt64 8) := ⟨.sha384, 0, 0, List.replicate 128 0, hzero384⟩

def cxSha512Init : Context (Vector UInt64 8) := ⟨.sha512, 0, 0, List.replicate 128 0, hzero512⟩

def specCxSha512Update (F : BlockFunction (Vector UInt64 8)) (ctx : Context (Vector UInt64 8))
    (data : Bytes) : Except Failure (Context (Vector UInt64 8)) :=
  append F true 128 block128_pos ctx data

/-- `unsigned long int bitlen` has 32 bits, and the upper half of the room stays zero. -/
def sha512Length : LengthFormat where
  size := 16
  bitlen counter blen := ((counter.toUInt64 * 128 + blen.toUInt64 - 1) * 8).toUInt32.toUInt64
  field bitlen := toLE 8 (specCxSwapUint64 bitlen).toNat
  length_field _ := length_toLE ..
  le_size := by decide

def specCxSha512Final (F : BlockFunction (Vector UInt64 8)) (ctx : Context (Vector UInt64 8)) :
    Bytes :=
  let acc := (finalAcc F 128 sha512Length ctx).map specCxSwapUint64
  if ctx.algo = .sha512 then (wordsLE64 acc).take 64 else (wordsLE64 acc).take 48

-- ---------------------------------------------------------------------------
-- RIPEMD-160
-- ---------------------------------------------------------------------------

def hzeroRipemd160 : Vector UInt32 5 :=
  #v[0x67452301, 0xefcdab89, 0x98badcfe, 0x10325476, 0xc3d2e1f0]

def cxRipemd160Init : Context (Vector UInt32 5) :=
  ⟨.ripemd160, 0, 0, List.replicate 64 0, hzeroRipemd160⟩

def specCxRipemd160Update (F : BlockFunction (Vector UInt32 5)) (ctx : Context (Vector UInt32 5))
    (data : Bytes) : Except Failure (Context (Vector UInt32 5)) :=
  if ctx.blen ≥ 64 then .error .refused else append F true 64 block64_pos ctx data

/-- The length is computed with 32 bits and written from the lowest byte on. -/
def ripemd160Length : LengthFormat where
  size := 8
  bitlen counter blen := ((counter * 64 + blen - 1) * 8).toUInt64
  field bitlen := toLE 8 bitlen.toNat
  length_field _ := length_toLE ..
  le_size := by decide

def specCxRipemd160Final (F : BlockFunction (Vector UInt32 5)) (ctx : Context (Vector UInt32 5)) :
    Bytes :=
  (wordsLE32 (finalAcc F 64 ripemd160Length ctx)).take 20

-- ---------------------------------------------------------------------------
-- The standards
-- ---------------------------------------------------------------------------

def sha224 : Standard (Vector UInt32 8) :=
  ⟨64, hzero224, toBE 8, fun acc => (wordsBE32 acc).take 28⟩

def sha256 : Standard (Vector UInt32 8) :=
  ⟨64, hzero256, toBE 8, fun acc => (wordsBE32 acc).take 32⟩

def sha384 : Standard (Vector UInt64 8) :=
  ⟨128, hzero384, toBE 16, fun acc => (wordsBE64 acc).take 48⟩

def sha512 : Standard (Vector UInt64 8) :=
  ⟨128, hzero512, toBE 16, fun acc => (wordsBE64 acc).take 64⟩

def ripemd160 : Standard (Vector UInt32 5) :=
  ⟨64, hzeroRipemd160, toLE 8, fun acc => (wordsLE32 acc).take 20⟩

-- ---------------------------------------------------------------------------
-- Streaming
-- ---------------------------------------------------------------------------

section

variable {σ : Type} {F : BlockFunction σ} {f : σ → Bytes → σ} {limited : Bool} {n size sizeof : Nat}
  {hn : 0 < n} {algo : CxMd} {iv : σ} {ctx : Context σ} {m : Bytes}
  {update : Context σ → Bytes → Except Failure (Context σ)} {pieces : List (Piece sizeof)}

/-- What is behind an update is `append`, as long as less than a block is kept. -/
def Appends (F : BlockFunction σ) (limited : Bool) (n : Nat) (hn : 0 < n)
    (update : Context σ → Bytes → Except Failure (Context σ)) : Prop :=
  ∀ ctx data, ctx.blen < n → update ctx data = append F limited n hn ctx data

theorem holds_init (f : σ → Bytes → σ) (hn : 0 < n) (algo : CxMd) (iv : σ) :
    Holds f n size iv ⟨algo, 0, 0, List.replicate size 0, iv⟩ [] where
  acc := (absorb_of_lt iv hn).symm
  counter := by
    rw [List.length_nil, Nat.zero_div]
    rfl
  length_block := List.length_replicate
  blen := (Nat.zero_mod n).symm
  rest := (leftover_of_lt hn).symm

theorem withinLimit_append (h : WithinLimit limited ((m ++ data).length / n)) :
    WithinLimit limited (m.length / n) := by
  intro hlim
  refine Nat.le_trans (Nat.div_le_div_right ?_) (h hlim)
  rw [List.length_append]
  exact Nat.le_add_right ..

theorem stream_holds (algo : CxMd) (iv : σ) (hreads : F.Reads f n size) (hsize : n ≤ size)
    (hsizeof : n ≤ sizeof) (happends : Appends F limited n hn update)
    (hlimit : WithinLimit limited ((message pieces).length / n)) :
    ∃ ctx, updates update ⟨algo, 0, 0, List.replicate size 0, iv⟩ pieces = .ok ctx ∧
      Holds f n size iv ctx (message pieces) ∧ ctx.algo = algo := by
  refine updates_ok (fun ctx m => Holds f n size iv ctx m ∧ ctx.algo = algo)
    (fun m => WithinLimit limited (m.length / n)) (m := [])
    (fun m data => withinLimit_append) ?_ ⟨holds_init f hn algo iv, rfl⟩ hlimit
  rintro ctx m data ⟨hctx, halgo⟩ hfits hdata
  rw [happends ctx data (hctx.blen ▸ Nat.mod_lt _ hn)]
  obtain ⟨ctx', happend, hctx', halgo'⟩ := append_ok hn hreads hsize hctx hfits (by omega)
  exact ⟨ctx', happend, hctx', halgo'.trans halgo⟩

/-- Beyond the limit an update throws. -/
theorem stream_thrown (hreads : F.Reads f n size) (hsize : n ≤ size) (hsizeof : n ≤ sizeof)
    (happends : Appends F true n hn update) (hover : 65535 < (message pieces).length / n) :
    updates update ⟨algo, 0, 0, List.replicate size 0, iv⟩ pieces = .error .thrown := by
  refine updates_thrown (fun ctx m => Holds f n size iv ctx m)
    (fun m => WithinLimit true (m.length / n)) (m := []) ?_ ?_ (holds_init f hn algo iv)
    (fun _ => by rw [List.length_nil, Nat.zero_div]; omega) (fun h => Nat.not_le.mpr hover (h rfl))
  · intro ctx m data hctx hfits hdata
    rw [happends ctx data (hctx.blen ▸ Nat.mod_lt _ hn)]
    obtain ⟨ctx', happend, hctx', -⟩ := append_ok hn hreads hsize hctx hfits (by omega)
    exact ⟨ctx', happend, hctx'⟩
  · intro ctx m data hctx hfits hover hdata
    rw [happends ctx data (hctx.blen ▸ Nat.mod_lt _ hn)]
    refine append_thrown hn hreads hsize hctx (hfits rfl)
      (Nat.lt_of_not_le fun hle => hover fun _ => hle)
      (by omega)

theorem reads_self (F : BlockFunction σ) (n : Nat) : F.Reads F.acc n n := by
  intro a b hb
  rw [List.take_of_length_le (Nat.le_of_eq hb)]

end

/-- A hash from its functions: the digest of a message in pieces. -/
def streamed (init : γ) (update : γ → Bytes → Except Failure γ) (final : γ → Bytes)
    (pieces : List (Piece sizeof)) : Except Failure Bytes :=
  (updates update init pieces).map final

section

variable {σ : Type} {F : BlockFunction σ} {limited : Bool} {n sizeof : Nat} {std : Standard σ}
  {hn : 0 < std.n} {algo : CxMd} {format : LengthFormat} {ctx : Context σ} {m iv : Bytes}
  {update : Context σ → Bytes → Except Failure (Context σ)} {final : Context σ → Bytes}
  {pieces : List (Piece sizeof)}

variable (std) in
theorem streamed_eq (hsizeof : std.n ≤ sizeof) (hformat : format.size ≤ std.n)
    (happends : Appends F limited std.n hn update)
    (hfinal : ∀ ctx : Context σ, ctx.algo = algo →
    final ctx = std.output (finalAcc F std.n format ctx)) (hlimit :
    WithinLimit limited ((message pieces).length / std.n)) (hfield :
      ∀ ctx, Holds F.acc std.n std.n std.iv ctx (message pieces) →
      format.fieldOf ctx = std.lengthField (8 * (message pieces).length)) :
    streamed ⟨algo, 0, 0, List.replicate std.n 0, std.iv⟩ update final pieces =
      .ok (std.digest F.acc (message pieces)) := by
  obtain ⟨ctx, hupdates, hctx, halgo⟩ := stream_holds algo std.iv
    (reads_self F std.n) (Nat.le_refl _) hsizeof happends hlimit
  rw [streamed, hupdates]
  refine congrArg Except.ok ?_
  rw [hfinal ctx halgo, finalAcc_eq hformat hctx, hfield ctx hctx, ← absorb_lengthPadding hn]
  rfl

end

-- ---------------------------------------------------------------------------
-- The length
-- ---------------------------------------------------------------------------

theorem toNat_sha256_bitlen (c : Nat) (hr : r < 64) :
    (sha256Length.bitlen (UInt32.ofNat c) (UInt32.ofNat (r + 1))).toNat =
      8 * (c % 2 ^ 32 * 64 + r) := by
  have hc := Nat.mod_lt c (show 0 < 2 ^ 32 by decide)
  simp only [sha256Length, UInt64.toNat_mul, UInt64.toNat_sub, UInt64.toNat_add,
    UInt32.toNat_toUInt64, UInt32.toNat_ofNat']
  simp
  omega

theorem toNat_sha512_bitlen (hc : c ≤ 65535) (hr : r < 128) :
    (sha512Length.bitlen (UInt32.ofNat c) (UInt32.ofNat (r + 1))).toNat = 8 * (c * 128 + r) := by
  simp only [sha512Length, UInt64.toNat_mul, UInt64.toNat_sub, UInt64.toNat_add,
    UInt32.toNat_toUInt64, UInt32.toNat_ofNat', UInt64.toNat_toUInt32]
  simp
  omega

theorem toNat_ripemd160_bitlen (hc : c ≤ 65535) (hr : r < 64) :
    (ripemd160Length.bitlen (UInt32.ofNat c) (UInt32.ofNat (r + 1))).toNat = 8 * (c * 64 + r) := by
  simp only [ripemd160Length, UInt32.toNat_mul, UInt32.toNat_sub, UInt32.toNat_add,
    UInt32.toNat_toUInt64, UInt32.toNat_ofNat']
  simp
  omega

section

variable {σ : Type} {f : σ → Bytes → σ} {n size : Nat} {iv : σ} {ctx : Context σ} {m : Bytes}

theorem sha256_fieldOf (hctx : Holds f 64 64 iv ctx m) :
    sha256Length.fieldOf ctx = toBE 8 (8 * (m.length / 64 % 2 ^ 32 * 64 + m.length % 64)) := by
  rw [← toNat_sha256_bitlen (m.length / 64) (Nat.mod_lt m.length (by decide)),
    ← toLE_specCxSwapUint64, ← hctx.blen, ← hctx.counter]
  rfl

theorem sha512_fieldOf (hctx : Holds f 128 128 iv ctx m) (hlimit : m.length / 128 ≤ 65535) :
    sha512Length.fieldOf ctx = toBE 16 (8 * m.length) := by
  have hbitlen := toNat_sha512_bitlen hlimit (Nat.mod_lt m.length (show 0 < 128 by decide))
  rw [Nat.div_add_mod' m.length 128, ← hctx.blen, ← hctx.counter] at hbitlen
  rw [toBE_add_of_lt 8 (w := 8) (by omega), ← hbitlen, ← toLE_specCxSwapUint64]
  rfl

theorem ripemd160_fieldOf (hctx : Holds f 64 64 iv ctx m) (hlimit : m.length / 64 ≤ 65535) :
    ripemd160Length.fieldOf ctx = toLE 8 (8 * m.length) := by
  have hbitlen := toNat_ripemd160_bitlen hlimit (Nat.mod_lt m.length (show 0 < 64 by decide))
  rw [Nat.div_add_mod' m.length 64, ← hctx.blen, ← hctx.counter] at hbitlen
  rw [← hbitlen]
  rfl

end

-- ---------------------------------------------------------------------------
-- The members
-- ---------------------------------------------------------------------------

theorem specCxSha256Update_appends (F : BlockFunction (Vector UInt32 8)) :
    Appends F false 64 block64_pos (specCxSha256Update F) :=
  fun _ _ h => if_neg (Nat.not_le.mpr h)

theorem specCxSha512Update_appends (F : BlockFunction (Vector UInt64 8)) :
    Appends F true 128 block128_pos (specCxSha512Update F) := fun _ _ _ => rfl

theorem specCxRipemd160Update_appends (F : BlockFunction (Vector UInt32 5)) :
    Appends F true 64 block64_pos (specCxRipemd160Update F) :=
  fun _ _ h => if_neg (Nat.not_le.mpr h)

/-- A block function that tells whether a block ends with `field`. -/
def markField (field : Bytes) : BlockFunction (Vector UInt32 8) where
  acc _ b := if b.drop (64 - field.length) = field then .replicate 8 1 else .replicate 8 0
  block _ b := b
  length_block _ _ := rfl

theorem absorb_markField (hrest : rest.length < 64) (hlen : field.length = mark.length)
    (hmark : mark.length ≤ 64) :
    absorb (markField mark).acc 64 s (rest ++ lengthPadding 64 rest.length field) =
      if field = mark then .replicate 8 1 else .replicate 8 0 := by
  have hlast := absorb_lengthPadding_last (s := s)
    (fun b : Bytes => if b = mark then (.replicate 8 1 : Vector UInt32 8) else .replicate 8 0)
    hrest (show field.length ≤ 64 from hlen ▸ hmark)
  rw [hlen] at hlast
  exact hlast

theorem wordsBE32_take_ne (hk : 4 ≤ k) :
    (wordsBE32 (.replicate 8 0 : Vector UInt32 8)).take k ≠
      (wordsBE32 (.replicate 8 1 : Vector UInt32 8)).take k := by
  intro heq
  have heq := congrArg (List.take 4) heq
  rw [List.take_take, List.take_take, Nat.min_eq_left hk] at heq
  exact absurd heq (by decide)

section

variable {pieces : List (Piece 108)} {algo : CxMd} {iv : Vector UInt32 8} {k : Nat}
  {final : BlockFunction (Vector UInt32 8) → Context (Vector UInt32 8) → Bytes}

/-- Without a limit the digest is the standard's exactly for less than 2^32 blocks. -/
theorem streamed_sha256_iff (hk : 4 ≤ k)
    (hfinal : ∀ F ctx, ctx.algo = algo →
      final F ctx = (wordsBE32 (finalAcc F 64 sha256Length ctx)).take k)
    (hlen : 8 * (message pieces).length < 2 ^ 64) :
    (∀ F, streamed ⟨algo, 0, 0, List.replicate 64 0, iv⟩ (specCxSha256Update F) (final F) pieces =
        .ok (Standard.digest ⟨64, iv, toBE 8,
          fun acc => (wordsBE32 acc).take k⟩ F.acc (message pieces))) ↔
      (message pieces).length / 64 < 2 ^ 32 := by
  constructor
  · intro h
    refine Nat.lt_of_not_le fun hge => ?_
    have hfield : toBE 8 (8 * ((message pieces).length / 64 % 2 ^ 32 * 64 + (message pieces).length % 64)) ≠
        toBE 8 (8 * (message pieces).length) := by
      intro heq
      have heq := toBE_injective_of_lt (by omega) (by omega) heq
      omega
    obtain ⟨ctx, hupdates, hctx, halgo⟩ := stream_holds algo iv
      (reads_self (markField (toBE 8 (8 * (message pieces).length))) 64) (Nat.le_refl _) (by decide)
      (specCxSha256Update_appends _)
      (show WithinLimit false ((message pieces).length / 64) from fun hlim => nomatch hlim)
    have hdigest := h (markField (toBE 8 (8 * (message pieces).length)))
    rw [streamed, hupdates] at hdigest
    have hdigest := Except.ok.inj hdigest
    have hmark (field : Bytes) (h8 : field.length = 8) := absorb_markField
      (s := absorb (markField (toBE 8 (8 * (message pieces).length))).acc 64 iv (message pieces))
      (show (leftover 64 (message pieces)).length < 64 by
        rw [length_leftover]
        exact Nat.mod_lt _ (by decide))
      (show field.length = (toBE 8 (8 * (message pieces).length)).length by rw [h8, length_toBE])
      (by rw [length_toBE]; decide)
    rw [hfinal _ ctx halgo, finalAcc_eq (show 8 ≤ 64 by decide) hctx, sha256_fieldOf hctx,
      hmark _ (length_toBE ..), if_neg hfield] at hdigest
    refine wordsBE32_take_ne hk (hdigest.trans (congrArg (fun acc => (wordsBE32 acc).take k) ?_))
    refine (absorb_lengthPadding (show 0 < 64 by decide) iv _ _).trans ?_
    exact (hmark _ (length_toBE ..)).trans (if_pos rfl)
  · intro h F
    refine streamed_eq ⟨64, iv, toBE 8, fun acc => (wordsBE32 acc).take k⟩
      (show 64 ≤ 108 by decide) (show 8 ≤ 64 by decide)
      (specCxSha256Update_appends F) (hfinal F) (fun hlim => nomatch hlim) fun ctx hctx => ?_
    rw [sha256_fieldOf hctx]
    show toBE 8 _ = toBE 8 _
    congr 1
    omega

end

theorem specCxSha256Final_sha224 (F : BlockFunction (Vector UInt32 8))
    (ctx : Context (Vector UInt32 8)) (h : ctx.algo = .sha224) :
    specCxSha256Final F ctx = (wordsBE32 (finalAcc F 64 sha256Length ctx)).take 28 := by
  rw [specCxSha256Final, h, wordsLE32_swap]
  rfl

theorem specCxSha256Final_sha256 (F : BlockFunction (Vector UInt32 8))
    (ctx : Context (Vector UInt32 8)) (h : ctx.algo = .sha256) :
    specCxSha256Final F ctx = (wordsBE32 (finalAcc F 64 sha256Length ctx)).take 32 := by
  rw [specCxSha256Final, h, wordsLE32_swap]
  rfl

theorem specCxSha512Final_sha384 (F : BlockFunction (Vector UInt64 8))
    (ctx : Context (Vector UInt64 8)) (h : ctx.algo = .sha384) :
    specCxSha512Final F ctx = (wordsBE64 (finalAcc F 128 sha512Length ctx)).take 48 := by
  rw [specCxSha512Final, h, wordsLE64_swap]
  rfl

theorem specCxSha512Final_sha512 (F : BlockFunction (Vector UInt64 8))
    (ctx : Context (Vector UInt64 8)) (h : ctx.algo = .sha512) :
    specCxSha512Final F ctx = (wordsBE64 (finalAcc F 128 sha512Length ctx)).take 64 := by
  rw [specCxSha512Final, h, wordsLE64_swap]
  rfl

section

variable {σ : Type} {F : BlockFunction σ} {sizeof : Nat} {std : Standard σ} {hn : 0 < std.n}
  {algo : CxMd} {format : LengthFormat} {update : Context σ → Bytes → Except Failure (Context σ)}
  {final : Context σ → Bytes} {pieces : List (Piece sizeof)}

variable (std) in
/-- With a limit the digest is the standard's up to the limit, and beyond it an update throws. -/
theorem streamed_limited (hsizeof : std.n ≤ sizeof) (hformat : format.size ≤ std.n)
    (happends : Appends F true std.n hn update)
    (hfinal : ∀ ctx : Context σ, ctx.algo = algo →
    final ctx = std.output (finalAcc F std.n format ctx)) (hfield :
      ∀ ctx, (message pieces).length / std.n ≤ 65535 →
      Holds F.acc std.n std.n std.iv ctx (message pieces) →
        format.fieldOf ctx = std.lengthField (8 * (message pieces).length)) :
    streamed ⟨algo, 0, 0, List.replicate std.n 0, std.iv⟩ update final pieces =
      if (message pieces).length / std.n ≤ 65535 then .ok (std.digest F.acc (message pieces))
      else .error .thrown := by
  by_cases hlimit : (message pieces).length / std.n ≤ 65535
  · rw [if_pos hlimit]
    exact streamed_eq std hsizeof hformat happends hfinal (fun _ => hlimit)
      (fun ctx => hfield ctx hlimit)
  · rw [if_neg hlimit, streamed, stream_thrown (reads_self F std.n) (Nat.le_refl _) hsizeof happends
      (Nat.not_le.mp hlimit)]
    rfl

end

theorem streamed_sha384 (F : BlockFunction (Vector UInt64 8)) (pieces : List (Piece 204)) :
    streamed cxSha384Init (specCxSha512Update F) (specCxSha512Final F) pieces =
      if (message pieces).length / 128 ≤ 65535 then .ok (sha384.digest F.acc (message pieces))
      else .error .thrown :=
  streamed_limited sha384 (by decide) (by decide) (specCxSha512Update_appends F)
    (specCxSha512Final_sha384 F) fun _ hlimit hctx => sha512_fieldOf hctx hlimit

theorem streamed_sha512 (F : BlockFunction (Vector UInt64 8)) (pieces : List (Piece 204)) :
    streamed cxSha512Init (specCxSha512Update F) (specCxSha512Final F) pieces =
      if (message pieces).length / 128 ≤ 65535 then .ok (sha512.digest F.acc (message pieces))
      else .error .thrown :=
  streamed_limited sha512 (by decide) (by decide) (specCxSha512Update_appends F)
    (specCxSha512Final_sha512 F) fun _ hlimit hctx => sha512_fieldOf hctx hlimit

theorem streamed_ripemd160 (F : BlockFunction (Vector UInt32 5)) (pieces : List (Piece 96)) :
    streamed cxRipemd160Init (specCxRipemd160Update F) (specCxRipemd160Final F) pieces =
      if (message pieces).length / 64 ≤ 65535 then .ok (ripemd160.digest F.acc (message pieces))
      else .error .thrown :=
  streamed_limited ripemd160 (by decide) (by decide) (specCxRipemd160Update_appends F)
    (fun _ _ => rfl) fun _ hlimit hctx => ripemd160_fieldOf hctx hlimit

end Speculos.Hash
