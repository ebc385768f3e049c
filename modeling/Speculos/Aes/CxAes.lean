import Mathlib.Logic.Equiv.Basic
import Speculos.Lib.BlockMemory

/-!
# AES in one call

The functions of `cx_aes.c`, over any block cipher. Buffers are in the memory of the
application; the running initialisation vector is local.
-/

namespace Speculos.Aes

open Lib

abbrev Block := Vector UInt8 16

/-- The functions of OpenSSL, where `κ` is an `AES_KEY`. -/
structure AesFunctions (κ : Type) where
  setEncryptKey : Bytes → κ
  setDecryptKey : Bytes → κ
  encrypt : κ → Block → Block
  decrypt : κ → Block → Block

structure CxAesKey where
  size : Nat
  keys : Bytes
  length_keys : keys.length = 32

def CxAesKey.IsValid (key : CxAesKey) : Prop := key.size = 16 ∨ key.size = 24 ∨ key.size = 32

/-- Block decryption is the inverse of block encryption, for keys of all three sizes. -/
def AesFunctions.Inverts (aes : AesFunctions κ) : Prop :=
  ∀ (key : Bytes) (b : Block), key.length = 16 ∨ key.length = 24 ∨ key.length = 32 →
    aes.decrypt (aes.setDecryptKey key) (aes.encrypt (aes.setEncryptKey key) b) = b

def Block.xor (a b : Block) : Block := Vector.zipWith (· ^^^ ·) a b

def cxLast : UInt32 := 1

def cxMaskSigcrypt : UInt32 := (3 : UInt32) <<< 1

def cxEncrypt : UInt32 := (2 : UInt32) <<< 1

def cxDecrypt : UInt32 := (0 : UInt32) <<< 1

def cxPadNone : UInt32 := (0 : UInt32) <<< 3

def cxMaskChain : UInt32 := (7 : UInt32) <<< 6

def cxChainEcb : UInt32 := (0 : UInt32) <<< 6

def cxChainCbc : UInt32 := (1 : UInt32) <<< 6

section

variable {κ : Type} (aes : AesFunctions κ) (key : CxAesKey)

def aesEncryptBlock (inblock : Block) : Block :=
  aes.encrypt (aes.setEncryptKey (key.keys.take key.size)) inblock

def aesDecryptBlock (inblock : Block) : Block :=
  aes.decrypt (aes.setDecryptKey (key.keys.take key.size)) inblock

/-- The loop of `aes_cbc_encrypt` over the blocks that are left. -/
def aesCbcEncryptLoop : Nat → Region → Nat → Nat → Block → Region
  | 0, m, _, _, _ => m
  | n + 1, m, input, output, iv =>
    let block := Block.xor (m.block 16 input) iv
    let m := m.storeBlock output (aesEncryptBlock aes key block)
    let iv := m.block 16 output
    aesCbcEncryptLoop n m (input + 16) (output + 16) iv

/-- The loop of `aes_cbc_decrypt`, where the block is kept before it can be written over. -/
def aesCbcDecryptLoop : Nat → Region → Nat → Nat → Block → Region
  | 0, m, _, _, _ => m
  | n + 1, m, input, output, iv =>
    let block := m.block 16 input
    let m := m.storeBlock output (aesDecryptBlock aes key (m.block 16 input))
    let m := m.storeBlock output (Block.xor (m.block 16 output) iv)
    let iv := block
    aesCbcDecryptLoop n m (input + 16) (output + 16) iv

def aesEcbLoop (f : Block → Block) : Nat → Region → Nat → Nat → Region
  | 0, m, _, _ => m
  | n + 1, m, input, output =>
    aesEcbLoop f n (m.storeBlock output (f (m.block 16 input))) (input + 16) (output + 16)

/-- `sys_cx_aes_iv`: what it returns and the memory. There is no result where the process
ends. -/
def sysCxAesIv (m : Region) (mode : UInt32) (IV : Option Block) (ivLen input len out outLen : Nat) :
    Option (Nat × Region) :=
  if len % 16 ≠ 0 ∨ outLen < len then none
  else if IV.isSome ∧ ivLen ≠ 16 then none
  else if mode &&& (cxLast ||| cxPadNone) = 0 then none
  else
    let umode := mode &&& ~~~(cxLast ||| cxPadNone)
    if umode &&& ~~~(cxEncrypt ||| cxDecrypt ||| cxChainCbc ||| cxChainEcb) ≠ 0 then none
    else if umode &&& cxMaskChain = cxChainCbc then
      let runningIv := IV.getD (Vector.replicate 16 0)
      if umode &&& cxMaskSigcrypt = cxEncrypt then
        some (len, aesCbcEncryptLoop aes key (len / 16) m input out runningIv)
      else if umode &&& cxMaskSigcrypt = cxDecrypt then
        some (len, aesCbcDecryptLoop aes key (len / 16) m input out runningIv)
      else none
    else if umode &&& cxMaskChain = cxChainEcb then
      if umode &&& cxMaskSigcrypt = cxEncrypt then
        some (len, aesEcbLoop (aesEncryptBlock aes key) (len / 16) m input out)
      else if umode &&& cxMaskSigcrypt = cxDecrypt then
        some (len, aesEcbLoop (aesDecryptBlock aes key) (len / 16) m input out)
      else none
    else none

end

-- ---------------------------------------------------------------------------
-- The chain
-- ---------------------------------------------------------------------------

section

variable {κ : Type} {aes : AesFunctions κ} {key : CxAesKey}

theorem Block.xor_xor (a b : Block) : Block.xor (Block.xor a b) b = a := by
  refine Vector.ext fun i hi => ?_
  simp only [Block.xor, Vector.getElem_zipWith, UInt8.xor_assoc, UInt8.xor_self, UInt8.xor_zero]

theorem aesDecryptBlock_aesEncryptBlock (h : aes.Inverts) (hkey : key.IsValid) (b : Block) :
    aesDecryptBlock aes key (aesEncryptBlock aes key b) = b := by
  refine h _ b ?_
  rw [List.length_take, key.length_keys]
  rcases hkey with hsize | hsize | hsize
  · exact .inl (by rw [hsize]; rfl)
  · exact .inr (.inl (by rw [hsize]; rfl))
  · exact .inr (.inr (by rw [hsize]; rfl))

theorem aesCbcEncryptLoop_eq (n : Nat) (m : Region) (input output : Nat) (iv : Block) :
    aesCbcEncryptLoop aes key n m input output iv =
      m.transform (cbcEncryptStep Block.xor (aesEncryptBlock aes key)) n input output iv := by
  induction n generalizing m input output iv with
  | zero => rfl
  | succ n ih =>
    rw [aesCbcEncryptLoop, ih, Region.block_storeBlock_self]
    rfl

theorem aesCbcDecryptLoop_eq (n : Nat) (m : Region) (input output : Nat) (iv : Block) :
    (aesCbcDecryptLoop aes key n m input output iv).cell =
      (m.transform (cbcDecryptStep Block.xor (aesDecryptBlock aes key)) n input output iv).cell := by
  induction n generalizing m input output iv with
  | zero => rfl
  | succ n ih =>
    rw [aesCbcDecryptLoop, ih, Region.block_storeBlock_self]
    exact Region.cell_transform_congr (Region.cell_storeBlock_storeBlock ..) _ _ _ _

theorem slice_aesCbcDecryptLoop (haes : aes.Inverts) (hkey : key.IsValid) (m : Region)
    (hfirst : SameOrApart input output (n * 16)) (hsecond : SameOrApart output output' (n * 16))
    (iv : Block) :
    (aesCbcDecryptLoop aes key n (aesCbcEncryptLoop aes key n m input output iv) output output'
      iv).slice output' (n * 16) = m.slice input (n * 16) := by
  rw [Region.slice_congr (aesCbcDecryptLoop_eq ..), aesCbcEncryptLoop_eq, Region.slice_blocks,
    Region.blocks_transform _ _ _ _ _ hsecond, Region.blocks_transform _ _ _ _ _ hfirst,
    mapAccum_cbcDecryptStep Block.xor_xor (aesDecryptBlock_aesEncryptBlock haes hkey),
    Region.slice_blocks]

/-- The mode of an encryption or a decryption with chaining. -/
def cbcMode (sigcrypt : UInt32) : UInt32 := cxLast ||| cxPadNone ||| cxChainCbc ||| sigcrypt

theorem sysCxAesIv_encrypt (m : Region) (IV : Option Block) (hlen : len % 16 = 0)
    (hout : len ≤ outLen) :
    sysCxAesIv aes key m (cbcMode cxEncrypt) IV 16 input len output outLen =
      some (len, aesCbcEncryptLoop aes key (len / 16) m input output
        (IV.getD (Vector.replicate 16 0))) := by
  rw [sysCxAesIv, if_neg (by omega), if_neg (by simp)]
  rfl

theorem sysCxAesIv_decrypt (m : Region) (IV : Option Block) (hlen : len % 16 = 0)
    (hout : len ≤ outLen) :
    sysCxAesIv aes key m (cbcMode cxDecrypt) IV 16 input len output outLen =
      some (len, aesCbcDecryptLoop aes key (len / 16) m input output
        (IV.getD (Vector.replicate 16 0))) := by
  rw [sysCxAesIv, if_neg (by omega), if_neg (by simp)]
  rfl

end

end Speculos.Aes

/-!
## AES block by block

The functions of `cx_aes_sdk2.c`. The key, the operation and the last block are global, and
with `hdw_cbc` the first block after a key is the initialisation vector.
-/

namespace Speculos.Aes

open Lib

/-- The global variables. -/
structure Local (κ : Type) where
  aesKey : κ
  ready : Bool
  op : UInt32
  chainMode : UInt32
  hdwCbc : Bool
  setAesIv : Bool
  currentBlock : Block

inductive CxErr
  | ok
  | internalError
  | invalidParameter
  deriving DecidableEq, Repr

def cxSign : UInt32 := (1 : UInt32) <<< 1 ||| cxEncrypt

def cxVerify : UInt32 := (1 : UInt32) <<< 1 ||| cxDecrypt

section

variable {κ : Type} (aes : AesFunctions κ)

def sysCxAesSetKeyHw (s : Local κ) (key : CxAesKey) (mode : UInt32) : CxErr × Local κ :=
  let op := mode &&& cxMaskSigcrypt
  let ready (aesKey : κ) : CxErr × Local κ :=
    (.ok, { s with
      aesKey
      op
      chainMode := mode &&& cxMaskChain
      setAesIv := s.hdwCbc
      ready := true })
  if op = cxEncrypt ∨ op = cxSign ∨ op = cxVerify then
    ready (aes.setEncryptKey (key.keys.take key.size))
  else if op = cxDecrypt then ready (aes.setDecryptKey (key.keys.take key.size))
  else (.invalidParameter, { s with ready := false })

def cxAesBlockHwCbc (s : Local κ) (m : Region) (inblock outblock : Nat) : Local κ × Region :=
  if s.op = cxDecrypt then
    let inblockPrevValue := m.block 16 inblock
    let m := m.storeBlock outblock (aes.decrypt s.aesKey (m.block 16 inblock))
    let m := m.storeBlock outblock (Block.xor (m.block 16 outblock) s.currentBlock)
    ({ s with currentBlock := inblockPrevValue }, m)
  else
    let currentBlock := Block.xor s.currentBlock (m.block 16 inblock)
    let m := m.storeBlock outblock (aes.encrypt s.aesKey currentBlock)
    ({ s with currentBlock := m.block 16 outblock }, m)

def sysCxAesBlockHw (s : Local κ) (m : Region) (inblock outblock : Nat) :
    CxErr × Local κ × Region :=
  if !s.ready then (.internalError, s, m)
  else if s.setAesIv ∧ s.chainMode = cxChainCbc then
    (.ok, { s with currentBlock := m.block 16 inblock, setAesIv := false }, m)
  else if s.hdwCbc ∧ s.chainMode = cxChainCbc then (.ok, cxAesBlockHwCbc aes s m inblock outblock)
  else if s.op = cxDecrypt then
    (.ok, s, m.storeBlock outblock (aes.decrypt s.aesKey (m.block 16 inblock)))
  else (.ok, s, m.storeBlock outblock (aes.encrypt s.aesKey (m.block 16 inblock)))

/-- A call for each block, which all have to succeed. -/
def blocksHw : Nat → Local κ → Region → Nat → Nat → Option (Local κ × Region)
  | 0, s, m, _, _ => some (s, m)
  | n + 1, s, m, input, output =>
    let (err, s, m) := sysCxAesBlockHw aes s m input output
    if err = .ok then blocksHw n s m (input + 16) (output + 16) else none

/-- The key is set, and a call for the initialisation vector and for each block follows. -/
def cbcHw (s : Local κ) (m : Region) (key : CxAesKey) (mode : UInt32) (IV input output n : Nat) :
    Option (Local κ × Region) :=
  let (err, s) := sysCxAesSetKeyHw aes s key mode
  if err = .ok then
    let (err, s, m) := sysCxAesBlockHw aes s m IV output
    if err = .ok then blocksHw aes n s m input output else none
  else none

end

-- ---------------------------------------------------------------------------
-- The chain
-- ---------------------------------------------------------------------------

section

variable {κ : Type} {aes : AesFunctions κ} {key : CxAesKey} {s : Local κ}

/-- The state between two blocks of a chain with the last block `iv`. -/
structure Chained (s : Local κ) (op : UInt32) (aesKey : κ) (iv : Block) : Prop where
  ready : s.ready = true
  op : s.op = op
  aesKey : s.aesKey = aesKey
  chainMode : s.chainMode = cxChainCbc
  hdwCbc : s.hdwCbc = true
  setAesIv : s.setAesIv = false
  currentBlock : s.currentBlock = iv

theorem Block.xor_comm (a b : Block) : Block.xor a b = Block.xor b a := by
  ext i hi
  simp [Block.xor, UInt8.xor_comm]

theorem sysCxAesBlockHw_chained (hs : Chained s op aesKey iv) (m : Region) (input output : Nat) :
    sysCxAesBlockHw aes s m input output = (.ok, cxAesBlockHwCbc aes s m input output) := by
  simp [sysCxAesBlockHw, hs.ready, hs.setAesIv, hs.hdwCbc, hs.chainMode]

theorem cxAesBlockHwCbc_encrypt (hop : op ≠ cxDecrypt)
    (hs : Chained s op (aes.setEncryptKey (key.keys.take key.size)) iv) (m : Region)
    (input output : Nat) :
    ∃ s', cxAesBlockHwCbc aes s m input output =
        (s', m.storeBlock output (aesEncryptBlock aes key (Block.xor (m.block 16 input) iv))) ∧
      Chained s' op (aes.setEncryptKey (key.keys.take key.size))
        ((m.storeBlock output (aesEncryptBlock aes key (Block.xor (m.block 16 input) iv))).block 16
          output) := by
  rw [cxAesBlockHwCbc, if_neg (hs.op ▸ hop), hs.currentBlock, hs.aesKey, Block.xor_comm]
  exact ⟨_, rfl, hs.ready, hs.op, rfl, hs.chainMode, hs.hdwCbc, hs.setAesIv, rfl⟩

theorem cxAesBlockHwCbc_decrypt
    (hs : Chained s cxDecrypt (aes.setDecryptKey (key.keys.take key.size)) iv) (m : Region)
    (input output : Nat) :
    ∃ s', cxAesBlockHwCbc aes s m input output =
        (s', (m.storeBlock output (aesDecryptBlock aes key (m.block 16 input))).storeBlock output
          (Block.xor ((m.storeBlock output (aesDecryptBlock aes key (m.block 16 input))).block 16
            output) iv)) ∧
      Chained s' cxDecrypt (aes.setDecryptKey (key.keys.take key.size)) (m.block 16 input) := by
  rw [cxAesBlockHwCbc, if_pos hs.op, hs.currentBlock, hs.aesKey]
  exact ⟨_, rfl, hs.ready, hs.op, rfl, hs.chainMode, hs.hdwCbc, hs.setAesIv, rfl⟩

theorem blocksHw_step (hs : Chained s op aesKey iv)
    (hstep : cxAesBlockHwCbc aes s m input output = (s', m')) (n : Nat) :
    blocksHw aes (n + 1) s m input output = blocksHw aes n s' m' (input + 16) (output + 16) := by
  rw [blocksHw, sysCxAesBlockHw_chained hs, hstep]
  rfl

theorem blocksHw_encrypt (hop : op ≠ cxDecrypt)
    (hs : Chained s op (aes.setEncryptKey (key.keys.take key.size)) iv) (n : Nat) (m : Region)
    (input output : Nat) :
    ∃ s', blocksHw aes n s m input output =
      some (s', aesCbcEncryptLoop aes key n m input output iv) := by
  induction n generalizing s m input output iv with
  | zero => exact ⟨s, rfl⟩
  | succ n ih =>
    obtain ⟨s', hstep, hs'⟩ := cxAesBlockHwCbc_encrypt hop hs m input output
    rw [blocksHw_step hs hstep, aesCbcEncryptLoop]
    exact ih hs' _ _ _

theorem blocksHw_decrypt (hs : Chained s cxDecrypt (aes.setDecryptKey (key.keys.take key.size)) iv)
    (n : Nat) (m : Region) (input output : Nat) :
    ∃ s', blocksHw aes n s m input output =
      some (s', aesCbcDecryptLoop aes key n m input output iv) := by
  induction n generalizing s m input output iv with
  | zero => exact ⟨s, rfl⟩
  | succ n ih =>
    obtain ⟨s', hstep, hs'⟩ := cxAesBlockHwCbc_decrypt hs m input output
    rw [blocksHw_step hs hstep, aesCbcDecryptLoop]
    exact ih hs' _ _ _

/-- Setting a key forgets the chain before it, and the first block is taken as the vector. -/
theorem cbcHw_eq (aes : AesFunctions κ) (key : CxAesKey) (hhdw : s.hdwCbc = true)
    (hchain : mode &&& cxMaskChain = cxChainCbc)
    (hset : sysCxAesSetKeyHw aes s key mode = (.ok, { s with
      aesKey := aesKey
      op := op
      chainMode := mode &&& cxMaskChain
      setAesIv := s.hdwCbc
      ready := true })) (m : Region) (IV input output n : Nat) :
    ∃ s', Chained s' op aesKey (m.block 16 IV) ∧
      cbcHw aes s m key mode IV input output n = blocksHw aes n s' m input output := by
  refine ⟨⟨aesKey, true, op, mode &&& cxMaskChain, s.hdwCbc, false, m.block 16 IV⟩,
    ⟨rfl, rfl, rfl, hchain, hhdw, rfl, rfl⟩, ?_⟩
  simp [cbcHw, hset, sysCxAesBlockHw, hhdw, hchain]

/-- Both implementations write the same blocks, from whatever state the one of the hardware
starts. -/
theorem cbcHw_encrypt (hhdw : s.hdwCbc = true) (hchain : mode &&& cxMaskChain = cxChainCbc)
    (hop : mode &&& cxMaskSigcrypt ∈ [cxEncrypt, cxSign, cxVerify]) (m : Region)
    (IV input output n : Nat) :
    ∃ s', cbcHw aes s m key mode IV input output n =
      some (s', aesCbcEncryptLoop aes key n m input output (m.block 16 IV)) := by
  simp only [List.mem_cons, List.not_mem_nil, or_false] at hop
  have hne : mode &&& cxMaskSigcrypt ≠ cxDecrypt := by
    rcases hop with h | h | h <;> rw [h] <;> decide
  obtain ⟨s', hs', hrun⟩ := cbcHw_eq aes key hhdw hchain (if_pos hop) m IV input output n
  rw [hrun]
  exact blocksHw_encrypt hne hs' n m input output

theorem cbcHw_decrypt (hhdw : s.hdwCbc = true) (hchain : mode &&& cxMaskChain = cxChainCbc)
    (hop : mode &&& cxMaskSigcrypt = cxDecrypt) (m : Region) (IV input output n : Nat) :
    ∃ s', cbcHw aes s m key mode IV input output n =
      some (s', aesCbcDecryptLoop aes key n m input output (m.block 16 IV)) := by
  have hne : ¬ (mode &&& cxMaskSigcrypt = cxEncrypt ∨ mode &&& cxMaskSigcrypt = cxSign ∨
      mode &&& cxMaskSigcrypt = cxVerify) := by
    rw [hop]
    decide
  obtain ⟨s', hs', hrun⟩ := cbcHw_eq aes key hhdw hchain ((if_neg hne).trans (if_pos hop))
    m IV input output n
  rw [hop] at hs'
  rw [hrun]
  exact blocksHw_decrypt hs' n m input output

/-- Decryption undoes encryption, and block by block the hardware writes what one call does:
there is a memory `m₁` that both encryptions give, and a memory that both decryptions give. -/
theorem aes_cbc (aes : AesFunctions κ) (key : CxAesKey) (haes : aes.Inverts) (hkey : key.IsValid)
    (m : Region) (IV : Option Block) (hlen : len % 16 = 0) (hout : len ≤ outLen)
    (hbuf : SameOrApart input output len) :
    (∃ m₁, sysCxAesIv aes key m (cbcMode cxEncrypt) IV 16 input len output outLen = some (len, m₁) ∧
      ∀ output', SameOrApart output output' len →
        ∃ m₂, sysCxAesIv aes key m₁ (cbcMode cxDecrypt) IV 16 output len output' outLen =
            some (len, m₂) ∧ m₂.slice output' len = m.slice input len) ∧
    ∀ (s : Local κ) (mode : UInt32) (ivBlock : Nat), s.hdwCbc = true →
      mode &&& cxMaskChain = cxChainCbc → m.block 16 ivBlock = IV.getD (Vector.replicate 16 0) →
      (mode &&& cxMaskSigcrypt ∈ [cxEncrypt, cxSign, cxVerify] → ∃ s' m₁,
        cbcHw aes s m key mode ivBlock input output (len / 16) = some (s', m₁) ∧
          sysCxAesIv aes key m (cbcMode cxEncrypt) IV 16 input len output outLen = some (len, m₁)) ∧
      (mode &&& cxMaskSigcrypt = cxDecrypt → ∃ s' m₁,
        cbcHw aes s m key mode ivBlock input output (len / 16) = some (s', m₁) ∧
          sysCxAesIv aes key m (cbcMode cxDecrypt) IV 16 input len output outLen =
            some (len, m₁)) := by
  have hblocks : len = len / 16 * 16 := (Nat.div_mul_cancel (Nat.dvd_of_mod_eq_zero hlen)).symm
  refine ⟨⟨_, sysCxAesIv_encrypt m IV hlen hout, fun output' hbuf' =>
    ⟨_, sysCxAesIv_decrypt _ IV hlen hout, ?_⟩⟩, fun s mode ivBlock hhdw hchain hiv =>
      ⟨fun hop => ?_, fun hop => ?_⟩⟩
  · rw [hblocks] at hbuf hbuf'
    have hundone := slice_aesCbcDecryptLoop haes hkey m hbuf hbuf' (IV.getD (Vector.replicate 16 0))
    rwa [← hblocks] at hundone
  · obtain ⟨s', hrun⟩ := cbcHw_encrypt hhdw hchain hop m ivBlock input output (len / 16)
    exact ⟨s', _, hrun, hiv ▸ sysCxAesIv_encrypt m IV hlen hout⟩
  · obtain ⟨s', hrun⟩ := cbcHw_decrypt hhdw hchain hop m ivBlock input output (len / 16)
    exact ⟨s', _, hrun, hiv ▸ sysCxAesIv_decrypt m IV hlen hout⟩

end

-- ---------------------------------------------------------------------------
-- A test vector
-- ---------------------------------------------------------------------------

def plaintext : Block :=
  #v[0x00, 0x11, 0x22, 0x33, 0x44, 0x55, 0x66, 0x77, 0x88, 0x99, 0xaa, 0xbb, 0xcc, 0xdd, 0xee, 0xff]

def ciphertext : Block :=
  #v[0x69, 0xc4, 0xe0, 0xd8, 0x6a, 0x7b, 0x04, 0x30, 0xd8, 0xcd, 0xb7, 0x80, 0x70, 0xb4, 0xc5, 0x5a]

def exampleKey : CxAesKey where
  size := 16
  keys :=
    [0x00, 0x01, 0x02, 0x03, 0x04, 0x05, 0x06, 0x07, 0x08, 0x09, 0x0a, 0x0b, 0x0c, 0x0d, 0x0e,
      0x0f] ++
      List.replicate 16 0
  length_keys := rfl

/-- Functions that map the two blocks of the example to each other. -/
def exampleAes : AesFunctions Bytes where
  setEncryptKey key := key
  setDecryptKey key := key
  encrypt _ := Equiv.swap plaintext ciphertext
  decrypt _ := Equiv.swap plaintext ciphertext

/-- Two blocks, and the initialisation vector behind them. -/
def exampleMemory : Region :=
  ((Region.zeroed.storeBlock 0 plaintext).storeBlock 16 ciphertext).storeBlock 64 plaintext

def exampleLocal : Local Bytes where
  aesKey := []
  ready := false
  op := 0
  chainMode := 0
  hdwCbc := true
  setAesIv := false
  currentBlock := plaintext

theorem aes_cbc_example :
    ∃ m₁, sysCxAesIv exampleAes exampleKey exampleMemory (cbcMode cxEncrypt) (some plaintext)
        16 0 32 0 32 = some (32, m₁) ∧
      (∃ s', cbcHw exampleAes exampleLocal exampleMemory exampleKey (cbcMode cxEncrypt) 64 0 0 2 =
        some (s', m₁)) ∧
      ∃ m₂, sysCxAesIv exampleAes exampleKey m₁ (cbcMode cxDecrypt) (some plaintext)
          16 0 32 0 32 = some (32, m₂) ∧
        m₂.slice 0 32 = exampleMemory.slice 0 32 := by
  obtain ⟨⟨m₁, hencrypt, hundone⟩, hhardware⟩ := aes_cbc exampleAes exampleKey
    (fun _ b _ => Equiv.congr_fun (Equiv.swap_swap plaintext ciphertext) b) (.inl rfl)
    exampleMemory (some plaintext) (show 32 % 16 = 0 from rfl) (Nat.le_refl 32) (.inl (Eq.refl 0))
  obtain ⟨s', m₁', hblocks, hencrypt'⟩ := (hhardware exampleLocal (cbcMode cxEncrypt) 64 rfl
    (by decide) (Region.block_storeBlock_self _ _ _)).1 (by decide)
  obtain rfl : m₁ = m₁' := (Prod.mk.inj (Option.some.inj (hencrypt.symm.trans hencrypt'))).2
  exact ⟨m₁, hencrypt, ⟨s', hblocks⟩, hundone 0 (.inl rfl)⟩

end Speculos.Aes
