import Speculos.Lib.Crc

/-!
# Checksums

The checksums of `cx_crc.c`, a byte at a time from a table. The first register is shifted
towards its highest bit, the second one is reflected.
-/

namespace Speculos.Crc

open Lib

def cxCcitt16 : Array UInt16 := #[
  0x0000, 0x1021, 0x2042, 0x3063, 0x4084, 0x50a5, 0x60c6, 0x70e7, 0x8108, 0x9129, 0xa14a,
  0xb16b, 0xc18c, 0xd1ad, 0xe1ce, 0xf1ef, 0x1231, 0x0210, 0x3273, 0x2252, 0x52b5, 0x4294,
  0x72f7, 0x62d6, 0x9339, 0x8318, 0xb37b, 0xa35a, 0xd3bd, 0xc39c, 0xf3ff, 0xe3de, 0x2462,
  0x3443, 0x0420, 0x1401, 0x64e6, 0x74c7, 0x44a4, 0x5485, 0xa56a, 0xb54b, 0x8528, 0x9509,
  0xe5ee, 0xf5cf, 0xc5ac, 0xd58d, 0x3653, 0x2672, 0x1611, 0x0630, 0x76d7, 0x66f6, 0x5695,
  0x46b4, 0xb75b, 0xa77a, 0x9719, 0x8738, 0xf7df, 0xe7fe, 0xd79d, 0xc7bc, 0x48c4, 0x58e5,
  0x6886, 0x78a7, 0x0840, 0x1861, 0x2802, 0x3823, 0xc9cc, 0xd9ed, 0xe98e, 0xf9af, 0x8948,
  0x9969, 0xa90a, 0xb92b, 0x5af5, 0x4ad4, 0x7ab7, 0x6a96, 0x1a71, 0x0a50, 0x3a33, 0x2a12,
  0xdbfd, 0xcbdc, 0xfbbf, 0xeb9e, 0x9b79, 0x8b58, 0xbb3b, 0xab1a, 0x6ca6, 0x7c87, 0x4ce4,
  0x5cc5, 0x2c22, 0x3c03, 0x0c60, 0x1c41, 0xedae, 0xfd8f, 0xcdec, 0xddcd, 0xad2a, 0xbd0b,
  0x8d68, 0x9d49, 0x7e97, 0x6eb6, 0x5ed5, 0x4ef4, 0x3e13, 0x2e32, 0x1e51, 0x0e70, 0xff9f,
  0xefbe, 0xdfdd, 0xcffc, 0xbf1b, 0xaf3a, 0x9f59, 0x8f78, 0x9188, 0x81a9, 0xb1ca, 0xa1eb,
  0xd10c, 0xc12d, 0xf14e, 0xe16f, 0x1080, 0x00a1, 0x30c2, 0x20e3, 0x5004, 0x4025, 0x7046,
  0x6067, 0x83b9, 0x9398, 0xa3fb, 0xb3da, 0xc33d, 0xd31c, 0xe37f, 0xf35e, 0x02b1, 0x1290,
  0x22f3, 0x32d2, 0x4235, 0x5214, 0x6277, 0x7256, 0xb5ea, 0xa5cb, 0x95a8, 0x8589, 0xf56e,
  0xe54f, 0xd52c, 0xc50d, 0x34e2, 0x24c3, 0x14a0, 0x0481, 0x7466, 0x6447, 0x5424, 0x4405,
  0xa7db, 0xb7fa, 0x8799, 0x97b8, 0xe75f, 0xf77e, 0xc71d, 0xd73c, 0x26d3, 0x36f2, 0x0691,
  0x16b0, 0x6657, 0x7676, 0x4615, 0x5634, 0xd94c, 0xc96d, 0xf90e, 0xe92f, 0x99c8, 0x89e9,
  0xb98a, 0xa9ab, 0x5844, 0x4865, 0x7806, 0x6827, 0x18c0, 0x08e1, 0x3882, 0x28a3, 0xcb7d,
  0xdb5c, 0xeb3f, 0xfb1e, 0x8bf9, 0x9bd8, 0xabbb, 0xbb9a, 0x4a75, 0x5a54, 0x6a37, 0x7a16,
  0x0af1, 0x1ad0, 0x2ab3, 0x3a92, 0xfd2e, 0xed0f, 0xdd6c, 0xcd4d, 0xbdaa, 0xad8b, 0x9de8,
  0x8dc9, 0x7c26, 0x6c07, 0x5c64, 0x4c45, 0x3ca2, 0x2c83, 0x1ce0, 0x0cc1, 0xef1f, 0xff3e,
  0xcf5d, 0xdf7c, 0xaf9b, 0xbfba, 0x8fd9, 0x9ff8, 0x6e17, 0x7e36, 0x4e55, 0x5e74, 0x2e93,
  0x3eb2, 0x0ed1, 0x1ef0]

def sysCxCrc16Update (crc : UInt16) (buf : Bytes) : UInt16 :=
  buf.foldl (fun crc b =>
    cxCcitt16.getD (b.toUInt16 ^^^ (crc >>> 8)).toNat 0 ^^^ (crc <<< 8)) crc

def cxCcitt32 : Array UInt32 := #[
  0x00000000, 0x77073096, 0xee0e612c, 0x990951ba, 0x076dc419, 0x706af48f, 0xe963a535,
  0x9e6495a3, 0x0edb8832, 0x79dcb8a4, 0xe0d5e91e, 0x97d2d988, 0x09b64c2b, 0x7eb17cbd,
  0xe7b82d07, 0x90bf1d91, 0x1db71064, 0x6ab020f2, 0xf3b97148, 0x84be41de, 0x1adad47d,
  0x6ddde4eb, 0xf4d4b551, 0x83d385c7, 0x136c9856, 0x646ba8c0, 0xfd62f97a, 0x8a65c9ec,
  0x14015c4f, 0x63066cd9, 0xfa0f3d63, 0x8d080df5, 0x3b6e20c8, 0x4c69105e, 0xd56041e4,
  0xa2677172, 0x3c03e4d1, 0x4b04d447, 0xd20d85fd, 0xa50ab56b, 0x35b5a8fa, 0x42b2986c,
  0xdbbbc9d6, 0xacbcf940, 0x32d86ce3, 0x45df5c75, 0xdcd60dcf, 0xabd13d59, 0x26d930ac,
  0x51de003a, 0xc8d75180, 0xbfd06116, 0x21b4f4b5, 0x56b3c423, 0xcfba9599, 0xb8bda50f,
  0x2802b89e, 0x5f058808, 0xc60cd9b2, 0xb10be924, 0x2f6f7c87, 0x58684c11, 0xc1611dab,
  0xb6662d3d, 0x76dc4190, 0x01db7106, 0x98d220bc, 0xefd5102a, 0x71b18589, 0x06b6b51f,
  0x9fbfe4a5, 0xe8b8d433, 0x7807c9a2, 0x0f00f934, 0x9609a88e, 0xe10e9818, 0x7f6a0dbb,
  0x086d3d2d, 0x91646c97, 0xe6635c01, 0x6b6b51f4, 0x1c6c6162, 0x856530d8, 0xf262004e,
  0x6c0695ed, 0x1b01a57b, 0x8208f4c1, 0xf50fc457, 0x65b0d9c6, 0x12b7e950, 0x8bbeb8ea,
  0xfcb9887c, 0x62dd1ddf, 0x15da2d49, 0x8cd37cf3, 0xfbd44c65, 0x4db26158, 0x3ab551ce,
  0xa3bc0074, 0xd4bb30e2, 0x4adfa541, 0x3dd895d7, 0xa4d1c46d, 0xd3d6f4fb, 0x4369e96a,
  0x346ed9fc, 0xad678846, 0xda60b8d0, 0x44042d73, 0x33031de5, 0xaa0a4c5f, 0xdd0d7cc9,
  0x5005713c, 0x270241aa, 0xbe0b1010, 0xc90c2086, 0x5768b525, 0x206f85b3, 0xb966d409,
  0xce61e49f, 0x5edef90e, 0x29d9c998, 0xb0d09822, 0xc7d7a8b4, 0x59b33d17, 0x2eb40d81,
  0xb7bd5c3b, 0xc0ba6cad, 0xedb88320, 0x9abfb3b6, 0x03b6e20c, 0x74b1d29a, 0xead54739,
  0x9dd277af, 0x04db2615, 0x73dc1683, 0xe3630b12, 0x94643b84, 0x0d6d6a3e, 0x7a6a5aa8,
  0xe40ecf0b, 0x9309ff9d, 0x0a00ae27, 0x7d079eb1, 0xf00f9344, 0x8708a3d2, 0x1e01f268,
  0x6906c2fe, 0xf762575d, 0x806567cb, 0x196c3671, 0x6e6b06e7, 0xfed41b76, 0x89d32be0,
  0x10da7a5a, 0x67dd4acc, 0xf9b9df6f, 0x8ebeeff9, 0x17b7be43, 0x60b08ed5, 0xd6d6a3e8,
  0xa1d1937e, 0x38d8c2c4, 0x4fdff252, 0xd1bb67f1, 0xa6bc5767, 0x3fb506dd, 0x48b2364b,
  0xd80d2bda, 0xaf0a1b4c, 0x36034af6, 0x41047a60, 0xdf60efc3, 0xa867df55, 0x316e8eef,
  0x4669be79, 0xcb61b38c, 0xbc66831a, 0x256fd2a0, 0x5268e236, 0xcc0c7795, 0xbb0b4703,
  0x220216b9, 0x5505262f, 0xc5ba3bbe, 0xb2bd0b28, 0x2bb45a92, 0x5cb36a04, 0xc2d7ffa7,
  0xb5d0cf31, 0x2cd99e8b, 0x5bdeae1d, 0x9b64c2b0, 0xec63f226, 0x756aa39c, 0x026d930a,
  0x9c0906a9, 0xeb0e363f, 0x72076785, 0x05005713, 0x95bf4a82, 0xe2b87a14, 0x7bb12bae,
  0x0cb61b38, 0x92d28e9b, 0xe5d5be0d, 0x7cdcefb7, 0x0bdbdf21, 0x86d3d2d4, 0xf1d4e242,
  0x68ddb3f8, 0x1fda836e, 0x81be16cd, 0xf6b9265b, 0x6fb077e1, 0x18b74777, 0x88085ae6,
  0xff0f6a70, 0x66063bca, 0x11010b5c, 0x8f659eff, 0xf862ae69, 0x616bffd3, 0x166ccf45,
  0xa00ae278, 0xd70dd2ee, 0x4e048354, 0x3903b3c2, 0xa7672661, 0xd06016f7, 0x4969474d,
  0x3e6e77db, 0xaed16a4a, 0xd9d65adc, 0x40df0b66, 0x37d83bf0, 0xa9bcae53, 0xdebb9ec5,
  0x47b2cf7f, 0x30b5ffe9, 0xbdbdf21c, 0xcabac28a, 0x53b39330, 0x24b4a3a6, 0xbad03605,
  0xcdd70693, 0x54de5729, 0x23d967bf, 0xb3667a2e, 0xc4614ab8, 0x5d681b02, 0x2a6f2b94,
  0xb40bbe37, 0xc30c8ea1, 0x5a05df1b, 0x2d02ef8d]

def cxCrc32Init : UInt32 := 0xFFFFFFFF

/-- The loop of `sys_cx_crc32_update`. -/
def crc32Loop (crc : UInt32) (buf : Bytes) : UInt32 :=
  buf.foldl (fun crc b =>
    cxCcitt32.getD ((crc ^^^ b.toUInt32) &&& 0xFF).toNat 0 ^^^ (crc >>> 8)) crc

def sysCxCrc32Update (crc : UInt32) (buf : Bytes) : UInt32 := crc32Loop crc buf ^^^ cxCrc32Init

-- ---------------------------------------------------------------------------
-- Tables
-- ---------------------------------------------------------------------------

/-- `CRC-16/CCITT` -/
def ccitt16Poly : BitVec 16 := 0x1021

/-- `CRC-32`, reflected -/
def ccitt32Poly : BitVec 32 := 0xEDB88320

theorem toList_cxCcitt16 : cxCcitt16.toList = (List.range 256).map fun i =>
    ⟨(Crc.shiftUp ccitt16Poly)^[8] (BitVec.ofNat 16 i <<< 8)⟩ := by
  decide +kernel

theorem toList_cxCcitt32 : cxCcitt32.toList = (List.range 256).map fun i =>
    ⟨(Crc.shiftDown ccitt32Poly)^[8] (BitVec.ofNat 32 i)⟩ := by
  decide +kernel

theorem getD_of_toList {α : Type} {table : Array α} {f : Nat → α}
    (h : table.toList = (List.range 256).map f) (d : α) (i : BitVec 8) :
    table.getD i.toNat d = f i.toNat := by
  rw [Array.getD_eq_getD_getElem?, ← Array.getElem?_toList, h, List.getElem?_map,
    List.getElem?_range i.isLt]
  rfl

theorem cxCcitt16_entries (i : BitVec 8) : (cxCcitt16.getD i.toNat 0).toBitVec =
    (Crc.shiftUp ccitt16Poly)^[8] (i.setWidth 16 <<< (16 - 8)) := by
  rw [getD_of_toList toList_cxCcitt16, BitVec.ofNat_toNat]

theorem cxCcitt32_entries (i : BitVec 8) : (cxCcitt32.getD i.toNat 0).toBitVec =
    (Crc.shiftDown ccitt32Poly)^[8] (i.setWidth 32) := by
  rw [getD_of_toList toList_cxCcitt32, BitVec.ofNat_toNat]

-- ---------------------------------------------------------------------------
-- Bytes
-- ---------------------------------------------------------------------------

theorem crc16_step (crc : UInt16) (b : UInt8) :
    (cxCcitt16.getD (b.toUInt16 ^^^ (crc >>> 8)).toNat 0 ^^^ (crc <<< 8)).toBitVec =
      Crc.crcByte ccitt16Poly crc.toBitVec b := by
  have hindex : (b.toUInt16 ^^^ (crc >>> 8)).toBitVec =
      (b.toBitVec ^^^ crc.toBitVec.extractLsb' 8 8).setWidth 16 := by
    ext i hi
    by_cases h8 : i < 8
    · simp [h8]
    · simp [h8, BitVec.getLsbD_of_ge crc.toBitVec (8 + i) (by omega)]
  have hnat := congrArg BitVec.toNat hindex
  rw [BitVec.toNat_setWidth_of_le (by decide), UInt16.toNat_toBitVec] at hnat
  rw [Crc.crcByte_eq_table (by decide) cxCcitt16_entries, UInt16.toBitVec_xor, hnat,
    UInt16.toBitVec_shiftLeft]
  rfl

theorem crc32_step (crc : UInt32) (b : UInt8) :
    (cxCcitt32.getD ((crc ^^^ b.toUInt32) &&& 0xFF).toNat 0 ^^^ (crc >>> 8)).toBitVec =
      Crc.reflectedByte ccitt32Poly crc.toBitVec b := by
  have hindex : ((crc ^^^ b.toUInt32) &&& 0xFF).toBitVec =
      (crc.toBitVec.setWidth 8 ^^^ b.toBitVec).setWidth 32 := by
    have hmask : (0xFF : UInt32).toBitVec = (BitVec.allOnes 8).setWidth 32 := rfl
    rw [UInt32.toBitVec_and, hmask]
    ext i hi
    rw [BitVec.getElem_and, BitVec.getElem_setWidth, BitVec.getLsbD_allOnes]
    by_cases h8 : i < 8
    · simp [h8, hi]
    · simp [h8, BitVec.getLsbD_of_ge b.toBitVec i (Nat.le_of_not_lt h8)]
  have hnat := congrArg BitVec.toNat hindex
  rw [BitVec.toNat_setWidth_of_le (by decide), UInt32.toNat_toBitVec] at hnat
  rw [Crc.reflectedByte_eq_table cxCcitt32_entries, UInt32.toBitVec_xor, hnat,
    UInt32.toBitVec_shiftRight]
  rfl

-- ---------------------------------------------------------------------------
-- Messages
-- ---------------------------------------------------------------------------

theorem sysCxCrc16Update_eq (crc : UInt16) (buf : Bytes) :
    (sysCxCrc16Update crc buf).toBitVec = Crc.crc ccitt16Poly crc.toBitVec buf := by
  induction buf generalizing crc with
  | nil => rfl
  | cons b buf ih =>
    rw [sysCxCrc16Update, List.foldl_cons, ← sysCxCrc16Update, ih, crc16_step]
    rfl

theorem crc32Loop_eq (crc : UInt32) (buf : Bytes) :
    (crc32Loop crc buf).toBitVec = Crc.reflected ccitt32Poly crc.toBitVec buf := by
  induction buf generalizing crc with
  | nil => rfl
  | cons b buf ih =>
    rw [crc32Loop, List.foldl_cons, ← crc32Loop, ih, crc32_step]
    rfl

theorem sysCxCrc32Update_eq (crc : UInt32) (buf : Bytes) :
    (sysCxCrc32Update crc buf).toBitVec = ~~~Crc.reflected ccitt32Poly crc.toBitVec buf := by
  have hinit : cxCrc32Init.toBitVec = BitVec.allOnes 32 := rfl
  rw [sysCxCrc32Update, UInt32.toBitVec_xor, crc32Loop_eq, hinit, BitVec.xor_allOnes]

/-- The complement that an update ends with is taken back. -/
theorem sysCxCrc32Update_xor (crc : UInt32) (buf : Bytes) :
    sysCxCrc32Update crc buf ^^^ cxCrc32Init = crc32Loop crc buf := by
  rw [sysCxCrc32Update, UInt32.xor_assoc, UInt32.xor_self, UInt32.xor_zero]

/-- The updates are the divisions by their polynomials, and a message may come in pieces. -/
theorem crcUpdates_bitwise :
    (∀ (crc : UInt16) (buf : Bytes),
      (sysCxCrc16Update crc buf).toBitVec = Crc.crc ccitt16Poly crc.toBitVec buf) ∧
    (∀ (crc : UInt32) (buf : Bytes),
      (sysCxCrc32Update crc buf).toBitVec = ~~~Crc.reflected ccitt32Poly crc.toBitVec buf) ∧
    (∀ (crc : UInt16) (a b : Bytes),
      sysCxCrc16Update (sysCxCrc16Update crc a) b = sysCxCrc16Update crc (a ++ b)) ∧
    (∀ (crc : UInt32) (a b : Bytes),
      sysCxCrc32Update (sysCxCrc32Update crc a ^^^ 0xFFFFFFFF) b =
        sysCxCrc32Update crc (a ++ b)) := by
  refine ⟨sysCxCrc16Update_eq, sysCxCrc32Update_eq, fun crc a b => ?_, fun crc a b => ?_⟩
  · exact List.foldl_append.symm
  · have hback : sysCxCrc32Update crc a ^^^ 0xFFFFFFFF = crc32Loop crc a :=
      sysCxCrc32Update_xor crc a
    have happend : crc32Loop (crc32Loop crc a) b = crc32Loop crc (a ++ b) :=
      List.foldl_append.symm
    rw [hback, sysCxCrc32Update, happend, sysCxCrc32Update]

example : sysCxCrc32Update 0xFFFFFFFF [0x31, 0x32, 0x33, 0x34, 0x35, 0x36, 0x37, 0x38, 0x39] =
    0xCBF43926 := by
  decide +kernel

-- ---------------------------------------------------------------------------
-- Remainders
-- ---------------------------------------------------------------------------

open Polynomial in
theorem sysCxCrc16Update_remainder (crc : UInt16) (buf : Bytes) :
    Crc.toPoly (sysCxCrc16Update crc buf).toBitVec =
      (X ^ (8 * buf.length) * Crc.toPoly crc.toBitVec + X ^ 16 * Crc.messagePoly buf) %ₘ
        Crc.divisor ccitt16Poly := by
  rw [sysCxCrc16Update_eq]
  exact Crc.toPoly_crc (by decide) ccitt16Poly crc.toBitVec buf

open Polynomial in
theorem crc32Loop_remainder (crc : UInt32) (buf : Bytes) :
    Crc.toPoly (crc32Loop crc buf).toBitVec.reverse =
      (X ^ (8 * buf.length) * Crc.toPoly crc.toBitVec.reverse +
          X ^ 32 * Crc.messagePoly (buf.map Crc.reverseBits)) %ₘ
        Crc.divisor ccitt32Poly.reverse := by
  rw [crc32Loop_eq, Crc.reverse_reflected (by decide), Crc.toPoly_crc (by decide), List.length_map]

-- ---------------------------------------------------------------------------
-- sys_cx_crc_hw
-- ---------------------------------------------------------------------------

inductive CrcType
  | crc16CcittFalse
  | crc32
  | other
  deriving DecidableEq, Repr

def reverse32Bits (value : UInt32) : UInt32 :=
  (List.range 32).foldl (fun reverseVal i =>
    if value &&& (1 <<< UInt32.ofNat i) ≠ 0 then reverseVal ||| (1 <<< (UInt32.ofNat (31 - i)))
    else reverseVal) 0

def sysCxCrcHw (crcType : CrcType) (crcState : UInt32) (buf : Bytes) : UInt32 :=
  match crcType with
  | .crc16CcittFalse => (sysCxCrc16Update crcState.toUInt16 buf).toUInt32
  | .crc32 => sysCxCrc32Update (reverse32Bits crcState) buf
  | .other => 0

theorem toBitVec_one_shiftLeft (hi : i < 32) :
    (1 <<< UInt32.ofNat i : UInt32).toBitVec = BitVec.twoPow 32 i := by
  have hall : ∀ j : Fin 32, (1 <<< UInt32.ofNat j : UInt32).toBitVec = BitVec.twoPow 32 j := by
    decide
  exact hall ⟨i, hi⟩

theorem and_one_shiftLeft_ne_zero (value : UInt32) (hi : i < 32) :
    value &&& (1 <<< UInt32.ofNat i) ≠ 0 ↔ value.toBitVec.getLsbD i = true := by
  have hpow : BitVec.twoPow 32 i ≠ 0 := by
    rw [ne_eq, ← BitVec.toNat_inj, BitVec.toNat_twoPow_of_lt hi]
    exact (Nat.two_pow_pos i).ne'
  rw [ne_eq, ← UInt32.toBitVec_inj, UInt32.toBitVec_and, toBitVec_one_shiftLeft hi,
    BitVec.and_twoPow]
  split
  · exact iff_of_true hpow ‹_›
  · exact iff_of_false (not_not.mpr rfl) ‹_›

/-- The bits below `n` have been moved to the other end. -/
theorem getLsbD_reverseLoop (value : UInt32) (hn : n ≤ 32) (hj : j < 32) :
    ((List.range n).foldl (fun reverseVal i =>
      if value &&& (1 <<< UInt32.ofNat i) ≠ 0 then reverseVal ||| (1 <<< (UInt32.ofNat (31 - i)))
      else reverseVal) 0).toBitVec.getLsbD j =
        (decide (31 - j < n) && value.toBitVec.getLsbD (31 - j)) := by
  induction n with
  | zero => simp
  | succ n ih =>
    rw [List.range_succ, List.foldl_append, List.foldl_cons, List.foldl_nil]
    have hmoved : (1 <<< UInt32.ofNat (31 - n) : UInt32).toBitVec.getLsbD j =
        decide (31 - j = n) := by
      rw [toBitVec_one_shiftLeft (by omega), BitVec.getLsbD_twoPow, Bool.eq_iff_iff]
      simp only [Bool.and_eq_true, decide_eq_true_eq]
      omega
    have hbit := and_one_shiftLeft_ne_zero value (Nat.lt_of_succ_le hn)
    have hprev := ih (Nat.le_of_succ_le hn)
    by_cases hset : value.toBitVec.getLsbD n = true
    · rw [if_pos (hbit.mpr hset), UInt32.toBitVec_or, BitVec.getLsbD_or, hprev, hmoved]
      by_cases hj : 31 - j = n
      · simp [hj, hset]
      · have hlt : 31 - j < n + 1 ↔ 31 - j < n := by omega
        simp [hj, hlt]
    · rw [if_neg (mt hbit.mp hset), hprev]
      by_cases hj : 31 - j = n
      · simp [hj, hset]
      · have hlt : 31 - j < n + 1 ↔ 31 - j < n := by omega
        simp [hlt]

theorem reverse32Bits_eq (value : UInt32) :
    (reverse32Bits value).toBitVec = value.toBitVec.reverse := by
  ext j hj
  rw [BitVec.getElem_reverse, ← BitVec.getLsbD_eq_getElem, reverse32Bits,
    getLsbD_reverseLoop value (Nat.le_refl 32) hj]
  have hin : 31 - j < 32 := by omega
  simp [hin, hj, BitVec.getMsbD_eq_getLsbD]

/-- The register of the device is not reflected. -/
theorem sysCxCrcHw_crc32 (crcState : UInt32) (buf : Bytes) :
    (sysCxCrcHw .crc32 crcState buf).toBitVec.reverse =
      ~~~Crc.crc ccitt32Poly.reverse crcState.toBitVec (buf.map Crc.reverseBits) := by
  have hnot (c : BitVec 32) : (~~~c).reverse = ~~~c.reverse := by
    ext i hi
    have hin : 31 - i < 32 := by omega
    simp [BitVec.getElem_reverse, BitVec.getMsbD_eq_getLsbD, hi, hin]
  rw [sysCxCrcHw, sysCxCrc32Update_eq, hnot, Crc.reverse_reflected (by decide), reverse32Bits_eq,
    BitVec.reverse_reverse_eq]

end Speculos.Crc
