import Mathlib.Algebra.GroupWithZero.Nat
import Mathlib.Data.List.Basic
import Mathlib.Order.Lattice
import Mathlib.Tactic.Common

/-!
# `helper.c`: little-endian words and the store's CRC

A buffer is a list of bytes and a pointer `p` into it is the rest of the buffer from
that position on, so `p + n` of the source is `p.drop n` here and a read past the end
sees zero bytes; the parsers above this file check the remaining length first.

The two facts the format analysis rests on are that a word written is the word read
back, and that the four (eight) bytes written for the word just read are the bytes it
was read from.
-/

set_option autoImplicit false

namespace Recorder.Model

/-- A byte buffer, a file's content or a `memcpy`ed region. -/
abbrev Bytes := List UInt8

/-- `p[i]` for an unsigned char pointer `p`. -/
def byteAt (p : Bytes) (i : ℕ) : UInt8 := p.getD i 0

/-- `read_u32_le`.
SOURCE: helper.c:56-64 -/
def readU32Le (p : Bytes) : UInt32 :=
  (byteAt p 0).toUInt32 ||| (byteAt p 1).toUInt32 <<< 8 |||
    (byteAt p 2).toUInt32 <<< 16 ||| (byteAt p 3).toUInt32 <<< 24

/-- `read_u64_le`.
SOURCE: helper.c:66-78 -/
def readU64Le (p : Bytes) : UInt64 :=
  (byteAt p 0).toUInt64 ||| (byteAt p 1).toUInt64 <<< 8 |||
    (byteAt p 2).toUInt64 <<< 16 ||| (byteAt p 3).toUInt64 <<< 24 |||
    (byteAt p 4).toUInt64 <<< 32 ||| (byteAt p 5).toUInt64 <<< 40 |||
    (byteAt p 6).toUInt64 <<< 48 ||| (byteAt p 7).toUInt64 <<< 56

/-- The four bytes `write_u32_le` stores.
SOURCE: helper.c:80-88 -/
def writeU32Le (value : UInt32) : Bytes :=
  [value.toUInt8, (value >>> 8).toUInt8, (value >>> 16).toUInt8, (value >>> 24).toUInt8]

/-- The eight bytes `write_u64_le` stores.
SOURCE: helper.c:90-102 -/
def writeU64Le (value : UInt64) : Bytes :=
  [value.toUInt8, (value >>> 8).toUInt8, (value >>> 16).toUInt8, (value >>> 24).toUInt8,
    (value >>> 32).toUInt8, (value >>> 40).toUInt8, (value >>> 48).toUInt8,
    (value >>> 56).toUInt8]

/-- A 32-bit number has four bytes. -/
@[simp] theorem length_writeU32Le (value : UInt32) : (writeU32Le value).length = 4 := rfl

/-- A 64-bit number has eight bytes. -/
@[simp] theorem length_writeU64Le (value : UInt64) : (writeU64Le value).length = 8 := rfl

/-- A word written is the word read back, whatever follows it. -/
@[simp] theorem readU32Le_write (value : UInt32) (rest : Bytes) :
    readU32Le (writeU32Le value ++ rest) = value := by
  simp only [readU32Le, writeU32Le, byteAt, List.cons_append, List.nil_append,
    List.getD_cons_zero, List.getD_cons_succ]
  apply UInt32.toBitVec_inj.mp
  apply BitVec.eq_of_getLsbD_eq
  intro i hi
  simp only [UInt32.toBitVec_or, UInt32.toBitVec_shiftLeft, UInt8.toBitVec_toUInt32,
    UInt32.toBitVec_toUInt8, UInt32.toBitVec_shiftRight, BitVec.getLsbD_or,
    BitVec.getLsbD_setWidth, UInt32.toBitVec_ofNat, BitVec.shiftLeft_eq',
    BitVec.ushiftRight_eq', BitVec.getLsbD_shiftLeft, BitVec.getLsbD_ushiftRight, hi,
    decide_true, Bool.true_and]
  simp
  grind

/-- The eight-byte form of `readU32Le_write`. -/
@[simp] theorem readU64Le_write (value : UInt64) (rest : Bytes) :
    readU64Le (writeU64Le value ++ rest) = value := by
  simp only [readU64Le, writeU64Le, byteAt, List.cons_append, List.nil_append,
    List.getD_cons_zero, List.getD_cons_succ]
  apply UInt64.toBitVec_inj.mp
  apply BitVec.eq_of_getLsbD_eq
  intro i hi
  simp only [UInt64.toBitVec_or, UInt64.toBitVec_shiftLeft, UInt8.toBitVec_toUInt64,
    UInt64.toBitVec_toUInt8, UInt64.toBitVec_shiftRight, BitVec.getLsbD_or,
    BitVec.getLsbD_setWidth, UInt64.toBitVec_ofNat, BitVec.shiftLeft_eq',
    BitVec.ushiftRight_eq', BitVec.getLsbD_shiftLeft, BitVec.getLsbD_ushiftRight, hi,
    decide_true, Bool.true_and]
  simp
  grind

/-- A byte is the shifted-down word it was put into, when the other summands of the
word lie outside its eight bits. -/
private theorem toUInt8_eq_of_bits {n : ℕ} (x : BitVec n) (b : UInt8)
    (h : ∀ i < 8, x.getLsbD i = b.toBitVec.getLsbD i) :
    x.setWidth 8 = b.toBitVec := by
  apply BitVec.eq_of_getLsbD_eq
  intro i hi
  simp only [BitVec.getLsbD_setWidth, hi, decide_true, Bool.true_and]
  exact h i hi

/-- Four bytes read as a word are the bytes written for that word. -/
theorem writeU32Le_read (p : Bytes) (h : 4 ≤ p.length) :
    writeU32Le (readU32Le p) = p.take 4 := by
  obtain ⟨b0, b1, b2, b3, rest, rfl⟩ :
      ∃ b0 b1 b2 b3 rest, p = b0 :: b1 :: b2 :: b3 :: rest := by
    match p, h with
    | b0 :: b1 :: b2 :: b3 :: rest, _ => exact ⟨b0, b1, b2, b3, rest, rfl⟩
  simp only [readU32Le, writeU32Le, byteAt, List.getD_cons_zero, List.getD_cons_succ,
    List.take_succ_cons, List.take_zero, List.cons.injEq, and_true]
  refine ⟨?_, ?_, ?_, ?_⟩ <;> apply UInt8.toBitVec_inj.mp <;>
    simp only [UInt32.toBitVec_toUInt8] <;> apply toUInt8_eq_of_bits <;> intro i hi <;>
    simp only [UInt32.toBitVec_or, UInt32.toBitVec_shiftLeft, UInt8.toBitVec_toUInt32,
      UInt32.toBitVec_shiftRight, BitVec.getLsbD_or, BitVec.getLsbD_setWidth,
      UInt32.toBitVec_ofNat, BitVec.shiftLeft_eq', BitVec.ushiftRight_eq',
      BitVec.getLsbD_shiftLeft, BitVec.getLsbD_ushiftRight] <;>
    simp <;> grind

/-- The eight-byte form of `writeU32Le_read`. -/
theorem writeU64Le_read (p : Bytes) (h : 8 ≤ p.length) :
    writeU64Le (readU64Le p) = p.take 8 := by
  obtain ⟨b0, b1, b2, b3, b4, b5, b6, b7, rest, rfl⟩ :
      ∃ b0 b1 b2 b3 b4 b5 b6 b7 rest,
        p = b0 :: b1 :: b2 :: b3 :: b4 :: b5 :: b6 :: b7 :: rest := by
    match p, h with
    | b0 :: b1 :: b2 :: b3 :: b4 :: b5 :: b6 :: b7 :: rest, _ =>
      exact ⟨b0, b1, b2, b3, b4, b5, b6, b7, rest, rfl⟩
  simp only [readU64Le, writeU64Le, byteAt, List.getD_cons_zero, List.getD_cons_succ,
    List.take_succ_cons, List.take_zero, List.cons.injEq, and_true]
  refine ⟨?_, ?_, ?_, ?_, ?_, ?_, ?_, ?_⟩ <;> apply UInt8.toBitVec_inj.mp <;>
    simp only [UInt64.toBitVec_toUInt8] <;> apply toUInt8_eq_of_bits <;> intro i hi <;>
    simp only [UInt64.toBitVec_or, UInt64.toBitVec_shiftLeft, UInt8.toBitVec_toUInt64,
      UInt64.toBitVec_shiftRight, BitVec.getLsbD_or, BitVec.getLsbD_setWidth,
      UInt64.toBitVec_ofNat, BitVec.shiftLeft_eq', BitVec.ushiftRight_eq',
      BitVec.getLsbD_shiftLeft, BitVec.getLsbD_ushiftRight] <;>
    simp <;> grind

/-- INTERNAL: a byte in front of a cut. -/
theorem byteAt_take (p : Bytes) {n i : ℕ} (h : i < n) : byteAt (p.take n) i = byteAt p i := by
  simp [byteAt, h]

/-- A word read looks at the first four bytes only. -/
theorem readU32Le_take (p : Bytes) (n : ℕ) (h : 4 ≤ n) :
    readU32Le (p.take n) = readU32Le p := by
  have hb : ∀ i < 4, byteAt (p.take n) i = byteAt p i := fun i hi => byteAt_take p (by omega)
  simp only [readU32Le, hb 0 (by omega), hb 1 (by omega), hb 2 (by omega), hb 3 (by omega)]

/-- The eight-byte form of `readU32Le_take`. -/
theorem readU64Le_take (p : Bytes) (n : ℕ) (h : 8 ≤ n) :
    readU64Le (p.take n) = readU64Le p := by
  have hb : ∀ i < 8, byteAt (p.take n) i = byteAt p i := fun i hi => byteAt_take p (by omega)
  simp only [readU64Le, hb 0 (by omega), hb 1 (by omega), hb 2 (by omega), hb 3 (by omega),
    hb 4 (by omega), hb 5 (by omega), hb 6 (by omega), hb 7 (by omega)]

/-- One of the eight division steps of `recorder_crc32`.
SOURCE: helper.c:114-116 -/
def crcBit (crc : UInt32) : UInt32 :=
  (crc >>> 1) ^^^ (0xedb88320 &&& (0 - (crc &&& 1)))

/-- One byte of `recorder_crc32`: mix it in, then eight division steps.
SOURCE: helper.c:110-117 -/
def crcByte (crc : UInt32) (b : UInt8) : UInt32 :=
  crcBit (crcBit (crcBit (crcBit (crcBit (crcBit (crcBit (crcBit (crc ^^^ b.toUInt32))))))))

/-- `recorder_crc32`.
SOURCE: helper.c:105-120 -/
def recorderCrc32 (data : Bytes) : UInt32 :=
  ~~~ data.foldl crcByte 0xffffffff

end Recorder.Model
