import Recorder.Lib.FoldCode
import Recorder.Model.Helper

/-!
# The CRC sees a single changed byte

A division step of `recorder_crc32` halves the remainder and, for an odd one, mixes in the
polynomial, whose top bit is set: the top bit of the result is the bit that was shifted out,
so a step can be undone (`crcBit_injective`). Byte by byte the checksum is then a fold that
loses nothing, and a single changed byte changes it (`recorderCrc32_set_ne`). So does the
word that a changed byte is read into (`readU32Le_set_ne`, `readU64Le_set_ne`).
-/

set_option autoImplicit false

namespace Recorder.Analysis

open Recorder.Model Recorder.Lib

/-- INTERNAL: one division step by the parity of the remainder.
SOURCE: helper.c:114-116 -/
theorem crcBit_eq (crc : UInt32) :
    crcBit crc = if crc.toNat % 2 = 0 then crc >>> 1 else (crc >>> 1) ^^^ 0xedb88320 := by
  have hlow : (crc &&& 1).toNat = crc.toNat % 2 := by
    rw [UInt32.toNat_and]
    exact Nat.and_one_is_mod _
  unfold crcBit
  split
  · rename_i heven
    have hzero : crc &&& 1 = 0 := UInt32.toNat_inj.mp (by rw [hlow, heven]; rfl)
    rw [hzero]
    simp
  · rename_i hodd
    have hone : crc &&& 1 = 1 := UInt32.toNat_inj.mp (by
      rw [hlow]
      exact Nat.mod_two_ne_zero.mp hodd)
    rw [hone]
    rfl

theorem toNat_shiftRight_one (crc : UInt32) : (crc >>> 1).toNat = crc.toNat / 2 := by
  rw [UInt32.toNat_shiftRight]
  simp [Nat.shiftRight_one]

/-- INTERNAL: the two branches of a division step never meet, since the polynomial has its
top bit set and a halved remainder has not. -/
theorem shiftRight_ne_xor (a b : UInt32) : a >>> 1 ≠ (b >>> 1) ^^^ 0xedb88320 := by
  intro h
  have hpoly : (a >>> 1) ^^^ (b >>> 1) = 0xedb88320 := by
    rw [h, UInt32.xor_assoc, UInt32.xor_comm 0xedb88320, ← UInt32.xor_assoc, UInt32.xor_self,
      UInt32.zero_xor]
  have ha : (a >>> 1).toNat < 2 ^ 31 := by
    have := a.toNat_lt
    rw [toNat_shiftRight_one]
    omega
  have hb : (b >>> 1).toNat < 2 ^ 31 := by
    have := b.toNat_lt
    rw [toNat_shiftRight_one]
    omega
  have hlt := Nat.xor_lt_two_pow ha hb
  rw [← UInt32.toNat_xor, hpoly] at hlt
  exact absurd hlt (by decide)

/-- **A division step can be undone**. -/
theorem crcBit_injective : Function.Injective crcBit := by
  intro a b h
  have hhalf : a >>> 1 = b >>> 1 ∧ a.toNat % 2 = b.toNat % 2 := by
    rw [crcBit_eq, crcBit_eq] at h
    split at h
    · rename_i ha
      split at h
      · rename_i hb
        exact ⟨h, ha.trans hb.symm⟩
      · exact absurd h (shiftRight_ne_xor a b)
    · rename_i ha
      split at h
      · exact absurd h.symm (shiftRight_ne_xor b a)
      · rename_i hb
        exact ⟨(UInt32.xor_left_inj _).mp h, by omega⟩
  obtain ⟨hshift, hmod⟩ := hhalf
  have hdiv := congrArg UInt32.toNat hshift
  rw [toNat_shiftRight_one, toNat_shiftRight_one] at hdiv
  apply UInt32.toNat_inj.mp
  omega

/-- INTERNAL: the eight division steps of a byte. -/
theorem crcBits_injective : Function.Injective fun crc =>
    crcBit (crcBit (crcBit (crcBit (crcBit (crcBit (crcBit (crcBit crc))))))) :=
  have h := crcBit_injective
  h.comp <| h.comp <| h.comp <| h.comp <| h.comp <| h.comp <| h.comp h

/-- A byte is mixed in without loss. -/
theorem crcByte_stepInjective : StepInjective crcByte where
  state b x y h := (UInt32.xor_left_inj b.toUInt32).mp (crcBits_injective h)
  symbol crc a b h := by
    have hword : a.toUInt32 = b.toUInt32 := (UInt32.xor_right_inj crc).mp (crcBits_injective h)
    have hnat := congrArg UInt32.toNat hword
    rw [UInt8.toNat_toUInt32, UInt8.toNat_toUInt32] at hnat
    exact UInt8.toNat_inj.mp hnat

/-- **The CRC of a buffer changes with any single byte of it**.
SOURCE: helper.c:105-120 -/
theorem recorderCrc32_set_ne {data : Bytes} {i : ℕ} {b : UInt8} (hi : i < data.length)
    (hb : b ≠ data[i]) : recorderCrc32 (data.set i b) ≠ recorderCrc32 data := by
  intro h
  unfold recorderCrc32 at h
  exact crcByte_stepInjective.foldl_set_ne hi hb _ (UInt32.not_inj.mp h)

/-! ## Words -/

/-- A list with one element changed is another list. -/
theorem set_ne_self {α : Type} {l : List α} {i : ℕ} {a : α} (hi : i < l.length) (ha : a ≠ l[i]) :
    l.set i a ≠ l := by
  intro h
  have hget : (l.set i a)[i]? = l[i]? := by rw [h]
  rw [List.getElem?_set_self hi, List.getElem?_eq_getElem hi, Option.some.injEq] at hget
  exact ha hget

/-- A word changes with any of its bytes. -/
theorem readU32Le_set_ne {p : Bytes} {i : ℕ} {b : UInt8} (hi : i < 4) (hp : 4 ≤ p.length)
    (hb : b ≠ p[i]) : readU32Le (p.set i b) ≠ readU32Le p := by
  intro h
  have hwrite := congrArg writeU32Le h
  rw [writeU32Le_read _ (by rw [List.length_set]; exact hp), writeU32Le_read _ hp,
    List.take_set] at hwrite
  exact set_ne_self (by rw [List.length_take]; omega)
    (by rw [List.getElem_take]; exact hb) hwrite

/-- The eight-byte form of `readU32Le_set_ne`. -/
theorem readU64Le_set_ne {p : Bytes} {i : ℕ} {b : UInt8} (hi : i < 8) (hp : 8 ≤ p.length)
    (hb : b ≠ p[i]) : readU64Le (p.set i b) ≠ readU64Le p := by
  intro h
  have hwrite := congrArg writeU64Le h
  rw [writeU64Le_read _ (by rw [List.length_set]; exact hp), writeU64Le_read _ hp,
    List.take_set] at hwrite
  exact set_ne_self (by rw [List.length_take]; omega)
    (by rw [List.getElem_take]; exact hb) hwrite

end Recorder.Analysis
