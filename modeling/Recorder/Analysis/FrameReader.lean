import Recorder.Analysis.SegmentTruncate
import Recorder.Model.FrameReader

/-!
# Reading a segment piece by piece

The readers that take the metadata from its length fields accept what the parser of a mapped
file accepts, except where header size and dictionary length add up to more than one `pread`
transfers: the read is then short, or, from `2^32` on, the sum they read by is too short for
the header itself (`readMetadata_iff`).
-/

set_option autoImplicit false

namespace Recorder.Analysis

open Recorder.Model

/-! ## Metadata -/

/-- One `pread` yields the bytes asked for when they are in the file and few enough.
SOURCE: segment.c:815-818 -/
theorem preadExact_eq_some_iff (file : Bytes) (size offset : ℕ) (bytes : Bytes) :
    preadExact file size offset = some bytes ↔
      size ≤ preadLimit ∧ offset + size ≤ file.length ∧ bytes = (file.drop offset).take size := by
  unfold preadExact
  split
  · rename_i h
    constructor
    · intro hbytes
      exact ⟨h.1, h.2, (Option.some.inj hbytes).symm⟩
    · rintro ⟨-, -, rfl⟩
      rfl
  · rename_i h
    constructor
    · intro hnone
      cases hnone
    · rintro ⟨hlimit, hfile, -⟩
      exact absurd ⟨hlimit, hfile⟩ h

/-- A read of more than one `pread` transfers fails. -/
theorem preadExact_eq_none_of_long {file : Bytes} {size offset : ℕ} (h : preadLimit < size) :
    preadExact file size offset = none :=
  if_neg fun hfits => absurd hfits.1 (Nat.not_le.mpr h)

/-- INTERNAL: the header found in front of a cut behind the dictionary is that of the file. -/
theorem segmentParseHeader_of_take {buf : Bytes} {r : SegmentHeader × ℕ × SegmentEncryptionInfo}
    {n : ℕ} (hn : framesStart buf ≤ n) (h152 : 152 ≤ n) (hle : framesStart buf ≤ buf.length)
    (h : segmentParseHeader (buf.take n) = some r) : segmentParseHeader buf = some r := by
  obtain ⟨header, offset, info⟩ := r
  have hsf : headerSize buf ≤ framesStart buf := Nat.le_add_right _ _
  rw [segmentParseHeader_eq_some_iff, headerSize_take buf n (by omega), framesStart_take buf n h152,
    readHeaderFields_take buf n h152, headerExtension_take buf n hn, List.take_take,
    min_eq_left (by omega), List.take_take, min_eq_left (by omega),
    readU32Le_drop_take buf n 8 (by omega), readU32Le_drop_take buf n 148 (by omega)] at h
  obtain ⟨⟨hsize, -, hrest⟩, hread⟩ := h
  exact (segmentParseHeader_eq_some_iff _ _ _ _).mpr ⟨⟨hsize, hle, hrest⟩, hread⟩

/-- **The metadata of a file**: the readers of single frames accept the header that the
scanner of the whole file accepts, as long as header and dictionary together are read by one
`pread`.
SOURCE: segment.c:520-532, 832-846, 937-948 -/
theorem readMetadata_iff (file metadata : Bytes) (r : SegmentHeader × ℕ × SegmentEncryptionInfo) :
    (readMetadata file = some metadata ∧ segmentParseHeader metadata = some r) ↔
      framesStart file ≤ preadLimit ∧ segmentParseHeader file = some r ∧
        metadata = file.take (framesStart file) := by
  have hsum : (readU32Le (file.drop 12) + readU32Le (file.drop 144)).toNat =
      framesStart file % 2 ^ 32 := by
    rw [UInt32.toNat_add]
    rfl
  have hdict : (readU32Le (file.drop 144)).toNat < 2 ^ 32 := (readU32Le (file.drop 144)).toNat_lt
  have hstart : framesStart file = headerSize file + (readU32Le (file.drop 144)).toNat := rfl
  have hs : (readU32Le (file.drop 12)).toNat = headerSize file := rfl
  constructor
  · rintro ⟨hmeta, hparse⟩
    simp only [readMetadata, segmentHeaderFixedSize, hsum, hs] at hmeta
    split at hmeta
    · cases hmeta
    · split at hmeta
      · cases hmeta
      · rename_i hlen hfields
        obtain ⟨hlimit, -, rfl⟩ := (preadExact_eq_some_iff _ _ _ _).mp hmeta
        rw [List.drop_zero] at hparse ⊢
        simp only [Bool.or_eq_true, decide_eq_true_eq, not_or, not_lt] at hfields
        obtain ⟨⟨h152, hhs⟩, hdl⟩ := hfields
        have hsmall : framesStart file < 2 ^ 32 := by
          by_contra hbig
          -- the wrapped sum does not even cover the header
          obtain ⟨header, offset, info⟩ := r
          obtain ⟨⟨h152', hle', -⟩, -⟩ := (segmentParseHeader_eq_some_iff _ _ _ _).mp hparse
          have hself : headerSize (file.take (framesStart file % 2 ^ 32)) ≤
              framesStart (file.take (framesStart file % 2 ^ 32)) := Nat.le_add_right _ _
          rw [List.length_take] at hle'
          have hsame : headerSize (file.take (framesStart file % 2 ^ 32)) = headerSize file := by
            unfold headerSize
            rw [readU32Le_drop_take _ _ 12 (by omega)]
          omega
        rw [Nat.mod_eq_of_lt hsmall] at hlimit hparse ⊢
        exact ⟨hlimit, segmentParseHeader_of_take le_rfl (by omega) (by omega) hparse, rfl⟩
  · rintro ⟨hlimit, hparse, rfl⟩
    obtain ⟨hparse', -⟩ := segmentParseHeader_take hparse _ le_rfl
    have hsmall : framesStart file < 2 ^ 32 := by
      simp only [preadLimit] at hlimit
      omega
    refine ⟨?_, hparse'⟩
    obtain ⟨header, offset, info⟩ := r
    obtain ⟨⟨h152, hle, -⟩, -⟩ := (segmentParseHeader_eq_some_iff _ _ _ _).mp hparse
    have hshort : ¬ file.length < 152 := by omega
    simp only [readMetadata, segmentHeaderFixedSize, hsum, hs, Nat.mod_eq_of_lt hsmall]
    rw [if_neg hshort, if_neg]
    · exact (preadExact_eq_some_iff _ _ _ _).mpr ⟨hlimit, by omega, by rw [List.drop_zero]⟩
    · simp only [Bool.or_eq_true, decide_eq_true_eq, not_or, not_lt]
      omega

/-- `segment_read_path_header` reads what the scanner of the whole file reads.
SOURCE: segment.c:512-541 -/
theorem segmentReadPathHeader_eq_some_iff (file : Bytes) (header : SegmentHeader)
    (offset size : ℕ) :
    segmentReadPathHeader file = some (header, offset, size) ↔
      framesStart file ≤ preadLimit ∧
        (∃ info, segmentParseHeader file = some (header, offset, info)) ∧
        size = file.length := by
  constructor
  · intro h
    unfold segmentReadPathHeader at h
    cases hmeta : readMetadata file with
    | none => rw [hmeta] at h; cases h
    | some metadata =>
      simp only [hmeta] at h
      cases hparse : segmentParseHeader metadata with
      | none => rw [hparse] at h; cases h
      | some r =>
        obtain ⟨header', offset', info⟩ := r
        simp only [hparse, Option.some.injEq, Prod.mk.injEq] at h
        obtain ⟨rfl, rfl, rfl⟩ := h
        obtain ⟨hsmall, hfile, -⟩ := (readMetadata_iff _ _ _).mp ⟨hmeta, hparse⟩
        exact ⟨hsmall, ⟨info, hfile⟩, rfl⟩
  · rintro ⟨hsmall, ⟨info, hparse⟩, rfl⟩
    obtain ⟨hmeta, hparse'⟩ := (readMetadata_iff _ _ _).mpr ⟨hsmall, hparse, rfl⟩
    simp only [segmentReadPathHeader, hmeta, hparse']

/-- The frames of a written file start at its data offset. -/
theorem framesStart_of_writeSegment {evp : EvpOps} (laws : EvpLaws evp) {key : FreshKey}
    {encryptor : Option SegmentEncryptor} {s : SegmentSource} {w : WrittenSegment}
    (h : writeSegment evp key encryptor s = some w) :
    framesStart w.file = dataOffset evp key encryptor.isSome s.dict := by
  obtain ⟨info, spec⟩ := writeSegment_padded_spec laws h
  obtain ⟨hok, -, -, -⟩ := writeSegment_eq_some h
  obtain ⟨-, -, -, extension, -, -, hext, hoff, -⟩ :=
    segmentWriteHeader_ok evp laws key encryptor s.header s.dict hok
  obtain ⟨-, hheader, hoffset⟩ := (segmentParseHeader_eq_some_iff _ _ _ _).mp spec.parse
  have hdict : (readHeaderFields w.file).dictLen.toNat = s.dict.length := by
    rw [← hheader]
    have hle := spec.dict_le
    simp only [SegmentSource.padded, uint32Max] at hle
    simp only [SegmentSource.storedHeader, SegmentSource.padded, UInt32.toNat_ofNat']
    omega
  have hsize : headerSize w.file < 2 ^ 32 := (readU32Le (w.file.drop 12)).toNat_lt
  have hhead : w.head.length = dataOffset evp key encryptor.isSome s.dict := spec.head_length
  have hstart : framesStart w.file = headerSize w.file + s.dict.length := by
    rw [framesStart, hdict]
  simp only [uint32Max] at hext
  omega

end Recorder.Analysis
