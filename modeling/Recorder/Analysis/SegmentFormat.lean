import Recorder.Model.SegmentScan

/-!
# What the scanner recognises at a frame boundary

`footerAt_eq_some_iff`: the footer test succeeds on exactly the byte strings that start
with an image of `segment_write_footer`. `scanStep_eq_frame_iff`: one turn of the loop
finds a frame exactly when the bytes start with a frame whose lengths agree and whose CRC
matches (`IsFrame`) and are not such a footer image. The footer test comes first, and
nothing in a frame keeps it from succeeding.
-/

set_option autoImplicit false

namespace Recorder.Analysis

open Recorder.Model

/-! ## Footers -/

@[simp] theorem length_segmentFooterMagic : segmentFooterMagic.length = 8 := rfl

@[simp] theorem length_footerBody (f : SegmentFooter) : (footerBody f).length = 32 := rfl

@[simp] theorem length_footerTrailer : footerTrailer.length = 12 := rfl

@[simp] theorem length_footerImage (f : SegmentFooter) : (footerImage f).length = 48 := rfl

/-- The bytes start with a footer that `segment_write_footer` could have written: the
checksummed footer image of the format. -/
def FooterImage (p : Bytes) : Prop := ∃ f : SegmentFooter, p.take 48 = footerImage f

/-- Consecutive slices of a buffer are the longer slice. -/
theorem take_append_drop_take (p : Bytes) (a b : ℕ) :
    p.take a ++ (p.drop a).take b = p.take (a + b) := by
  rw [List.take_add]

/-- INTERNAL: the five fields of a footer body, read at their offsets, write the body. -/
private theorem footerBody_read (p : Bytes) (h : 32 ≤ p.length) (present : Bool) :
    footerBody ⟨readU32Le p, readU32Le (p.drop 4), readU64Le (p.drop 8),
      readU64Le (p.drop 16), readU64Le (p.drop 24), present⟩ = p.take 32 := by
  unfold footerBody
  rw [writeU32Le_read p (by omega), writeU32Le_read _ (by simp; omega),
    writeU64Le_read _ (by simp; omega), writeU64Le_read _ (by simp; omega),
    writeU64Le_read _ (by simp; omega)]
  rw [take_append_drop_take, take_append_drop_take, take_append_drop_take,
    take_append_drop_take]

/-- INTERNAL: version and magic in place are the footer trailer. -/
private theorem footerTrailer_read (p : Bytes) (h : 48 ≤ p.length)
    (hv : readU32Le (p.drop 36) = segmentVersion)
    (hm : (p.drop 40).take 8 = segmentFooterMagic) :
    (p.drop 36).take 12 = footerTrailer := by
  have hw : (p.drop 36).take 4 = writeU32Le segmentVersion := by
    rw [← hv, writeU32Le_read _ (by simp; omega)]
  have hs : (p.drop 36).take 12 = (p.drop 36).take 4 ++ (p.drop 40).take 8 := by
    rw [show (12 : ℕ) = 4 + 8 from rfl, List.take_add, List.drop_drop]
  rw [hs, hw, hm]
  rfl

/-- INTERNAL: the footer test reads a written footer back.
SOURCE: segment.c:347-367, 589-611 -/
private theorem footerAt_footerImage (f : SegmentFooter) (rest : Bytes) :
    footerAt (footerImage f ++ rest) = some { f with present := true } := by
  set p := footerImage f ++ rest with hp
  -- each field sits at its offset, followed by the rest of the image
  have h0 : p = writeU32Le f.footerFlags ++ p.drop 4 := rfl
  have h4 : p.drop 4 = writeU32Le f.rotationReason ++ p.drop 8 := rfl
  have h8 : p.drop 8 = writeU64Le f.entryCount ++ p.drop 16 := rfl
  have h16 : p.drop 16 = writeU64Le f.lastRealtimeTs ++ p.drop 24 := rfl
  have h24 : p.drop 24 = writeU64Le f.lastMonotonicTs ++ p.drop 32 := rfl
  have h32 : p.drop 32 = writeU32Le (recorderCrc32 (footerBody f ++ writeU32Le 0 ++
      footerTrailer)) ++ p.drop 36 := rfl
  have h36 : p.drop 36 = writeU32Le segmentVersion ++ p.drop 40 := rfl
  have hmagic : (p.drop 40).take 8 = segmentFooterMagic := rfl
  have htrailer : (p.drop 36).take 12 = footerTrailer := rfl
  have hbody : p.take 32 = footerBody f := rfl
  have hlen : 48 ≤ p.length := by simp [hp]
  have hversion : readU32Le (p.drop 36) = segmentVersion := by rw [h36, readU32Le_write]
  have hcrc : readU32Le (p.drop 32) = recorderCrc32 (footerBody f ++ writeU32Le 0 ++
      footerTrailer) := by rw [h32, readU32Le_write]
  have hflags : readU32Le p = f.footerFlags := by rw [h0, readU32Le_write]
  have hreason : readU32Le (p.drop 4) = f.rotationReason := by rw [h4, readU32Le_write]
  have hcount : readU64Le (p.drop 8) = f.entryCount := by rw [h8, readU64Le_write]
  have hrt : readU64Le (p.drop 16) = f.lastRealtimeTs := by rw [h16, readU64Le_write]
  have hmono : readU64Le (p.drop 24) = f.lastMonotonicTs := by rw [h24, readU64Le_write]
  unfold footerAt
  simp [segmentFooterSize, hlen, hmagic, hversion, htrailer, hbody, hcrc, hflags, hreason,
    hcount, hrt, hmono]

/-- **The footer test recognises exactly the footer images**: it reads the footer whose
image the next 48 bytes are.
SOURCE: segment.c:589-611 -/
theorem footerAt_eq_some_iff (p : Bytes) (g : SegmentFooter) :
    footerAt p = some g ↔ p.take 48 = footerImage g ∧ g.present = true := by
  constructor
  · intro h
    unfold footerAt at h
    split at h
    · rename_i hc
      rw [Bool.and_eq_true, Bool.and_eq_true, decide_eq_true_eq, beq_iff_eq,
        beq_iff_eq] at hc
      obtain ⟨⟨hlen, hmagic⟩, hversion⟩ := hc
      have hlen : 48 ≤ p.length := hlen
      have htrailer := footerTrailer_read p hlen hversion hmagic
      simp only [htrailer, beq_iff_eq] at h
      split at h
      · rename_i hcrc
        obtain rfl := Option.some.inj h
        refine ⟨?_, rfl⟩
        unfold footerImage
        rw [footerBody_read p (by omega), ← hcrc, writeU32Le_read _ (by simp; omega),
          ← htrailer, take_append_drop_take, take_append_drop_take]
      · cases h
    · cases h
  · rintro ⟨himage, hpresent⟩
    have hp : p = footerImage g ++ p.drop 48 := by rw [← himage, List.take_append_drop]
    rw [hp, footerAt_footerImage, ← hpresent]

/-- The footer test fails exactly where no footer image starts. -/
theorem footerAt_eq_none_iff (p : Bytes) : footerAt p = none ↔ ¬ FooterImage p := by
  constructor
  · rintro h ⟨f, hf⟩
    have : footerAt p = some { f with present := true } :=
      (footerAt_eq_some_iff p _).mpr ⟨hf, rfl⟩
    rw [h] at this
    cases this
  · intro h
    cases hf : footerAt p with
    | none => rfl
    | some g => exact absurd ⟨g, ((footerAt_eq_some_iff p g).mp hf).1⟩ h

/-- The footer test on a buffer that ends earlier: the same, or nothing once fewer than
48 bytes are left. -/
theorem footerAt_take (p : Bytes) (m : ℕ) :
    footerAt (p.take m) = if 48 ≤ m then footerAt p else none := by
  split
  · rename_i hm
    apply Option.ext
    intro g
    simp only [footerAt_eq_some_iff, List.take_take, min_eq_left hm]
  · rename_i hm
    rw [footerAt_eq_none_iff]
    rintro ⟨f, hf⟩
    have := congrArg List.length hf
    simp only [length_footerImage, List.length_take] at this
    omega

/-- The bytes behind a 16-byte frame header that complete it to a footer: after the first
16 of them stand the CRC of what would be the footer, the format version and the footer
magic. -/
def CompletesFooter (header rest : Bytes) : Prop :=
  (rest.drop 16).take 16 =
    writeU32Le (recorderCrc32 (header ++ rest.take 16 ++ writeU32Le 0 ++ footerTrailer)) ++
      footerTrailer

/-- A footer image that starts with a given frame header. -/
theorem footerImage_iff_completesFooter (header rest : Bytes) (hh : header.length = 16) :
    FooterImage (header ++ rest) ↔ CompletesFooter header rest := by
  have hsplit : (header ++ rest).take 48 =
      (header ++ rest.take 16) ++ (rest.drop 16).take 16 := by
    rw [List.take_append, List.take_of_length_le (by omega), hh, List.append_assoc,
      take_append_drop_take]
  constructor
  · rintro ⟨f, hf⟩
    rw [hsplit] at hf
    have hlen := congrArg List.length hf
    simp only [List.length_append, List.length_take, List.length_drop, length_footerImage,
      hh] at hlen
    unfold footerImage at hf
    rw [List.append_assoc (footerBody f)] at hf
    obtain ⟨hbody, htrail⟩ := List.append_inj hf (by simp [hh]; omega)
    unfold CompletesFooter
    rw [htrail, hbody]
  · intro h
    have hlen := congrArg List.length h
    simp only [List.length_append, List.length_take, List.length_drop, length_writeU32Le,
      length_footerTrailer] at hlen
    obtain ⟨f, hbody⟩ : ∃ f, footerBody f = (header ++ rest).take 32 :=
      ⟨_, footerBody_read (header ++ rest) (by simp [hh]; omega) true⟩
    have htake : (header ++ rest).take 32 = header ++ rest.take 16 := by
      rw [List.take_append, List.take_of_length_le (by omega), hh]
    refine ⟨f, ?_⟩
    rw [hsplit, footerImage, hbody, htake, h]
    simp only [List.append_assoc]

/-! ## Frames -/

/-- A byte string that is one whole frame of a plain or encrypted segment: its length
fields agree with its length and its CRC matches.
SOURCE: segment.c:612-654 -/
structure IsFrame (encrypted : Bool) (bs : Bytes) : Prop where
  length_eq : bs.length = 16 + (readU32Le (bs.drop 4)).toNat + tagLen encrypted + 4
  frameLen_eq : (readU32Le (bs.drop 12)).toNat = bs.length
  crc_eq : frameCrcMatches encrypted bs (readU32Le (bs.drop 4)).toNat = true

/-- INTERNAL: a word that lies inside the first part of a concatenation. -/
theorem readU32Le_drop_append (bs rest : Bytes) (n : ℕ) (h : n + 4 ≤ bs.length) :
    readU32Le ((bs ++ rest).drop n) = readU32Le (bs.drop n) := by
  rw [List.drop_append_of_le_length (by omega)]
  rw [← readU32Le_take (bs.drop n ++ rest) 4 le_rfl, ← readU32Le_take (bs.drop n) 4 le_rfl]
  rw [List.take_append_of_le_length (by simp; omega)]

/-- A frame is at least its header and its CRC. -/
theorem IsFrame.le_length {encrypted : Bool} {bs : Bytes} (h : IsFrame encrypted bs) :
    20 + tagLen encrypted ≤ bs.length := by
  have := h.length_eq
  omega

/-- The CRC check looks at the frame's own bytes only. -/
theorem frameCrcMatches_append (encrypted : Bool) (bs rest : Bytes) (n : ℕ)
    (h : 16 + n + tagLen encrypted + 4 ≤ bs.length) :
    frameCrcMatches encrypted (bs ++ rest) n = frameCrcMatches encrypted bs n := by
  simp only [frameCrcMatches, segmentFrameHeaderSize]
  rw [readU32Le_drop_append bs rest _ (by omega)]
  rw [List.take_append_of_le_length (by omega)]
  rw [List.drop_append_of_le_length (by omega), List.drop_append_of_le_length (by omega)]
  rw [List.take_append_of_le_length (by simp; omega),
    List.take_append_of_le_length (by simp; omega)]

/-- The header fields of a frame are its own bytes. -/
theorem frameInfoAt_append (bs rest : Bytes) (offset : ℕ) (h : 16 ≤ bs.length) :
    frameInfoAt (bs ++ rest) offset = frameInfoAt bs offset := by
  unfold frameInfoAt
  rw [show bs ++ rest = (bs ++ rest).drop 0 from rfl, readU32Le_drop_append bs rest 0 (by omega)]
  simp only [List.drop_zero]
  rw [readU32Le_drop_append bs rest 4 (by omega), readU32Le_drop_append bs rest 8 (by omega),
    readU32Le_drop_append bs rest 12 (by omega)]

/-- The footer test comes first: a turn of the loop finds a footer exactly when the test
does. -/
theorem scanStep_eq_footer_iff (encrypted : Bool) (p : Bytes) (offset : ℕ) (f : SegmentFooter) :
    scanStep encrypted p offset = .footer f ↔ footerAt p = some f := by
  unfold scanStep
  cases footerAt p with
  | some g => simp
  | none =>
    simp only [reduceCtorEq, iff_false]
    intro h
    split at h
    · cases h
    · split at h
      · split at h <;> cases h
      · split at h
        · cases h
        · split at h
          · split at h <;> cases h
          · cases h

/-- The frame loop has no error exit for a plain segment. -/
theorem scanStep_plain_ne_corrupt (p : Bytes) (offset : ℕ) :
    scanStep false p offset ≠ .corrupt := by
  unfold scanStep
  cases footerAt p with
  | some g => simp
  | none =>
    simp only [Bool.false_eq_true, if_false]
    split
    · simp
    · split
      · simp
      · split
        · simp
        · split <;> simp

/-- One turn of the loop on a frame that is not the start of a footer image.
SOURCE: segment.c:582-654 -/
theorem scanStep_of_isFrame {encrypted : Bool} {bs : Bytes} (rest : Bytes) (offset : ℕ)
    (hbs : IsFrame encrypted bs) (hfooter : footerAt (bs ++ rest) = none) :
    scanStep encrypted (bs ++ rest) offset = .frame (frameInfoAt bs offset) := by
  have hle := hbs.le_length
  have hlen := hbs.length_eq
  have hfl := hbs.frameLen_eq
  have hcrc := hbs.crc_eq
  have h32 : (readU32Le (bs.drop 12)).toNat < 4294967296 := (readU32Le (bs.drop 12)).toNat_lt
  have hshort : ¬ (bs ++ rest).length < segmentFrameHeaderSize + 4 + tagLen encrypted := by
    simp only [List.length_append, segmentFrameHeaderSize]
    omega
  have hcrc' : frameCrcMatches encrypted (bs ++ rest) (readU32Le (bs.drop 4)).toNat = true := by
    rw [frameCrcMatches_append encrypted bs rest _ (by omega), hcrc]
  have hbig : ¬ 4294967295 < bs.length := by omega
  have hfit : ¬ bs.length > bs.length + rest.length := by omega
  unfold scanStep
  rw [hfooter]
  simp only [hshort, if_false, frameInfoAt_append bs rest offset (show 16 ≤ bs.length by omega)]
  simp only [frameInfoAt, segmentFrameHeaderSize, uint32Max, hcrc', hfl]
  simp [hbig, ← hlen, hfit]

/-- **What a frame at a boundary is**: one turn of the loop finds a frame exactly when
the bytes start with one and no footer image starts there.
SOURCE: segment.c:582-654 -/
theorem scanStep_eq_frame_iff (encrypted : Bool) (p : Bytes) (offset : ℕ)
    (info : SegmentFrameInfo) :
    scanStep encrypted p offset = .frame info ↔
      ¬ FooterImage p ∧ info = frameInfoAt p offset ∧ info.frameLen.toNat ≤ p.length ∧
        IsFrame encrypted (p.take info.frameLen.toNat) := by
  constructor
  · intro h
    unfold scanStep at h
    cases hf : footerAt p with
    | some f => rw [hf] at h; cases h
    | none =>
      rw [hf] at h
      simp only [segmentFrameHeaderSize, uint32Max] at h
      split at h
      · cases h
      · rename_i hshort
        split at h
        · split at h <;> cases h
        · rename_i hlens
          split at h
          · cases h
          · rename_i hfit
            split at h
            · split at h <;> cases h
            · rename_i hcrc
              cases h
              simp only [Bool.or_eq_true, decide_eq_true_eq, bne_iff_ne, not_or, not_not,
                not_lt] at hlens
              simp only [Bool.not_eq_true', Bool.not_eq_false] at hcrc
              obtain ⟨hbig, hlen⟩ := hlens
              refine ⟨(footerAt_eq_none_iff p).mp hf, rfl, by omega, ?_⟩
              set n := (frameInfoAt p offset).frameLen.toNat with hn
              have hp : p.take n ++ p.drop n = p := List.take_append_drop n p
              have htl : (p.take n).length = n := by rw [List.length_take]; omega
              have h4 : readU32Le ((p.take n).drop 4) = readU32Le (p.drop 4) := by
                rw [← readU32Le_drop_append (p.take n) (p.drop n) 4 (by omega), hp]
              have h12 : readU32Le ((p.take n).drop 12) = readU32Le (p.drop 12) := by
                rw [← readU32Le_drop_append (p.take n) (p.drop n) 12 (by omega), hp]
              simp only [frameInfoAt] at hlen hcrc hn
              refine ⟨?_, ?_, ?_⟩
              · rw [htl, h4]
                exact hlen
              · rw [htl, h12, hn]
              · rw [h4, ← frameCrcMatches_append encrypted (p.take n) (p.drop n) _ (by omega), hp]
                exact hcrc
  · rintro ⟨hfooter, rfl, hle, hframe⟩
    set n := (frameInfoAt p offset).frameLen.toNat with hn
    have hp : p.take n ++ p.drop n = p := List.take_append_drop n p
    have hnone : footerAt (p.take n ++ p.drop n) = none := by
      rw [hp]; exact (footerAt_eq_none_iff p).mpr hfooter
    have h := scanStep_of_isFrame (p.drop n) offset hframe hnone
    have hinfo : frameInfoAt (p.take n) offset = frameInfoAt p offset := by
      rw [← frameInfoAt_append (p.take n) (p.drop n) offset
        (by have := hframe.le_length; omega), hp]
    rw [hp, hinfo] at h
    exact h

end Recorder.Analysis
