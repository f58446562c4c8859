import Recorder.Analysis.SingleFrame
import Recorder.Model.SegmentAccess

/-!
# The lengths the segment scanner computes

The scanner adds up lengths that a file gives as 32-bit words. The data offset is a sum of two
such words and wraps where header and dictionary take 4 GiB; the length of a frame is a sum of
`size_t`, which wraps with 32-bit sizes, where the check against `UINT32_MAX` says nothing.

**Main result** (`lengths_exact_iff`): for buffers of any size that `size_t` can hold, the
lengths are what they stand for exactly where the input lets neither of the two sums wrap.
`lengths_wrap` has an input for each. Up to the length checks every read is inside the buffer
for both widths (`frameHeadAt_eq`), and a whole turn up to the callback with 64-bit sizes
(`scanStepAt_eq`).
-/

set_option autoImplicit false

namespace Recorder.Analysis

open Recorder.Model

/-! ## Reads -/

section Reads

variable {buf : Bytes} {i n w : ℕ}

theorem loadBytes_eq (h : i + n ≤ buf.length) :
    loadBytes buf i n = some ((buf.drop i).take n) := by
  unfold loadBytes load
  rw [if_pos ⟨Int.natCast_nonneg i, by exact_mod_cast h⟩, Int.toNat_natCast]

theorem loadBytes_eq_none (h : buf.length < i + n) : loadBytes buf i n = none := by
  unfold loadBytes load
  rw [if_neg]
  rintro ⟨-, hle⟩
  have hle : i + n ≤ buf.length := by exact_mod_cast hle
  omega

theorem loadU32_eq (h : i + 4 ≤ buf.length) : loadU32 buf i = some (readU32Le (buf.drop i)) := by
  unfold loadU32
  rw [loadBytes_eq h, Option.map_some, readU32Le_take _ 4 (Nat.le_refl 4)]

theorem loadU64_eq (h : i + 8 ≤ buf.length) : loadU64 buf i = some (readU64Le (buf.drop i)) := by
  unfold loadU64
  rw [loadBytes_eq h, Option.map_some, readU64Le_take _ 8 (Nat.le_refl 8)]

theorem sizeSub_eq {a b : ℕ} (hb : b ≤ a) (ha : a < 2 ^ w) : sizeSub w a b = a - b := by
  unfold sizeSub
  have hsum : a + 2 ^ w - b = (a - b) + 2 ^ w := by omega
  rw [hsum, Nat.add_mod_right, Nat.mod_eq_of_lt (by omega)]

theorem sizeT_eq (h : n < 2 ^ w) : sizeT w n = n := Nat.mod_eq_of_lt h

end Reads

/-! ## A turn of the loop -/

section Turn

variable {w : ℕ} {encrypted : Bool} {buf : Bytes} {offset : ℕ}

/-- The footer test reads the 48 bytes it has found to be there. -/
theorem footerLoad_eq (hoffset : offset ≤ buf.length) (hbuf : buf.length < 2 ^ w) :
    footerLoad w buf offset = some (footerAt (buf.drop offset)) := by
  have hlength : (buf.drop offset).length = buf.length - offset := List.length_drop
  unfold footerLoad footerAt
  rw [sizeSub_eq hoffset hbuf]
  by_cases hshort : buf.length - offset < segmentFooterSize
  · rw [if_pos hshort, hlength, decide_eq_false (Nat.not_le.mpr hshort)]
    rfl
  · have hroom : offset + 48 ≤ buf.length := by
      simp only [segmentFooterSize] at hshort
      omega
    have htmp : ((buf.drop offset).take segmentFooterSize).take 32 ++ writeU32Le 0 ++
        ((buf.drop offset).take segmentFooterSize).drop 36 =
        (buf.drop offset).take 32 ++ writeU32Le 0 ++ (buf.drop (offset + 36)).take 12 := by
      rw [List.take_take, List.drop_take, List.drop_drop]
      rfl
    rw [if_neg hshort, hlength, decide_eq_true (Nat.not_lt.mp hshort), Bool.true_and,
      loadBytes_eq (by omega), loadU32_eq (by omega), loadU32_eq (by omega),
      loadBytes_eq (by simpa using hroom), loadU32_eq (by omega), loadU32_eq (by omega),
      loadU64_eq (by omega), loadU64_eq (by omega), loadU64_eq (by omega)]
    simp only [Option.bind_eq_bind, Option.bind_some, htmp, List.drop_drop]
    generalize recorderCrc32 _ = crc
    by_cases hmagic : (buf.drop (offset + 40)).take 8 = segmentFooterMagic
    · by_cases hversion : readU32Le (buf.drop (offset + 36)) = segmentVersion
      · by_cases hcrc : readU32Le (buf.drop (offset + 32)) = crc
        · simp [hmagic, hversion, hcrc]
        · simp [hmagic, hversion, hcrc]
      · simp [hmagic, hversion]
    · simp [hmagic]

/-- What the length checks let pass. -/
theorem lengthCheck_eq_pass_iff {rest : ℕ} {storedLen totalLen : UInt32} :
    lengthCheck w encrypted rest storedLen totalLen = .pass ↔
      sizeT w (segmentFrameHeaderSize + storedLen.toNat + tagLen encrypted + 4) ≤ uint32Max ∧
        totalLen.toNat = sizeT w (segmentFrameHeaderSize + storedLen.toNat + tagLen encrypted + 4) ∧
          totalLen.toNat ≤ rest := by
  unfold lengthCheck
  by_cases hmismatch : sizeT w (segmentFrameHeaderSize + storedLen.toNat + tagLen encrypted + 4) >
      uint32Max ∨ totalLen.toNat ≠
        sizeT w (segmentFrameHeaderSize + storedLen.toNat + tagLen encrypted + 4)
  · rw [if_pos hmismatch]
    constructor
    · intro h
      cases h
    · rintro ⟨hle, heq, -⟩
      cases hmismatch with
      | inl hgt => exact absurd hle (Nat.not_le.mpr hgt)
      | inr hne => exact absurd heq hne
  · rw [if_neg hmismatch]
    rw [not_or, not_lt, not_not] at hmismatch
    by_cases htorn : totalLen.toNat > rest
    · rw [if_pos htorn]
      constructor
      · intro h
        cases h
      · rintro ⟨-, -, hle⟩
        exact absurd hle (Nat.not_le.mpr htorn)
    · rw [if_neg htorn]
      exact iff_of_true rfl ⟨hmismatch.1, hmismatch.2, Nat.not_lt.mp htorn⟩

/-- A frame header the loop looks at: there is no footer, and there are bytes enough. -/
structure FrameHeaderAt (encrypted : Bool) (buf : Bytes) (offset : ℕ) (info : SegmentFrameInfo) :
    Prop where
  no_footer : footerAt (buf.drop offset) = none
  room : segmentFrameHeaderSize + 4 + tagLen encrypted ≤ (buf.drop offset).length
  info_eq : info = frameInfoAt (buf.drop offset) offset

/-- **A turn up to the length checks** reads the frame header inside the buffer, whatever the
width of `size_t`. -/
theorem frameHeadAt_eq (hoffset : offset ≤ buf.length) (hbuf : buf.length < 2 ^ w) :
    frameHeadAt w encrypted buf offset = some
      (match footerAt (buf.drop offset) with
      | some f => .error (.footer f)
      | none =>
        if (buf.drop offset).length < segmentFrameHeaderSize + 4 + tagLen encrypted then
          .error .stop
        else
          match lengthCheck w encrypted (buf.drop offset).length
              (frameInfoAt (buf.drop offset) offset).storedLen
              (frameInfoAt (buf.drop offset) offset).frameLen with
          | .mismatch => .error (if encrypted then .corrupt else .stop)
          | .torn => .error .stop
          | .pass => .ok (frameInfoAt (buf.drop offset) offset)) := by
  have hlength : (buf.drop offset).length = buf.length - offset := List.length_drop
  unfold frameHeadAt
  rw [footerLoad_eq hoffset hbuf, sizeSub_eq hoffset hbuf, ← hlength]
  simp only [Option.bind_eq_bind, Option.bind_some]
  cases footerAt (buf.drop offset) with
  | some f => rfl
  | none =>
    by_cases hshort : (buf.drop offset).length < segmentFrameHeaderSize + 4 + tagLen encrypted
    · simp only [if_pos hshort]
      rfl
    · have hroom : offset + 20 ≤ buf.length := by
        simp only [segmentFrameHeaderSize] at hshort
        omega
      simp only [if_neg hshort]
      rw [loadU32_eq (by omega), loadU32_eq (by omega), loadU32_eq (by omega),
        loadU32_eq (by omega)]
      simp only [Option.bind_some, frameInfoAt, List.drop_drop]
      cases lengthCheck w encrypted (buf.drop offset).length (readU32Le (buf.drop (offset + 4)))
        (readU32Le (buf.drop (offset + 12))) <;> rfl

/-- Where the loop goes past its length checks. -/
theorem frameHeadAt_eq_ok_iff (hoffset : offset ≤ buf.length) (hbuf : buf.length < 2 ^ w)
    {info : SegmentFrameInfo} :
    frameHeadAt w encrypted buf offset = some (.ok info) ↔
      FrameHeaderAt encrypted buf offset info ∧
        lengthCheck w encrypted (buf.drop offset).length info.storedLen info.frameLen = .pass := by
  rw [frameHeadAt_eq hoffset hbuf, Option.some_inj]
  constructor
  · intro h
    split at h
    · cases h
    · rename_i hfooter
      split at h
      · cases h
      · rename_i hshort
        split at h
        · cases h
        · cases h
        · rename_i hpass
          cases h
          exact ⟨⟨hfooter, Nat.not_lt.mp hshort, rfl⟩, hpass⟩
  · rintro ⟨⟨hfooter, hroom, rfl⟩, hpass⟩
    rw [hfooter]
    simp only [if_neg (Nat.not_lt.mpr hroom), hpass]

/-- The checksum is read inside the buffer where the lengths are what they say. -/
theorem frameCrcAt_eq {info : SegmentFrameInfo}
    (hroom : offset + (segmentFrameHeaderSize + info.storedLen.toNat + tagLen encrypted + 4) ≤
      buf.length) :
    frameCrcAt encrypted buf offset info = some
      (if !frameCrcMatches encrypted (buf.drop offset) info.storedLen.toNat then
        if encrypted then .corrupt else .stop
      else .frame info) := by
  simp only [segmentFrameHeaderSize] at hroom
  unfold frameCrcAt frameCrcMatches
  simp only [segmentFrameHeaderSize]
  rw [loadU32_eq (by omega), loadBytes_eq (by omega), loadBytes_eq (by omega),
    loadBytes_eq (by omega)]
  simp only [Option.bind_eq_bind, Option.bind_some, List.drop_drop, ← Nat.add_assoc]
  generalize frameCrc _ _ _ = crc
  by_cases hcrc : readU32Le (buf.drop (offset + 16 + info.storedLen.toNat + tagLen encrypted)) = crc
  · simp [hcrc]
  · simp [hcrc]

/-- And outside of it where they are not. -/
theorem frameCrcAt_eq_none {info : SegmentFrameInfo}
    (hroom : buf.length < offset +
      (segmentFrameHeaderSize + info.storedLen.toNat + tagLen encrypted + 4)) :
    frameCrcAt encrypted buf offset info = none := by
  have hnone : loadU32 buf (offset + segmentFrameHeaderSize + info.storedLen.toNat +
      tagLen encrypted) = none := by
    unfold loadU32
    rw [loadBytes_eq_none (by omega)]
    rfl
  simp only [frameCrcAt, hnone]
  rfl

theorem lengthSum_lt (storedLen : UInt32) :
    segmentFrameHeaderSize + storedLen.toNat + tagLen encrypted + 4 < 2 ^ 33 := by
  have hstored := storedLen.toNat_lt
  have htag : tagLen encrypted ≤ 16 := by cases encrypted <;> decide
  simp only [segmentFrameHeaderSize]
  omega

/-- **With 64-bit sizes every read of a turn is inside the buffer**, and the turn is the one of
the model without reads. -/
theorem scanStepAt_eq (hoffset : offset ≤ buf.length) (hbuf : buf.length < 2 ^ 64) :
    scanStepAt 64 encrypted buf offset = some (scanStep encrypted (buf.drop offset) offset) := by
  have hlength : (buf.drop offset).length = buf.length - offset := List.length_drop
  unfold scanStepAt scanStep
  rw [frameHeadAt_eq hoffset hbuf]
  simp only [Option.bind_eq_bind, Option.bind_some]
  cases footerAt (buf.drop offset) with
  | some f => rfl
  | none =>
    by_cases hshort : (buf.drop offset).length < segmentFrameHeaderSize + 4 + tagLen encrypted
    · simp only [if_pos hshort]
      rfl
    · simp only [if_neg hshort]
      set info := frameInfoAt (buf.drop offset) offset with hinfo
      have hsum : segmentFrameHeaderSize + info.storedLen.toNat + tagLen encrypted + 4 < 2 ^ 33 :=
        lengthSum_lt info.storedLen
      have hsize : sizeT 64 (segmentFrameHeaderSize + info.storedLen.toNat + tagLen encrypted + 4) =
          segmentFrameHeaderSize + info.storedLen.toNat + tagLen encrypted + 4 :=
        sizeT_eq (by omega)
      unfold lengthCheck
      simp only [hsize]
      by_cases hmismatch : segmentFrameHeaderSize + info.storedLen.toNat + tagLen encrypted + 4 >
          uint32Max ∨ info.frameLen.toNat ≠
            segmentFrameHeaderSize + info.storedLen.toNat + tagLen encrypted + 4
      · have hmismatch' : (decide (segmentFrameHeaderSize + info.storedLen.toNat +
            tagLen encrypted + 4 > uint32Max) || info.frameLen.toNat !=
              segmentFrameHeaderSize + info.storedLen.toNat + tagLen encrypted + 4) = true := by
          simpa using hmismatch
        rw [if_pos hmismatch, if_pos hmismatch']
        rfl
      · have hmismatch' : ¬ (decide (segmentFrameHeaderSize + info.storedLen.toNat +
            tagLen encrypted + 4 > uint32Max) || info.frameLen.toNat !=
              segmentFrameHeaderSize + info.storedLen.toNat + tagLen encrypted + 4) = true := by
          simpa using hmismatch
        rw [if_neg hmismatch, if_neg hmismatch']
        rw [not_or, not_not] at hmismatch
        by_cases htorn : info.frameLen.toNat > (buf.drop offset).length
        · rw [if_pos htorn, if_pos htorn]
          rfl
        · rw [if_neg htorn, if_neg htorn]
          exact frameCrcAt_eq (by omega)

/-! ## The lengths -/

/-- Where the loop comes to, over whole frames. -/
inductive Boundary (w : ℕ) (encrypted : Bool) (buf : Bytes) (start : ℕ) : ℕ → Prop
  | start : Boundary w encrypted buf start start
  | next {offset : ℕ} {info : SegmentFrameInfo} (reached : Boundary w encrypted buf start offset)
    (lt : offset < buf.length) (step : scanStepAt w encrypted buf offset = some (.frame info)) :
    Boundary w encrypted buf start (sizeT w (offset + info.frameLen.toNat))

/-- The sum of the lengths of a frame, which `total_len` is to be. -/
def lengthSum (encrypted : Bool) (info : SegmentFrameInfo) : ℕ :=
  segmentFrameHeaderSize + info.storedLen.toNat + tagLen encrypted + 4

/-- A turn that passes a frame has read all of it. -/
theorem frame_inside (hoffset : offset ≤ buf.length) (hbuf : buf.length < 2 ^ w)
    {info : SegmentFrameInfo} (hstep : scanStepAt w encrypted buf offset = some (.frame info)) :
    frameHeadAt w encrypted buf offset = some (.ok info) ∧
      offset + lengthSum encrypted info ≤ buf.length := by
  have hhead := @frameHeadAt_eq w encrypted buf offset hoffset hbuf
  unfold scanStepAt at hstep
  cases hresult : frameHeadAt w encrypted buf offset with
  | none =>
    rw [hresult] at hhead
    cases hhead
  | some head =>
    rw [hresult] at hstep hhead
    cases head with
    | error step =>
      -- a turn that has ended before has found no frame
      have hstep : step = .frame info := Option.some.inj hstep
      rw [Option.some_inj, hstep] at hhead
      split at hhead
      · cases hhead
      · split at hhead
        · cases hhead
        · split at hhead
          · cases encrypted <;> cases hhead
          · cases hhead
          · cases hhead
    | ok info' =>
      have hstep : frameCrcAt encrypted buf offset info' = some (.frame info) := hstep
      by_cases hroom : buf.length < offset + lengthSum encrypted info'
      · rw [frameCrcAt_eq_none hroom] at hstep
        cases hstep
      · have hroom : offset + lengthSum encrypted info' ≤ buf.length := Nat.not_lt.mp hroom
        rw [frameCrcAt_eq hroom, Option.some_inj] at hstep
        split at hstep
        · cases encrypted <;> cases hstep
        · cases hstep
          exact ⟨rfl, hroom⟩

theorem Boundary.le_length {start : ℕ} (hbuf : buf.length < 2 ^ w) (hstart : start ≤ buf.length)
    (h : Boundary w encrypted buf start offset) : offset ≤ buf.length := by
  induction h with
  | start => exact hstart
  | @next offset info reached lt step ih =>
    obtain ⟨hhead, hroom⟩ := frame_inside ih hbuf step
    obtain ⟨-, hpass⟩ := (frameHeadAt_eq_ok_iff ih hbuf).mp hhead
    obtain ⟨-, hlen, -⟩ := lengthCheck_eq_pass_iff.mp hpass
    have hle : info.frameLen.toNat ≤ lengthSum encrypted info := by
      rw [hlen]
      exact Nat.mod_le _ _
    exact (Nat.mod_le _ _).trans (by omega)

end Turn

section Lengths

variable {w : ℕ} {buf : Bytes}

/-- The header is parsed alike with sizes of 32 and of 64 bits. -/
theorem segmentParseHeaderAt_eq (hw : 32 ≤ w) (hbuf : buf.length < 2 ^ w) :
    segmentParseHeaderAt w buf = segmentParseHeader buf := by
  unfold segmentParseHeaderAt segmentParseHeader
  split
  · rfl
  · split
    · rfl
    · split
      · rfl
      · simp only
        split
        · rfl
        · rename_i hsize
          simp only [Bool.or_eq_true, decide_eq_true_eq, not_or, not_lt] at hsize
          have hword : (readU32Le (buf.drop 12)).toNat < 2 ^ w :=
            lt_of_lt_of_le (readU32Le (buf.drop 12)).toNat_lt (Nat.pow_le_pow_right (by decide) hw)
          rewrite [sizeSub_eq hsize.1 hword, sizeSub_eq hsize.2 hbuf]
          rfl

/-- Whether the frames of a segment are encrypted. -/
def isSealed (header : SegmentHeader) : Bool := header.flags &&& flagEncrypted != 0

/-- The lengths are what they stand for: the data offset is the sum of header and dictionary
and lies in the buffer, and a frame the loop goes on with is as long as its parts and lies in
the buffer. -/
def LengthsExact (w : ℕ) (buf : Bytes) : Prop :=
  ∀ header start encryption, segmentParseHeaderAt w buf = some (header, start, encryption) →
    start = headerSize buf + header.dictLen.toNat ∧ start ≤ buf.length ∧
    ∀ offset info, Boundary w (isSealed header) buf start offset →
      frameHeadAt w (isSealed header) buf offset = some (.ok info) →
      info.frameLen.toNat = lengthSum (isSealed header) info ∧
        offset + info.frameLen.toNat ≤ buf.length

/-- The inputs for which they are: header and dictionary do not add up to `2^32`, and with
32-bit sizes no frame header the loop comes to has a `stored_len` so large that the sum of the
lengths is `total_len` and `2^32`. -/
def LengthsFit (w : ℕ) (buf : Bytes) : Prop :=
  ∀ header start encryption, segmentParseHeaderAt w buf = some (header, start, encryption) →
    framesStart buf < 2 ^ 32 ∧
    (w = 32 → ∀ offset info, Boundary w (isSealed header) buf start offset →
      FrameHeaderAt (isSealed header) buf offset info →
      offset + info.frameLen.toNat ≤ buf.length →
      lengthSum (isSealed header) info ≠ info.frameLen.toNat + 2 ^ 32)

/-- What the length checks let pass, for the two widths. -/
theorem lengthCheck_eq_pass_iff_wrap (hw : w = 32 ∨ w = 64) {encrypted : Bool}
    {info : SegmentFrameInfo} {rest : ℕ} :
    lengthCheck w encrypted rest info.storedLen info.frameLen = .pass ↔
      (info.frameLen.toNat = lengthSum encrypted info ∨
        w = 32 ∧ lengthSum encrypted info = info.frameLen.toNat + 2 ^ 32) ∧
      info.frameLen.toNat ≤ rest := by
  have hsum : lengthSum encrypted info < 2 ^ 33 := lengthSum_lt info.storedLen
  have htotal := info.frameLen.toNat_lt
  rw [lengthCheck_eq_pass_iff]
  show sizeT w (lengthSum encrypted info) ≤ uint32Max ∧
    info.frameLen.toNat = sizeT w (lengthSum encrypted info) ∧ info.frameLen.toNat ≤ rest ↔ _
  simp only [sizeT, uint32Max]
  cases hw with
  | inl hw =>
    subst hw
    omega
  | inr hw =>
    subst hw
    omega

/-- **The arithmetic of the lengths is exact** if and only if the lengths fit.
SOURCE: segment.c:440-503, 612-634 -/
theorem lengths_exact_iff (hw : w = 32 ∨ w = 64) (hbuf : buf.length < 2 ^ w) :
    LengthsExact w buf ↔ LengthsFit w buf := by
  have hw32 : 32 ≤ w := by omega
  have hparse := segmentParseHeaderAt_eq hw32 hbuf
  -- the data offset
  have hstart : ∀ {header start encryption},
      segmentParseHeaderAt w buf = some (header, start, encryption) →
      framesStart buf = headerSize buf + header.dictLen.toNat ∧ framesStart buf ≤ buf.length ∧
        start = framesStart buf % 2 ^ 32 := by
    intro header start encryption h
    rw [hparse] at h
    obtain ⟨⟨-, hle, -⟩, rfl, hoffset⟩ := (segmentParseHeader_eq_some_iff _ _ _ _).mp h
    exact ⟨rfl, hle, hoffset⟩
  constructor
  · intro hexact header start encryption h
    obtain ⟨hsum, hle, hmod⟩ := hstart h
    obtain ⟨heq, hin, hframes⟩ := hexact header start encryption h
    refine ⟨by omega, fun hw offset info hreached hhead hfit hwrap => ?_⟩
    have hoffset := hreached.le_length hbuf hin
    have hpass : lengthCheck w (isSealed header) (buf.drop offset).length info.storedLen
        info.frameLen = .pass := by
      rw [lengthCheck_eq_pass_iff_wrap (.inl hw), List.length_drop]
      exact ⟨.inr ⟨hw, hwrap⟩, by omega⟩
    obtain ⟨hlen, -⟩ := hframes offset info hreached
      ((frameHeadAt_eq_ok_iff hoffset hbuf).mpr ⟨hhead, hpass⟩)
    omega
  · intro hfit header start encryption h
    obtain ⟨hsum, hle, hmod⟩ := hstart h
    obtain ⟨hsmall, hframes⟩ := hfit header start encryption h
    rw [Nat.mod_eq_of_lt hsmall] at hmod
    refine ⟨by omega, by omega, fun offset info hreached hhead => ?_⟩
    have hoffset := hreached.le_length hbuf (by omega)
    obtain ⟨hheader, hpass⟩ := (frameHeadAt_eq_ok_iff hoffset hbuf).mp hhead
    obtain ⟨hlen, hrest⟩ := (lengthCheck_eq_pass_iff_wrap hw).mp hpass
    rw [List.length_drop] at hrest
    have hin : offset + info.frameLen.toNat ≤ buf.length := by omega
    cases hlen with
    | inl hlen => exact ⟨hlen, hin⟩
    | inr hwrap => exact absurd hwrap.2 (hframes hwrap.1 offset info hreached hheader hin)

end Lengths

/-! ## Lengths that wrap -/

theorem length_plainHeaderImage : (headerImage plainHeader [] []).length = 152 := by
  rw [headerImage, List.append_nil, List.append_nil, List.length_append, length_headerBody,
    length_writeU32Le]

theorem parse_plainHeaderImage (rest : Bytes) :
    segmentParseHeader (headerImage plainHeader [] [] ++ rest) =
      some ({ plainHeader with dictLen := 0 }, 152, {}) :=
  segmentParseHeader_headerImage plainHeader [] [] rest {} plainHeader_padded.1
    plainHeader_padded.2 (by decide) (by decide) rfl

/-- The loop over the segment of one frame comes to the frame and to the end behind it. -/
theorem boundary_oneFrameFile {offset : ℕ} (h : Boundary 32 false oneFrameFile 154 offset) :
    offset = 154 ∨ offset = 177 := by
  induction h with
  | start => exact .inl rfl
  | next _ lt step ih =>
    rcases ih with rfl | rfl
    · have hframe : scanStepAt 32 false oneFrameFile 154 = some (.frame ⟨0, 3, 3, 154, 23⟩) := by
        decide +kernel
      rw [hframe] at step
      cases step
      exact .inr rfl
    · rw [length_oneFrameFile] at lt
      exact absurd lt (by decide)

/-- A segment of one frame, whose frame header the loop reads. -/
theorem lengths_exact_iff_one_frame :
    LengthsExact 32 oneFrameFile ∧
      frameHeadAt 32 false oneFrameFile 154 = some (.ok ⟨0, 3, 3, 154, 23⟩) := by
  have hbuf : oneFrameFile.length < 2 ^ 32 := by
    rw [length_oneFrameFile]
    decide
  refine ⟨(lengths_exact_iff (.inl rfl) hbuf).mpr fun header start encryption h => ?_,
    by decide +kernel⟩
  rw [segmentParseHeaderAt_eq (Nat.le_refl 32) hbuf, parse_oneFrameFile] at h
  cases h
  refine ⟨by decide +kernel, fun _ offset info hreached hhead => ?_⟩
  rcases boundary_oneFrameFile hreached with rfl | rfl
  · rw [hhead.info_eq]
    decide +kernel
  · have hroom := hhead.room
    rw [List.length_drop, length_oneFrameFile] at hroom
    exact absurd hroom (by decide)

/-- Behind an empty header a frame header whose lengths add up to `2^32`. -/
def wrappingSegment : Bytes :=
  headerImage plainHeader [] [] ++ (frameHeader 0 0xffffffec 0 0 ++ [0, 0, 0, 0])

/-- **Lengths that wrap**: with 64-bit sizes the data offset of a file of more than 4 GiB, and
with 32-bit sizes the length of a frame of 172 bytes. -/
theorem lengths_wrap :
    (∃ buf : Bytes, buf.length = 2 ^ 32 + 64 ∧ ¬ LengthsExact 64 buf) ∧
      wrappingSegment.length = 172 ∧ ¬ LengthsExact 32 wrappingSegment := by
  have hlength : wrappingSegment.length = 172 := by
    rw [wrappingSegment, List.length_append, length_plainHeaderImage]
    rfl
  refine ⟨?_, hlength, fun hexact => ?_⟩
  · obtain ⟨file, header, hparse, -, hdict, hlen, -, -⟩ := zone_file false
    refine ⟨file, hlen, fun hexact => ?_⟩
    have hparse' : segmentParseHeaderAt 64 file = some (header, 64, {}) := by
      rw [segmentParseHeaderAt_eq (by decide) (by rw [hlen]; decide)]
      exact hparse
    obtain ⟨hstart, -⟩ := hexact header 64 {} hparse'
    omega
  · have hbuf : wrappingSegment.length < 2 ^ 32 := by
      rw [hlength]
      decide
    have hparse : segmentParseHeaderAt 32 wrappingSegment =
        some ({ plainHeader with dictLen := 0 }, 152, {}) := by
      rw [segmentParseHeaderAt_eq (Nat.le_refl 32) hbuf]
      exact parse_plainHeaderImage _
    have hdrop : wrappingSegment.drop 152 = frameHeader 0 0xffffffec 0 0 ++ [0, 0, 0, 0] :=
      List.drop_left' length_plainHeaderImage
    have hhead : frameHeadAt 32 false wrappingSegment 152 =
        some (.ok ⟨0, 0xffffffec, 0, 152, 0⟩) := by
      refine (frameHeadAt_eq_ok_iff (by rw [hlength]; decide) hbuf).mpr ⟨⟨?_, ?_, ?_⟩, ?_⟩
      · rw [hdrop]
        decide
      · rw [hdrop]
        decide
      · rw [hdrop]
        rfl
      · rw [hdrop]
        decide
    obtain ⟨-, -, hframes⟩ := hexact _ _ _ hparse
    obtain ⟨hlen, -⟩ := hframes 152 _ .start hhead
    exact absurd hlen (by decide)

end Recorder.Analysis
