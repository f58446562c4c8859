import Recorder.Analysis.Crc
import Recorder.Analysis.SingleFrame

/-!
# One changed byte of a segment

A changed byte of the header or the encryption extension makes the parser reject the file: the
checksum sees every byte it covers, and the one field that decides what it covers is pinned
down by the length field of the extension (`segmentParseHeader_set_eq_none`). A changed byte
of a frame makes it no frame any more: its two length fields cannot both change, and the
checksum sees the rest (`scanStep_set_ne_frame`).

`byte_change_never_delivered`: what a scan of the changed file still delivers lies in front of
the frame, and is delivered by the scan of the file as it was.
-/

set_option autoImplicit false

namespace Recorder.Analysis

open Recorder.Model

/-! ## Slices of a changed list -/

section Slices

variable {l : Bytes} {i : ℕ} {b : UInt8}

/-- A slice that the byte is not in. -/
theorem slice_set_of_outside {a n : ℕ} (h : i < a ∨ a + n ≤ i) :
    ((l.set i b).drop a).take n = (l.drop a).take n := by
  rcases h with h | h
  · rw [List.drop_set_of_lt h]
  · rw [List.drop_set, if_neg (by omega), List.take_set, List.set_eq_of_length_le]
    rw [List.length_take]
    omega

/-- A slice that the byte is in. -/
theorem slice_set_of_inside {a : ℕ} (h : a ≤ i) (n : ℕ) :
    ((l.set i b).drop a).take n = ((l.drop a).take n).set (i - a) b := by
  rw [List.drop_set, if_neg (by omega), List.take_set]

/-- A word that the byte is not in. -/
theorem readU32Le_drop_set {a : ℕ} (h : i < a ∨ a + 4 ≤ i) :
    readU32Le ((l.set i b).drop a) = readU32Le (l.drop a) := by
  rw [← readU32Le_take _ 4 le_rfl, slice_set_of_outside h, readU32Le_take _ 4 le_rfl]

/-- A word that the byte is in. -/
theorem readU32Le_drop_set_ne {a : ℕ} (ha : a ≤ i) (hi : i < a + 4) (hlen : a + 4 ≤ l.length)
    (hlt : i < l.length) (hb : b ≠ l[i]) :
    readU32Le ((l.set i b).drop a) ≠ readU32Le (l.drop a) := by
  rw [List.drop_set, if_neg (by omega)]
  refine readU32Le_set_ne (by omega) (by rw [List.length_drop]; omega) ?_
  rw [List.getElem_drop]
  simpa only [show a + (i - a) = i by omega] using hb

/-- The checksum of a slice that the byte is in. -/
theorem recorderCrc32_slice_set_ne {a n : ℕ} (ha : a ≤ i) (hi : i < a + n)
    (hlen : i < l.length) (hb : b ≠ l[i]) :
    recorderCrc32 (((l.set i b).drop a).take n) ≠ recorderCrc32 ((l.drop a).take n) := by
  rw [slice_set_of_inside ha]
  refine recorderCrc32_set_ne (by rw [List.length_take, List.length_drop]; omega) ?_
  rw [List.getElem_take, List.getElem_drop]
  simpa only [show a + (i - a) = i by omega] using hb

end Slices

/-! ## The header -/

section Header

variable {file : Bytes} {i : ℕ} {b : UInt8} {header : SegmentHeader} {offset : ℕ}
  {encryption : SegmentEncryptionInfo}

/-- The extension of an accepted header has the length it says, or there is none.
SOURCE: segment.c:460-488 -/
theorem length_of_parseEncryption {flags : UInt32} {extension : Bytes}
    (h : parseEncryption flags extension = some encryption) :
    (flags &&& flagEncrypted != 0) = true ∧ 36 ≤ extension.length ∧
        (readU32Le (extension.drop 12)).toNat = extension.length ∨
      (flags &&& flagEncrypted != 0) = false ∧ extension.length = 0 := by
  unfold parseEncryption at h
  split at h
  · rename_i hencrypted
    split at h
    · cases h
    · rename_i hchecks
      simp only [Bool.or_eq_true, bne_iff_ne, decide_eq_true_eq, not_or, not_not,
        encryptionExtensionFixedSize, noncePrefixSize] at hchecks
      exact .inl ⟨hencrypted, by omega, hchecks.1.1.2⟩
  · rename_i hplain
    split at h
    · cases h
    · rename_i hlen
      exact .inr ⟨by simpa using hplain, by simpa using hlen⟩

/-- The extension of a header, as the parser cuts it out. -/
def extensionOf (file : Bytes) : Bytes := (file.drop 152).take (headerSize file - 152)

theorem length_extensionOf (file : Bytes) (h152 : 152 ≤ headerSize file)
    (hle : headerSize file ≤ file.length) : (extensionOf file).length = headerSize file - 152 := by
  rw [extensionOf, List.length_take, List.length_drop]
  omega

/-- Header and extension are covered by the checksum unless their boundary moves. -/
theorem headerCrc_set_ne (hsize : headerSize (file.set i b) = headerSize file)
    (hle : headerSize file ≤ file.length) (h148 : i < 148 ∨ 152 ≤ i) (hi : i < headerSize file)
    (h152 : 152 ≤ headerSize file) (hlt : i < file.length) (hb : b ≠ file[i]) :
    headerCrc ((file.set i b).take 148) (extensionOf (file.set i b)) ≠
      headerCrc (file.take 148) (extensionOf file) := by
  have hlen := length_extensionOf file h152 hle
  have hlen' := length_extensionOf (file.set i b) (by omega)
    (by rw [List.length_set]; omega)
  have hbody : ∀ l : Bytes, l.take 148 = (l.drop 0).take 148 := fun _ => rfl
  unfold headerCrc
  rw [hlen', hlen, hsize]
  rcases h148 with h148 | h152'
  · have hext : extensionOf (file.set i b) = extensionOf file := by
      rw [extensionOf, extensionOf, hsize, slice_set_of_outside (by omega)]
    have hcrc := recorderCrc32_slice_set_ne (a := 0) (n := 148) (Nat.zero_le i) (by omega) hlt hb
    rw [← hbody, ← hbody] at hcrc
    rw [hext]
    split
    · exact fun h => hcrc ((UInt32.xor_left_inj _).mp h)
    · exact hcrc
  · have hbody' : (file.set i b).take 148 = file.take 148 := by
      rw [hbody, slice_set_of_outside (by omega), ← hbody]
    rw [if_pos (by omega), if_pos (by omega), hbody', extensionOf, extensionOf, hsize]
    exact fun h => recorderCrc32_slice_set_ne (by omega) (by omega) hlt hb
      ((UInt32.xor_right_inj _).mp h)

/-- **A changed byte of the header or the extension** is always noticed.
SOURCE: segment.c:419-504 -/
theorem segmentParseHeader_set_eq_none
    (hparse : segmentParseHeader file = some (header, offset, encryption))
    (hi : i < headerSize file) (hlt : i < file.length) (hb : b ≠ file[i]) :
    segmentParseHeader (file.set i b) = none := by
  rw [Option.eq_none_iff_forall_ne_some]
  rintro ⟨header', offset', encryption'⟩ hparse'
  obtain ⟨⟨h152, hstart, -, -, henc, hcrc⟩, hheader, -⟩ :=
    (segmentParseHeader_eq_some_iff _ _ _ _).mp hparse
  obtain ⟨⟨h152', hstart', -, -, henc', hcrc'⟩, hheader', -⟩ :=
    (segmentParseHeader_eq_some_iff _ _ _ _).mp hparse'
  have hle : headerSize file ≤ file.length := (Nat.le_add_right _ _).trans hstart
  have hle' : headerSize (file.set i b) ≤ file.length := by
    have h := (Nat.le_add_right _ _).trans hstart'
    rwa [List.length_set] at h
  by_cases hfield : 12 ≤ i ∧ i < 16
  · -- the header size itself: it is fixed by the length field of the extension
    have hne : headerSize (file.set i b) ≠ headerSize file := fun h =>
      readU32Le_drop_set_ne hfield.1 hfield.2 (by omega) hlt hb (UInt32.toNat_inj.mp h)
    have hflags : header'.flags = header.flags := by
      rw [hheader, hheader']
      exact readU32Le_drop_set (by omega)
    rw [hflags, List.drop_set_of_lt (by omega)] at henc'
    have hlen : ((file.drop 152).take (headerSize file - 152)).length = headerSize file - 152 := by
      rw [List.length_take, List.length_drop]
      omega
    have hlen' : ((file.drop 152).take (headerSize (file.set i b) - 152)).length =
        headerSize (file.set i b) - 152 := by
      rw [List.length_take, List.length_drop]
      omega
    rcases length_of_parseEncryption henc with ⟨hencrypted, h36, hfits⟩ | ⟨hplain, hnil⟩
    · rcases length_of_parseEncryption henc' with ⟨-, h36', hfits'⟩ | ⟨hplain, -⟩
      · rw [readU32Le_drop_take _ _ 12 (by omega)] at hfits hfits'
        omega
      · rw [hencrypted] at hplain
        cases hplain
    · rcases length_of_parseEncryption henc' with ⟨hencrypted, -⟩ | ⟨-, hnil'⟩
      · rw [hplain] at hencrypted
        cases hencrypted
      · omega
  · have hsize : headerSize (file.set i b) = headerSize file := by
      unfold headerSize
      rw [readU32Le_drop_set (by omega)]
    by_cases hstored : 148 ≤ i ∧ i < 152
    · -- the stored checksum
      have hext : extensionOf (file.set i b) = extensionOf file := by
        rw [extensionOf, extensionOf, hsize, slice_set_of_outside (by omega)]
      have hfront : ∀ l : Bytes, l.take 148 = (l.drop 0).take 148 := fun _ => rfl
      have hbody : (file.set i b).take 148 = file.take 148 := by
        rw [hfront, slice_set_of_outside (by omega), ← hfront]
      refine readU32Le_drop_set_ne hstored.1 hstored.2 (by omega) hlt hb ?_
      rw [hcrc', hcrc, hbody]
      exact congrArg _ hext
    · refine headerCrc_set_ne hsize hle (by omega) hi h152 hlt hb ?_
      rw [readU32Le_drop_set (by omega), hcrc] at hcrc'
      exact hcrc'.symm

end Header

/-! ## A frame -/

section Frame

variable {p : Bytes} {i n : ℕ} {b : UInt8} {encrypted : Bool}

/-- A frame checksum that matches is that of the three parts. -/
theorem readU32Le_of_isFrame (h : IsFrame encrypted (p.take n)) (hn : n ≤ p.length) :
    n = 20 + (readU32Le (p.drop 4)).toNat + tagLen encrypted ∧
      readU32Le (p.drop 12) = UInt32.ofNat n ∧
      readU32Le (p.drop (n - 4)) = frameCrc (p.take 16)
        ((p.drop 16).take (readU32Le (p.drop 4)).toNat)
        ((p.drop (16 + (readU32Le (p.drop 4)).toNat)).take (tagLen encrypted)) := by
  have hlen := h.length_eq
  have hfl := h.frameLen_eq
  have hcrc := h.crc_eq
  have hge := h.le_length
  have htake : (p.take n).length = n := by rw [List.length_take]; omega
  rw [htake] at hlen hfl hge
  rw [readU32Le_drop_take _ _ 4 (by omega)] at hlen hcrc
  rw [readU32Le_drop_take _ _ 12 (by omega)] at hfl
  refine ⟨by omega, ?_, ?_⟩
  · rw [← hfl, UInt32.ofNat_toNat]
  · simp only [frameCrcMatches, segmentFrameHeaderSize, beq_iff_eq] at hcrc
    rw [readU32Le_drop_take _ _ _ (by omega), List.take_take, min_eq_left (by omega),
      List.drop_take, List.take_take, min_eq_left (by omega), List.drop_take, List.take_take,
      min_eq_left (by omega)] at hcrc
    rw [show n - 4 = 16 + (readU32Le (p.drop 4)).toNat + tagLen encrypted by omega]
    exact hcrc

/-- The checksum of a frame changes with any byte of its header, payload or tag. -/
theorem frameCrc_set_ne {stored : ℕ} (hi : i < 16 + stored + tagLen encrypted)
    (hlen : 16 + stored + tagLen encrypted ≤ p.length) (hlt : i < p.length) (hb : b ≠ p[i]) :
    frameCrc ((p.set i b).take 16) (((p.set i b).drop 16).take stored)
        (((p.set i b).drop (16 + stored)).take (tagLen encrypted)) ≠
      frameCrc (p.take 16) ((p.drop 16).take stored)
        ((p.drop (16 + stored)).take (tagLen encrypted)) := by
  have hhead : ∀ l : Bytes, l.take 16 = (l.drop 0).take 16 := fun _ => rfl
  have htag : (((p.set i b).drop (16 + stored)).take (tagLen encrypted)).length =
      ((p.drop (16 + stored)).take (tagLen encrypted)).length := by
    simp only [List.length_take, List.length_drop, List.length_set]
  unfold frameCrc
  rw [htag]
  by_cases h16 : i < 16
  · have hcrc := recorderCrc32_slice_set_ne (a := 0) (n := 16) (Nat.zero_le i) (by omega) hlt hb
    rw [← hhead, ← hhead] at hcrc
    rw [slice_set_of_outside (a := 16) (by omega),
      slice_set_of_outside (a := 16 + stored) (by omega)]
    split
    · exact fun h => hcrc ((UInt32.xor_left_inj _).mp ((UInt32.xor_left_inj _).mp h))
    · exact fun h => hcrc ((UInt32.xor_left_inj _).mp h)
  · rw [hhead (p.set i b), slice_set_of_outside (a := 0) (by omega), ← hhead]
    by_cases hstored : i < 16 + stored
    · have hcrc := recorderCrc32_slice_set_ne (a := 16) (n := stored) (by omega) hstored hlt hb
      rw [slice_set_of_outside (a := 16 + stored) (by omega)]
      split
      · exact fun h => hcrc ((UInt32.xor_right_inj _).mp ((UInt32.xor_left_inj _).mp h))
      · exact fun h => hcrc ((UInt32.xor_right_inj _).mp h)
    · have hcrc := recorderCrc32_slice_set_ne (a := 16 + stored) (n := tagLen encrypted)
        (by omega) (by omega) hlt hb
      rw [slice_set_of_outside (a := 16) (by omega), if_pos, if_pos]
      · exact fun h => hcrc ((UInt32.xor_right_inj _).mp h)
      all_goals
        rw [List.length_take, List.length_drop]
        omega

/-- **A changed byte of a frame** leaves no frame at its place.
SOURCE: segment.c:612-654 -/
theorem scanStep_set_ne_frame {offset : ℕ} {frame : SegmentFrameInfo}
    (h : scanStep encrypted p offset = .frame frame) (hi : i < frame.frameLen.toNat)
    (hlt : i < p.length) (hb : b ≠ p[i]) (frame' : SegmentFrameInfo) :
    scanStep encrypted (p.set i b) offset ≠ .frame frame' := by
  intro h'
  obtain ⟨-, hinfo, hle, hframe⟩ := (scanStep_eq_frame_iff _ _ _ _).mp h
  obtain ⟨-, hinfo', hle', hframe'⟩ := (scanStep_eq_frame_iff _ _ _ _).mp h'
  obtain ⟨hn, hword, hcrc⟩ := readU32Le_of_isFrame hframe hle
  obtain ⟨hn', hword', hcrc'⟩ := readU32Le_of_isFrame hframe' hle'
  rw [List.length_set] at hle'
  have hfl : frame.frameLen = readU32Le (p.drop 12) := congrArg SegmentFrameInfo.frameLen hinfo
  have hfl' : frame'.frameLen = readU32Le ((p.set i b).drop 12) :=
    congrArg SegmentFrameInfo.frameLen hinfo'
  by_cases hlenField : 12 ≤ i ∧ i < 16
  · -- the frame length changes, and the stored length does not
    have hstored : readU32Le ((p.set i b).drop 4) = readU32Le (p.drop 4) :=
      readU32Le_drop_set (by omega)
    refine readU32Le_drop_set_ne hlenField.1 hlenField.2 (by omega) hlt hb ?_
    rw [← hfl, ← hfl']
    rw [hstored] at hn'
    exact UInt32.toNat_inj.mp (by omega)
  · have hsame : readU32Le ((p.set i b).drop 12) = readU32Le (p.drop 12) :=
      readU32Le_drop_set (by omega)
    have hlens : frame'.frameLen = frame.frameLen := by rw [hfl, hfl', hsame]
    rw [hlens] at hn' hcrc'
    by_cases hstoredField : 4 ≤ i ∧ i < 8
    · -- the stored length changes, and the frame length does not
      refine readU32Le_drop_set_ne hstoredField.1 hstoredField.2 (by omega) hlt hb ?_
      exact UInt32.toNat_inj.mp (by omega)
    · have hstored : readU32Le ((p.set i b).drop 4) = readU32Le (p.drop 4) :=
        readU32Le_drop_set (by omega)
      rw [hstored] at hcrc'
      by_cases hbody : i < frame.frameLen.toNat - 4
      · -- header, payload or tag
        refine frameCrc_set_ne ?_ ?_ hlt hb (hcrc'.symm.trans
          ((readU32Le_drop_set (by omega)).trans hcrc)) <;> omega
      · -- the stored checksum
        refine readU32Le_drop_set_ne (a := frame.frameLen.toNat - 4) (by omega) (by omega)
          (by omega)
          hlt hb ?_
        have hfront : ∀ l : Bytes, l.take 16 = (l.drop 0).take 16 := fun _ => rfl
        rw [hcrc', hcrc, hfront, slice_set_of_outside (by omega), ← hfront,
          slice_set_of_outside (by omega), slice_set_of_outside (by omega)]

/-- A changed byte behind a frame leaves its header fields alone. -/
theorem frameInfoAt_set (hi : 16 ≤ i) (offset : ℕ) :
    frameInfoAt (p.set i b) offset = frameInfoAt p offset := by
  have h0 : ∀ l : Bytes, readU32Le l = readU32Le (l.drop 0) := fun _ => rfl
  unfold frameInfoAt
  rw [h0 (p.set i b), readU32Le_drop_set (by omega), readU32Le_drop_set (by omega),
    readU32Le_drop_set (by omega), readU32Le_drop_set (by omega), ← h0]

/-- A changed byte behind a frame leaves what it stores alone. -/
theorem openPayload_set (evp : EvpOps) (dek noncePrefix : Bytes) (frameIndex : UInt64)
    (frame : SegmentFrameInfo) (hi : 16 + frame.storedLen.toNat + tagLen encrypted ≤ i) :
    openPayload evp encrypted dek noncePrefix frameIndex frame (p.set i b) =
      openPayload evp encrypted dek noncePrefix frameIndex frame p := by
  have hhead : ∀ l : Bytes, l.take 16 = (l.drop 0).take 16 := fun _ => rfl
  unfold openPayload
  simp only [segmentFrameHeaderSize, gcmTagSize]
  rw [slice_set_of_outside (by omega)]
  cases encrypted with
  | false => rfl
  | true =>
    simp only [tagLen, if_true, gcmTagSize] at hi ⊢
    rw [hhead (p.set i b), slice_set_of_outside (by omega), slice_set_of_outside (by omega),
      ← hhead]

end Frame

/-! ## The scan of the changed file -/

/-- The chain never goes back. -/
theorem FrameChain.offset_le {encrypted : Bool} {file : Bytes} {offset o : ℕ} {k : UInt64}
    (h : FrameChain encrypted file offset o k) : offset ≤ o := by
  induction h with
  | first => exact le_rfl
  | next _ _ _ _ ih => exact ih.trans (Nat.le_add_right _ _)

/-- Of two places in a chain, the earlier has a frame that ends at the other or before. -/
theorem FrameChain.frame_of_lt {encrypted : Bool} {file : Bytes} {offset : ℕ} (n : ℕ) :
    ∀ {o o' : ℕ} {k k' : UInt64}, o + o' = n → FrameChain encrypted file offset o k →
      FrameChain encrypted file offset o' k' → o < o' →
      ∃ frame, scanStep encrypted (file.drop o) o = .frame frame ∧
        o + frame.frameLen.toNat ≤ o' := by
  induction n using Nat.strong_induction_on with
  | _ n ih =>
    rintro o o' k k' rfl h h' hlt
    cases h' with
    | first => exact absurd h.offset_le (by omega)
    | @next o₁ k₁ frame₁ chained _ step _ =>
      have hlen := (frameLen_ge_of_scanStep step).1
      rcases Nat.lt_trichotomy o o₁ with hlt₁ | rfl | hgt
      · obtain ⟨frame, hstep, hend⟩ := ih (o + o₁) (by omega) rfl h chained hlt₁
        exact ⟨frame, hstep, by omega⟩
      · exact ⟨frame₁, step, le_rfl⟩
      · obtain ⟨frame, hstep, hend⟩ := ih (o₁ + o) (by omega) rfl chained h hgt
        rw [step, ScanStep.frame.injEq] at hstep
        rw [hstep] at hlt
        omega

section Run

variable {file : Bytes} {i : ℕ} {b : UInt8}

theorem framesStart_set (hi : framesStart file ≤ i) (h152 : 152 ≤ headerSize file) :
    framesStart (file.set i b) = framesStart file := by
  have hle : headerSize file ≤ framesStart file := Nat.le_add_right _ _
  unfold framesStart headerSize readHeaderFields
  simp only
  rw [readU32Le_drop_set (by omega), readU32Le_drop_set (by omega)]

/-- A changed byte behind the dictionary leaves the header alone. -/
theorem segmentParseHeader_set {header : SegmentHeader} {offset : ℕ}
    {encryption : SegmentEncryptionInfo}
    (hparse : segmentParseHeader file = some (header, offset, encryption))
    (hi : framesStart file ≤ i) :
    segmentParseHeader (file.set i b) = some (header, offset, encryption) := by
  obtain ⟨⟨h152, hstart, -⟩, -⟩ := (segmentParseHeader_eq_some_iff _ _ _ _).mp hparse
  have hle : headerSize file ≤ framesStart file := Nat.le_add_right _ _
  have htake := (segmentParseHeader_take hparse _ le_rfl).1
  refine segmentParseHeader_of_take (n := framesStart file) (framesStart_set hi h152).le
    (by omega) ?_ ?_
  · rw [framesStart_set hi h152, List.length_set]
    exact hstart
  · rw [List.take_set, List.set_eq_of_length_le (by rw [List.length_take]; omega)]
    exact htake

/-- A changed byte behind the dictionary leaves the dictionary alone. -/
theorem scanDict_set {header : SegmentHeader} {offset : ℕ} {encryption : SegmentEncryptionInfo}
    (hparse : segmentParseHeader file = some (header, offset, encryption))
    (hi : framesStart file ≤ i) :
    scanDict (file.set i b) header offset = scanDict file header offset := by
  obtain ⟨-, hheader, hoffset⟩ := (segmentParseHeader_eq_some_iff _ _ _ _).mp hparse
  have hd : header.dictLen.toNat ≤ framesStart file := by
    rw [hheader]
    exact Nat.le_add_left _ _
  have ho : offset ≤ framesStart file := hoffset.le.trans (Nat.mod_le _ _)
  exact slice_set_of_outside (by omega)

variable {encrypted : Bool} {offset o : ℕ} {k : UInt64} {frame : SegmentFrameInfo}

/-- At the place of the changed frame there is no frame any more. -/
theorem scanStep_set_at (hframe : scanStep encrypted (file.drop o) o = .frame frame) (hi : o ≤ i)
    (hi' : i < o + frame.frameLen.toNat) (hlt : i < file.length) (hb : b ≠ file[i])
    (frame' : SegmentFrameInfo) :
    scanStep encrypted ((file.set i b).drop o) o ≠ .frame frame' := by
  obtain ⟨hlt', hne⟩ : ∃ _ : i - o < (file.drop o).length, b ≠ (file.drop o)[i - o] := by
    refine ⟨by rw [List.length_drop]; omega, ?_⟩
    rw [List.getElem_drop]
    simpa only [show o + (i - o) = i by omega] using hb
  rw [List.drop_set, if_neg (by omega)]
  exact scanStep_set_ne_frame hframe (by omega) hlt' hne frame'

/-- At a place in front of the changed frame there is the frame that was there before. -/
theorem scanStep_set_before (hchain : FrameChain encrypted file offset o k) (hi : o ≤ i) {a : ℕ}
    {k' : UInt64} {frame' : SegmentFrameInfo} (hreached : FrameChain encrypted file offset a k')
    (hlt : a < o) (hstep : scanStep encrypted ((file.set i b).drop a) a = .frame frame') :
    scanStep encrypted (file.drop a) a = .frame frame' ∧ a + frame'.frameLen.toNat ≤ o ∧
      16 + frame'.storedLen.toNat + tagLen encrypted ≤ i - a ∧
      (file.set i b).drop a = (file.drop a).set (i - a) b := by
  obtain ⟨frame₀, hstep₀, hend⟩ := FrameChain.frame_of_lt _ rfl hreached hchain hlt
  have hdrop : (file.set i b).drop a = (file.drop a).set (i - a) b := by
    rw [List.drop_set, if_neg (by omega)]
  obtain ⟨-, hinfo₀, hle, hframe⟩ := (scanStep_eq_frame_iff _ _ _ _).mp hstep₀
  obtain ⟨-, hinfo, -, -⟩ := (scanStep_eq_frame_iff _ _ _ _).mp hstep
  have hlen := (readU32Le_of_isFrame hframe hle).1
  have hstored : frame₀.storedLen = readU32Le ((file.drop a).drop 4) :=
    congrArg SegmentFrameInfo.storedLen hinfo₀
  rw [← hstored] at hlen
  have hsame : frame' = frame₀ := by
    rw [hinfo, hinfo₀, hdrop, frameInfoAt_set (by omega)]
  rw [hsame]
  exact ⟨hstep₀, hend, by omega, hdrop⟩

/-- **What the scan of the changed file comes to** lies in front of the changed frame, and the
scan of the file as it was comes to it as well. -/
theorem ScanReaches.of_set {σ : Type} {env : ScanEnv σ} {ctx : σ} {st : ScanState σ}
    (h : ScanReaches env (file.set i b) (ScanState.start offset ctx) st)
    (hchain : FrameChain env.encrypted file offset o k)
    (hframe : scanStep env.encrypted (file.drop o) o = .frame frame) (hi : o ≤ i)
    (hi' : i < o + frame.frameLen.toNat) (hlt : i < file.length) (hb : b ≠ file[i]) :
    st.offset ≤ o ∧ ScanReaches env file (ScanState.start offset ctx) st := by
  induction h with
  | first => exact ⟨hchain.offset_le, .first⟩
  | @pass st frame' ctx' _ hfile hstep hdelivered hcounted ih =>
    obtain ⟨hle, hreached⟩ := ih
    rw [List.length_set] at hfile
    rcases Nat.lt_or_eq_of_le hle with hbefore | hat
    · obtain ⟨hstep', hend, hstored, hdrop⟩ :=
        scanStep_set_before hchain hi hreached.chain hbefore hstep
      refine ⟨hend, hreached.pass hfile hstep' ?_ hcounted⟩
      rw [← hdelivered, hdrop]
      unfold deliverFrame
      simp only [openPayload_set env.evp env.dek env.encryption.noncePrefix st.frameIndex frame'
        hstored]
    · rw [hat] at hstep
      exact absurd hstep (scanStep_set_at hframe hi hi' hlt hb frame')

end Run

/-- **A changed byte is never delivered**: for any file whose header is accepted, a byte of the
header or the extension makes every scan fail; and where the byte lies in a frame (behind the
dictionary), whatever a scan with any callback and first offset still delivers ends in front
of that frame, and is delivered alike by the scan of the file as it was.
SOURCE: segment.c:419-504, 543-738, helper.c:105-120 -/
theorem byte_change_never_delivered (evp : EvpOps) (codec : CodecOps) (file : Bytes)
    (decryptor : Bool) (header : SegmentHeader) (offset : ℕ) (encryption : SegmentEncryptionInfo)
    (hparse : segmentParseHeader file = some (header, offset, encryption)) (i : ℕ) (b : UInt8)
    (hi : i < file.length) (hb : b ≠ file[i]) :
    (i < headerSize file → ∀ (σ : Type) (cb : Option (FrameCb σ)) (ctx : σ) (minFrameOffset : ℕ),
      segmentScanImpl evp codec (file.set i b) decryptor cb ctx minFrameOffset =
        ⟨.error (-1, none), ctx⟩) ∧
    ∀ (o : ℕ) (k : UInt64) (frame : SegmentFrameInfo),
      FrameChain (header.flags &&& flagEncrypted != 0) file offset o k →
      scanStep (header.flags &&& flagEncrypted != 0) (file.drop o) o = .frame frame →
      o ≤ i → i < o + frame.frameLen.toNat → framesStart file ≤ i →
      ∀ (σ : Type) (cb : FrameCb σ) (ctx : σ) (minFrameOffset : ℕ) (k' : UInt64)
        (header' : SegmentHeader) (frame' : SegmentFrameInfo) (chunk : Bytes),
        ScanDelivers evp codec (file.set i b) decryptor cb ctx minFrameOffset k' header' frame'
          chunk →
        frame'.fileOffset + frame'.frameLen.toNat ≤ o ∧
          ScanDelivers evp codec file decryptor cb ctx minFrameOffset k' header' frame' chunk := by
  constructor
  · intro hsize σ cb ctx minFrameOffset
    simp only [segmentScanImpl, segmentParseHeader_set_eq_none hparse hsize hi hb]
  · rintro o k frame hchain hframe hoi hio hstart σ cb ctx minFrameOffset k' header' frame' chunk
      ⟨offset', encryption', dek, st, hparse', hkey, hreached, hindex, hlt, hstep, hmin, payload,
        hopen, hdecompress, hverify⟩
    -- header, dictionary and so the whole scan start out the same
    rw [segmentParseHeader_set hparse hstart, Option.some.injEq, Prod.mk.injEq,
      Prod.mk.injEq] at hparse'
    obtain ⟨rfl, rfl, rfl⟩ := hparse'
    rw [scanDict_set hparse hstart] at hdecompress
    have henv : rangeEnv evp codec (file.set i b) header offset encryption dek cb minFrameOffset =
        rangeEnv evp codec file header offset encryption dek cb minFrameOffset := by
      unfold rangeEnv
      rw [scanDict_set hparse hstart]
    rw [henv] at hreached
    obtain ⟨hle, hreached'⟩ := hreached.of_set hchain hframe hoi hio hi hb
    rw [List.length_set] at hlt
    rcases Nat.lt_or_eq_of_le hle with hbefore | hat
    · obtain ⟨hstep', hend, hstored, hdrop⟩ :=
        scanStep_set_before hchain hoi hreached'.chain hbefore hstep
      have hoffset := fileOffset_of_scanStep hstep
      refine ⟨by rw [hoffset]; exact hend, offset, encryption, dek, st, hparse, hkey, hreached',
        hindex, hlt, hstep', hmin, payload, ?_, hdecompress, hverify⟩
      rw [← hopen, hoffset, hdrop, openPayload_set _ _ _ _ _ hstored]
    · rw [hat] at hstep
      exact absurd hstep (scanStep_set_at hframe hoi hio hi hb frame')

/-- In a segment of one frame a changed magic is noticed, and so is the first byte of the
payload. -/
theorem byte_change_one_frame :
    segmentScanImpl noEvp takingCodec (oneFrameFile.set 0 0) false (some recordCalls) [] 0 =
        ⟨.error (-1, none), []⟩ ∧
      ∀ k header frame chunk, ScanDelivers noEvp takingCodec (oneFrameFile.set 170 7) false
        recordCalls [] 0 k header frame chunk → frame.fileOffset + frame.frameLen.toNat ≤ 154 := by
  have hparse := parse_oneFrameFile
  refine ⟨(byte_change_never_delivered noEvp takingCodec oneFrameFile false _ 154 {} hparse 0 0
    (by decide +kernel) (by decide +kernel)).1 (by decide +kernel) _ (some recordCalls) [] 0, ?_⟩
  intro k header frame chunk h
  exact ((byte_change_never_delivered noEvp takingCodec oneFrameFile false _ 154 {} hparse 170 7
    (by decide +kernel) (by decide +kernel)).2 154 0 ⟨0, 3, 3, 154, 23⟩ .first
    (by decide +kernel) (by decide) (by decide) (by decide +kernel) _ recordCalls [] 0 k header
    frame chunk h).1

end Recorder.Analysis
