import Recorder.Analysis.SegmentFile

/-!
# Truncating a segment at its committed end

`segmentParseHeader_take`: the header of a file is read from the bytes in front of its
data offset only. `scanFrom_take`: a metadata scan of the bytes up to the committed end
passes the same frames and the same footer as the scan of the whole file, and ends at the
same place. Together they say that cutting a segment at its committed end, as recovery
does, changes nothing a scan reports (`metadataScan_take`).
-/

set_option autoImplicit false

namespace Recorder.Analysis

open Recorder.Model

/-! ## The header -/

/-- The `header_size` field of a segment. -/
def headerSize (buf : Bytes) : ℕ := (readU32Le (buf.drop 12)).toNat

/-- Where the frames of a segment start: behind the header and the dictionary. The parser
computes this sum in 32 bits. -/
def framesStart (buf : Bytes) : ℕ := headerSize buf + (readHeaderFields buf).dictLen.toNat

/-- What `segment_parse_header` checks and returns.
SOURCE: segment.c:419-504 -/
theorem segmentParseHeader_eq_some_iff (buf : Bytes) (header : SegmentHeader) (offset : ℕ)
    (info : SegmentEncryptionInfo) :
    segmentParseHeader buf = some (header, offset, info) ↔
      (152 ≤ headerSize buf ∧ framesStart buf ≤ buf.length ∧ buf.take 8 = segmentMagic ∧
        readU32Le (buf.drop 8) = segmentVersion ∧
        parseEncryption header.flags ((buf.drop 152).take (headerSize buf - 152)) = some info ∧
        readU32Le (buf.drop 148) =
          headerCrc (buf.take 148) ((buf.drop 152).take (headerSize buf - 152))) ∧
      header = readHeaderFields buf ∧ offset = framesStart buf % 2 ^ 32 := by
  have hsum : (readU32Le (buf.drop 12) + (readHeaderFields buf).dictLen).toNat =
      framesStart buf % 2 ^ 32 := by
    rw [UInt32.toNat_add]
    rfl
  unfold segmentParseHeader
  simp only [segmentHeaderFixedSize, hsum]
  simp only [framesStart, headerSize]
  constructor
  · intro h
    split at h
    · cases h
    · split at h
      · cases h
      · split at h
        · cases h
        · split at h
          · cases h
          · rename_i hlen hmagic hversion hsize
            simp only [Bool.or_eq_true, decide_eq_true_eq, not_or, not_lt] at hsize
            cases hp : parseEncryption (readHeaderFields buf).flags
                ((buf.drop 152).take ((readU32Le (buf.drop 12)).toNat - 152)) with
            | none => rw [hp] at h; cases h
            | some e =>
              rw [hp] at h
              simp only at h
              split at h
              · cases h
              · split at h
                · cases h
                · rename_i hcrc hdict
                  obtain ⟨rfl, rfl, rfl⟩ := h
                  refine ⟨⟨hsize.1, by omega, by simpa using hmagic, by simpa using hversion, hp,
                    by simpa using hcrc⟩, rfl, rfl⟩
  · rintro ⟨⟨hsize, hstart, hmagic, hversion, henc, hcrc⟩, rfl, rfl⟩
    have h1 : ¬ buf.length < 152 := by omega
    have h2 : ¬ (readU32Le (buf.drop 12)).toNat < 152 := by omega
    have h3 : ¬ (readU32Le (buf.drop 12)).toNat > buf.length := by omega
    have h4 : ¬ (readHeaderFields buf).dictLen.toNat >
        buf.length - (readU32Le (buf.drop 12)).toNat := by omega
    simp [h1, h2, h3, h4, hmagic, hversion, henc, hcrc]

/-- INTERNAL: a word in front of the cut. -/
theorem readU32Le_drop_take (buf : Bytes) (n k : ℕ) (h : k + 4 ≤ n) :
    readU32Le ((buf.take n).drop k) = readU32Le (buf.drop k) := by
  rw [List.drop_take, ← readU32Le_take ((buf.drop k).take (n - k)) 4 le_rfl, List.take_take,
    min_eq_left (by omega), readU32Le_take _ 4 le_rfl]

/-- INTERNAL: a double word in front of the cut. -/
theorem readU64Le_drop_take (buf : Bytes) (n k : ℕ) (h : k + 8 ≤ n) :
    readU64Le ((buf.take n).drop k) = readU64Le (buf.drop k) := by
  rw [List.drop_take, ← readU64Le_take ((buf.drop k).take (n - k)) 8 le_rfl, List.take_take,
    min_eq_left (by omega), readU64Le_take _ 8 le_rfl]

/-- The fixed header of a cut file. -/
theorem readHeaderFields_take (buf : Bytes) (n : ℕ) (h : 152 ≤ n) :
    readHeaderFields (buf.take n) = readHeaderFields buf := by
  unfold readHeaderFields
  rw [readU32Le_drop_take buf n 16 (by omega), readU64Le_drop_take buf n 20 (by omega),
    readU32Le_drop_take buf n 28 (by omega), readU64Le_drop_take buf n 128 (by omega),
    readU64Le_drop_take buf n 136 (by omega), readU32Le_drop_take buf n 144 (by omega)]
  simp only [List.drop_take, List.take_take, bootIdSize, timezoneSize]
  rw [min_eq_left (by omega), min_eq_left (by omega)]

theorem headerSize_take (buf : Bytes) (n : ℕ) (h : 16 ≤ n) :
    headerSize (buf.take n) = headerSize buf := by
  unfold headerSize
  rw [readU32Le_drop_take buf n 12 (by omega)]

theorem framesStart_take (buf : Bytes) (n : ℕ) (h : 152 ≤ n) :
    framesStart (buf.take n) = framesStart buf := by
  unfold framesStart
  rw [headerSize_take buf n (by omega), readHeaderFields_take buf n h]

/-- The extension of the header in a file that is cut behind the dictionary. -/
theorem headerExtension_take (buf : Bytes) (n : ℕ) (h : framesStart buf ≤ n) :
    ((buf.take n).drop 152).take (headerSize buf - 152) =
      (buf.drop 152).take (headerSize buf - 152) := by
  have hle : headerSize buf ≤ framesStart buf := Nat.le_add_right _ _
  rw [List.drop_take, List.take_take, min_eq_left (by omega)]

/-- **The header survives a cut behind the dictionary**.
SOURCE: segment.c:419-504 -/
theorem segmentParseHeader_take {buf : Bytes} {r : SegmentHeader × ℕ × SegmentEncryptionInfo}
    (h : segmentParseHeader buf = some r) (n : ℕ) (hn : framesStart buf ≤ n) :
    segmentParseHeader (buf.take n) = some r ∧ framesStart (buf.take n) = framesStart buf := by
  obtain ⟨header, offset, info⟩ := r
  obtain ⟨⟨hsize, hstart, hmagic, hversion, henc, hcrc⟩, hheader, hoffset⟩ :=
    (segmentParseHeader_eq_some_iff _ _ _ _).mp h
  have hle : headerSize buf ≤ framesStart buf := Nat.le_add_right _ _
  have hfs := framesStart_take buf n (by omega)
  refine ⟨?_, hfs⟩
  rw [segmentParseHeader_eq_some_iff, headerSize_take buf n (by omega), hfs,
    readHeaderFields_take buf n (by omega), headerExtension_take buf n hn]
  refine ⟨⟨hsize, ?_, ?_, ?_, henc, ?_⟩, hheader, hoffset⟩
  · rw [List.length_take]
    omega
  · rw [List.take_take, min_eq_left (by omega), hmagic]
  · rw [readU32Le_drop_take buf n 8 (by omega), hversion]
  · rw [readU32Le_drop_take buf n 148 (by omega), List.take_take, min_eq_left (by omega), hcrc]

/-! ## The frames -/

variable {σ : Type}

/-- INTERNAL: a turn that finds a frame finds it in the cut file too, as long as the frame
lies in front of the cut. -/
theorem scanStep_take {encrypted : Bool} {p : Bytes} {offset : ℕ} {info : SegmentFrameInfo}
    (h : scanStep encrypted p offset = .frame info) (n : ℕ) (hn : info.frameLen.toNat ≤ n) :
    scanStep encrypted (p.take n) offset = .frame info := by
  have h20 := frameLen_ge_of_scanStep h
  obtain ⟨hno, hinfo, hle, hframe⟩ := (scanStep_eq_frame_iff _ _ _ _).mp h
  refine (scanStep_eq_frame_iff _ _ _ _).mpr ⟨?_, ?_, ?_, ?_⟩
  · rw [← footerAt_eq_none_iff, footerAt_take]
    split
    · exact (footerAt_eq_none_iff p).mpr hno
    · rfl
  · rw [hinfo]
    unfold frameInfoAt
    rw [readU32Le_take p n (by omega), readU32Le_drop_take p n 4 (by omega),
      readU32Le_drop_take p n 8 (by omega), readU32Le_drop_take p n 12 (by omega)]
  · rw [List.length_take]
    omega
  · rw [List.take_take, min_eq_left hn]
    exact hframe

/-- The committed end never lies in front of the place the loop has reached. -/
theorem scanFrom_committedEnd_ge (env : ScanEnv σ) (hcb : env.cb = none) (buf : Bytes)
    (st' : ScanState σ) :
    ∀ st, scanFrom env buf st = .done st' → st.committedEnd = st.offset →
      st.offset ≤ st'.committedEnd := by
  refine scanFrom_done_induction (motive := fun st => st.committedEnd = st.offset →
    st.offset ≤ st'.committedEnd) env hcb buf st' ?_ ?_ ?_ ?_
  · rintro st - rfl hend
    exact hend.ge
  · rintro st f - - rfl -
    exact Nat.le_add_right _ _
  · rintro st - - rfl hend
    exact hend.ge
  · rintro st info - - - - ih -
    exact le_trans (Nat.le_add_right _ _) (ih rfl)

/-- **Cutting at the committed end changes nothing**: the loop over the cut file reaches
the same final state.
SOURCE: segment.c:582-722 -/
theorem scanFrom_take (env env' : ScanEnv σ) (hcb : env.cb = none) (hcb' : env'.cb = none)
    (henc : env'.encrypted = env.encrypted) (buf : Bytes) (st' : ScanState σ) :
    ∀ st, scanFrom env buf st = .done st' → st.committedEnd = st.offset →
      scanFrom env' (buf.take st'.committedEnd) st = .done st' := by
  refine scanFrom_done_induction (motive := fun st => st.committedEnd = st.offset →
    scanFrom env' (buf.take st'.committedEnd) st = .done st') env hcb buf st' ?_ ?_ ?_ ?_
  · rintro st hle rfl -
    exact scanFrom_of_end env' _ _ (by rw [List.length_take]; omega)
  · rintro st f hlt hs rfl -
    -- the cut lies right behind the 48 bytes of the footer
    have hf := (scanStep_eq_footer_iff _ _ _ _).mp hs
    have hlen : 48 ≤ (buf.drop st.offset).length := by
      have := congrArg List.length ((footerAt_eq_some_iff _ _).mp hf).1
      rw [List.length_take, length_footerImage] at this
      omega
    rw [List.length_drop] at hlen
    refine scanFrom_of_footer env' _ st f ?_ ?_
    · simp only [List.length_take, segmentFooterSize]
      omega
    · rw [scanStep_eq_footer_iff, List.drop_take, footerAt_take]
      simp only [segmentFooterSize, Nat.add_sub_cancel_left, le_refl, if_true, hf]
  · rintro st hlt - rfl hend
    exact scanFrom_of_end env' _ _ (by rw [List.length_take, hend]; omega)
  · rintro st info hlt hs hcounter hdone ih -
    have hlen := frameLen_ge_of_scanStep hs
    have hge := scanFrom_committedEnd_ge env hcb buf st' _ hdone rfl
    simp only [ScanState.pass] at hge
    have hstep : scanStep env'.encrypted ((buf.take st'.committedEnd).drop st.offset)
        st.offset = .frame info := by
      rw [henc, List.drop_take]
      exact scanStep_take hs _ (by omega)
    rw [scanFrom_of_frame env' _ st info (by rw [List.length_take]; omega) hstep]
    simp only [deliverFrame, hcb', henc, hcounter]
    exact ih rfl

/-- **A metadata scan of the cut file**: header, footer, frames and committed end are
those of the whole file, provided the data offset did not wrap.
SOURCE: segment.c:543-738 -/
theorem metadataScan_take (evp : EvpOps) (codec : CodecOps) {buf : Bytes} {out : ScanOut}
    (hsmall : framesStart buf < 2 ^ 32) (h : metadataScan evp codec buf = .ok out) :
    metadataScan evp codec (buf.take out.committedEnd) = .ok out ∧
      framesStart buf ≤ out.committedEnd := by
  obtain ⟨header, offset, info, st', hp, hscan, rfl⟩ := (metadataScan_eq_ok_iff _ _ _ _).mp h
  obtain ⟨-, -, hoffset⟩ := (segmentParseHeader_eq_some_iff _ _ _ _).mp hp
  rw [Nat.mod_eq_of_lt hsmall] at hoffset
  have hge : offset ≤ st'.committedEnd := scanFrom_committedEnd_ge _ rfl buf st' _ hscan rfl
  obtain ⟨hp', -⟩ := segmentParseHeader_take hp st'.committedEnd (by omega)
  refine ⟨(metadataScan_eq_ok_iff _ _ _ _).mpr ⟨header, offset, info, st', hp', ?_, rfl⟩, ?_⟩
  · exact scanFrom_take (metadataEnv evp codec buf header offset info) (metadataEnv evp codec
      (buf.take st'.committedEnd) header offset info) rfl rfl rfl buf st' _ hscan rfl
  · rw [← hoffset]
    exact hge

end Recorder.Analysis
