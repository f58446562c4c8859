import Recorder.Analysis.FrameReader
import Recorder.Analysis.SegmentDelivery

/-!
# Single frames and the full scan

The decoder of frames is there three times: in the loop of `segment_scan_impl`, in
`segment_frame_reader_scan`, and in `segment_scan_path_frame`. The last two agree on every
file, offset and frame number (`frameReaderRead_eq`). What the loop hands to its callback
(`ScanDelivers`) the other two deliver as well, as long as one `pread` is enough for the
metadata and for the frame (`segmentScanPathFrame_of_decodesAt`).

`single_frame_reads_iff`: so they disagree exactly over a frame that decodes and is longer than
`preadLimit`, or lies behind header and dictionary that together are; this includes the frames
behind a data offset that has wrapped.
-/

set_option autoImplicit false

namespace Recorder.Analysis

open Recorder.Model

/-! ## The two readers of single frames -/

/-- `segment_frame_reader_open` and `segment_frame_reader_scan` on the reader it yields. -/
def frameReaderRead {σ : Type} (evp : EvpOps) (codec : CodecOps) (file : Bytes) (decryptor : Bool)
    (cb : FrameCb σ) (ctx : σ) (fileOffset : ℕ) (frameIndex : UInt64) : Int × σ :=
  match segmentFrameReaderOpen evp file decryptor with
  | none => (-1, ctx)
  | some reader => segmentFrameReaderScan evp codec reader cb ctx fileOffset frameIndex

/-- **Both readers of single frames do the same**, for every file, offset and frame number,
although one unwraps the key when it opens the file and the other behind the checksum.
SOURCE: segment.c:820-994 -/
theorem frameReaderRead_eq {σ : Type} (evp : EvpOps) (codec : CodecOps) (file : Bytes)
    (decryptor : Bool) (cb : FrameCb σ) (ctx : σ) (fileOffset : ℕ) (frameIndex : UInt64) :
    frameReaderRead evp codec file decryptor cb ctx fileOffset frameIndex =
      segmentScanPathFrame evp codec file decryptor cb ctx fileOffset frameIndex := by
  unfold frameReaderRead segmentFrameReaderOpen segmentScanPathFrame
  cases readMetadata file with
  | none => rfl
  | some metadata =>
    simp only
    cases segmentParseHeader metadata with
    | none => rfl
    | some r =>
      obtain ⟨header, dataOffset, encryption⟩ := r
      simp only
      cases hencrypted : header.flags &&& flagEncrypted != 0 with
      | false => rfl
      | true =>
        cases decryptor with
        | false =>
          simp only [if_true, Bool.not_false, Bool.false_eq_true, if_false]
          (repeat' split) <;> rfl
        | true =>
          simp only [if_true, Bool.not_true, Bool.false_eq_true, if_false]
          cases evp.unwrapDek encryption.wrappedDek with
          | none =>
            simp only
            (repeat' split) <;> rfl
          | some dek => rfl

/-! ## What the full scan hands over -/

section Loop

variable {σ : Type}

/-- The states the frame loop comes to. -/
inductive ScanReaches (env : ScanEnv σ) (file : Bytes) (first : ScanState σ) : ScanState σ → Prop
  | first : ScanReaches env file first first
  | pass {st : ScanState σ} {frame : SegmentFrameInfo} {ctx : σ}
    (reached : ScanReaches env file first st) (lt : st.offset < file.length)
    (step : scanStep env.encrypted (file.drop st.offset) st.offset = .frame frame)
    (delivered : deliverFrame env (file.drop st.offset) frame st.frameIndex st.ctx = .ok ctx)
    (counted : (env.encrypted && st.frameIndex == 0xffffffffffffffff) = false) :
    ScanReaches env file first (ScanState.pass st frame ctx)

/-- The loop goes on from every state it comes to. -/
theorem ScanReaches.scanFrom_eq {env : ScanEnv σ} {file : Bytes} {first st : ScanState σ}
    (h : ScanReaches env file first st) : scanFrom env file first = scanFrom env file st := by
  induction h with
  | first => rfl
  | pass _ lt step delivered counted ih =>
    rw [ih, scanFrom_of_frame env file _ _ lt step, delivered]
    simp only [counted, Bool.false_eq_true, if_false]

/-- The frame decrypts, decompresses and verifies: the chunk it decodes to. -/
def DecodesAt (evp : EvpOps) (codec : CodecOps) (file : Bytes) (header : SegmentHeader)
    (offset : ℕ) (encryption : SegmentEncryptionInfo) (dek : Bytes) (frameIndex : UInt64)
    (frame : SegmentFrameInfo) (chunk : Bytes) : Prop :=
  ∃ payload, openPayload evp (header.flags &&& flagEncrypted != 0) dek encryption.noncePrefix
      frameIndex frame (file.drop frame.fileOffset) = some payload ∧
    decompressPayload codec header (scanDict file header offset) frame payload = some chunk ∧
    codec.verifyChunk (header.flags &&& flagCompactEntries != 0) chunk = true

/-- The scan of a file from a data offset with a key, a callback and a first offset to hand
over. -/
def rangeEnv (evp : EvpOps) (codec : CodecOps) (file : Bytes) (header : SegmentHeader)
    (offset : ℕ) (encryption : SegmentEncryptionInfo) (dek : Bytes) (cb : FrameCb σ)
    (minFrameOffset : ℕ) : ScanEnv σ :=
  ⟨evp, codec, header, encryption, dek, scanDict file header offset, some cb, minFrameOffset⟩

/-- The key a scan with a callback decrypts with; plain segments need none.
SOURCE: segment.c:568-576 -/
def scanKey (evp : EvpOps) (header : SegmentHeader) (encryption : SegmentEncryptionInfo)
    (decryptor : Bool) : Option Bytes :=
  if header.flags &&& flagEncrypted != 0 then
    if decryptor then evp.unwrapDek encryption.wrappedDek else none
  else some (List.replicate segmentDekSize 0)

/-- `segment_scan_impl` with a callback, as the loop it runs.
SOURCE: segment.c:543-738 -/
theorem segmentScanImpl_eq_rangeEnv (evp : EvpOps) (codec : CodecOps) {file : Bytes}
    {decryptor : Bool} (cb : FrameCb σ) (ctx : σ) (minFrameOffset : ℕ) {header : SegmentHeader}
    {offset : ℕ} {encryption : SegmentEncryptionInfo} {dek : Bytes}
    (hparse : segmentParseHeader file = some (header, offset, encryption))
    (hkey : scanKey evp header encryption decryptor = some dek) :
    segmentScanImpl evp codec file decryptor (some cb) ctx minFrameOffset =
      ScanEnd.result header (scanFrom (rangeEnv evp codec file header offset encryption dek cb
        minFrameOffset) file (ScanState.start offset ctx)) := by
  unfold scanKey at hkey
  simp only [segmentScanImpl, hparse, Option.isSome_some, Bool.and_true]
  cases hencrypted : header.flags &&& flagEncrypted != 0 with
  | false =>
    simp only [hencrypted, Bool.false_eq_true, if_false, Option.some.injEq] at hkey ⊢
    rw [hkey]
    rfl
  | true =>
    cases decryptor with
    | false => simp [hencrypted] at hkey
    | true =>
      simp only [hencrypted, if_true] at hkey
      simp only [if_true, Bool.not_true, Bool.false_eq_true, if_false, hkey]
      rfl

/-- **The full scan delivers a frame** to its callback, as the one with the given number: the
loop comes to it, it is not in front of the first offset to hand over, and it decodes.
SOURCE: segment.c:582-722 -/
def ScanDelivers (evp : EvpOps) (codec : CodecOps) (file : Bytes) (decryptor : Bool)
    (cb : FrameCb σ)
    (ctx : σ) (minFrameOffset : ℕ) (frameIndex : UInt64) (header : SegmentHeader)
    (frame : SegmentFrameInfo) (chunk : Bytes) : Prop :=
  ∃ offset encryption dek st,
    segmentParseHeader file = some (header, offset, encryption) ∧
    scanKey evp header encryption decryptor = some dek ∧
    ScanReaches (rangeEnv evp codec file header offset encryption dek cb minFrameOffset) file
      (ScanState.start offset ctx) st ∧
    st.frameIndex = frameIndex ∧ st.offset < file.length ∧
    scanStep (header.flags &&& flagEncrypted != 0) (file.drop st.offset) st.offset =
      .frame frame ∧
    minFrameOffset ≤ frame.fileOffset ∧
    DecodesAt evp codec file header offset encryption dek frameIndex frame chunk

/-- The loop never goes back. -/
theorem ScanReaches.offset_le {env : ScanEnv σ} {file : Bytes} {first st : ScanState σ}
    (h : ScanReaches env file first st) : first.offset ≤ st.offset := by
  induction h with
  | first => exact le_rfl
  | pass _ _ _ _ _ ih => exact ih.trans (Nat.le_add_right _ _)

/-- The dictionary of the metadata is that of the file. -/
theorem dict_of_metadata {file : Bytes} {header : SegmentHeader} {offset : ℕ}
    {encryption : SegmentEncryptionInfo} (hsmall : framesStart file ≤ preadLimit)
    (hparse : segmentParseHeader file = some (header, offset, encryption)) :
    ((file.take (framesStart file)).drop (offset - header.dictLen.toNat)).take
      header.dictLen.toNat = scanDict file header offset := by
  obtain ⟨-, hheader, hoffset⟩ := (segmentParseHeader_eq_some_iff _ _ _ _).mp hparse
  have hle : header.dictLen.toNat ≤ framesStart file := by
    rw [hheader]
    exact Nat.le_add_left _ _
  rw [Nat.mod_eq_of_lt (lt_of_le_of_lt hsmall (by decide))] at hoffset
  rw [scanDict, List.drop_take, List.take_take, min_eq_left (by omega)]

/-- The frame header, read alone, is the one of the scan. -/
theorem frameInfoAt_of_scanStep {encrypted : Bool} {p : Bytes} {o : ℕ} {frame : SegmentFrameInfo}
    (h : scanStep encrypted p o = .frame frame) :
    frameInfoAt (p.take segmentFrameHeaderSize) o = frame := by
  obtain ⟨-, hinfo, -, hframe⟩ := (scanStep_eq_frame_iff _ _ _ _).mp h
  have hp20 := hframe.le_length
  rw [List.length_take] at hp20
  rw [hinfo, ← frameInfoAt_append (p.take segmentFrameHeaderSize) (p.drop segmentFrameHeaderSize) o
    (by rw [List.length_take]; simp only [segmentFrameHeaderSize]; omega), List.take_append_drop]

/-- **A frame that decodes is delivered when it is read alone**, with the same header, frame
and chunk, if metadata and frame are each read by one `pread`.
SOURCE: segment.c:912-994 -/
theorem segmentScanPathFrame_of_decodesAt (evp : EvpOps) (codec : CodecOps) {file : Bytes}
    {decryptor : Bool} (cb : FrameCb σ) (ctx : σ) {header : SegmentHeader} {offset : ℕ}
    {encryption : SegmentEncryptionInfo} {dek : Bytes} {frameIndex : UInt64}
    {frame : SegmentFrameInfo} {chunk : Bytes} (hsmall : framesStart file ≤ preadLimit)
    (hlong : frame.frameLen.toNat ≤ preadLimit)
    (hparse : segmentParseHeader file = some (header, offset, encryption))
    (hkey : scanKey evp header encryption decryptor = some dek)
    (hoffset : offset ≤ frame.fileOffset)
    (hstep : scanStep (header.flags &&& flagEncrypted != 0) (file.drop frame.fileOffset)
      frame.fileOffset = .frame frame)
    (hdecodes : DecodesAt evp codec file header offset encryption dek frameIndex frame chunk) :
    segmentScanPathFrame evp codec file decryptor cb ctx frame.fileOffset frameIndex =
      cb header frame chunk ctx := by
  obtain ⟨hmeta, hparse'⟩ := (readMetadata_iff file _ _).mpr ⟨hsmall, hparse, rfl⟩
  obtain ⟨payload, hopen, hdecompress, hverify⟩ := hdecodes
  obtain ⟨-, hinfo, hle, hframe⟩ := (scanStep_eq_frame_iff _ _ _ _).mp hstep
  have hheader := frameInfoAt_of_scanStep hstep
  set p := file.drop frame.fileOffset with hp
  set o := frame.fileOffset with ho
  set encrypted := header.flags &&& flagEncrypted != 0 with henc
  have hp20 := hframe.le_length
  have hplen : p.length = file.length - o := by rw [hp, List.length_drop]
  have htake : (p.take frame.frameLen.toNat).length = frame.frameLen.toNat := by
    rw [List.length_take, min_eq_left hle]
  have hbytes : frameInfoAt (p.take frame.frameLen.toNat) o = frame := by
    conv_rhs => rw [hinfo, ← List.take_append_drop frame.frameLen.toNat p]
    rw [frameInfoAt_append _ _ _ (by omega)]
  have hstored : readU32Le ((p.take frame.frameLen.toNat).drop 4) = frame.storedLen :=
    congrArg SegmentFrameInfo.storedLen hbytes
  have hlen := hframe.length_eq
  rw [hstored, htake] at hlen
  have hlt : frame.frameLen.toNat < 2 ^ 32 := frame.frameLen.toNat_lt
  have hfit : frameLengthsFit encrypted frame (file.length - o) = true := by
    simp only [frameLengthsFit, segmentFrameHeaderSize, uint32Max, ← hlen, bne_self_eq_false,
      Bool.or_false, Bool.not_eq_true', Bool.or_eq_false_iff, decide_eq_false_iff_not]
    omega
  have hcrc := hframe.crc_eq
  rw [hstored] at hcrc
  have hopen' : openPayload evp encrypted dek encryption.noncePrefix frameIndex frame
      (p.take frame.frameLen.toNat) = some payload := by
    rw [← hopen]
    conv_rhs => rw [← List.take_append_drop frame.frameLen.toNat p]
    have happend := openPayload_append evp dek encryption.noncePrefix
      (p.drop frame.frameLen.toNat) o frameIndex hframe
    rw [hbytes] at happend
    exact happend.symm
  have hrange : (decide (o < offset) || decide (o > file.length - segmentFrameHeaderSize - 4)) =
      false := by
    simp only [segmentFrameHeaderSize, Bool.or_eq_false_iff, decide_eq_false_iff_not]
    omega
  have hkey' : (if encrypted then if decryptor then evp.unwrapDek encryption.wrappedDek else none
      else some (List.replicate segmentDekSize 0)) = some dek := hkey
  -- two reads, of the frame header and of the frame
  have hhead : preadExact file segmentFrameHeaderSize o = some (p.take segmentFrameHeaderSize) :=
    (preadExact_eq_some_iff _ _ _ _).mpr
      ⟨by decide, by simp only [segmentFrameHeaderSize]; omega, rfl⟩
  have hread : preadExact file frame.frameLen.toNat o = some (p.take frame.frameLen.toNat) :=
    (preadExact_eq_some_iff _ _ _ _).mpr ⟨hlong, by omega, rfl⟩
  unfold segmentScanPathFrame
  simp only [hmeta, hparse', hrange, Bool.false_eq_true, if_false, hhead, hheader, hread, ← henc,
    hfit, hcrc, Bool.not_true, hkey', hopen', dict_of_metadata hsmall hparse,
    hdecompress, hverify, if_true]

/-! ## Where the two differ -/

/-- The frames one behind the other from a data offset on: their offsets and numbers, as the
lengths and checksums of the file give them. -/
inductive FrameChain (encrypted : Bool) (file : Bytes) (offset : ℕ) : ℕ → UInt64 → Prop
  | first : FrameChain encrypted file offset offset 0
  | next {o : ℕ} {k : UInt64} {frame : SegmentFrameInfo}
    (chained : FrameChain encrypted file offset o k) (lt : o < file.length)
    (step : scanStep encrypted (file.drop o) o = .frame frame)
    (counted : (encrypted && k == 0xffffffffffffffff) = false) :
    FrameChain encrypted file offset (o + frame.frameLen.toNat) (k + 1)

/-- What the loop comes to is chained. -/
theorem ScanReaches.chain {env : ScanEnv σ} {file : Bytes} {offset : ℕ} {ctx : σ}
    {st : ScanState σ} (h : ScanReaches env file (ScanState.start offset ctx) st) :
    FrameChain env.encrypted file offset st.offset st.frameIndex := by
  induction h with
  | first => exact .first
  | pass _ lt step _ counted ih => exact ih.next lt step counted

/-- A scan that hands over nothing in front of an offset comes to every frame up to it. -/
theorem FrameChain.reached (env : ScanEnv σ) {file : Bytes} {offset o : ℕ} {k : UInt64} (ctx : σ)
    (h : FrameChain env.encrypted file offset o k) (hmin : o ≤ env.minFrameOffset) :
    ∃ st, ScanReaches env file (ScanState.start offset ctx) st ∧ st.offset = o ∧
      st.frameIndex = k ∧ st.ctx = ctx := by
  induction h with
  | first => exact ⟨_, .first, rfl, rfl, rfl⟩
  | @next o k frame _ lt step counted ih =>
    have hlen := frameLen_ge_of_scanStep step
    obtain ⟨st, hreached, rfl, rfl, hctx⟩ := ih (by omega)
    have hat : frame.fileOffset = st.offset := by
      rw [((scanStep_eq_frame_iff _ _ _ _).mp step).2.1]
      rfl
    have hskipped : deliverFrame env (file.drop st.offset) frame st.frameIndex st.ctx =
        .ok st.ctx := by
      unfold deliverFrame
      cases env.cb with
      | none => rfl
      | some cb =>
        simp only
        rw [if_pos (by omega)]
    exact ⟨_, hreached.pass lt step hskipped counted, rfl, rfl, hctx⟩

/-- The frame found at an offset is named by it. -/
theorem fileOffset_of_scanStep {encrypted : Bool} {p : Bytes} {offset : ℕ}
    {frame : SegmentFrameInfo} (h : scanStep encrypted p offset = .frame frame) :
    frame.fileOffset = offset := by
  rw [((scanStep_eq_frame_iff _ _ _ _).mp h).2.1]
  rfl

end Loop

section Agree

variable (evp : EvpOps) (codec : CodecOps) (file : Bytes) (decryptor : Bool)

/-- No frame of more than `n` bytes that is chained from the data offset decodes. -/
def NothingDecodes (n : ℕ) : Prop :=
  ∀ header offset encryption dek, segmentParseHeader file = some (header, offset, encryption) →
    scanKey evp header encryption decryptor = some dek →
    ∀ o k frame chunk, FrameChain (header.flags &&& flagEncrypted != 0) file offset o k →
      o < file.length →
      scanStep (header.flags &&& flagEncrypted != 0) (file.drop o) o = .frame frame →
      n < frame.frameLen.toNat →
      ¬ DecodesAt evp codec file header offset encryption dek k frame chunk

/-- Where header and dictionary are more than one `pread` transfers, no frame is read alone. -/
theorem segmentScanPathFrame_of_longMetadata {τ : Type} (h : ¬ framesStart file ≤ preadLimit)
    (cb : FrameCb τ) (ctx : τ) (fileOffset : ℕ) (frameIndex : UInt64) :
    segmentScanPathFrame evp codec file decryptor cb ctx fileOffset frameIndex = (-1, ctx) := by
  unfold segmentScanPathFrame
  cases hmeta : readMetadata file with
  | none => rfl
  | some metadata =>
    simp only
    cases hparse : segmentParseHeader metadata with
    | none => rfl
    | some r => exact absurd ((readMetadata_iff _ _ _).mp ⟨hmeta, hparse⟩).1 h

/-- A frame that is longer than one `pread` transfers is not read alone.
SOURCE: segment.c:942-956 -/
theorem segmentScanPathFrame_of_longFrame {τ : Type} {encrypted : Bool} {frame : SegmentFrameInfo}
    {o : ℕ} (hstep : scanStep encrypted (file.drop o) o = .frame frame)
    (hlong : preadLimit < frame.frameLen.toNat) (cb : FrameCb τ) (ctx : τ) (frameIndex : UInt64) :
    segmentScanPathFrame evp codec file decryptor cb ctx o frameIndex = (-1, ctx) := by
  have hheader := frameInfoAt_of_scanStep hstep
  unfold segmentScanPathFrame
  cases readMetadata file with
  | none => rfl
  | some metadata =>
    simp only
    cases segmentParseHeader metadata with
    | none => rfl
    | some r =>
      obtain ⟨header, dataOffset, encryption⟩ := r
      simp only
      split
      · rfl
      · cases hhead : preadExact file segmentFrameHeaderSize o with
        | none => rfl
        | some frameHeader =>
          obtain ⟨-, -, rfl⟩ := (preadExact_eq_some_iff _ _ _ _).mp hhead
          simp only [hheader, preadExact_eq_none_of_long hlong, ite_self]

/-- What is chained and decodes is delivered by a scan that hands over nothing in front of it. -/
theorem scanDelivers_of_decodesAt {header : SegmentHeader} {offset o : ℕ}
    {encryption : SegmentEncryptionInfo} {dek : Bytes} {k : UInt64} {frame : SegmentFrameInfo}
    {chunk : Bytes} (hparse : segmentParseHeader file = some (header, offset, encryption))
    (hkey : scanKey evp header encryption decryptor = some dek)
    (hchain : FrameChain (header.flags &&& flagEncrypted != 0) file offset o k)
    (hlt : o < file.length)
    (hstep : scanStep (header.flags &&& flagEncrypted != 0) (file.drop o) o = .frame frame)
    (hdecodes : DecodesAt evp codec file header offset encryption dek k frame chunk) :
    ScanDelivers evp codec file decryptor (fun _ _ _ _ => ((0 : Int), ())) () o k header frame
      chunk := by
  have hat := fileOffset_of_scanStep hstep
  obtain ⟨st, hreached, rfl, rfl, -⟩ := FrameChain.reached (rangeEnv evp codec file header offset
    encryption dek (fun _ _ _ _ => ((0 : Int), ())) o) () hchain le_rfl
  exact ⟨offset, encryption, dek, st, hparse, hkey, hreached, rfl, hlt, hstep, hat.ge, hdecodes⟩

/-- **Single reads and the full scan**: for any file and key, whatever a scan delivers (to any
callback, from any offset on) is delivered alike by both readers of single frames, and these
agree everywhere, if and only if no frame of more than `preadLimit` bytes decodes, and no frame
at all behind metadata of more than `preadLimit` bytes.
SOURCE: segment.c:543-738, 820-994 -/
theorem single_frame_reads_iff :
    ((∀ (σ : Type) (cb : FrameCb σ) (ctx : σ) (minFrameOffset : ℕ) (k : UInt64)
        (header : SegmentHeader) (frame : SegmentFrameInfo) (chunk : Bytes),
        ScanDelivers evp codec file decryptor cb ctx minFrameOffset k header frame chunk →
        ∀ (τ : Type) (cb' : FrameCb τ) (ctx' : τ),
          frameReaderRead evp codec file decryptor cb' ctx' frame.fileOffset k =
            cb' header frame chunk ctx' ∧
          segmentScanPathFrame evp codec file decryptor cb' ctx' frame.fileOffset k =
            cb' header frame chunk ctx') ∧
      ∀ (τ : Type) (cb' : FrameCb τ) (ctx' : τ) (fileOffset : ℕ) (k : UInt64),
        frameReaderRead evp codec file decryptor cb' ctx' fileOffset k =
          segmentScanPathFrame evp codec file decryptor cb' ctx' fileOffset k) ↔
      (framesStart file ≤ preadLimit ∨ NothingDecodes evp codec file decryptor 0) ∧
        NothingDecodes evp codec file decryptor preadLimit := by
  constructor
  · rintro ⟨hagree, -⟩
    constructor
    · rw [or_iff_not_imp_left]
      intro hbig header offset encryption dek hparse hkey o k frame chunk hchain hlt hstep _
        hdecodes
      obtain ⟨-, hread⟩ := hagree _ _ _ _ _ _ _ _ (scanDelivers_of_decodesAt evp codec file
        decryptor hparse hkey hchain hlt hstep hdecodes) Unit (fun _ _ _ _ => (0, ())) ()
      rw [segmentScanPathFrame_of_longMetadata evp codec file decryptor hbig] at hread
      exact absurd (congrArg Prod.fst hread) (by decide)
    · intro header offset encryption dek hparse hkey o k frame chunk hchain hlt hstep hlong hdecodes
      obtain ⟨-, hread⟩ := hagree _ _ _ _ _ _ _ _ (scanDelivers_of_decodesAt evp codec file
        decryptor hparse hkey hchain hlt hstep hdecodes) Unit (fun _ _ _ _ => (0, ())) ()
      rw [fileOffset_of_scanStep hstep,
        segmentScanPathFrame_of_longFrame evp codec file decryptor hstep hlong] at hread
      exact absurd (congrArg Prod.fst hread) (by decide)
  · rintro ⟨hmetadata, hframes⟩
    refine ⟨?_, fun τ cb' ctx' fileOffset k => frameReaderRead_eq _ _ _ _ _ _ _ _⟩
    rintro σ cb ctx minFrameOffset k header frame chunk
      ⟨offset, encryption, dek, st, hparse, hkey, hreached, rfl, hlt, hstep, -, hdecodes⟩ τ cb' ctx'
    rw [frameReaderRead_eq, and_self]
    have hat := fileOffset_of_scanStep hstep
    have hlong : frame.frameLen.toNat ≤ preadLimit := by
      by_contra hlong
      exact hframes header offset encryption dek hparse hkey _ _ _ _ hreached.chain hlt hstep
        (Nat.lt_of_not_le hlong) hdecodes
    have hsmall : framesStart file ≤ preadLimit := by
      rcases hmetadata with hsmall | hnone
      · exact hsmall
      · have hlen := frameLen_ge_of_scanStep hstep
        exact absurd hdecodes (hnone header offset encryption dek hparse hkey _ _ _ _ hreached.chain
          hlt hstep (by omega))
    refine segmentScanPathFrame_of_decodesAt evp codec cb' ctx' hsmall hlong hparse hkey ?_ ?_
      hdecodes
    · rw [hat]
      exact hreached.offset_le
    · rw [hat]
      exact hstep

end Agree

/-! ## A file with a frame in its header -/

/-- The flags of a frame, none of whose bytes is zero. -/
def zoneFrameFlags (compressed : Bool) : UInt32 := if compressed then 0x01010101 else 0x02020202

/-- The header of a frame without a zero byte. -/
def zoneFrameHeader (compressed : Bool) : Bytes :=
  frameHeader (zoneFrameFlags compressed) 0x01010101 0x01010101 0x01010115

/-- A plain header whose time zone is that frame header. -/
def zoneHeader (compressed : Bool) : SegmentHeader :=
  { plainHeader with
    flags := if compressed then flagHasStaticDict else 0
    timezone := zeroPad (timezoneSize - 1) (zoneFrameHeader compressed) }

/-- The frame in the time zone. -/
def zoneFrame (compressed : Bool) : SegmentFrameInfo :=
  ⟨zoneFrameFlags compressed, 0x01010101, 0x01010101, 64, 0x01010115⟩

theorem zoneFrameHeader_ne_zero (compressed : Bool) : ∀ b ∈ zoneFrameHeader compressed, b ≠ 0 := by
  have hbytes : zoneFrameHeader compressed =
      List.replicate 4 (if compressed then 1 else 2) ++ List.replicate 8 1 ++ [0x15, 1, 1, 1] := by
    cases compressed <;> rfl
  rw [hbytes]
  cases compressed <;> simp

/-- **A file whose data offset lies in its header**: header and dictionary add up to
`2^32 + 64`, and the bytes from 64 on are a frame. -/
theorem zone_file (compressed : Bool) :
    ∃ (file : Bytes) (header : SegmentHeader),
      segmentParseHeader file = some (header, 64, {}) ∧
      header.flags = (zoneHeader compressed).flags ∧
      header.dictLen.toNat = 2 ^ 32 - 88 ∧ file.length = 2 ^ 32 + 64 ∧
      ¬ framesStart file < 2 ^ 32 ∧
      scanStep false (file.drop 64) 64 = .frame (zoneFrame compressed) := by
  obtain ⟨front, hfront⟩ : ∃ front : Bytes, front.length = 16842937 :=
    ⟨List.replicate _ 0, List.length_replicate⟩
  obtain ⟨back, hback⟩ : ∃ back : Bytes, back.length = 2 ^ 32 - 88 - 16842937 - 4 :=
    ⟨List.replicate _ 0, List.length_replicate⟩
  -- the first 152 bytes, and what the frame in them takes for its payload
  obtain ⟨body, hbody⟩ : ∃ body, body = headerBody (zoneHeader compressed) 0 (2 ^ 32 - 88) ++
    writeU32Le (headerCrc (headerBody (zoneHeader compressed) 0 (2 ^ 32 - 88)) []) :=
    ⟨_, rfl⟩
  have hbodyLen : body.length = 152 := by
    rw [hbody, List.length_append, length_headerBody, length_writeU32Le]
  have hzone : body.drop 64 = zoneFrameHeader compressed ++ body.drop 80 := by
    rw [hbody]
    cases compressed <;> rfl
  set payload := body.drop 80 ++ front with hpayload
  have hpayloadLen : payload.length = 16843009 := by
    rw [hpayload, List.length_append, List.length_drop, hbodyLen, hfront]
  set crc := writeU32Le (frameCrc (zoneFrameHeader compressed) payload []) with hcrc
  set dict := front ++ (crc ++ back) with hdict
  have hdictLen : dict.length = 2 ^ 32 - 88 := by
    rw [hdict, List.length_append, List.length_append, hfront, hback, hcrc, length_writeU32Le]
    rfl
  have hfile : headerImage (zoneHeader compressed) [] dict = body ++ dict := by
    rw [headerImage, List.length_nil, hdictLen, hbody, List.append_nil]
  have hat : (body ++ dict).drop 64 =
      frameImage (zoneFrameHeader compressed) payload [] ++ back := by
    rw [List.drop_append_of_le_length (by omega), hzone, frameImage, hpayload, hdict, ← hcrc]
    simp only [List.append_assoc, List.append_nil]
  -- header and dictionary are accepted, and add up to more than 32 bits
  have hencryption : parseEncryption (zoneHeader compressed).flags [] = some {} := by
    cases compressed <;> rfl
  have hparse : segmentParseHeader (body ++ dict) = some
      ({ zoneHeader compressed with dictLen := UInt32.ofNat dict.length }, 64, {}) := by
    have h := segmentParseHeader_headerImage (zoneHeader compressed) [] dict [] {}
      plainHeader_padded.1 ⟨zoneFrameHeader compressed, zoneFrameHeader_ne_zero compressed,
        by cases compressed <;> decide, rfl⟩ (by rw [hdictLen]; decide) (by decide) hencryption
    rw [List.append_nil, hfile, hdictLen] at h
    rw [h, hdictLen]
    rfl
  have hdictWord : (UInt32.ofNat dict.length).toNat = 2 ^ 32 - 88 := by rw [hdictLen]; rfl
  have hbig : ¬ framesStart (body ++ dict) < 2 ^ 32 := by
    obtain ⟨⟨hsize, -⟩, hheader, -⟩ := (segmentParseHeader_eq_some_iff _ _ _ _).mp hparse
    have hlen : (readHeaderFields (body ++ dict)).dictLen.toNat = 2 ^ 32 - 88 := by
      rw [← hheader]
      exact hdictWord
    rw [framesStart, hlen]
    omega
  -- the frame in the time zone
  have hheader : zoneFrameHeader compressed = frameHeader (zoneFrameFlags compressed)
      (UInt32.ofNat payload.length) 0x01010101
      (UInt32.ofNat (16 + payload.length + ([] : Bytes).length + 4)) := by
    rw [hpayloadLen]
    rfl
  have hframe : IsFrame false (frameImage (zoneFrameHeader compressed) payload []) := by
    rw [hheader]
    exact isFrame_frameImage false _ _ payload [] rfl (by rw [hpayloadLen]; decide)
  have hinfo : frameInfoAt (frameImage (zoneFrameHeader compressed) payload []) 64 =
      zoneFrame compressed := frameInfoAt_frameImage _ _ _ _ payload [] 64
  have hfooter : footerAt (frameImage (zoneFrameHeader compressed) payload [] ++ back) = none := by
    rw [← hat, footerAt_eq_none_iff]
    rintro ⟨f, hf⟩
    -- the bytes where its magic would be lie in the time zone, and are zero
    have hmagic := congrArg (fun bs => (bs.drop 40).take 8) hf
    have hzero : ((((body ++ dict).drop 64).take 48).drop 40).take 8 = List.replicate 8 0 := by
      rw [List.drop_append_of_le_length (by omega), hbody]
      cases compressed <;> rfl
    have hfield : ((footerImage f).drop 40).take 8 = segmentFooterMagic := rfl
    simp only [hzero, hfield] at hmagic
    exact absurd hmagic (by decide)
  refine ⟨body ++ dict, _, hparse, rfl, hdictWord, ?_, hbig, ?_⟩
  · rw [List.length_append, hbodyLen, hdictLen]
    rfl
  · rw [hat, scanStep_of_isFrame back 64 hframe hfooter, hinfo]

/-- A decoder that takes every chunk. -/
def takingCodec : CodecOps := ⟨fun _ _ _ => none, fun _ _ => true⟩

/-- **A frame in the time zone**: in a file whose header and dictionary add up to `2^32 + 64`
the scan starts inside the header, delivers a frame that lies there, and neither reader of
single frames does. -/
theorem zone_frame_delivered_not_read :
    ∃ (file : Bytes) (header : SegmentHeader) (frame : SegmentFrameInfo) (chunk : Bytes),
      ScanDelivers noEvp takingCodec file false (fun _ _ _ _ => ((0 : Int), ())) () 0 0 header frame
        chunk ∧
      segmentScanPathFrame noEvp takingCodec file false (fun _ _ _ _ => ((0 : Int), ())) ()
        frame.fileOffset 0 ≠ (0, ()) := by
  obtain ⟨file, header, hparse, hflags, -, hlength, hbig, hstep⟩ :=
    zone_file false
  have hplain : (header.flags &&& flagEncrypted != 0) = false := by
    rw [hflags]
    decide
  obtain ⟨payload, hpayload⟩ : ∃ payload, payload =
    ((file.drop 64).drop segmentFrameHeaderSize).take (zoneFrame false).storedLen.toNat :=
    ⟨_, rfl⟩
  refine ⟨file, header, zoneFrame false, payload,
    ⟨64, {}, List.replicate segmentDekSize 0, ScanState.start 64 (), hparse,
      by rw [scanKey, hplain]; rfl,
      .first, rfl, ?_, by rw [hplain]; exact hstep, Nat.zero_le _, payload, ?_, ?_, rfl⟩, ?_⟩
  · rw [hlength]
    decide
  · rw [hplain, hpayload]
    rfl
  · have hflag : ((zoneFrame false).flags &&& frameFlagZstd == 0) = true := by decide
    simp only [decompressPayload, hflag, if_true, Option.some.injEq]
    rw [hpayload, List.take_take, Nat.min_self]
  · have hlong : ¬ framesStart file ≤ preadLimit := fun hle =>
      hbig (lt_of_le_of_lt hle (by decide))
    rw [segmentScanPathFrame_of_longMetadata noEvp takingCodec _ false hlong]
    decide

end Recorder.Analysis
