import Mathlib.Data.List.Forall2
import Mathlib.Data.Option.Basic
import Recorder.Analysis.SegmentDelivery
import Recorder.Model.Recorder

/-!
# The segment files of the writers

`WrittenFile` says that the bytes of a segment file are a header, the frames that are noted
beside them, and a tail. `writer_flush_chunk` keeps this as long as the frame it writes
reaches the file (`FlushReaches`), and closing a segment keeps it in any case, because what
it may leave behind is a tail. The frames are then delivered by a scan
(`WrittenFile.delivers`).
-/

set_option autoImplicit false

namespace Recorder.Analysis

open Recorder.Model

/-! ## Encoded chunks -/

/-- What the analysis uses of flatcc and zstd: a chunk that was built passes the verifier,
and decompression undoes compression. -/
structure ChunkLaws (env : RecorderEnv) (codec : CodecOps) : Prop where
  verify : ∀ compact chunk, chunk ≠ [] → codec.verifyChunk compact (env.chunkBytes compact chunk)
  decompress : ∀ dict raw compressed, env.zstdCompress dict raw = some compressed →
    codec.zstdDecompress dict compressed raw.length = some raw

/-- The operations a chunk needs to get into the file. -/
def frameOps : List IoOp :=
  [.encodeChunk, .allocCompressed, .tellFrame, .allocFrame, .writeFrame, .flushFrame]

/-- A flush in which the frame reaches the file: none of the operations up to its `fflush`
fails, its lengths fit into 32 bits, `segment_write_frame` takes it, and no footer image
stands at its start. -/
structure FlushReaches (env : RecorderEnv) (config : RecorderConfig) (t : ℕ)
    (w : PriorityWriter) : Prop where
  noFault : ∀ op ∈ frameOps, env.io t op = .ok
  raw_le : (env.chunkBytes (!config.fullEntries) w.chunk).length ≤ uint32Max
  compressed_le : ∀ dict compressed,
    env.zstdCompress dict (env.chunkBytes (!config.fullEntries) w.chunk) = some compressed →
    compressed.length ≤ uint32Max
  frame : ∀ f ∈ w.file, ∀ input, encodeChunk env config t f.dict w.chunk = .ok input →
    (segmentWriteFrame env.evp ⟨true, .ok⟩ w.encryptor input.flags input.payload
      input.uncompressedLen).ok = true ∧
    ∀ rest, ¬ FooterImage ((segmentWriteFrame env.evp ⟨true, .ok⟩ w.encryptor input.flags
      input.payload input.uncompressedLen).written ++ rest)

/-- The frame `segment_write_frame` is called with. -/
def FrameInput.stored (input : FrameInput) : StoredFrame :=
  ⟨input.flags, input.payload, input.uncompressedLen⟩

/-- A frame that a scan decodes to the chunk of the given entries. -/
def DecodesTo (env : RecorderEnv) (config : RecorderConfig) (codec : CodecOps)
    (header : SegmentHeader) (dict : Bytes) (entries : List LogEntry) (frame : StoredFrame) :
    Prop :=
  codec.verifyChunk (header.flags &&& flagCompactEntries != 0)
      (env.chunkBytes (!config.fullEntries) entries) = true ∧
    ∀ encrypted offset, decompressPayload codec
      { header with dictLen := UInt32.ofNat dict.length } dict (frame.info encrypted offset)
      frame.payload = some (env.chunkBytes (!config.fullEntries) entries)

/-! ## Files -/

/-- The encryptor of a new segment. -/
def newEncryptor (config : RecorderConfig) : Option SegmentEncryptor :=
  if config.encryption then some segmentEncryptorCreate else none

theorem newEncryptor_isSome (config : RecorderConfig) :
    (newEncryptor config).isSome = config.encryption := by
  unfold newEncryptor
  cases config.encryption <;> rfl

/-- The key frames are encrypted with. -/
def frameKey (config : RecorderConfig) (key : FreshKey) : Option FreshKey :=
  if config.encryption then some key else none

/-- The `segment_write_header` call behind a segment file. -/
def headWrite (env : RecorderEnv) (config : RecorderConfig) (key : FreshKey)
    (f : SegmentOnDisk) : WriteResult :=
  segmentWriteHeader env.evp ⟨some key, true, .ok⟩ f.header f.dict (newEncryptor config)

/-- A header as `writer_open_segment` makes it. -/
structure WriterHeader (config : RecorderConfig) (header : SegmentHeader) (dict : Bytes) :
    Prop where
  boot : ZeroPadded bootIdSize header.bootId
  timezone : ZeroPadded (timezoneSize - 1) header.timezone
  compact : (header.flags &&& flagCompactEntries != 0) = !config.fullEntries
  dict : (header.flags &&& flagHasStaticDict != 0) = decide (dict ≠ [])

/-- **The bytes of a segment file**: its header, the frames noted beside them, and a tail. -/
structure WrittenFile (env : RecorderEnv) (config : RecorderConfig) (codec : CodecOps)
    (f : SegmentOnDisk) (key : FreshKey) (images : List Bytes) (tail : Bytes) : Prop where
  header : WriterHeader config f.header f.dict
  dict : ∃ t gi, f.dict = groupDict env config t gi
  head_ok : (headWrite env config key f).ok = true
  content : f.content = (headWrite env config key f).written ++ (images.flatten ++ tail)
  noFooter : ∀ bs ∈ images, ∀ rest, ¬ FooterImage (bs ++ rest)
  frames : ∃ frames, writeFrames env.evp (frameEncryptor (frameKey config key) 0) frames =
      some images ∧
    List.Forall₂ (fun (written : WrittenFrame) frame =>
      DecodesTo env config codec f.header f.dict written.entries frame) f.frames frames

theorem noFooterImages_of_forall {images : List Bytes} (tail : Bytes)
    (h : ∀ bs ∈ images, ∀ rest, ¬ FooterImage (bs ++ rest)) : NoFooterImages images tail := by
  induction images with
  | nil => trivial
  | cons bs images ih => exact ⟨h bs (by simp) _, ih fun b hb => h b (by simp [hb])⟩

section Delivery

variable {env : RecorderEnv} {config : RecorderConfig} {codec : CodecOps}

/-- The calls of a scan for frames that decode. -/
theorem expectedDeliveries_of_decodes {header : SegmentHeader} {dict : Bytes}
    {written : List WrittenFrame} {frames : List StoredFrame}
    (h : List.Forall₂ (fun (written : WrittenFrame) frame =>
      DecodesTo env config codec header dict written.entries frame) written frames)
    (encrypted : Bool) :
    ∀ offset, ∃ calls, expectedDeliveries codec
        { header with dictLen := UInt32.ofNat dict.length } dict encrypted offset frames =
        some calls ∧
      ∀ w ∈ written, ∃ info, (info, env.chunkBytes (!config.fullEntries) w.entries) ∈ calls := by
  induction h with
  | nil => exact fun offset => ⟨[], rfl, by simp⟩
  | @cons w frame rest frames' h0 _ ih =>
    intro offset
    obtain ⟨calls, hcalls, hmem⟩ := ih (offset + frame.size encrypted)
    refine ⟨(frame.info encrypted offset, env.chunkBytes (!config.fullEntries) w.entries) :: calls,
      ?_, ?_⟩
    · simp only [expectedDeliveries, h0.2 encrypted offset, h0.1, if_true, hcalls,
        Option.map_some]
    · intro w' hw'
      rcases List.mem_cons.mp hw' with rfl | hw'
      · exact ⟨_, List.mem_cons_self⟩
      · obtain ⟨info, hinfo⟩ := hmem w' hw'
        exact ⟨info, List.mem_cons_of_mem _ hinfo⟩

/-- **The frames of a segment file are delivered** by a scan with the key. -/
theorem WrittenFile.delivers {f : SegmentOnDisk} {key : FreshKey} {images : List Bytes}
    {tail : Bytes} (h : WrittenFile env config codec f key images tail)
    (laws : EvpLaws env.evp)
    (hsmall : dataOffset env.evp key config.encryption f.dict < 2 ^ 32) :
    ∀ w ∈ f.frames, ∃ info, (info, env.chunkBytes (!config.fullEntries) w.entries) ∈
      (segmentScanPath env.evp codec f.content true (some recordCalls) []).ctx := by
  obtain ⟨info, spec⟩ := segmentWriteHeader_headSpec laws h.header.boot h.header.timezone h.head_ok
  obtain ⟨frames, himages, hdecodes⟩ := h.frames
  rw [newEncryptor_isSome] at spec
  obtain ⟨calls, hcalls, hmem⟩ := expectedDeliveries_of_decodes hdecodes config.encryption
    (headWrite env config key f).written.length
  have hscanned := spec.scan_delivers laws codec hsmall tail himages
    (noFooterImages_of_forall tail h.noFooter) hcalls
  rw [h.content]
  intro w hw
  obtain ⟨info, hinfo⟩ := hmem w hw
  exact ⟨info, hscanned.subset hinfo⟩

end Delivery

/-! ## Flushing -/

section Flush

variable {env : RecorderEnv} {config : RecorderConfig} {codec : CodecOps} {t : ℕ}

theorem toNat_ofNat_length {l : Bytes} (h : l.length ≤ uint32Max) :
    (UInt32.ofNat l.length).toNat = l.length := by
  rw [UInt32.toNat_ofNat']
  simp only [uint32Max] at h
  omega

/-- An uncompressed chunk is read back as it is. -/
theorem decompressPayload_plain (header : SegmentHeader) (dict : Bytes) {raw : Bytes}
    (hraw : raw.length ≤ uint32Max) (encrypted : Bool) (offset : ℕ) :
    decompressPayload codec header dict
      ((⟨0, raw, UInt32.ofNat raw.length⟩ : StoredFrame).info encrypted offset) raw = some raw := by
  have hflag : ((0 : UInt32) &&& frameFlagZstd == 0) = true := by decide
  simp only [decompressPayload, StoredFrame.info, hflag, if_true, toNat_ofNat_length hraw,
    List.take_length]

/-- A compressed payload is decoded with the dictionary of the segment, if it has one. -/
theorem decompressPayload_zstd_eq (codec : CodecOps) {header : SegmentHeader} {dict : Bytes}
    (hheader : (header.flags &&& flagHasStaticDict != 0) = decide (dict ≠ []))
    (hdict : dict.length ≤ uint32Max) (payload stored : Bytes) (rawLen : UInt32) (encrypted : Bool)
    (offset : ℕ) :
    decompressPayload codec { header with dictLen := UInt32.ofNat dict.length } dict
      ((⟨frameFlagZstd, stored, rawLen⟩ : StoredFrame).info encrypted offset) payload =
      (codec.zstdDecompress (if dict = [] then none else some dict) payload rawLen.toNat).filter
        fun chunk => chunk.length == rawLen.toNat := by
  have huse : (header.flags &&& flagHasStaticDict != 0 && UInt32.ofNat dict.length != 0) =
      decide (dict ≠ []) := by
    rw [hheader]
    by_cases hnil : dict = []
    · simp [hnil]
    · have hne : UInt32.ofNat dict.length ≠ 0 := by
        intro hzero
        have hnat := congrArg UInt32.toNat hzero
        rw [toNat_ofNat_length hdict] at hnat
        exact hnil (List.length_eq_zero_iff.mp hnat)
      simp [hnil, hne]
  unfold decompressPayload
  simp only [StoredFrame.info, huse]
  rw [if_neg (by decide)]
  by_cases hnil : dict = [] <;> simp [hnil]

/-- A compressed chunk is read back through the dictionary it was compressed with. -/
theorem decompressPayload_zstd (laws : ChunkLaws env codec) {header : SegmentHeader} {dict : Bytes}
    (hheader : (header.flags &&& flagHasStaticDict != 0) = decide (dict ≠ []))
    (hdict : dict.length ≤ uint32Max) {raw compressed : Bytes} (hraw : raw.length ≤ uint32Max)
    (hcompress : env.zstdCompress (if dict = [] then none else some dict) raw = some compressed)
    (encrypted : Bool) (offset : ℕ) :
    decompressPayload codec { header with dictLen := UInt32.ofNat dict.length } dict
      ((⟨frameFlagZstd, compressed, UInt32.ofNat raw.length⟩ : StoredFrame).info encrypted offset)
      compressed = some raw := by
  rw [decompressPayload_zstd_eq codec hheader hdict, toNat_ofNat_length hraw,
    laws.decompress _ _ _ hcompress]
  simp

/-- A chunk whose lengths fit is encoded into a frame that decodes to it.
SOURCE: recorder.c:3579-3629 -/
theorem encodeChunk_spec (laws : ChunkLaws env codec) {w : PriorityWriter}
    (h : FlushReaches env config t w) (hchunk : w.chunk ≠ []) {header : SegmentHeader}
    {dict : Bytes} (hheader : WriterHeader config header dict) (hdict : dict.length ≤ uint32Max) :
    ∃ input, encodeChunk env config t dict w.chunk = .ok input ∧
      DecodesTo env config codec header dict w.chunk (FrameInput.stored input) := by
  have hencode : env.io t .encodeChunk = .ok := h.noFault _ (by simp [frameOps])
  have halloc : env.io t .allocCompressed = .ok := h.noFault _ (by simp [frameOps])
  have hverify : codec.verifyChunk (header.flags &&& flagCompactEntries != 0)
      (env.chunkBytes (!config.fullEntries) w.chunk) = true := by
    rw [hheader.compact]
    exact laws.verify _ _ hchunk
  have hplain : DecodesTo env config codec header dict w.chunk
      ⟨0, env.chunkBytes (!config.fullEntries) w.chunk,
        UInt32.ofNat (env.chunkBytes (!config.fullEntries) w.chunk).length⟩ :=
    ⟨hverify, fun encrypted offset => decompressPayload_plain _ _ h.raw_le encrypted offset⟩
  simp only [encodeChunk, hencode, halloc, IoOutcome.errno]
  rw [if_neg (Nat.not_lt.mpr h.raw_le)]
  split
  · cases hcompress : env.zstdCompress (if dict = [] then none else some dict)
        (env.chunkBytes (!config.fullEntries) w.chunk) with
    | none => exact ⟨_, rfl, hplain⟩
    | some compressed =>
      simp only
      split
      · have hle := h.compressed_le _ _ hcompress
        refine ⟨_, rfl, hverify, ?_⟩
        intro encrypted offset
        simp only [FrameInput.stored, toNat_ofNat_length hle, List.take_length]
        exact decompressPayload_zstd laws hheader.dict hdict h.raw_le hcompress encrypted offset
      · exact ⟨_, rfl, hplain⟩
  · exact ⟨_, rfl, hplain⟩

/-- One frame more. -/
theorem writeFrames_append {evp : EvpOps} (laws : EvpLaws evp) (key : Option FreshKey)
    (frame : StoredFrame) (frames : List StoredFrame) :
    ∀ (index : UInt64) (images : List Bytes),
      writeFrames evp (frameEncryptor key index) frames = some images →
      (frame.write evp (frameEncryptor key (index + UInt64.ofNat images.length))).ok = true →
      writeFrames evp (frameEncryptor key index) (frames ++ [frame]) =
        some (images ++
          [(frame.write evp
            (frameEncryptor key (index + UInt64.ofNat images.length))).written]) := by
  induction frames with
  | nil =>
    intro index images h hok
    obtain rfl : images = [] := by simpa [writeFrames] using h.symm
    have hzero : index + UInt64.ofNat ([] : List Bytes).length = index := by simp
    rw [hzero] at hok ⊢
    simp [writeFrames, hok]
  | cons first frames ih =>
    intro index images h hok
    simp only [writeFrames] at h
    split at h
    · rename_i hfirst
      obtain ⟨-, -, -, hnext, -⟩ := StoredFrame.written_spec evp laws key index first 0 hfirst
      rw [hnext] at h
      obtain ⟨images', himages, rfl⟩ := Option.map_eq_some_iff.mp h
      have hindex : index + UInt64.ofNat
          ((first.write evp (frameEncryptor key index)).written :: images').length =
          index + 1 + UInt64.ofNat images'.length := by
        rw [List.length_cons, UInt64.ofNat_add, UInt64.add_assoc,
          UInt64.add_comm (UInt64.ofNat images'.length)]
        rfl
      rw [hindex] at hok ⊢
      have hrest := ih (index + 1) images' himages hok
      simp only [List.cons_append, writeFrames, hfirst, if_true, hnext, hrest, Option.map_some]
    · cases h

/-- A segment file that is open: nothing stands behind its frames, and the encryptor goes on
with the next frame. -/
def OpenSegment (env : RecorderEnv) (config : RecorderConfig) (codec : CodecOps)
    (encryptor : Option SegmentEncryptor) (f : SegmentOnDisk) : Prop :=
  ∃ key images, WrittenFile env config codec f key images [] ∧
    encryptor = frameEncryptor (frameKey config key) (UInt64.ofNat images.length)

/-- A segment file with whatever was left behind its frames. -/
def StoredSegment (env : RecorderEnv) (config : RecorderConfig) (codec : CodecOps)
    (f : SegmentOnDisk) : Prop :=
  ∃ key images tail, WrittenFile env config codec f key images tail

theorem OpenSegment.stored {encryptor : Option SegmentEncryptor} {f : SegmentOnDisk}
    (h : OpenSegment env config codec encryptor f) : StoredSegment env config codec f := by
  obtain ⟨key, images, hfile, -⟩ := h
  exact ⟨key, images, [], hfile⟩

/-- What is written behind the frames, whole or in part, becomes the tail. -/
theorem OpenSegment.append {encryptor : Option SegmentEncryptor} {f : SegmentOnDisk}
    (h : OpenSegment env config codec encryptor f) (written : Bytes)
    (footer : Option SegmentFooter) :
    StoredSegment env config codec
      { f with content := f.content ++ written, footer := footer } := by
  obtain ⟨key, images, hfile, -⟩ := h
  refine ⟨key, images, written, hfile.header, hfile.dict, hfile.head_ok, ?_, hfile.noFooter,
    hfile.frames⟩
  simp only [hfile.content, List.append_nil, List.append_assoc]
  rfl

theorem finishFrame_keeps (env : RecorderEnv) (config : RecorderConfig) (t gi length : ℕ)
    (w : PriorityWriter) :
    (finishFrame env config t gi length w).2.file = w.file ∧
      (finishFrame env config t gi length w).2.chunk = w.chunk ∧
      (finishFrame env config t gi length w).2.encryptor = w.encryptor := by
  unfold finishFrame
  split
  · exact ⟨rfl, rfl, rfl⟩
  · simp only
    split
    · split <;> exact ⟨rfl, rfl, rfl⟩
    · exact ⟨rfl, rfl, rfl⟩

/-- The chunk is empty after a flush, however it ended. -/
theorem writerFlushChunk_chunk (gi : ℕ) (w : PriorityWriter) :
    (writerFlushChunk env config t gi w).2.chunk = [] := by
  unfold writerFlushChunk
  split
  · assumption
  · simp only
    split
    · rfl
    · split
      · rfl
      · split
        · rfl
        · split
          · rfl
          · exact (finishFrame_keeps env config t gi _ _).2.1

theorem writerFlushChunk_of_nil (gi : ℕ) {w : PriorityWriter} (h : w.chunk = []) :
    writerFlushChunk env config t gi w = (none, w) := by
  unfold writerFlushChunk
  rw [if_pos h]

theorem writeChunkFrame_of_reaches {w : PriorityWriter} (h : FlushReaches env config t w)
    {input : FrameInput}
    (hok : ((FrameInput.stored input).write env.evp w.encryptor).ok = true) :
    writeChunkFrame env t w.encryptor input =
      (((FrameInput.stored input).write env.evp w.encryptor).written,
        ((FrameInput.stored input).write env.evp w.encryptor).encryptor, none) := by
  have halloc : env.io t .allocFrame = .ok := h.noFault _ (by simp [frameOps])
  have hwrite : env.io t .writeFrame = .ok := h.noFault _ (by simp [frameOps])
  have hflush : env.io t .flushFrame = .ok := h.noFault _ (by simp [frameOps])
  unfold writeChunkFrame
  simp only [halloc, hwrite, hflush, IoOutcome.errno, IoOutcome.write, Option.isNone_none]
  exact if_pos hok

/-- **A flush whose frame reaches the file** adds the chunk to the frames of the segment,
whether or not it reports a failure of what comes after the frame.
SOURCE: recorder.c:3561-3677 -/
theorem writerFlushChunk_spec (evpLaws : EvpLaws env.evp) (laws : ChunkLaws env codec) (gi : ℕ)
    {w : PriorityWriter} {f : SegmentOnDisk} (hfile : w.file = some f)
    (hopen : OpenSegment env config codec w.encryptor f) (hchunk : w.chunk ≠ [])
    (h : FlushReaches env config t w) :
    ∃ f', (writerFlushChunk env config t gi w).2.file = some f' ∧
      f'.frames = f.frames ++ [⟨f.content.length, w.chunk⟩] ∧
      OpenSegment env config codec (writerFlushChunk env config t gi w).2.encryptor f' := by
  obtain ⟨key, images, hwritten, hencryptor⟩ := hopen
  have hdict : f.dict.length ≤ uint32Max :=
    (segmentWriteHeader_ok env.evp evpLaws key _ _ _ hwritten.head_ok).1
  obtain ⟨input, hencode, hdecodes⟩ := encodeChunk_spec laws h hchunk hwritten.header hdict
  obtain ⟨hok, hfooter⟩ := h.frame f hfile input hencode
  have htell : env.io t .tellFrame = .ok := h.noFault _ (by simp [frameOps])
  have hflush : writerFlushChunk env config t gi w = finishFrame env config t gi
      (f.content ++ ((FrameInput.stored input).write env.evp w.encryptor).written).length
      { w with
        chunk := []
        file := some
          { f with
            content := f.content ++ ((FrameInput.stored input).write env.evp w.encryptor).written
            frames := f.frames ++ [⟨f.content.length, w.chunk⟩] }
        encryptor := ((FrameInput.stored input).write env.evp w.encryptor).encryptor } := by
    unfold writerFlushChunk
    rw [if_neg hchunk]
    simp only [hfile, hencode, htell, IoOutcome.errno, writeChunkFrame_of_reaches h hok]
  obtain ⟨hf, -, he⟩ := finishFrame_keeps env config t gi
    (f.content ++ ((FrameInput.stored input).write env.evp w.encryptor).written).length
    { w with
      chunk := []
      file := some
        { f with
          content := f.content ++ ((FrameInput.stored input).write env.evp w.encryptor).written
          frames := f.frames ++ [⟨f.content.length, w.chunk⟩] }
      encryptor := ((FrameInput.stored input).write env.evp w.encryptor).encryptor }
  rw [hflush]
  refine ⟨_, hf, rfl, ?_⟩
  rw [he]
  -- one frame more behind those that are there
  obtain ⟨frames, himages, hframes⟩ := hwritten.frames
  have hok' : ((FrameInput.stored input).write env.evp w.encryptor).ok = true := hok
  simp only [hencryptor] at hok' hfooter ⊢
  have hok0 : ((FrameInput.stored input).write env.evp
      (frameEncryptor (frameKey config key) (0 + UInt64.ofNat images.length))).ok = true := by
    rw [UInt64.zero_add]
    exact hok'
  have happend := writeFrames_append evpLaws _ _ frames 0 images himages hok0
  rw [UInt64.zero_add] at happend
  obtain ⟨-, -, -, hnext, -⟩ := StoredFrame.written_spec env.evp evpLaws (frameKey config key)
    (UInt64.ofNat images.length) (FrameInput.stored input) 0 hok'
  refine ⟨key, images ++ [((FrameInput.stored input).write env.evp
    (frameEncryptor (frameKey config key) (UInt64.ofNat images.length))).written],
    ⟨hwritten.header, hwritten.dict, hwritten.head_ok, ?_, ?_,
      frames ++ [FrameInput.stored input], happend, ?_⟩, ?_⟩
  · simp only [hwritten.content, List.append_nil, List.flatten_append, List.flatten_cons,
      List.flatten_nil, List.append_assoc]
    rfl
  · intro bs hbs rest
    rcases List.mem_append.mp hbs with hbs | hbs
    · exact hwritten.noFooter bs hbs rest
    · rw [List.mem_singleton.mp hbs]
      exact hfooter rest
  · exact List.rel_append hframes (.cons hdecodes .nil)
  · rw [hnext, List.length_append, List.length_singleton, UInt64.ofNat_add]
    rfl

end Flush

/-! ## Closing and opening -/

section Segments

variable {env : RecorderEnv} {config : RecorderConfig} {codec : CodecOps} {t : ℕ}

/-- Closing a segment leaves its frames where they are, however it ends.
SOURCE: recorder.c:3690-3746 -/
theorem writerFinishSegment_spec {w : PriorityWriter} {f : SegmentOnDisk}
    (h : OpenSegment env config codec w.encryptor f) (reason : RotateReason) :
    (writerFinishSegment env t w f reason).2.1.file = none ∧
      (writerFinishSegment env t w f reason).2.1.chunk = w.chunk ∧
      (writerFinishSegment env t w f reason).2.2.frames = f.frames ∧
      StoredSegment env config codec (writerFinishSegment env t w f reason).2.2 := by
  unfold writerFinishSegment
  simp only
  split
  · split
    · exact ⟨rfl, rfl, rfl, h.append _ _⟩
    · split
      · exact ⟨rfl, rfl, rfl, h.append _ _⟩
      · exact ⟨rfl, rfl, rfl, h.append _ _⟩
  · exact ⟨rfl, rfl, rfl, h.append _ _⟩

/-- A header that was written is written by the same call in which nothing can fail. -/
theorem segmentWriteHeader_of_ok {evp : EvpOps} {io : HeaderIo} {header : SegmentHeader}
    {dict : Bytes} {encryptor : Option SegmentEncryptor} (fallback : FreshKey)
    (h : (segmentWriteHeader evp io header dict encryptor).ok = true) :
    ∃ key, segmentWriteHeader evp ⟨some key, true, .ok⟩ header dict encryptor =
        segmentWriteHeader evp io header dict encryptor ∧
      (encryptor.isSome = true → io.random = some key) := by
  unfold segmentWriteHeader at h ⊢
  split at h
  · cases h
  · rename_i hdict
    split at h
    · cases h
    · rename_i hflags
      simp only [if_neg hdict, if_neg hflags]
      cases encryptor with
      | none =>
        cases hwrite : io.write with
        | ok => exact ⟨fallback, rfl, by simp⟩
        | fail n => simp [hwrite, WriteOutcome.append] at h
      | some enc =>
        simp only at h ⊢
        cases hrandom : io.random with
        | none => simp [hrandom, WriteResult.refuse] at h
        | some key =>
          refine ⟨key, ?_, fun _ => rfl⟩
          simp only [hrandom] at h ⊢
          split at h
          · cases h
          · rename_i wrapped hwrap
            split at h
            · cases h
            · rename_i hlen
              simp only [if_neg hlen]
              split at h
              · cases h
              · rename_i halloc
                simp only [if_neg halloc]
                cases hwrite : io.write with
                | ok => simp [WriteOutcome.append]
                | fail n => simp [hwrite, WriteOutcome.append] at h

theorem errno_firstFailure {ops : List IoOp} (h : env.firstFailure t ops = none) :
    ∀ op ∈ ops, env.io t op = .ok := by
  induction ops with
  | nil => intro op hop; cases hop
  | cons first rest ih =>
    intro op hop
    rw [RecorderEnv.firstFailure] at h
    cases hfirst : env.io t first with
    | fail n err => simp [hfirst, IoOutcome.errno] at h
    | ok =>
      rcases List.mem_cons.mp hop with rfl | hmem
      · exact hfirst
      · exact ih (by simpa [hfirst, IoOutcome.errno] using h) op hmem

theorem newSegmentHeader_writer {gi : ℕ} (seq : UInt64) (e : LogEntry)
    (h : (config.group gi).hasStaticDict = true → (env.staticDict t gi).length ≠ 0) :
    WriterHeader config (newSegmentHeader env config t gi seq e) (groupDict env config t gi) where
  boot := ⟨e.bootId, e.bootId_chars, e.bootId_length, rfl⟩
  timezone := ⟨env.timezone t, env.timezone_chars t, env.timezone_length t, rfl⟩
  compact := by
    simp only [newSegmentHeader]
    cases config.fullEntries <;> cases config.encryption <;>
      cases (config.group gi).hasStaticDict <;> decide
  dict := by
    have hflag : ((newSegmentHeader env config t gi seq e).flags &&& flagHasStaticDict != 0) =
        (config.group gi).hasStaticDict := by
      simp only [newSegmentHeader]
      cases config.fullEntries <;> cases config.encryption <;>
        cases (config.group gi).hasStaticDict <;> decide
    rw [hflag]
    unfold groupDict
    cases hdict : (config.group gi).hasStaticDict with
    | false => simp
    | true =>
      have hne := h hdict
      simpa using fun hnil => hne (by rw [hnil]; rfl)

/-- Behind the failures of `writer_open_segment`: the header is written, and a configured
dictionary is not empty. -/
theorem openFailure_eq_none {gi : ℕ} {seq : UInt64} {e : LogEntry}
    (h : openFailure env config t gi seq e = none) :
    (writeNewHeader env config t gi seq e).ok = true ∧
      ((config.group gi).hasStaticDict = true → (env.staticDict t gi).length ≠ 0) := by
  simp only [openFailure, Option.orElse_eq_none] at h
  obtain ⟨-, -, hdict, hwritten, -⟩ := h
  constructor
  · by_contra hok
    rw [if_neg hok] at hwritten
    cases hwritten
  · intro hsome hzero
    rw [if_pos hsome, Option.orElse_eq_none, if_pos hzero] at hdict
    cases hdict.2

theorem writerOpenSegment_isSome {gi : ℕ} {seq clockJumpSeq : UInt64} {w : PriorityWriter}
    {e : LogEntry}
    (h : (writerOpenSegment env config t gi seq clockJumpSeq w e).errno = none) :
    (writerOpenSegment env config t gi seq clockJumpSeq w e).writer.file.isSome = true := by
  unfold writerOpenSegment at h ⊢
  split at h
  · cases h
  · simp only at h ⊢
    split at h
    · cases h
    · split at h
      · cases h
      · rfl

/-- **A new segment** has a header and nothing behind it.
SOURCE: recorder.c:3395-3559 -/
theorem writerOpenSegment_spec (evpLaws : EvpLaws env.evp) (fallback : FreshKey) (gi : ℕ)
    (seq clockJumpSeq : UInt64) {w : PriorityWriter} (hclosed : w.file = none) (e : LogEntry) :
    (writerOpenSegment env config t gi seq clockJumpSeq w e).writer.chunk = w.chunk ∧
      ∀ f, (writerOpenSegment env config t gi seq clockJumpSeq w e).writer.file = some f →
        OpenSegment env config codec
          (writerOpenSegment env config t gi seq clockJumpSeq w e).writer.encryptor f := by
  unfold writerOpenSegment
  split
  · refine ⟨rfl, ?_⟩
    intro f hf
    rw [hclosed] at hf
    cases hf
  · simp only
    split
    · refine ⟨rfl, ?_⟩
      intro f hf
      simp only [hclosed] at hf
      cases hf
    · rename_i hfailure
      split
      · refine ⟨rfl, ?_⟩
        intro f hf
        simp only [hclosed] at hf
        cases hf
      · refine ⟨rfl, ?_⟩
        intro f hf
        rw [Option.some.injEq] at hf
        subst hf
        obtain ⟨hok, hdict⟩ := openFailure_eq_none hfailure
        obtain ⟨key, hkey, -⟩ := segmentWriteHeader_of_ok fallback hok
        have hhead : (segmentWriteHeader env.evp ⟨some key, true, .ok⟩
            (newSegmentHeader env config t gi seq e) (groupDict env config t gi)
            (newEncryptor config)) = writeNewHeader env config t gi seq e := hkey
        have hok' := hok
        rw [← hhead] at hok'
        obtain ⟨-, -, hencryptor, -⟩ := segmentWriteHeader_ok env.evp evpLaws key _ _ _ hok'
        refine ⟨key, [], ⟨newSegmentHeader_writer seq e hdict, ⟨t, gi, rfl⟩, hok', ?_, by simp, [],
          rfl, .nil⟩, ?_⟩
        · simp only [headWrite, hhead, List.flatten_nil, List.append_nil]
        · rw [← hhead, hencryptor]
          unfold newEncryptor frameKey
          cases config.encryption <;> rfl

end Segments

end Recorder.Analysis
