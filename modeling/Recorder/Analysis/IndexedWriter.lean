import Recorder.Analysis.IndexRebuild
import Recorder.Analysis.Checkpoint
import Recorder.Model.IndexedWriter

/-!
# The index a writer keeps, and the rebuilt one

A segment that a writer opens, fills and closes without a failure is a written segment, and
the index beside it is the index of its frames (`IndexedOpen`, a step lemma for
`writer_flush_chunk` and a run lemma for its calls). So the question whether a rebuild finds
the same index is that of `Recorder.Analysis.IndexRebuild`.

`rebuilt_index_eq_iff`: it does exactly when the first frame lies below `2^32` and no
compressed chunk was cut to 32 bits.
-/

set_option autoImplicit false

namespace Recorder.Analysis

open Recorder.Model

/-! ## Frames of chunks -/

section Chunks

variable {env : RecorderEnv} {config : RecorderConfig} {codec : CodecOps} {t : ℕ}

/-- What more the analysis uses of flatcc and zstd: a chunk is never an empty buffer, and a
part of a compressed frame does not decompress to the length of the whole. -/
structure CutLaws (env : RecorderEnv) (codec : CodecOps) : Prop where
  chunk_ne_nil : ∀ compact chunk, chunk ≠ [] → env.chunkBytes compact chunk ≠ []
  cut : ∀ dict raw compressed n, raw ≠ [] → env.zstdCompress dict raw = some compressed →
    n < compressed.length → ∀ decoded,
      codec.zstdDecompress dict (compressed.take n) raw.length = some decoded →
      decoded.length ≠ raw.length

/-- A chunk whose compressed form is stored although its length does not fit 32 bits: the
frame gets a part of it. With `compress_if_smaller` this cannot happen. -/
def StoredCut (env : RecorderEnv) (config : RecorderConfig) (dict : Bytes)
    (chunk : List LogEntry) : Prop :=
  config.compressEnabled = true ∧ config.compressIfSmaller = false ∧
    config.compressMinFrameBytes ≤ (env.chunkBytes (!config.fullEntries) chunk).length ∧
    ∃ compressed, env.zstdCompress (if dict = [] then none else some dict)
      (env.chunkBytes (!config.fullEntries) chunk) = some compressed ∧ 2 ^ 32 ≤ compressed.length

/-- The two forms a chunk is stored in.
SOURCE: recorder.c:3579-3629 -/
theorem encodeChunk_cases {dict : Bytes} {chunk : List LogEntry} {input : FrameInput}
    (h : encodeChunk env config t dict chunk = .ok input) :
    (env.chunkBytes (!config.fullEntries) chunk).length ≤ uint32Max ∧
      (¬ StoredCut env config dict chunk ∧ input = ⟨0, env.chunkBytes (!config.fullEntries) chunk,
          UInt32.ofNat (env.chunkBytes (!config.fullEntries) chunk).length⟩ ∨
        ∃ compressed, env.zstdCompress (if dict = [] then none else some dict)
            (env.chunkBytes (!config.fullEntries) chunk) = some compressed ∧
          (StoredCut env config dict chunk ↔ 2 ^ 32 ≤ compressed.length) ∧
          input = ⟨frameFlagZstd, compressed.take (compressed.length % 2 ^ 32),
            UInt32.ofNat (env.chunkBytes (!config.fullEntries) chunk).length⟩) := by
  unfold encodeChunk at h
  split at h
  · cases h
  · simp only at h
    split at h
    · cases h
    · rename_i hraw
      refine ⟨Nat.not_lt.mp hraw, ?_⟩
      split at h
      · rename_i hcompress
        rw [Bool.and_eq_true, decide_eq_true_eq] at hcompress
        split at h
        · cases h
        · split at h
          · rename_i hnone
            cases h
            refine .inl ⟨?_, rfl⟩
            rintro ⟨-, -, -, compressed, hsome, -⟩
            rw [hnone] at hsome
            cases hsome
          · rename_i compressed hsome
            split at h
            · rename_i hstored
              cases h
              refine .inr ⟨compressed, hsome, ⟨?_, ?_⟩, by rw [UInt32.toNat_ofNat']⟩
              · rintro ⟨-, -, -, compressed', hsome', hlong⟩
                rw [hsome, Option.some.injEq] at hsome'
                rwa [hsome']
              · intro hlong
                refine ⟨hcompress.1, ?_, hcompress.2, compressed, hsome, hlong⟩
                simp only [Bool.or_eq_true, Bool.not_eq_true', decide_eq_true_eq] at hstored
                refine hstored.resolve_right ?_
                simp only [uint32Max] at hraw
                omega
            · rename_i hplain
              cases h
              refine .inl ⟨?_, rfl⟩
              rintro ⟨-, hsmaller, -⟩
              simp only [hsmaller, Bool.not_false, Bool.true_or, not_true_eq_false] at hplain
      · rename_i hcompress
        cases h
        refine .inl ⟨?_, rfl⟩
        rintro ⟨henabled, -, hmin, -⟩
        exact hcompress (by rw [henabled, decide_eq_true hmin]; rfl)

/-- The frame a flush writes for the chunk of the given entries. -/
def ChunkFrame (env : RecorderEnv) (config : RecorderConfig) (dict : Bytes)
    (entries : List LogEntry) (f : IndexedFrame) : Prop :=
  entries ≠ [] ∧ f.appended = true ∧ f.chunk = env.chunkBytes (!config.fullEntries) entries ∧
    ∃ t input, encodeChunk env config t dict entries = .ok input ∧ f.frame = FrameInput.stored input

/-- The frame of a chunk decodes to it unless it was cut. -/
theorem ChunkFrame.decodes (laws : ChunkLaws env codec) {header : SegmentHeader} {dict : Bytes}
    (hheader : WriterHeader config header dict) (hdict : dict.length ≤ uint32Max)
    {entries : List LogEntry} {f : IndexedFrame} (h : ChunkFrame env config dict entries f)
    (hwhole : ¬ StoredCut env config dict entries) :
    FrameDecodes codec { header with dictLen := UInt32.ofNat dict.length } dict f := by
  obtain ⟨hne, -, hchunk, t, input, hencode, hframe⟩ := h
  obtain ⟨hraw, ⟨-, rfl⟩ | ⟨compressed, hcompress, hcut, rfl⟩⟩ := encodeChunk_cases hencode
  all_goals
    refine ⟨?_, fun encrypted offset => ?_⟩
    · rw [hchunk, show ({ header with dictLen := UInt32.ofNat dict.length } : SegmentHeader).flags =
        header.flags from rfl, hheader.compact]
      exact laws.verify _ _ hne
    rw [hchunk, hframe]
  · exact decompressPayload_plain _ _ hraw encrypted offset
  · have hlt : compressed.length < 2 ^ 32 := by
      rw [hcut] at hwhole
      omega
    simp only [FrameInput.stored, Nat.mod_eq_of_lt hlt, List.take_length]
    exact decompressPayload_zstd laws hheader.dict hdict hraw hcompress encrypted offset

/-- The frame of a chunk that was cut does not decode. -/
theorem ChunkFrame.fails (laws : CutLaws env codec) {header : SegmentHeader} {dict : Bytes}
    (hheader : WriterHeader config header dict) (hdict : dict.length ≤ uint32Max)
    {entries : List LogEntry} {f : IndexedFrame} (h : ChunkFrame env config dict entries f)
    (hcut : StoredCut env config dict entries) :
    FrameFails codec { header with dictLen := UInt32.ofNat dict.length } dict f := by
  obtain ⟨hne, -, -, t, input, hencode, hframe⟩ := h
  obtain ⟨hraw, ⟨hnot, -⟩ | ⟨compressed, hcompress, hiff, rfl⟩⟩ := encodeChunk_cases hencode
  · exact absurd hcut hnot
  · have hlong := hiff.mp hcut
    intro encrypted offset
    rw [hframe]
    simp only [FrameInput.stored]
    rw [decompressPayload_zstd_eq codec hheader.dict hdict, toNat_ofNat_length hraw,
      Option.filter_eq_none_iff]
    intro decoded hdecoded
    simpa using laws.cut _ _ _ _ (laws.chunk_ne_nil _ _ hne) hcompress (by omega) decoded hdecoded

/-! ## A flush without a failure -/

/-- A frame that was written is the frame of a call in which nothing can fail.
SOURCE: segment.c:270-345 -/
theorem segmentWriteFrame_of_ok {evp : EvpOps} {io : FrameIo} {encryptor : Option SegmentEncryptor}
    {flags : UInt32} {payload : Bytes} {uncompressedLen : UInt32}
    (h : (segmentWriteFrame evp io encryptor flags payload uncompressedLen).ok = true) :
    segmentWriteFrame evp io encryptor flags payload uncompressedLen =
      segmentWriteFrame evp ⟨true, .ok⟩ encryptor flags payload uncompressedLen := by
  unfold segmentWriteFrame at h ⊢
  cases encryptor with
  | none =>
    simp only [Option.map_none, Option.isSome_none, Bool.false_eq_true, reduceCtorEq, if_false]
      at h ⊢
    split at h
    · cases h
    · rename_i hlen
      rw [if_neg hlen, if_neg hlen]
      cases hwrite : io.write with
      | ok => rfl
      | fail n => simp [hwrite, WriteOutcome.append] at h
  | some enc =>
    simp only [Option.map_some, Option.isSome_some, if_true] at h ⊢
    split at h
    · cases h
    · rename_i hinit
      rw [if_neg hinit, if_neg hinit]
      split at h
      · cases h
      · rename_i hlen
        rw [if_neg hlen, if_neg hlen]
        split at h
        · cases h
        · rename_i hmax
          rw [if_neg hmax, if_neg hmax]
          split at h
          · cases h
          · rename_i halloc
            rw [if_neg halloc, if_neg (by simp)]
            cases hwrite : io.write with
            | ok => rfl
            | fail n => split at h <;> simp [hwrite, WriteOutcome.append, WriteResult.refuse] at h

/-- INTERNAL: a frame that reached the file. -/
theorem writeChunkFrame_eq_none {encryptor encryptor' : Option SegmentEncryptor}
    {input : FrameInput} {written : Bytes}
    (h : writeChunkFrame env t encryptor input = (written, encryptor', none)) :
    ((FrameInput.stored input).write env.evp encryptor).ok = true ∧
      written = ((FrameInput.stored input).write env.evp encryptor).written ∧
      encryptor' = ((FrameInput.stored input).write env.evp encryptor).encryptor := by
  unfold writeChunkFrame at h
  simp only at h
  split at h
  · rename_i hok
    have heq := segmentWriteFrame_of_ok hok
    rw [heq] at hok h
    split at h
    · simp only [Prod.mk.injEq, and_true] at h
      exact ⟨hok, h.1.symm, h.2.symm⟩
    · simp at h
  · simp at h

/-- What a flush without a failure has done: the chunk was encoded, its frame reached the
file, and the record was appended.
SOURCE: recorder.c:3561-3677 -/
theorem writerFlushChunk_eq_none (gi : ℕ) {w : PriorityWriter} (hchunk : w.chunk ≠ [])
    (h : (writerFlushChunk env config t gi w).1 = none) :
    ∃ f input, w.file = some f ∧ encodeChunk env config t f.dict w.chunk = .ok input ∧
      env.io t .appendIndex = .ok ∧ (env.io t .tellFrame).errno = none ∧
      writeChunkFrame env t w.encryptor input =
        (((FrameInput.stored input).write env.evp w.encryptor).written,
          ((FrameInput.stored input).write env.evp w.encryptor).encryptor, none) ∧
      ((FrameInput.stored input).write env.evp w.encryptor).ok = true ∧
      (writerFlushChunk env config t gi w).2.file = some
        { f with
          content := f.content ++ ((FrameInput.stored input).write env.evp w.encryptor).written
          frames := f.frames ++ [⟨f.content.length, w.chunk⟩] } ∧
      (writerFlushChunk env config t gi w).2.encryptor =
        ((FrameInput.stored input).write env.evp w.encryptor).encryptor := by
  unfold writerFlushChunk at h ⊢
  rw [if_neg hchunk] at h ⊢
  simp only at h ⊢
  cases hfile : w.file with
  | none => rw [hfile] at h; simp at h
  | some f =>
    simp only [hfile] at h ⊢
    cases hencode : encodeChunk env config t f.dict w.chunk with
    | error err => rw [hencode] at h; simp at h
    | ok input =>
      simp only [hencode] at h ⊢
      cases htell : (env.io t .tellFrame).errno with
      | some err => rw [htell] at h; simp at h
      | none =>
        simp only [htell] at h ⊢
        rcases hframe : writeChunkFrame env t w.encryptor input with ⟨written, encryptor, _ | err⟩
        · obtain ⟨hok, rfl, rfl⟩ := writeChunkFrame_eq_none hframe
          rw [hframe] at h
          simp only at h ⊢
          obtain ⟨hf, -, he⟩ := finishFrame_keeps env config t gi
            (f.content ++ ((FrameInput.stored input).write env.evp w.encryptor).written).length
            { w with
              chunk := []
              file := some
                { f with
                  content := f.content ++
                    ((FrameInput.stored input).write env.evp w.encryptor).written
                  frames := f.frames ++ [⟨f.content.length, w.chunk⟩] }
              encryptor := ((FrameInput.stored input).write env.evp w.encryptor).encryptor }
          refine ⟨f, input, rfl, hencode, ?_, trivial, hframe, hok, hf, he⟩
          unfold finishFrame at h
          split at h
          · simp at h
          · rename_i hfailure
            exact errno_firstFailure hfailure _ (by simp)
        · rw [hframe] at h
          simp at h

end Chunks

/-! ## The index beside an open segment -/

section Open

variable (env : RecorderEnv) (config : RecorderConfig) (getters : ChunkGetters)

/-- A writer with an open segment and an open index: the segment is its header and the frames
of its chunks, the index has the record of each frame. -/
structure IndexedOpen (key : FreshKey) (iw : IndexedWriter) (f : SegmentOnDisk)
    (images : List Bytes) (frames : List IndexedFrame) : Prop where
  file : iw.writer.file = some f
  header : iw.indexHeader = f.header
  head_ok : (headWrite env config key f).ok = true
  content : f.content = (headWrite env config key f).written ++ images.flatten
  written : writeFrames env.evp (frameEncryptor (frameKey config key) 0) (frames.map (·.frame)) =
    some images
  encryptor : iw.writer.encryptor =
    frameEncryptor (frameKey config key) (UInt64.ofNat images.length)
  index : iw.index = indexAppends getters f.header config.encryption
    (headWrite env config key f).written.length frames
    { bytes := indexHeaderImage f.header.segmentSeq f.header.flags }
  noError : iw.index.error = false
  chunks : List.Forall₂ (fun (written : WrittenFrame) frame =>
    ChunkFrame env config f.dict written.entries frame) f.frames frames
  offsets : f.frames.map (·.offset) =
    (frameInfos (headWrite env config key f).written.length images).map (·.fileOffset)

end Open

section Step

variable {env : RecorderEnv} {config : RecorderConfig} {getters : ChunkGetters} {t : ℕ}

/-- Appends for a list of frames and one more. -/
theorem indexAppends_append (getters : ChunkGetters) (header : SegmentHeader) (encrypted : Bool)
    (frames : List IndexedFrame) (f : IndexedFrame) :
    ∀ (offset : ℕ) (writer : IndexWriter),
      indexAppends getters header encrypted offset (frames ++ [f]) writer =
        (indexWriterAppend f.write getters
          (indexAppends getters header encrypted offset frames writer) header
          (f.frame.info encrypted
            (offset + (frames.map fun f => f.frame.size encrypted).sum)) f.chunk).2 := by
  induction frames with
  | nil => intro offset writer; rfl
  | cons first frames ih =>
    intro offset writer
    rw [List.cons_append, indexAppends, ih, indexAppends, List.map_cons, List.sum_cons,
      Nat.add_assoc]

/-- The bytes of a list of written frames. -/
theorem length_writeFrames {evp : EvpOps} (laws : EvpLaws evp) (key : Option FreshKey)
    (frames : List IndexedFrame) :
    ∀ (index : UInt64) (images : List Bytes),
      writeFrames evp (frameEncryptor key index) (frames.map (·.frame)) = some images →
      images.flatten.length = (frames.map fun f => f.frame.size key.isSome).sum := by
  induction frames with
  | nil =>
    intro index images h
    obtain rfl : images = [] := by simpa [writeFrames] using h.symm
    rfl
  | cons f frames ih =>
    intro index images h
    simp only [List.map_cons, writeFrames] at h
    split at h
    · rename_i hok
      obtain ⟨-, -, hlen, hnext, -⟩ := StoredFrame.written_spec evp laws key index f.frame 0 hok
      rw [hnext] at h
      obtain ⟨images', himages, rfl⟩ := Option.map_eq_some_iff.mp h
      rw [List.flatten_cons, List.length_append, hlen, ih (index + 1) images' himages,
        List.map_cons, List.sum_cons]
    · cases h

theorem isSome_frameKey (config : RecorderConfig) (key : FreshKey) :
    (frameKey config key).isSome = config.encryption := by
  unfold frameKey
  cases config.encryption <;> rfl

/-- Only a successful append leaves the environment of the flush as it is. -/
theorem appending_eq_of_ok {appended : Bool}
    (h : (env.appending appended).io t .appendIndex = .ok) :
    appended = true ∧ env.appending appended = env := by
  cases appended with
  | true => exact ⟨rfl, rfl⟩
  | false => simp [RecorderEnv.appending] at h

/-- INTERNAL: the record a flush hands over is the one for the frame it has written. -/
theorem flushedFrame_eq {w : PriorityWriter} {f : SegmentOnDisk} {input : FrameInput}
    {res : WriteResult} (hchunk : w.chunk ≠ []) (hfile : w.file = some f)
    (hencode : encodeChunk env config t f.dict w.chunk = .ok input)
    (htell : (env.io t .tellFrame).errno = none)
    (hframe : writeChunkFrame env t w.encryptor input = (res.written, res.encryptor, none)) :
    flushedFrame env config t w =
      some ((FrameInput.stored input).info w.encryptor.isSome f.content.length,
        env.chunkBytes (!config.fullEntries) w.chunk) := by
  unfold flushedFrame
  rw [if_neg hchunk]
  simp only [hfile, hencode, htell, hframe, Option.some.injEq, Prod.mk.injEq, and_true,
    FrameInput.stored, StoredFrame.info, StoredFrame.size, SegmentFrameInfo.mk.injEq, true_and,
    tagLen]
  cases w.encryptor with
  | none => simp [UInt32.ofNat_add]
  | some enc =>
    simp [UInt32.ofNat_add, gcmTagSize]
    ac_rfl

/-- The chunks that calls on an open segment, and the flush behind them, write, from the chunk
of the writer. -/
def flushedChunks : List LogEntry → List SegmentCall → List (List LogEntry)
  | chunk, [] => if chunk = [] then [] else [chunk]
  | chunk, .add e :: calls => flushedChunks (chunk ++ [e]) calls
  | chunk, .flush :: calls =>
    (if chunk = [] then [] else [chunk]) ++ flushedChunks [] calls

/-- **A flush without a failure** writes one frame more, and its record.
SOURCE: recorder.c:3561-3677 -/
theorem indexedFlushChunk_spec (laws : EvpLaws env.evp) (gi : ℕ) {key : FreshKey}
    {iw : IndexedWriter} {f : SegmentOnDisk} {images : List Bytes} {frames : List IndexedFrame}
    (h : IndexedOpen env config getters key iw f images frames)
    (hok : (indexedFlushChunk env config getters t gi iw).1 = none) :
    ∃ f' images' frames', IndexedOpen env config getters key
        (indexedFlushChunk env config getters t gi iw).2 f' images' frames' ∧
      f'.header = f.header ∧ f'.dict = f.dict ∧
      (indexedFlushChunk env config getters t gi iw).2.writer.chunk = [] ∧
      f'.frames.map (·.entries) = f.frames.map (·.entries) ++
        flushedChunks iw.writer.chunk [] := by
  by_cases hchunk : iw.writer.chunk = []
  · have hnone : flushedFrame env config t iw.writer = none := by
      unfold flushedFrame
      rw [if_pos hchunk]
    have heq : indexedFlushChunk env config getters t gi iw = (none, iw) := by
      unfold indexedFlushChunk
      rw [hnone, writerFlushChunk_of_nil gi hchunk]
    rw [heq]
    exact ⟨f, images, frames, h, rfl, rfl, hchunk, by rw [flushedChunks, if_pos hchunk,
      List.append_nil]⟩
  cases hflushed : flushedFrame env config t iw.writer with
  | none =>
    have hnone : (writerFlushChunk env config t gi iw.writer).1 = none := by
      simpa only [indexedFlushChunk, hflushed] using hok
    obtain ⟨f0, input, hfile, hencode, -, htell, hframe, -⟩ :=
      writerFlushChunk_eq_none gi hchunk hnone
    rw [flushedFrame_eq hchunk hfile hencode htell hframe] at hflushed
    cases hflushed
  | some handed =>
    obtain ⟨info, raw⟩ := handed
    have heq : indexedFlushChunk env config getters t gi iw =
        ((writerFlushChunk (env.appending (indexWriterAppend (env.io t .appendIndex).write getters
          iw.index iw.indexHeader info raw).1) config t gi iw.writer).1,
        { iw with
          writer := (writerFlushChunk (env.appending (indexWriterAppend
            (env.io t .appendIndex).write getters iw.index iw.indexHeader info raw).1) config t gi
            iw.writer).2
          index := (indexWriterAppend (env.io t .appendIndex).write getters iw.index
            iw.indexHeader info raw).2 }) := by
      simp only [indexedFlushChunk, hflushed]
    rw [heq] at hok ⊢
    obtain ⟨f0, input, -, -, happend, -⟩ := writerFlushChunk_eq_none gi hchunk hok
    obtain ⟨happended, henv⟩ := appending_eq_of_ok happend
    rw [henv] at hok ⊢ happend
    obtain ⟨f0, input, hfile, hencode, -, htell, hframe, hwritten, hfile', hencryptor'⟩ :=
      writerFlushChunk_eq_none gi hchunk hok
    obtain rfl : f = f0 := Option.some.inj (h.file.symm.trans hfile)
    rw [flushedFrame_eq hchunk hfile hencode htell hframe, Option.some.injEq,
      Prod.mk.injEq] at hflushed
    obtain ⟨rfl, rfl⟩ := hflushed
    have hsome : iw.writer.encryptor.isSome = config.encryption := by
      rw [h.encryptor, isSome_frameEncryptor, isSome_frameKey]
    have hlen : f.content.length = (headWrite env config key f).written.length +
        (frames.map fun f => f.frame.size config.encryption).sum := by
      rw [h.content, List.length_append, length_writeFrames laws _ frames 0 images h.written,
        isSome_frameKey]
    -- one frame more behind those that are there
    rw [h.encryptor] at hwritten
    have hok0 : ((FrameInput.stored input).write env.evp
        (frameEncryptor (frameKey config key) (0 + UInt64.ofNat images.length))).ok = true := by
      rw [UInt64.zero_add]
      exact hwritten
    have hframes := writeFrames_append laws _ _ (frames.map (·.frame)) 0 images h.written hok0
    rw [UInt64.zero_add, ← h.encryptor] at hframes
    obtain ⟨-, hinfo, -, hnext, -⟩ := StoredFrame.written_spec env.evp laws (frameKey config key)
      (UInt64.ofNat images.length) (FrameInput.stored input) f.content.length hwritten
    refine ⟨_, images ++ [((FrameInput.stored input).write env.evp iw.writer.encryptor).written],
      frames ++ [⟨FrameInput.stored input, env.chunkBytes (!config.fullEntries) iw.writer.chunk,
        true⟩], ⟨hfile', h.header, h.head_ok, ?_, ?_, ?_, ?_, ?_, ?_, ?_⟩, rfl, rfl,
      writerFlushChunk_chunk gi _, ?_⟩
    · simp only [h.content, List.flatten_append, List.flatten_cons, List.flatten_nil,
        List.append_nil, List.append_assoc]
      rfl
    · rw [List.map_append]
      exact hframes
    · rw [hencryptor', h.encryptor, hnext, List.length_append, List.length_singleton,
        UInt64.ofNat_add]
      rfl
    · rw [indexAppends_append, happend, hsome]
      simp only [IndexedFrame.write, if_true, IoOutcome.write]
      rw [h.index, h.header, hlen]
      rfl
    · rw [happend] at happended ⊢
      simp only [IoOutcome.write] at happended ⊢
      simp only [indexWriterAppend] at happended ⊢
      split at happended
      · cases happended
      · rename_i hnot
        rw [if_neg hnot]
        simpa using hnot
    · refine List.rel_append h.chunks (.cons ⟨hchunk, rfl, rfl, t, input, hencode, rfl⟩ .nil)
    · simp only [List.map_append, List.map_cons, List.map_nil, h.offsets, frameInfos_append]
      refine congrArg₂ (· ++ ·) rfl ?_
      simp only [frameInfos, List.map_cons, List.map_nil, frameInfoAt, h.content,
        List.length_append]
      rfl
    · rw [List.map_append, flushedChunks, if_neg hchunk]
      rfl

/-- **Calls without a failure** keep the index beside the segment.
SOURCE: recorder.c:3561-3677 -/
theorem indexedCalls_spec (laws : EvpLaws env.evp) (gi : ℕ) {key : FreshKey}
    (calls : List SegmentCall) :
    ∀ (t : ℕ) {iw iw' : IndexedWriter} {f : SegmentOnDisk} {images : List Bytes}
      {frames : List IndexedFrame}, IndexedOpen env config getters key iw f images frames →
      indexedCalls env config getters gi t calls iw = .ok iw' →
      ∃ f' images' frames', IndexedOpen env config getters key iw' f' images' frames' ∧
        f'.header = f.header ∧ f'.dict = f.dict ∧
        f'.frames.map (·.entries) ++ flushedChunks iw'.writer.chunk [] =
          f.frames.map (·.entries) ++ flushedChunks iw.writer.chunk calls := by
  induction calls with
  | nil =>
    intro t iw iw' f images frames h hrun
    obtain rfl := Except.ok.inj hrun
    exact ⟨f, images, frames, h, rfl, rfl, rfl⟩
  | cons call calls ih =>
    intro t iw iw' f images frames h hrun
    cases call with
    | add e =>
      have hadded : IndexedOpen env config getters key
          { iw with writer := writerAddEntry iw.writer e } f images frames :=
        ⟨h.file, h.header, h.head_ok, h.content, h.written, h.encryptor, h.index, h.noError,
          h.chunks, h.offsets⟩
      exact ih (t + 1) hadded hrun
    | flush =>
      rw [indexedCalls] at hrun
      rcases hflush : indexedFlushChunk env config getters t gi iw with ⟨_ | err, iw₁⟩
      · rw [hflush] at hrun
        obtain ⟨f₁, images₁, frames₁, h₁, hheader, hdict, hchunk, hentries⟩ :=
          indexedFlushChunk_spec laws gi h (by rw [hflush])
        rw [hflush] at h₁ hchunk
        obtain ⟨f', images', frames', h', hheader', hdict', hentries'⟩ := ih (t + 1) h₁ hrun
        refine ⟨f', images', frames', h', hheader'.trans hheader, hdict'.trans hdict, ?_⟩
        rw [hentries', hentries, hchunk, flushedChunks, flushedChunks, List.append_assoc]
      · rw [hflush] at hrun
        cases hrun

/-! ## A whole segment -/

/-- The bytes in front of the first frame of a new segment: fixed header, extension and
dictionary. -/
def headSize (env : RecorderEnv) (config : RecorderConfig) (t gi : ℕ) : ℕ :=
  segmentHeaderFixedSize +
    (if config.encryption then encryptionExtensionFixedSize + noncePrefixSize +
      (((env.random t).bind fun key => env.evp.wrapDek key.dek).getD []).length else 0) +
    (groupDict env config t gi).length

/-- A segment with its index, as the writer opened it. -/
theorem indexedOpenSegment_spec (laws : EvpLaws env.evp) {gi : ℕ} {seq clockJumpSeq : UInt64}
    {w : PriorityWriter} {e : LogEntry} {iw : IndexedWriter}
    (h : indexedOpenSegment env config t gi seq clockJumpSeq w e = .ok iw) :
    ∃ key f, IndexedOpen env config getters key iw f [] [] ∧
      WriterHeader config f.header f.dict ∧ f.dict = groupDict env config t gi ∧
      headSize env config t gi = dataOffset env.evp key config.encryption f.dict ∧
      f.frames = [] ∧ iw.writer.chunk = w.chunk := by
  unfold indexedOpenSegment writerOpenSegment at h
  cases hmkdir : (env.io t .mkdir).errno with
  | some err => simp [hmkdir] at h
  | none =>
    simp only [hmkdir] at h
    cases hfailure : openFailure env config t gi seq e with
    | some err => simp [hfailure] at h
    | none =>
      simp only [hfailure] at h
      obtain ⟨hok, hdict⟩ := openFailure_eq_none hfailure
      cases hsync : env.firstFailure t [.syncDir, .tellHeader] with
      | some err => simp [hsync] at h
      | none =>
        simp only [hsync] at h
        obtain ⟨key, hkey, hrandom⟩ := segmentWriteHeader_of_ok zeroKey hok
        have hopen : env.io t .openIndex = .ok := by
          simp only [openFailure, Option.orElse_eq_none] at hfailure
          exact errno_firstFailure hfailure.2.2.2.2 _ (by simp)
        simp only [hopen, IoOutcome.write, indexWriterOpen, Except.ok.injEq] at h
        subst h
        have hhead : segmentWriteHeader env.evp ⟨some key, true, .ok⟩
            (newSegmentHeader env config t gi seq e) (groupDict env config t gi)
            (newEncryptor config) = writeNewHeader env config t gi seq e := hkey
        have hok' := hok
        rw [← hhead] at hok'
        obtain ⟨-, -, hencryptor, -⟩ := segmentWriteHeader_ok env.evp laws key _ _ _ hok'
        refine ⟨key, _, ⟨rfl, rfl, hok', ?_, rfl, ?_, rfl, rfl, .nil, rfl⟩,
          newSegmentHeader_writer seq e hdict, rfl, ?_, rfl, rfl⟩
        · simp only [headWrite, hhead, List.flatten_nil, List.append_nil]
        · rw [← hhead, hencryptor]
          unfold newEncryptor frameKey
          cases config.encryption <;> rfl
        · unfold headSize dataOffset
          cases henc : config.encryption with
          | false => rfl
          | true =>
            have hsome : env.random t = some key := hrandom (by rw [henc]; rfl)
            rw [hsome]
            rfl

/-- The footers of the writers pass the check of `segment_write_footer`. -/
theorem segmentWriteFooter_writerFooter (write : WriteOutcome) (w : PriorityWriter)
    (reason : RotateReason) :
    segmentWriteFooter write (writerFooter w reason) =
      ⟨(write.append (footerImage (writerFooter w reason))).2,
        (write.append (footerImage (writerFooter w reason))).1, none, none⟩ := by
  have hflags : (writerFooter w reason).footerFlags &&& footerFlagHasSignature = 0 := by
    simp only [writerFooter]
    cases w.realtimeNonmonotonic <;> decide
  unfold segmentWriteFooter
  rw [hflags]
  rfl

/-- A segment is closed where nothing fails. -/
theorem writerFinishSegment_of_ok (env : RecorderEnv) (t : ℕ) (hio : ∀ op, env.io t op = .ok)
    (w : PriorityWriter) (f : SegmentOnDisk) (reason : RotateReason) :
    ∃ released f', writerFinishSegment env t w f reason = (none, released, f') := by
  unfold writerFinishSegment
  simp only [segmentWriteFooter_writerFooter, hio, IoOutcome.write, IoOutcome.errno,
    WriteOutcome.append, if_true]
  exact ⟨_, _, rfl⟩

/-- Closing a segment without a failure puts a footer behind its frames.
SOURCE: recorder.c:3690-3746 -/
theorem writerFinishSegment_eq_none {w released : PriorityWriter} {f f' : SegmentOnDisk}
    {reason : RotateReason}
    (h : writerFinishSegment env t w f reason = (none, released, f')) :
    env.io t .closeIndex = .ok ∧ released.bytesWritten = f'.content.length ∧
      f' = { f with
        content := f.content ++ footerImage (writerFooter w reason)
        footer := some (writerFooter w reason) } ∧
      writeFooterOpt (some (writerFooter w reason)) =
        some (footerImage (writerFooter w reason)) := by
  unfold writerFinishSegment at h
  simp only [segmentWriteFooter_writerFooter] at h
  cases hwrite : env.io t .writeFooter with
  | fail n err => simp [hwrite, IoOutcome.write, WriteOutcome.append] at h
  | ok =>
    cases hsync : env.io t .syncFooter with
    | fail n err => simp [hwrite, hsync, IoOutcome.write, WriteOutcome.append] at h
    | ok =>
      cases hclose : env.io t .closeIndex with
      | fail n err =>
        simp [hwrite, hsync, hclose, IoOutcome.write, IoOutcome.errno, WriteOutcome.append] at h
      | ok =>
        simp only [hwrite, hsync, hclose, IoOutcome.write, IoOutcome.errno, WriteOutcome.append,
          if_true, Prod.mk.injEq, true_and] at h
        obtain ⟨rfl, rfl⟩ := h
        refine ⟨rfl, rfl, rfl, ?_⟩
        rw [writeFooterOpt, segmentWriteFooter_writerFooter]
        rfl

/-- A segment and its index as files, in the terms of the format: `writeSegment` makes the
one, `writeIndex` the other, from the frames of the chunks. -/
structure IndexedSegmentSpec (env : RecorderEnv) (config : RecorderConfig)
    (getters : ChunkGetters) (chunks : List (List LogEntry)) (f : SegmentOnDisk) (file : Bytes)
    (key : FreshKey) (w : WrittenSegment) (frames : List IndexedFrame) : Prop where
  segment : writeSegment env.evp key (newEncryptor config)
    ⟨f.header, f.dict, frames.map (·.frame), f.footer⟩ = some w
  content : w.file = f.content
  index : writeIndex getters f.header config.encryption w.head.length frames
    (UInt64.ofNat w.file.length) = some file
  header : WriterHeader config f.header f.dict
  chunks_eq : f.frames.map (·.entries) = chunks
  frames_eq : List.Forall₂ (fun (written : WrittenFrame) frame =>
    ChunkFrame env config f.dict written.entries frame) f.frames frames
  offsets : f.frames.map (·.offset) = (frameInfos w.head.length w.images).map (·.fileOffset)

/-- **A segment opened, filled and closed without a failure**, with its index. -/
theorem indexedSegment_spec (laws : EvpLaws env.evp) {gi : ℕ} {seq clockJumpSeq : UInt64}
    {w : PriorityWriter} {e : LogEntry} {calls : List SegmentCall} {reason : RotateReason}
    {f : SegmentOnDisk} {file : Bytes}
    (h : indexedSegment env config getters t gi seq clockJumpSeq w e calls reason = .ok (f, file)) :
    ∃ key written frames, IndexedSegmentSpec env config getters (flushedChunks w.chunk calls) f file
        key written frames ∧ f.dict = groupDict env config t gi ∧
      headSize env config t gi = dataOffset env.evp key config.encryption f.dict := by
  unfold indexedSegment at h
  cases hopen : indexedOpenSegment env config t gi seq clockJumpSeq w e with
  | error err => simp [hopen] at h
  | ok iw =>
    obtain ⟨key, f₀, h₀, hheader, hdict, hsize, hnil, hchunk⟩ := indexedOpenSegment_spec laws hopen
    simp only [hopen] at h
    cases hcalls : indexedCalls env config getters gi (t + 1) calls iw with
    | error err => simp [hcalls] at h
    | ok iw₁ =>
      obtain ⟨f₁, images₁, frames₁, h₁, hheader₁, hdict₁, hentries₁⟩ :=
        indexedCalls_spec laws gi calls (t + 1) h₀ hcalls
      simp only [hcalls, indexedCloseSegment] at h
      rcases hflush : indexedFlushChunk env config getters (t + 1 + calls.length) gi iw₁ with
        ⟨_ | err, iw₂⟩
      · obtain ⟨f₂, images, frames, h₂, hheader₂, hdict₂, -, hentries₂⟩ :=
          indexedFlushChunk_spec laws gi h₁ (by rw [hflush])
        rw [hflush] at h₂
        have hfile : iw₂.writer.file = some f₂ := h₂.file
        have hindexHeader : iw₂.indexHeader = f₂.header := h₂.header
        simp only [hflush, hfile] at h
        rcases hfinish :
            writerFinishSegment env (t + 1 + calls.length + 1) iw₂.writer f₂ reason with
          ⟨_ | err, released, f₃⟩
        · obtain ⟨hclose, hbytes, rfl, hfooter⟩ := writerFinishSegment_eq_none hfinish
          simp only [hfinish, hclose, IoOutcome.write, hbytes, indexWriterClose,
            WriteOutcome.append, Bool.not_true, Bool.false_eq_true, if_false, if_true,
            Except.ok.injEq, Prod.mk.injEq] at h
          obtain ⟨rfl, rfl⟩ := h
          have hhead := h₂.head_ok
          obtain ⟨-, -, hencryptor, -⟩ := segmentWriteHeader_ok env.evp laws key _ _ _ hhead
          have hkey : (segmentWriteHeader env.evp ⟨some key, true, .ok⟩ f₂.header f₂.dict
              (newEncryptor config)).encryptor = frameEncryptor (frameKey config key) 0 := by
            rw [hencryptor]
            unfold newEncryptor frameKey
            cases config.encryption <;> rfl
          have hdict₀ : f₂.dict = f₀.dict := hdict₂.trans hdict₁
          have hheader₀ : f₂.header = f₀.header := hheader₂.trans hheader₁
          refine ⟨key, ⟨(headWrite env config key f₂).written, images,
            footerImage (writerFooter iw₂.writer reason)⟩, frames,
            ⟨?_, ?_, ?_, ?_, ?_, h₂.chunks, h₂.offsets⟩, hdict₀.trans hdict, ?_⟩
          · unfold writeSegment
            simp only [hkey, h₂.written, hfooter]
            exact if_pos hhead
          · rw [WrittenSegment.file, h₂.content, List.append_assoc]
          · rw [WrittenSegment.file, h₂.content, List.append_assoc]
            have hindex : iw₂.index = _ := h₂.index
            rw [hindex]
            rfl
          · rw [← hheader₀, ← hdict₀] at hheader
            exact hheader
          · have hchunk₁ : flushedChunks iw.writer.chunk calls = flushedChunks w.chunk calls := by
              rw [hchunk]
            rw [hnil, List.map_nil, List.nil_append, hchunk₁] at hentries₁
            rw [← hentries₁]
            exact hentries₂
          · rw [hsize, ← hdict₀]
        · simp [hfinish] at h
      · simp [hflush] at h

end Step

/-! ## The rebuilt index -/

/-- Footer images at no place where a frame starts. -/
theorem noFooterImages_of_offsets {tail : Bytes} (images : List Bytes) :
    ∀ (content : Bytes) (offset : ℕ), content.drop offset = images.flatten ++ tail →
      (∀ o ∈ (frameInfos offset images).map (·.fileOffset), ¬ FooterImage (content.drop o)) →
      NoFooterImages images tail := by
  induction images with
  | nil => intro content offset _ _; trivial
  | cons bs images ih =>
    intro content offset hdrop h
    rw [List.flatten_cons, List.append_assoc] at hdrop
    refine ⟨?_, ih content (offset + bs.length) ?_ ?_⟩
    · rw [← hdrop]
      exact h offset (by simp [frameInfos, frameInfoAt])
    · rw [← List.drop_drop, hdrop, List.drop_left]
    · intro o ho
      exact h o (by simp only [frameInfos, List.map_cons]; exact List.mem_cons_of_mem _ ho)

/-- A plain segment is rebuilt without a key. -/
theorem indexRebuildForSegment_plain (evp : EvpOps) (codec : CodecOps) (getters : ChunkGetters)
    {segment : Bytes} {header : SegmentHeader} {offset : ℕ} {info : SegmentEncryptionInfo}
    (hparse : segmentParseHeader segment = some (header, offset, info))
    (hplain : (header.flags &&& flagEncrypted != 0) = false) (decryptor : Bool) :
    indexRebuildForSegment evp codec getters segment decryptor =
      indexRebuildForSegment evp codec getters segment true := by
  simp only [indexRebuildForSegment, segmentScanPath, segmentScanImpl, hparse, hplain,
    Bool.false_and, Bool.false_eq_true, if_false]

/-- Related lists have related members. -/
theorem exists_of_forall₂ {α β : Type} {R : α → β → Prop} {as : List α} {bs : List β}
    (h : List.Forall₂ R as bs) :
    (∀ b ∈ bs, ∃ a ∈ as, R a b) ∧ ∀ a ∈ as, ∃ b ∈ bs, R a b := by
  induction h with
  | nil => simp
  | cons h0 _ ih => simp_all

/-- Every frame of such a segment has its record. -/
theorem IndexedSegmentSpec.appended {env : RecorderEnv} {config : RecorderConfig}
    {getters : ChunkGetters} {chunks : List (List LogEntry)} {f : SegmentOnDisk} {file : Bytes}
    {key : FreshKey} {w : WrittenSegment} {frames : List IndexedFrame}
    (spec : IndexedSegmentSpec env config getters chunks f file key w frames) :
    ∀ frame ∈ frames, frame.appended = true := by
  intro frame hframe
  obtain ⟨_, -, -, happended, -⟩ := (exists_of_forall₂ spec.frames_eq).1 frame hframe
  exact happended

/-- A segment with chunks has frames. -/
theorem IndexedSegmentSpec.frames_ne_nil {env : RecorderEnv} {config : RecorderConfig}
    {getters : ChunkGetters} {chunks : List (List LogEntry)} {f : SegmentOnDisk} {file : Bytes}
    {key : FreshKey} {w : WrittenSegment} {frames : List IndexedFrame}
    (spec : IndexedSegmentSpec env config getters chunks f file key w frames)
    (hne : chunks ≠ []) : frames ≠ [] := by
  rintro rfl
  have hchunks := spec.chunks_eq
  rw [List.forall₂_nil_right_iff.mp spec.frames_eq] at hchunks
  exact hne hchunks.symm

section Rebuilt

variable (env : RecorderEnv) (config : RecorderConfig) (codec : CodecOps) (getters : ChunkGetters)

/-- **The rebuilt index and the one the writer kept**: for any chunks, with any compression,
dictionary and encryption, they are the same bytes if the first frame lies below `2^32` and no
compressed chunk was cut to 32 bits, and for a segment with frames only then.
SOURCE: recorder.c:3561-3747, index.c:113-286 -/
theorem rebuilt_index_eq_iff (evpLaws : EvpLaws env.evp) (laws : ChunkLaws env codec)
    (cutLaws : CutLaws env codec) (t gi : ℕ) (seq clockJumpSeq : UInt64) (w : PriorityWriter)
    (e : LogEntry) (calls : List SegmentCall) (reason : RotateReason) (f : SegmentOnDisk)
    (file : Bytes)
    (h : indexedSegment env config getters t gi seq clockJumpSeq w e calls reason = .ok (f, file))
    (hno : ∀ frame ∈ f.frames, ¬ FooterImage (f.content.drop frame.offset)) (decryptor : Bool)
    (hkey : config.encryption = true → decryptor = true) :
    (headSize env config t gi < 2 ^ 32 ∧ (∀ chunk ∈ flushedChunks w.chunk calls,
        ¬ StoredCut env config (groupDict env config t gi) chunk) →
      indexRebuildForSegment env.evp codec getters f.content decryptor = some file) ∧
    (flushedChunks w.chunk calls ≠ [] →
      indexRebuildForSegment env.evp codec getters f.content decryptor = some file →
      headSize env config t gi < 2 ^ 32 ∧ ∀ chunk ∈ flushedChunks w.chunk calls,
        ¬ StoredCut env config (groupDict env config t gi) chunk) := by
  obtain ⟨key, written, frames, spec, hdict, hsize⟩ := indexedSegment_spec evpLaws h
  have hsegment := spec.segment
  have hindex := spec.index
  rw [← newEncryptor_isSome] at hindex hsize
  obtain ⟨info, hspec⟩ := writeSegment_padded_spec evpLaws hsegment
  -- the key makes no difference to a plain segment
  have hdecryptor : indexRebuildForSegment env.evp codec getters f.content decryptor =
      indexRebuildForSegment env.evp codec getters written.file true := by
    rw [← spec.content]
    cases hc : config.encryption with
    | true => rw [hkey hc]
    | false =>
      refine indexRebuildForSegment_plain _ _ _ hspec.parse ?_ decryptor
      rw [newEncryptor_isSome, hc] at hspec
      exact hspec.flags_eq
  have hfooters : NoFooterImages written.images written.tail := by
    refine noFooterImages_of_offsets written.images f.content written.head.length ?_ ?_
    · rw [← spec.content, WrittenSegment.file, List.drop_left]
    · rw [← spec.offsets]
      intro o ho
      obtain ⟨frame, hframe, rfl⟩ := List.mem_map.mp ho
      exact hno frame hframe
  obtain ⟨hframe, hchunk⟩ := exists_of_forall₂ spec.frames_eq
  have hdictLe : f.dict.length ≤ uint32Max := hspec.dict_le
  have hdecoded : ∀ fr ∈ frames, ∀ a ∈ f.frames,
      ChunkFrame env config f.dict a.entries fr → ¬ StoredCut env config f.dict a.entries →
      FrameDecodes codec { f.header with dictLen := UInt32.ofNat f.dict.length } f.dict fr :=
    fun _ _ _ _ hc hwhole => hc.decodes laws spec.header hdictLe hwhole
  rw [hdecryptor, hsize, ← hdict, ← spec.chunks_eq]
  constructor
  · rintro ⟨hsmall, hwhole⟩
    refine rebuild_of_decodes evpLaws hsegment rfl spec.appended hindex hfooters hsmall ?_
    intro fr hfr
    obtain ⟨a, ha, hc⟩ := hframe fr hfr
    exact hdecoded fr hfr a ha hc (hwhole _ (List.mem_map_of_mem ha))
  · intro hne hrebuild
    rw [spec.chunks_eq] at hne
    have hsmall := dataOffset_lt_of_rebuild evpLaws hsegment (spec.frames_ne_nil hne)
      spec.appended hindex hrebuild
    refine ⟨hsmall, ?_⟩
    have hall := decodes_of_rebuild evpLaws hsegment rfl spec.appended hindex hfooters hsmall (by
      intro fr hfr
      obtain ⟨a, ha, hc⟩ := hframe fr hfr
      by_cases hcut : StoredCut env config f.dict a.entries
      · exact .inr (hc.fails cutLaws spec.header hdictLe hcut)
      · exact .inl (hdecoded fr hfr a ha hc hcut)) hrebuild
    intro chunk hmem hcut
    obtain ⟨a, ha, rfl⟩ := List.mem_map.mp hmem
    obtain ⟨fr, hfr, hc⟩ := hchunk a ha
    have hsome := (hall fr hfr).2 false 0
    have hnone := hc.fails cutLaws spec.header hdictLe hcut false 0
    exact absurd (hnone.symm.trans hsome) (by simp)

end Rebuilt

/-- An environment in which nothing fails, with a static dictionary: a chunk is an offset and
the messages of its entries. -/
def dictEnv (dict : Bytes) : RecorderEnv :=
  { plainEnv fun _ _ => .ok with
    staticDict := fun _ _ => dict
    chunkBytes := fun _ chunk => 4 :: chunk.flatMap fun e => e.texts.message.getD [] }

theorem dictEnv_laws (dict : Bytes) :
    ChunkLaws (dictEnv dict) plainCodec ∧ CutLaws (dictEnv dict) plainCodec :=
  ⟨⟨fun _ _ _ => rfl, fun _ _ _ h => by cases h⟩,
    ⟨fun _ _ _ => List.cons_ne_nil _ _, fun _ _ _ _ _ h => by cases h⟩⟩

/-- One group with a static dictionary. -/
def dictGroup : RecorderConfig where
  groups := [{ name := [108, 111, 103], hasStaticDict := true }]
  priorityToGroup _ := 0
  priorityToGroup_lt _ := Nat.zero_lt_one
  names_nodup := by simp

/-- A segment with one message is written with any dictionary that fits its length field. -/
theorem dictEnv_segment (dict : Bytes) (hne : dict ≠ []) (hle : dict.length ≤ uint32Max) :
    ∃ f file, indexedSegment (dictEnv dict) dictGroup noGetters 0 0 1 0 {} messageEntry
      [.add messageEntry] .shutdown = .ok (f, file) := by
  have hdict : groupDict (dictEnv dict) dictGroup 0 0 = dict := rfl
  have hflags : ((newSegmentHeader (dictEnv dict) dictGroup 0 0 1 messageEntry).flags &&&
      flagEncrypted != 0) = false := by
    change ((4 ||| 0 ||| 1 : UInt32) &&& 8 != 0) = false
    decide
  have hheader : writeNewHeader (dictEnv dict) dictGroup 0 0 1 messageEntry =
      ⟨true, headerImage (newSegmentHeader (dictEnv dict) dictGroup 0 0 1 messageEntry) [] dict,
        none, none⟩ := by
    unfold writeNewHeader segmentWriteHeader
    rw [hdict, if_neg (Nat.not_lt.mpr hle), hflags]
    rfl
  have hfailure : openFailure (dictEnv dict) dictGroup 0 0 1 messageEntry = none := by
    have hlen : (dictEnv dict).staticDict 0 0 = dict := rfl
    unfold openFailure
    rw [hheader, hlen, if_neg (mt List.length_eq_zero_iff.mp hne)]
    rfl
  obtain ⟨iw, f, hopen, hfile, hencryptor, hchunk, herror⟩ :
      ∃ iw f, indexedOpenSegment (dictEnv dict) dictGroup 0 0 1 0 {} messageEntry = .ok iw ∧
        iw.writer.file = some f ∧ iw.writer.encryptor = none ∧ iw.writer.chunk = [] ∧
        iw.index.error = false := by
    unfold indexedOpenSegment writerOpenSegment
    rw [hfailure, hheader]
    exact ⟨_, _, rfl, rfl, rfl, rfl, rfl⟩
  obtain ⟨iw', f', hflush, hfile'⟩ : ∃ iw' f', indexedFlushChunk (dictEnv dict) dictGroup noGetters
      2 0 { iw with writer := writerAddEntry iw.writer messageEntry } = (none, iw') ∧
      iw'.writer.file = some f' := by
    obtain ⟨writer, ⟨bytes, error, count⟩, header⟩ := iw
    obtain ⟨⟩ := writer
    simp only at hfile hencryptor hchunk herror
    subst hfile hencryptor hchunk herror
    exact ⟨_, _, rfl, rfl⟩
  obtain ⟨released, f'', hfinish⟩ :=
    writerFinishSegment_of_ok (dictEnv dict) 3 (fun _ => rfl) iw'.writer f' .shutdown
  have hcalls : indexedCalls (dictEnv dict) dictGroup noGetters 0 1 [.add messageEntry] iw =
      .ok { iw with writer := writerAddEntry iw.writer messageEntry } := rfl
  have hclose : indexedCloseSegment (dictEnv dict) dictGroup noGetters 2 0
      { iw with writer := writerAddEntry iw.writer messageEntry } .shutdown = .ok (f'',
        (indexWriterClose true .ok iw'.index (UInt64.ofNat released.bytesWritten)).2) := by
    simp only [indexedCloseSegment, hflush, hfile', hfinish]
    rfl
  unfold indexedSegment
  rw [hopen]
  simp only [hcalls]
  exact ⟨_, _, hclose⟩

/-- The frame of that message is no footer image. -/
theorem dictEnv_no_footer {dict : Bytes} {f : SegmentOnDisk} {file : Bytes}
    (h : indexedSegment (dictEnv dict) dictGroup noGetters 0 0 1 0 {} messageEntry
      [.add messageEntry] .shutdown = .ok (f, file)) :
    ∀ frame ∈ f.frames, ¬ FooterImage (f.content.drop frame.offset) := by
  obtain ⟨key, written, frames, spec, -⟩ := indexedSegment_spec noEvp_laws h
  obtain ⟨a, hframes, hentries⟩ := List.map_eq_singleton_iff.mp spec.chunks_eq
  have hpair := spec.frames_eq
  rw [hframes] at hpair
  obtain ⟨fr, _, ⟨-, -, -, t, input, hencode, hfr⟩, hnil, rfl⟩ :=
    List.forall₂_cons_left_iff.mp hpair
  obtain rfl := List.forall₂_nil_left_iff.mp hnil
  have hinput : input = ⟨0, 4 :: List.replicate 32 65, 33⟩ := by
    rw [hentries] at hencode
    exact (Except.ok.inj hencode).symm
  obtain ⟨hok, -, himages, -⟩ := writeSegment_eq_some spec.segment
  obtain ⟨-, -, hplain, -⟩ := segmentWriteHeader_ok noEvp noEvp_laws key _ _ _ hok
  obtain ⟨bs, hbs⟩ : ∃ bs, bs = (segmentWriteFrame noEvp ⟨true, .ok⟩ none 0
    (4 :: List.replicate 32 65) 33).written := ⟨_, rfl⟩
  have hwritten : written.images = [bs] := by
    have hevp : (dictEnv dict).evp = noEvp := rfl
    rw [hevp, hplain, List.map_singleton, hfr, hinput] at himages
    rw [hbs]
    exact (Option.some.inj himages).symm
  have hoffset : a.offset = written.head.length := by
    have hoffsets := spec.offsets
    rw [hframes, hwritten] at hoffsets
    exact List.head_eq_of_cons_eq hoffsets
  intro frame hframe
  rw [hframes] at hframe
  obtain rfl := List.mem_singleton.mp hframe
  rw [hoffset, ← spec.content, WrittenSegment.file, List.drop_left, hwritten, List.flatten_cons,
    List.flatten_nil, List.append_nil]
  intro hfooter
  have hno := (footerAt_eq_none_iff (segmentWriteFrame noEvp ⟨true, .ok⟩ none 0
    (4 :: List.replicate 32 65) 33).written).mp (by decide +kernel)
  rw [hbs] at hfooter
  exact hno (hfooter.of_append (by decide +kernel))

/-- The index of a segment with one message and a dictionary of one byte is rebuilt as it was. -/
theorem rebuilt_index_one_message :
    ∃ f file, indexedSegment (dictEnv [1]) dictGroup noGetters 0 0 1 0 {} messageEntry
        [.add messageEntry] .shutdown = .ok (f, file) ∧
      indexRebuildForSegment noEvp plainCodec noGetters f.content false = some file := by
  obtain ⟨f, file, h⟩ := dictEnv_segment [1] (by simp) (by decide)
  refine ⟨f, file, h, (rebuilt_index_eq_iff (dictEnv [1]) dictGroup plainCodec noGetters noEvp_laws
    (dictEnv_laws _).1 (dictEnv_laws _).2 0 0 1 0 {} messageEntry _ _ f file h
    (dictEnv_no_footer h) false nofun).1 ⟨by decide, ?_⟩⟩
  rintro chunk - ⟨hcompress, -⟩
  cases hcompress

/-- **A dictionary that brings the first frame to `2^32`**: nothing fails, and the rebuilt index
is another one. -/
theorem rebuilt_index_wraps :
    ∃ dict f file, dict.length = 2 ^ 32 - 152 ∧ EvpLaws (dictEnv dict).evp ∧
      ChunkLaws (dictEnv dict) plainCodec ∧ CutLaws (dictEnv dict) plainCodec ∧
      indexedSegment (dictEnv dict) dictGroup noGetters 0 0 1 0 {} messageEntry
        [.add messageEntry] .shutdown = .ok (f, file) ∧
      (∀ frame ∈ f.frames, ¬ FooterImage (f.content.drop frame.offset)) ∧
      indexRebuildForSegment noEvp plainCodec noGetters f.content true ≠ some file := by
  obtain ⟨dict, hdict⟩ : ∃ dict : Bytes, dict.length = 2 ^ 32 - 152 :=
    ⟨List.replicate _ 0, List.length_replicate⟩
  obtain ⟨f, file, h⟩ := dictEnv_segment dict (by rintro rfl; simp at hdict)
    (by simp only [uint32Max]; omega)
  refine ⟨dict, f, file, hdict, noEvp_laws, (dictEnv_laws _).1, (dictEnv_laws _).2, h,
    dictEnv_no_footer h, ?_⟩
  intro hrebuild
  obtain ⟨key, written, frames, spec, hd, hsize⟩ := indexedSegment_spec noEvp_laws h
  rw [← spec.content] at hrebuild
  have hsmall := dataOffset_lt_of_rebuild noEvp_laws spec.segment
    (spec.frames_ne_nil (List.cons_ne_nil _ _)) spec.appended spec.index hrebuild
  have hd' : f.dict = dict := hd
  simp only [dataOffset, hd', newEncryptor, dictGroup] at hsmall
  simp only [Bool.false_eq_true, if_false, Option.isSome_none] at hsmall
  omega

end Recorder.Analysis
