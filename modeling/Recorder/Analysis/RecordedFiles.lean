import Recorder.Analysis.IndexedWriter
import Recorder.Analysis.SegmentMetadata

/-!
# The segment files of a run

In a run in which nothing fails every segment file is its header, one frame for each chunk
that was flushed, and, once it is closed, its footer. `OpenFile` and `ClosedFile` say so;
`files_rule` keeps them along a run. So a closed segment is a written segment in the sense of
`Recorder.Analysis.SegmentFile`, and a scan of its bytes reports what the recorder knows of it.

**Main results**: `closed_segments_scan`. A scan with the key hands out the chunks of a closed
segment, in their order and at their offsets, unless a frame starts with a footer image, a
chunk was cut to 32 bits or the first frame lies behind `2^32`. `scanned_metadata_sound`: the
header and the footer it reports describe the entries of these chunks.
-/

set_option autoImplicit false

namespace Recorder.Analysis

open Recorder.Model

/-! ## One file -/

section File

variable (env : RecorderEnv) (config : RecorderConfig)

/-- **The bytes of a segment file**: the header, the frames of its chunks at their offsets, and
what stands behind them. -/
structure FramesInFile (f : SegmentOnDisk) (key : FreshKey) (images : List Bytes)
    (frames : List IndexedFrame) (tail : Bytes) : Prop where
  header : WriterHeader config f.header f.dict
  dict : ∃ t gi, f.dict = groupDict env config t gi
  head_ok : (headWrite env config key f).ok = true
  content : f.content = (headWrite env config key f).written ++ (images.flatten ++ tail)
  written : writeFrames env.evp (frameEncryptor (frameKey config key) 0) (frames.map (·.frame)) =
    some images
  chunks : List.Forall₂ (fun (written : WrittenFrame) frame =>
    ChunkFrame env config f.dict written.entries frame) f.frames frames
  offsets : f.frames.map (·.offset) =
    (frameInfos (headWrite env config key f).written.length images).map (·.fileOffset)

/-- A segment file and the writer that has it open. -/
def OpenFile (w : PriorityWriter) (f : SegmentOnDisk) : Prop :=
  ∃ key images frames, FramesInFile env config f key images frames [] ∧
    w.encryptor = frameEncryptor (frameKey config key) (UInt64.ofNat images.length)

/-- A segment file with its footer. -/
def ClosedFile (f : SegmentOnDisk) : Prop :=
  ∃ key images frames footer, FramesInFile env config f key images frames (footerImage footer) ∧
    f.footer = some footer ∧ writeFooterOpt (some footer) = some (footerImage footer)

end File

section Steps

variable {env : RecorderEnv} {config : RecorderConfig} {t gi : ℕ} {w : PriorityWriter}
  {f : SegmentOnDisk}

theorem OpenFile.of_encryptor (h : OpenFile env config w f) {w' : PriorityWriter}
    (heq : w'.encryptor = w.encryptor) : OpenFile env config w' f := by
  obtain ⟨key, images, frames, hfile, hencryptor⟩ := h
  exact ⟨key, images, frames, hfile, heq.trans hencryptor⟩

/-- **A flush** puts the frame of the chunk behind those that are there.
SOURCE: recorder.c:3561-3677 -/
theorem OpenFile.flush (laws : EvpLaws env.evp) (h : OpenFile env config w f)
    (hfile : w.file = some f) (hok : (writerFlushChunk env config t gi w).1 = none) :
    ∃ f', (writerFlushChunk env config t gi w).2.file = some f' ∧
      OpenFile env config (writerFlushChunk env config t gi w).2 f' := by
  by_cases hchunk : w.chunk = []
  · rw [writerFlushChunk_of_nil gi hchunk]
    exact ⟨f, hfile, h⟩
  obtain ⟨key, images, frames, h, hencryptor⟩ := h
  obtain ⟨f0, input, hfile0, hencode, -, -, -, hwritten, hfile', hencryptor'⟩ :=
    writerFlushChunk_eq_none gi hchunk hok
  obtain rfl : f = f0 := Option.some.inj (hfile.symm.trans hfile0)
  rw [hencryptor] at hwritten
  have hfirst : ((FrameInput.stored input).write env.evp
      (frameEncryptor (frameKey config key) (0 + UInt64.ofNat images.length))).ok = true := by
    rw [UInt64.zero_add]
    exact hwritten
  have hframes := writeFrames_append laws _ _ (frames.map (·.frame)) 0 images h.written hfirst
  rw [UInt64.zero_add, ← hencryptor] at hframes
  obtain ⟨-, -, -, hnext, -⟩ := StoredFrame.written_spec env.evp laws (frameKey config key)
    (UInt64.ofNat images.length) (FrameInput.stored input) f.content.length hwritten
  refine ⟨_, hfile', key,
    images ++ [((FrameInput.stored input).write env.evp w.encryptor).written],
    frames ++ [⟨FrameInput.stored input, env.chunkBytes (!config.fullEntries) w.chunk, true⟩],
    ⟨h.header, h.dict, h.head_ok, ?_, ?_, ?_, ?_⟩, ?_⟩
  · simp only [h.content, List.flatten_append, List.flatten_cons, List.flatten_nil,
      List.append_nil, List.append_assoc]
    rfl
  · rw [List.map_append]
    exact hframes
  · exact List.rel_append h.chunks (.cons ⟨hchunk, rfl, rfl, t, input, hencode, rfl⟩ .nil)
  · simp only [List.map_append, List.map_cons, List.map_nil, h.offsets, frameInfos_append]
    refine congrArg₂ (· ++ ·) rfl ?_
    simp only [frameInfos, List.map_cons, List.map_nil, frameInfoAt, h.content,
      List.length_append, List.append_nil]
    rfl
  · rw [hencryptor', hencryptor, hnext, List.length_append, List.length_singleton,
      UInt64.ofNat_add]
    rfl

/-- **Closing** puts the footer behind the frames.
SOURCE: recorder.c:3690-3746 -/
theorem OpenFile.finish (h : OpenFile env config w f) {reason : RotateReason}
    (hok : (writerFinishSegment env t w f reason).1 = none) :
    ClosedFile env config (writerFinishSegment env t w f reason).2.2 := by
  obtain ⟨key, images, frames, h, -⟩ := h
  have hfinish : writerFinishSegment env t w f reason = (none,
      (writerFinishSegment env t w f reason).2.1, (writerFinishSegment env t w f reason).2.2) :=
    Prod.ext hok rfl
  obtain ⟨-, -, hclosed, hfooter⟩ := writerFinishSegment_eq_none hfinish
  rw [hclosed]
  refine ⟨key, images, frames, writerFooter w reason, ⟨h.header, h.dict, h.head_ok, ?_,
    h.written, h.chunks, h.offsets⟩, rfl, hfooter⟩
  simp only [h.content, List.append_nil, List.append_assoc]
  rfl

/-- **A new segment** is its header.
SOURCE: recorder.c:3395-3559 -/
theorem OpenFile.open (laws : EvpLaws env.evp) {seq clockJumpSeq : UInt64} {e : LogEntry}
    (hclosed : w.file = none)
    (hok : (writerOpenSegment env config t gi seq clockJumpSeq w e).errno = none) :
    ∃ f, (writerOpenSegment env config t gi seq clockJumpSeq w e).writer.file = some f ∧
      OpenFile env config (writerOpenSegment env config t gi seq clockJumpSeq w e).writer f := by
  obtain ⟨-, f, hfile, -, hnone, -⟩ := writerOpenSegment_ok hok
  obtain ⟨key, images, h, hencryptor⟩ : OpenSegment env config noCodec
      (writerOpenSegment env config t gi seq clockJumpSeq w e).writer.encryptor f :=
    (writerOpenSegment_spec laws zeroKey gi seq clockJumpSeq hclosed e).2 f hfile
  obtain ⟨frames, hwritten, hdecodes⟩ := h.frames
  rw [hnone, List.forall₂_nil_left_iff] at hdecodes
  subst hdecodes
  obtain rfl : images = [] := (Option.some.inj hwritten).symm
  refine ⟨f, hfile, key, [], [], ⟨h.header, h.dict, h.head_ok, h.content, rfl, ?_, ?_⟩,
    hencryptor⟩
  · rw [hnone]
    exact .nil
  · rw [hnone]
    rfl

end Steps

/-! ## Along a run -/

/-- **The segment files of a recorder**: open files and their writers, closed files, and those
that were closed before. -/
structure FilesInv (env : RecorderEnv) (config : RecorderConfig) (old : List SegmentOnDisk)
    (r : RecorderState) : Prop where
  opened : ∀ gi f, (r.writers gi).file = some f → OpenFile env config (r.writers gi) f
  closed : ∀ f ∈ r.closed, f ∈ old ∨ ClosedFile env config f

section Runs

variable {env : RecorderEnv} {config : RecorderConfig} {journal : List LogEntry}
  {old : List SegmentOnDisk} {r r' : RecorderState} {e : LogEntry} {gi : ℕ} {w : PriorityWriter}

theorem FilesInv.of_eq (h : FilesInv env config old r) (hwriters : r'.writers = r.writers)
    (hclosed : r'.closed = r.closed) : FilesInv env config old r' := by
  constructor
  · rw [hwriters]
    exact h.opened
  · rw [hclosed]
    exact h.closed

/-- Another writer of one group, and perhaps a segment that it has closed. -/
theorem FilesInv.update (h : FilesInv env config old r)
    (hwriters : r'.writers = Function.update r.writers gi w)
    (hw : ∀ f, w.file = some f → OpenFile env config w f) {new : List SegmentOnDisk}
    (hclosed : r'.closed = r.closed ++ new) (hnew : ∀ f ∈ new, ClosedFile env config f) :
    FilesInv env config old r' := by
  constructor
  · rw [hwriters]
    intro gj f hf
    by_cases hgj : gj = gi
    · rw [hgj, Function.update_self] at hf ⊢
      exact hw f hf
    · rw [Function.update_of_ne hgj] at hf ⊢
      exact h.opened gj f hf
  · rw [hclosed]
    intro f hf
    rcases List.mem_append.mp hf with hf | hf
    · exact h.closed f hf
    · exact .inr (hnew f hf)

theorem FilesInv.flush (laws : EvpLaws env.evp) (h : FilesInv env config old r)
    (hok : (r.flushChunk env config gi).2.history.failed = false) :
    FilesInv env config old (r.flushChunk env config gi).2 := by
  unfold RecorderState.flushChunk at hok ⊢
  have hnone := (after_failed_eq hok).2
  have hwriter : ∀ f', (writerFlushChunk env config r.tick gi (r.writers gi)).2.file = some f' →
      OpenFile env config (writerFlushChunk env config r.tick gi (r.writers gi)).2 f' := by
    intro f' hf'
    cases hfile : (r.writers gi).file with
    | none =>
      by_cases hchunk : (r.writers gi).chunk = []
      · rw [writerFlushChunk_of_nil gi hchunk, hfile] at hf'
        cases hf'
      · obtain ⟨f, _, hsome, -⟩ := writerFlushChunk_eq_none gi hchunk hnone
        cases hfile.symm.trans hsome
    | some f =>
      obtain ⟨f'', hf'', hopen⟩ := (h.opened gi f hfile).flush laws hfile hnone
      obtain rfl := Option.some.inj (hf'.symm.trans hf'')
      exact hopen
  exact h.update rfl hwriter (List.append_nil _).symm (by simp)

theorem FilesInv.sync (h : FilesInv env config old r) :
    FilesInv env config old (r.syncIfDue env config gi).2 := by
  obtain ⟨hfile, hencryptor⟩ : (writerSyncIfDue env config r.tick gi (r.writers gi)).2.file =
      (r.writers gi).file ∧ (writerSyncIfDue env config r.tick gi (r.writers gi)).2.encryptor =
        (r.writers gi).encryptor := by
    unfold writerSyncIfDue
    simp only
    split
    · exact ⟨rfl, rfl⟩
    · split
      · split
        · exact ⟨rfl, rfl⟩
        · exact ⟨rfl, rfl⟩
      · exact ⟨rfl, rfl⟩
  have hwriter : ∀ f, (writerSyncIfDue env config r.tick gi (r.writers gi)).2.file = some f →
      OpenFile env config (writerSyncIfDue env config r.tick gi (r.writers gi)).2 f := by
    intro f hf
    rw [hfile] at hf
    exact (h.opened gi f hf).of_encryptor hencryptor
  unfold RecorderState.syncIfDue
  exact h.update rfl hwriter (List.append_nil _).symm (by simp)

theorem FilesInv.finish (h : FilesInv env config old r) {f : SegmentOnDisk}
    {reason : RotateReason} (hfile : (r.writers gi).file = some f)
    (hok : (finishedSegment env r gi f reason).history.failed = false) :
    FilesInv env config old (finishedSegment env r gi f reason) := by
  unfold finishedSegment at hok ⊢
  have hnone := (after_failed_eq hok).2
  have hclosed := (h.opened gi f hfile).finish hnone
  have hreleased : ∀ f', (writerFinishSegment env r.tick (r.writers gi) f reason).2.1.file =
      some f' → OpenFile env config (writerFinishSegment env r.tick (r.writers gi) f reason).2.1
        f' := by
    intro f' hf'
    rw [writerFinishSegment_file] at hf'
    cases hf'
  refine h.update rfl hreleased rfl ?_
  intro g hg
  rw [List.mem_singleton.mp hg]
  exact hclosed

theorem FilesInv.open (laws : EvpLaws env.evp) (h : FilesInv env config old r)
    (hfile : (r.writers gi).file = none)
    (hok : (r.openSegment env config gi e).2.history.failed = false) :
    FilesInv env config old (r.openSegment env config gi e).2 := by
  unfold RecorderState.openSegment at hok ⊢
  have hnone := (after_failed_eq hok).2
  obtain ⟨horphan, -⟩ := writerOpenSegment_ok hnone
  obtain ⟨f, hf, hopen⟩ := OpenFile.open laws hfile hnone
  have hwriter : ∀ f', (writerOpenSegment env config r.tick gi r.nextSegmentSeq r.clockJumpSeq
      (r.writers gi) e).writer.file = some f' → OpenFile env config (writerOpenSegment env config
        r.tick gi r.nextSegmentSeq r.clockJumpSeq (r.writers gi) e).writer f' := by
    intro f' hf'
    obtain rfl := Option.some.inj (hf'.symm.trans hf)
    exact hopen
  have hnew : ∀ g ∈ (writerOpenSegment env config r.tick gi r.nextSegmentSeq r.clockJumpSeq
      (r.writers gi) e).orphan.toList, ClosedFile env config g := by
    rw [horphan]
    exact fun g hg => absurd hg List.not_mem_nil
  exact h.update rfl hwriter rfl hnew

/-- No call breaks the invariant. -/
theorem files_rule (env : RecorderEnv) (config : RecorderConfig) (laws : EvpLaws env.evp)
    (journal : List LogEntry) (old : List SegmentOnDisk) :
    RecorderRule env config journal
      (fun _ r => r.history.failed = false → FilesInv env config old r)
      (fun _ _ r => r.history.failed = false → FilesInv env config old r) where
  same hsame h hok := (h (hsame.failed hok)).of_eq hsame.writers hsame.closed
  receive := by
    intro r e he h hok
    obtain ⟨hwriters, hclosed, -, -, hhistory, -⟩ := received_same (atNextEntry r) e
    rw [hhistory] at hok
    exact (h hok).of_eq hwriters hclosed
  numbered he h hok := (h hok).of_eq rfl rfl
  modified priority texts h hok := h hok
  dropped h hok := h hok
  pending hfailed h hok := by
    rw [hfailed] at hok
    cases hok
  accepted position h hok := (h hok).of_eq rfl rfl
  again hfailed h hok := by
    rw [hfailed] at hok
    cases hok
  flush gi h hok := (h (after_failed_eq hok).1).flush laws hok
  sync gi h hok := (h (after_failed_eq hok).1).sync
  finish reason hfile hchunk h hok := (h (after_failed_eq hok).1).finish hfile hok
  retention := by
    intro x r h hok
    rw [retention_failed] at hok
    refine (h hok).of_eq (retention_writers env config r) ?_
    unfold RecorderState.retention
    split <;> rfl
  stays hopen hgi hstays h hok := h hok
  opened hfile hgi hnone h hok := (h (after_failed_eq hok).1).open laws hfile hok
  notOpened hfile hfail h hok := absurd (after_failed_eq hok).2 hfail
  added := by
    intro r e gi h hok
    unfold addedEntry at hok ⊢
    have hr := h (after_failed_eq hok).1
    exact hr.update rfl (fun f hf => (hr.opened gi f hf).of_encryptor rfl)
      (List.append_nil _).symm (by simp)
  notAdded err h hok := by
    cases (after_failed_eq hok).2

end Runs

/-! ## Scanning a closed file -/

/-- No frame of a segment file starts with a footer image, and no compressed chunk was cut to
32 bits. -/
structure FramesReadable (env : RecorderEnv) (config : RecorderConfig) (f : SegmentOnDisk) :
    Prop where
  noFooter : ∀ frame ∈ f.frames, ¬ FooterImage (f.content.drop frame.offset)
  whole : ∀ frame ∈ f.frames, ¬ StoredCut env config f.dict frame.entries

/-- What a call of a scan hands out: the offset of the frame and its chunk. -/
def handedOut (call : SegmentFrameInfo × Bytes) : ℕ × Bytes := (call.1.fileOffset, call.2)

/-- **A segment file is scanned back**: without a key the scan reports header, footer, length
and frames, with the key it hands out the chunk of every frame. -/
structure ScansBack (env : RecorderEnv) (config : RecorderConfig) (codec : CodecOps)
    (f : SegmentOnDisk) (out : ScanOut) (calls : List (SegmentFrameInfo × Bytes)) : Prop where
  header : out.header = { f.header with dictLen := UInt32.ofNat f.dict.length }
  footer : some out.footer = f.footer.map fun footer => { footer with present := true }
  committedEnd : out.committedEnd = f.content.length
  metadata : metadataScan env.evp codec f.content = .ok out
  scan : segmentScanPath env.evp codec f.content true (some recordCalls) [] = ⟨.ok out, calls⟩
  chunks : calls.map handedOut =
    f.frames.map fun frame => (frame.offset, env.chunkBytes (!config.fullEntries) frame.entries)

section Scan

variable {env : RecorderEnv} {config : RecorderConfig} {codec : CodecOps} {f : SegmentOnDisk}

theorem frameCalls_handedOut (encrypted : Bool) (frames : List IndexedFrame) :
    ∀ offset, (frameCalls encrypted offset frames).map handedOut =
      ((expectedInfos encrypted offset (frames.map (·.frame))).map (·.fileOffset)).zip
        (frames.map (·.chunk)) := by
  induction frames with
  | nil => intro offset; rfl
  | cons f frames ih =>
    intro offset
    rw [frameCalls, List.map_cons, ih]
    rfl

/-- **A closed file is scanned back.**
SOURCE: segment.c:543-738 -/
theorem ClosedFile.scansBack (h : ClosedFile env config f) (evpLaws : EvpLaws env.evp)
    (laws : ChunkLaws env codec)
    (hsmall : ∀ key t gi, dataOffset env.evp key config.encryption (groupDict env config t gi) <
      2 ^ 32)
    (hreadable : FramesReadable env config f) :
    ∃ out calls, ScansBack env config codec f out calls := by
  obtain ⟨key, images, frames, footer, h, hfooter, htail⟩ := h
  have hdict : dataOffset env.evp key config.encryption f.dict < 2 ^ 32 := by
    obtain ⟨t, gi, hdict⟩ := h.dict
    rw [hdict]
    exact hsmall key t gi
  -- the segment, from its parts
  have hwritten : writeSegment env.evp key (newEncryptor config)
      ⟨f.header, f.dict, frames.map (·.frame), f.footer⟩ =
        some ⟨(headWrite env config key f).written, images, footerImage footer⟩ := by
    obtain ⟨-, -, hencryptor, -⟩ := segmentWriteHeader_ok env.evp evpLaws key _ _ _ h.head_ok
    have hkey : (headWrite env config key f).encryptor =
        frameEncryptor (frameKey config key) 0 := by
      rw [headWrite, hencryptor]
      unfold newEncryptor frameKey
      cases config.encryption <;> rfl
    have hhead : segmentWriteHeader env.evp ⟨some key, true, .ok⟩ f.header f.dict
        (newEncryptor config) = headWrite env config key f := rfl
    unfold writeSegment
    simp only [hhead, hkey, h.written, hfooter, htail]
    exact if_pos h.head_ok
  set w : WrittenSegment := ⟨(headWrite env config key f).written, images, footerImage footer⟩
    with hw
  have hcontent : w.file = f.content := h.content.symm
  obtain ⟨info, spec⟩ := writeSegment_spec evpLaws h.header.boot h.header.timezone hwritten
  rw [newEncryptor_isSome] at spec
  have hoffsets : f.frames.map (·.offset) = (frameInfos w.head.length w.images).map
      (·.fileOffset) := h.offsets
  have hno : NoFooterImages w.images w.tail := by
    refine noFooterImages_of_offsets w.images f.content w.head.length ?_ ?_
    · rw [← hcontent, WrittenSegment.file, List.drop_left]
    · rw [← hoffsets]
      intro o ho
      obtain ⟨frame, hframe, rfl⟩ := List.mem_map.mp ho
      exact hreadable.noFooter frame hframe
  have hround := spec.roundTrips evpLaws codec hdict hno
  have hdecodes : ∀ frame ∈ frames, FrameDecodes codec
      { f.header with dictLen := UInt32.ofNat f.dict.length } f.dict frame := by
    intro frame hframe
    obtain ⟨written, hmem, hchunk⟩ := (exists_of_forall₂ h.chunks).1 frame hframe
    exact hchunk.decodes laws h.header spec.dict_le (hreadable.whole written hmem)
  have hcalls := expectedDeliveries_of_frameDecodes config.encryption hdecodes w.head.length
  have hchunks : (frameCalls config.encryption w.head.length frames).map handedOut =
      f.frames.map fun frame =>
        (frame.offset, env.chunkBytes (!config.fullEntries) frame.entries) := by
    have hbytes : frames.map (·.chunk) = f.frames.map fun frame =>
        env.chunkBytes (!config.fullEntries) frame.entries := by
      rw [← List.forall₂_eq_eq_eq, List.forall₂_map_left_iff, List.forall₂_map_right_iff]
      exact (h.chunks.imp fun _ _ hchunk => hchunk.2.2.1).flip
    rw [frameCalls_handedOut, hbytes, ← (spec.images_spec evpLaws).2.1, ← hoffsets,
      List.zip_map']
  have hmetadata := hround.metadata
  have hscan := hround.deliveries _ hcalls
  rw [hcontent, SegmentSource.storedFooter, hfooter] at hmetadata hscan
  refine ⟨_, _, rfl, ?_, rfl, hmetadata, hscan, hchunks⟩
  rw [hfooter]
  rfl

end Scan

/-- **Closed segments are scanned back**, in every run in which nothing fails: a scan of the
bytes of a segment that the run has closed reports its header and footer and hands out the
chunks that were flushed into it.
SOURCE: recorder.c:3395-3747, segment.c:543-738 -/
theorem closed_segments_scan (env : RecorderEnv) (config : RecorderConfig) (codec : CodecOps)
    (evpLaws : EvpLaws env.evp) (laws : ChunkLaws env codec)
    (hsmall : ∀ key t gi, dataOffset env.evp key config.encryption (groupDict env config t gi) <
      2 ^ 32)
    (journal : List LogEntry) (calls : List RecorderCall) (start : RecorderState)
    (hstart : RecorderStarted start)
    (hok : (recorderRun env config journal calls start).history.failed = false) :
    ∀ f ∈ (recorderRun env config journal calls start).closed, f ∉ start.closed →
      FramesReadable env config f → ∃ out handed, ScansBack env config codec f out handed := by
  have hinit : FilesInv env config start.closed start := by
    refine ⟨fun gi f hf => ?_, fun f hf => .inl hf⟩
    rw [hstart.files gi] at hf
    cases hf
  have hrun := (files_rule env config evpLaws journal start.closed).run calls (fun _ => hinit) hok
  intro f hf hnew hreadable
  exact ((hrun.closed f hf).resolve_left hnew).scansBack evpLaws laws hsmall hreadable

/-- **What a scan reads of a closed segment is sound**: header and footer, as a scan of the bytes
reports them, describe the entries whose chunks it hands out.
SOURCE: recorder.c:568-616, 3395-3747, segment.c:543-738 -/
theorem scanned_metadata_sound (env : RecorderEnv) (config : RecorderConfig) (codec : CodecOps)
    (evpLaws : EvpLaws env.evp) (laws : ChunkLaws env codec)
    (hsmall : ∀ key t gi, dataOffset env.evp key config.encryption (groupDict env config t gi) <
      2 ^ 32)
    (journal : List LogEntry) (hboot : ∀ e ∈ journal, e.bootId ≠ []) (calls : List RecorderCall)
    (start : RecorderState) (hstart : RecorderStarted start)
    (hpending : start.currentEntryPending = false)
    (hok : (recorderRun env config journal calls start).history.failed = false) :
    ∀ f ∈ (recorderRun env config journal calls start).closed, f ∉ start.closed →
      FramesReadable env config f → ∃ out handed, ScansBack env config codec f out handed ∧
        SegmentSound journal.length { f with header := out.header } out.footer := by
  intro f hf hnew hreadable
  obtain ⟨out, handed, hback⟩ := closed_segments_scan env config codec evpLaws laws hsmall journal
    calls start hstart hok f hf hnew hreadable
  obtain ⟨closed, hclosed, hsound⟩ :=
    (metadataInv_run env config hboot calls hstart hpending hok).closed
  rw [hclosed, List.mem_append] at hf
  obtain ⟨footer, hfooter, h⟩ := hsound f (hf.resolve_left hnew)
  have hread := hback.footer
  rw [hfooter, Option.map_some, Option.some_inj] at hread
  refine ⟨out, handed, hback, ?_⟩
  rw [hback.header, hread]
  exact ⟨h.boot, h.first, h.lower, h.upper, h.reached, h.count, h.count_le, h.nonmonotonic⟩

end Recorder.Analysis
