import Recorder.Analysis.IndexCover
import Recorder.Analysis.SegmentDelivery

/-!
# Rebuilding an index

`index_rebuild_for_segment` scans a segment for its header and committed end, and again for
its frames. Its callback never stops the scan, so what it leaves is the index of the calls a
recording callback sees (`indexRebuildForSegment_eq`).

For a written segment these calls are the frames and their chunks, and the rebuilt file is
the one that was written beside the segment (`rebuild_of_decodes`). Two things keep it from
being that: a data offset that does not fit 32 bits (`dataOffset_lt_of_rebuild`), and a frame
whose stored payload does not decode to its chunk (`decodes_of_rebuild`).
-/

set_option autoImplicit false

namespace Recorder.Analysis

open Recorder.Model

/-! ## The index of the calls -/

/-- The record of a call. -/
def callRow (getters : ChunkGetters) (header : SegmentHeader) (call : SegmentFrameInfo × Bytes) :
    Bytes :=
  writeIndexFrame getters header call.1 call.2

/-- An index writer that has appended the record of each call. -/
def IndexesCalls (getters : ChunkGetters) (header : SegmentHeader) (writer : IndexWriter)
    (calls : List (SegmentFrameInfo × Bytes)) : Prop :=
  writer = ⟨indexHeaderImage header.segmentSeq header.flags ++
    (calls.map (callRow getters header)).flatten, false, UInt64.ofNat calls.length⟩

/-- The rebuilding callback never stops the scan. -/
theorem tracksCalls_appendIndexFrameCb (getters : ChunkGetters) (header : SegmentHeader) :
    TracksCalls header (appendIndexFrameCb getters .ok) (IndexesCalls getters header) := by
  rintro info chunk ctx calls rfl
  constructor
  · rfl
  · simp only [IndexesCalls, appendIndexFrameCb, indexWriterAppend, WriteOutcome.append,
      Bool.not_true, Bool.or_self, Bool.false_eq_true, if_false, List.map_append, List.map_cons,
      List.map_nil, List.flatten_append, List.flatten_cons, List.flatten_nil, List.append_nil,
      List.append_assoc, List.length_append, List.length_singleton, UInt64.ofNat_add, callRow]
    rfl

/-- The closed index of given records. -/
def indexImage (header : SegmentHeader) (rows : List Bytes) (committedEnd : UInt64) : Bytes :=
  (indexHeaderImage header.segmentSeq header.flags ++ rows.flatten) ++
    indexFooterImage (UInt64.ofNat rows.length) committedEnd
      (indexHeaderImage header.segmentSeq header.flags ++ rows.flatten)

/-- The image of an index is laid out as one. -/
theorem indexImage_layout (header : SegmentHeader) {rows : List Bytes} (committedEnd : UInt64)
    (h : ∀ row ∈ rows, row.length = 83) :
    IndexLayout (indexImage header rows committedEnd) header.segmentSeq header.flags rows
      (UInt64.ofNat rows.length) committedEnd :=
  ⟨h, rfl⟩

/-- Records are told apart by the file they are in. -/
theorem IndexLayout.rows_inj {file : Bytes} {seq seq' : UInt64} {flags flags' : UInt32}
    {rows rows' : List Bytes} {count count' committedEnd committedEnd' : UInt64}
    (h : IndexLayout file seq flags rows count committedEnd)
    (h' : IndexLayout file seq' flags' rows' count' committedEnd') : rows = rows' := by
  have hlen : rows.length = rows'.length := by
    have h1 := h.length_eq
    have h2 := h'.length_eq
    omega
  apply List.ext_getElem hlen
  intro i hi hi'
  have hrow := h.row_eq hi
  rw [h'.row_eq hi'] at hrow
  exact hrow.symm

/-- A scan without a callback needs no key. -/
theorem segmentScanPath_none (evp : EvpOps) (codec : CodecOps) (file : Bytes) (decryptor : Bool) :
    (segmentScanPath (σ := Unit) evp codec file decryptor none ()).out =
      metadataScan evp codec file := by
  simp only [metadataScan, segmentScanPath, segmentScanImpl, Option.isSome_none, Bool.and_false,
    Bool.false_eq_true, if_false]

/-- **What a rebuild leaves**: the index of the calls of a recording scan, if that succeeds.
SOURCE: index.c:254-286 -/
theorem indexRebuildForSegment_eq (evp : EvpOps) (codec : CodecOps) (getters : ChunkGetters)
    {segment : Bytes} (decryptor : Bool) {header : SegmentHeader} {offset : ℕ}
    {info : SegmentEncryptionInfo} {out : ScanOut}
    (hparse : segmentParseHeader segment = some (header, offset, info))
    (hout : metadataScan evp codec segment = .ok out) :
    indexRebuildForSegment evp codec getters segment decryptor =
      match (segmentScanPath evp codec segment decryptor (some recordCalls) []).out with
      | .error _ => none
      | .ok _ => some (indexImage header
          ((segmentScanPath evp codec segment decryptor (some recordCalls) []).ctx.map
            (callRow getters header)) (UInt64.ofNat out.committedEnd)) := by
  have hheader : out.header = header := by
    obtain ⟨header', offset', info', st', hparse', -, rfl⟩ :=
      (metadataScan_eq_ok_iff evp codec segment out).mp hout
    rw [hparse, Option.some.injEq, Prod.mk.injEq] at hparse'
    exact hparse'.1.symm
  obtain ⟨hend, hctx⟩ := segmentScanPath_tracks evp codec decryptor hparse
    (tracksCalls_appendIndexFrameCb getters header)
    (show IndexesCalls getters header
      { bytes := indexHeaderImage header.segmentSeq header.flags } [] by
        simp [IndexesCalls])
  unfold indexRebuildForSegment
  rw [segmentScanPath_none, hout]
  simp only [hheader, indexWriterOpen]
  rw [hend, hctx]
  cases (segmentScanPath evp codec segment decryptor (some recordCalls) []).out with
  | error e => rfl
  | ok out' =>
    simp only [indexWriterClose, WriteOutcome.append, Bool.not_true, Bool.false_eq_true, if_false,
      indexImage, List.length_map]

/-! ## Frames that decode -/

/-- The stored payload of a frame decodes to its chunk, wherever the frame stands. -/
def FrameDecodes (codec : CodecOps) (header : SegmentHeader) (dict : Bytes) (f : IndexedFrame) :
    Prop :=
  codec.verifyChunk (header.flags &&& flagCompactEntries != 0) f.chunk = true ∧
    ∀ encrypted offset, decompressPayload codec header dict (f.frame.info encrypted offset)
      f.frame.payload = some f.chunk

/-- The stored payload of a frame does not decode. -/
def FrameFails (codec : CodecOps) (header : SegmentHeader) (dict : Bytes) (f : IndexedFrame) :
    Prop :=
  ∀ encrypted offset, decompressPayload codec header dict (f.frame.info encrypted offset)
    f.frame.payload = none

/-- A record looks at nothing of the header but its flags. -/
theorem writeIndexFrame_flags (getters : ChunkGetters) {header header' : SegmentHeader}
    (h : header.flags = header'.flags) (frame : SegmentFrameInfo) (chunk : Bytes) :
    writeIndexFrame getters header frame chunk = writeIndexFrame getters header' frame chunk := by
  simp only [writeIndexFrame, h]

/-- The calls a scan makes for frames that decode. -/
def frameCalls (encrypted : Bool) : ℕ → List IndexedFrame → List (SegmentFrameInfo × Bytes)
  | _, [] => []
  | offset, f :: frames =>
    (f.frame.info encrypted offset, f.chunk) ::
      frameCalls encrypted (offset + f.frame.size encrypted) frames

/-- There is one call for each frame. -/
@[simp] theorem length_frameCalls (encrypted : Bool) (frames : List IndexedFrame) :
    ∀ offset, (frameCalls encrypted offset frames).length = frames.length := by
  induction frames with
  | nil => intro offset; rfl
  | cons f frames ih => intro offset; rw [frameCalls, List.length_cons, ih, List.length_cons]

/-- Frames that decode are delivered as their chunks. -/
theorem expectedDeliveries_of_frameDecodes {codec : CodecOps} {header : SegmentHeader}
    {dict : Bytes} (encrypted : Bool) {frames : List IndexedFrame}
    (hdecodes : ∀ f ∈ frames, FrameDecodes codec header dict f) :
    ∀ offset, expectedDeliveries codec header dict encrypted offset (frames.map (·.frame)) =
      some (frameCalls encrypted offset frames) := by
  induction frames with
  | nil => intro offset; rfl
  | cons f frames ih =>
    intro offset
    obtain ⟨hverify, hdecode⟩ := hdecodes f (by simp)
    simp only [List.map_cons, expectedDeliveries, hdecode encrypted offset, hverify, if_true,
      ih (fun g hg => hdecodes g (by simp [hg])), Option.map_some, frameCalls]

/-- The records of these calls are those of the frames. -/
theorem callRows_frameCalls (getters : ChunkGetters) {header header' : SegmentHeader}
    (hflags : header.flags = header'.flags) (encrypted : Bool) {frames : List IndexedFrame}
    (happended : ∀ f ∈ frames, f.appended = true) :
    ∀ offset, (frameCalls encrypted offset frames).map (callRow getters header) =
      indexRows getters header' encrypted offset frames := by
  induction frames with
  | nil => intro offset; rfl
  | cons f frames ih =>
    intro offset
    rw [frameCalls, List.map_cons, ih (fun g hg => happended g (by simp [hg])), indexRows,
      if_pos (happended f (by simp)), callRow, writeIndexFrame_flags getters hflags]

section Rebuild

variable {evp : EvpOps} {key : FreshKey} {encryptor : Option SegmentEncryptor}
  {s : SegmentSource} {w : WrittenSegment} {codec : CodecOps} {getters : ChunkGetters}
  {frames : List IndexedFrame} {file : Bytes}

/-- INTERNAL: the written index as the index of its rows. -/
theorem writeIndex_eq_indexImage {offset : ℕ} {encrypted : Bool} {committedEnd : UInt64}
    (happended : ∀ f ∈ frames, f.appended = true)
    (hfile : writeIndex getters s.header encrypted offset frames committedEnd = some file)
    (header : SegmentHeader) (hseq : header.segmentSeq = s.header.segmentSeq)
    (hflags : header.flags = s.header.flags) :
    file = indexImage header (indexRows getters s.header encrypted offset frames) committedEnd := by
  obtain ⟨rows, body, rfl, rfl, rfl⟩ := writeIndex_eq_some hfile
  rw [indexImage, hseq, hflags, countedRows_of_all happended,
    length_indexRows_of_all getters s.header encrypted happended]

/-- **Frames that decode**: the rebuilt index is the one that was written.
SOURCE: index.c:113-286 -/
theorem rebuild_of_decodes (laws : EvpLaws evp) (h : writeSegment evp key encryptor s = some w)
    (hframes : s.frames = frames.map (·.frame)) (happended : ∀ f ∈ frames, f.appended = true)
    (hfile : writeIndex getters s.header encryptor.isSome w.head.length frames
      (UInt64.ofNat w.file.length) = some file) (hno : NoFooterImages w.images w.tail)
    (hsmall : dataOffset evp key encryptor.isSome s.dict < 2 ^ 32)
    (hdecodes : ∀ f ∈ frames, FrameDecodes codec s.storedHeader s.dict f) :
    indexRebuildForSegment evp codec getters w.file true = some file := by
  obtain ⟨info, spec⟩ := writeSegment_padded_spec laws h
  have hround := spec.roundTrips laws codec hsmall hno
  have hdecodes' : ∀ f ∈ frames, FrameDecodes codec s.padded.storedHeader s.padded.dict f :=
    hdecodes
  have hcalls := expectedDeliveries_of_frameDecodes encryptor.isSome hdecodes' w.head.length
  rw [← hframes] at hcalls
  have hscan := hround.deliveries _ hcalls
  have hrows := callRows_frameCalls getters
    (show s.padded.storedHeader.flags = s.header.flags from rfl) encryptor.isSome happended
    w.head.length
  rw [indexRebuildForSegment_eq evp codec getters true (spec.parse_small hsmall) hround.metadata,
    hscan]
  simp only [hrows]
  rw [writeIndex_eq_indexImage happended hfile s.padded.storedHeader rfl rfl]

/-- INTERNAL: a rebuild that succeeds leaves the records of the calls of a recording scan, and
that scan succeeds. -/
theorem rows_of_rebuild (laws : EvpLaws evp) (h : writeSegment evp key encryptor s = some w)
    (hfile : writeIndex getters s.header encryptor.isSome w.head.length frames
      (UInt64.ofNat w.file.length) = some file)
    (hrebuild : indexRebuildForSegment evp codec getters w.file true = some file) :
    (∃ out, (segmentScanPath evp codec w.file true (some recordCalls) []).out = .ok out) ∧
      indexRows getters s.header encryptor.isSome w.head.length frames =
        (segmentScanPath evp codec w.file true (some recordCalls) []).ctx.map
          (callRow getters s.padded.storedHeader) := by
  obtain ⟨info, spec⟩ := writeSegment_padded_spec laws h
  cases hout : metadataScan evp codec w.file with
  | error e =>
    unfold indexRebuildForSegment at hrebuild
    rw [segmentScanPath_none, hout] at hrebuild
    cases hrebuild
  | ok out =>
    rw [indexRebuildForSegment_eq evp codec getters true spec.parse hout] at hrebuild
    cases hscan : (segmentScanPath evp codec w.file true (some recordCalls) []).out with
    | error e => rw [hscan] at hrebuild; cases hrebuild
    | ok out' =>
      rw [hscan, Option.some.injEq] at hrebuild
      refine ⟨⟨out', rfl⟩, ?_⟩
      have hlength : ∀ row ∈ (segmentScanPath evp codec w.file true
          (some recordCalls) []).ctx.map (callRow getters s.padded.storedHeader),
          row.length = 83 := by
        intro row hrow
        obtain ⟨call, -, rfl⟩ := List.mem_map.mp hrow
        exact length_writeIndexFrame _ _ _ _
      have hlayout := indexImage_layout s.padded.storedHeader (UInt64.ofNat out.committedEnd)
        hlength
      rw [hrebuild] at hlayout
      exact (writeIndex_layout hfile).rows_inj hlayout

/-- The first call of a recording scan is for the frame the scan starts at. -/
theorem fileOffset_of_first_call {env : ScanEnv (List (SegmentFrameInfo × Bytes))}
    (hcb : env.cb = some recordCalls) (buf : Bytes) (offset : ℕ) {call : SegmentFrameInfo × Bytes}
    {calls : List (SegmentFrameInfo × Bytes)} (hmin : env.minFrameOffset = 0)
    (h : scanCtx (scanFrom env buf (ScanState.start offset [])) = call :: calls) :
    call.1.fileOffset = offset := by
  by_cases hlt : offset < buf.length
  · cases hs : scanStep env.encrypted (buf.drop offset) offset with
    | footer f => rw [scanFrom_of_footer env buf _ f hlt hs] at h; cases h
    | stop => rw [scanFrom_of_stop env buf _ hlt hs] at h; cases h
    | corrupt => rw [scanFrom_of_corrupt env buf _ hlt hs] at h; cases h
    | frame info =>
      have hinfo : info.fileOffset = offset := by
        rw [((scanStep_eq_frame_iff _ _ _ _).mp hs).2.1]
        rfl
      rw [scanFrom_of_frame env buf _ info hlt hs] at h
      rcases deliverFrame_first hcb hmin (buf.drop offset) info 0 with
        ⟨chunk, hok⟩ | hstop | ⟨rv, errno, hfail⟩
      · have hmax : (env.encrypted && (0 : UInt64) == 0xffffffffffffffff) = false := by
          cases env.encrypted <;> rfl
        simp only [ScanState.start, hok, hmax, Bool.false_eq_true, if_false] at h
        have hpre : [(info, chunk)] <+: call :: calls := by
          rw [← h]
          exact scanFrom_calls hcb buf (ScanState.pass _ info [(info, chunk)])
        obtain ⟨rest, hrest⟩ := hpre
        rw [List.singleton_append, List.cons.injEq] at hrest
        rw [← hrest.1]
        exact hinfo
      · simp only [ScanState.start, hstop] at h
        cases h
      · simp only [ScanState.start, hfail] at h
        cases h
  · rw [scanFrom_of_end env buf _ (Nat.le_of_not_lt hlt)] at h
    cases h

/-- INTERNAL: a recording scan with the key, as the frame loop it runs. -/
theorem recordingScan_eq {info : SegmentEncryptionInfo}
    (spec : WrittenSpec evp key encryptor.isSome s w info) (codec : CodecOps) :
    ∃ dek, (encryptor.isSome = true → dek = key.dek) ∧
      segmentScanPath evp codec w.file true (some recordCalls) [] =
        ScanEnd.result s.storedHeader (scanFrom (scanEnv evp codec w.file s.storedHeader
          (w.head.length % 2 ^ 32) info dek (some recordCalls)) w.file
          (ScanState.start (w.head.length % 2 ^ 32) [])) := by
  obtain ⟨dek, hdek, hkey⟩ : ∃ dek, (if s.storedHeader.flags &&& flagEncrypted != 0 then
      evp.unwrapDek info.wrappedDek = some dek else dek = List.replicate segmentDekSize 0) ∧
      (encryptor.isSome = true → dek = key.dek) := by
    have hflags : (s.storedHeader.flags &&& flagEncrypted != 0) = encryptor.isSome := spec.flags_eq
    rw [hflags]
    cases henc : encryptor.isSome with
    | false => exact ⟨_, rfl, by simp⟩
    | true => exact ⟨key.dek, (spec.unwrap henc).2, fun _ => rfl⟩
  exact ⟨dek, hkey, segmentScanPath_of_parse evp codec recordCalls [] dek spec.parse hdek⟩

/-- **A wrapped data offset shows in the first row**: a rebuilt index with rows is the one
that was written only if the data offset fits 32 bits. -/
theorem dataOffset_lt_of_rebuild (laws : EvpLaws evp)
    (h : writeSegment evp key encryptor s = some w) (hne : frames ≠ [])
    (happended : ∀ f ∈ frames, f.appended = true)
    (hfile : writeIndex getters s.header encryptor.isSome w.head.length frames
      (UInt64.ofNat w.file.length) = some file)
    (hrebuild : indexRebuildForSegment evp codec getters w.file true = some file) :
    dataOffset evp key encryptor.isSome s.dict < 2 ^ 32 := by
  obtain ⟨info, spec⟩ := writeSegment_padded_spec laws h
  obtain ⟨-, hrows⟩ := rows_of_rebuild laws h hfile hrebuild
  obtain ⟨dek, -, hscan⟩ := recordingScan_eq spec codec
  obtain ⟨f, rest, rfl⟩ := List.exists_cons_of_ne_nil hne
  rw [indexRows, if_pos (happended f (by simp)), hscan, scanCtx_result] at hrows
  obtain ⟨call, calls, hcalls, hrow, -⟩ := List.map_eq_cons_iff.mp hrows.symm
  have hfirst := fileOffset_of_first_call rfl w.file _ rfl hcalls
  have hplace := congrArg (fun row => (rowPlace (decodeIndexFrame row)).1) hrow
  simp only [callRow, rowPlace_writeIndexFrame, framePlace, hfirst, StoredFrame.info] at hplace
  have hnat := congrArg UInt64.toNat hplace
  rw [UInt64.toNat_ofNat', UInt64.toNat_ofNat'] at hnat
  have hlt := spec.offset_lt
  have hlen := spec.head_length
  simp only [SegmentSource.padded] at hlt hlen
  omega

/-- A list of frames is written frame by frame. -/
theorem writeFrames_split {evp : EvpOps} (laws : EvpLaws evp) (key : Option FreshKey)
    (pre post : List StoredFrame) :
    ∀ (index : UInt64) (images : List Bytes),
      writeFrames evp (frameEncryptor key index) (pre ++ post) = some images →
      ∃ front back, images = front ++ back ∧
        writeFrames evp (frameEncryptor key index) pre = some front ∧
        writeFrames evp (frameEncryptor key (index + UInt64.ofNat front.length)) post =
          some back := by
  induction pre with
  | nil =>
    intro index images h
    exact ⟨[], images, rfl, rfl, by simpa using h⟩
  | cons f pre ih =>
    intro index images h
    rw [List.cons_append, writeFrames] at h
    split at h
    · rename_i hok
      obtain ⟨-, -, -, hnext, -⟩ := StoredFrame.written_spec evp laws key index f 0 hok
      rw [hnext] at h
      obtain ⟨rest, hrest, rfl⟩ := Option.map_eq_some_iff.mp h
      obtain ⟨front, back, rfl, hfront, hback⟩ := ih (index + 1) rest hrest
      refine ⟨(f.write evp (frameEncryptor key index)).written :: front, back, rfl, ?_, ?_⟩
      · rw [writeFrames, if_pos hok, hnext, hfront, Option.map_some]
      · rw [List.length_cons, UInt64.ofNat_add, UInt64.add_comm (UInt64.ofNat front.length),
          ← UInt64.add_assoc]
        exact hback
    · cases h

/-- A frame that is not delivered ends the scan with the calls made so far. -/
theorem scanCtx_of_undelivered {env : ScanEnv (List (SegmentFrameInfo × Bytes))}
    {buf bs rest : Bytes} {st : ScanState (List (SegmentFrameInfo × Bytes))}
    (hbuf : buf.drop st.offset = bs ++ rest) (hframe : IsFrame env.encrypted bs)
    (hno : ¬ FooterImage (bs ++ rest))
    (hend : deliverFrame env bs (frameInfoAt bs st.offset) st.frameIndex st.ctx =
      if env.encrypted then .failed (-1) (some .eio) st.ctx else .stop) :
    scanCtx (scanFrom env buf st) = st.ctx := by
  have hlt : st.offset < buf.length := by
    have hle := hframe.le_length
    have hlength := congrArg List.length hbuf
    simp only [List.length_drop, List.length_append] at hlength
    omega
  have hstep : scanStep env.encrypted (buf.drop st.offset) st.offset =
      .frame (frameInfoAt bs st.offset) := by
    rw [hbuf]
    exact scanStep_of_isFrame _ _ hframe ((footerAt_eq_none_iff _).mpr hno)
  rw [scanFrom_of_frame env buf st _ hlt hstep, hbuf, deliverFrame_append env _ _ _ _ hframe, hend]
  cases env.encrypted <;> rfl

/-- INTERNAL: a scan with the key of a written list of frames, up to one that does not decode. -/
theorem scanFrom_undecoded (env : ScanEnv (List (SegmentFrameInfo × Bytes)))
    (laws : EvpLaws env.evp) (cipher : Option FreshKey) (hkey : cipher.isSome = env.encrypted)
    (hdek : env.dek = cipher.elim env.dek (·.dek))
    (hnonce : env.encryption.noncePrefix =
      cipher.elim env.encryption.noncePrefix (·.noncePrefix))
    (hcb : env.cb = some recordCalls) (hmin : env.minFrameOffset = 0)
    {pre post : List IndexedFrame} {f : IndexedFrame} {images : List Bytes} {buf tail : Bytes}
    {offset : ℕ} (himages : writeFrames env.evp (frameEncryptor cipher 0)
      ((pre ++ f :: post).map (·.frame)) = some images)
    (hbuf : buf.drop offset = images.flatten ++ tail) (hno : NoFooterImages images tail)
    (hdecodes : ∀ g ∈ pre, FrameDecodes env.codec env.header env.dict g)
    (hfails : FrameFails env.codec env.header env.dict f) :
    (scanCtx (scanFrom env buf (ScanState.start offset []))).length = pre.length := by
  -- the images of the frames in front, of the frame that fails, and of the others
  rw [List.map_append, List.map_cons] at himages
  obtain ⟨front, back, rfl, hfront, hrest⟩ := writeFrames_split laws _ _ _ _ _ himages
  rw [UInt64.zero_add, writeFrames] at hrest
  split at hrest
  case isFalse => cases hrest
  rename_i hok
  obtain ⟨behind, -, rfl⟩ := Option.map_eq_some_iff.mp hrest
  obtain ⟨hframe, hinfo, -⟩ := StoredFrame.written_spec env.evp laws cipher
    (UInt64.ofNat front.length) f.frame (offset + front.flatten.length) hok
  have hundecoded := deliverFrame_undecoded env laws cipher hkey hdek hnonce hcb hmin _ _ _
    (frameCalls cipher.isSome offset pre) hok (hfails cipher.isSome (offset + front.flatten.length))
  rw [← hinfo] at hundecoded
  -- the scan in front of the frame
  obtain ⟨hall, -, hcount, hdeliver⟩ :=
    writeFrames_spec env.evp laws cipher _ 0 offset front hfront
  have hdelivered := hdeliver env rfl hkey hdek hnonce hcb hmin [] _
    (expectedDeliveries_of_frameDecodes cipher.isSome hdecodes offset)
  rw [List.nil_append] at hdelivered
  rw [hkey] at hall hcount hframe
  rw [List.flatten_append, List.append_assoc] at hbuf
  rw [scanFrom_frames env buf _ front (ScanState.start offset []) _ hbuf rfl hall
    (noFooterImages_front hno) (by simpa [ScanState.start] using hcount) hdelivered]
  -- the frame itself
  have hhere : buf.drop (offset + front.flatten.length) =
      (f.frame.write env.evp (frameEncryptor cipher (UInt64.ofNat front.length))).written ++
        (behind.flatten ++ tail) := by
    rw [← List.drop_drop, hbuf, List.drop_left, List.flatten_cons, List.append_assoc]
  set st := ScanState.passAll (ScanState.start offset []) front
    (frameCalls cipher.isSome offset pre)
  have hindex : st.frameIndex = UInt64.ofNat front.length := UInt64.zero_add _
  have hctx : scanCtx (scanFrom env buf st) = st.ctx :=
    scanCtx_of_undelivered hhere hframe (noFooterImages_drop hno).1
      (by rw [hindex]; exact hundecoded)
  rw [hctx]
  exact length_frameCalls _ _ _

/-- **A frame that does not decode ends the scan**: it makes the calls for the frames in
front of it and no more.
SOURCE: segment.c:655-717 -/
theorem scanCtx_of_frameFails (laws : EvpLaws evp)
    (h : writeSegment evp key encryptor s = some w) {pre post : List IndexedFrame}
    {f : IndexedFrame} (hframes : s.frames = (pre ++ f :: post).map (·.frame))
    (hno : NoFooterImages w.images w.tail)
    (hsmall : dataOffset evp key encryptor.isSome s.dict < 2 ^ 32)
    (hdecodes : ∀ g ∈ pre, FrameDecodes codec s.padded.storedHeader s.padded.dict g)
    (hfails : FrameFails codec s.padded.storedHeader s.padded.dict f) :
    (segmentScanPath evp codec w.file true (some recordCalls) []).ctx.length = pre.length := by
  obtain ⟨info, spec⟩ := writeSegment_padded_spec laws h
  obtain ⟨dek, hkey, hscan⟩ := recordingScan_eq spec codec
  have hmod : w.head.length % 2 ^ 32 = w.head.length :=
    Nat.mod_eq_of_lt (by rw [spec.head_length]; exact hsmall)
  rw [hmod] at hscan
  rw [hscan, scanCtx_result]
  have himages := spec.images
  rw [show s.padded.frames = s.frames from rfl, hframes] at himages
  -- the scan has the key of the segment
  set env := scanEnv evp codec w.file s.padded.storedHeader w.head.length info dek
    (some recordCalls)
  have hencrypted : env.encrypted = encryptor.isSome := spec.flags_eq
  have hdict : env.dict = s.padded.dict := spec.scanDict_eq
  refine scanFrom_undecoded env laws (if encryptor.isSome then some key else none) ?_ ?_ ?_ rfl
    rfl himages ?_ hno ?_ ?_
  · rw [hencrypted]
    cases encryptor.isSome <;> rfl
  · cases henc : encryptor.isSome with
    | false => rfl
    | true => exact hkey henc
  · cases henc : encryptor.isSome with
    | false => rfl
    | true => exact (spec.unwrap henc).1
  · rw [WrittenSegment.file, List.drop_left]
  · intro g hg
    rw [hdict]
    exact hdecodes g hg
  · rw [hdict]
    exact hfails

/-- **A frame that does not decode shows in the number of rows**: a rebuilt index is the one
that was written only if every frame decodes to its chunk. -/
theorem decodes_of_rebuild (laws : EvpLaws evp) (h : writeSegment evp key encryptor s = some w)
    (hframes : s.frames = frames.map (·.frame)) (happended : ∀ f ∈ frames, f.appended = true)
    (hfile : writeIndex getters s.header encryptor.isSome w.head.length frames
      (UInt64.ofNat w.file.length) = some file) (hno : NoFooterImages w.images w.tail)
    (hsmall : dataOffset evp key encryptor.isSome s.dict < 2 ^ 32)
    (heither : ∀ f ∈ frames, FrameDecodes codec s.storedHeader s.dict f ∨
      FrameFails codec s.storedHeader s.dict f)
    (hrebuild : indexRebuildForSegment evp codec getters w.file true = some file) :
    ∀ f ∈ frames, FrameDecodes codec s.storedHeader s.dict f := by
  classical
  by_contra hcontra
  obtain ⟨f, hfind⟩ : ∃ f, frames.find?
      (fun f => !decide (FrameDecodes codec s.storedHeader s.dict f)) = some f := by
    push Not at hcontra
    obtain ⟨bad, hbad, hnot⟩ := hcontra
    exact Option.isSome_iff_exists.mp (List.find?_isSome.mpr ⟨bad, hbad, by simpa using hnot⟩)
  -- the first frame that does not decode, behind frames that do
  obtain ⟨hf, pre, post, rfl, hpre⟩ := List.find?_eq_some_iff_append.mp hfind
  simp only [Bool.not_eq_true', decide_eq_false_iff_not, Bool.not_not, decide_eq_true_eq]
    at hf hpre
  have hfails := (heither f (by simp)).resolve_left hf
  obtain ⟨-, hrows⟩ := rows_of_rebuild laws h hfile hrebuild
  have hlen := congrArg List.length hrows
  rw [length_indexRows_of_all getters s.header encryptor.isSome happended, List.length_map,
    scanCtx_of_frameFails laws h hframes hno hsmall hpre hfails, List.length_append,
    List.length_cons] at hlen
  omega

end Rebuild

end Recorder.Analysis
