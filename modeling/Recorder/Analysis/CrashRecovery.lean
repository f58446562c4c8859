import Recorder.Analysis.Recovery
import Recorder.Analysis.ReceiptOrder
import Recorder.Analysis.SegmentPrefix
import Recorder.Analysis.UnsyncedFrames

/-!
# What a crash leaves of a group

A crash cuts the open segment of a group somewhere behind what its last `fsync` covered
(`CrashImage`). Startup recovery then takes off a torn frame, and a reader finds the frames in
front of it: a first part of the group's frames that has all synced ones. Closed segments come
through recovery as they are. So what a group has after a crash is a first part of what the
recorder accepted for it, and what is missing are the frames behind the last `fsync`, fewer
than `durability_flush_frames` of them, and the chunk that was still in memory.

**Main result**: `crash_keeps_synced`.
-/

set_option autoImplicit false

namespace Recorder.Analysis

open Recorder.Model Recorder.Lib

/-! ## Torn tails -/

/-- The frame loop stops in front of the tail, whether there is one or not. -/
def Torn (encrypted : Bool) (tail : Bytes) : Prop :=
  tail ≠ [] → ∀ offset, Model.scanStep encrypted tail offset = .stop

theorem Torn.nil (encrypted : Bool) : Torn encrypted [] := fun h => absurd rfl h

/-- **The loop over whole frames and a torn one** ends behind the whole ones.
SOURCE: segment.c:582-722 -/
theorem scanFrom_torn {σ : Type} (env : ScanEnv σ) {buf tail : Bytes} {images : List Bytes}
    {offset : ℕ} {ctx ctx' : σ} (hbuf : buf.drop offset = images.flatten ++ tail)
    (hframes : ∀ bs ∈ images, IsFrame env.encrypted bs) (hno : NoFooterImages images tail)
    (hcount : env.encrypted = true → images.length < 2 ^ 64)
    (hdeliver : deliverAll env offset 0 images ctx = some ctx')
    (htorn : Torn env.encrypted tail) :
    scanFrom env buf (ScanState.start offset ctx) =
      .done (ScanState.passAll (ScanState.start offset ctx) images ctx') := by
  have hpassed := scanFrom_frames env buf tail images (ScanState.start offset ctx) ctx' hbuf rfl
    hframes hno (fun henc => by simpa [ScanState.start] using hcount henc) hdeliver
  rw [hpassed]
  have hbehind : buf.drop (ScanState.passAll (ScanState.start offset ctx) images ctx').offset =
      tail := by
    simp only [ScanState.passAll, ScanState.start]
    rw [← List.drop_drop, hbuf, List.drop_left]
  by_cases hlt : (ScanState.passAll (ScanState.start offset ctx) images ctx').offset < buf.length
  · apply scanFrom_of_stop env buf _ hlt
    rw [hbehind]
    apply htorn
    intro hnil
    rw [hnil, List.drop_eq_nil_iff] at hbehind
    omega
  · exact scanFrom_of_end env buf _ (Nat.le_of_not_lt hlt)

section Scan

variable {evp : EvpOps} {codec : CodecOps} {key : FreshKey} {encrypted : Bool}
  {header : SegmentHeader} {dict head tail : Bytes} {info : SegmentEncryptionInfo}
  {frames : List StoredFrame} {images : List Bytes}

/-- **A segment with a torn tail is scanned** up to the tail, without the key and with it.
SOURCE: segment.c:543-738 -/
theorem HeadSpec.scan_torn (spec : HeadSpec evp key encrypted header dict head info)
    (laws : EvpLaws evp) (hsmall : dataOffset evp key encrypted dict < 2 ^ 32)
    (himages : writeFrames evp (frameEncryptor (if encrypted then some key else none) 0) frames =
      some images)
    (hno : NoFooterImages images tail) (htorn : Torn encrypted tail)
    {calls : List (SegmentFrameInfo × Bytes)}
    (hcalls : expectedDeliveries codec { header with dictLen := UInt32.ofNat dict.length } dict
      encrypted head.length frames = some calls) :
    (∃ out, metadataScan evp codec (head ++ (images.flatten ++ tail)) = .ok out ∧
      out.committedEnd = head.length + images.flatten.length) ∧
    (segmentScanPath evp codec (head ++ (images.flatten ++ tail)) true (some recordCalls) []).ctx =
      calls := by
  have hparse := spec.parse (images.flatten ++ tail)
  rw [Nat.mod_eq_of_lt (by rw [spec.head_length]; exact hsmall)] at hparse
  have hkeySome : (if encrypted then some key else none).isSome = encrypted := by
    cases encrypted <;> rfl
  obtain ⟨hframes, -, hcount, hdel⟩ := writeFrames_spec evp laws _ frames 0 head.length images
    himages
  rw [hkeySome] at hframes hcount hdel
  have hbound : encrypted = true → images.length < 2 ^ 64 := by simpa using hcount
  have hbuf : (head ++ (images.flatten ++ tail)).drop head.length = images.flatten ++ tail :=
    List.drop_left
  constructor
  · set env := metadataEnv evp codec (head ++ (images.flatten ++ tail))
      { header with dictLen := UInt32.ofNat dict.length } head.length info with henv
    have henc : env.encrypted = encrypted := spec.flags_eq
    have hscan := scanFrom_torn env hbuf (by rw [henc]; exact hframes) hno
      (by rw [henc]; exact hbound) (deliverAll_of_no_cb env rfl images head.length 0 ())
      (by rw [henc]; exact htorn)
    exact ⟨_, (metadataScan_eq_ok_iff _ _ _ _).mpr ⟨_, _, _, _, hparse, hscan, rfl⟩, rfl⟩
  · -- the key a scan with a callback works with
    obtain ⟨dek, hdek, hkey⟩ : ∃ dek, (if header.flags &&& flagEncrypted != 0 then
        evp.unwrapDek info.wrappedDek = some dek else dek = List.replicate segmentDekSize 0) ∧
        (encrypted = true → dek = key.dek) := by
      rw [spec.flags_eq]
      cases henc : encrypted with
      | false => exact ⟨_, rfl, by simp⟩
      | true => exact ⟨key.dek, (spec.unwrap henc).2, fun _ => rfl⟩
    rw [segmentScanPath_of_parse evp codec recordCalls [] dek hparse hdek, scanCtx_result]
    set env := scanEnv evp codec (head ++ (images.flatten ++ tail))
      { header with dictLen := UInt32.ofNat dict.length } head.length info dek (some recordCalls)
      with henv
    have henc : env.encrypted = encrypted := spec.flags_eq
    have hdict : env.dict = dict := spec.scanDict_eq _
    have hdelivered : deliverAll env head.length 0 images [] = some ([] ++ calls) := by
      apply hdel env rfl henc.symm _ _ rfl rfl
      · rw [hdict]
        exact hcalls
      · cases hcrypt : encrypted with
        | false => rfl
        | true => exact hkey hcrypt
      · cases hcrypt : encrypted with
        | false => rfl
        | true => exact (spec.unwrap hcrypt).1
    rw [scanFrom_torn env hbuf (by rw [henc]; exact hframes) hno (by rw [henc]; exact hbound)
      hdelivered (by rw [henc]; exact htorn)]
    rfl

/-- A file whose header is not accepted fails a scan, and nothing of it is handed out. -/
theorem scan_of_no_header {file : Bytes} (h : segmentParseHeader file = none) :
    (∃ err, metadataScan evp codec file = .error err) ∧
      (segmentScanPath evp codec file true (some recordCalls) []).ctx = [] := by
  constructor
  · unfold metadataScan segmentScanPath segmentScanImpl
    rw [h]
    split
    · exact ⟨_, rfl⟩
    · exact ⟨_, rfl⟩
  · unfold segmentScanPath segmentScanImpl
    rw [h]
    split <;> rfl

/-- A file that ends inside its header or its dictionary has no header. -/
theorem HeadSpec.parse_short (spec : HeadSpec evp key encrypted header dict head info)
    (hsmall : dataOffset evp key encrypted dict < 2 ^ 32) {n : ℕ} (hn : n < head.length) :
    segmentParseHeader (head.take n) = none := by
  have hparse := spec.parse []
  rw [List.append_nil] at hparse
  obtain ⟨⟨-, hle, -⟩, -, hoffset⟩ := (segmentParseHeader_eq_some_iff _ _ _ _).mp hparse
  rw [← spec.head_length] at hsmall
  have hstart : framesStart head = head.length := by
    rw [Nat.mod_eq_of_lt hsmall, Nat.mod_eq_of_lt (hle.trans_lt hsmall)] at hoffset
    exact hoffset.symm
  cases hcut : segmentParseHeader (head.take n) with
  | none => rfl
  | some r =>
    obtain ⟨header', offset, info'⟩ := r
    obtain ⟨⟨hsize, hinside, -⟩, -, -⟩ := (segmentParseHeader_eq_some_iff _ _ _ _).mp hcut
    have hfixed : headerSize (head.take n) ≤ framesStart (head.take n) := Nat.le_add_right _ _
    rw [List.length_take] at hinside
    have hsame := framesStart_take head n (by omega)
    omega

end Scan

/-! ## Recovery of a cut file -/

/-- What a reader with the key is handed out of a file, if recovery left it. -/
def readBack (evp : EvpOps) (codec : CodecOps) (content : Option Bytes) : List (ℕ × Bytes) :=
  content.elim [] fun file =>
    (segmentScanPath evp codec file true (some recordCalls) []).ctx.map handedOut

/-- Recovery can map the file, or at least not remove it. -/
def Mappable (io : RecoveryIo) : Prop :=
  io.statOk = true → io.mapOk = false → io.unlinkOk = false

section Recover

variable {evp : EvpOps} {codec : CodecOps} {io : RecoveryIo} {indexOk : Bool}

/-- A file without a header is removed or left, and has nothing to hand out.
SOURCE: recorder.c:2222-2260 -/
theorem readBack_of_no_header {file : Bytes} (h : segmentParseHeader file = none) :
    readBack evp codec (recoverSegmentFile evp codec io indexOk file).content = [] := by
  obtain ⟨⟨err, hmetadata⟩, hctx⟩ := scan_of_no_header h
  cases hcontent : (recoverSegmentFile evp codec io indexOk file).content with
  | none => rfl
  | some c =>
    rcases recoverSegmentFile_content hcontent with ⟨rfl, -⟩ | ⟨out, hout, -⟩
    · rw [readBack, Option.elim_some, hctx]
      rfl
    · rw [hmetadata] at hout
      cases hout

variable {key : FreshKey} {encrypted : Bool} {header : SegmentHeader} {dict head tail : Bytes}
  {info : SegmentEncryptionInfo} {frames : List StoredFrame} {images : List Bytes}

/-- **A file with a torn tail** keeps its whole frames: recovery takes off the tail or leaves it,
and a reader is handed out the frames.
SOURCE: recorder.c:2222-2277, segment.c:543-738 -/
theorem HeadSpec.readBack_torn (spec : HeadSpec evp key encrypted header dict head info)
    (laws : EvpLaws evp) (hsmall : dataOffset evp key encrypted dict < 2 ^ 32)
    (himages : writeFrames evp (frameEncryptor (if encrypted then some key else none) 0) frames =
      some images)
    (hno : NoFooterImages images tail) (htorn : Torn encrypted tail)
    {calls : List (SegmentFrameInfo × Bytes)}
    (hcalls : expectedDeliveries codec { header with dictLen := UInt32.ofNat dict.length } dict
      encrypted head.length frames = some calls) (hio : Mappable io) :
    readBack evp codec (recoverSegmentFile evp codec io indexOk
      (head ++ (images.flatten ++ tail))).content = calls.map handedOut := by
  obtain ⟨⟨out, hout, hend⟩, hctx⟩ :=
    spec.scan_torn laws hsmall himages hno htorn hcalls
  have hne := length_ne_zero_of_parse (spec.parse (images.flatten ++ tail))
  rcases recoverSegmentFile_of_ok indexOk hne hio hout with hkept | ⟨hcut, -⟩
  · rw [hkept, readBack, Option.elim_some, hctx]
  · have htake : (head ++ (images.flatten ++ tail)).take out.committedEnd =
        head ++ (images.flatten ++ []) := by
      rw [hend, ← List.append_assoc, ← List.length_append, List.take_left, List.append_nil]
    have hwhole : NoFooterImages images [] := by
      have hfront : NoFooterImages (images ++ []) tail := by
        rw [List.append_nil]
        exact hno
      exact noFooterImages_take 0 [] images hfront
    obtain ⟨-, hctx'⟩ := spec.scan_torn laws hsmall himages hwhole
      (.nil encrypted) hcalls
    rw [hcut, htake, readBack, Option.elim_some, hctx']

end Recover

/-! ## An open segment -/

/-- Where the first `j` frames of a segment file without a footer end. -/
def framesEnd (f : SegmentOnDisk) (j : ℕ) : ℕ := (f.frames[j]?.map (·.offset)).getD f.content.length

/-- The bytes of an open segment that its last `fsync` covered. A header alone is not synced. -/
def syncedLength (w : PriorityWriter) (f : SegmentOnDisk) : ℕ :=
  if w.syncedFrames = 0 then 0 else framesEnd f w.syncedFrames

/-- **What a crash leaves** of an open segment: a first part of its bytes, with those the last
`fsync` covered. -/
structure CrashImage (w : PriorityWriter) (f : SegmentOnDisk) (c : Bytes) : Prop where
  cut : c <+: f.content
  synced : syncedLength w f ≤ c.length

/-- A frame and its chunk, as a scan hands them out. -/
def storedChunk (env : RecorderEnv) (config : RecorderConfig) (frame : WrittenFrame) :
    ℕ × Bytes :=
  (frame.offset, env.chunkBytes (!config.fullEntries) frame.entries)

section File

variable {env : RecorderEnv} {config : RecorderConfig} {codec : CodecOps} {f : SegmentOnDisk}
  {key : FreshKey} {images : List Bytes} {frames : List IndexedFrame}

/-- The `j`th frame starts behind `j` images. -/
theorem frameInfos_getElem? (images : List Bytes) :
    ∀ offset j, j < images.length → ((frameInfos offset images).map (·.fileOffset))[j]? =
      some (offset + (images.take j).flatten.length) := by
  induction images with
  | nil =>
    intro offset j hj
    cases hj
  | cons bs images ih =>
    intro offset j hj
    cases j with
    | zero => rfl
    | succ j =>
      rw [frameInfos, List.map_cons, List.getElem?_cons_succ,
        ih (offset + bs.length) j (Nat.lt_of_succ_lt_succ hj), List.take_succ_cons,
        List.flatten_cons, List.length_append, Nat.add_assoc]

theorem frameCalls_take (encrypted : Bool) (frames : List IndexedFrame) :
    ∀ k offset, frameCalls encrypted offset (frames.take k) =
      (frameCalls encrypted offset frames).take k := by
  induction frames with
  | nil => intro k offset; cases k <;> rfl
  | cons frame frames ih =>
    intro k offset
    cases k with
    | zero => rfl
    | succ k => rw [List.take_succ_cons, frameCalls, frameCalls, List.take_succ_cons, ih]

theorem FramesInFile.length_images (h : FramesInFile env config f key images frames []) :
    images.length = f.frames.length := by
  have hlength := congrArg List.length h.offsets
  rw [List.length_map, List.length_map, length_frameInfos] at hlength
  exact hlength.symm

theorem FramesInFile.framesEnd_eq (h : FramesInFile env config f key images frames []) {j : ℕ}
    (hj : j ≤ f.frames.length) :
    framesEnd f j = (headWrite env config key f).written.length +
      (images.take j).flatten.length := by
  rw [← h.length_images] at hj
  rcases Nat.lt_or_eq_of_le hj with hlt | rfl
  · have hoffset := frameInfos_getElem? images (headWrite env config key f).written.length j hlt
    rw [← h.offsets, List.getElem?_map] at hoffset
    rw [framesEnd, hoffset]
    rfl
  · have hnone : f.frames[images.length]? = none :=
      List.getElem?_eq_none h.length_images.symm.le
    rw [framesEnd, hnone, h.content, List.take_length, List.append_nil, List.length_append]
    rfl

/-- The frames of a file are decoded to their chunks. -/
theorem FramesInFile.decodes (h : FramesInFile env config f key images frames [])
    (laws : ChunkLaws env codec) (hdict : f.dict.length ≤ uint32Max)
    (hreadable : FramesReadable env config f) :
    ∀ frame ∈ frames, FrameDecodes codec
      { f.header with dictLen := UInt32.ofNat f.dict.length } f.dict frame := by
  intro frame hframe
  obtain ⟨written, hmem, hchunk⟩ := (exists_of_forall₂ h.chunks).1 frame hframe
  exact hchunk.decodes laws h.header hdict (hreadable.whole written hmem)

/-- The calls for the first frames of a file hand out the first stored chunks. -/
theorem FramesInFile.handedOut_take (h : FramesInFile env config f key images frames [])
    (laws : EvpLaws env.evp) (k : ℕ) :
    (frameCalls config.encryption (headWrite env config key f).written.length
      (frames.take k)).map handedOut = (f.frames.take k).map (storedChunk env config) := by
  have hkey : (frameKey config key).isSome = config.encryption := by
    unfold frameKey
    cases config.encryption <;> rfl
  obtain ⟨-, hinfos, -⟩ := writeFrames_spec env.evp laws _ _ 0
    (headWrite env config key f).written.length images h.written
  rw [hkey] at hinfos
  have hbytes : frames.map (·.chunk) = f.frames.map fun frame =>
      env.chunkBytes (!config.fullEntries) frame.entries := by
    rw [← List.forall₂_eq_eq_eq, List.forall₂_map_left_iff, List.forall₂_map_right_iff]
    exact (h.chunks.imp fun _ _ hchunk => hchunk.2.2.1).flip
  have hall : (frameCalls config.encryption (headWrite env config key f).written.length
      frames).map handedOut = f.frames.map (storedChunk env config) := by
    rw [frameCalls_handedOut, hbytes, ← hinfos, ← h.offsets, List.zip_map']
    rfl
  rw [frameCalls_take, List.map_take, hall, List.map_take]

/-- The first frames of a file were written as the first images.
SOURCE: segment.c:310-352 -/
theorem FramesInFile.written_take (h : FramesInFile env config f key images frames [])
    (laws : EvpLaws env.evp) {k : ℕ} (hk : k ≤ images.length) :
    writeFrames env.evp (frameEncryptor (frameKey config key) 0)
      ((frames.take k).map (·.frame)) = some (images.take k) := by
  have hwritten := h.written
  have hparts : frames.map (·.frame) = (frames.take k).map (·.frame) ++
      (frames.drop k).map (·.frame) := by
    rw [← List.map_append, List.take_append_drop]
  rw [hparts] at hwritten
  obtain ⟨front, back, himages, hfront, -⟩ := writeFrames_split laws _ _ _ 0 images hwritten
  obtain ⟨-, hinfos, -⟩ := writeFrames_spec env.evp laws _ _ 0 0 front hfront
  have hlength := congrArg List.length hinfos
  rw [length_frameInfos, length_expectedInfos, List.length_map, List.length_take,
    ← h.chunks.length_eq, ← h.length_images, Nat.min_eq_left hk] at hlength
  rw [hfront, himages, ← hlength, List.take_left]

/-- Frames that end in front of the cut are whole. -/
theorem CutAt.le_whole {n offset j : ℕ} {images whole torn : List Bytes}
    (h : CutAt n offset images whole torn) {encrypted : Bool}
    (hframes : ∀ bs ∈ images, IsFrame encrypted bs) (hj : j ≤ images.length)
    (hend : offset + (images.take j).flatten.length ≤ n) : j ≤ whole.length := by
  have hfront : CutAt (offset + (images.take j).flatten.length) offset images
      (images.take j) (images.drop j) := by
    refine ⟨(List.take_append_drop j images).symm, le_rfl, ?_⟩
    intro bs rest hdrop
    have hmem : bs ∈ images := List.mem_of_mem_drop (by rw [hdrop]; exact List.mem_cons_self)
    have hpositive := (hframes bs hmem).le_length
    omega
  have hpre := hfront.prefix h hend
  have hle := hpre.length_le
  rw [List.length_take, Nat.min_eq_left hj] at hle
  exact hle

/-- The beginning of the frame behind the cut stops the frame loop.
SOURCE: segment.c:612-636 -/
theorem torn_take {encrypted : Bool} {whole torn : List Bytes}
    (hframes : ∀ bs ∈ whole ++ torn, IsFrame encrypted bs)
    (hno : NoFooterImages (whole ++ torn) []) {m : ℕ}
    (hm : ∀ bs rest, torn = bs :: rest → m < bs.length) :
    Torn encrypted ((torn.flatten ++ []).take m) := by
  intro hne offset
  cases htorn : torn with
  | nil => exact absurd (by rw [htorn]; exact List.take_nil) hne
  | cons bs more =>
    have himage : ¬ FooterImage (bs ++ (more.flatten ++ [])) := by
      rw [htorn] at hno
      exact (noFooterImages_drop hno).1
    rw [List.flatten_cons, List.append_assoc]
    exact scanStep_torn_frame (hframes bs (by simp [htorn])) himage (hm bs more htorn) offset

/-- **An open segment after a crash**: recovery leaves the frames that are whole, and they are
read back. No frame that ends in front of the cut is missing.
SOURCE: recorder.c:2222-2277, segment.c:543-738 -/
theorem OpenFile.readBack_cut {w : PriorityWriter} (h : OpenFile env config w f)
    (evpLaws : EvpLaws env.evp) (laws : ChunkLaws env codec)
    (hsmall : ∀ key t gi, dataOffset env.evp key config.encryption (groupDict env config t gi) <
      2 ^ 32)
    (hreadable : FramesReadable env config f) {io : RecoveryIo} (hio : Mappable io)
    (indexOk : Bool) {c : Bytes} (hcut : c <+: f.content) :
    ∃ k ≤ f.frames.length,
      readBack env.evp codec (recoverSegmentFile env.evp codec io indexOk c).content =
        (f.frames.take k).map (storedChunk env config) ∧
      ∀ j ≤ f.frames.length, framesEnd f j ≤ c.length → j ≤ k := by
  obtain ⟨key, images, frames, h, -⟩ := h
  have hdict : dataOffset env.evp key config.encryption f.dict < 2 ^ 32 := by
    obtain ⟨t, gi, hdict⟩ := h.dict
    rw [hdict]
    exact hsmall key t gi
  obtain ⟨info, spec⟩ : ∃ info, HeadSpec env.evp key (newEncryptor config).isSome f.header f.dict
      (headWrite env config key f).written info :=
    segmentWriteHeader_headSpec evpLaws h.header.boot h.header.timezone h.head_ok
  rw [newEncryptor_isSome] at spec
  have hkey : (frameKey config key).isSome = config.encryption := by
    unfold frameKey
    cases config.encryption <;> rfl
  obtain ⟨hframes, -⟩ := writeFrames_spec env.evp evpLaws _ _ 0
    (headWrite env config key f).written.length images h.written
  rw [hkey] at hframes
  have hends : ∀ j ≤ f.frames.length, framesEnd f j = (headWrite env config key f).written.length +
      (images.take j).flatten.length := fun j => h.framesEnd_eq
  have hoffsets := h.offsets
  have hcontent := h.content
  set head := (headWrite env config key f).written
  by_cases hshort : c.length < head.length
  · -- the crash cut the header
    refine ⟨0, Nat.zero_le _, ?_, ?_⟩
    · have htake : c = head.take c.length := by
        rw [← List.take_append_of_le_length hshort.le, ← hcontent]
        exact List.prefix_iff_eq_take.mp hcut
      rw [htake]
      exact readBack_of_no_header (spec.parse_short hdict hshort)
    · intro j hj hend
      rw [hends j hj] at hend
      omega
  · -- the frames in front of the cut
    obtain ⟨whole, torn, hsplit, hwhole, htorn⟩ :=
      exists_whole_frames c.length images head.length (Nat.le_of_not_lt hshort)
    have hcount : whole.length ≤ images.length := by
      rw [hsplit, List.length_append]
      omega
    have hno : NoFooterImages (whole ++ torn) [] := by
      rw [← hsplit]
      refine noFooterImages_of_offsets images f.content head.length ?_ ?_
      · rw [hcontent, List.drop_left]
      · rw [← hoffsets]
        intro o ho
        obtain ⟨frame, hframe, rfl⟩ := List.mem_map.mp ho
        exact hreadable.noFooter frame hframe
    set m := c.length - (head.length + whole.flatten.length) with hm
    have hc : c = head ++ (whole.flatten ++ (torn.flatten ++ []).take m) := by
      have hn : c.length = head.length + (whole.flatten.length + m) := by omega
      rw [List.prefix_iff_eq_take.mp hcut, hn, hcontent, hsplit, List.flatten_append,
        List.append_assoc, List.take_length_add_append, List.take_length_add_append]
    have hstops : Torn config.encryption ((torn.flatten ++ []).take m) := by
      rw [hsplit] at hframes
      apply torn_take hframes hno
      intro bs rest h
      have hlt := htorn bs rest h
      omega
    have hfront := h.written_take evpLaws hcount
    rw [show images.take whole.length = whole by rw [hsplit, List.take_left]] at hfront
    have hdecodes : ∀ frame ∈ frames.take whole.length, FrameDecodes codec
        { f.header with dictLen := UInt32.ofNat f.dict.length } f.dict frame :=
      fun frame hframe => h.decodes laws spec.dict_le hreadable frame (List.mem_of_mem_take hframe)
    have hcalls := expectedDeliveries_of_frameDecodes config.encryption hdecodes head.length
    refine ⟨whole.length, ?_, ?_, ?_⟩
    · rw [← h.length_images]
      exact hcount
    · rw [hc, spec.readBack_torn evpLaws hdict hfront (noFooterImages_take m torn whole hno) hstops
        hcalls hio, h.handedOut_take evpLaws]
    · intro j hj hend
      rw [hends j hj] at hend
      rw [← h.length_images] at hj
      exact CutAt.le_whole ⟨hsplit, hwhole, htorn⟩ hframes hj hend

end File

/-! ## A group -/

/-- **A group after a crash** that cut its open segment `f` to `c`: closed segments are as they
were, the first `k` frames of `f` are read back, and these are the entries of the group without
the last frames and the chunk in memory. All frames are there if the group is durable, else
fewer than `durability_flush_frames` are missing. -/
structure CrashOutcome (env : RecorderEnv) (config : RecorderConfig) (codec : CodecOps)
    (io : RecoveryIo) (indexOk : Bool) (r : RecorderState) (gi : ℕ) (f : SegmentOnDisk)
    (c : Bytes) (k : ℕ) : Prop where
  count : k ≤ f.frames.length
  closed : ∀ g ∈ r.closed,
    (recoverSegmentFile env.evp codec io indexOk g.content).content = some g.content ∧
      ∃ out calls, ScansBack env config codec g out calls
  readBack : readBack env.evp codec (recoverSegmentFile env.evp codec io indexOk c).content =
    (f.frames.take k).map (storedChunk env config)
  entries : ((r.closed.filter (·.group = (config.group gi).name)).flatMap segmentEntries ++
      (f.frames.take k).flatMap (·.entries)) ++
        ((f.frames.drop k).flatMap (·.entries) ++ (r.writers gi).chunk) =
    routedTo config gi (acceptedEntries r)
  durable : (config.group gi).durablePerFrame = true → k = f.frames.length
  batched : (config.group gi).durabilityFlushFrames ≠ 0 →
    (config.group gi).durabilityFlushFrames ≤ uint32Max →
      f.frames.length - k < (config.group gi).durabilityFlushFrames

section Group

variable {env : RecorderEnv} {config : RecorderConfig} {codec : CodecOps}

/-- A scanned segment comes through recovery as it is. -/
theorem ScansBack.recovered {f : SegmentOnDisk} {out : ScanOut}
    {calls : List (SegmentFrameInfo × Bytes)} (h : ScansBack env config codec f out calls)
    {io : RecoveryIo} (hio : Mappable io) (indexOk : Bool) :
    (recoverSegmentFile env.evp codec io indexOk f.content).content = some f.content := by
  have hne : f.content.length ≠ 0 := by
    obtain ⟨_, _, _, _, hparse, -⟩ := (metadataScan_eq_ok_iff _ _ _ _).mp h.metadata
    exact length_ne_zero_of_parse hparse
  rcases recoverSegmentFile_of_ok indexOk hne hio h.metadata with hkept | ⟨-, hlt⟩
  · exact hkept
  · rw [h.committedEnd] at hlt
    exact absurd hlt (Nat.lt_irrefl _)

/-- **Synced frames survive a crash.** In every run without failures and removals, whatever a
crash leaves of the open segment of a group behind its last `fsync`, startup recovery and a
reader with the key get back a first part of the entries accepted for the group, in their order,
and all entries of the synced frames.
SOURCE: recorder.c:2205-2282, 3561-3676, segment.c:543-738 -/
theorem crash_keeps_synced (evpLaws : EvpLaws env.evp) (laws : ChunkLaws env codec)
    (hsmall : ∀ key t gi, dataOffset env.evp key config.encryption (groupDict env config t gi) <
      2 ^ 32)
    {journal : List LogEntry} (hroom : RoomForBoots journal) (horder : JournalInOrder journal)
    (calls : List RecorderCall) {start : RecorderState} (hstart : FreshRecorder start)
    (hok : (recorderRun env config journal calls start).history.failed = false)
    (hkeeps : (recorderRun env config journal calls start).history.passes = [])
    (hcount : 1 + segmentCount config (recorderRun env config journal calls start) < 2 ^ 64)
    {gi : ℕ} (hgi : gi < config.groups.length) {f : SegmentOnDisk}
    (hfile : ((recorderRun env config journal calls start).writers gi).file = some f)
    (hreadable : ∀ g ∈ f :: (recorderRun env config journal calls start).closed,
      FramesReadable env config g)
    {io : RecoveryIo} (hio : Mappable io) (indexOk : Bool) {c : Bytes}
    (hcrash : CrashImage ((recorderRun env config journal calls start).writers gi) f c) :
    ∃ k, ((recorderRun env config journal calls start).writers gi).syncedFrames ≤ k ∧
      CrashOutcome env config codec io indexOk (recorderRun env config journal calls start) gi f c
        k := by
  have hnone : ∀ gj g, (start.writers gj).file ≠ some g := by
    intro gj g hg
    rw [hstart.files gj] at hg
    cases hg
  have hinit : FilesInv env config start.closed start :=
    ⟨fun gj g hg => absurd hg (hnone gj g), fun g hg => .inl hg⟩
  have hfiles := (files_rule env config evpLaws journal start.closed).run calls (fun _ => hinit) hok
  have hsynced := (synced_rule env config journal).run calls
    (fun _ gj g hg => absurd hg (hnone gj g)) hok gi f hfile
  have hcontents := ((contents_rule env config hroom horder).run calls
    ⟨fun _ _ => hstart.keyInv, fun _ _ _ => hstart.contentsInv⟩).2 hok hkeeps hcount
  have hscanned := closed_segments_scan env config codec evpLaws laws hsmall journal calls start
    hstart.toRecorderStarted hok
  set r := recorderRun env config journal calls start
  obtain ⟨k, hk, hread, hall⟩ := (hfiles.opened gi f hfile).readBack_cut evpLaws laws hsmall
    (hreadable f List.mem_cons_self) hio indexOk hcrash.cut
  have hle : (r.writers gi).syncedFrames ≤ k := by
    have hlength := hcrash.synced
    unfold syncedLength at hlength
    split at hlength
    · next hzero =>
      rw [hzero]
      exact Nat.zero_le _
    · exact hall _ hsynced.synced_le hlength
  refine ⟨k, hle, hk, ?_, hread, ?_, ?_, ?_⟩
  · intro g hg
    have hnew : g ∉ start.closed := by
      rw [hstart.closed]
      exact List.not_mem_nil
    obtain ⟨out, handed, hback⟩ := hscanned g hg hnew (hreadable g (List.mem_cons_of_mem _ hg))
    exact ⟨hback.recovered hio indexOk, out, handed, hback⟩
  · have hentries := (hcontents.groups gi hgi).entries
    have htaken : takenEntries .idle r = acceptedEntries r := List.append_nil _
    rw [groupFiles_of_open hfile, List.flatMap_append, List.flatMap_singleton, htaken] at hentries
    rw [← hentries, List.append_assoc, List.append_assoc]
    congr 1
    rw [← List.append_assoc, ← List.flatMap_append, List.take_append_drop]
    rfl
  · intro hdurable
    have hzero := hsynced.durable hdurable
    rw [framesBehindSync] at hzero
    omega
  · intro hset hmax
    have hlt := hsynced.batched hset hmax
    rw [framesBehindSync] at hlt
    omega

end Group

/-! ## A crash -/

/-- The group for errors is synced with every frame, the other one with every other frame. -/
def syncedGroups : RecorderConfig where
  groups := [{ name := [108, 111, 103], durabilityFlushFrames := 2 },
    { name := [101, 114, 114], durablePerFrame := true }]
  priorityToGroup := errorGroups.priorityToGroup
  priorityToGroup_lt := errorGroups.priorityToGroup_lt
  names_nodup := errorGroups.names_nodup

/-- The journal gives no cursors, so that a step ends behind the entry it has stored. -/
def noCursors (_ : ℕ) (op : IoOp) : IoOutcome := if op = .journalCursor then .fail 0 .eio else .ok

/-- Three entries for the first group. -/
def threeMessages : List LogEntry :=
  [messageEntry, { messageEntry with monotonicTs := 8 }, { messageEntry with monotonicTs := 9 }]

/-- Each entry is flushed before the next one is read. -/
def threeFlushes : List RecorderCall := [.step, .flushAll, .step, .flushAll, .step, .flushAll]

/-- The open segment of the group has three frames behind them, two of which are synced. -/
def threeFrameRun : RecorderState :=
  recorderRun (plainEnv noCursors) syncedGroups threeMessages threeFlushes {}

theorem threeFrameRun_segments : segmentCount syncedGroups threeFrameRun = 1 := by decide +kernel

/-- What a crash leaves that takes the last ten bytes of the third frame. -/
def tornImage (f : SegmentOnDisk) : Bytes := f.content.take (f.content.length - 10)

/-- **A crash tears the last frame**: the two synced frames are read back, and the third one is
not. -/
theorem crash_keeps_synced_torn :
    ∃ f, (threeFrameRun.writers 0).file = some f ∧ (threeFrameRun.writers 0).syncedFrames = 2 ∧
      f.frames.length = 3 ∧ (tornImage f).length + 10 = f.content.length ∧
      CrashOutcome (plainEnv noCursors) syncedGroups plainCodec allOk true threeFrameRun 0 f
        (tornImage f) 2 := by
  have hopen : (threeFrameRun.writers 0).file.isSome = true := by decide +kernel
  obtain ⟨f, hfile⟩ := Option.isSome_iff_exists.mp hopen
  have hmem : f ∈ (threeFrameRun.writers 0).file.toList := by simp [hfile]
  have hframes : f.frames.length = 3 ∧ (tornImage f).length + 10 = f.content.length ∧
      syncedLength (threeFrameRun.writers 0) f ≤ (tornImage f).length := by
    have hall : ∀ g ∈ (threeFrameRun.writers 0).file.toList, g.frames.length = 3 ∧
        (tornImage g).length + 10 = g.content.length ∧
        syncedLength (threeFrameRun.writers 0) g ≤ (tornImage g).length := by decide +kernel
    exact hall f hmem
  have hread : (readBack noEvp plainCodec
      (recoverSegmentFile noEvp plainCodec allOk true (tornImage f)).content).length = 2 := by
    have hall : ∀ g ∈ (threeFrameRun.writers 0).file.toList, (readBack noEvp plainCodec
        (recoverSegmentFile noEvp plainCodec allOk true (tornImage g)).content).length = 2 := by
      decide +kernel
    exact hall f hmem
  have hfooter : ∀ g ∈ f :: threeFrameRun.closed, ∀ frame ∈ g.frames,
      footerAt (g.content.drop frame.offset) = none := by
    have hall : ∀ g ∈ (threeFrameRun.writers 0).file.toList ++ threeFrameRun.closed,
        ∀ frame ∈ g.frames, footerAt (g.content.drop frame.offset) = none := by decide +kernel
    rw [hfile] at hall
    exact hall
  have hreadable : ∀ g ∈ f :: threeFrameRun.closed,
      FramesReadable (plainEnv noCursors) syncedGroups g := by
    intro g hg
    refine ⟨fun frame hframe => (footerAt_eq_none_iff _).mp (hfooter g hg frame hframe), ?_⟩
    rintro frame hframe ⟨henabled, -⟩
    cases henabled
  have hinOrder : JournalInOrder threeMessages :=
    journalInOrder_of_boot (show ∀ e ∈ _, LogEntry.bootId e = [98] by decide) (by decide)
      (by decide) (by decide)
  have hsynced : (threeFrameRun.writers 0).syncedFrames = 2 := by decide +kernel
  have hio : Mappable allOk := fun _ h => by cases h
  obtain ⟨hcount, hlength, hcovered⟩ := hframes
  refine ⟨f, hfile, hsynced, hcount, hlength, ?_⟩
  have hsegments := threeFrameRun_segments
  rw [threeFrameRun] at hfile hreadable hcovered hsegments ⊢
  obtain ⟨k, -, houtcome⟩ := crash_keeps_synced noEvp_laws (plainEnv_laws noCursors)
    (plainEnv_small rfl) ⟨by decide, by decide⟩ hinOrder threeFlushes errorRun_started
    (by decide +kernel) (List.length_eq_zero_iff.mp (by decide +kernel))
    (by rw [hsegments]; omega) (by decide) hfile hreadable hio true
    ⟨List.take_prefix _ _, hcovered⟩
  have hk : k = 2 := by
    have hlen := congrArg List.length houtcome.readBack
    rw [List.length_map, List.length_take, hcount] at hlen
    have htwo : min k 3 = 2 := hlen.symm.trans hread
    omega
  rw [hk] at houtcome
  exact houtcome

end Recorder.Analysis
