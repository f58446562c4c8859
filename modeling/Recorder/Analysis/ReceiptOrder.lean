import Mathlib.Data.List.Pairwise
import Recorder.Analysis.EntryStorage
import Recorder.Analysis.GroupContents
import Recorder.Analysis.Iterator
import Recorder.Analysis.RecordedFiles

/-!
# Recorded order is receipt order

A reader scans the bytes of the segment files a run leaves behind (`closed_segments_scan`) and
merges one stream for each group. The stream of a group are the entries accepted for it
(`group_contents`), in the order of their keys (`accepted_keys_increase`). The merge in
`RECORDER_ORDER_RECORDED` is sorted by the keys, and there is one arrangement of the accepted
entries that is: the order in which the recorder received them.

**Main result**: `reading_returns_accepted`.
-/

set_option autoImplicit false

namespace Recorder.Analysis

open Recorder.Model Recorder.Lib

/-! ## What a reader sees of an entry -/

/-- The fields of an entry that are serialised. -/
def LogEntry.fields (e : LogEntry) : EntryFields where
  realtimeTs := e.realtimeTs
  monotonicTs := e.monotonicTs
  monotonicTieOrder := e.monotonicTieOrder
  pid := e.pid
  uid := e.uid
  gid := e.gid
  priority := UInt8.ofNat e.priority
  errnoValue := e.errnoValue
  texts := e.texts
  extraFields := e.extraFields

/-- The number of the boot and the data of an entry, as the recorder has them. -/
def recordedView (e : LogEntry) : UInt32 × EntryData := (e.bootSeq, entryData (LogEntry.fields e))

/-- The same, as a reader has them. -/
def storedView (e : StoredEntry) : UInt32 × EntryData := (e.bootSeq, e.data)

/-- The key of what a reader sees. -/
def viewKey (v : UInt32 × EntryData) : RecordedKey :=
  ⟨v.1, v.2.monotonicTs, v.2.monotonicTieOrder⟩

/-- The comparison of views. -/
def compareViews (a b : UInt32 × EntryData) : Ordering := compareKeys (viewKey a) (viewKey b)

instance : Std.TransCmp compareViews where
  eq_swap := by
    intro a b
    unfold compareViews
    exact Std.OrientedCmp.eq_swap
  isLE_trans := by
    intro a b c
    unfold compareViews
    exact Std.TransCmp.isLE_trans

/-- `RECORDER_ORDER_RECORDED` compares the keys before the location. -/
theorem compareRecorded_eq (a b : StoredEntry) :
    compareRecorded a b =
      (compareViews (storedView a) (storedView b)).then (compareLocation a b) := by
  simp only [compareRecorded, compareViews, compareKeys, compareLex, compareOn, viewKey,
    storedView, Ordering.then_assoc]

/-! ## A segment file -/

/-- **A segment file as a reader finds it**: with the number of its boot, the entries of its
frames, and an index with a row for each frame. -/
structure ReadsAs (f : SegmentOnDisk) (s : StoreFile) : Prop where
  group : s.group = f.group
  nameSeq : s.nameSeq = f.nameSeq
  bootSeq : s.file.header.bootSeq = f.header.bootSeq
  frames : s.file.frames.map (·.entries) =
    f.frames.map fun frame => frame.entries.map fun e => entryData (LogEntry.fields e)
  index : s.file.index = some (s.file.frames.map indexRow)

section File

variable {f : SegmentOnDisk} {s : StoreFile}

theorem scanFrame_view (group : Bytes) (header : SegmentHeader) (frame : Model.ChunkFrame) :
    (scanFrame group header frame).map storedView = frame.entries.map (header.bootSeq, ·) := by
  rw [scanFrame]
  refine List.ext_getElem? fun i => ?_
  simp only [List.getElem?_map, List.getElem?_mapIdx, Option.map_map]
  exact Option.map_congr fun _ _ => rfl

theorem ReadsAs.usable (h : ReadsAs f s) : UsableIndex s := by
  intro rows hrows
  rw [h.index] at hrows
  exact (Option.some.inj hrows).symm

/-- A source delivers the entries of a segment with an index as they stand in the file. -/
theorem ReadsAs.stream (h : ReadsAs f s) : segmentStream s = s.fileEntries := by
  rw [segmentStream, h.index]
  rfl

/-- **The entries of a segment** are those the recorder put into its frames, because the header
has the number of their boot. -/
theorem ReadsAs.fileEntries (h : ReadsAs f s) (hheader : HeaderNumbers f) :
    s.fileEntries.map storedView = (segmentEntries f).map recordedView := by
  have hnumbered : (segmentEntries f).map recordedView =
      (segmentEntries f).map fun e => (f.header.bootSeq, entryData (LogEntry.fields e)) := by
    apply List.map_congr_left
    intro e he
    rw [recordedView, hheader.boot e he]
  calc s.fileEntries.map storedView
    _ = s.file.frames.flatMap fun frame => frame.entries.map (f.header.bootSeq, ·) := by
        rw [StoreFile.fileEntries, List.map_flatMap]
        simp only [scanFrame_view, h.bootSeq]
    _ = (s.file.frames.map (·.entries)).flatMap fun es => es.map (f.header.bootSeq, ·) := by
        rw [List.flatMap_map]
    _ = (segmentEntries f).map fun e => (f.header.bootSeq, entryData (LogEntry.fields e)) := by
        rw [h.frames, List.flatMap_map, segmentEntries, List.map_flatMap]
        simp only [List.map_map, Function.comp_def]
    _ = (segmentEntries f).map recordedView := hnumbered.symm

end File

/-! ## The bytes of a segment file -/

/-- **What a reader makes of the bytes of a segment file**: the header and the frames that a scan
hands out, each with the entries `scan_frame` finds in its chunk. -/
structure ScannedAs (evp : EvpOps) (codec : CodecOps) (readRoot : Bytes → ChunkRoot)
    (group content : Bytes) (file : SegmentFile) : Prop where
  scan : ∃ out calls, segmentScanPath evp codec content true (some recordCalls) [] =
      ⟨.ok out, calls⟩ ∧ out.header = file.header ∧
    List.Forall₂ (fun (call : SegmentFrameInfo × Bytes) (frame : Model.ChunkFrame) =>
      frame.fileOffset = UInt64.ofNat call.1.fileOffset ∧
      (scanFrameEntries group 0 file.header frame.fileOffset (readRoot call.2)).map
        (List.map RecorderEntry.stored) = some (scanFrame group file.header frame))
      calls file.frames

/-- The FlatBuffers getters return what was added to the chunks of a segment. -/
def ChunksRead (env : RecorderEnv) (config : RecorderConfig) (readRoot : Bytes → ChunkRoot)
    (f : SegmentOnDisk) : Prop :=
  ∀ frame ∈ f.frames, readRoot (env.chunkBytes (!config.fullEntries) frame.entries) =
    serializeChunk f.header (frame.entries.map LogEntry.fields)

section Bytes

variable {env : RecorderEnv} {config : RecorderConfig} {codec : CodecOps}
  {readRoot : Bytes → ChunkRoot} {f : SegmentOnDisk} {group : Bytes}

theorem scanFrame_data (group : Bytes) (header : SegmentHeader) (frame : Model.ChunkFrame) :
    (scanFrame group header frame).map (·.data) = frame.entries := by
  have hviews := congrArg (List.map Prod.snd) (scanFrame_view group header frame)
  rw [List.map_map, List.map_map] at hviews
  exact hviews.trans (List.map_id _)

/-- The data of the entries a serialised chunk is read back as. -/
theorem scanFrameEntries_data (group : Bytes) {header header' : SegmentHeader}
    (hflags : header'.flags = header.flags) (offset : UInt64) (entries : List EntryFields) :
    ((scanFrameEntries group 0 header' offset (serializeChunk header entries)).map
      (List.map RecorderEntry.stored)).map (List.map (·.data)) =
        some (entries.map entryData) := by
  have hmin : ¬ offset < 0 := UInt64.not_lt.mpr UInt64.zero_le
  have hdata : ∀ (base : RecorderEntry), (entries.mapIdx fun j entry =>
      storedAt base entry (0 + j)).map (·.data) = entries.map entryData := by
    intro base
    refine List.ext_getElem? fun i => ?_
    simp only [List.getElem?_map, List.getElem?_mapIdx, Option.map_map]
    exact Option.map_congr fun _ _ => rfl
  unfold scanFrameEntries serializeChunk
  rw [if_neg hmin, hflags]
  cases hflag : header.flags &&& flagCompactEntries != 0 with
  | true =>
    simp only [if_true, Option.map_some, scanCompactLoop_stored, hdata]
  | false =>
    simp only [Bool.false_eq_true, if_false, Option.map_some, scanFullLoop_stored, hdata]

/-- **The entries of a segment are read back** where its bytes are scanned back. -/
theorem ScansBack.frames {out : ScanOut} {calls : List (SegmentFrameInfo × Bytes)}
    (h : ScansBack env config codec f out calls) (hchunks : ChunksRead env config readRoot f)
    {file : SegmentFile} (hscanned : ScannedAs env.evp codec readRoot group f.content file) :
    file.header.bootSeq = f.header.bootSeq ∧ file.frames.map (·.entries) =
      f.frames.map fun frame => frame.entries.map fun e => entryData (LogEntry.fields e) := by
  obtain ⟨out', calls', hscan, hheader, hframes⟩ := hscanned.scan
  rw [h.scan] at hscan
  obtain ⟨hout, rfl⟩ := ScanResult.mk.inj hscan
  obtain rfl := Except.ok.inj hout
  have hflags : file.header.flags = f.header.flags := by rw [← hheader, h.header]
  refine ⟨by rw [← hheader, h.header], ?_⟩
  have hbytes : calls.map (·.2) =
      f.frames.map fun frame => env.chunkBytes (!config.fullEntries) frame.entries := by
    have hsnd := congrArg (List.map Prod.snd) h.chunks
    rw [List.map_map, List.map_map] at hsnd
    exact hsnd
  have hroots : calls.map (readRoot ·.2) =
      f.frames.map fun frame => serializeChunk f.header (frame.entries.map LogEntry.fields) := by
    calc calls.map (readRoot ·.2)
      _ = (calls.map (·.2)).map readRoot := by rw [List.map_map]; rfl
      _ = f.frames.map fun frame => serializeChunk f.header
            (frame.entries.map LogEntry.fields) := by
          rw [hbytes, List.map_map]
          exact List.map_congr_left hchunks
  rw [← List.forall₂_eq_eq_eq, List.forall₂_map_left_iff, List.forall₂_map_right_iff] at hroots ⊢
  refine forall₂_trans hframes.flip hroots ?_
  rintro frame call written ⟨-, hentries⟩ hroot
  have hdata := scanFrameEntries_data group hflags frame.fileOffset
    (written.entries.map LogEntry.fields)
  rw [← hroot, hentries, Option.map_some, Option.some.injEq, scanFrame_data, List.map_map] at hdata
  exact hdata

end Bytes

/-! ## The entries in the segments -/

/-- The name of the group an entry goes to. -/
def entryGroup (config : RecorderConfig) (e : LogEntry) : Bytes :=
  (config.group (config.priorityToGroup e.priority)).name

section Contents

variable {config : RecorderConfig} {closed : List SegmentOnDisk} {es : List LogEntry}
  {f : SegmentOnDisk} {e : LogEntry}

theorem SegmentsHold.mem_iff (h : SegmentsHold config closed es) (hf : f ∈ closed) :
    HeaderNumbers f ∧ ∀ e ∈ segmentEntries f, entryGroup config e = f.group := by
  obtain ⟨gi, hgi, hgroup⟩ := h.named f hf
  have hmem : f ∈ closed.filter (·.group = (config.group gi).name) :=
    List.mem_filter.mpr ⟨hf, by simpa using hgroup⟩
  refine ⟨(h.groups gi hgi).headers f hmem, ?_⟩
  intro e he
  have hrouted : e ∈ routedTo config gi es := by
    rw [← (h.groups gi hgi).entries]
    exact List.mem_flatMap.mpr ⟨f, hmem, he⟩
  have hindex : config.priorityToGroup e.priority = gi := by
    simpa using (List.mem_filter.mp hrouted).2
  rw [entryGroup, hindex, hgroup]

/-- Selecting segments by their group is selecting entries by theirs. -/
theorem SegmentsHold.filter (h : SegmentsHold config closed es) (keep : Bytes → Bool) :
    (closed.filter fun f => keep f.group).flatMap segmentEntries =
      (closed.flatMap segmentEntries).filter fun e => keep (entryGroup config e) := by
  have hgroups : ∀ f ∈ closed, ∀ e ∈ segmentEntries f, entryGroup config e = f.group :=
    fun f hf => (h.mem_iff hf).2
  clear h
  induction closed with
  | nil => rfl
  | cons f closed ih =>
    have hrest := ih fun g hg => hgroups g (List.mem_cons_of_mem _ hg)
    have hfirst := hgroups f List.mem_cons_self
    rw [List.flatMap_cons, List.filter_append, ← hrest]
    cases hkeep : keep f.group with
    | true =>
      have hall : (segmentEntries f).filter (fun e => keep (entryGroup config e)) =
          segmentEntries f := by
        rw [List.filter_eq_self]
        intro e he
        rw [hfirst e he, hkeep]
      rw [List.filter_cons_of_pos (by simpa using hkeep), List.flatMap_cons, hall]
    | false =>
      have hnone : (segmentEntries f).filter (fun e => keep (entryGroup config e)) = [] := by
        rw [List.filter_eq_nil_iff]
        intro e he
        simp [hfirst e he, hkeep]
      rw [List.filter_cons_of_neg (by simp [hkeep]), hnone, List.nil_append]

/-- The segments together hold the entries, each once. -/
theorem SegmentsHold.perm (h : SegmentsHold config closed es) :
    (closed.flatMap segmentEntries).Perm es := by
  have hparts : ∀ l : List LogEntry,
      l.Perm ((List.range config.groups.length).flatMap fun gi => routedTo config gi l) := fun l =>
    perm_flatMap_filter (fun e : LogEntry => config.priorityToGroup e.priority) _
      List.nodup_range l fun e _ => List.mem_range.mpr (config.priorityToGroup_lt _)
  have hgroups : (List.range config.groups.length).flatMap
        (fun gi => routedTo config gi (closed.flatMap segmentEntries)) =
      (List.range config.groups.length).flatMap fun gi => routedTo config gi es := by
    apply List.flatMap_congr
    intro gi hgi
    have hlt := List.mem_range.mp hgi
    have hindex : ∀ e : LogEntry, decide (config.priorityToGroup e.priority = gi) =
        decide (entryGroup config e = (config.group gi).name) := by
      intro e
      rw [decide_eq_decide]
      constructor
      · intro he
        rw [entryGroup, he]
      · exact group_name_inj (config.priorityToGroup_lt _) hlt
    have hsegments := (h.groups gi hlt).entries
    rw [h.filter fun name => decide (name = (config.group gi).name)] at hsegments
    rw [← hsegments, routedTo]
    exact List.filter_congr fun e _ => hindex e
  calc closed.flatMap segmentEntries
    _ |>.Perm _ := hparts _
    _ = _ := hgroups
    _ |>.Perm es := (hparts es).symm

end Contents

/-! ## A store -/

/-- **The store a recorder leaves**: a log directory with the closed segments, which `readdir`
lists in any order. -/
structure ReadStore (readAs : SegmentOnDisk → StoreFile) (closed : List SegmentOnDisk)
    (store : Store) : Prop where
  directory : store.directory = true
  reads : ∀ f ∈ closed, ReadsAs f (readAs f)
  files : (closed.map readAs).Perm store.files

/-- Selected paths are sorted in one way only where their numbers increase. -/
theorem filter_sortPaths {paths sorted : List SegmentPath} {keep : SegmentPath → Bool}
    (hperm : sorted.Perm (paths.filter keep))
    (hincreasing : sorted.Pairwise fun p q => p.segmentSeq < q.segmentSeq) :
    (sortPaths paths).filter keep = sorted := by
  have hsorted : (sortPaths paths).Pairwise fun p q => p.segmentSeq ≤ q.segmentSeq :=
    List.pairwise_insertionSort _ _
  have hboth : ((sortPaths paths).filter keep).Perm sorted :=
    ((sortPaths_perm paths).filter keep).trans hperm.symm
  have hdiffer : ∀ p ∈ sorted, ∀ q ∈ sorted, p ≠ q → p.segmentSeq ≠ q.segmentSeq := by
    have : Std.Symm fun p q : SegmentPath => p.segmentSeq ≠ q.segmentSeq :=
      ⟨fun _ _ h => h.symm⟩
    intro p hp q hq
    exact (hincreasing.imp fun h => UInt64.ne_of_lt h).forall hp hq
  refine hboth.eq_of_pairwise ?_ (hsorted.filter keep)
    (hincreasing.imp fun h => UInt64.le_of_lt h)
  intro p q hp hq hpq hqp
  by_contra hne
  exact hdiffer p (hboth.mem_iff.mp hp) q hq hne (UInt64.le_antisymm hpq hqp)

section Streams

variable {readAs : SegmentOnDisk → StoreFile} {config : RecorderConfig}
  {closed : List SegmentOnDisk} {es : List LogEntry} {store : Store} {filter : List Bytes}

/-- The path `collect_segment_paths` makes for a file of a log directory. -/
def directoryPath (s : StoreFile) : SegmentPath := ⟨s, s.nameSeq⟩

theorem ReadStore.usable (h : ReadStore readAs closed store) : UsableIndexes store := by
  intro s hs
  obtain ⟨f, hf, rfl⟩ := List.mem_map.mp (h.files.mem_iff.mpr hs)
  exact (h.reads f hf).usable

/-- Selecting files by group is selecting segments by group. -/
theorem ReadStore.filter_perm (h : ReadStore readAs closed store) (keep : Bytes → Bool) :
    ((closed.filter fun f => keep f.group).map readAs).Perm
      (store.files.filter fun s => keep s.group) := by
  have hmap : (closed.map readAs).filter (fun s => keep s.group) =
      (closed.filter fun f => keep f.group).map readAs := by
    rw [List.filter_map]
    congr 1
    apply List.filter_congr
    intro f hf
    rw [Function.comp_apply, (h.reads f hf).group]
  rw [← hmap]
  exact h.files.filter _

/-- **The paths of a group**, sorted as the reader sorts them. -/
theorem ReadStore.segments (h : ReadStore readAs closed store) {name : Bytes}
    (hallowed : groupAllowed filter name = true) (hsegments : GroupSegments name closed es) :
    (sortPaths (collectSegmentPaths store filter)).filter (·.file.group == name) =
      (closed.filter (·.group = name)).map fun f => directoryPath (readAs f) := by
  have hcollected : collectSegmentPaths store filter =
      (store.files.filter fun s => groupAllowed filter s.group).map directoryPath := by
    rw [collectSegmentPaths, h.directory, if_pos rfl]
    rfl
  apply filter_sortPaths
  · have hfiles : (store.files.filter fun s => groupAllowed filter s.group).filter
          (fun s => s.group == name) = store.files.filter fun s => decide (s.group = name) := by
      rw [List.filter_filter]
      apply List.filter_congr
      intro s _
      by_cases hname : s.group = name
      · simp [hname, hallowed]
      · simp [hname]
    rw [hcollected, List.filter_map, ← Function.comp_def directoryPath, ← List.map_map]
    have hperm := (h.filter_perm fun group => decide (group = name)).map directoryPath
    rw [← hfiles] at hperm
    exact hperm
  · rw [List.pairwise_map]
    refine hsegments.increasing.imp_of_mem ?_
    intro f g hf hg hlt
    have hf' := h.reads f (List.mem_filter.mp hf).1
    have hg' := h.reads g (List.mem_filter.mp hg).1
    rw [directoryPath, directoryPath, hf'.nameSeq, hg'.nameSeq]
    exact hlt

/-- **The stream of a group** are entries the recorder accepted, in their order. -/
theorem ReadStore.stream (h : ReadStore readAs closed store)
    (hsegments : SegmentsHold config closed es) {s : IteratorSource}
    (hs : s ∈ storeSources store filter) :
    ((sourceStream s).map storedView).Sublist (es.map recordedView) := by
  have hpaths := (storeSources_collected store filter).segments_eq s hs
  by_cases hempty : s.segments = []
  · rw [sourceStream, hempty]
    exact List.nil_sublist _
  obtain ⟨path, hpath⟩ := List.exists_mem_of_ne_nil _ hempty
  rw [hpaths, List.mem_filter] at hpath
  obtain ⟨hpath, hgroup⟩ := hpath
  have hfile : path.file ∈ store.files.filter fun s => groupAllowed filter s.group := by
    rw [← collectSegmentPaths_map_file]
    exact List.mem_map_of_mem ((sortPaths_perm _).mem_iff.mp hpath)
  obtain ⟨f, hf, hfpath⟩ := List.mem_map.mp
    ((h.filter_perm fun group => groupAllowed filter group).mem_iff.mpr hfile)
  obtain ⟨hf, hallowed⟩ := List.mem_filter.mp hf
  obtain ⟨gi, hgi, hname⟩ := hsegments.named f hf
  have hsgroup : s.group = (config.group gi).name := by
    rw [← hname, ← (h.reads f hf).group, hfpath]
    exact (beq_iff_eq.mp hgroup).symm
  rw [hname] at hallowed
  have hholds := hsegments.groups gi hgi
  have hstream : (sourceStream s).map storedView = (routedTo config gi es).map recordedView := by
    rw [sourceStream, hpaths, hsgroup, h.segments hallowed hholds, List.flatMap_map,
      List.map_flatMap, ← hholds.entries, List.map_flatMap]
    apply List.flatMap_congr
    intro g hg
    have hread := h.reads g (List.mem_filter.mp hg).1
    rw [directoryPath, hread.stream, hread.fileEntries (hholds.headers g hg)]
  rw [hstream, routedTo]
  exact List.filter_sublist.map _

/-- **The selected entries of the store** are the accepted entries of the selected groups. -/
theorem ReadStore.selected_perm (h : ReadStore readAs closed store)
    (hsegments : SegmentsHold config closed es) (filter : List Bytes) :
    ((selectedEntries store filter).map storedView).Perm
      ((es.filter fun e => groupAllowed filter (entryGroup config e)).map recordedView) := by
  have hviews : ((closed.filter fun f => groupAllowed filter f.group).map readAs).flatMap
        (fun s => s.fileEntries.map storedView) =
      ((closed.filter fun f => groupAllowed filter f.group).flatMap segmentEntries).map
        recordedView := by
    rw [List.flatMap_map, List.map_flatMap]
    apply List.flatMap_congr
    intro f hf
    have hmem := (List.mem_filter.mp hf).1
    exact (h.reads f hmem).fileEntries (hsegments.mem_iff hmem).1
  calc (selectedEntries store filter).map storedView
    _ = (store.files.filter fun s => groupAllowed filter s.group).flatMap
          fun s => s.fileEntries.map storedView := by rw [selectedEntries, List.map_flatMap]
    _ |>.Perm (((closed.filter fun f => groupAllowed filter f.group).map readAs).flatMap
          fun s => s.fileEntries.map storedView) :=
        (h.filter_perm fun group => groupAllowed filter group).symm.flatMap_right _
    _ = ((closed.flatMap segmentEntries).filter
          fun e => groupAllowed filter (entryGroup config e)).map recordedView := by
        rw [hviews, hsegments.filter]
    _ |>.Perm ((es.filter fun e => groupAllowed filter (entryGroup config e)).map recordedView) :=
        (hsegments.perm.filter _).map _

/-- **A sorted reading** of a store whose segments hold entries with increasing keys returns
these entries in their order. -/
theorem ReadStore.read_eq (h : ReadStore readAs closed store)
    (hsegments : SegmentsHold config closed es)
    (hkeys : es.Pairwise fun a b => compareKeys (entryKey a) (entryKey b) = .lt)
    {out : List StoredEntry}
    (hrun : MergeRun (compareIteratorEntries .recorded) (storeStreams store filter) out) :
    out.map storedView =
      (es.filter fun e => groupAllowed filter (entryGroup config e)).map recordedView := by
  have hviews : (es.map recordedView).Pairwise fun a b => compareViews a b = .lt := by
    rw [List.pairwise_map]
    exact hkeys
  have hsorted : SortedBy compareRecorded out := by
    refine hrun.sorted ?_
    intro l hl
    obtain ⟨s, hs, rfl⟩ := List.mem_map.mp hl
    have hstream := hviews.sublist (h.stream hsegments hs)
    rw [List.pairwise_map] at hstream
    refine hstream.imp ?_
    intro a b hlt
    rw [compareIteratorEntries, compareRecorded_eq, hlt]
    rfl
  have hout : SortedBy compareViews (out.map storedView) := by
    rw [SortedBy, List.pairwise_map]
    refine hsorted.imp ?_
    intro a b hle
    rw [compareRecorded_eq, Ordering.isLE_then_iff_and] at hle
    exact hle.1
  have hselected := hviews.sublist
    (List.filter_sublist (p := fun e => groupAllowed filter (entryGroup config e))
      (l := es) |>.map recordedView)
  have hperm : (out.map storedView).Perm
      ((es.filter fun e => groupAllowed filter (entryGroup config e)).map recordedView) :=
    (hrun.perm.map _).trans ((storeStreams_perm.map _).trans (h.selected_perm hsegments filter))
  exact ((sortedBy_of_strict hselected).eq_of_perm hout (distinguishes_of_strict hselected)
    hperm.symm).symm

end Streams

/-- **The directory a run leaves**, as a reader finds it: the closed segments in any order, their
bytes scanned, and an index with a row for each frame of a segment. -/
structure ScannedStore (evp : EvpOps) (codec : CodecOps) (readRoot : Bytes → ChunkRoot)
    (readAs : SegmentOnDisk → StoreFile) (closed : List SegmentOnDisk) (store : Store) : Prop where
  directory : store.directory = true
  files : (closed.map readAs).Perm store.files
  group : ∀ f ∈ closed, (readAs f).group = f.group
  nameSeq : ∀ f ∈ closed, (readAs f).nameSeq = f.nameSeq
  scanned : ∀ f ∈ closed, ScannedAs evp codec readRoot f.group f.content (readAs f).file
  indexed : ∀ f ∈ closed, (readAs f).file.index = some ((readAs f).file.frames.map indexRow)

theorem ScannedStore.readStore {env : RecorderEnv} {config : RecorderConfig} {codec : CodecOps}
    {readRoot : Bytes → ChunkRoot} {readAs : SegmentOnDisk → StoreFile}
    {closed : List SegmentOnDisk} {store : Store}
    (h : ScannedStore env.evp codec readRoot readAs closed store)
    (hscan : ∀ f ∈ closed, ∃ out calls, ScansBack env config codec f out calls)
    (hchunks : ∀ f ∈ closed, ChunksRead env config readRoot f) :
    ReadStore readAs closed store := by
  refine ⟨h.directory, ?_, h.files⟩
  intro f hf
  obtain ⟨out, calls, hback⟩ := hscan f hf
  obtain ⟨hboot, hframes⟩ := hback.frames (hchunks f hf) (h.scanned f hf)
  exact ⟨h.group f hf, h.nameSeq f hf, hboot, hframes, h.indexed f hf⟩

/-! ## Reading a segment back -/

/-- A segment whose offsets and lengths a reader's types hold. -/
structure ReadBackable (f : SegmentOnDisk) : Prop where
  increasing : (f.frames.map (·.offset)).Pairwise (· < ·)
  inside : ∀ frame ∈ f.frames, frame.offset < f.content.length ∧ frame.entries.length < 2 ^ 32
  content : f.content.length < 2 ^ 63
  frames : f.frames.length < 2 ^ 63

instance (f : SegmentOnDisk) : Decidable (ReadBackable f) :=
  decidable_of_iff ((f.frames.map (·.offset)).Pairwise (· < ·) ∧
    (∀ frame ∈ f.frames, frame.offset < f.content.length ∧ frame.entries.length < 2 ^ 32) ∧
    f.content.length < 2 ^ 63 ∧ f.frames.length < 2 ^ 63)
    ⟨fun h => ⟨h.1, h.2.1, h.2.2.1, h.2.2.2⟩, fun h => ⟨h.1, h.2, h.3, h.4⟩⟩

/-- The frame a reader finds. -/
def readFrame (frame : WrittenFrame) (h : frame.entries.length < 2 ^ 32) : Model.ChunkFrame where
  fileOffset := UInt64.ofNat frame.offset
  entries := frame.entries.map fun e => entryData (LogEntry.fields e)
  length_lt := by rw [List.length_map]; exact h

theorem toNat_offset {offset length : ℕ} (h : offset < length) (hlength : length < 2 ^ 63) :
    (UInt64.ofNat offset).toNat = offset := by
  rw [UInt64.toNat_ofNat', Nat.mod_eq_of_lt (by omega)]

/-- The file a reader finds, with its index. -/
def readFile (f : SegmentOnDisk) (h : ReadBackable f) : SegmentFile where
  header := { f.header with dictLen := UInt32.ofNat f.dict.length }
  frames := f.frames.pmap readFrame fun frame hframe => (h.inside frame hframe).2
  footer := f.footer
  index := some ((f.frames.pmap readFrame fun frame hframe => (h.inside frame hframe).2).map
    indexRow)
  committedEnd := UInt64.ofNat f.content.length
  offsets_lt := by
    rw [List.pairwise_pmap]
    have hpairs := List.pairwise_map.mp h.increasing
    refine hpairs.imp_of_mem ?_
    intro a b ha hb hlt _ _
    rw [UInt64.lt_iff_toNat_lt, readFrame, readFrame, toNat_offset (h.inside a ha).1 h.content,
      toNat_offset (h.inside b hb).1 h.content]
    exact hlt
  offset_lt_end := by
    intro frame hframe
    obtain ⟨a, ha, rfl⟩ := List.mem_pmap.mp hframe
    have hinside := (h.inside a ha).1
    have hcontent := h.content
    rw [UInt64.lt_iff_toNat_lt, readFrame, toNat_offset hinside h.content, UInt64.toNat_ofNat',
      Nat.mod_eq_of_lt (by omega)]
    exact hinside
  length_lt := by rw [List.length_pmap]; exact h.frames

theorem forall₂_pmap_right {α β γ : Type} {R : α → β → Prop} {S : α → γ → Prop} {P : β → Prop}
    {g : ∀ b, P b → γ} {as : List α} {bs : List β} (h : List.Forall₂ R as bs)
    (hall : ∀ b ∈ bs, P b) (hstep : ∀ a b hb, b ∈ bs → R a b → S a (g b hb)) :
    List.Forall₂ S as (bs.pmap g hall) := by
  induction h with
  | nil => exact .nil
  | @cons a b as bs hab _ ih =>
    rw [List.pmap_cons]
    exact .cons (hstep a b _ List.mem_cons_self hab)
      (ih _ fun a b hb hmem => hstep a b hb (List.mem_cons_of_mem _ hmem))

/-- **Segments within the limits are read back**: a reader of the bytes finds this file. -/
theorem ScansBack.scannedAs {env : RecorderEnv} {config : RecorderConfig} {codec : CodecOps}
    {readRoot : Bytes → ChunkRoot} {f : SegmentOnDisk} {out : ScanOut}
    {calls : List (SegmentFrameInfo × Bytes)} (h : ScansBack env config codec f out calls)
    (hchunks : ChunksRead env config readRoot f) (hfits : ReadBackable f) :
    ScannedAs env.evp codec readRoot f.group f.content (readFile f hfits) := by
  refine ⟨out, calls, h.scan, h.header, ?_⟩
  have hpairs : List.Forall₂ (fun (call : SegmentFrameInfo × Bytes) (frame : WrittenFrame) =>
      handedOut call = (frame.offset, env.chunkBytes (!config.fullEntries) frame.entries))
      calls f.frames := by
    have hcalls := h.chunks
    rw [← List.forall₂_eq_eq_eq, List.forall₂_map_left_iff, List.forall₂_map_right_iff] at hcalls
    exact hcalls
  refine forall₂_pmap_right hpairs _ ?_
  intro call frame hframe hmem hcall
  obtain ⟨hoffset, hchunk⟩ := Prod.mk.inj hcall
  refine ⟨congrArg UInt64.ofNat hoffset.symm, ?_⟩
  rw [hchunk, hchunks frame hmem]
  have hentries : (readFrame frame hframe).entries =
      (frame.entries.map LogEntry.fields).map entryData := by
    rw [List.map_map]
    rfl
  exact scanFrame_of_serialized f.group (readFile f hfits).header _ _ hentries

section Main

variable (env : RecorderEnv) (config : RecorderConfig) {codec : CodecOps}
  {readRoot : Bytes → ChunkRoot}

/-- **The bytes of a group's segments hold its entries.** The chunks that scans of the closed
segments of a group hand out, in the order of the numbers of the segments, are the entries
accepted for the group, cut into chunks.
SOURCE: recorder.c:3395-3747, 3954-4005, segment.c:543-738 -/
theorem group_segments_scan (evpLaws : EvpLaws env.evp) (laws : ChunkLaws env codec)
    (hsmall : ∀ key t gi, dataOffset env.evp key config.encryption (groupDict env config t gi) <
      2 ^ 32)
    {journal : List LogEntry} (hroom : RoomForBoots journal) (horder : JournalInOrder journal)
    (calls : List RecorderCall) {start : RecorderState} (hstart : FreshRecorder start)
    (hok : (recorderRun env config journal calls start).history.failed = false)
    (hkeeps : (recorderRun env config journal calls start).history.passes = [])
    (hclosed : ∀ gi < config.groups.length,
      ((recorderRun env config journal calls start).writers gi).file = none)
    (hcount : 1 + (recorderRun env config journal calls start).closed.length < 2 ^ 64)
    (hreadable : ∀ f ∈ (recorderRun env config journal calls start).closed,
      FramesReadable env config f) :
    ∀ gi < config.groups.length, ∃ (segments : List SegmentOnDisk) (chunks : List (List LogEntry)),
      segments.Perm ((recorderRun env config journal calls start).closed.filter
        (·.group = (config.group gi).name)) ∧
      segments.Pairwise (fun f g => f.nameSeq < g.nameSeq) ∧
      segments.flatMap (fun f => (segmentScanPath env.evp codec f.content true
        (some recordCalls) []).ctx.map (·.2)) =
          chunks.map (env.chunkBytes (!config.fullEntries)) ∧
      chunks.flatten =
        routedTo config gi (acceptedEntries (recorderRun env config journal calls start)) := by
  have hsegments := group_contents env config hroom horder calls hstart hok hkeeps hclosed hcount
  intro gi hgi
  obtain ⟨hentries, hincreasing, -⟩ := hsegments.groups gi hgi
  refine ⟨_, ((recorderRun env config journal calls start).closed.filter
    (·.group = (config.group gi).name)).flatMap fun f => f.frames.map (·.entries),
    List.Perm.refl _, hincreasing, ?_, ?_⟩
  · rw [List.map_flatMap]
    apply List.flatMap_congr
    intro f hf
    have hmem := (List.mem_filter.mp hf).1
    have hnew : f ∉ start.closed := by
      rw [hstart.closed]
      exact List.not_mem_nil
    obtain ⟨out, handed, hback⟩ := closed_segments_scan env config codec evpLaws laws hsmall
      journal calls start hstart.toRecorderStarted hok f hmem hnew (hreadable f hmem)
    have hchunks := congrArg (List.map Prod.snd) hback.chunks
    rw [List.map_map, List.map_map] at hchunks
    rw [hback.scan, List.map_map]
    exact hchunks
  · rw [← hentries, List.flatten_eq_flatMap, List.flatMap_assoc]
    apply List.flatMap_congr
    intro f _
    rw [segmentEntries, List.flatMap_map]
    rfl

end Main

/-! ## A run -/

/-- Two groups, one of them for errors. -/
def errorGroups : RecorderConfig where
  groups := [{ name := [108, 111, 103] }, { name := [101, 114, 114] }]
  priorityToGroup p := if p.val ≤ 3 then 1 else 0
  priorityToGroup_lt p := by split <;> decide
  names_nodup := by decide

/-- An error behind `messageEntry`, with an older realtime. -/
def errorEntry : LogEntry :=
  { messageEntry with
    realtimeTs := 3
    monotonicTs := 8
    priority := ⟨3, by decide⟩
    texts := { message := some (List.replicate 32 66) } }

/-- The chunks of these two entries, by their messages. -/
def twoChunks (chunk : Bytes) : ChunkRoot :=
  .defaultChunk [serializeCompactEntry
    (LogEntry.fields (if chunk.head? = some 65 then messageEntry else errorEntry))]

/-- The file a reader finds, or an empty one. -/
def readAsFile (f : SegmentOnDisk) : StoreFile :=
  ⟨f.group, f.nameSeq, if h : ReadBackable f then readFile f h else
    ⟨f.header, [], none, none, 0, .nil, by simp, by decide⟩⟩

/-- These entries are received, and the recorder is shut down. -/
def errorRun : RecorderState :=
  recorderRun (plainEnv fun _ _ => .ok) errorGroups [messageEntry, errorEntry] [.step, .shutdown] {}

/-- The header of a plain segment without a dictionary is small. -/
theorem plainEnv_small {io : ℕ → IoOp → IoOutcome} {config : RecorderConfig}
    (hplain : config.encryption = false) (key : FreshKey) (t gi : ℕ) :
    dataOffset noEvp key config.encryption (groupDict (plainEnv io) config t gi) < 2 ^ 32 := by
  have hdict : groupDict (plainEnv io) config t gi = [] := by
    unfold groupDict
    split <;> rfl
  rw [hdict, hplain]
  simp [dataOffset]

/-- A journal of one boot, of fewer than 65536 entries. -/
theorem journalInOrder_of_boot {journal : List LogEntry} {id : Bytes}
    (hboot : ∀ e ∈ journal, e.bootId = id) (hpositive : ∀ e ∈ journal, e.monotonicTs ≠ 0)
    (htimes : journal.Pairwise fun a b => a.monotonicTs ≤ b.monotonicTs)
    (hlength : journal.length < 65536) : JournalInOrder journal where
  boots := by
    intro a between b hblock _ c hc
    exact (hboot c (hblock.subset (by simp [hc]))).trans (hboot a (hblock.subset (by simp))).symm
  positive := hpositive
  nondecreasing := by
    refine htimes.imp ?_
    intro a b hle _
    exact hle
  ties run hinfix _ := lt_of_le_of_lt hinfix.length_le hlength

theorem errorRun_inOrder : JournalInOrder [messageEntry, errorEntry] :=
  journalInOrder_of_boot (show ∀ e ∈ _, LogEntry.bootId e = [98] by decide) (by decide) (by decide)
    (by decide)

theorem errorRun_readable : ∀ f ∈ errorRun.closed, ReadBackable f ∧
    FramesReadable (plainEnv fun _ _ => .ok) errorGroups f ∧
    ChunksRead (plainEnv fun _ _ => .ok) errorGroups twoChunks f := by
  have hfits : ∀ f ∈ errorRun.closed, ReadBackable f := by decide +kernel
  have hfooter : ∀ f ∈ errorRun.closed, ∀ frame ∈ f.frames,
      footerAt (f.content.drop frame.offset) = none := by decide +kernel
  have hchunks : ∀ f ∈ errorRun.closed, ∀ frame ∈ f.frames,
      twoChunks ((plainEnv fun _ _ => .ok).chunkBytes (!errorGroups.fullEntries) frame.entries) =
        serializeChunk f.header (frame.entries.map LogEntry.fields) := by decide +kernel
  intro f hf
  refine ⟨hfits f hf, ⟨fun frame hframe => ?_, ?_⟩, hchunks f hf⟩
  · exact (footerAt_eq_none_iff _).mp (hfooter f hf frame hframe)
  · rintro frame hframe ⟨henabled, -⟩
    cases henabled

theorem errorRun_started : FreshRecorder {} := ⟨started_default, rfl, rfl, rfl, rfl, rfl, rfl⟩

theorem errorRun_length : errorRun.closed.length = 2 := by decide +kernel

/-- The directory it leaves. -/
def errorStore : Store where
  directory := true
  files := errorRun.closed.map readAsFile
  length_lt := by
    rw [List.length_map, errorRun_length]
    omega

theorem errorStore_scanned :
    ScannedStore noEvp plainCodec twoChunks readAsFile errorRun.closed errorStore := by
  refine ⟨rfl, ?_, fun f _ => rfl, fun f _ => rfl, ?_, ?_⟩
  · rw [errorStore]
  · intro f hf
    obtain ⟨hfits, hreadable, hchunks⟩ := errorRun_readable f hf
    obtain ⟨out, calls, hback⟩ := closed_segments_scan (plainEnv fun _ _ => .ok) errorGroups
      plainCodec noEvp_laws (plainEnv_laws _) (plainEnv_small rfl) [messageEntry, errorEntry]
      [.step, .shutdown] {} started_default (by decide +kernel) f hf List.not_mem_nil hreadable
    rw [readAsFile, dif_pos hfits]
    exact hback.scannedAs hchunks hfits
  · intro f hf
    rw [readAsFile, dif_pos (errorRun_readable f hf).1]
    rfl

theorem errorRun_closed :
    ∀ gi < errorGroups.groups.length, (errorRun.writers gi).file = none := by
  have hnone : ∀ gi < errorGroups.groups.length, (errorRun.writers gi).file.isNone := by
    decide +kernel
  exact fun gi hgi => Option.isNone_iff_eq_none.mp (hnone gi hgi)

/-- The segment of the group for errors has the error. -/
theorem group_segments_scan_errors :
    ∃ (segments : List SegmentOnDisk) (chunks : List (List LogEntry)),
      segments.Perm (errorRun.closed.filter (·.group = (errorGroups.group 1).name)) ∧
      segments.Pairwise (fun f g => f.nameSeq < g.nameSeq) ∧
      segments.flatMap (fun f => (segmentScanPath noEvp plainCodec f.content true
        (some recordCalls) []).ctx.map (·.2)) =
          chunks.map ((plainEnv fun _ _ => .ok).chunkBytes true) ∧
      chunks.flatten.map (·.realtimeTs) = [3] := by
  have hclosed := errorRun_closed
  rw [errorRun] at hclosed
  obtain ⟨segments, chunks, hperm, hincreasing, hscan, hentries⟩ := group_segments_scan
    (plainEnv fun _ _ => .ok) errorGroups noEvp_laws (plainEnv_laws _) (plainEnv_small rfl)
    ⟨by decide, by decide⟩ errorRun_inOrder [.step, .shutdown] errorRun_started
    (by decide +kernel) (List.length_eq_zero_iff.mp (by decide +kernel)) hclosed
    (by rw [← errorRun, errorRun_length]; omega) (fun f hf => (errorRun_readable f hf).2.1) 1
    (by decide)
  refine ⟨segments, chunks, hperm, hincreasing, hscan, ?_⟩
  rw [hentries]
  decide +kernel

end Recorder.Analysis
