import Recorder.Model.Segment
import Mathlib.Data.List.Sort

/-!
# The store as a reader sees it

`librecorder.c` reads segment files through the scanner of `segment.c` and, where an index
is usable, frame by frame through `index.c`. Both deliver decoded entries, so a store is a
list of files of decoded frames here: `SegmentFile` is what a full scan of an intact
segment delivers, with its offsets, and the rows `index_open_read` accepts for it. Entries
carry their location in the store, which no two of them share.
-/

set_option autoImplicit false

namespace Recorder.Model

/-! ## Entries -/

/-- The part of a stored log record the reader's logic looks at. -/
structure EntryData where
  realtimeTs : UInt64
  monotonicTs : UInt64
  monotonicTieOrder : UInt16
  unit : Option Bytes
  deriving DecidableEq, Repr

/-- `RecorderEntry`, with the location and the group of the entry.
SOURCE: librecorder.h:33-69 -/
structure StoredEntry where
  data : EntryData
  bootSeq : UInt32
  group : Bytes
  segmentSeq : UInt64
  frameOffset : UInt64
  frameEntryIndex : UInt32
  deriving DecidableEq, Repr

/-- The physical location of an entry, the last resort of both comparisons. Group names
compare as `strcmp` compares them. -/
def compareLocation : StoredEntry → StoredEntry → Ordering :=
  compareLex (compareOn (·.group)) <| compareLex (compareOn (·.segmentSeq)) <|
    compareLex (compareOn (·.frameOffset)) (compareOn (·.frameEntryIndex))

/-- `compare_stored_entries`.
SOURCE: librecorder.c:532-552 -/
def compareStoredEntries : StoredEntry → StoredEntry → Ordering :=
  compareLex (compareOn (·.data.realtimeTs)) <| compareLex (compareOn (·.bootSeq))
    compareLocation

/-- `RecorderPlayerOrder`. -/
inductive Order
  | recorded
  | wallclock
  deriving DecidableEq, Repr

/-- The comparison of `RECORDER_ORDER_RECORDED`.
SOURCE: librecorder.c:561-578 -/
def compareRecorded : StoredEntry → StoredEntry → Ordering :=
  compareLex (compareOn (·.bootSeq)) <| compareLex (compareOn (·.data.monotonicTs)) <|
    compareLex (compareOn (·.data.monotonicTieOrder)) compareLocation

/-- `compare_iterator_entries`.
SOURCE: librecorder.c:554-579 -/
def compareIteratorEntries : Order → StoredEntry → StoredEntry → Ordering
  | .wallclock => compareStoredEntries
  | .recorded => compareRecorded

/-- `qsort` with `compare_stored_entries`. The entries of a segment differ in their
location, so there is only one sorted order. -/
def sortStored (entries : List StoredEntry) : List StoredEntry :=
  entries.insertionSort fun a b => (compareStoredEntries a b).isLE

/-! ## Segments -/

/-- One decoded frame. Frames hold a FlatBuffers vector of entries, whose length is a
32-bit number. -/
structure ChunkFrame where
  fileOffset : UInt64
  entries : List EntryData
  length_lt : entries.length < 2 ^ 32

/-- `IndexFrame`, as far as the reader uses it.
SOURCE: index.h:13-25 -/
structure IndexFrame where
  fileOffset : UInt64
  minRealtimeTs : UInt64
  maxRealtimeTs : UInt64
  minMonotonicTs : UInt64
  maxMonotonicTs : UInt64
  entryCount : UInt32
  serviceHashes : List UInt64
  serviceOverflow : Bool
  deriving DecidableEq, Repr

/-- `scan_frame`: the entries of a frame, with their location.
SOURCE: librecorder.c:250-338 -/
def scanFrame (group : Bytes) (header : SegmentHeader) (frame : ChunkFrame) :
    List StoredEntry :=
  frame.entries.mapIdx fun i e =>
    { data := e
      bootSeq := header.bootSeq
      group := group
      segmentSeq := header.segmentSeq
      frameOffset := frame.fileOffset
      frameEntryIndex := UInt32.ofNat i }

/-- An intact segment file and its index: `none` where `index_open_read` rejects the index
or there is none. Frames follow each other in the file up to the committed end, and a file
has no more of them than bytes. -/
structure SegmentFile where
  header : SegmentHeader
  frames : List ChunkFrame
  footer : Option SegmentFooter
  index : Option (List IndexFrame)
  committedEnd : UInt64
  offsets_lt : frames.Pairwise fun a b => a.fileOffset < b.fileOffset
  offset_lt_end : ∀ frame ∈ frames, frame.fileOffset < committedEnd
  length_lt : frames.length < 2 ^ 63

/-- A segment file in a store: its group directory and the number in its name. -/
structure StoreFile where
  group : Bytes
  nameSeq : UInt64
  file : SegmentFile

/-- What a reader is opened on: a log directory with any number of files, in the order
`readdir` lists them, or one segment file. -/
structure Store where
  directory : Bool
  files : List StoreFile
  length_lt : files.length < 2 ^ 63

/-- The entries of a segment in file order, as a scan with `scan_frame` delivers them. -/
def StoreFile.fileEntries (f : StoreFile) : List StoredEntry :=
  f.file.frames.flatMap (scanFrame f.group f.file.header)

/-- The entries of a segment from a frame offset on, as `rec_player_scan_file` delivers
them.
SOURCE: librecorder.c:1064-1089 -/
def StoreFile.entriesFrom (f : StoreFile) (minFrameOffset : UInt64) : List StoredEntry :=
  (f.file.frames.filter (minFrameOffset ≤ ·.fileOffset)).flatMap
    (scanFrame f.group f.file.header)

/-! ## Segment paths -/

/-- `SegmentPath`, with the file the path names. -/
structure SegmentPath where
  file : StoreFile
  segmentSeq : UInt64

/-- `group_allowed`: an empty filter admits every group. -/
def groupAllowed (filter : List Bytes) (group : Bytes) : Bool :=
  filter.isEmpty || filter.contains group

/-- `qsort` with `compare_segment_path`. The numbers are unique in a group, and equal ones of
different groups stay in the order they were collected in, as the C library's merge sort
leaves them.
SOURCE: librecorder.c:806-813 -/
def sortPaths (paths : List SegmentPath) : List SegmentPath :=
  paths.insertionSort fun a b => a.segmentSeq ≤ b.segmentSeq

/-- `add_reader_file_path`: a single segment file gets the sequence number 0.
SOURCE: librecorder.c:688-696 -/
def addReaderFilePath (store : Store) (filter : List Bytes) : List SegmentPath :=
  (store.files.filter fun f => groupAllowed filter f.group).map fun f => ⟨f, 0⟩

/-- `collect_segment_paths`, for both kinds of reader.
SOURCE: librecorder.c:698-750 -/
def collectSegmentPaths (store : Store) (filter : List Bytes) : List SegmentPath :=
  if store.directory then
    (store.files.filter fun f => groupAllowed filter f.group).map fun f => ⟨f, f.nameSeq⟩
  else addReaderFilePath store filter

/-- `collect_latest_segment_in_dir`: the file with the largest number.
SOURCE: librecorder.c:747-776 -/
def latestSegment (files : List StoreFile) : Option StoreFile :=
  files.foldl (fun best f =>
    match best with
    | none => some f
    | some b => if f.nameSeq > b.nameSeq then some f else some b) none

/-- The group directories of a store. -/
def Store.groups (store : Store) : List Bytes := (store.files.map (·.group)).eraseDups

/-- `collect_latest_segment_paths`, for both kinds of reader.
SOURCE: librecorder.c:778-804 -/
def collectLatestSegmentPaths (store : Store) (filter : List Bytes) : List SegmentPath :=
  if store.directory then
    (store.groups.filter (groupAllowed filter)).filterMap fun g =>
      (latestSegment (store.files.filter (·.group == g))).map fun f => ⟨f, f.nameSeq⟩
  else addReaderFilePath store filter

/-! ## Index rows -/

/-- `RECORDER_SERVICE_HASH_SLOTS`. -/
abbrev serviceHashSlots : ℕ := 4

/-- `fnv1a64`.
SOURCE: index.c:51-60 -/
def fnv1a64 (s : Bytes) : UInt64 :=
  s.foldl (fun hash b => (hash ^^^ b.toUInt64) * 1099511628211) 1469598103934665603

/-- `index_add_entry` on the service hashes of a row.
SOURCE: index.c:92-110 -/
def addServiceHash (hashes : List UInt64) (overflow : Bool) (unit : Bytes) :
    List UInt64 × Bool :=
  if fnv1a64 unit ∈ hashes then (hashes, overflow)
  else if hashes.length < serviceHashSlots then (hashes ++ [fnv1a64 unit], overflow)
  else (hashes, true)

/-- `index_add_entry`: an entry is added to the row of its frame.
SOURCE: index.c:76-111 -/
def indexAddEntry (row : IndexFrame) (i : ℕ) (e : EntryData) : IndexFrame :=
  let services := match e.unit with
    | none => (row.serviceHashes, row.serviceOverflow)
    | some unit => addServiceHash row.serviceHashes row.serviceOverflow unit
  { row with
    minRealtimeTs := if i = 0 ∨ e.realtimeTs < row.minRealtimeTs then e.realtimeTs
      else row.minRealtimeTs
    maxRealtimeTs := if i = 0 ∨ e.realtimeTs > row.maxRealtimeTs then e.realtimeTs
      else row.maxRealtimeTs
    minMonotonicTs := if i = 0 ∨ e.monotonicTs < row.minMonotonicTs then e.monotonicTs
      else row.minMonotonicTs
    maxMonotonicTs := if i = 0 ∨ e.monotonicTs > row.maxMonotonicTs then e.monotonicTs
      else row.maxMonotonicTs
    serviceHashes := services.1
    serviceOverflow := services.2 }

/-- `write_index_frame`: the row of a frame.
SOURCE: index.c:113-170 -/
def indexRow (frame : ChunkFrame) : IndexFrame :=
  frame.entries.zipIdx.foldl (fun row e => indexAddEntry row e.2 e.1)
    { fileOffset := frame.fileOffset
      minRealtimeTs := 0
      maxRealtimeTs := 0
      minMonotonicTs := 0
      maxMonotonicTs := 0
      entryCount := UInt32.ofNat frame.entries.length
      serviceHashes := []
      serviceOverflow := false }

/-- `index_frame_may_contain_service`. The recorder writes filter kind 1 only, and unused
hash slots as zero.
SOURCE: index.c:305-316 -/
def indexFrameMayContainService (row : IndexFrame) (unit : Option Bytes) : Bool :=
  match unit with
  | none => true
  | some u => row.serviceOverflow ||
      (row.serviceHashes ++ List.replicate (serviceHashSlots - row.serviceHashes.length) 0).contains
        (fnv1a64 u)

end Recorder.Model
