import Mathlib.Data.List.Sort
import Recorder.Model.Config
import Recorder.Model.Index

/-!
# `librecorder.c`: group statistics

`rec_player_get_group_stats` counts the entries of every group and keeps their least and
greatest realtime. The entries of a segment come from the rows of its index, a block of entries
at a time, or one by one from a scan of the segment; the segments of a group are then added up
the same way, so that `groupStatsAddEntries` is passed through three times.

A path is what the file system has there. Building the path of the index from that of the
segment is left out.
-/

set_option autoImplicit false

namespace Recorder.Model

/-- `RecorderGroupStats`.
SOURCE: librecorder.h:10-16 -/
structure RecorderGroupStats where
  name : Bytes := []
  entryCount : UInt64 := 0
  diskBytes : UInt64 := 0
  firstRealtimeUsec : UInt64 := 0
  lastRealtimeUsec : UInt64 := 0
  deriving DecidableEq, Repr

/-- `UINT64_MAX`. -/
def uint64Max : UInt64 := 0xffffffffffffffff

/-- `group_stats_add_entries`: whether it succeeds, and the statistics afterwards.
SOURCE: librecorder.c:1547-1561 -/
def groupStatsAddEntries (stats : RecorderGroupStats) (count first last : UInt64) :
    Bool × RecorderGroupStats :=
  if count = 0 then (true, stats)
  else if uint64Max - stats.entryCount < count then (false, stats)
  else
    (true, { stats with
      firstRealtimeUsec :=
        if stats.entryCount = 0 ∨ first < stats.firstRealtimeUsec then first
        else stats.firstRealtimeUsec
      lastRealtimeUsec :=
        if stats.entryCount = 0 ∨ last > stats.lastRealtimeUsec then last
        else stats.lastRealtimeUsec
      entryCount := stats.entryCount + count })

/-- `group_stats_index_frame`.
SOURCE: librecorder.c:1563-1567 -/
def groupStatsIndexFrame (frame : IndexRecord) (stats : RecorderGroupStats) :
    Bool × RecorderGroupStats :=
  groupStatsAddEntries stats frame.entryCount.toUInt64 frame.minRealtimeTs frame.maxRealtimeTs

/-- `group_stats_entry`.
SOURCE: librecorder.c:1569-1573 -/
def groupStatsEntry (entry : EntryData) (stats : RecorderGroupStats) :
    Bool × RecorderGroupStats :=
  groupStatsAddEntries stats 1 entry.realtimeTs entry.realtimeTs

/-- `group_stats_add_file_bytes`, for the `st_blocks` of a file.
SOURCE: librecorder.c:1575-1590 -/
def groupStatsAddFileBytes (stats : RecorderGroupStats) (blocks : ℤ) :
    Option RecorderGroupStats :=
  if blocks < 0 ∨ blocks.toNat > uint64Max.toNat / 512 then none
  else
    let bytes := UInt64.ofNat (blocks.toNat * 512)
    if stats.diskBytes > uint64Max - bytes then none
    else some { stats with diskBytes := stats.diskBytes + bytes }

/-! ## Reading a file -/

section Scan

variable {σ : Type}

/-- The loop of `index_scan_frames`.
SOURCE: index.c:498-502 -/
def indexScanLoop (callback : IndexRecord → σ → Bool × σ) (file : Bytes) :
    ℕ → ℕ → σ → Bool × σ
  | 0, _, userdata => (true, userdata)
  | count + 1, i, userdata =>
    match indexPreadFrame file i with
    | none => (false, userdata)
    | some frame =>
      match callback frame userdata with
      | (false, userdata) => (false, userdata)
      | (true, userdata) => indexScanLoop callback file count (i + 1) userdata

/-- `index_scan_frames`. There may be no file to open.
SOURCE: index.c:489-507 -/
def indexScanFrames (callback : IndexRecord → σ → Bool × σ) (index : Option Bytes)
    (segment : Bytes) (userdata : σ) : Bool × σ :=
  match index with
  | none => (false, userdata)
  | some file =>
    match indexOpenRead file segment with
    | none => (false, userdata)
    | some count => indexScanLoop callback file count 0 userdata

/-- The loop of `scan_frame` over the entries of a chunk.
SOURCE: librecorder.c:268-279, 283-334 -/
def scanEntryLoop (callback : EntryData → σ → Bool × σ) : List (EntryData × UInt8) → σ → Int × σ
  | [], userdata => (0, userdata)
  | entry :: entries, userdata =>
    match callback entry.1 userdata with
    | (false, userdata) => (-1, userdata)
    | (true, userdata) => scanEntryLoop callback entries userdata

/-- `scan_frame`, for a callback that looks at the data of an entry alone.
SOURCE: librecorder.c:250-338 -/
def scanFrameCb (getters : ChunkGetters) (callback : EntryData → σ → Bool × σ) : FrameCb σ :=
  fun header _ chunk userdata =>
    scanEntryLoop callback (getters.entries (header.flags &&& flagCompactEntries != 0) chunk)
      userdata

/-- `rec_player_scan_file` from the start of a file, for a reader without a group filter.
SOURCE: librecorder.c:1064-1089 -/
def recPlayerScanFile (evp : EvpOps) (codec : CodecOps) (getters : ChunkGetters)
    (decryptor : Bool) (segment : Bytes) (callback : EntryData → σ → Bool × σ) (userdata : σ) :
    Bool × σ :=
  let scan := segmentScanPath evp codec segment decryptor (some (scanFrameCb getters callback))
    userdata
  match scan.out with
  | .error _ => (false, scan.ctx)
  | .ok _ => (true, scan.ctx)

end Scan

/-! ## The statistics of a store -/

/-- What `stat` finds at the path of an index: nothing, an error other than `ENOENT`, something
that is not a regular file, or a file with its `st_blocks`. -/
inductive IndexOnDisk
  | missing
  | failed
  | special
  | file (blocks : ℤ) (content : Bytes)
  deriving DecidableEq, Repr

/-- The file that is opened as an index. -/
def IndexOnDisk.content : IndexOnDisk → Option Bytes
  | .file _ content => some content
  | _ => none

/-- A segment path with the directory it is in. There is no segment where `stat` fails or finds
something that is not a regular file, and otherwise its `st_blocks` and content. -/
structure StatsPath where
  directory : Bytes
  segment : Option (ℤ × Bytes)
  index : IndexOnDisk
  deriving DecidableEq, Repr

/-- The bytes of the index, if `stat` finds a regular file there.
SOURCE: librecorder.c:1637-1640 -/
def groupStatsAddIndexBytes (stats : RecorderGroupStats) : IndexOnDisk → Option RecorderGroupStats
  | .missing => some stats
  | .failed => none
  | .special => some stats
  | .file blocks _ => groupStatsAddFileBytes stats blocks

/-- The entries of a segment are counted from its index, or from a scan if that fails.
SOURCE: librecorder.c:1641-1648 -/
def segmentStatsAddEntries (evp : EvpOps) (codec : CodecOps) (getters : ChunkGetters)
    (decryptor : Bool) (segment : Bytes) (index : Option Bytes) (stats : RecorderGroupStats) :
    Option RecorderGroupStats :=
  match indexScanFrames groupStatsIndexFrame index segment stats with
  | (true, stats) => some stats
  | (false, stats) =>
    let cleared := { stats with entryCount := 0, firstRealtimeUsec := 0, lastRealtimeUsec := 0 }
    match recPlayerScanFile evp codec getters decryptor segment groupStatsEntry cleared with
    | (true, stats) => some stats
    | (false, _) => none

/-- The statistics of one segment.
SOURCE: librecorder.c:1635-1648 -/
def segmentStats (evp : EvpOps) (codec : CodecOps) (getters : ChunkGetters) (decryptor : Bool)
    (blocks : ℤ) (segment : Bytes) (index : IndexOnDisk) : Option RecorderGroupStats := do
  let stats ← groupStatsAddFileBytes {} blocks
  let stats ← groupStatsAddIndexBytes stats index
  segmentStatsAddEntries evp codec getters decryptor segment index.content stats

/-- A segment is added to its group.
SOURCE: librecorder.c:1669-1676 -/
def groupStatsAddSegment (group segment : RecorderGroupStats) : Option RecorderGroupStats :=
  if group.diskBytes > uint64Max - segment.diskBytes then none
  else
    match groupStatsAddEntries { group with diskBytes := group.diskBytes + segment.diskBytes }
        segment.entryCount segment.firstRealtimeUsec segment.lastRealtimeUsec with
    | (true, group) => some group
    | (false, _) => none

/-- The group of that name is looked for, and appended if there is none.
SOURCE: librecorder.c:1649-1676 -/
def groupsAddSegment (name : Bytes) (segment : RecorderGroupStats) :
    List RecorderGroupStats → Option (List RecorderGroupStats)
  | [] => do
    let group ← groupStatsAddSegment { name := name } segment
    return [group]
  | group :: groups =>
    if group.name = name then do
      let group ← groupStatsAddSegment group segment
      return group :: groups
    else do
      let groups ← groupsAddSegment name segment groups
      return group :: groups

/-- The size of a group's name in `RecorderGroupStats`, with its terminator. -/
def groupNameSize : ℕ := 64

/-- `group_from_path`, for the name of the directory a segment is in.
SOURCE: librecorder.c:414-448 -/
def groupFromPath (directory : Bytes) : Option Bytes :=
  if directory.length = 0 ∨ directory.length ≥ groupNameSize then none
  else if readerValidGroupName directory then some directory
  else none

/-- One turn of the loop over the paths.
SOURCE: librecorder.c:1623-1677 -/
def groupsAddPath (evp : EvpOps) (codec : CodecOps) (getters : ChunkGetters) (decryptor : Bool)
    (groups : List RecorderGroupStats) (path : StatsPath) : Option (List RecorderGroupStats) :=
  match path.segment with
  | none => some groups
  | some (blocks, segment) => do
    let name ← groupFromPath path.directory
    let stats ← segmentStats evp codec getters decryptor blocks segment path.index
    groupsAddSegment name stats groups

/-- `rec_player_get_group_stats`, for the paths that were collected. `compare_group_stats`
compares names as `strcmp` does, and no two groups have one name.
SOURCE: librecorder.c:1592-1688 -/
def recPlayerGetGroupStats (evp : EvpOps) (codec : CodecOps) (getters : ChunkGetters)
    (decryptor : Bool) (paths : List StatsPath) : Option (List RecorderGroupStats) := do
  let groups ← paths.foldlM (groupsAddPath evp codec getters decryptor) []
  return groups.insertionSort fun a b => (compare a.name b.name).isLE

end Recorder.Model
