import Recorder.Model.Store

/-!
# `librecorder.c`: one merge source

An `IteratorSource` walks the segments of one group: the frames of a segment with a usable
index one at a time in file order, any other segment as a whole, sorted. Its position is
spread over `segmentIndex`, `frameIndex` and `entryIndex`, which the functions below move
as the source does, unsigned wrap-around included. Every function returns the C function's
result next to the source; the store does not change while a source walks it.
-/

set_option autoImplicit false

namespace Recorder.Model

/-- `ITERATOR_DIRECTION_FORWARD` and `ITERATOR_DIRECTION_REVERSE`. -/
inductive Direction
  | forward
  | reverse
  deriving DecidableEq, Repr

/-- `IteratorSource`. `indexReader` holds the rows of the open index. The entry array is
`NULL` exactly when it is empty.
SOURCE: librecorder.c:97-114 -/
structure IteratorSource where
  group : Bytes
  segments : List SegmentPath
  segmentIndex : ℕ := 0
  frameCount : ℕ := 0
  frameIndex : ℕ := 0
  segmentScanFallback : Bool := false
  indexReader : Option (List IndexFrame) := none
  entries : List StoredEntry := []
  entryIndex : ℤ := 0

/-- `++n` for a `size_t`. -/
def sizeInc (n : ℕ) : ℕ := if n = sizeMax then 0 else n + 1

/-- `n--` for a `size_t`. -/
def sizeDec (n : ℕ) : ℕ := if n = 0 then sizeMax else n - 1

/-- `source_clear_frame`.
SOURCE: librecorder.c:1604-1613 -/
def sourceClearFrame (s : IteratorSource) : IteratorSource :=
  { s with entries := [], entryIndex := -1 }

/-- The entry a source is positioned at; `source_has_current` says whether there is one.
SOURCE: librecorder.c:2100-2104 -/
def sourceCurrent (s : IteratorSource) : Option StoredEntry :=
  if 0 ≤ s.entryIndex then s.entries[s.entryIndex.toNat]? else none

/-- Where a freshly loaded array is entered: `direction > 0 ? 0 : entry_count - 1`. -/
def entryEdge (dir : Direction) (entries : List StoredEntry) : ℤ :=
  match dir with
  | .forward => 0
  | .reverse => (entries.length : ℤ) - 1

/-- `source_load_index`, without index repair.
SOURCE: librecorder.c:1717-1736 -/
def sourceLoadIndex (s : IteratorSource) : Int × IteratorSource :=
  let s := { s with frameCount := 0, segmentScanFallback := false }
  match s.segments[s.segmentIndex]? with
  | none => (-1, s)
  | some path =>
    match path.file.file.index with
    | none => (-1, { s with indexReader := none })
    | some rows => (0, { s with indexReader := some rows, frameCount := rows.length })

/-- `source_load_frame`: 1 for a frame the unit filter skips, 0 for a loaded one.
SOURCE: librecorder.c:1763-1790 -/
def sourceLoadFrame (unit : Option Bytes) (s : IteratorSource) (frameIndex : ℕ)
    (dir : Direction) : Int × IteratorSource :=
  if frameIndex ≥ s.frameCount then (-1, s)
  else
    let s := sourceClearFrame s
    match s.segments[s.segmentIndex]?, s.indexReader.bind (·[frameIndex]?) with
    | some path, some row =>
      let s := { s with frameIndex := frameIndex }
      if !indexFrameMayContainService row unit then (1, s)
      else
        match path.file.file.frames.find? (·.fileOffset == row.fileOffset) with
        | none => (-1, s)
        | some frame =>
          let entries := scanFrame s.group path.file.file.header frame
          (0, { s with entries := entries, entryIndex := entryEdge dir entries })
    | _, _ => (-1, s)

/-- The loop of `source_load_indexed_from`: frames without entries are passed over. -/
def sourceLoadIndexedLoop (unit : Option Bytes) (dir : Direction) :
    ℕ → IteratorSource → ℕ → Int × IteratorSource
  | 0, s, _ => (-1, s)
  | fuel + 1, s, frameIndex =>
    match sourceLoadFrame unit s frameIndex dir with
    | (rc, s) =>
      if rc < 0 then (-1, s)
      else if rc = 0 ∧ s.entries ≠ [] then (1, s)
      else
        match dir with
        | .forward =>
          if frameIndex + 1 ≥ s.frameCount then (0, s)
          else sourceLoadIndexedLoop unit dir fuel s (frameIndex + 1)
        | .reverse =>
          if frameIndex = 0 then (0, s)
          else sourceLoadIndexedLoop unit dir fuel s (frameIndex - 1)

/-- `source_load_indexed_from`. The loop visits a frame at most once.
SOURCE: librecorder.c:1792-1803 -/
def sourceLoadIndexedFrom (unit : Option Bytes) (s : IteratorSource) (frameIndex : ℕ)
    (dir : Direction) : Int × IteratorSource :=
  sourceLoadIndexedLoop unit dir (s.frameCount + 1) s frameIndex

/-- `source_load_segment_fallback`: the whole segment, sorted.
SOURCE: librecorder.c:1805-1820 -/
def sourceLoadSegmentFallback (s : IteratorSource) (dir : Direction) : Int × IteratorSource :=
  match s.segments[s.segmentIndex]? with
  | none => (-1, sourceClearFrame s)
  | some path =>
    let entries := sortStored path.file.fileEntries
    (if entries ≠ [] then 1 else 0,
      { s with
        entries := entries
        segmentScanFallback := true
        frameCount := 0
        entryIndex := entryEdge dir entries })

/-- `source_position_fallback_after`.
SOURCE: librecorder.c:1822-1847 -/
def sourcePositionFallbackAfter (s : IteratorSource) (previous : StoredEntry)
    (dir : Direction) : Int × IteratorSource :=
  let key := { previous with group := s.group }
  match sourceLoadSegmentFallback s dir with
  | (rc, s) =>
    if rc < 0 then (-1, s)
    else
      let found := match dir with
        | .forward => s.entries.findIdx? fun e => compareStoredEntries e key == .gt
        | .reverse => (s.entries.reverse.findIdx? fun e => compareStoredEntries e key == .lt).map
            (s.entries.length - 1 - ·)
      match found with
      | some i => (1, { s with entryIndex := i })
      | none => (0, sourceClearFrame s)

/-- `source_load_segment_edge`.
SOURCE: librecorder.c:1849-1861 -/
def sourceLoadSegmentEdge (unit : Option Bytes) (s : IteratorSource) (dir : Direction) :
    Int × IteratorSource :=
  match sourceLoadIndex s with
  | (rc, s) =>
    if rc = 0 then
      if s.frameCount = 0 then (0, s)
      else
        match sourceLoadIndexedFrom unit s
            (match dir with | .forward => 0 | .reverse => s.frameCount - 1) dir with
        | (rc, s) => if rc ≥ 0 then (rc, s) else sourceLoadSegmentFallback s dir
    else sourceLoadSegmentFallback s dir

/-- `++segment_index >= segment_count` and `segment_index-- == 0`: whether there is another
segment in the direction.
SOURCE: librecorder.c:1871-1872, 1906-1907 -/
def segmentStep (s : IteratorSource) (dir : Direction) : Bool × IteratorSource :=
  match dir with
  | .forward =>
    let i := sizeInc s.segmentIndex
    (decide (i < s.segments.length), { s with segmentIndex := i })
  | .reverse => (s.segmentIndex != 0, { s with segmentIndex := sizeDec s.segmentIndex })

/-- The loop of `source_position_edge`. -/
def sourcePositionEdgeLoop (unit : Option Bytes) (dir : Direction) :
    ℕ → IteratorSource → Int × IteratorSource
  | 0, s => (-1, s)
  | fuel + 1, s =>
    match sourceLoadSegmentEdge unit s dir with
    | (rc, s) =>
      if rc < 0 then (-1, s)
      else if rc > 0 then (1, s)
      else
        match segmentStep s dir with
        | (more, s) => if more then sourcePositionEdgeLoop unit dir fuel s else (0, s)

/-- `source_position_edge`. The loop visits a segment at most once.
SOURCE: librecorder.c:1863-1875 -/
def sourcePositionEdge (unit : Option Bytes) (s : IteratorSource) (dir : Direction) :
    Int × IteratorSource :=
  if s.segments.length = 0 then (0, s)
  else
    sourcePositionEdgeLoop unit dir (s.segments.length + 1)
      { s with segmentIndex :=
          match dir with | .forward => 0 | .reverse => s.segments.length - 1 }

/-- The test for another frame of the segment in `source_advance`, with the increment or
decrement it contains.
SOURCE: librecorder.c:1890-1892 -/
def frameStep (s : IteratorSource) (dir : Direction) : Bool × IteratorSource :=
  if s.segmentScanFallback then (false, s)
  else
    match dir with
    | .forward =>
      let i := sizeInc s.frameIndex
      (decide (i < s.frameCount), { s with frameIndex := i })
    | .reverse => (decide (s.frameIndex > 0), { s with frameIndex := sizeDec s.frameIndex })

/-- The loop of `source_advance`, behind the last entry of a loaded array.
SOURCE: librecorder.c:1889-1912 -/
def sourceAdvanceLoop (unit : Option Bytes) (dir : Direction) (previous : Option StoredEntry) :
    ℕ → IteratorSource → Int × IteratorSource
  | 0, s => (-1, s)
  | fuel + 1, s =>
    match frameStep s dir with
    | (true, s) =>
      match sourceLoadIndexedFrom unit s s.frameIndex dir with
      | (rc, s) =>
        if rc > 0 then (1, s)
        else if rc = 0 then sourceAdvanceLoop unit dir previous fuel s
        else
          match previous with
          | some p =>
            match sourcePositionFallbackAfter s p dir with
            | (rc, s) => if rc ≠ 0 then (rc, s) else sourceAdvanceLoop unit dir previous fuel s
          | none =>
            match sourceLoadSegmentFallback s dir with
            | (rc, s) =>
              if rc < 0 then (-1, s)
              else if s.entries ≠ [] then (1, s)
              else sourceAdvanceLoop unit dir previous fuel s
    | (false, s) =>
      match segmentStep s dir with
      | (false, s) => (0, sourceClearFrame s)
      | (true, s) =>
        match sourceLoadSegmentEdge unit s dir with
        | (rc, s) =>
          if rc < 0 then (-1, s)
          else if rc > 0 then (1, s)
          else sourceAdvanceLoop unit dir previous fuel s

/-- `entry_index + direction`. -/
def entryStep (dir : Direction) (i : ℤ) : ℤ :=
  match dir with
  | .forward => i + 1
  | .reverse => i - 1

/-- `source_advance`. Each segment takes at most three turns of the loop.
SOURCE: librecorder.c:1877-1915 -/
def sourceAdvance (unit : Option Bytes) (s : IteratorSource) (dir : Direction) :
    Int × IteratorSource :=
  if s.entries = [] then (0, s)
  else
    let s := { s with entryIndex := entryStep dir s.entryIndex }
    if 0 ≤ s.entryIndex ∧ s.entryIndex < s.entries.length then (1, s)
    else
      let previous := match dir with
        | .forward => s.entries.getLast?
        | .reverse => s.entries.head?
      sourceAdvanceLoop unit dir previous (3 * s.segments.length + 3) s

end Recorder.Model
