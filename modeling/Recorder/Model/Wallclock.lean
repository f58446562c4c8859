import Recorder.Lib.Heap
import Recorder.Model.Source

/-!
# `librecorder.c`: the wallclock scan

`rec_player_scan_wallclock` merges all segments of the selected groups with a heap. A
segment that may run backwards is loaded and sorted as a whole, any other is read frame by
frame. Segments without entries and without a first timestamp are passed over; their slot
in the array is used again for the next segment, with the `needs_sort` it had.
-/

set_option autoImplicit false

namespace Recorder.Model

/-- `WallclockSegment`; `calloc` leaves all fields zero.
SOURCE: librecorder.c:1151-1159 -/
structure WallclockSegment where
  path : Option SegmentPath := none
  minRealtimeTs : UInt64 := 0
  maxRealtimeTs : UInt64 := 0
  needsSort : Bool := false
  entries : List StoredEntry := []

/-- `wallclock_segment_metadata`: it only ever sets `needs_sort`.
SOURCE: librecorder.c:1169-1186 -/
def wallclockSegmentMetadata (segment : WallclockSegment) (file : SegmentFile) :
    WallclockSegment :=
  let min := file.header.firstRealtimeTs
  let max := match file.footer with
    | some footer => if footer.lastRealtimeTs ≠ 0 then footer.lastRealtimeTs else min
    | none => min
  let flagged := match file.footer with
    | some footer => footer.footerFlags &&& footerFlagRealtimeNonmonotonic != 0
    | none => true
  { segment with
    minRealtimeTs := min
    maxRealtimeTs := max
    needsSort := segment.needsSort || decide (max < min) || flagged }

/-- `wallclock_load_segment`.
SOURCE: librecorder.c:1188-1217 -/
def wallclockLoadSegment (segment : WallclockSegment) (file : StoreFile) : WallclockSegment :=
  match segment.entries ++ file.fileEntries with
  | [] => segment
  | e :: rest =>
    { segment with
      minRealtimeTs := rest.foldl
        (fun m x => if x.data.realtimeTs < m then x.data.realtimeTs else m) e.data.realtimeTs
      maxRealtimeTs := rest.foldl
        (fun m x => if x.data.realtimeTs > m then x.data.realtimeTs else m) e.data.realtimeTs
      entries := sortStored (e :: rest) }

/-- The slot of a path before it is decided whether it is kept.
SOURCE: librecorder.c:1328-1334 -/
def wallclockFillSlot (slot : WallclockSegment) (path : SegmentPath) : WallclockSegment :=
  let slot := wallclockSegmentMetadata { slot with path := some path } path.file.file
  if slot.needsSort then wallclockLoadSegment slot path.file else slot

/-- The loop over the paths, with the slot that is filled next.
SOURCE: librecorder.c:1327-1338 -/
def wallclockCollect : List SegmentPath → WallclockSegment → List WallclockSegment
  | [], _ => []
  | path :: rest, slot =>
    let slot := wallclockFillSlot slot path
    if slot.entries ≠ [] ∨ slot.minRealtimeTs ≠ 0 then slot :: wallclockCollect rest {}
    else wallclockCollect rest slot

/-- `wallclock_prepare_source`.
SOURCE: librecorder.c:1231-1260 -/
def wallclockPrepareSource (unit : Option Bytes) (segment : WallclockSegment) :
    Int × IteratorSource :=
  match segment.path with
  | none => (-1, { group := [], segments := [] })
  | some path =>
    let s : IteratorSource := { group := path.file.group, segments := [path], entryIndex := -1 }
    if segment.needsSort then
      (if segment.entries ≠ [] then 1 else 0,
        { s with
          entries := segment.entries
          segmentScanFallback := true
          entryIndex := if segment.entries ≠ [] then 0 else -1 })
    else
      match sourceLoadIndex s with
      | (rc, s) =>
        if rc = 0 ∧ s.frameCount ≠ 0 then
          match sourceLoadIndexedFrom unit s 0 .forward with
          | (rc, s) => if rc ≥ 0 then (rc, s) else sourceLoadSegmentFallback s .forward
        else sourceLoadSegmentFallback s .forward

/-- `wallclock_heap_less`. The heap only holds sources with a current entry.
SOURCE: librecorder.c:1262-1268 -/
def wallclockHeapLess (sources : List IteratorSource) (left right : ℕ) : Bool :=
  match (sources[left]?).bind sourceCurrent, (sources[right]?).bind sourceCurrent with
  | some a, some b => compareStoredEntries a b == .lt
  | _, _ => false

/-- `wallclock_heap_sift_up`.
SOURCE: librecorder.c:1270-1283 -/
def wallclockHeapSiftUp (sources : List IteratorSource) (heap : List ℕ) (index : ℕ) : List ℕ :=
  Lib.siftUp (wallclockHeapLess sources) index heap index

/-- `wallclock_heap_sift_down`.
SOURCE: librecorder.c:1285-1303 -/
def wallclockHeapSiftDown (sources : List IteratorSource) (heap : List ℕ) (index : ℕ) : List ℕ :=
  Lib.siftDown (wallclockHeapLess sources) heap.length heap index

/-- The loop that prepares the sources and fills the heap.
SOURCE: librecorder.c:1342-1350 -/
def wallclockPrepare (unit : Option Bytes) :
    List WallclockSegment → List IteratorSource → List ℕ →
      Option (List IteratorSource × List ℕ)
  | [], sources, heap => some (sources, heap)
  | segment :: rest, sources, heap =>
    match wallclockPrepareSource unit segment with
    | (rc, s) =>
      if rc < 0 then none
      else
        let i := sources.length
        let sources := sources ++ [s]
        wallclockPrepare unit rest sources
          (if rc > 0 then wallclockHeapSiftUp sources (heap ++ [i]) heap.length else heap)

/-- `heap[0] = heap[--heap_count]`. -/
def dropRoot (heap : List ℕ) : List ℕ :=
  match heap.getLast? with
  | none => heap
  | some last => heap.dropLast.set 0 last

/-- The loop that empties the heap, with the entries the callback gets.
SOURCE: librecorder.c:1351-1360 -/
def wallclockLoop (unit : Option Bytes) :
    ℕ → List IteratorSource → List ℕ → Int × List StoredEntry
  | 0, _, _ => (-1, [])
  | _ + 1, _, [] => (0, [])
  | fuel + 1, sources, i :: heap =>
    match sources[i]?, (sources[i]?).bind sourceCurrent with
    | some s, some e =>
      match sourceAdvance unit s .forward with
      | (rc, s) =>
        if rc < 0 then (-1, [e])
        else
          let sources := sources.set i s
          let heap := if (sourceCurrent s).isNone then dropRoot (i :: heap) else i :: heap
          let heap := if heap ≠ [] then wallclockHeapSiftDown sources heap 0 else heap
          match wallclockLoop unit fuel sources heap with
          | (rc, entries) => (rc, e :: entries)
    | _, _ => (-1, [])

/-- `rec_player_scan_wallclock`, with a callback that never stops the scan.
SOURCE: librecorder.c:1305-1374 -/
def recPlayerScanWallclock (store : Store) (groupFilter : List Bytes) (unit : Option Bytes)
    (fuel : ℕ) : Int × List StoredEntry :=
  let segments := wallclockCollect (sortPaths (collectSegmentPaths store groupFilter)) {}
  match wallclockPrepare unit segments [] [] with
  | none => (-1, [])
  | some (sources, heap) => wallclockLoop unit fuel sources heap

end Recorder.Model
