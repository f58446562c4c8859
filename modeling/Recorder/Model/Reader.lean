import Recorder.Lib.Merge
import Recorder.Model.Follow
import Recorder.Model.Source

/-!
# `librecorder.c`: the iterator

`Reader` is `RecorderPlayer` as far as the iterator and the follow mode use it. Every API
function takes the store it finds on disk next to the reader and returns the C function's
result and the reader afterwards. Values that the source marks with `SIZE_MAX` are options.
Index repair is off, as it is after `rec_player_open`.
-/

set_option autoImplicit false

namespace Recorder.Model

/-- `RecorderPlayer`.
SOURCE: librecorder.c:28-71 -/
structure Reader where
  storeId : Option UInt64 := none
  order : Order := .wallclock
  unitFilter : Option Bytes := none
  groupFilter : List Bytes := []
  sources : List IteratorSource := []
  currentSource : Option ℕ := some 0
  currentEntry : Option StoredEntry := none
  currentValid : Bool := false
  lastDirection : Option Direction := none
  orderChanged : Bool := false
  cursorPending : Bool := false
  cursorSourcesPending : Bool := false
  cursorGroup : Bytes := []
  cursorSegmentSeq : UInt64 := 0
  cursorFrameOffset : UInt64 := 0
  cursorFrameEntryIndex : UInt32 := 0
  entries : List StoredEntry := []
  current : Option ℕ := none
  follow : FollowState := {}

/-! ## Searching an index -/

/-- The binary search of the `index_find_*` functions: the first row that is not below the
target, if the rows below it come first.
SOURCE: index.c:517-522 -/
def bisectLoop (below : IndexFrame → Bool) (rows : List IndexFrame) : ℕ → ℕ → ℕ → ℕ
  | 0, lo, _ => lo
  | fuel + 1, lo, hi =>
    if lo < hi then
      let mid := lo + (hi - lo) / 2
      if (rows[mid]?).any below then bisectLoop below rows fuel (mid + 1) hi
      else bisectLoop below rows fuel lo mid
    else lo

/-- The row the binary search ends at. -/
def indexBisect (below : IndexFrame → Bool) (rows : List IndexFrame) : Option ℕ :=
  let lo := bisectLoop below rows (rows.length + 1) 0 rows.length
  if lo < rows.length then some lo else none

/-- `index_find_realtime_frame`; `none` is its result 1.
SOURCE: index.c:508-532 -/
def indexFindRealtimeFrame (rows : List IndexFrame) (usec : UInt64) : Option ℕ :=
  indexBisect (·.maxRealtimeTs < usec) rows

/-- `index_find_monotonic_frame`; `none` is its result 1.
SOURCE: index.c:534-559 -/
def indexFindMonotonicFrame (rows : List IndexFrame) (usec : UInt64) : Option ℕ :=
  indexBisect (·.maxMonotonicTs < usec) rows

/-- `index_find_offset_frame`; `none` is its failure.
SOURCE: index.c:561-587 -/
def indexFindOffsetFrame (rows : List IndexFrame) (fileOffset : UInt64) : Option ℕ :=
  match indexBisect (·.fileOffset < fileOffset) rows with
  | none => none
  | some i => if (rows[i]?).any (·.fileOffset == fileOffset) then some i else none

/-! ## Positioning a source -/

/-- The entries a source could still deliver, and one more: a bound on its loops. -/
def sourceSize (s : IteratorSource) : ℕ :=
  (s.segments.map (·.file.fileEntries.length)).sum + 1

/-- The `while` loops that advance a source past entries with a property; `false` when
`source_advance` failed. -/
def sourceAdvanceWhile (unit : Option Bytes) (dir : Direction) (skip : StoredEntry → Bool) :
    ℕ → IteratorSource → Bool × IteratorSource
  | 0, s => (true, s)
  | fuel + 1, s =>
    match sourceCurrent s with
    | none => (true, s)
    | some e =>
      if skip e then
        match sourceAdvance unit s dir with
        | (rc, s) =>
          if rc < 0 then (false, s)
          else if rc = 0 then (true, s)
          else sourceAdvanceWhile unit dir skip fuel s
      else (true, s)

/-- The loop of `source_seek_realtime` over the segments from number `i` on. -/
def sourceSeekRealtimeLoop (unit : Option Bytes) (usec : UInt64) :
    List SegmentPath → ℕ → IteratorSource → Int × IteratorSource
  | [], _, s => (0, s)
  | path :: paths, i, s =>
    match path.file.file.index with
    | none =>
      match sourceLoadSegmentFallback { s with segmentIndex := i } .forward with
      | (rc, s) =>
        if rc < 0 then (-1, s)
        else
          match s.entries.findIdx? (usec ≤ ·.data.realtimeTs) with
          | some j => (0, { s with entryIndex := j })
          | none => sourceSeekRealtimeLoop unit usec paths (i + 1) s
    | some rows =>
      match indexFindRealtimeFrame rows usec with
      | none => sourceSeekRealtimeLoop unit usec paths (i + 1) s
      | some frameIndex =>
        match sourceLoadIndex { s with segmentIndex := i } with
        | (rc, s) =>
          if rc ≠ 0 then (-1, s)
          else
            match sourceLoadIndexedFrom unit s frameIndex .forward with
            | (rc, s) =>
              if rc < 0 then (-1, s)
              else if rc = 0 then sourceSeekRealtimeLoop unit usec paths (i + 1) s
              else
                match s.entries.findIdx? (usec ≤ ·.data.realtimeTs) with
                | some j => (0, { s with entryIndex := j })
                | none =>
                  match sourceAdvance unit s .forward with
                  | (rc, s) => (if rc < 0 then -1 else 0, s)

/-- `source_seek_realtime`.
SOURCE: librecorder.c:1917-1966 -/
def sourceSeekRealtime (unit : Option Bytes) (usec : UInt64) (s : IteratorSource) :
    Int × IteratorSource :=
  let s := { sourceClearFrame s with frameCount := 0 }
  sourceSeekRealtimeLoop unit usec s.segments 0 s

/-- The entry `source_seek_recorded_after` chooses in a segment without index: the first
one behind the key in receipt order.
SOURCE: librecorder.c:2008-2013 -/
def bestAfter (cmp : StoredEntry → StoredEntry → Ordering) (key : StoredEntry)
    (entries : List StoredEntry) : Option ℕ :=
  (entries.zipIdx.foldl (fun best e =>
    if cmp e.1 key == .gt && best.all (fun b : StoredEntry × ℕ => cmp e.1 b.1 == .lt) then some e
    else best) none).map (·.2)

/-- The loop of `source_seek_recorded_after` over the segments from number `i` on. -/
def sourceSeekRecordedLoop (unit : Option Bytes) (cmp : StoredEntry → StoredEntry → Ordering)
    (key : StoredEntry) : List SegmentPath → ℕ → IteratorSource → Int × IteratorSource
  | [], _, s => (0, s)
  | path :: paths, i, s =>
    if path.file.file.header.bootSeq < key.bootSeq then
      sourceSeekRecordedLoop unit cmp key paths (i + 1) s
    else if path.file.file.header.bootSeq > key.bootSeq then
      match sourceLoadSegmentEdge unit { s with segmentIndex := i } .forward with
      | (rc, s) =>
        if rc < 0 then (-1, s)
        else if rc > 0 then (0, s)
        else sourceSeekRecordedLoop unit cmp key paths (i + 1) s
    else
      match path.file.file.index with
      | none =>
        match sourceLoadSegmentFallback { s with segmentIndex := i } .forward with
        | (rc, s) =>
          if rc < 0 then (-1, s)
          else
            match bestAfter cmp key s.entries with
            | some j => (0, { s with entryIndex := j })
            | none => sourceSeekRecordedLoop unit cmp key paths (i + 1) s
      | some rows =>
        match indexFindMonotonicFrame rows key.data.monotonicTs with
        | none => sourceSeekRecordedLoop unit cmp key paths (i + 1) { s with segmentIndex := i }
        | some frameIndex =>
          match sourceLoadIndex { s with segmentIndex := i } with
          | (rc, s) =>
            if rc ≠ 0 then (-1, s)
            else
              match sourceLoadIndexedFrom unit s frameIndex .forward with
              | (rc, s) =>
                if rc < 0 then (-1, s)
                else
                  match sourceAdvanceWhile unit .forward (fun e => (cmp e key).isLE)
                      (sourceSize s) s with
                  | (ok, s) =>
                    if !ok then (-1, s)
                    else if (sourceCurrent s).isSome then (0, s)
                    else sourceSeekRecordedLoop unit cmp key paths (i + 1) s

/-- `source_seek_recorded_after`.
SOURCE: librecorder.c:1968-2032 -/
def sourceSeekRecordedAfter (unit : Option Bytes) (order : Order) (key : StoredEntry)
    (s : IteratorSource) : Int × IteratorSource :=
  let s := { sourceClearFrame s with frameCount := 0 }
  sourceSeekRecordedLoop unit (compareIteratorEntries order) key s.segments 0 s

/-- The entry at a cursor's frame and index among the loaded entries. -/
def findCursorEntry (s : IteratorSource) (frameOffset : UInt64) (frameEntryIndex : UInt32) :
    Option ℕ :=
  s.entries.findIdx? fun e => e.frameOffset == frameOffset && e.frameEntryIndex == frameEntryIndex

/-- The first attempt of `source_seek_cursor` to load the cursor's frame.
SOURCE: librecorder.c:2062-2069 -/
def sourceLoadCursorFrame (unit : Option Bytes) (s : IteratorSource) (path : SegmentPath)
    (frameOffset : UInt64) : Int × IteratorSource :=
  match path.file.file.index.bind (indexFindOffsetFrame · frameOffset) with
  | none => sourceLoadSegmentFallback s .forward
  | some frameIndex =>
    match sourceLoadIndex s with
    | (rc, s) =>
      if rc ≠ 0 then sourceLoadSegmentFallback s .forward
      else
        match sourceLoadFrame unit s frameIndex .forward with
        | (rc, s) => if rc ≠ 0 then sourceLoadSegmentFallback s .forward else (0, s)

/-- `source_seek_cursor`: the realtime of the entry it found, or a failure.
SOURCE: librecorder.c:2045-2098 -/
def sourceSeekCursor (unit : Option Bytes) (s : IteratorSource) (segmentSeq frameOffset : UInt64)
    (frameEntryIndex : UInt32) : Option UInt64 × IteratorSource :=
  match s.segments.findIdx? (·.segmentSeq == segmentSeq) with
  | none => (none, s)
  | some i =>
    match s.segments[i]? with
    | none => (none, s)
    | some path =>
      match sourceLoadCursorFrame unit { s with segmentIndex := i } path frameOffset with
      | (rc, s) =>
        if rc < 0 then (none, s)
        else
          match findCursorEntry s frameOffset frameEntryIndex with
          | some j => (s.entries[j]?.map (·.data.realtimeTs), { s with entryIndex := j })
          | none =>
            if s.segmentScanFallback then (none, s)
            else
              match sourceLoadSegmentFallback s .forward with
              | (_, s) =>
                match findCursorEntry s frameOffset frameEntryIndex with
                | some j => (s.entries[j]?.map (·.data.realtimeTs), { s with entryIndex := j })
                | none => (none, s)

/-! ## The merge -/

/-- Run a source function over all sources until one fails. -/
def forSources (f : IteratorSource → Int × IteratorSource) :
    List IteratorSource → Bool × List IteratorSource
  | [] => (true, [])
  | s :: rest =>
    match f s with
    | (rc, s) =>
      if rc < 0 then (false, s :: rest)
      else
        match forSources f rest with
        | (ok, rest) => (ok, s :: rest)

/-- `iterator_reset`.
SOURCE: librecorder.c:1615-1633 -/
def iteratorReset (r : Reader) : Reader :=
  { r with
    sources := []
    currentSource := none
    currentEntry := none
    currentValid := false
    lastDirection := none
    cursorPending := false
    cursorSourcesPending := false }

/-- `clear_entries`.
SOURCE: librecorder.c:385-406 -/
def clearEntries (r : Reader) : Reader :=
  iteratorReset { r with entries := [], current := none, follow := {} }

/-- `source_add_segment`, to the source of the path's group.
SOURCE: librecorder.c:2212-2227 -/
def addSourceSegment (sources : List IteratorSource) (path : SegmentPath) :
    List IteratorSource :=
  match sources with
  | [] => [{ group := path.file.group, segments := [path] }]
  | s :: rest =>
    if s.group == path.file.group then { s with segments := s.segments ++ [path] } :: rest
    else s :: addSourceSegment rest path

/-- `iterator_collect_sources`.
SOURCE: librecorder.c:2196-2230 -/
def iteratorCollectSources (store : Store) (r : Reader) : Reader :=
  { iteratorReset r with
    sources := (sortPaths (collectSegmentPaths store r.groupFilter)).foldl addSourceSegment [] }

/-- `iterator_initialize`.
SOURCE: librecorder.c:2232-2244 -/
def iteratorInitialize (store : Store) (dir : Direction) (r : Reader) : Int × Reader :=
  let r := iteratorCollectSources store r
  match forSources (fun s => sourcePositionEdge r.unitFilter s dir) r.sources with
  | (true, sources) => (0, { r with sources := sources, lastDirection := some dir })
  | (false, _) => (-1, iteratorReset r)

/-- Whether `compare * direction < 0`. -/
def before (cmp : StoredEntry → StoredEntry → Ordering) (dir : Direction) (a b : StoredEntry) :
    Bool :=
  match dir with
  | .forward => cmp a b == .lt
  | .reverse => cmp a b == .gt

/-- `iterator_pick`, with the entry of the source it picks.
SOURCE: librecorder.c:2246-2259 -/
def iteratorPick (r : Reader) (dir : Direction) : Option (ℕ × StoredEntry) :=
  Lib.pickLoop (before (compareIteratorEntries r.order) dir) (r.sources.map sourceCurrent) 0 none

/-- `iterator_seek_realtime`.
SOURCE: librecorder.c:2034-2043 -/
def iteratorSeekRealtime (store : Store) (usec : UInt64) (r : Reader) : Int × Reader :=
  match iteratorInitialize store .forward r with
  | (rc, r) =>
    if rc ≠ 0 then (-1, r)
    else
      match forSources (sourceSeekRealtime r.unitFilter usec) r.sources with
      | (false, sources) => (-1, { r with sources := sources })
      | (true, sources) =>
        (0, { r with sources := sources, currentValid := false, currentEntry := none })

/-! ## Seeking -/

/-- `rec_player_seek_head`.
SOURCE: librecorder.c:2503-2510 -/
def recPlayerSeekHead (store : Store) (r : Reader) : Int × Reader :=
  match iteratorInitialize store .forward (clearEntries r) with
  | (rc, r) => if rc ≠ 0 then (-1, r) else (0, { r with orderChanged := false })

/-- `rec_player_seek_tail`.
SOURCE: librecorder.c:2512-2526 -/
def recPlayerSeekTail (store : Store) (r : Reader) : Int × Reader :=
  let r := clearEntries r
  let r := { r with follow := initializeTailFollow store r.groupFilter r.follow }
  match iteratorInitialize store .reverse r with
  | (rc, r) =>
    if rc ≠ 0 then (-1, clearEntries r)
    else (0, { r with lastDirection := none, current := some 0, orderChanged := false })

/-- `rec_player_seek_realtime_usec`.
SOURCE: librecorder.c:2528-2536 -/
def recPlayerSeekRealtimeUsec (store : Store) (usec : UInt64) (r : Reader) : Int × Reader :=
  match iteratorSeekRealtime store usec (clearEntries r) with
  | (rc, r) => if rc ≠ 0 then (-1, r) else (0, { r with orderChanged := false })

/-- The values `parse_cursor` reads from a cursor string. -/
structure Cursor where
  storeId : UInt64
  group : Bytes
  segmentSeq : UInt64
  frameOffset : UInt64
  frameEntryIndex : UInt32
  deriving DecidableEq, Repr

/-- The segment a cursor names.
SOURCE: librecorder.c:2549-2558 -/
def cursorPath (store : Store) (c : Cursor) : Option SegmentPath :=
  if store.directory then
    (store.files.find? fun f => f.group == c.group && f.nameSeq == c.segmentSeq).map
      (⟨·, c.segmentSeq⟩)
  else store.files.head?.map (⟨·, c.segmentSeq⟩)

/-- Advance every source past the entries at or before a key. -/
def iteratorSkipWhile (r : Reader) (skip : StoredEntry → Bool) (dir : Direction)
    (sources : List IteratorSource) : Bool × List IteratorSource :=
  forSources (fun s =>
    match sourceAdvanceWhile r.unitFilter dir skip (sourceSize s) s with
    | (ok, s) => (if ok then 0 else -1, s)) sources

/-- The part of `rec_player_seek_cursor_once` for a cursor of a group that is filtered out.
SOURCE: librecorder.c:2583-2612 -/
def seekExcludedCursor (store : Store) (key : StoredEntry) (r : Reader) : Int × Reader :=
  let done (r : Reader) : Int × Reader :=
    (0, { r with lastDirection := some .forward, orderChanged := false })
  match r.order with
  | .recorded =>
    let r := iteratorCollectSources store r
    match forSources (sourceSeekRecordedAfter r.unitFilter r.order key) r.sources with
    | (false, sources) => (-1, { r with sources := sources })
    | (true, sources) => done { r with sources := sources }
  | .wallclock =>
    match iteratorSeekRealtime store key.data.realtimeTs r with
    | (rc, r) =>
      if rc ≠ 0 then (-1, r)
      else
        match iteratorSkipWhile r (fun e => (compareStoredEntries e key).isLE) .forward
            r.sources with
        | (false, sources) => (-1, { r with sources := sources })
        | (true, sources) => done { r with sources := sources }

/-- `rec_player_seek_cursor_once`.
SOURCE: librecorder.c:2538-2626 -/
def recPlayerSeekCursorOnce (store : Store) (c : Cursor) (r : Reader) : Int × Reader :=
  let r := iteratorReset r
  let r := { r with follow := {} }
  match cursorPath store c with
  | none => (-1, iteratorReset r)
  | some path =>
    -- the cursor's own entry is read without the query's filters
    match sourceSeekCursor none { group := c.group, segments := [path] } c.segmentSeq
        c.frameOffset c.frameEntryIndex with
    | (none, _) => (-1, iteratorReset r)
    | (some _, source) =>
      if !groupAllowed r.groupFilter c.group then
        match sourceCurrent source with
        | none => (-1, r)
        | some e => seekExcludedCursor store { e with group := c.group } r
      else
        (0, { r with
          sources := [source]
          currentSource := some 0
          cursorPending := true
          cursorSourcesPending := true
          cursorGroup := c.group
          cursorSegmentSeq := c.segmentSeq
          cursorFrameOffset := c.frameOffset
          cursorFrameEntryIndex := c.frameEntryIndex
          currentEntry := none
          currentValid := false
          lastDirection := none
          orderChanged := false })

/-- Whether a cursor names an entry. -/
def Cursor.names (c : Cursor) (e : StoredEntry) : Bool :=
  e.group == c.group && e.segmentSeq == c.segmentSeq && e.frameOffset == c.frameOffset &&
    e.frameEntryIndex == c.frameEntryIndex

/-- `rec_player_seek_cursor`, behind `parse_cursor`.
SOURCE: librecorder.c:2628-2666 -/
def recPlayerSeekCursor (store : Store) (c : Cursor) (r : Reader) : Int × Reader :=
  if r.storeId ≠ some c.storeId then (-1, r)
  else if r.currentValid && r.currentEntry.any c.names then
    (0, { r with
      cursorPending := true
      cursorSourcesPending := false
      currentEntry := none
      currentValid := false })
  else
    match recPlayerSeekCursorOnce store c r with
    | (rc, r) => if rc = 0 then (0, r) else (-1, iteratorReset r)

/-! ## Turning round and resuming -/

/-- `iterator_position_at_cursor`.
SOURCE: librecorder.c:2106-2142 -/
def iteratorPositionAtCursor (r : Reader) (sourceIndex : ℕ) : Int × Reader :=
  match (r.sources[sourceIndex]?).bind sourceCurrent with
  | none => (-1, r)
  | some cursorEntry =>
    match iteratorSkipWhile r (fun e => compareStoredEntries e cursorEntry == .lt) .forward
        r.sources with
    | (false, sources) => (-1, { r with sources := sources })
    | (true, sources) =>
      if ((sources[sourceIndex]?).bind sourceCurrent).any
          (fun e => compareStoredEntries e cursorEntry == .eq) then
        (0, { r with
          sources := sources
          currentSource := some sourceIndex
          currentEntry := none
          currentValid := false
          lastDirection := none })
      else (-1, { r with sources := sources })

/-- `iterator_materialize_cursor_sources`.
SOURCE: librecorder.c:2156-2194 -/
def iteratorMaterializeCursorSources (store : Store) (r : Reader) : Int × Reader :=
  if !r.cursorSourcesPending then (0, r)
  else
    let seq := r.cursorSegmentSeq
    let offset := r.cursorFrameOffset
    let entryIndex := r.cursorFrameEntryIndex
    let group := r.cursorGroup
    let r := iteratorCollectSources store r
    match r.sources.findIdx? (·.group == group) with
    | none => (-1, r)
    | some i =>
      match r.sources[i]? with
      | none => (-1, r)
      | some source =>
        match sourceSeekCursor r.unitFilter source seq offset entryIndex with
        | (none, source) => (-1, { r with sources := r.sources.set i source })
        | (some realtimeTs, source) =>
          let r := { r with sources := r.sources.set i source }
          match r.order with
          | .recorded =>
            match sourceCurrent source with
            | none => (-1, r)
            | some cursorEntry =>
              match forSources (sourceSeekRecordedAfter r.unitFilter r.order cursorEntry)
                  r.sources with
              | (false, sources) => (-1, { r with sources := sources })
              | (true, sources) =>
                (0, { r with
                  sources := sources
                  currentSource := some i
                  currentEntry := none
                  currentValid := false
                  lastDirection := none
                  cursorSourcesPending := false })
          | .wallclock =>
            match forSources (sourceSeekRealtime r.unitFilter realtimeTs)
                (r.sources.eraseIdx i) with
            | (false, _) => (-1, r)
            | (true, others) =>
              match iteratorPositionAtCursor { r with sources := others.insertIdx i source } i with
              | (rc, r) =>
                if rc ≠ 0 then (-1, r) else (0, { r with cursorSourcesPending := false })

/-- Step a source back over the entries at or behind a key; a source that has run out is
entered from its end.
SOURCE: librecorder.c:2710-2722, 2851-2865 -/
def sourceStepBack (unit : Option Bytes) (skip : StoredEntry → Bool) (s : IteratorSource) :
    Int × IteratorSource :=
  match (if (sourceCurrent s).isSome then sourceAdvance unit s .reverse
    else sourcePositionEdge unit s .reverse) with
  | (rc, s) =>
    if rc < 0 then (-1, s)
    else
      match sourceAdvanceWhile unit .reverse skip (sourceSize s) s with
      | (ok, s) => (if ok then 0 else -1, s)

/-- One source in `iterator_reposition_after_current`. -/
def sourceReposition (unit : Option Bytes) (order : Order) (key : StoredEntry) (dir : Direction)
    (s : IteratorSource) : Int × IteratorSource :=
  match order with
  | .recorded =>
    match sourceSeekRecordedAfter unit order key s with
    | (rc, s) =>
      if rc ≠ 0 then (-1, s)
      else
        match dir with
        | .forward => (0, s)
        | .reverse => sourceStepBack unit (fun e => (compareIteratorEntries order e key).isGE) s
  | .wallclock =>
    match dir with
    | .forward =>
      match sourceAdvanceWhile unit .forward (fun e => (compareStoredEntries e key).isLE)
          (sourceSize s) s with
      | (ok, s) => (if ok then 0 else -1, s)
    | .reverse =>
      match sourceAdvanceWhile unit .forward (fun e => compareStoredEntries e key == .lt)
          (sourceSize s) s with
      | (ok, s) =>
        if !ok then (-1, s) else sourceStepBack unit (fun _ => false) s

/-- `iterator_reposition_after_current`.
SOURCE: librecorder.c:2686-2757 -/
def iteratorRepositionAfterCurrent (store : Store) (dir : Direction) (r : Reader) :
    Int × Reader :=
  match (if r.currentValid then r.currentEntry else none) with
  | none => (-1, r)
  | some key =>
    let started : Int × Reader := match r.order with
      | .recorded => (0, iteratorCollectSources store r)
      | .wallclock => iteratorSeekRealtime store key.data.realtimeTs r
    match started with
    | (rc, r) =>
      if rc ≠ 0 then (-1, r)
      else
        match forSources (sourceReposition r.unitFilter r.order key dir) r.sources with
        | (false, sources) => (-1, { r with sources := sources })
        | (true, sources) =>
          (0, { r with
            sources := sources
            currentSource := none
            currentEntry := none
            currentValid := false
            lastDirection := some dir })

/-- `append_pending_entries`: a follow scan, its entries sorted in the reader's order and
appended. The insertion sort of the source is stable, and so is this one.
SOURCE: librecorder.c:600-660 -/
def appendPendingEntries (store : Store) (fault : ScanFault) (r : Reader) : Int × Reader :=
  match scanFollow store r.groupFilter fault 0 r.follow with
  | (rc, entries, follow) =>
    if rc ≠ 0 then (-1, { r with follow := follow })
    else
      (0, { r with
        follow := follow
        entries := r.entries ++
          entries.insertionSort fun a b => (compareIteratorEntries r.order a b).isLE })

/-- `iterator_next_follow_entry`.
SOURCE: librecorder.c:2759-2773 -/
def iteratorNextFollowEntry (store : Store) (fault : ScanFault) (r : Reader) : Int × Reader :=
  let exhausted (r : Reader) : Bool := r.current.all (r.entries.length ≤ ·)
  let refreshed : Int × Reader :=
    if r.follow.pending || exhausted r then
      match appendPendingEntries store fault r with
      | (rc, r) =>
        if rc ≠ 0 then (-1, r) else (0, { r with follow := { r.follow with pending := false } })
    else (0, r)
  match refreshed with
  | (rc, r) =>
    if rc ≠ 0 then (-1, r)
    else
      match r.current.bind fun i => r.entries[i]?.map (i, ·) with
      | none => (0, r)
      | some (i, e) =>
        (1, { r with
          current := some (i + 1)
          currentEntry := some e
          currentValid := true
          currentSource := none
          lastDirection := some .forward })

/-- Advance the current source. -/
def advanceCurrentSource (dir : Direction) (r : Reader) : Int × Reader :=
  match r.currentSource.bind fun i => r.sources[i]?.map (i, ·) with
  | none => (0, r)
  | some (i, s) =>
    match sourceAdvance r.unitFilter s dir with
    | (rc, s) => (if rc < 0 then -1 else 0, { r with sources := r.sources.set i s })

/-- The end of `rec_player_next` and `rec_player_previous`: make a picked entry current. -/
def setCurrent (r : Reader) (dir : Direction) (i : ℕ) (e : StoredEntry) : Reader :=
  { r with
    currentSource := some i
    currentEntry := some e
    currentValid := true
    lastDirection := some dir }

/-- The positioning part of `rec_player_next`, in front of `iterator_pick`.
SOURCE: librecorder.c:2786-2812 -/
def nextPosition (store : Store) (r : Reader) : Int × Reader :=
  if r.cursorPending then (0, { r with cursorPending := false, lastDirection := some .forward })
  else if r.orderChanged && r.currentValid then
    match iteratorMaterializeCursorSources store r with
    | (rc, r) =>
      if rc ≠ 0 then (-1, r)
      else
        match iteratorRepositionAfterCurrent store .forward r with
        | (rc, r) => if rc ≠ 0 then (-1, r) else (0, { r with orderChanged := false })
  else if r.cursorSourcesPending && r.currentValid then
    match iteratorMaterializeCursorSources store r with
    | (rc, r) =>
      if rc ≠ 0 then (-1, r)
      else if r.order = .wallclock then advanceCurrentSource .forward r
      else (0, r)
  else if r.lastDirection = some .reverse && r.currentValid then
    iteratorRepositionAfterCurrent store .forward r
  else if r.lastDirection ≠ some .forward then
    match recPlayerSeekHead store r with
    | (rc, r) => if rc ≠ 0 then (-1, r) else (0, r)
  else if r.currentValid then advanceCurrentSource .forward r
  else (0, r)

/-- `rec_player_next`.
SOURCE: librecorder.c:2775-2824 -/
def recPlayerNext (store : Store) (fault : ScanFault) (r : Reader) : Int × Reader :=
  if r.follow.initialized && r.current.any (fun i =>
      decide (i < r.entries.length) || !r.currentValid || r.currentSource.isNone) then
    iteratorNextFollowEntry store fault r
  else
    match nextPosition store r with
    | (rc, r) =>
      if rc ≠ 0 then (-1, r)
      else
        match iteratorPick r .forward with
        | none =>
          let r := { r with currentEntry := none, currentValid := false }
          if r.follow.initialized then iteratorNextFollowEntry store fault r else (0, r)
        | some (i, e) => (1, setCurrent r .forward i e)

/-- The cursor branch of `rec_player_previous`.
SOURCE: librecorder.c:2834-2872 -/
def previousFromCursor (store : Store) (r : Reader) : Int × Reader :=
  match r.currentEntry.or (r.currentSource.bind fun i => (r.sources[i]?).bind sourceCurrent) with
  | none => (-1, r)
  | some key =>
    match iteratorMaterializeCursorSources store r with
    | (rc, r) =>
      if rc ≠ 0 then (-1, r)
      else
        let skip (e : StoredEntry) : Bool :=
          r.order = .recorded && (compareIteratorEntries r.order e key).isGE
        match forSources (sourceStepBack r.unitFilter skip) r.sources with
        | (false, sources) => (-1, { r with sources := sources })
        | (true, sources) =>
          (0, { r with
            sources := sources
            cursorPending := false
            currentValid := false
            currentEntry := none
            lastDirection := some .reverse
            orderChanged := false })

/-- The positioning part of `rec_player_previous`, in front of `iterator_pick`.
SOURCE: librecorder.c:2833-2885 -/
def previousPosition (store : Store) (r : Reader) : Int × Reader :=
  if r.cursorPending then previousFromCursor store r
  else if r.orderChanged && r.currentValid then
    match iteratorMaterializeCursorSources store r with
    | (rc, r) =>
      if rc ≠ 0 then (-1, r)
      else
        match iteratorRepositionAfterCurrent store .reverse r with
        | (rc, r) => if rc ≠ 0 then (-1, r) else (0, { r with orderChanged := false })
  else if r.lastDirection = some .forward && r.currentValid then
    iteratorRepositionAfterCurrent store .reverse r
  else if r.lastDirection ≠ some .reverse then
    let sought : Int × Reader :=
      if !r.currentValid || r.sources.isEmpty then recPlayerSeekTail store r else (0, r)
    match sought with
    | (rc, r) =>
      if rc ≠ 0 then (-1, r)
      else (0, { r with lastDirection := some .reverse, orderChanged := false })
  else if r.currentValid then advanceCurrentSource .reverse r
  else (0, r)

/-- `rec_player_previous`.
SOURCE: librecorder.c:2826-2896 -/
def recPlayerPrevious (store : Store) (r : Reader) : Int × Reader :=
  match previousPosition store r with
  | (rc, r) =>
    if rc ≠ 0 then (-1, r)
    else
      match iteratorPick r .reverse with
      | none => (0, { r with currentEntry := none, currentValid := false })
      | some (i, e) => (1, setCurrent r .reverse i e)

end Recorder.Model
