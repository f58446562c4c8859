import Recorder.Model.Store

/-!
# `librecorder.c`: high-water marks and follow scans

A following reader keeps one mark for each group, the sequence number and committed end of
the newest segment it has scanned. `scanFollow` is `rec_player_scan_follow`: it looks at the
newest segment of each group only, unless a change of the directory has been noticed.
-/

set_option autoImplicit false

namespace Recorder.Model

/-- `FollowSegment`.
SOURCE: librecorder.c:116-121 -/
structure FollowSegment where
  group : Bytes
  segmentSeq : UInt64
  committedEnd : UInt64
  deriving DecidableEq, Repr

/-- The follow part of a reader. -/
structure FollowState where
  segments : List FollowSegment := []
  initialized : Bool := false
  pending : Bool := false
  topologyPending : Bool := false
  deriving DecidableEq, Repr

/-- `find_follow_segment`.
SOURCE: librecorder.c:919-933 -/
def findFollowSegment (marks : List FollowSegment) (group : Bytes) : Option FollowSegment :=
  marks.find? (·.group == group)

/-- `remember_follow_segment`: a mark never goes back to an older segment.
SOURCE: librecorder.c:935-975 -/
def rememberFollowSegment (marks : List FollowSegment) (path : SegmentPath)
    (committedEnd : UInt64) : List FollowSegment :=
  match marks with
  | [] => [⟨path.file.group, path.segmentSeq, committedEnd⟩]
  | item :: rest =>
    if item.group == path.file.group then
      if path.segmentSeq < item.segmentSeq then item :: rest
      else ⟨item.group, path.segmentSeq, committedEnd⟩ :: rest
    else item :: rememberFollowSegment rest path committedEnd

/-- Which segments cannot be read at the moment, and after how many frames a scan of such
a segment fails. -/
abbrev ScanFault := StoreFile → Option ℕ

/-- The scan of one segment in a follow scan: whether it succeeded, and what the callback
got.
SOURCE: librecorder.c:1104-1118 -/
def scanPathWithContext (fault : ScanFault) (f : StoreFile) (minFrameOffset : UInt64) :
    Bool × List StoredEntry :=
  match fault f with
  | none => (true, f.entriesFrom minFrameOffset)
  | some n =>
    (false, ((f.file.frames.take n).filter (minFrameOffset ≤ ·.fileOffset)).flatMap
      (scanFrame f.group f.file.header))

/-- Where a follow scan starts in a segment, given the mark of its group; `none` for a
segment in front of the mark.
SOURCE: librecorder.c:1397-1402 -/
def followStart (marks : List FollowSegment) (path : SegmentPath) : Option UInt64 :=
  match findFollowSegment marks path.file.group with
  | none => some 0
  | some seen =>
    if path.segmentSeq < seen.segmentSeq then none
    else if path.segmentSeq = seen.segmentSeq then some seen.committedEnd
    else some 0

/-- The main loop of `rec_player_scan_follow`: result, entries handed to the callback and
marks.
SOURCE: librecorder.c:1396-1409 -/
def followLoop (fault : ScanFault) :
    List SegmentPath → List FollowSegment → Bool × List StoredEntry × List FollowSegment
  | [], marks => (true, [], marks)
  | path :: paths, marks =>
    match followStart marks path with
    | none => followLoop fault paths marks
    | some start =>
      match scanPathWithContext fault path.file start with
      | (false, entries) => (false, entries, marks)
      | (true, entries) =>
        match followLoop fault paths
            (rememberFollowSegment marks path path.file.file.committedEnd) with
        | (ok, more, marks) => (ok, entries ++ more, marks)

/-- The history loop of a first follow scan, over the paths from the newest on.
SOURCE: librecorder.c:1419-1429 -/
def followHistoryLoop (fault : ScanFault) (marks : List FollowSegment) (initialEntries : ℕ) :
    List SegmentPath → ℕ → Bool × List StoredEntry
  | [], _ => (true, [])
  | path :: paths, scanned =>
    if scanned < initialEntries then
      match findFollowSegment marks path.file.group with
      | some seen =>
        if path.segmentSeq ≥ seen.segmentSeq then
          followHistoryLoop fault marks initialEntries paths scanned
        else
          match scanPathWithContext fault path.file 0 with
          | (false, entries) => (false, entries)
          | (true, entries) =>
            match followHistoryLoop fault marks initialEntries paths
                (scanned + entries.length) with
            | (ok, more) => (ok, entries ++ more)
      | none =>
        match scanPathWithContext fault path.file 0 with
        | (false, entries) => (false, entries)
        | (true, entries) =>
          match followHistoryLoop fault marks initialEntries paths
              (scanned + entries.length) with
          | (ok, more) => (ok, entries ++ more)
    else (true, [])

/-- `rec_player_scan_follow`, with a callback that always returns 0: the result, the
entries it was handed, and the follow state.
SOURCE: librecorder.c:1376-1438 -/
def scanFollow (store : Store) (filter : List Bytes) (fault : ScanFault) (initialEntries : ℕ)
    (st : FollowState) : Int × List StoredEntry × FollowState :=
  let paths :=
    if store.directory && st.initialized && st.topologyPending then
      collectSegmentPaths store filter
    else collectLatestSegmentPaths store filter
  match followLoop fault (sortPaths paths) st.segments with
  | (false, entries, marks) => (-1, entries, { st with segments := marks })
  | (true, entries, marks) =>
    let history :=
      if !st.initialized && decide (entries.length < initialEntries) && store.directory then
        followHistoryLoop fault marks initialEntries
          (sortPaths (collectSegmentPaths store filter)).reverse entries.length
      else (true, [])
    match history with
    | (false, more) => (-1, entries ++ more, { st with segments := marks })
    | (true, more) =>
      (0, entries ++ more,
        { st with segments := marks, initialized := true, topologyPending := false })

/-- `initialize_tail_follow`: the marks of the newest segments, without their entries.
SOURCE: librecorder.c:1463-1496 -/
def initializeTailFollow (store : Store) (filter : List Bytes) (st : FollowState) :
    FollowState :=
  let paths := sortPaths (collectLatestSegmentPaths store filter)
  { st with
    segments := paths.foldl (fun marks path =>
      rememberFollowSegment marks path path.file.file.committedEnd) st.segments
    initialized := true
    topologyPending := false
    pending := false }

/-! ## Change events -/

/-- The inotify events of a log directory that matter to a reader: a segment file was
written to, or a segment file or a group directory appeared. -/
inductive FollowEvent
  | modify
  | create
  deriving DecidableEq, Repr

/-- The results of `rec_player_process` other than a failure. -/
inductive ProcessResult
  | nop
  | append
  | invalidate
  deriving DecidableEq, Repr

/-- What the events read so far amount to; `INVALIDATE` is never taken back.
SOURCE: librecorder.c:3050-3063 -/
def processEvent (result : ProcessResult) (event : FollowEvent) : ProcessResult :=
  match event with
  | .create => .invalidate
  | .modify => if result = .invalidate then .invalidate else .append

/-- `rec_player_process`: all queued events are read. `watching` says whether there is an
inotify descriptor.
SOURCE: librecorder.c:3032-3077 -/
def recPlayerProcess (watching : Bool) (events : List FollowEvent) (st : FollowState) :
    ProcessResult × FollowState :=
  if !watching then (.invalidate, { st with pending := true, topologyPending := true })
  else
    let result := events.foldl processEvent .nop
    (result,
      { st with
        pending := st.pending || decide (result ≠ .nop)
        topologyPending := st.topologyPending || decide (result = .invalidate) })

end Recorder.Model
