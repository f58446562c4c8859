import Recorder.Lib.Decimal
import Recorder.Model.Segment

/-!
# `recorder.c`: segment sequence numbers

The next number lives in the memory of a recorder process and in `state/segment_seq`; the
names of the segment files hold the numbers in use. A new process takes the larger of what
the file says and of what follows the largest name. The operations that touch one of these
are the actions of `seqStep`; between any two of them the process may crash, and retention
and recovery may remove any file at any time.

`read_persisted_next_segment_seq` looks at the character behind the number after it has
freed the text, so what it sees there is whatever the allocator left.
-/

set_option autoImplicit false

namespace Recorder.Model

open Recorder.Lib

/-! ## Names -/

/-- `.seg` -/
def segSuffix : Bytes := [46, 115, 101, 103]

/-- The file name of `build_segment_path`.
SOURCE: recorder.c:1823-1834 -/
def segmentName (seq : UInt64) : Bytes := decimal seq.toNat ++ segSuffix

/-- `segment_seq_from_name`.
SOURCE: recorder.c:2303-2315 -/
def segmentSeqFromName (name : Bytes) : Option UInt64 :=
  match strtoull name with
  | (some value, rest) => if rest = segSuffix then some (UInt64.ofNat value) else none
  | (none, _) => none

/-- `isalnum` in the C locale. -/
def isAlnum (b : UInt8) : Bool :=
  isDigit b || (65 ≤ b && b ≤ 90) || (97 ≤ b && b ≤ 122)

/-- `valid_group_name`.
SOURCE: recorder.c:981-996 -/
def validGroupName (name : Bytes) : Bool :=
  name ≠ [] && name.all fun b => isAlnum b || b == 95 || b == 45

/-- `state` -/
def stateDirName : Bytes := [115, 116, 97, 116, 101]

/-- `is_segment_dir_name`.
SOURCE: recorder.c:1732-1740 -/
def isSegmentDirName (name : Bytes) : Bool := validGroupName name && name != stateDirName

/-! ## Finding the next number -/

/-- The files of the group directories, as (directory, name). -/
abbrev SegmentNames := List (Bytes × Bytes)

/-- `scan_existing_segment_seq_max`.
SOURCE: recorder.c:1867-1904 -/
def scanExistingSegmentSeqMax (files : SegmentNames) : UInt64 :=
  ((files.filter fun f => isSegmentDirName f.1).foldl (fun found f =>
    match segmentSeqFromName f.2, found with
    | none, _ => found
    | some seq, none => some seq
    | some seq, some m => if seq > m then some seq else some m) (none : Option UInt64)).getD 0

/-- The text `persist_next_segment_seq` writes.
SOURCE: recorder.c:1932-1942 -/
def seqText (value : UInt64) : Bytes := decimal value.toNat ++ [10]

/-- `read_persisted_next_segment_seq`, with the character that is read from the freed text.
SOURCE: recorder.c:1904-1930 -/
def readPersistedNextSegmentSeq (stateFile : Option Bytes) (freed : UInt8) : Option UInt64 :=
  match stateFile with
  | none => none
  | some text =>
    match (strtoull text).1 with
    | none => none
    | some value => if freed ≠ 0 ∧ freed ≠ 10 then none else some (UInt64.ofNat value)

/-- The next number of a new process.
SOURCE: recorder.c:3857-3863 -/
def recorderInitNextSeq (files : SegmentNames) (stateFile : Option Bytes) (freed : UInt8) :
    UInt64 :=
  let scannedNext := scanExistingSegmentSeqMax files + 1
  match readPersistedNextSegmentSeq stateFile freed with
  | some persisted => if persisted > scannedNext then persisted else scannedNext
  | none => scannedNext

/-! ## Processes on one store -/

/-- Where a process is: in `recorder_init` in front of `persist_next_segment_seq`, between
segments, in `writer_open_segment` in front of `persist_next_segment_seq`, or there in front
of the `rename` that makes the segment file. -/
inductive SeqPlace
  | starting
  | idle
  | persisting (group : Bytes) (seq : UInt64)
  | creating (group : Bytes) (seq : UInt64)
  deriving DecidableEq, Repr

/-- A recorder process, as far as it deals with sequence numbers. -/
structure SeqProcess where
  nextSegmentSeq : UInt64
  place : SeqPlace
  deriving DecidableEq, Repr

/-- A store and the process on it, with the numbers of the segment files that were ever made
and the count of numbers that were taken. -/
structure SeqStore where
  stateFile : Option Bytes := none
  files : SegmentNames := []
  process : Option SeqProcess := none
  created : List UInt64 := []
  allocated : ℕ := 0
  deriving DecidableEq, Repr

/-- What becomes of `persist_next_segment_seq`: the file is replaced, or it is not, or it is
and the call fails all the same. -/
inductive PersistOutcome
  | written
  | failed
  | unsynced
  deriving DecidableEq, Repr

/-- The state file behind `persist_next_segment_seq`. -/
def PersistOutcome.file (outcome : PersistOutcome) (value : UInt64) (old : Option Bytes) :
    Option Bytes :=
  match outcome with
  | .failed => old
  | .written | .unsynced => some (seqText value)

/-- The actions on a store. -/
inductive SeqAction
  /-- `recorder_init` up to `persist_next_segment_seq`. -/
  | start (freed : UInt8)
  /-- `persist_next_segment_seq`. -/
  | persist (outcome : PersistOutcome)
  /-- `writer_open_segment` takes a number. -/
  | openSegment (group : Bytes)
  /-- The `rename` of the new segment, or a failure before it. -/
  | create (ok : Bool)
  /-- Retention or recovery removes a file. -/
  | remove (file : Bytes × Bytes)
  | crash
  deriving DecidableEq, Repr

/-- One action; `none` where the process is at another place.
SOURCE: recorder.c:3395-3506, 3856-3864 -/
def seqStep (s : SeqStore) : SeqAction → Option SeqStore
  | .start freed =>
    match s.process with
    | none => some { s with
        process := some ⟨recorderInitNextSeq s.files s.stateFile freed, .starting⟩ }
    | some _ => none
  | .persist outcome =>
    match s.process with
    | some ⟨next, .starting⟩ => some { s with
        stateFile := outcome.file next s.stateFile
        process := some ⟨next, .idle⟩ }
    | some ⟨next, .persisting group seq⟩ => some { s with
        stateFile := outcome.file next s.stateFile
        process := some ⟨next, if outcome = .written then .creating group seq else .idle⟩ }
    | _ => none
  | .openSegment group =>
    match s.process with
    | some ⟨next, .idle⟩ => some { s with
        process := some ⟨next + 1, .persisting group next⟩
        allocated := s.allocated + 1 }
    | _ => none
  | .create ok =>
    match s.process with
    | some ⟨next, .creating group seq⟩ =>
      if ok then some { s with
          files := s.files ++ [(group, segmentName seq)]
          created := s.created ++ [seq]
          process := some ⟨next, .idle⟩ }
      else some { s with process := some ⟨next, .idle⟩ }
    | _ => none
  | .remove file => some { s with files := s.files.filter (· ≠ file) }
  | .crash => some { s with process := none }

/-- A sequence of actions. -/
def seqRun : SeqStore → List SeqAction → Option SeqStore
  | s, [] => some s
  | s, a :: rest => (seqStep s a).bind fun s => seqRun s rest

end Recorder.Model
