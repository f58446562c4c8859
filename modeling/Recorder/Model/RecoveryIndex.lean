import Recorder.Model.Index
import Recorder.Model.Recovery

/-!
# `recorder.c`: startup recovery with the index files

`recoverSegmentFile` says only whether the loop of `recover_segment_dir_cb` touches an index.
`recoverSegment` is the same turn with the index files of the directory, by their sequence
number: a file that is removed takes the index of its name along, and a closed plain segment
without a usable index gets the index its own scan gives.
-/

set_option autoImplicit false

namespace Recorder.Model

/-- What the environment decides about an index: whether it can be opened and read, and whether
one can be written and moved to its place. -/
structure IndexIo where
  readOk : Bool
  rebuildOk : Bool
  deriving DecidableEq, Repr

/-- A segment file with the index files beside it. `changed` says that the directory is synced
behind the loop. -/
structure RecoveredSegment where
  content : Option Bytes
  indexes : UInt64 → Option Bytes
  changed : Bool

/-- `index_get_frame_count` accepts the index of a segment. -/
def indexAccepted (indexIo : IndexIo) (segment : Bytes) (index : Option Bytes) : Bool :=
  match index with
  | none => false
  | some file => indexIo.readOk && (indexOpenRead file segment).isSome

/-- What becomes of the index at the path that belongs to the segment's header. `pathOk` says
that the path fits its buffer.
SOURCE: recorder.c:2265-2275 -/
def recoverIndex (evp : EvpOps) (codec : CodecOps) (getters : ChunkGetters) (indexIo : IndexIo)
    (pathOk : Bool) (out : ScanOut) (segment : Bytes) (index : Option Bytes) : Option Bytes :=
  if out.footer.present && pathOk && out.header.flags &&& flagEncrypted == 0 &&
      !indexAccepted indexIo segment index then
    if indexIo.rebuildOk then
      match indexRebuildForSegment evp codec getters segment false with
      | none => index
      | some file => some file
    else index
  else index

/-- One turn of the loop of `recover_segment_dir_cb`, for a `.seg` file whose name says `seq`.
SOURCE: recorder.c:2222-2277 -/
def recoverSegment (evp : EvpOps) (codec : CodecOps) (getters : ChunkGetters) (io : RecoveryIo)
    (indexIo : IndexIo) (pathOk : Bool) (seq : UInt64) (content : Bytes)
    (indexes : UInt64 → Option Bytes) : RecoveredSegment :=
  let remove : RecoveredSegment :=
    { content := if io.unlinkOk then none else some content
      indexes := if pathOk then Function.update indexes seq none else indexes
      changed := io.unlinkOk }
  if !io.statOk then ⟨some content, indexes, false⟩
  else if content.length = 0 then remove
  else if !io.mapOk then remove
  else
    match metadataScan evp codec content with
    | .error _ => remove
    | .ok out =>
      let cut := decide (out.committedEnd < content.length) && io.truncateOk
      let kept := if cut then content.take out.committedEnd else content
      let index := out.header.segmentSeq
      { content := some kept
        indexes := Function.update indexes index
          (recoverIndex evp codec getters indexIo pathOk out kept (indexes index))
        changed := cut }

end Recorder.Model
