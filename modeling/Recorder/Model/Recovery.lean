import Recorder.Model.SegmentScan

/-!
# `recorder.c`: startup recovery

`recover_segment_dir_cb` looks at every `.seg` file of a group directory. A file the
metadata scan rejects is removed together with its index; a file with bytes behind the
committed end is truncated there; a closed plain segment without a usable index gets a new
one. `recoverSegmentFile` is one turn of the directory loop and `recoverSegmentDir` the
loop.
-/

set_option autoImplicit false

namespace Recorder.Model

/-- What the environment decides while recovery looks at one file. `mapOk` covers the
`open`, `fstat` and `mmap` of `segment_scan_path`. -/
structure RecoveryIo where
  statOk : Bool
  mapOk : Bool
  truncateOk : Bool
  unlinkOk : Bool
  deriving DecidableEq, Repr

/-- What recovery leaves of one file: its content, or nothing when it was unlinked; what
it did to the index; and whether the directory is synced afterwards. -/
structure RecoveredFile where
  content : Option Bytes
  indexUnlinked : Bool
  indexRebuilt : Bool
  changed : Bool
  deriving DecidableEq, Repr

/-- Removing a segment and its index. -/
def RecoveredFile.remove (io : RecoveryIo) (content : Bytes) : RecoveredFile where
  content := if io.unlinkOk then none else some content
  indexUnlinked := true
  indexRebuilt := false
  changed := io.unlinkOk

/-- One turn of the loop of `recover_segment_dir_cb`, for a `.seg` file. `indexOk` says
whether `index_get_frame_count` accepts the segment's index.
SOURCE: recorder.c:2222-2277 -/
def recoverSegmentFile (evp : EvpOps) (codec : CodecOps) (io : RecoveryIo) (indexOk : Bool)
    (content : Bytes) : RecoveredFile :=
  if !io.statOk then ⟨some content, false, false, false⟩
  else if content.length = 0 then .remove io content
  else if !io.mapOk then .remove io content
  else
    match metadataScan evp codec content with
    | .error _ => .remove io content
    | .ok out =>
      let cut := decide (out.committedEnd < content.length) && io.truncateOk
      { content := some (if cut then content.take out.committedEnd else content)
        indexUnlinked := false
        indexRebuilt := out.footer.present && out.header.flags &&& flagEncrypted == 0 && !indexOk
        changed := cut }

/-- A directory entry: a name and the content of the file. -/
structure DirEntry where
  name : String
  content : Bytes

/-- The names recovery looks at.
SOURCE: recorder.c:2230-2232 -/
def isSegmentName (name : String) : Bool := 5 ≤ name.length && name.endsWith ".seg"

/-- `recover_segment_dir_cb`: the entries of the directory afterwards.
SOURCE: recorder.c:2205-2282 -/
def recoverSegmentDir (evp : EvpOps) (codec : CodecOps) (io : String → RecoveryIo)
    (indexOk : String → Bool) (entries : List DirEntry) : List DirEntry :=
  entries.filterMap fun e =>
    if isSegmentName e.name then
      (recoverSegmentFile evp codec (io e.name) (indexOk e.name) e.content).content.map
        (⟨e.name, ·⟩)
    else some e

end Recorder.Model
