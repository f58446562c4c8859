import Recorder.Lib.ExchangeSort
import Recorder.Model.Boot
import Recorder.Model.SegmentScan
import Recorder.Model.SegmentSeq

/-!
# `player.c`: the boots of a log

For `--list-boots` and for `-b` with an offset the player collects the segment files below a log
directory, scans each of them without a key and notes its boot. A directory that cannot be
opened, a path that is too long and a lack of memory are left out.
-/

set_option autoImplicit false

namespace Recorder.Model

open Recorder.Lib

/-! ## Boots -/

/-- `BootInfo`, with the id up to its NUL.
SOURCE: player.c:164-170 -/
structure BootInfo where
  bootSeq : UInt32
  bootId : Bytes
  firstRealtimeTs : UInt64
  lastRealtimeTs : UInt64
  firstSegmentSeq : UInt64
  deriving DecidableEq, Repr

/-- `find_boot`.
SOURCE: player.c:1241-1253 -/
def findBoot (boots : List BootInfo) (bootSeq : UInt32) (bootId : Bytes) : Option ℕ :=
  boots.findIdx? fun boot => boot.bootSeq == bootSeq ||
    boot.bootId == strnlenPrefix bootIdSize bootId

/-- The last realtime `add_boot` notes for a segment; one without a footer has none. -/
def SegmentMeta.lastRealtimeTs (scanned : SegmentMeta) : UInt64 :=
  if scanned.footer.lastRealtimeTs ≠ 0 then scanned.footer.lastRealtimeTs
  else scanned.header.firstRealtimeTs

/-- A boot that is there, with a further segment.
SOURCE: player.c:1263-1276 -/
def BootInfo.extend (boot : BootInfo) (scanned : SegmentMeta) : BootInfo :=
  { boot with
    firstRealtimeTs :=
      if scanned.header.firstRealtimeTs ≠ 0 ∧ (boot.firstRealtimeTs = 0 ∨
          scanned.header.firstRealtimeTs < boot.firstRealtimeTs) then
        scanned.header.firstRealtimeTs
      else boot.firstRealtimeTs
    lastRealtimeTs :=
      if scanned.lastRealtimeTs > boot.lastRealtimeTs then scanned.lastRealtimeTs
      else boot.lastRealtimeTs
    firstSegmentSeq :=
      if scanned.header.segmentSeq < boot.firstSegmentSeq then scanned.header.segmentSeq
      else boot.firstSegmentSeq }

/-- The boot of its first segment.
SOURCE: player.c:1287-1294 -/
def SegmentMeta.bootInfo (scanned : SegmentMeta) : BootInfo where
  bootSeq := scanned.header.bootSeq
  bootId := strnlenPrefix bootIdSize scanned.header.bootId
  firstRealtimeTs := scanned.header.firstRealtimeTs
  lastRealtimeTs := scanned.lastRealtimeTs
  firstSegmentSeq := scanned.header.segmentSeq

/-- `add_boot`.
SOURCE: player.c:1255-1296 -/
def addBoot (boots : List BootInfo) (scanned : SegmentMeta) : List BootInfo :=
  match findBoot boots scanned.header.bootSeq scanned.header.bootId with
  | some i => boots.modify i (·.extend scanned)
  | none => boots ++ [scanned.bootInfo]

/-- `sort_boots`.
SOURCE: player.c:1225-1239 -/
def sortBoots (boots : List BootInfo) : List BootInfo :=
  exchangeSort (fun b a => b.bootSeq < a.bootSeq) boots

/-! ## Segment files -/

/-- `SegmentPath` of the player, with the bytes of the file. -/
structure LogSegment where
  content : Bytes
  segmentSeq : UInt64
  deriving DecidableEq, Repr

/-- A child of the log directory: a regular file, a directory with its files, or neither. -/
inductive RootChild
  | file (name content : Bytes)
  | directory (name : Bytes) (files : List (Bytes × Bytes))
  | other (name : Bytes)

/-- What the player is given: a log directory, in the order of `readdir`, or a segment file. -/
inductive LogPath
  | directory (root : List RootChild)
  | file (name content : Bytes)

/-- The `segment_seq_from_name` of the player. A number that is too large is not rejected.
SOURCE: player.c:355-366 -/
def playerSegmentSeqFromName (name : Bytes) : Option UInt64 :=
  match strtoull name with
  | (value, rest) =>
    if rest = segSuffix then some (UInt64.ofNat (value.getD (2 ^ 64 - 1))) else none

/-- The `valid_group_name` of the player.
SOURCE: player.c:172-189 -/
def playerValidGroupName (name : Bytes) : Bool :=
  name ≠ [] && name ≠ stateDirName && name.all fun b =>
    (97 ≤ b && b ≤ 122) || (65 ≤ b && b ≤ 90) || (48 ≤ b && b ≤ 57) || b == 95 || b == 45

/-- `collect_segments_in_dir`.
SOURCE: player.c:1298-1325 -/
def collectSegmentsInDir (files : List (Bytes × Bytes)) : List LogSegment :=
  files.filterMap fun f => (playerSegmentSeqFromName f.1).map (⟨f.2, ·⟩)

/-- `collect_log_segments`.
SOURCE: player.c:1327-1375 -/
def collectLogSegments (root : List RootChild) : List LogSegment :=
  root.flatMap fun child =>
    match child with
    | .file name content => collectSegmentsInDir [(name, content)]
    | .directory name files => if playerValidGroupName name then collectSegmentsInDir files else []
    | .other _ => []

/-- `sort_segment_files`.
SOURCE: player.c:1209-1223 -/
def sortSegmentFiles (items : List LogSegment) : List LogSegment :=
  exchangeSort (fun b a => b.segmentSeq < a.segmentSeq) items

/-- `collect_boots_from_segments`; `none` where a file is rejected.
SOURCE: player.c:1377-1407 -/
def collectBootsFromSegments (evp : EvpOps) (codec : CodecOps) (items : List LogSegment) :
    Option (List BootInfo) :=
  (items.foldlM (fun (boots : List BootInfo) (item : LogSegment) =>
    match metadataScan evp codec item.content with
    | .error _ => none
    | .ok out => some (addBoot boots ⟨out.header, out.footer⟩)) []).map sortBoots

/-- `collect_boots_for_path`.
SOURCE: player.c:1409-1440 -/
def collectBootsForPath (evp : EvpOps) (codec : CodecOps) (path : LogPath) :
    Option (List BootInfo) :=
  match path with
  | .directory root =>
    collectBootsFromSegments evp codec (sortSegmentFiles (collectLogSegments root))
  | .file name content =>
    collectBootsFromSegments evp codec [⟨content, (playerSegmentSeqFromName name).getD 0⟩]

/-- The lines of `print_boots`: the offset of a boot, and the boot.
SOURCE: player.c:1442-1463 -/
def printBoots (boots : List BootInfo) : List (ℤ × BootInfo) :=
  boots.mapIdx fun i boot => ((i : ℤ) - boots.length + 1, boot)

/-! ## The argument of `-b` -/

/-- `parse_u32`.
SOURCE: player.c:368-383 -/
def parseU32 (text : Bytes) : Option UInt32 :=
  if text.head? = some 45 then none
  else
    match strtoull text with
    | (some value, []) => if value ≤ 2 ^ 32 - 1 then some (UInt32.ofNat value) else none
    | _ => none

/-- `parse_i32`. A text without digits is rejected only where something stands in it.
SOURCE: player.c:385-397 -/
def parseI32 (text : Bytes) : Option ℤ :=
  match strtol text with
  | (some value, []) => if -2147483648 ≤ value ∧ value ≤ 2147483647 then some value else none
  | _ => none

/-- The filters a number or an id of a boot is turned into. -/
def bootFilterOf (text : Bytes) : Option Bytes × Option UInt32 :=
  match parseU32 text with
  | some seq => (none, some seq)
  | none => (some text, none)

/-- `resolve_boot_filter`: the filter by the id and the one by the number; `none` where it
fails.
SOURCE: player.c:1465-1499 -/
def resolveBootFilter (evp : EvpOps) (codec : CodecOps) (path : LogPath)
    (bootFilter : Option Bytes) : Option (Option Bytes × Option UInt32) :=
  match bootFilter with
  | none => some (none, none)
  | some text =>
    match parseI32 text with
    | none => some (bootFilterOf text)
    | some offset =>
      if offset ≤ 0 then
        (collectBootsForPath evp codec path).bind fun boots =>
          if boots.length = 0 ∨ (offset < 0 ∧ (-offset).toNat ≥ boots.length) then none
          else (boots[((boots.length : ℤ) - 1 + offset).toNat]?).map fun boot =>
            (none, some boot.bootSeq)
      else some (bootFilterOf text)

end Recorder.Model
