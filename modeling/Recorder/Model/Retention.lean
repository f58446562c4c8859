import Recorder.Lib.ExchangeSort
import Recorder.Model.SegmentScan
import Recorder.Model.SegmentSeq
import Recorder.Model.Writer

/-!
# `recorder.c`: retention

A retention pass measures the store, collects the closed segments, brings them into the
order of removal and walks through them once. A segment is removed while the measured total
is above the limit of the log, while its group is above its own limit, or because of its
age. Where something was removed, the boot registry is rebuilt from the segments that are
left and `state/boots` is written anew.

Beside its outcome, a pass keeps the segments it removed, each with the store as it was right
before.

When space is short, `retention_reclaim_lower_priority` walks through the same order, over the
segments of less important groups only, until a reading of the free space suffices.
-/

set_option autoImplicit false

namespace Recorder.Model

open Recorder.Lib

/-! ## The files of a store -/

/-- A regular file in a directory of the store, with what `stat` says and what
`segment_scan_path` yields where it accepts the file. The sizes of a store's files sum up to
less than 2^64. -/
structure LogFile where
  dir : Bytes
  name : Bytes
  size : ℕ
  modifiedAt : ℤ
  scan : Option ScanOut
  deriving DecidableEq, Repr

/-- A file is named by its directory and its name there. -/
def LogFile.path (f : LogFile) : Bytes × Bytes := (f.dir, f.name)

/-- The files under the log directory, in the order in which `readdir` lists the directories
and the files of each. -/
structure LogStore where
  files : List LogFile
  paths_nodup : (files.map (·.path)).Nodup

/-- The store without one file. -/
def LogStore.erase (s : LogStore) (path : Bytes × Bytes) : LogStore where
  files := s.files.filter (·.path ≠ path)
  paths_nodup := s.paths_nodup.sublist (List.filter_sublist.map _)

/-- The store with a file in place of the one of its path, or in addition. -/
def LogStore.put (s : LogStore) (f : LogFile) : LogStore where
  files := (s.erase f.path).files ++ [f]
  paths_nodup := by
    rw [List.map_append, List.map_singleton]
    refine List.nodup_append.mpr ⟨(s.erase f.path).paths_nodup, List.nodup_singleton _, ?_⟩
    intro path hpath b hb
    obtain ⟨g, hg, rfl⟩ := List.mem_map.mp hpath
    rw [List.mem_singleton.mp hb]
    exact of_decide_eq_true (List.mem_filter.mp hg).2

/-- The size of a list of files. -/
def sizeSum (files : List LogFile) : ℕ := (files.map (·.size)).sum

/-- `count_store_bytes`.
SOURCE: recorder.c:2343-2403 -/
def countStoreBytes (s : LogStore) : ℕ :=
  sizeSum (s.files.filter fun f => isSegmentDirName f.dir) +
    sizeSum (s.files.filter fun f => f.dir = stateDirName)

/-! ## Collecting the closed segments -/

/-- `RetainedFile`, with its path as directory and name; a `group_index` of -1 is `none`.
SOURCE: recorder.c:343-351 -/
structure RetainedFile where
  dirName : Bytes
  name : Bytes
  minPriority : ℕ
  groupIndex : Option ℕ
  segmentSeq : UInt64
  size : ℕ
  modifiedAt : ℤ
  deriving DecidableEq, Repr

/-- A collected file is named as its file is. -/
def RetainedFile.path (f : RetainedFile) : Bytes × Bytes := (f.dirName, f.name)

/-- The length of the array of collected files. -/
abbrev maxRetainedFiles : ℕ := 4096

/-- The loop over the priorities in `collect_closed_segments_cb`: the group of a directory.
SOURCE: recorder.c:2455-2466 -/
def groupOfDir (config : RecorderConfig) (dir : Bytes) : Option ℕ :=
  ((List.finRange 8).map config.priorityToGroup).find? fun gi => (config.group gi).name = dir

/-- What is collected of a closed segment. The group is looked up only where the scan accepts
the file.
SOURCE: recorder.c:2438-2468 -/
def retainedFile (config : RecorderConfig) (f : LogFile) (seq : UInt64) : RetainedFile :=
  let group := f.scan.bind fun _ => groupOfDir config f.dir
  { dirName := f.dir
    name := f.name
    minPriority := (group.map fun gi => (config.group gi).minPriority).getD 7
    groupIndex := group
    segmentSeq := seq
    size := f.size
    modifiedAt := f.modifiedAt }

/-- `path_is_active_segment`.
SOURCE: recorder.c:2291-2301 -/
def pathIsActiveSegment (active : List (Bytes × Bytes)) (path : Bytes × Bytes) : Bool :=
  decide (path ∈ active)

/-- A path is active when a writer of the list has it open. -/
@[simp] theorem pathIsActiveSegment_eq_true {active : List (Bytes × Bytes)}
    {path : Bytes × Bytes} : pathIsActiveSegment active path = true ↔ path ∈ active :=
  decide_eq_true_iff

/-- A path is not active when no writer of the list has it open. -/
@[simp] theorem pathIsActiveSegment_eq_false {active : List (Bytes × Bytes)}
    {path : Bytes × Bytes} : pathIsActiveSegment active path = false ↔ path ∉ active :=
  decide_eq_false_iff_not

/-- One file in `collect_closed_segments_cb`.
SOURCE: recorder.c:2423-2470 -/
def collectStep (config : RecorderConfig) (active : List (Bytes × Bytes))
    (collected : List RetainedFile) (f : LogFile) : List RetainedFile :=
  if collected.length ≥ maxRetainedFiles then collected
  else
    match segmentSeqFromName f.name with
    | none => collected
    | some seq =>
      if pathIsActiveSegment active f.path then collected
      else collected ++ [retainedFile config f seq]

/-- `collect_closed_segments`.
SOURCE: recorder.c:2411-2486 -/
def collectClosedSegments (config : RecorderConfig) (active : List (Bytes × Bytes))
    (s : LogStore) : List RetainedFile :=
  (s.files.filter fun f => isSegmentDirName f.dir).foldl (collectStep config active) []

/-- The test for a swap in `retention_sort`. -/
def removedBefore (b a : RetainedFile) : Bool :=
  decide (b.minPriority > a.minPriority) ||
    (decide (b.minPriority = a.minPriority) && decide (b.segmentSeq < a.segmentSeq))

/-- `retention_sort`.
SOURCE: recorder.c:2488-2504 -/
def retentionSort (files : List RetainedFile) : List RetainedFile :=
  exchangeSort removedBefore files

/-! ## Removing segments -/

/-- What a pass meets: the time, the segments the writers have open, whether a file can be
removed, the text `json_dumps` makes of the registry, and whether it gets into the file. -/
structure RetentionEnv where
  now : ℤ
  active : List (Bytes × Bytes)
  unlinkOk : Bytes × Bytes → Bool
  dumpBoots : List BootEntry → Option Bytes
  bootsWritten : Bool

/-- The state of the loop. -/
structure RetentionState where
  store : LogStore
  total : ℕ
  groupBytes : ℕ → ℕ
  removals : List (RetainedFile × LogStore)

/-- The name in `build_index_path`.
SOURCE: recorder.c:1849-1860 -/
def indexName (seq : UInt64) : Bytes := decimal seq.toNat ++ [46, 105, 100, 120]

section Pass

variable (config : RecorderConfig) (env : RetentionEnv)

/-- The store behind the two `unlink` calls for a segment. -/
def eraseSegment (s : LogStore) (f : RetainedFile) : LogStore :=
  let s := s.erase f.path
  if env.unlinkOk (f.dirName, indexName f.segmentSeq) then
    s.erase (f.dirName, indexName f.segmentSeq)
  else s

/-- `retention_remove_file`.
SOURCE: recorder.c:2506-2527 -/
def retentionRemoveFile (st : RetentionState) (f : RetainedFile) : RetentionState :=
  if env.unlinkOk f.path then
    { store := eraseSegment env st.store f
      total := if st.total > f.size then st.total - f.size else 0
      groupBytes :=
        match f.groupIndex with
        | none => st.groupBytes
        | some gi =>
          if st.groupBytes gi ≥ f.size then
            Function.update st.groupBytes gi (st.groupBytes gi - f.size)
          else st.groupBytes
      removals := st.removals ++ [(f, st.store)] }
  else st

/-- A segment is past the age limit of its group.
SOURCE: recorder.c:2556-2559 -/
def pastMaxAge (group : PriorityGroup) (modifiedAt : ℤ) : Bool :=
  decide (group.maxAgeSec ≠ 0) && decide (env.now > modifiedAt) &&
    decide (env.now - modifiedAt ≥ group.maxAgeSec)

/-- Whether the loop wants to remove a segment.
SOURCE: recorder.c:2546-2559 -/
def retentionWants (st : RetentionState) (f : RetainedFile) : Bool :=
  (decide (config.logMaxBytes ≠ 0) && decide (st.total > config.logMaxBytes)) ||
    match f.groupIndex with
    | none => false
    | some gi =>
      (decide ((config.group gi).maxBytes ≠ 0) &&
        decide (st.groupBytes gi > (config.group gi).maxBytes)) ||
      pastMaxAge env (config.group gi) f.modifiedAt

/-- One turn of the loop over the collected files, oldest first. -/
def retentionStep (st : RetentionState) (f : RetainedFile) : RetentionState :=
  if retentionWants config env st f then retentionRemoveFile env st f else st

/-- The bytes of a group among the collected files. -/
def collectedGroupBytes (files : List RetainedFile) (gi : ℕ) : ℕ :=
  ((files.filter fun f => f.groupIndex = some gi).map (·.size)).sum

/-- The state in front of the loop. -/
def retentionStart (s : LogStore) : RetentionState where
  store := s
  total := countStoreBytes s
  groupBytes := collectedGroupBytes (collectClosedSegments config env.active s)
  removals := []

/-- `retention_enforce` up to the rebuild of the registry.
SOURCE: recorder.c:2529-2563 -/
def retentionLoop (s : LogStore) : RetentionState :=
  (retentionSort (collectClosedSegments config env.active s)).foldl
    (retentionStep config env) (retentionStart config env s)

/-- `strstr`. -/
def strstr (text sub : Bytes) : Bool := text.tails.any fun t => sub.isPrefixOf t

/-- What `boot_registry_rebuild_from_segments` reads. -/
def scannedSegments (s : LogStore) : List SegmentMeta :=
  (s.files.filter fun f => isSegmentDirName f.dir && strstr f.name segSuffix).filterMap fun f =>
    f.scan.map fun out => ⟨out.header, out.footer⟩

/-- `boots` -/
def bootsFileName : Bytes := [98, 111, 111, 116, 115]

/-- `persist_boot_state`: `state/boots` is replaced.
SOURCE: recorder.c:2719-2763 -/
def persistBootState (s : LogStore) (boots : BootRegistry) : LogStore :=
  match env.dumpBoots boots.boots with
  | none => s
  | some text =>
    if env.bootsWritten then
      s.put ⟨stateDirName, bootsFileName, text.length, env.now, none⟩
    else s

/-- What a pass leaves. -/
structure RetentionResult where
  store : LogStore
  boots : Option BootRegistry
  removals : List (RetainedFile × LogStore)

/-- `retention_enforce`.
SOURCE: recorder.c:2529-2568 -/
def retentionEnforce (s : LogStore) : RetentionResult :=
  let st := retentionLoop config env s
  if st.removals.isEmpty then ⟨st.store, none, []⟩
  else
    let boots := bootRegistryRebuildFromSegments (scannedSegments st.store)
    ⟨persistBootState env st.store boots, some boots, st.removals⟩

/-! ## Reclaiming space -/

/-- The state of the loop of `retention_reclaim_lower_priority`. `readings` says how often the
free space was read; `attempts`, which is not in the source, has the segments the loop tried to
remove. -/
structure ReclaimState where
  retention : RetentionState
  readings : ℕ
  changed : Bool
  attempts : List RetainedFile

section Reclaim

variable (available : ℕ → Option UInt64) (priority : ℕ) (required : UInt64)

/-- A reading of `recorder_available_bytes` succeeds and finds enough space. -/
def spaceSuffices (reading : ℕ) : Bool :=
  match available reading with
  | none => false
  | some bytes => decide (bytes ≥ required)

/-- `retention_remove_file` and the reading behind it. The total is a fresh zero each time. -/
def reclaimAttempt (st : ReclaimState) (f : RetainedFile) : ReclaimState where
  retention := retentionRemoveFile env { st.retention with total := 0 } f
  readings := st.readings + 1
  changed := st.changed || env.unlinkOk f.path
  attempts := st.attempts ++ [f]

/-- The loop of `retention_reclaim_lower_priority`.
SOURCE: recorder.c:2593-2605 -/
def reclaimLoop : List RetainedFile → ReclaimState → ReclaimState
  | [], st => st
  | f :: rest, st =>
    if f.minPriority ≤ priority then reclaimLoop rest st
    else if spaceSuffices available required st.readings then reclaimAttempt env st f
    else reclaimLoop rest (reclaimAttempt env st f)

/-- What `retention_reclaim_lower_priority` returns and leaves. -/
structure ReclaimResult where
  changed : Bool
  store : LogStore
  boots : Option BootRegistry
  attempts : List RetainedFile

/-- `retention_reclaim_lower_priority`; `available` has the results of the readings in order.
SOURCE: recorder.c:2570-2611 -/
def retentionReclaimLowerPriority (s : LogStore) : ReclaimResult :=
  match available 0 with
  | none => ⟨false, s, none, []⟩
  | some bytes =>
    if bytes ≥ required then ⟨false, s, none, []⟩
    else
      let files := retentionSort (collectClosedSegments config env.active s)
      let st := reclaimLoop env available priority required files
        { retention := ⟨s, 0, collectedGroupBytes files, []⟩
          readings := 1
          changed := false
          attempts := [] }
      if st.changed then
        let boots := bootRegistryRebuildFromSegments (scannedSegments st.retention.store)
        ⟨true, persistBootState env st.retention.store boots, some boots, st.attempts⟩
      else ⟨false, st.retention.store, none, st.attempts⟩

end Reclaim

end Pass

end Recorder.Model
