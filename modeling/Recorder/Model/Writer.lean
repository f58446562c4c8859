import Recorder.Model.Boot
import Mathlib.Logic.Function.Basic

/-!
# `recorder.c`: the priority writers

Each priority group has a writer: the segment file it appends to and the chunk of entries
that are not in the file yet. What the operating system, OpenSSL, zstd and flatcc do is
read from a `RecorderEnv`; the outcome of an operation depends on a tick, which the
recorder counts up with every call, so that any operation may fail at any time and succeed
later.

Beside its bytes, a segment file keeps the frames that were written to it completely, with
the entries they were made from. The source does not store these.
-/

set_option autoImplicit false

namespace Recorder.Model

/-! ## Entries -/

/-- The text fields of an entry. `none` is a field that was not captured. -/
structure EntryTexts where
  message : Option Bytes := none
  messageId : Option Bytes := none
  hostname : Option Bytes := none
  unit : Option Bytes := none
  comm : Option Bytes := none
  exe : Option Bytes := none
  deriving DecidableEq, Repr

/-- `LogEntry`. A boot id is a string in an array of 33 characters. `PRIORITY` values above
7 index behind the end of `priority_to_group` and are not modelled.
SOURCE: recorder.c:236-261 -/
structure LogEntry where
  realtimeTs : UInt64
  monotonicTs : UInt64
  monotonicTieOrder : UInt16 := 0
  pid : UInt32 := 0
  uid : UInt32 := 0
  gid : UInt32 := 0
  bootSeq : UInt32 := 0
  priority : Fin 8
  errnoValue : UInt16 := 0
  bootId : Bytes
  texts : EntryTexts := {}
  extraFields : List (Bytes × Bytes) := []
  bootId_length : bootId.length ≤ bootIdSize
  bootId_chars : ∀ b ∈ bootId, b ≠ 0

/-! ## Configuration -/

/-- `PriorityGroup`, as far as the writers and retention use it.
SOURCE: recorder.c:166-178 -/
structure PriorityGroup where
  name : Bytes := []
  minPriority : ℕ := 0
  durablePerFrame : Bool := false
  durabilityFlushFrames : ℕ := 0
  durabilityFlushIntervalSec : ℕ := 0
  maxBytes : ℕ := 0
  maxAgeSec : ℕ := 0
  hasStaticDict : Bool := false
  deriving DecidableEq, Repr

instance : Inhabited PriorityGroup := ⟨{}⟩

/-- `RecorderConfig`, as far as the writers and retention use it. `json_get_priority_groups`
rejects a configuration with two groups of one name or with a priority in no group.
SOURCE: recorder.c:180-211, 1234-1339 -/
structure RecorderConfig where
  groups : List PriorityGroup
  priorityToGroup : Fin 8 → ℕ
  logMaxBytes : ℕ := 0
  segmentMaxBytes : ℕ := 0
  segmentMaxAgeSec : ℕ := 0
  compressEnabled : Bool := false
  compressMinFrameBytes : ℕ := 0
  compressIfSmaller : Bool := false
  encryption : Bool := false
  fullEntries : Bool := false
  minFreeBytes : ℕ := 0
  priorityToGroup_lt : ∀ p, priorityToGroup p < groups.length
  names_nodup : (groups.map (·.name)).Nodup

/-- The group with a given index. -/
def RecorderConfig.group (config : RecorderConfig) (i : ℕ) : PriorityGroup :=
  config.groups.getD i default

/-- A group has a name of its own. -/
theorem group_name_inj {config : RecorderConfig} {g gi : ℕ} (hg : g < config.groups.length)
    (hgi : gi < config.groups.length)
    (hname : (config.group g).name = (config.group gi).name) : g = gi := by
  apply (List.getElem?_inj (by simpa using hg) config.names_nodup).mp
  rw [List.getElem?_map, List.getElem?_map, List.getElem?_eq_getElem hg,
    List.getElem?_eq_getElem hgi, Option.map_some, Option.map_some]
  simpa [RecorderConfig.group, hg, hgi] using hname

/-- `recorder_segment_limit`.
SOURCE: recorder.c:3783-3786 -/
def recorderSegmentLimit (config : RecorderConfig) : ℕ :=
  if config.segmentMaxBytes ≠ 0 then config.segmentMaxBytes else 4 * 1024 * 1024

/-- `CHUNK_SIZE`. -/
abbrev chunkSize : ℕ := 512

/-- `CLOCK_BACKWARD_JUMP_THRESHOLD_USEC`. -/
def clockBackwardJumpThreshold : UInt64 := 1000

/-! ## The environment -/

/-- The operations of the recorder that can fail. -/
inductive IoOp
  | mkdir | persistSeq | createFile | createEncryptor | readDict | allocHeader | writeHeader
  | openIndex | syncHeader | renameFile | syncDir | tellHeader
  | encodeChunk | allocCompressed | tellFrame | allocFrame | writeFrame | flushFrame
  | appendIndex | tellEnd | syncFrame
  | writeFooter | syncFooter | closeIndex | syncDue
  | extract | serialize | journalCursor | writeCursor
  deriving DecidableEq, Repr

/-- What became of an operation. A failed write or flush leaves a part of its bytes in the
file. -/
inductive IoOutcome
  | ok
  | fail (written : ℕ) (errno : Errno)
  deriving DecidableEq, Repr

/-- The `errno` of an operation that fails. -/
def IoOutcome.errno : IoOutcome → Option Errno
  | .ok => none
  | .fail _ e => some e

/-- What an operation writes. -/
def IoOutcome.write : IoOutcome → WriteOutcome
  | .ok => .ok
  | .fail n _ => .fail n

/-- What a list of modifiers does to an entry: it may reroute it and rewrite its texts, or
drop it. -/
inductive ModifierListResult
  | keep (priority : Fin 8) (texts : EntryTexts)
  | drop
  | error
  deriving DecidableEq, Repr

/-- A completely written frame: its offset and the entries in it. -/
structure WrittenFrame where
  offset : ℕ
  entries : List LogEntry

/-- A segment file. -/
structure SegmentOnDisk where
  group : Bytes
  nameSeq : UInt64
  header : SegmentHeader
  dict : Bytes
  content : Bytes
  frames : List WrittenFrame
  footer : Option SegmentFooter

/-- Everything outside the recorder. -/
structure RecorderEnv where
  io : ℕ → IoOp → IoOutcome
  /-- `current_timezone_string`. -/
  timezone : ℕ → Bytes
  /-- `monotonic_now_sec`. -/
  monotonicSec : ℕ → ℤ
  /-- What `recorder_crypto_random` yields for a new segment. -/
  random : ℕ → Option FreshKey
  evp : EvpOps
  /-- The content of a group's static dictionary. -/
  staticDict : ℕ → ℕ → Bytes
  /-- The FlatBuffers chunk of a list of entries, compact or full. -/
  chunkBytes : Bool → List LogEntry → Bytes
  /-- `ZSTD_compress` (`none`) or `ZSTD_compress_usingDict`. -/
  zstdCompress : Option Bytes → Bytes → Option Bytes
  /-- `apply_modifier_list` with the global list (`none`) or that of a group. -/
  applyModifierList : ℕ → Option ℕ → LogEntry → ModifierListResult
  /-- What `errno` holds after a failure that did not set it. -/
  staleErrno : ℕ → Errno
  /-- The closed segments a retention pass removes. -/
  removes : ℕ → SegmentOnDisk → Bool
  /-- The files of the store a rebuild of the boot registry can read, in the order of
  `readdir`. -/
  listed : ℕ → List SegmentOnDisk → List SegmentOnDisk
  timezone_length : ∀ t, (timezone t).length ≤ timezoneSize - 1
  timezone_chars : ∀ t, ∀ b ∈ timezone t, b ≠ 0
  listed_mem : ∀ t files, ∀ f ∈ listed t files, f ∈ files

/-! ## Writers -/

/-- `PriorityWriter`. The open stream is the file it writes to. `syncedFrames` is not in the
source: it keeps how many frames the open file had at its last `fsync`.
SOURCE: recorder.c:263-304 -/
structure PriorityWriter where
  file : Option SegmentOnDisk := none
  bootId : Bytes := []
  timezone : Bytes := []
  bootSeq : UInt32 := 0
  segmentSeq : UInt64 := 0
  clockJumpSeenSeq : UInt64 := 0
  bytesWritten : ℕ := 0
  entryCount : UInt64 := 0
  firstRealtimeTs : UInt64 := 0
  firstMonotonicTs : UInt64 := 0
  previousRealtimeTs : UInt64 := 0
  maxRealtimeTs : UInt64 := 0
  lastMonotonicTs : UInt64 := 0
  realtimeNonmonotonic : Bool := false
  openedMonoSec : ℤ := 0
  lastSyncMonoSec : ℤ := 0
  unsyncedFrames : UInt32 := 0
  syncedFrames : ℕ := 0
  encryptor : Option SegmentEncryptor := none
  chunk : List LogEntry := []

/-- `w->open`: a writer has a stream exactly while it is open. -/
def PriorityWriter.isOpen (w : PriorityWriter) : Bool := w.file.isSome

/-- The operations fail in order: the first failure, if any. -/
def RecorderEnv.firstFailure (env : RecorderEnv) (t : ℕ) : List IoOp → Option Errno
  | [] => none
  | op :: ops => (env.io t op).errno <|> env.firstFailure t ops

/-! ## Rotation -/

/-- `RotateReason`, with the numbers of the footer field.
SOURCE: recorder.c:353-361, segment.h:52-61 -/
inductive RotateReason
  | none | bootId | timezone | clockBackward | clockForward | age | size | shutdown
  deriving DecidableEq, Repr

/-- The numbers of `RotateReason`. -/
def RotateReason.code : RotateReason → UInt32
  | .none => 0
  | .bootId => 1
  | .timezone => 2
  | .clockBackward => 3
  | .clockForward => 4
  | .age => 5
  | .size => 6
  | .shutdown => 7

/-- `writer_should_rotate`.
SOURCE: recorder.c:568-616 -/
def writerShouldRotate (env : RecorderEnv) (config : RecorderConfig) (t : ℕ)
    (clockJumpSeq : UInt64) (clockJumpUsec : ℤ) (w : PriorityWriter) (e : LogEntry) :
    RotateReason :=
  if !w.isOpen then .none
  else if w.clockJumpSeenSeq ≠ clockJumpSeq then
    if clockJumpUsec < 0 then .clockBackward else .clockForward
  else if e.realtimeTs < w.firstRealtimeTs ∧
      w.firstRealtimeTs - e.realtimeTs > clockBackwardJumpThreshold then .clockBackward
  else if w.bootId ≠ [] ∧ e.bootId ≠ [] ∧ w.bootId ≠ e.bootId then .bootId
  else if w.timezone ≠ env.timezone t then .timezone
  else if config.segmentMaxAgeSec ≠ 0 ∧
      env.monotonicSec t - w.openedMonoSec ≥ config.segmentMaxAgeSec then .age
  else if w.bytesWritten ≥ recorderSegmentLimit config then .size
  else .none

/-! ## Opening a segment -/

/-- `segment_encryptor_create`: the key comes with the header.
SOURCE: segment.c:86-110 -/
def segmentEncryptorCreate : SegmentEncryptor :=
  ⟨List.replicate segmentDekSize 0, List.replicate noncePrefixSize 0, 0, false⟩

/-- The header of a new segment.
SOURCE: recorder.c:3431-3458 -/
def newSegmentHeader (env : RecorderEnv) (config : RecorderConfig) (t gi : ℕ) (seq : UInt64)
    (e : LogEntry) : SegmentHeader where
  flags := (if config.fullEntries then 0 else flagCompactEntries) |||
    (if config.encryption then flagEncrypted else 0) |||
    (if (config.group gi).hasStaticDict then flagHasStaticDict else 0)
  segmentSeq := seq
  bootSeq := e.bootSeq
  bootId := zeroPad bootIdSize e.bootId
  timezone := zeroPad (timezoneSize - 1) (env.timezone t)
  firstRealtimeTs := e.realtimeTs
  firstMonotonicTs := e.monotonicTs
  dictLen := 0

/-- The static dictionary of a group, as `slurp_file` reads it. -/
def groupDict (env : RecorderEnv) (config : RecorderConfig) (t gi : ℕ) : Bytes :=
  if (config.group gi).hasStaticDict then env.staticDict t gi else []

/-- The `segment_write_header` call of `writer_open_segment`. -/
def writeNewHeader (env : RecorderEnv) (config : RecorderConfig) (t gi : ℕ) (seq : UInt64)
    (e : LogEntry) : WriteResult :=
  segmentWriteHeader env.evp
    ⟨env.random t, (env.io t .allocHeader).errno.isNone, (env.io t .writeHeader).write⟩
    (newSegmentHeader env config t gi seq e) (groupDict env config t gi)
    (if config.encryption then some segmentEncryptorCreate else none)

/-- The failures of `writer_open_segment` up to the `rename`, in order. None of them leaves
a segment file behind.
SOURCE: recorder.c:3409-3507 -/
def openFailure (env : RecorderEnv) (config : RecorderConfig) (t gi : ℕ) (seq : UInt64)
    (e : LogEntry) : Option Errno :=
  let written := writeNewHeader env config t gi seq e
  env.firstFailure t [.persistSeq, .createFile] <|>
    (if config.encryption then (env.io t .createEncryptor).errno else none) <|>
    (if (config.group gi).hasStaticDict then
      (env.io t .readDict).errno <|>
        (if (env.staticDict t gi).length = 0 then some (env.staleErrno t) else none)
    else none) <|>
    (if written.ok then none
    else some (written.errno.getD ((env.io t .writeHeader).errno.getD (env.staleErrno t)))) <|>
    env.firstFailure t [.openIndex, .syncHeader, .renameFile]

/-- What `writer_open_segment` leaves: the writer, the next sequence number, and a segment
file that exists but that the writer gave up. -/
structure OpenResult where
  errno : Option Errno
  writer : PriorityWriter
  nextSegmentSeq : UInt64
  orphan : Option SegmentOnDisk

/-- `writer_open_segment`.
SOURCE: recorder.c:3395-3559 -/
def writerOpenSegment (env : RecorderEnv) (config : RecorderConfig) (t gi : ℕ)
    (seq clockJumpSeq : UInt64) (w : PriorityWriter) (e : LogEntry) : OpenResult :=
  match (env.io t .mkdir).errno with
  | some err => ⟨some err, w, seq, none⟩
  | none =>
    let w := { w with segmentSeq := seq, encryptor := none }
    match openFailure env config t gi seq e with
    | some err => ⟨some err, w, seq + 1, none⟩
    | none =>
      let written := writeNewHeader env config t gi seq e
      let file : SegmentOnDisk :=
        { group := (config.group gi).name
          nameSeq := seq
          header := newSegmentHeader env config t gi seq e
          dict := groupDict env config t gi
          content := written.written
          frames := []
          footer := none }
      match env.firstFailure t [.syncDir, .tellHeader] with
      | some err => ⟨some err, w, seq + 1, some file⟩
      | none =>
        ⟨none,
          { w with
            file := some file
            encryptor := written.encryptor
            bootId := e.bootId
            timezone := env.timezone t
            bootSeq := e.bootSeq
            bytesWritten := written.written.length
            entryCount := 0
            firstRealtimeTs := e.realtimeTs
            firstMonotonicTs := e.monotonicTs
            previousRealtimeTs := e.realtimeTs
            maxRealtimeTs := e.realtimeTs
            lastMonotonicTs := e.monotonicTs
            realtimeNonmonotonic := false
            clockJumpSeenSeq := clockJumpSeq
            openedMonoSec := env.monotonicSec t
            lastSyncMonoSec := env.monotonicSec t
            unsyncedFrames := 0
            syncedFrames := 0 }, seq + 1, none⟩

/-! ## Flushing a chunk -/

/-- The arguments of a `segment_write_frame` call. -/
structure FrameInput where
  flags : UInt32
  payload : Bytes
  uncompressedLen : UInt32
  deriving DecidableEq, Repr

/-- The frame of a chunk, compressed where that is configured and pays. The stored length
is cut to 32 bits.
SOURCE: recorder.c:3579-3629 -/
def encodeChunk (env : RecorderEnv) (config : RecorderConfig) (t : ℕ) (dict : Bytes)
    (chunk : List LogEntry) : Except Errno FrameInput :=
  match (env.io t .encodeChunk).errno with
  | some err => .error err
  | none =>
    let raw := env.chunkBytes (!config.fullEntries) chunk
    if raw.length > uint32Max then .error (env.staleErrno t)
    else
      let plain : FrameInput := ⟨0, raw, UInt32.ofNat raw.length⟩
      if config.compressEnabled && decide (config.compressMinFrameBytes ≤ raw.length) then
        match (env.io t .allocCompressed).errno with
        | some err => .error err
        | none =>
          match env.zstdCompress (if dict = [] then none else some dict) raw with
          | none => .ok plain
          | some compressed =>
            if !config.compressIfSmaller || decide (compressed.length < raw.length) then
              .ok ⟨frameFlagZstd, compressed.take (UInt32.ofNat compressed.length).toNat,
                UInt32.ofNat raw.length⟩
            else .ok plain
      else .ok plain

/-- Whether a frame is synced right away.
SOURCE: recorder.c:3653-3656 -/
def syncDueAfterFrame (env : RecorderEnv) (config : RecorderConfig) (t gi : ℕ)
    (w : PriorityWriter) : Bool :=
  let group := config.group gi
  group.durablePerFrame ||
    (decide (group.durabilityFlushFrames ≠ 0) &&
      decide (w.unsyncedFrames.toNat ≥ group.durabilityFlushFrames)) ||
    (decide (group.durabilityFlushIntervalSec ≠ 0) &&
      decide (env.monotonicSec t - w.lastSyncMonoSec ≥ group.durabilityFlushIntervalSec))

/-- The writer behind `flush_and_sync_file`. -/
def PriorityWriter.synced (w : PriorityWriter) (now : ℤ) : PriorityWriter :=
  { w with
    unsyncedFrames := 0
    syncedFrames := (w.file.map fun f => f.frames.length).getD 0
    lastSyncMonoSec := now }

/-- The part of `writer_flush_chunk` behind the frame. The frame is in the file, whatever
is returned.
SOURCE: recorder.c:3635-3665 -/
def finishFrame (env : RecorderEnv) (config : RecorderConfig) (t gi : ℕ) (length : ℕ)
    (w : PriorityWriter) : Option Errno × PriorityWriter :=
  match env.firstFailure t [.appendIndex, .tellEnd] with
  | some err => (some err, w)
  | none =>
    let w := { w with bytesWritten := length, unsyncedFrames := w.unsyncedFrames + 1 }
    if syncDueAfterFrame env config t gi w then
      match (env.io t .syncFrame).errno with
      | some err => (some err, w)
      | none => (none, w.synced (env.monotonicSec t))
    else (none, w)

/-- The `segment_write_frame` and `fflush` calls of `writer_flush_chunk`: the bytes that
reach the file, the encryptor, and the failure if there is one.
SOURCE: recorder.c:3629-3634 -/
def writeChunkFrame (env : RecorderEnv) (t : ℕ) (encryptor : Option SegmentEncryptor)
    (input : FrameInput) : Bytes × Option SegmentEncryptor × Option Errno :=
  let res := segmentWriteFrame env.evp
    ⟨(env.io t .allocFrame).errno.isNone, (env.io t .writeFrame).write⟩ encryptor input.flags
    input.payload input.uncompressedLen
  if res.ok then
    match env.io t .flushFrame with
    | .ok => (res.written, res.encryptor, none)
    | .fail n err => (res.written.take n, res.encryptor, some err)
  else
    (res.written, res.encryptor,
      some (res.errno.getD ((env.io t .writeFrame).errno.getD (env.staleErrno t))))

/-- `writer_flush_chunk`. The chunk is gone on every way out.
SOURCE: recorder.c:3561-3677 -/
def writerFlushChunk (env : RecorderEnv) (config : RecorderConfig) (t gi : ℕ)
    (w : PriorityWriter) : Option Errno × PriorityWriter :=
  if w.chunk = [] then (none, w)
  else
    let cleared := { w with chunk := [] }
    match w.file with
    | none => (some (env.staleErrno t), cleared)
    | some f =>
      match encodeChunk env config t f.dict w.chunk with
      | .error err => (some err, cleared)
      | .ok input =>
        match (env.io t .tellFrame).errno with
        | some err => (some err, cleared)
        | none =>
          match writeChunkFrame env t w.encryptor input with
          | (written, encryptor, some err) =>
            (some err,
              { cleared with
                file := some { f with content := f.content ++ written }
                encryptor := encryptor })
          | (written, encryptor, none) =>
            finishFrame env config t gi (f.content ++ written).length
              { cleared with
                file := some
                  { f with
                    content := f.content ++ written
                    frames := f.frames ++ [⟨f.content.length, w.chunk⟩] }
                encryptor := encryptor }

/-! ## Closing a segment -/

/-- The footer of a writer's segment.
SOURCE: recorder.c:3690-3697 -/
def writerFooter (w : PriorityWriter) (reason : RotateReason) : SegmentFooter where
  footerFlags := if w.realtimeNonmonotonic then footerFlagRealtimeNonmonotonic else 0
  rotationReason := reason.code
  entryCount := w.entryCount
  lastRealtimeTs := w.maxRealtimeTs
  lastMonotonicTs := w.lastMonotonicTs

/-- `writer_close_segment` behind the flush: the writer lets go of the file in any case.
SOURCE: recorder.c:3690-3746 -/
def writerFinishSegment (env : RecorderEnv) (t : ℕ) (w : PriorityWriter) (f : SegmentOnDisk)
    (reason : RotateReason) : Option Errno × PriorityWriter × SegmentOnDisk :=
  let footer := writerFooter w reason
  let res := segmentWriteFooter (env.io t .writeFooter).write footer
  let released := { w with file := none, encryptor := none }
  if res.ok then
    match env.io t .syncFooter with
    | .fail n err => (some err, released, { f with content := f.content ++ res.written.take n })
    | .ok =>
      let f := { f with content := f.content ++ res.written, footer := some footer }
      let released := { released with bytesWritten := f.content.length }
      match (env.io t .closeIndex).errno with
      | some err => (some err, released, f)
      | none => (none, { released with bootId := [], timezone := [] }, f)
  else
    (some (res.errno.getD ((env.io t .writeFooter).errno.getD (env.staleErrno t))), released,
      { f with content := f.content ++ res.written })

/-- `writer_sync_if_due`.
SOURCE: recorder.c:3749-3764 -/
def writerSyncIfDue (env : RecorderEnv) (config : RecorderConfig) (t gi : ℕ)
    (w : PriorityWriter) : Option Errno × PriorityWriter :=
  let group := config.group gi
  if !w.isOpen || decide (w.unsyncedFrames = 0) then (none, w)
  else if group.durablePerFrame ||
      (decide (group.durabilityFlushIntervalSec ≠ 0) &&
        decide (env.monotonicSec t - w.lastSyncMonoSec ≥ group.durabilityFlushIntervalSec)) then
    match (env.io t .syncDue).errno with
    | some err => (some err, w)
    | none => (none, w.synced (env.monotonicSec t))
  else (none, w)

/-! ## Adding an entry -/

/-- The bookkeeping of `recorder_submit_entry` for a serialized entry.
SOURCE: recorder.c:3972-3991 -/
def writerAddEntry (w : PriorityWriter) (e : LogEntry) : PriorityWriter :=
  { w with
    chunk := w.chunk ++ [e]
    entryCount := w.entryCount + 1
    realtimeNonmonotonic := w.realtimeNonmonotonic || decide (e.realtimeTs < w.previousRealtimeTs)
    previousRealtimeTs := e.realtimeTs
    maxRealtimeTs := if e.realtimeTs > w.maxRealtimeTs then e.realtimeTs else w.maxRealtimeTs
    lastMonotonicTs := e.monotonicTs }

end Recorder.Model
