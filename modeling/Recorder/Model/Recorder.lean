import Recorder.Model.Writer

/-!
# `recorder.c`: the recorder

The recorder reads journal entries, numbers their boots, gives entries with equal monotonic
time stamps an order, sends them through the modifiers and hands them to the writer of
their group. `recorder_flush_all` and `recorder_shutdown` write a journal cursor once
everything is in the segment files. A run is any sequence of these calls.

`RecorderHistory` keeps what a claim about a run speaks of and the source does not store:
the entries that were accepted, the cursors that were written, the writers as they were in
front of each flush, the retention passes that removed something, and whether an operation
has failed.
-/

set_option autoImplicit false

namespace Recorder.Model

/-- A retention pass that removed a segment: the journal's read pointer, the boot registry in
front of it, and the segment files the rebuild behind it could read. -/
structure RetentionPass where
  position : ℕ
  boots : BootRegistry
  readable : List SegmentOnDisk

/-- What happened so far. Journal entries are named by their position, counted from 1. -/
structure RecorderHistory where
  accepted : List (ℕ × LogEntry) := []
  cursors : List ℕ := []
  flushes : List (ℕ × PriorityWriter) := []
  passes : List RetentionPass := []
  failed : Bool := false

/-- `Recorder`. `position` is the journal's read pointer, 0 in front of the first entry.
`closed` holds the segment files no writer has open, those that retention has removed since
included; `removed` has the groups and numbers of the latter.
SOURCE: recorder.c:306-332 -/
structure RecorderState where
  boots : BootRegistry := .init
  nextSegmentSeq : UInt64 := 1
  position : ℕ := 0
  currentEntryPending : Bool := false
  cursorEnabled : Bool := true
  persistentCursorEnabled : Bool := true
  pendingCursor : Option ℕ := none
  writers : ℕ → PriorityWriter := fun _ => {}
  clockJumpSeq : UInt64 := 0
  clockJumpUsec : ℤ := 0
  haveLastReceived : Bool := false
  lastReceivedMonotonicTs : UInt64 := 0
  lastReceivedBootSeq : UInt32 := 0
  monotonicTieOrder : UInt16 := 0
  closed : List SegmentOnDisk := []
  removed : List (Bytes × UInt64) := []
  tick : ℕ := 0
  history : RecorderHistory := {}

/-! ## Calls of the writers -/

section Calls

variable (env : RecorderEnv) (config : RecorderConfig)

/-- The end of a call that may have failed. -/
def RecorderState.after (r : RecorderState) (errno : Option Errno) : RecorderState :=
  { r with
    tick := r.tick + 1
    history := { r.history with failed := r.history.failed || errno.isSome } }

/-- `writer_flush_chunk` on the writer of a group. -/
def RecorderState.flushChunk (r : RecorderState) (gi : ℕ) : Option Errno × RecorderState :=
  match writerFlushChunk env config r.tick gi (r.writers gi) with
  | (errno, w) =>
    (errno,
      { r with
        writers := Function.update r.writers gi w
        history := { r.history with
          flushes := r.history.flushes ++ [(r.tick, r.writers gi)] } }.after errno)

/-- `writer_sync_if_due` on the writer of a group. -/
def RecorderState.syncIfDue (r : RecorderState) (gi : ℕ) : Option Errno × RecorderState :=
  match writerSyncIfDue env config r.tick gi (r.writers gi) with
  | (errno, w) => (errno, { r with writers := Function.update r.writers gi w }.after errno)

/-- `writer_close_segment`.
SOURCE: recorder.c:3679-3747 -/
def RecorderState.closeSegment (r : RecorderState) (gi : ℕ) (reason : RotateReason) :
    Option Errno × RecorderState :=
  if !(r.writers gi).isOpen then (none, r)
  else
    match r.flushChunk env config gi with
    | (some err, r) => (some err, r)
    | (none, r) =>
      match (r.writers gi).file with
      | none => (none, r)
      | some f =>
        match writerFinishSegment env r.tick (r.writers gi) f reason with
        | (errno, w, f) =>
          (errno,
            { r with
              writers := Function.update r.writers gi w
              closed := r.closed ++ [f] }.after errno)

/-- `writer_open_segment` on the writer of a group. -/
def RecorderState.openSegment (r : RecorderState) (gi : ℕ) (e : LogEntry) :
    Option Errno × RecorderState :=
  match writerOpenSegment env config r.tick gi r.nextSegmentSeq r.clockJumpSeq (r.writers gi)
      e with
  | ⟨errno, w, seq, orphan⟩ =>
    (errno,
      { r with
        writers := Function.update r.writers gi w
        nextSegmentSeq := seq
        closed := r.closed ++ orphan.toList }.after errno)

/-- The closed segment files that are still there. -/
def RecorderState.present (r : RecorderState) : List SegmentOnDisk :=
  r.closed.filter fun f => (f.group, f.nameSeq) ∉ r.removed

/-- The files the writers have open. -/
def RecorderState.openFiles (r : RecorderState) : List SegmentOnDisk :=
  (List.range config.groups.length).filterMap fun gi => (r.writers gi).file

/-- What a rebuild of the boot registry reads of a file. -/
def segmentMeta (f : SegmentOnDisk) : SegmentMeta := ⟨f.header, f.footer.getD {}⟩

/-- A retention pass. Where it removes a segment it rebuilds the boot registry from the
segments that are left.
SOURCE: recorder.c:2529-2611 -/
def RecorderState.retention (r : RecorderState) : Bool × RecorderState :=
  if r.present.any (env.removes r.tick) then
    let left := (r.present.filter fun f => !env.removes r.tick f) ++ r.openFiles config
    let readable := env.listed r.tick left
    (true,
      { r with
        boots := bootRegistryRebuildFromSegments (readable.map segmentMeta)
        removed := r.removed ++
          (r.present.filter (env.removes r.tick)).map fun f => (f.group, f.nameSeq)
        tick := r.tick + 1
        history := { r.history with
          passes := r.history.passes ++ [⟨r.position, r.boots, readable⟩] } })
  else (false, { r with tick := r.tick + 1 })

/-- `recorder_close_writer`.
SOURCE: recorder.c:3766-3774 -/
def recorderCloseWriter (r : RecorderState) (gi : ℕ) (reason : RotateReason) :
    Option Errno × RecorderState :=
  match r.closeSegment env config gi reason with
  | (some err, r) => (some err, r)
  | (none, r) => (none, (r.retention env config).2)

/-! ## Submitting an entry -/

/-- `recorder_ensure_writer`.
SOURCE: recorder.c:3876-3952 -/
def recorderEnsureWriter (r : RecorderState) (gi : ℕ) (e : LogEntry) :
    Option Errno × RecorderState :=
  let reason := writerShouldRotate env config r.tick r.clockJumpSeq r.clockJumpUsec
    (r.writers gi) e
  let rotated :=
    if reason = .none then (none, r) else recorderCloseWriter env config r gi reason
  match rotated with
  | (some err, r) => (some err, r)
  | (none, r) =>
    if (r.writers gi).isOpen then (none, r) else r.openSegment env config gi e

/-- The rest of `recorder_submit_entry`, with an open writer.
SOURCE: recorder.c:3969-4004 -/
def recorderAddEntry (r : RecorderState) (gi : ℕ) (e : LogEntry) :
    Option Errno × RecorderState :=
  match (env.io r.tick .serialize).errno with
  | some err => (some err, r.after (some err))
  | none =>
    let r := { r with
      writers := Function.update r.writers gi (writerAddEntry (r.writers gi) e) }.after none
    let flushed :=
      if (r.writers gi).chunk.length = chunkSize then r.flushChunk env config gi else (none, r)
    match flushed with
    | (some err, r) => (some err, r)
    | (none, r) =>
      if (r.writers gi).bytesWritten ≥ recorderSegmentLimit config then
        recorderCloseWriter env config r gi .size
      else (none, r)

/-- `recorder_submit_entry`.
SOURCE: recorder.c:3954-4005 -/
def recorderSubmitEntry (r : RecorderState) (e : LogEntry) : Option Errno × RecorderState :=
  let gi := config.priorityToGroup e.priority
  match recorderEnsureWriter env config r gi e with
  | (some err, r) => (some err, r)
  | (none, r) => recorderAddEntry env config r gi e

/-- `recorder_submit_entry_with_recovery`.
SOURCE: recorder.c:4007-4029 -/
def recorderSubmitEntryWithRecovery (r : RecorderState) (e : LogEntry) :
    Option Errno × RecorderState :=
  let r := if config.minFreeBytes ≠ 0 then (r.retention env config).2 else r
  match recorderSubmitEntry env config r e with
  | (none, r) => (none, r)
  | (some err, r) =>
    if err = .enospc ∨ err = .edquot then
      match r.retention env config with
      | (true, r) => recorderSubmitEntry env config r e
      | (false, r) => (some err, r)
    else (some err, r)

/-! ## Modifiers -/

/-- `MAX_MODIFIER_REROUTES`. -/
abbrev maxModifierReroutes : ℕ := 8

/-- The result of `apply_entry_modifiers`. -/
inductive ModifierResult
  | keep (e : LogEntry)
  | drop
  | error

/-- The reroute loop of `apply_entry_modifiers`.
SOURCE: recorder.c:4139-4154 -/
def rerouteLoop (t : ℕ) : ℕ → List (Fin 8) → LogEntry → ModifierResult
  | 0, _, _ => .drop
  | reroutes + 1, seen, e =>
    match env.applyModifierList t (some (config.priorityToGroup e.priority)) e with
    | .drop => .drop
    | .error => .error
    | .keep priority texts =>
      let e' := { e with priority := priority, texts := texts }
      if priority = e.priority then .keep e'
      else if priority ∈ seen then .drop
      else rerouteLoop t reroutes (priority :: seen) e'

/-- `apply_entry_modifiers`.
SOURCE: recorder.c:4130-4155 -/
def applyEntryModifiers (t : ℕ) (e : LogEntry) : ModifierResult :=
  match env.applyModifierList t none e with
  | .drop => .drop
  | .error => .error
  | .keep priority texts =>
    rerouteLoop env config t maxModifierReroutes [priority]
      { e with priority := priority, texts := texts }

/-! ## Receiving an entry -/

/-- The boot registry part of `extract_entry`: the number of the entry's boot.
SOURCE: recorder.c:2936-2942 -/
def extractBoot (boots : BootRegistry) (e : LogEntry) : BootRegistry × LogEntry :=
  match bootRegistrySeq boots (if e.bootId = [] then none else some e.bootId) with
  | (boots, seq) =>
    match bootRegistryGet boots e.bootId with
    | (boots, i) =>
      (boots.modify i fun b =>
        if b.firstRealtimeTs = 0 then { b with firstRealtimeTs := e.realtimeTs } else b,
        { e with bootSeq := seq })

/-- `recorder_assign_monotonic_tie_order`.
SOURCE: recorder.c:4157-4176 -/
def recorderAssignMonotonicTieOrder (r : RecorderState) (e : LogEntry) :
    RecorderState × LogEntry :=
  if e.monotonicTs = 0 then (r, { e with monotonicTieOrder := 0 })
  else
    let same := r.haveLastReceived && decide (r.lastReceivedBootSeq = e.bootSeq) &&
      decide (r.lastReceivedMonotonicTs = e.monotonicTs)
    let order := if same then
        if r.monotonicTieOrder < 0xffff then r.monotonicTieOrder + 1 else 0xffff
      else 0
    ({ r with
      monotonicTieOrder := order
      lastReceivedMonotonicTs := e.monotonicTs
      lastReceivedBootSeq := e.bootSeq
      haveLastReceived := true }, { e with monotonicTieOrder := order })

/-- The end of a turn of `recorder_step`: the cursor of the entry is kept.
SOURCE: recorder.c:4260-4270 -/
def recorderKeepCursor (r : RecorderState) : Bool × RecorderState :=
  if r.cursorEnabled || r.persistentCursorEnabled then
    match (env.io r.tick .journalCursor).errno with
    | some _ => (false, { r with tick := r.tick + 1 })
    | none => (true, { r with pendingCursor := some r.position, tick := r.tick + 1 })
  else (true, r)

/-- A turn of `recorder_step` from the modifiers on; `false` leaves the loop.
SOURCE: recorder.c:4247-4276 -/
def recorderStoreEntry (r : RecorderState) (e : LogEntry) : Bool × RecorderState :=
  match applyEntryModifiers env config r.tick e with
  | .error => (false, { r with tick := r.tick + 1 })
  | .drop => recorderKeepCursor env { r with tick := r.tick + 1 }
  | .keep e =>
    match recorderSubmitEntryWithRecovery env config { r with tick := r.tick + 1 } e with
    | (some _, r) => (false, { r with currentEntryPending := true })
    | (none, r) =>
      recorderKeepCursor env { r with history := { r.history with
        accepted := r.history.accepted ++ [(r.position, e)] } }

/-- A turn of `recorder_step` with the current journal entry, as `extract_entry` copies it.
SOURCE: recorder.c:4238-4247 -/
def recorderReceiveEntry (r : RecorderState) (e : LogEntry) : Bool × RecorderState :=
  match extractBoot r.boots e with
  | (boots, e) =>
    let r := { r with boots := boots, currentEntryPending := false }
    match (env.io r.tick .extract).errno with
    | some _ => (false, { r with tick := r.tick + 1 })
    | none =>
      match recorderAssignMonotonicTieOrder { r with tick := r.tick + 1 } e with
      | (r, e) => recorderStoreEntry env config r e

/-- One turn of `recorder_step`.
SOURCE: recorder.c:4229-4277 -/
def recorderTurn (journal : List LogEntry) (r : RecorderState) : Bool × RecorderState :=
  let position := if r.currentEntryPending then r.position else r.position + 1
  match journal[position - 1]? with
  | none => (false, r)
  | some e => recorderReceiveEntry env config { r with position := position } e

/-- The loop of `recorder_step`: how many entries it processed. -/
def recorderStepLoop (journal : List LogEntry) : ℕ → RecorderState → ℕ × RecorderState
  | 0, r => (0, r)
  | n + 1, r =>
    match recorderTurn env config journal r with
    | (false, r) => (0, r)
    | (true, r) =>
      match recorderStepLoop journal n r with
      | (processed, r) => (processed + 1, r)

/-- `recorder_step`.
SOURCE: recorder.c:4222-4281 -/
def recorderStep (journal : List LogEntry) (r : RecorderState) : ℕ × RecorderState :=
  recorderStepLoop env config journal chunkSize r

/-! ## Checkpoints -/

/-- The loop of `recorder_flush_all`.
SOURCE: recorder.c:4287-4292 -/
def recorderFlushLoop : List ℕ → RecorderState → Option Errno × RecorderState
  | [], r => (none, r)
  | gi :: rest, r =>
    match r.flushChunk env config gi with
    | (some err, r) => (some err, r)
    | (none, r) =>
      match r.syncIfDue env config gi with
      | (some err, r) => (some err, r)
      | (none, r) => recorderFlushLoop rest r

/-- `write_journal_cursor`. An attempt that fails may have written the cursor too. -/
def RecorderState.writeCursor (r : RecorderState) (cursor : ℕ) : Option Errno × RecorderState :=
  ((env.io r.tick .writeCursor).errno,
    { r with
      history := { r.history with cursors := r.history.cursors ++ [cursor] } }.after
        (env.io r.tick .writeCursor).errno)

/-- `persist_journal_cursor`; on failure checkpointing is switched off.
SOURCE: recorder.c:2113-2130, 4293-4296 -/
def persistJournalCursor (r : RecorderState) : RecorderState :=
  if r.cursorEnabled then
    match r.pendingCursor with
    | none => r
    | some cursor =>
      match r.writeCursor env cursor with
      | (none, r) => r
      | (some _, r) => { r with cursorEnabled := false }
  else r

/-- `recorder_flush_all`.
SOURCE: recorder.c:4283-4298 -/
def recorderFlushAll (checkpoint : Bool) (r : RecorderState) : Option Errno × RecorderState :=
  match recorderFlushLoop env config (List.range config.groups.length) r with
  | (some err, r) => (some err, r)
  | (none, r) => (none, if checkpoint then persistJournalCursor env r else r)

/-- The loop of `recorder_shutdown` that closes the segments; `false` when one fails.
SOURCE: recorder.c:4314-4327 -/
def recorderCloseLoop : List ℕ → RecorderState → Bool × RecorderState
  | [], r => (true, r)
  | gi :: rest, r =>
    match r.closeSegment env config gi .shutdown with
    | (errno, r) =>
      match recorderCloseLoop rest r with
      | (ok, r) => (errno.isNone && ok, r)

/-- The cursor part of `recorder_shutdown`.
SOURCE: recorder.c:4332-4351 -/
def recorderShutdownCursor (r : RecorderState) : RecorderState :=
  match r.pendingCursor with
  | none => r
  | some cursor =>
    let r := persistJournalCursor env r
    if r.persistentCursorEnabled then (r.writeCursor env cursor).2 else r

/-- `recorder_shutdown`. The time stamps it notes in the boot registry are only written to
the state file.
SOURCE: recorder.c:4300-4367 -/
def recorderShutdown (r : RecorderState) : RecorderState :=
  match recorderFlushAll env config false r with
  | (errno, r) =>
    match recorderCloseLoop env config (List.range config.groups.length) r with
    | (ok, r) =>
      let r := if errno.isNone && ok then recorderShutdownCursor env r else r
      ({ r with pendingCursor := none }.retention env config).2

/-! ## Runs -/

/-- The calls of a recorder. -/
inductive RecorderCall
  /-- `recorder_sample_clock` that finds a jump. -/
  | clockJump (usec : ℤ)
  | step
  | flushAll
  | shutdown
  deriving DecidableEq, Repr

/-- One call.
SOURCE: recorder.c:1724-1727, 4585-4615 -/
def recorderCall (journal : List LogEntry) (r : RecorderState) : RecorderCall → RecorderState
  | .clockJump usec => { r with clockJumpSeq := r.clockJumpSeq + 1, clockJumpUsec := usec }
  | .step => (recorderStep env config journal r).2
  | .flushAll => (recorderFlushAll env config true r).2
  | .shutdown => recorderShutdown env config r

/-- A sequence of calls. -/
def recorderRun (journal : List LogEntry) (calls : List RecorderCall) (r : RecorderState) :
    RecorderState :=
  calls.foldl (recorderCall env config journal) r

end Calls

end Recorder.Model
