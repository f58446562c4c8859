import Recorder.Analysis.NothingSkipped
import Recorder.Analysis.SegmentMetadata

/-!
# A segment that is never synced

A group without a durable priority and without flush settings is never made to sync its segment.
Where nothing fails and no segment gets too large or too old, each full chunk adds a frame to the
one segment of the group (`StoredAll`).

**Main result**: `steps_never_synced`.
-/

set_option autoImplicit false

namespace Recorder.Analysis

open Recorder.Model

/-! ## The group -/

/-- Entry `i` of a journal whose times go on, without texts. -/
def quietEntry (i : ℕ) : LogEntry :=
  { messageEntry with
    realtimeTs := UInt64.ofNat (5 + i), monotonicTs := UInt64.ofNat (7 + i), texts := {} }

/-- The first entries of that journal. -/
def quietJournal (n : ℕ) : List LogEntry := (List.range n).map quietEntry

/-- A system on which nothing fails, with a clock. -/
def clockEnv (clock : ℕ → ℤ) : RecorderEnv := { plainEnv fun _ _ => .ok with monotonicSec := clock }

section Clock

variable (clock : ℕ → ℤ)

/-- No call fails. -/
@[simp] theorem clockEnv_io (t : ℕ) (op : IoOp) : (clockEnv clock).io t op = .ok := rfl

/-- The time zone stays. -/
@[simp] theorem clockEnv_timezone (t : ℕ) : (clockEnv clock).timezone t = [] := rfl

/-- No call of a list fails. -/
@[simp] theorem clockEnv_firstFailure (t : ℕ) (ops : List IoOp) :
    (clockEnv clock).firstFailure t ops = none := by
  induction ops with
  | nil => rfl
  | cons op ops ih => exact ih

end Clock

/-- The group of priority 6 is never synced, and its segment never rotated for its size or its
age. -/
structure NeverSyncs (config : RecorderConfig) : Prop where
  routed : config.priorityToGroup 6 = 6
  durable : (config.group 6).durablePerFrame = false
  frames : (config.group 6).durabilityFlushFrames = 0
  interval : (config.group 6).durabilityFlushIntervalSec = 0
  dict : (config.group 6).hasStaticDict = false
  encryption : config.encryption = false
  limit : recorderSegmentLimit config = 2 ^ 60
  age : config.segmentMaxAgeSec = 0
  minFree : config.minFreeBytes = 0
  compressMin : config.compressMinFrameBytes = 256

/-- An entry of priority 6 without a message, as it is received. -/
structure IsQuiet (e : LogEntry) : Prop where
  realtimeTs : 5 ≤ e.realtimeTs
  bootId : e.bootId = [98]
  priority : e.priority = 6
  message : e.texts.message = none

/-- A writer with `k` frames in its segment and `m` entries in the chunk. -/
structure HoldsFrames (k m : ℕ) (w : PriorityWriter) (f : SegmentOnDisk) : Prop where
  file : w.file = some f
  chunk_length : w.chunk.length = m
  quiet : ∀ e ∈ w.chunk, IsQuiet e
  frames : f.frames.length = k
  size : f.content.length = 152 + 20 * k
  bytesWritten : w.bytesWritten = f.content.length
  syncedFrames : w.syncedFrames = 0
  firstRealtimeTs : w.firstRealtimeTs = 5
  bootId : w.bootId = [98]
  timezone : w.timezone = []
  clockJumpSeenSeq : w.clockJumpSeenSeq = 0
  encryptor : w.encryptor = none

section LongSegment

variable {config : RecorderConfig} {w : PriorityWriter} {f : SegmentOnDisk} {k m t : ℕ}
  {e : LogEntry} (clock : ℕ → ℤ)

/-- A segment opened for an entry has no frames. -/
theorem writerOpenSegment_holds (hc : NeverSyncs config) (he : IsQuiet e)
    (htime : e.realtimeTs = 5) (seq : UInt64) (hchunk : w.chunk = []) :
    ∃ w' f', writerOpenSegment (clockEnv clock) config t 6 seq 0 w e = ⟨none, w', seq + 1, none⟩ ∧
      HoldsFrames 0 0 w' f' := by
  have hflags :
      (newSegmentHeader (clockEnv clock) config t 6 seq e).flags &&& flagEncrypted = 0 := by
    simp only [newSegmentHeader, hc.encryption, hc.dict]
    cases config.fullEntries <;> decide
  have hwritten : writeNewHeader (clockEnv clock) config t 6 seq e =
      ⟨true, headerImage (newSegmentHeader (clockEnv clock) config t 6 seq e) [] [], none,
        none⟩ := by
    simp [writeNewHeader, segmentWriteHeader, hc.encryption, hflags, groupDict, hc.dict,
      IoOutcome.write, WriteOutcome.append]
  have hfailure : openFailure (clockEnv clock) config t 6 seq e = none := by
    simp [openFailure, hwritten, hc.encryption, hc.dict]
  unfold writerOpenSegment
  simp only [hfailure, hwritten, clockEnv_io, clockEnv_firstFailure, IoOutcome.errno]
  refine ⟨_, _, rfl, ⟨rfl, ?_, ?_, rfl, ?_, rfl, rfl, htime, he.bootId, rfl, rfl, rfl⟩⟩
  · simp [hchunk]
  · simp [hchunk]
  · simp [headerImage]

/-- An entry is added to the chunk. -/
theorem HoldsFrames.add (h : HoldsFrames k m w f) (he : IsQuiet e) :
    HoldsFrames k (m + 1) (writerAddEntry w e) f := by
  obtain ⟨hfile, hlength, hquiet, hframes, hsize, hbytes, hsynced, hfirst, hboot, htz, hseen,
    henc⟩ := h
  refine ⟨hfile, ?_, ?_, hframes, hsize, hbytes, hsynced, hfirst, hboot, htz, hseen,
    henc⟩
  · rw [writerAddEntry, List.length_append, List.length_singleton, hlength]
  · intro e' he'
    rcases List.mem_append.1 he' with he' | he'
    · exact hquiet e' he'
    · rw [List.mem_singleton.1 he']
      exact he

/-- A chunk becomes a frame of 20 bytes, which is not synced. -/
theorem HoldsFrames.flush (hc : NeverSyncs config) (h : HoldsFrames k (m + 1) w f) :
    ∃ w' f', writerFlushChunk (clockEnv clock) config t 6 w = (none, w') ∧
      HoldsFrames (k + 1) 0 w' f' := by
  obtain ⟨hfile, hlength, hquiet, hframes, hsize, hbytes, hsynced, hfirst, hboot, htz, hseen,
    henc⟩ := h
  have hchunk : w.chunk ≠ [] := by
    intro hnil
    rw [hnil] at hlength
    cases hlength
  have hraw : w.chunk.flatMap (fun e => e.texts.message.getD []) = [] := by
    rw [List.flatMap_eq_nil_iff]
    intro e he
    rw [(hquiet e he).message]
    rfl
  have hencode : encodeChunk (clockEnv clock) config t f.dict w.chunk = .ok ⟨0, [], 0⟩ := by
    have hbytes : (clockEnv clock).chunkBytes (!config.fullEntries) w.chunk = [] := hraw
    simp [encodeChunk, IoOutcome.errno, hbytes, hc.compressMin]
  have hdue : ∀ w', syncDueAfterFrame (clockEnv clock) config t 6 w' = false := by
    intro w'
    simp [syncDueAfterFrame, hc.durable, hc.frames, hc.interval]
  unfold writerFlushChunk
  rw [if_neg hchunk]
  simp only [hfile, hencode, henc, clockEnv_io, IoOutcome.errno]
  have hwrite : writeChunkFrame (clockEnv clock) t none ⟨0, [], 0⟩ =
      (frameImage (frameHeader 0 0 0 20) [] [], none, none) := by
    simp [writeChunkFrame, segmentWriteFrame, IoOutcome.write, WriteOutcome.append]
    rfl
  simp only [hwrite, finishFrame, clockEnv_firstFailure, hdue]
  refine ⟨_, _, rfl, ⟨rfl, rfl, by simp, ?_, ?_, rfl, hsynced, hfirst, hboot, htz, hseen,
    rfl⟩⟩
  · simp [hframes]
  · simp [hsize]
    omega

/-- The segment is not rotated. -/
theorem HoldsFrames.stays (h : HoldsFrames k m w f) (he : IsQuiet e) (hk : k < 2 ^ 50)
    (hc : NeverSyncs config) (usec : ℤ) :
    writerShouldRotate (clockEnv clock) config t 0 usec w e = .none := by
  have hsize : ¬ w.bytesWritten ≥ recorderSegmentLimit config := by
    rw [hc.limit, h.bytesWritten, h.size]
    omega
  have hnew : ¬ e.realtimeTs < 5 := UInt64.not_lt.mpr he.realtimeTs
  unfold writerShouldRotate
  simp only [PriorityWriter.isOpen, h.file, h.clockJumpSeenSeq, h.firstRealtimeTs, h.bootId,
    h.timezone, he.bootId, clockEnv_timezone, if_neg hsize, hc.age]
  simp [hnew]

/-- The writers when `n` entries were stored: the segment of priority 6 is open. -/
structure OpenAt (n : ℕ) (r : RecorderState) : Prop where
  failed : r.history.failed = false
  clockJumpSeq : r.clockJumpSeq = 0
  others : ∀ gi ≠ 6, (r.writers gi).chunk = [] ∧ (r.writers gi).file = none
  writer : ∃ f, HoldsFrames (n / 512) (n % 512) (r.writers 6) f

/-- The writers before the first entry. -/
structure ClosedAll (r : RecorderState) : Prop where
  failed : r.history.failed = false
  clockJumpSeq : r.clockJumpSeq = 0
  writers : ∀ gi, (r.writers gi).chunk = [] ∧ (r.writers gi).file = none

variable {n : ℕ} {r : RecorderState}

/-- Without a rotation the writer is left open, or opened. -/
theorem ensureWriter_of_stays {env : RecorderEnv} {gi : ℕ}
    (h : writerShouldRotate env config r.tick r.clockJumpSeq r.clockJumpUsec (r.writers gi) e =
      .none) :
    recorderEnsureWriter env config r gi e =
      if (r.writers gi).isOpen then (none, r) else r.openSegment env config gi e := by
  unfold recorderEnsureWriter
  rw [h]
  rfl

/-- The first entry opens the segment. -/
theorem ClosedAll.open (hc : NeverSyncs config) (he : IsQuiet e) (htime : e.realtimeTs = 5)
    (h : ClosedAll r) :
    ∃ r', r.openSegment (clockEnv clock) config 6 e = (none, r') ∧ OpenAt 0 r' := by
  obtain ⟨hfailed, hjump, hwriters⟩ := h
  obtain ⟨w', f', hres, hholds⟩ := writerOpenSegment_holds (t := r.tick) clock hc
    he htime r.nextSegmentSeq (hwriters 6).1
  rw [← hjump] at hres
  refine ⟨(r.openSegment (clockEnv clock) config 6 e).2, ?_, ?_⟩
  · simp only [RecorderState.openSegment, hres]
  · simp only [RecorderState.openSegment, hres]
    refine ⟨?_, hjump, fun gi hgi => ?_, f', ?_⟩
    · simp [RecorderState.after, hfailed]
    · simp only [RecorderState.after, Function.update_of_ne hgi]
      exact hwriters gi
    · simp only [RecorderState.after, Function.update_self]
      exact hholds

/-- The segment is open for every entry. -/
theorem ensureWriter_open (hc : NeverSyncs config) (hn : n < 2 ^ 50) (he : IsQuiet e)
    (htime : n = 0 → e.realtimeTs = 5) (h : n = 0 ∧ ClosedAll r ∨ OpenAt n r) :
    ∃ r', recorderEnsureWriter (clockEnv clock) config r 6 e = (none, r') ∧ OpenAt n r' := by
  rcases h with ⟨rfl, hclosed⟩ | hopen
  · have hnone := (hclosed.writers 6).2
    rw [ensureWriter_of_stays, PriorityWriter.isOpen, hnone]
    · exact hclosed.open clock hc he (htime rfl)
    · simp [writerShouldRotate, PriorityWriter.isOpen, hnone]
  · obtain ⟨f, hholds⟩ := hopen.writer
    rw [ensureWriter_of_stays, PriorityWriter.isOpen, hholds.file]
    · exact ⟨r, rfl, hopen⟩
    · rw [hopen.clockJumpSeq]
      exact hholds.stays clock he (by omega) hc r.clockJumpUsec

/-- The chunk is written when it is full. -/
theorem OpenAt.flushFull (hc : NeverSyncs config) (he : IsQuiet e) (h : OpenAt n r) :
    ∃ r', (if ((addedEntry r 6 e).writers 6).chunk.length = chunkSize then
        (addedEntry r 6 e).flushChunk (clockEnv clock) config 6
      else (none, addedEntry r 6 e)) = (none, r') ∧ OpenAt (n + 1) r' := by
  obtain ⟨f, hholds⟩ := h.writer
  have hadd : HoldsFrames (n / 512) (n % 512 + 1) ((addedEntry r 6 e).writers 6) f := by
    simp only [addedEntry, RecorderState.after, Function.update_self]
    exact hholds.add he
  have hothers : ∀ gi ≠ 6, ((addedEntry r 6 e).writers gi).chunk = [] ∧
      ((addedEntry r 6 e).writers gi).file = none := by
    intro gi hgi
    simp only [addedEntry, RecorderState.after, Function.update_of_ne hgi]
    exact h.others gi hgi
  have hfailed : (addedEntry r 6 e).history.failed = false := by
    simp [addedEntry, RecorderState.after, h.failed]
  rw [hadd.chunk_length]
  split
  · next hfull =>
    simp only [chunkSize] at hfull
    obtain ⟨w', f', hres, hholds'⟩ := hadd.flush (t := (addedEntry r 6 e).tick) clock hc
    refine ⟨((addedEntry r 6 e).flushChunk (clockEnv clock) config 6).2, ?_, ?_⟩
    · simp only [RecorderState.flushChunk, hres]
    · simp only [RecorderState.flushChunk, hres]
      refine ⟨?_, h.clockJumpSeq, fun gi hgi => ?_, f', ?_⟩
      · simp [RecorderState.after, hfailed]
      · simp only [RecorderState.after, Function.update_of_ne hgi]
        exact hothers gi hgi
      · simp only [RecorderState.after, Function.update_self]
        rw [show (n + 1) / 512 = n / 512 + 1 by omega, show (n + 1) % 512 = 0 by omega]
        exact hholds'
  · next hfull =>
    simp only [chunkSize] at hfull
    refine ⟨addedEntry r 6 e, rfl, hfailed, h.clockJumpSeq, hothers, f, ?_⟩
    rw [show (n + 1) / 512 = n / 512 by omega, show (n + 1) % 512 = n % 512 + 1 by omega]
    exact hadd

/-- An entry is stored. -/
theorem OpenAt.add (hc : NeverSyncs config) (hn : n < 2 ^ 50) (he : IsQuiet e)
    (h : OpenAt n r) :
    ∃ r', recorderAddEntry (clockEnv clock) config r 6 e = (none, r') ∧ OpenAt (n + 1) r' := by
  obtain ⟨r1, hflushed, hopen⟩ := h.flushFull clock hc he
  obtain ⟨f, hholds⟩ := hopen.writer
  have hsize : ¬ (r1.writers 6).bytesWritten ≥ recorderSegmentLimit config := by
    rw [hc.limit, hholds.bytesWritten, hholds.size]
    omega
  refine ⟨r1, ?_, hopen⟩
  unfold addedEntry at hflushed
  unfold recorderAddEntry
  rw [show ((clockEnv clock).io r.tick .serialize).errno = none from rfl]
  dsimp only
  rw [hflushed]
  simp only [if_neg hsize]

/-- An entry is submitted without a second attempt. -/
theorem submit_open (hc : NeverSyncs config) (hn : n < 2 ^ 50) (he : IsQuiet e)
    (htime : n = 0 → e.realtimeTs = 5) (h : n = 0 ∧ ClosedAll r ∨ OpenAt n r) :
    ∃ r', recorderSubmitEntryWithRecovery (clockEnv clock) config r e = (none, r') ∧
      OpenAt (n + 1) r' := by
  obtain ⟨r1, hensure, hopen⟩ := ensureWriter_open clock hc hn he htime h
  obtain ⟨r2, hadd, hopen2⟩ := hopen.add clock hc hn he
  refine ⟨r2, ?_, hopen2⟩
  have hsubmit : recorderSubmitEntry (clockEnv clock) config r e = (none, r2) := by
    simp only [recorderSubmitEntry, he.priority, hc.routed, hensure, hadd]
  simp only [recorderSubmitEntryWithRecovery, hc.minFree, ne_eq, not_true_eq_false, if_false,
    hsubmit]

/-! ## Turns -/

/-- The recorder behind `n` entries of the journal. -/
structure StoredAll (n : ℕ) (r : RecorderState) : Prop where
  position : r.position = n
  pending : r.currentEntryPending = false
  writers : n = 0 ∧ ClosedAll r ∨ OpenAt n r

/-- The tie order is all that is set of a received entry. -/
theorem received_fields (r : RecorderState) (e : LogEntry) :
    (received r e).2.realtimeTs = e.realtimeTs ∧ (received r e).2.bootId = e.bootId ∧
      (received r e).2.priority = e.priority ∧ (received r e).2.texts = e.texts := by
  unfold received recorderAssignMonotonicTieOrder
  dsimp only
  split <;> exact ⟨rfl, rfl, rfl, rfl⟩

/-- A received entry of the journal is quiet, and the first one has the time 5. -/
theorem received_quiet (r : RecorderState) {i : ℕ} (hi : i < 2 ^ 50) :
    IsQuiet (received r (quietEntry i)).2 ∧
      (i = 0 → (received r (quietEntry i)).2.realtimeTs = 5) := by
  obtain ⟨htime, hboot, hpriority, htexts⟩ := received_fields r (quietEntry i)
  refine ⟨⟨?_, hboot, hpriority, congrArg EntryTexts.message htexts⟩, ?_⟩
  · rw [htime, UInt64.le_iff_toNat_le]
    change 5 ≤ (UInt64.ofNat (5 + i)).toNat
    rw [UInt64.toNat_ofNat_of_lt' (show 5 + i < 2 ^ 64 by omega)]
    omega
  · rintro rfl
    rw [htime]
    rfl

/-- No clock jump is noticed. -/
theorem received_clock (r : RecorderState) (e : LogEntry) :
    (received r e).1.clockJumpSeq = r.clockJumpSeq := by
  unfold received recorderAssignMonotonicTieOrder
  dsimp only
  split <;> rfl

/-- `ClosedAll` and `OpenAt` say nothing about the reading side. -/
theorem stored_congr {r' : RecorderState} (hwriters : r'.writers = r.writers)
    (hclock : r'.clockJumpSeq = r.clockJumpSeq)
    (hfailed : r'.history.failed = r.history.failed)
    (h : n = 0 ∧ ClosedAll r ∨ OpenAt n r) : n = 0 ∧ ClosedAll r' ∨ OpenAt n r' := by
  rcases h with ⟨hzero, hclosed⟩ | hopen
  · exact .inl ⟨hzero, hfailed ▸ hclosed.failed, hclock ▸ hclosed.clockJumpSeq,
      hwriters ▸ hclosed.writers⟩
  · exact .inr ⟨hfailed ▸ hopen.failed, hclock ▸ hopen.clockJumpSeq, hwriters ▸ hopen.others,
      hwriters ▸ hopen.writer⟩

/-- The cursor is kept. -/
theorem keepCursor_clock (r : RecorderState) :
    ∃ cursor tick, recorderKeepCursor (clockEnv clock) r =
      (true, { r with pendingCursor := cursor, tick := tick }) := by
  unfold recorderKeepCursor
  split
  · exact ⟨some r.position, r.tick + 1, rfl⟩
  · exact ⟨r.pendingCursor, r.tick, rfl⟩

/-- There are no modifiers. -/
theorem clockEnv_keeps (config : RecorderConfig) (t : ℕ) (e : LogEntry) :
    applyEntryModifiers (clockEnv clock) config t e = .keep e := by
  simp [applyEntryModifiers, clockEnv, plainEnv, rerouteLoop]

/-- A turn of the loop stores the next entry. -/
theorem StoredAll.turn (hc : NeverSyncs config) (hn : n < 2 ^ 50) (h : StoredAll n r)
    (journal : List LogEntry) (he : journal[n]? = some (quietEntry n)) :
    ∃ r', recorderTurn (clockEnv clock) config journal r = (true, r') ∧ StoredAll (n + 1) r' := by
  have hat : journal[(atNextEntry r).position - 1]? = some (quietEntry n) := by
    simp only [atNextEntry, h.pending, Bool.false_eq_true, if_false, h.position]
    exact he
  rw [recorderTurn_eq (clockEnv clock) config journal hat rfl]
  unfold recorderStoreEntry
  simp only [clockEnv_keeps]
  obtain ⟨hwriters, -, hposition, hpending, hhistory, -⟩ :=
    received_same (atNextEntry r) (quietEntry n)
  have hnext : n = 0 ∧ ClosedAll (atNextEntry r) ∨ OpenAt n (atNextEntry r) :=
    stored_congr (r := r) rfl rfl rfl h.writers
  have hstored : n = 0 ∧ ClosedAll { (received (atNextEntry r) (quietEntry n)).1 with
      tick := r.tick + 1 + 1 } ∨ OpenAt n { (received (atNextEntry r) (quietEntry n)).1 with
      tick := r.tick + 1 + 1 } :=
    stored_congr hwriters (received_clock (atNextEntry r) (quietEntry n))
      (congrArg RecorderHistory.failed hhistory) hnext
  obtain ⟨hquiet, htime⟩ := received_quiet (atNextEntry r) hn
  obtain ⟨r1, hsubmit, hopen⟩ := submit_open clock hc hn hquiet htime hstored
  have hreading := submitEntryWithRecovery_reading (clockEnv clock) config
    { (received (atNextEntry r) (quietEntry n)).1 with tick := r.tick + 1 + 1 }
    (received (atNextEntry r) (quietEntry n)).2
  rw [hsubmit] at hreading ⊢
  obtain ⟨cursor, tick, hkeep⟩ := keepCursor_clock clock { r1 with history := { r1.history with
    accepted := r1.history.accepted ++
      [(r1.position, (received (atNextEntry r) (quietEntry n)).2)] } }
  refine ⟨_, hkeep, ?_, hreading.pending.trans hpending, .inr ⟨hopen.failed, hopen.clockJumpSeq,
    hopen.others, hopen.writer⟩⟩
  calc r1.position = (atNextEntry r).position := hreading.position.trans hposition
    _ = n + 1 := by
      simp only [atNextEntry, h.pending, Bool.false_eq_true, if_false, h.position]

/-- So do the turns of one step. -/
theorem StoredAll.stepLoop (hc : NeverSyncs config) (journal : List LogEntry) (k : ℕ)
    (hquiet : ∀ i < n + k, journal[i]? = some (quietEntry i)) (hn : n + k ≤ 2 ^ 50)
    (h : StoredAll n r) :
    StoredAll (n + k) (recorderStepLoop (clockEnv clock) config journal k r).2 := by
  induction k generalizing n r with
  | zero => exact h
  | succ k ih =>
    obtain ⟨r1, hturn, hnext⟩ := h.turn clock hc (by omega) journal (hquiet n (by omega))
    have hrest := ih (n := n + 1) (fun i hi => hquiet i (by omega)) (by omega) hnext
    unfold recorderStepLoop
    rw [hturn]
    rw [show n + (k + 1) = n + 1 + k by omega]
    exact hrest

/-- A step stores 512 entries. -/
theorem StoredAll.steps (hc : NeverSyncs config) (journal : List LogEntry) (k : ℕ)
    (hquiet : ∀ i < n + k * 512, journal[i]? = some (quietEntry i)) (hn : n + k * 512 ≤ 2 ^ 50)
    (h : StoredAll n r) :
    StoredAll (n + k * 512)
      (recorderRun (clockEnv clock) config journal (List.replicate k .step) r) := by
  induction k generalizing n r with
  | zero => exact h
  | succ k ih =>
    have hfirst : ∀ i < n + 512, journal[i]? = some (quietEntry i) :=
      fun i hi => hquiet i (by omega)
    have hrest : ∀ i < n + 512 + k * 512, journal[i]? = some (quietEntry i) :=
      fun i hi => hquiet i (by omega)
    have hstep := h.stepLoop clock hc journal 512 hfirst (by omega)
    have hsteps := ih hrest (by omega) hstep
    rw [show n + (k + 1) * 512 = n + 512 + k * 512 by omega, List.replicate_succ]
    exact hsteps

/-- No sync is due. -/
theorem writerSyncIfDue_clock (hc : NeverSyncs config) (gi : ℕ) (w : PriorityWriter)
    (h : gi ≠ 6 → w.file = none) : writerSyncIfDue (clockEnv clock) config t gi w = (none, w) := by
  unfold writerSyncIfDue
  by_cases hgi : gi = 6
  · subst hgi
    simp [hc.durable, hc.interval]
  · simp [PriorityWriter.isOpen, h hgi]

/-- With empty chunks a flush changes no writer. -/
theorem flushLoop_clock (hc : NeverSyncs config) (gis : List ℕ)
    (hempty : ∀ gi, (r.writers gi).chunk = []) (hclosed : ∀ gi ≠ 6, (r.writers gi).file = none)
    (hfailed : r.history.failed = false) :
    ∃ r', recorderFlushLoop (clockEnv clock) config gis r = (none, r') ∧ r'.writers = r.writers ∧
      r'.history.failed = false := by
  induction gis generalizing r with
  | nil => exact ⟨r, rfl, rfl, hfailed⟩
  | cons gi gis ih =>
    have hflush : writerFlushChunk (clockEnv clock) config r.tick gi (r.writers gi) =
        (none, r.writers gi) := writerFlushChunk_of_nil gi (hempty gi)
    unfold recorderFlushLoop
    simp only [RecorderState.flushChunk, hflush, RecorderState.syncIfDue, RecorderState.after,
      Function.update_eq_self]
    rw [writerSyncIfDue_clock clock hc gi _ (hclosed gi)]
    simp only [Function.update_eq_self]
    exact ih hempty hclosed (by simp [hfailed])

/-- Nor does the checkpoint. -/
theorem persistJournalCursor_clock (r : RecorderState) :
    (persistJournalCursor (clockEnv clock) r).writers = r.writers ∧
      (persistJournalCursor (clockEnv clock) r).history.failed = r.history.failed := by
  unfold persistJournalCursor
  split
  · split
    · exact ⟨rfl, rfl⟩
    · exact ⟨rfl, Bool.or_false _⟩
  · exact ⟨rfl, rfl⟩

/-- Behind any number of steps the segment has one frame for each, and none of them was
synced. -/
theorem steps_never_synced (hc : NeverSyncs config) (k : ℕ) (hk : (k + 1) * 512 ≤ 2 ^ 50) :
    ∃ r f, recorderFlushAll (clockEnv clock) config true
        (recorderRun (clockEnv clock) config (quietJournal ((k + 1) * 512))
          (List.replicate (k + 1) .step) {}) = (none, r) ∧ r.history.failed = false ∧
      (r.writers 6).file = some f ∧ f.frames.length = k + 1 ∧ (r.writers 6).syncedFrames = 0 := by
  have hstart : StoredAll 0 ({} : RecorderState) :=
    ⟨rfl, rfl, .inl ⟨rfl, rfl, rfl, fun _ => ⟨rfl, rfl⟩⟩⟩
  have hquiet : ∀ i < 0 + (k + 1) * 512,
      (quietJournal ((k + 1) * 512))[i]? = some (quietEntry i) := by
    intro i hi
    rw [quietJournal, List.getElem?_map, List.getElem?_range (by omega)]
    rfl
  have hrun := hstart.steps clock hc (quietJournal ((k + 1) * 512)) (k + 1) hquiet
    (by omega)
  rw [Nat.zero_add] at hrun
  rcases hrun.writers with ⟨hzero, -⟩ | hopen
  · omega
  · obtain ⟨f, hholds⟩ := hopen.writer
    rw [Nat.mul_div_cancel _ (by decide), Nat.mul_mod_left] at hholds
    have hempty : ∀ gi, ((recorderRun (clockEnv clock) config (quietJournal ((k + 1) * 512))
        (List.replicate (k + 1) .step) {}).writers gi).chunk = [] := by
      intro gi
      by_cases hgi : gi = 6
      · subst hgi
        exact List.eq_nil_of_length_eq_zero hholds.chunk_length
      · exact (hopen.others gi hgi).1
    obtain ⟨r1, hloop, hwriters, hfailed⟩ := flushLoop_clock clock hc
      (List.range config.groups.length) hempty (fun gi hgi => (hopen.others gi hgi).2)
      hopen.failed
    obtain ⟨hkept, hstill⟩ := persistJournalCursor_clock clock r1
    refine ⟨persistJournalCursor (clockEnv clock) r1, f, ?_, hstill.trans hfailed, ?_,
      hholds.frames, ?_⟩
    · simp only [recorderFlushAll, hloop, if_true]
    · rw [hkept, hwriters, hholds.file]
    · rw [hkept, hwriters, hholds.syncedFrames]

end LongSegment

end Recorder.Analysis
