import Recorder.Analysis.Checkpoint
import Recorder.Analysis.RecorderRule

/-!
# The reading side of a call

The calls of the writers leave the journal where it is (`SameReading`), and so do those of a
checkpoint and of the shutdown, which may give up the cursor that waits to be written
(`SamePlace`).
-/

set_option autoImplicit false

namespace Recorder.Analysis

open Recorder.Model

/-! ## The reading side of a call -/

section Reading

variable (env : RecorderEnv) (config : RecorderConfig)

/-- A flushed chunk leaves the reading side alone. -/
theorem flushChunk_reading (r : RecorderState) (gi : ℕ) :
    SameReading r (r.flushChunk env config gi).2 := ⟨rfl, rfl, rfl, rfl, rfl⟩

/-- So does a sync that is due. -/
theorem syncIfDue_reading (r : RecorderState) (gi : ℕ) :
    SameReading r (r.syncIfDue env config gi).2 := ⟨rfl, rfl, rfl, rfl, rfl⟩

/-- So does a closed segment, whichever of its steps fails. -/
theorem closeSegment_reading (r : RecorderState) (gi : ℕ) (reason : RotateReason) :
    SameReading r (r.closeSegment env config gi reason).2 := by
  have hflush := flushChunk_reading env config r gi
  unfold RecorderState.closeSegment
  split
  · exact .rfl
  · split
    · next hres =>
      rw [hres] at hflush
      exact hflush
    · next r1 hres =>
      rw [hres] at hflush
      split
      · exact hflush
      · exact hflush.trans ⟨rfl, rfl, rfl, rfl, rfl⟩

/-- A retention pass removes segments only. -/
theorem retention_reading (r : RecorderState) : SameReading r (r.retention env config).2 := by
  unfold RecorderState.retention
  split
  · exact ⟨rfl, rfl, rfl, rfl, rfl⟩
  · exact ⟨rfl, rfl, rfl, rfl, rfl⟩

/-- A writer is closed and the pass behind it made without a read. -/
theorem closeWriter_reading (r : RecorderState) (gi : ℕ) (reason : RotateReason) :
    SameReading r (recorderCloseWriter env config r gi reason).2 := by
  have hclose := closeSegment_reading env config r gi reason
  unfold recorderCloseWriter
  split
  · next hres =>
    rw [hres] at hclose
    exact hclose
  · next r1 hres =>
    rw [hres] at hclose
    exact hclose.trans (retention_reading env config r1)

/-- A segment is rotated or opened without a read. -/
theorem ensureWriter_reading (r : RecorderState) (gi : ℕ) (e : LogEntry) :
    SameReading r (recorderEnsureWriter env config r gi e).2 := by
  have hrotated : ∀ reason, SameReading r (if reason = RotateReason.none then (none, r)
      else recorderCloseWriter env config r gi reason).2 := by
    intro reason
    split
    · exact .rfl
    · exact closeWriter_reading env config r gi reason
  unfold recorderEnsureWriter
  dsimp only
  split
  · next hres =>
    have h := hrotated (writerShouldRotate env config r.tick r.clockJumpSeq r.clockJumpUsec
      (r.writers gi) e)
    rw [hres] at h
    exact h
  · next r1 hres =>
    have h := hrotated (writerShouldRotate env config r.tick r.clockJumpSeq r.clockJumpUsec
      (r.writers gi) e)
    rw [hres] at h
    split
    · exact h
    · exact h.trans ⟨rfl, rfl, rfl, rfl, rfl⟩

/-- An entry is added, and its chunk flushed or its segment closed, without a read. -/
theorem addEntry_reading (r : RecorderState) (gi : ℕ) (e : LogEntry) :
    SameReading r (recorderAddEntry env config r gi e).2 := by
  have hflushed : SameReading r (if ((addedEntry r gi e).writers gi).chunk.length = chunkSize then
      (addedEntry r gi e).flushChunk env config gi else (none, addedEntry r gi e)).2 := by
    split
    · exact ⟨rfl, rfl, rfl, rfl, rfl⟩
    · exact ⟨rfl, rfl, rfl, rfl, rfl⟩
  unfold recorderAddEntry
  split
  · exact ⟨rfl, rfl, rfl, rfl, rfl⟩
  · unfold addedEntry at hflushed
    dsimp only
    split
    · next hres =>
      rw [hres] at hflushed
      exact hflushed
    · next r1 hres =>
      rw [hres] at hflushed
      split
      · exact hflushed.trans (closeWriter_reading env config r1 gi .size)
      · exact hflushed

/-- An entry is submitted without a read. -/
theorem submitEntry_reading (r : RecorderState) (e : LogEntry) :
    SameReading r (recorderSubmitEntry env config r e).2 := by
  have hensure := ensureWriter_reading env config r (config.priorityToGroup e.priority) e
  unfold recorderSubmitEntry
  dsimp only
  split
  · next hres =>
    rw [hres] at hensure
    exact hensure
  · next r1 hres =>
    rw [hres] at hensure
    exact hensure.trans (addEntry_reading env config r1 _ e)

/-- **A submission reads nothing**, the one that is tried again behind a pass included. -/
theorem submitEntryWithRecovery_reading (r : RecorderState) (e : LogEntry) :
    SameReading r (recorderSubmitEntryWithRecovery env config r e).2 := by
  have hspace : SameReading r
      (if config.minFreeBytes ≠ 0 then (r.retention env config).2 else r) := by
    split
    · exact retention_reading env config r
    · exact .rfl
  unfold recorderSubmitEntryWithRecovery
  dsimp only
  generalize (if config.minFreeBytes ≠ 0 then (r.retention env config).2 else r) = r0 at hspace
  have hsubmit := hspace.trans (submitEntry_reading env config r0 e)
  split
  · next hres =>
    rw [hres] at hsubmit
    exact hsubmit
  · next r1 hres =>
    rw [hres] at hsubmit
    split
    · have hpass := hsubmit.trans (retention_reading env config r1)
      split
      · next r2 hres2 =>
        rw [hres2] at hpass
        exact hpass.trans (submitEntry_reading env config r2 e)
      · next r2 hres2 =>
        rw [hres2] at hpass
        exact hpass
    · exact hsubmit

end Reading

/-! ## Calls without a turn -/

/-- A call that reads no entry: it may give up the cursor that waits to be written. -/
structure SamePlace (r r' : RecorderState) : Prop where
  accepted : r'.history.accepted = r.history.accepted
  position : r'.position = r.position
  pending : r'.currentEntryPending = r.currentEntryPending
  cursor : ∀ c, r'.pendingCursor = some c → r.pendingCursor = some c

section SamePlace

variable (env : RecorderEnv) (config : RecorderConfig)

/-- A call that leaves the reading side alone keeps the place in the journal. -/
theorem SameReading.samePlace {r r' : RecorderState} (h : SameReading r r') : SamePlace r r' :=
  ⟨h.accepted, h.position, h.pending, fun c hc => by rw [← h.pendingCursor]; exact hc⟩

/-- Two calls keep the place where each of them does. -/
theorem SamePlace.trans {r r' r'' : RecorderState} (h : SamePlace r r') (h' : SamePlace r' r'') :
    SamePlace r r'' where
  accepted := h'.accepted.trans h.accepted
  position := h'.position.trans h.position
  pending := h'.pending.trans h.pending
  cursor := fun c hc => h.cursor c (h'.cursor c hc)

/-- The place is kept where nothing is called. -/
theorem SamePlace.rfl {r : RecorderState} : SamePlace r r := SameReading.rfl.samePlace

/-- The loop of a flush keeps the place, by the groups it is through with. -/
theorem flushLoop_place (gis : List ℕ) (r : RecorderState) :
    SamePlace r (recorderFlushLoop env config gis r).2 := by
  induction gis generalizing r with
  | nil => exact .rfl
  | cons gi gis ih =>
    have hflush := flushChunk_reading env config r gi
    unfold recorderFlushLoop
    split
    · next hres =>
      rw [hres] at hflush
      exact hflush.samePlace
    · next r1 hres =>
      rw [hres] at hflush
      have hsync := hflush.trans (syncIfDue_reading env config r1 gi)
      split
      · next hres2 =>
        rw [hres2] at hsync
        exact hsync.samePlace
      · next r2 hres2 =>
        rw [hres2] at hsync
        exact hsync.samePlace.trans (ih r2)

/-- A checkpoint keeps the place. -/
theorem WritesCursor.samePlace {r r' : RecorderState} (h : WritesCursor r r') : SamePlace r r' :=
  ⟨h.accepted, h.reading.1, h.reading.2.1, fun c hc => by rw [← h.reading.2.2]; exact hc⟩

/-- **A flush keeps the place**, with a checkpoint behind it or without one. -/
theorem flushAll_place (checkpoint : Bool) (r : RecorderState) :
    SamePlace r (recorderFlushAll env config checkpoint r).2 := by
  have hloop := flushLoop_place env config (List.range config.groups.length) r
  unfold recorderFlushAll
  split
  · next hres =>
    rw [hres] at hloop
    exact hloop
  · next r1 hres =>
    rw [hres] at hloop
    cases checkpoint with
    | false => exact hloop
    | true => exact hloop.trans (persistJournalCursor_writes env r1).samePlace

/-- The loop that closes the segments keeps the place. -/
theorem closeLoop_place (gis : List ℕ) (r : RecorderState) :
    SamePlace r (recorderCloseLoop env config gis r).2 := by
  induction gis generalizing r with
  | nil => exact .rfl
  | cons gi gis ih =>
    exact (closeSegment_reading env config r gi .shutdown).samePlace.trans (ih _)

/-- **The shutdown keeps the place**, whatever fails in it. -/
theorem shutdown_place (r : RecorderState) : SamePlace r (recorderShutdown env config r) := by
  have hflush := flushAll_place env config false r
  unfold recorderShutdown
  generalize recorderFlushAll env config false r = res at hflush
  obtain ⟨errno, r1⟩ := res
  have hclose := hflush.trans (closeLoop_place env config (List.range config.groups.length) r1)
  dsimp only
  generalize recorderCloseLoop env config (List.range config.groups.length) r1 = res at hclose
  obtain ⟨ok, r2⟩ := res
  have hcursor : SamePlace r
      (if (errno.isNone && ok) = true then recorderShutdownCursor env r2 else r2) := by
    split
    · exact hclose.trans (recorderShutdownCursor_writes env r2).samePlace
    · exact hclose
  dsimp only
  refine (hcursor.trans ?_).trans (retention_reading env config _).samePlace
  exact ⟨Eq.refl _, Eq.refl _, Eq.refl _, fun _ h => nomatch h⟩

end SamePlace

end Recorder.Analysis
