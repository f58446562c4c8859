import Recorder.Analysis.WriterFiles
import Recorder.Model.Recorder

/-!
# Invariants of a recorder

What the recorder stores changes in a few operations only: receiving an entry, flushing,
syncing and closing a segment, a retention pass, opening a segment and adding an entry to
the chunk of its writer. A property that each of these keeps holds along every run
(`RecorderRule.run`). It may speak of the entry at hand, which is numbered when it is
received and stored only after a rotation and the retention pass behind it.
-/

set_option autoImplicit false

namespace Recorder.Analysis

open Recorder.Model

/-- Where the recorder is with a journal entry: between two entries, with an entry that is
not stored yet, or with one that is. -/
inductive Stage
  | idle
  | holding (e : LogEntry)
  | stored (e : LogEntry)

/-- Two states store the same. -/
structure SameStored (r r' : RecorderState) : Prop where
  writers : r'.writers = r.writers
  closed : r'.closed = r.closed
  removed : r'.removed = r.removed
  boots : r'.boots = r.boots
  nextSegmentSeq : r'.nextSegmentSeq = r.nextSegmentSeq
  haveLastReceived : r'.haveLastReceived = r.haveLastReceived
  lastReceivedMonotonicTs : r'.lastReceivedMonotonicTs = r.lastReceivedMonotonicTs
  lastReceivedBootSeq : r'.lastReceivedBootSeq = r.lastReceivedBootSeq
  monotonicTieOrder : r'.monotonicTieOrder = r.monotonicTieOrder
  position : r'.position = r.position
  currentEntryPending : r'.currentEntryPending = r.currentEntryPending
  accepted : r'.history.accepted = r.history.accepted
  passes : r'.history.passes = r.history.passes
  failed : r'.history.failed = false → r.history.failed = false

/-- A state has what it has. -/
theorem SameStored.rfl {r : RecorderState} : SameStored r r :=
  ⟨Eq.refl _, Eq.refl _, Eq.refl _, Eq.refl _, Eq.refl _, Eq.refl _, Eq.refl _, Eq.refl _,
    Eq.refl _, Eq.refl _, Eq.refl _, Eq.refl _, Eq.refl _, id⟩

/-- Two changes that leave the segments alone are one. -/
theorem SameStored.trans {r r' r'' : RecorderState} (h : SameStored r r')
    (h' : SameStored r' r'') : SameStored r r'' where
  writers := h'.writers.trans h.writers
  closed := h'.closed.trans h.closed
  removed := h'.removed.trans h.removed
  boots := h'.boots.trans h.boots
  nextSegmentSeq := h'.nextSegmentSeq.trans h.nextSegmentSeq
  haveLastReceived := h'.haveLastReceived.trans h.haveLastReceived
  lastReceivedMonotonicTs := h'.lastReceivedMonotonicTs.trans h.lastReceivedMonotonicTs
  lastReceivedBootSeq := h'.lastReceivedBootSeq.trans h.lastReceivedBootSeq
  monotonicTieOrder := h'.monotonicTieOrder.trans h.monotonicTieOrder
  position := h'.position.trans h.position
  currentEntryPending := h'.currentEntryPending.trans h.currentEntryPending
  accepted := h'.accepted.trans h.accepted
  passes := h'.passes.trans h.passes
  failed := fun hfailed => h.failed (h'.failed hfailed)

/-- The writer of a group with one more entry in its chunk. -/
def addedEntry (r : RecorderState) (gi : ℕ) (e : LogEntry) : RecorderState :=
  { r with writers := Function.update r.writers gi (writerAddEntry (r.writers gi) e) }.after none

/-- The recorder with the segment of a group closed. -/
def finishedSegment (env : RecorderEnv) (r : RecorderState) (gi : ℕ) (f : SegmentOnDisk)
    (reason : RotateReason) : RecorderState :=
  match writerFinishSegment env r.tick (r.writers gi) f reason with
  | (errno, w, f) =>
    { r with
      writers := Function.update r.writers gi w
      closed := r.closed ++ [f] }.after errno

/-- The recorder with the journal at the next entry to read. -/
def atNextEntry (r : RecorderState) : RecorderState :=
  { r with
    position := if r.currentEntryPending then r.position else r.position + 1
    currentEntryPending := false }

/-- An entry as `extract_entry` and the tie order leave it, and the recorder with it. -/
def received (r : RecorderState) (e : LogEntry) : RecorderState × LogEntry :=
  match extractBoot r.boots e with
  | (boots, e) => recorderAssignMonotonicTieOrder { r with boots := boots } e

/-- **What has to be shown for an invariant.** `inv` holds at each stage, and `admits` of a
recorder whose writer of a group takes an entry. -/
structure RecorderRule (env : RecorderEnv) (config : RecorderConfig) (journal : List LogEntry)
    (inv : Stage → RecorderState → Prop) (admits : ℕ → LogEntry → RecorderState → Prop) :
    Prop where
  same : ∀ {x r r'}, SameStored r r' → inv x r → inv x r'
  receive : ∀ {r e}, journal[(atNextEntry r).position - 1]? = some e → inv .idle r →
    inv (.holding (received (atNextEntry r) e).2) (received (atNextEntry r) e).1
  numbered : ∀ {r e}, journal[(atNextEntry r).position - 1]? = some e → inv .idle r →
    inv .idle { atNextEntry r with boots := (extractBoot r.boots e).1 }
  modified : ∀ {r e} priority texts, inv (.holding e) r →
    inv (.holding { e with priority := priority, texts := texts }) r
  dropped : ∀ {r e}, inv (.holding e) r → inv .idle r
  pending : ∀ {r e}, r.history.failed = true → inv (.holding e) r →
    inv .idle { r with currentEntryPending := true }
  accepted : ∀ {r e} position, inv (.stored e) r →
    inv .idle { r with history := { r.history with
      accepted := r.history.accepted ++ [(position, e)] } }
  again : ∀ {r e}, r.history.failed = true → inv (.stored e) r → inv (.holding e) r
  flush : ∀ {x r} gi, inv x r → inv x (r.flushChunk env config gi).2
  sync : ∀ {x r} gi, inv x r → inv x (r.syncIfDue env config gi).2
  finish : ∀ {x r gi f} reason, (r.writers gi).file = some f → (r.writers gi).chunk = [] →
    inv x r → inv x (finishedSegment env r gi f reason)
  retention : ∀ {x r}, inv x r → inv x (r.retention env config).2
  stays : ∀ {r e gi}, (r.writers gi).isOpen = true →
    gi = config.priorityToGroup e.priority →
    (∃ t, writerShouldRotate env config t r.clockJumpSeq r.clockJumpUsec (r.writers gi) e =
      .none) → inv (.holding e) r → admits gi e r
  opened : ∀ {r e gi}, (r.writers gi).file = none → gi = config.priorityToGroup e.priority →
    (r.openSegment env config gi e).1 = none → inv (.holding e) r →
    admits gi e (r.openSegment env config gi e).2
  notOpened : ∀ {r e gi}, (r.writers gi).file = none →
    (r.openSegment env config gi e).1 ≠ none → inv (.holding e) r →
    inv (.holding e) (r.openSegment env config gi e).2
  added : ∀ {r e gi}, admits gi e r → inv (.stored e) (addedEntry r gi e)
  notAdded : ∀ {r e gi} err, admits gi e r → inv (.holding e) (r.after (some err))

/-! ## What is left alone -/

/-- A retention pass leaves the writers alone. -/
theorem retention_writers (env : RecorderEnv) (config : RecorderConfig) (r : RecorderState) :
    (r.retention env config).2.writers = r.writers := by
  unfold RecorderState.retention
  split <;> rfl

/-- A retention pass does not fail. -/
theorem retention_failed (env : RecorderEnv) (config : RecorderConfig) (r : RecorderState) :
    (r.retention env config).2.history.failed = r.history.failed := by
  unfold RecorderState.retention
  split <;> rfl

/-- Behind `writer_finish_segment` the writer has no file. -/
theorem writerFinishSegment_file (env : RecorderEnv) (t : ℕ) (w : PriorityWriter)
    (f : SegmentOnDisk) (reason : RotateReason) :
    (writerFinishSegment env t w f reason).2.1.file = none := by
  unfold writerFinishSegment
  simp only
  split
  · split
    · rfl
    · split <;> rfl
  · rfl

/-! ## Calls that may fail -/

/-- What holds behind a call that may have failed. -/
def CallEnds (failed ok : RecorderState → Prop) : Option Errno × RecorderState → Prop
  | (some _, r) => r.history.failed = true ∧ failed r
  | (none, r) => ok r

/-- How a call ends that notes its error. -/
theorem CallEnds.after {failed ok : RecorderState → Prop} {errno : Option Errno}
    {r : RecorderState} (hfailed : errno ≠ none → failed (r.after errno))
    (hok : errno = none → ok (r.after errno)) : CallEnds failed ok (errno, r.after errno) := by
  cases errno with
  | none => exact hok rfl
  | some err =>
    refine ⟨?_, hfailed (by simp)⟩
    simp [RecorderState.after]

/-- Less can be said of both ends of a call. -/
theorem CallEnds.mono {failed failed' ok ok' : RecorderState → Prop}
    {res : Option Errno × RecorderState} (h : CallEnds failed ok res)
    (hfailed : ∀ r, r.history.failed = true → failed r → failed' r) (hok : ∀ r, ok r → ok' r) :
    CallEnds failed' ok' res := by
  obtain ⟨errno, r⟩ := res
  cases errno with
  | none => exact hok r h
  | some err => exact ⟨h.1, hfailed r h.1 h.2⟩

/-- A call that goes on with `f` where it has not failed. -/
theorem CallEnds.bind {failed mid ok : RecorderState → Prop}
    {res : Option Errno × RecorderState} {f : RecorderState → Option Errno × RecorderState} :
    CallEnds failed mid res → (∀ r, mid r → CallEnds failed ok (f r)) →
    CallEnds failed ok (match res with
      | (some err, r) => (some err, r)
      | (none, r) => f r) := by
  intro h hf
  obtain ⟨errno, r⟩ := res
  cases errno with
  | none => exact hf r h
  | some err => exact h

/-- What a call leaves in either case. -/
theorem CallEnds.state {inv : RecorderState → Prop} {res : Option Errno × RecorderState}
    (h : CallEnds inv inv res) : inv res.2 := by
  obtain ⟨errno, r⟩ := res
  cases errno with
  | none => exact h
  | some err => exact h.2

namespace RecorderRule

variable {env : RecorderEnv} {config : RecorderConfig} {journal : List LogEntry}
  {inv : Stage → RecorderState → Prop} {admits : ℕ → LogEntry → RecorderState → Prop}
  (rule : RecorderRule env config journal inv admits)

/-! ## Writers -/

include rule

/-- `writer_flush_chunk` keeps the invariant, and leaves no chunk where it succeeds. -/
theorem flushChunk {x : Stage} {r : RecorderState} (gi : ℕ) (h : inv x r) :
    CallEnds (inv x) (fun r' => inv x r' ∧ (r'.writers gi).chunk = [])
      (r.flushChunk env config gi) := by
  have hflush := rule.flush gi h
  unfold RecorderState.flushChunk at hflush ⊢
  apply CallEnds.after
  · intro _
    exact hflush
  · intro _
    refine ⟨hflush, ?_⟩
    simp only [RecorderState.after, Function.update_self]
    exact writerFlushChunk_chunk gi _

/-- `writer_close_segment`: the writer of the group has no file behind it. -/
theorem closeSegment {x : Stage} {r : RecorderState} (gi : ℕ) (reason : RotateReason)
    (h : inv x r) :
    CallEnds (inv x) (fun r' => inv x r' ∧ (r'.writers gi).file = none)
      (r.closeSegment env config gi reason) := by
  unfold RecorderState.closeSegment
  split
  · rename_i hopen
    exact ⟨h, by simpa [PriorityWriter.isOpen] using hopen⟩
  · apply (rule.flushChunk gi h).bind
    rintro r1 ⟨hinv, hempty⟩
    split
    · rename_i hnone
      exact ⟨hinv, hnone⟩
    · rename_i f hfile
      have hfinish := rule.finish reason hfile hempty hinv
      unfold finishedSegment at hfinish
      apply CallEnds.after
      · intro _
        exact hfinish
      · intro _
        refine ⟨hfinish, ?_⟩
        simp only [RecorderState.after, Function.update_self]
        exact writerFinishSegment_file _ _ _ _ _

/-- `recorder_close_writer` keeps the invariant, and leaves no file where it succeeds. -/
theorem closeWriter {x : Stage} {r : RecorderState} (gi : ℕ) (reason : RotateReason)
    (h : inv x r) :
    CallEnds (inv x) (fun r' => inv x r' ∧ (r'.writers gi).file = none)
      (recorderCloseWriter env config r gi reason) := by
  unfold recorderCloseWriter
  apply (rule.closeSegment gi reason h).bind
  rintro r1 ⟨hinv, hfile⟩
  refine ⟨rule.retention hinv, ?_⟩
  rw [retention_writers]
  exact hfile

/-! ## Storing an entry -/

/-- `writer_open_segment`: the new segment takes the entry, or the entry is still at hand. -/
theorem openWriter {r : RecorderState} {e : LogEntry} {gi : ℕ}
    (hgi : gi = config.priorityToGroup e.priority) (hfile : (r.writers gi).file = none)
    (h : inv (.holding e) r) :
    CallEnds (inv (.holding e)) (admits gi e) (r.openSegment env config gi e) := by
  have hopened := fun hok => rule.opened hfile hgi hok h
  have hnot := fun hfail => rule.notOpened hfile hfail h
  unfold RecorderState.openSegment at hopened hnot ⊢
  exact CallEnds.after hnot hopened

/-- `recorder_ensure_writer`: the writer takes the entry, or the entry is still at hand. -/
theorem ensureWriter {r : RecorderState} {e : LogEntry} {gi : ℕ}
    (hgi : gi = config.priorityToGroup e.priority) (h : inv (.holding e) r) :
    CallEnds (inv (.holding e)) (admits gi e) (recorderEnsureWriter env config r gi e) := by
  unfold recorderEnsureWriter
  simp only
  by_cases hreason : writerShouldRotate env config r.tick r.clockJumpSeq r.clockJumpUsec
      (r.writers gi) e = .none
  · rw [if_pos hreason]
    simp only
    by_cases hopen : (r.writers gi).isOpen = true
    · rw [if_pos hopen]
      exact rule.stays hopen hgi ⟨_, hreason⟩ h
    · rw [if_neg hopen]
      exact rule.openWriter hgi (by simpa [PriorityWriter.isOpen] using hopen) h
  · rw [if_neg hreason]
    apply (rule.closeWriter gi _ h).bind
    rintro r1 ⟨hinv, hfile⟩
    simp only [PriorityWriter.isOpen, hfile, Option.isSome_none, Bool.false_eq_true, if_false]
    exact rule.openWriter hgi hfile hinv

/-- The rest of `recorder_submit_entry`. -/
theorem addEntry {r : RecorderState} {e : LogEntry} {gi : ℕ} (h : admits gi e r) :
    CallEnds (inv (.holding e)) (inv (.stored e)) (recorderAddEntry env config r gi e) := by
  unfold recorderAddEntry
  cases (env.io r.tick .serialize).errno with
  | some err =>
    apply CallEnds.after
    · intro _
      exact rule.notAdded err h
    · intro hnone
      cases hnone
  | none =>
    simp only
    rw [← addedEntry]
    have hadded := rule.added h
    have hflushed : CallEnds (inv (.holding e)) (inv (.stored e))
        (if ((addedEntry r gi e).writers gi).chunk.length = chunkSize then
          (addedEntry r gi e).flushChunk env config gi else (none, addedEntry r gi e)) := by
      split
      · apply (rule.flushChunk gi hadded).mono
        · intro r' hfailed hinv
          exact rule.again hfailed hinv
        · intro r' hinv
          exact hinv.1
      · exact hadded
    apply hflushed.bind
    intro r1 hstored
    split
    · apply (rule.closeWriter gi .size hstored).mono
      · intro r' hfailed hinv
        exact rule.again hfailed hinv
      · intro r' hinv
        exact hinv.1
    · exact hstored

/-- `recorder_submit_entry` stores the entry at hand, or still has it. -/
theorem submitEntry {r : RecorderState} {e : LogEntry} (h : inv (.holding e) r) :
    CallEnds (inv (.holding e)) (inv (.stored e)) (recorderSubmitEntry env config r e) := by
  unfold recorderSubmitEntry
  apply (rule.ensureWriter rfl h).bind
  intro r1 hadmits
  exact rule.addEntry hadmits

/-- `recorder_submit_entry_with_recovery`: a retention pass may come before the entry is
stored, or between two attempts. -/
theorem submitEntryWithRecovery {r : RecorderState} {e : LogEntry} (h : inv (.holding e) r) :
    CallEnds (inv (.holding e)) (inv (.stored e))
      (recorderSubmitEntryWithRecovery env config r e) := by
  unfold recorderSubmitEntryWithRecovery
  simp only
  have hfree : inv (.holding e)
      (if config.minFreeBytes ≠ 0 then (r.retention env config).2 else r) := by
    split
    · exact rule.retention h
    · exact h
  have hsubmit := rule.submitEntry hfree
  generalize recorderSubmitEntry env config
    (if config.minFreeBytes ≠ 0 then (r.retention env config).2 else r) e = res at hsubmit ⊢
  obtain ⟨errno, r1⟩ := res
  cases errno with
  | none => exact hsubmit
  | some err =>
    obtain ⟨hfailed, hinv⟩ := hsubmit
    simp only
    split
    · have hretained := rule.retention hinv
      rw [← retention_failed env config] at hfailed
      generalize r1.retention env config = res at hretained hfailed ⊢
      obtain ⟨removed, r2⟩ := res
      cases removed with
      | true => exact rule.submitEntry hretained
      | false => exact ⟨hfailed, hretained⟩
    · exact ⟨hfailed, hinv⟩

/-! ## A turn -/

/-- Keeping the cursor of an entry keeps the invariant. -/
theorem keepCursor {r : RecorderState} (h : inv .idle r) :
    inv .idle (recorderKeepCursor env r).2 := by
  apply rule.same _ h
  unfold recorderKeepCursor
  split
  · split <;> exact { SameStored.rfl (r := r) with }
  · exact SameStored.rfl

/-- An entry the modifiers keep is the entry at hand with another priority and other
texts. -/
theorem modifiers {r : RecorderState} {e e' : LogEntry} {t : ℕ} (h : inv (.holding e) r)
    (hkeep : applyEntryModifiers env config t e = .keep e') : inv (.holding e') r := by
  have hloop : ∀ (reroutes : ℕ) (seen : List (Fin 8)) (e : LogEntry), inv (.holding e) r →
      rerouteLoop env config t reroutes seen e = .keep e' → inv (.holding e') r := by
    intro reroutes
    induction reroutes with
    | zero =>
      intro seen e _ hloop
      cases hloop
    | succ reroutes ih =>
      intro seen e he hloop
      unfold rerouteLoop at hloop
      split at hloop
      · cases hloop
      · cases hloop
      · rename_i priority texts _
        have hmodified := rule.modified priority texts he
        simp only at hloop
        split at hloop
        · cases hloop
          exact hmodified
        · split at hloop
          · cases hloop
          · exact ih _ _ hmodified hloop
  unfold applyEntryModifiers at hkeep
  split at hkeep
  · cases hkeep
  · cases hkeep
  · rename_i priority texts _
    exact hloop _ _ _ (rule.modified priority texts h) hkeep

/-- Storing an entry keeps the invariant, whether it fails or not. -/
theorem storeEntry {r : RecorderState} {e : LogEntry} (h : inv (.holding e) r) :
    inv .idle (recorderStoreEntry env config r e).2 := by
  have hticked {x : Stage} : inv x r → inv x { r with tick := r.tick + 1 } :=
    rule.same { SameStored.rfl (r := r) with }
  unfold recorderStoreEntry
  split
  · exact hticked (rule.dropped h)
  · exact rule.keepCursor (hticked (rule.dropped h))
  · rename_i e' hkeep
    have hsubmit := rule.submitEntryWithRecovery (hticked (rule.modifiers h hkeep))
    generalize recorderSubmitEntryWithRecovery env config { r with tick := r.tick + 1 } e' = res
      at hsubmit ⊢
    obtain ⟨errno, r1⟩ := res
    cases errno with
    | some err => exact rule.pending hsubmit.1 hsubmit.2
    | none => exact rule.keepCursor (rule.accepted _ hsubmit)

omit rule in
/-- The tie order does not depend on the tick. -/
theorem assignMonotonicTieOrder_tick (r : RecorderState) (t : ℕ) (e : LogEntry) :
    recorderAssignMonotonicTieOrder { r with tick := t } e =
      ({ (recorderAssignMonotonicTieOrder r e).1 with tick := t },
        (recorderAssignMonotonicTieOrder r e).2) := by
  unfold recorderAssignMonotonicTieOrder
  split <;> rfl

/-- **One turn of the loop** of `recorder_step` keeps the invariant. -/
theorem turn {r : RecorderState} (h : inv .idle r) :
    inv .idle (recorderTurn env config journal r).2 := by
  unfold recorderTurn
  simp only
  split
  · exact h
  · rename_i e he
    unfold recorderReceiveEntry
    simp only
    split
    · refine rule.same ?_ (rule.numbered he h)
      exact { SameStored.rfl (r := { atNextEntry r with boots := (extractBoot r.boots e).1 }) with }
    · have htick := assignMonotonicTieOrder_tick
        { atNextEntry r with boots := (extractBoot r.boots e).1 } (r.tick + 1)
        (extractBoot r.boots e).2
      simp only [atNextEntry] at htick
      rw [htick]
      apply rule.storeEntry
      refine rule.same ?_ (rule.receive he h)
      exact { SameStored.rfl (r := (received (atNextEntry r) e).1) with }

/-- So do `n` turns, by induction. -/
theorem stepLoop (n : ℕ) {r : RecorderState} (h : inv .idle r) :
    inv .idle (recorderStepLoop env config journal n r).2 := by
  induction n generalizing r with
  | zero => exact h
  | succ n ih =>
    have hturn := rule.turn h
    unfold recorderStepLoop
    generalize recorderTurn env config journal r = res at hturn ⊢
    obtain ⟨more, r1⟩ := res
    cases more with
    | false => exact hturn
    | true => exact ih hturn

/-! ## Flushing and shutting down -/

/-- `writer_sync_if_due` keeps the invariant. -/
theorem syncIfDue {x : Stage} {r : RecorderState} (gi : ℕ) (h : inv x r) :
    CallEnds (inv x) (inv x) (r.syncIfDue env config gi) := by
  have hsync := rule.sync gi h
  unfold RecorderState.syncIfDue at hsync ⊢
  exact CallEnds.after (fun _ => hsync) (fun _ => hsync)

/-- Flushing one group after the other keeps the invariant. -/
theorem flushLoop (gis : List ℕ) {x : Stage} {r : RecorderState} (h : inv x r) :
    CallEnds (inv x) (inv x) (recorderFlushLoop env config gis r) := by
  induction gis generalizing r with
  | nil => exact h
  | cons gi gis ih =>
    unfold recorderFlushLoop
    apply (rule.flushChunk gi h).bind
    rintro r1 ⟨hflushed, -⟩
    apply (rule.syncIfDue gi hflushed).bind
    intro r2 hsynced
    exact ih hsynced

omit rule in
/-- Noting an error leaves the segments alone. -/
theorem after_same (r : RecorderState) (errno : Option Errno) : SameStored r (r.after errno) := by
  refine { SameStored.rfl (r := r) with failed := ?_ }
  intro hfailed
  simp only [RecorderState.after, Bool.or_eq_false_iff] at hfailed
  exact hfailed.1

omit rule in
/-- Writing the cursor leaves the segments alone. -/
theorem writeCursor_same (env : RecorderEnv) (r : RecorderState) (cursor : ℕ) :
    SameStored r (r.writeCursor env cursor).2 := by
  refine SameStored.trans ?_ (after_same _ _)
  exact { SameStored.rfl (r := r) with }

omit rule in
/-- `persist_journal_cursor` leaves the segments alone. -/
theorem persistJournalCursor_same (env : RecorderEnv) (r : RecorderState) :
    SameStored r (persistJournalCursor env r) := by
  unfold persistJournalCursor
  split
  · split
    · exact SameStored.rfl
    · rename_i cursor _
      have hwrite := writeCursor_same env r cursor
      generalize r.writeCursor env cursor = res at hwrite ⊢
      obtain ⟨errno, r1⟩ := res
      cases errno with
      | none => exact hwrite
      | some err => exact { hwrite with }
  · exact SameStored.rfl

omit rule in
/-- The cursor written at shutdown leaves the segments alone. -/
theorem recorderShutdownCursor_same (env : RecorderEnv) (r : RecorderState) :
    SameStored r (recorderShutdownCursor env r) := by
  have hpersist := persistJournalCursor_same env r
  unfold recorderShutdownCursor
  split
  · exact SameStored.rfl
  · simp only
    split
    · exact hpersist.trans (writeCursor_same env _ _)
    · exact hpersist

/-- `recorder_flush_all` keeps the invariant. -/
theorem flushAll (checkpoint : Bool) {x : Stage} {r : RecorderState} (h : inv x r) :
    CallEnds (inv x) (inv x) (recorderFlushAll env config checkpoint r) := by
  unfold recorderFlushAll
  apply (rule.flushLoop _ h).bind
  intro r1 hflushed
  cases checkpoint with
  | false => exact hflushed
  | true => exact rule.same (persistJournalCursor_same env r1) hflushed

/-- Closing one group after the other keeps the invariant. -/
theorem closeLoop (gis : List ℕ) {x : Stage} {r : RecorderState} (h : inv x r) :
    inv x (recorderCloseLoop env config gis r).2 := by
  induction gis generalizing r with
  | nil => exact h
  | cons gi gis ih =>
    have hclose : inv x (r.closeSegment env config gi .shutdown).2 :=
      ((rule.closeSegment gi .shutdown h).mono (fun _ _ h => h) fun _ h => h.1).state
    exact ih hclose

/-- `recorder_shutdown` keeps the invariant. -/
theorem shutdown {r : RecorderState} (h : inv .idle r) :
    inv .idle (recorderShutdown env config r) := by
  have hclosed := rule.closeLoop (List.range config.groups.length)
    (rule.flushAll false h).state
  unfold recorderShutdown
  simp only
  generalize recorderCloseLoop env config (List.range config.groups.length)
    (recorderFlushAll env config false r).2 = res at hclosed ⊢
  obtain ⟨ok, r1⟩ := res
  apply rule.retention
  refine rule.same ?_ hclosed
  split
  · exact { recorderShutdownCursor_same env r1 with }
  · exact { SameStored.rfl (r := r1) with }

/-- **Every call** keeps the invariant. -/
theorem call {r : RecorderState} (call : RecorderCall) (h : inv .idle r) :
    inv .idle (recorderCall env config journal r call) := by
  cases call with
  | clockJump usec => exact rule.same { SameStored.rfl (r := r) with } h
  | step => exact rule.stepLoop _ h
  | flushAll => exact (rule.flushAll true h).state
  | shutdown => exact rule.shutdown h

/-- **An invariant holds behind every sequence of calls.** -/
theorem run (calls : List RecorderCall) {r : RecorderState} (h : inv .idle r) :
    inv .idle (recorderRun env config journal calls r) := by
  unfold recorderRun
  induction calls generalizing r with
  | nil => exact h
  | cons call calls ih => exact ih (rule.call call h)

end RecorderRule

end Recorder.Analysis
