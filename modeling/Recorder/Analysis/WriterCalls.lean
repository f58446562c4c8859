import Recorder.Analysis.WriterFiles

/-!
# Entries in chunks and files

Between `recorder_submit_entry` and a segment file an entry waits in the chunk of a writer.
`Carries` says that a call of the writers loses no entry, provided that every flushed frame
reaches its file: flushing moves a chunk into the file, closing moves the file to those that
no writer has open. An entry that was submitted is kept (`recorderSubmitEntry_spec`).
-/

set_option autoImplicit false

namespace Recorder.Analysis

open Recorder.Model

/-! ## Where an entry can be -/

section Places

variable (env : RecorderEnv) (config : RecorderConfig) (codec : CodecOps)

/-- An entry in a frame of a segment file. -/
def Holds (f : SegmentOnDisk) (e : LogEntry) : Prop := ∃ frame ∈ f.frames, e ∈ frame.entries

/-- An entry that waits in the chunk of a writer. -/
def InChunk (writers : ℕ → PriorityWriter) (e : LogEntry) : Prop :=
  ∃ gi, e ∈ (writers gi).chunk

/-- An entry in a segment file, open or closed. -/
def OnDisk (writers : ℕ → PriorityWriter) (closed : List SegmentOnDisk) (e : LogEntry) : Prop :=
  (∃ gi, ∃ f ∈ (writers gi).file, Holds f e) ∨
    ∃ f ∈ closed, StoredSegment env config codec f ∧ Holds f e

/-- The writers have entries for open segments only, and the files they write to are intact
and belong to configured groups. -/
structure WritersOk (writers : ℕ → PriorityWriter) : Prop where
  chunks : ∀ gi, (writers gi).chunk ≠ [] → (writers gi).file.isSome = true
  groups : ∀ gi, (writers gi).file.isSome = true → gi < config.groups.length
  files : ∀ gi, ∀ f ∈ (writers gi).file, OpenSegment env config codec (writers gi).encryptor f

/-- An entry that is not lost: it waits in a chunk or is in a file. -/
def Kept (r : RecorderState) (e : LogEntry) : Prop :=
  InChunk r.writers e ∨ OnDisk env config codec r.writers r.closed e

/-- In every flush so far the frame reached the file. -/
def FlushesReach (r : RecorderState) : Prop :=
  ∀ flush ∈ r.history.flushes, flush.2.chunk ≠ [] → FlushReaches env config flush.1 flush.2

end Places

section Update

variable {env : RecorderEnv} {config : RecorderConfig} {codec : CodecOps}
  {writers : ℕ → PriorityWriter} {closed closed' : List SegmentOnDisk} {gi : ℕ}
  {w : PriorityWriter}

/-- One writer is exchanged. -/
theorem WritersOk.update (h : WritersOk env config codec writers)
    (hchunk : w.chunk ≠ [] → w.file.isSome = true)
    (hgroup : w.file.isSome = true → gi < config.groups.length)
    (hfile : ∀ f ∈ w.file, OpenSegment env config codec w.encryptor f) :
    WritersOk env config codec (Function.update writers gi w) := by
  constructor
  · intro gj
    by_cases hgj : gj = gi
    · subst hgj
      rw [Function.update_self]
      exact hchunk
    · rw [Function.update_of_ne hgj]
      exact h.chunks gj
  · intro gj
    by_cases hgj : gj = gi
    · subst hgj
      rw [Function.update_self]
      exact hgroup
    · rw [Function.update_of_ne hgj]
      exact h.groups gj
  · intro gj
    by_cases hgj : gj = gi
    · subst hgj
      rw [Function.update_self]
      exact hfile
    · rw [Function.update_of_ne hgj]
      exact h.files gj

/-- What is on disk stays there when one writer is exchanged and no closed segment is lost. -/
theorem OnDisk.update {e : LogEntry} (h : OnDisk env config codec writers closed e)
    (hsub : ∀ f ∈ closed, f ∈ closed')
    (hkeep : ∀ f ∈ (writers gi).file, Holds f e →
      (∃ f' ∈ w.file, Holds f' e) ∨
        ∃ f' ∈ closed', StoredSegment env config codec f' ∧ Holds f' e) :
    OnDisk env config codec (Function.update writers gi w) closed' e := by
  rcases h with ⟨gj, f, hf, he⟩ | ⟨f, hf, hstored, he⟩
  · by_cases hgj : gj = gi
    · subst hgj
      rcases hkeep f hf he with ⟨f', hf', he'⟩ | hclosed
      · exact .inl ⟨gj, f', by rw [Function.update_self]; exact hf', he'⟩
      · exact .inr hclosed
    · exact .inl ⟨gj, f, by rw [Function.update_of_ne hgj]; exact hf, he⟩
  · exact .inr ⟨f, hsub f hf, hstored, he⟩

/-- An entry of a chunk is in one when one writer is exchanged, or was in that of its group. -/
theorem InChunk.update {e : LogEntry} (h : InChunk writers e) (gi : ℕ) (w : PriorityWriter) :
    InChunk (Function.update writers gi w) e ∨ e ∈ (writers gi).chunk := by
  obtain ⟨gj, he⟩ := h
  by_cases hgj : gj = gi
  · subst hgj
    exact .inr he
  · exact .inl ⟨gj, by rw [Function.update_of_ne hgj]; exact he⟩

end Update

/-! ## What a call of the writers carries over -/

/-- The reading side of the recorder is the same in two states. -/
structure SameReading (r r' : RecorderState) : Prop where
  accepted : r'.history.accepted = r.history.accepted
  cursors : r'.history.cursors = r.history.cursors
  position : r'.position = r.position
  pending : r'.currentEntryPending = r.currentEntryPending
  pendingCursor : r'.pendingCursor = r.pendingCursor

/-- No step leaves the reading. -/
theorem SameReading.rfl {r : RecorderState} : SameReading r r :=
  ⟨Eq.refl _, Eq.refl _, Eq.refl _, Eq.refl _, Eq.refl _⟩

/-- Two steps that leave the reading are one. -/
theorem SameReading.trans {r r' r'' : RecorderState} (h : SameReading r r')
    (h' : SameReading r' r'') : SameReading r r'' where
  accepted := h'.accepted.trans h.accepted
  cursors := h'.cursors.trans h.cursors
  position := h'.position.trans h.position
  pending := h'.pending.trans h.pending
  pendingCursor := h'.pendingCursor.trans h.pendingCursor

/-- From one state to a later one: no entry is lost on the way. -/
structure Carries (env : RecorderEnv) (config : RecorderConfig) (codec : CodecOps)
    (r r' : RecorderState) : Prop where
  reading : SameReading r r'
  reach : FlushesReach env config r' → FlushesReach env config r
  ok : FlushesReach env config r' → WritersOk env config codec r.writers →
    WritersOk env config codec r'.writers
  disk : FlushesReach env config r' → WritersOk env config codec r.writers → ∀ e,
    OnDisk env config codec r.writers r.closed e → OnDisk env config codec r'.writers r'.closed e
  chunk : FlushesReach env config r' → WritersOk env config codec r.writers → ∀ e,
    InChunk r.writers e →
      InChunk r'.writers e ∨ OnDisk env config codec r'.writers r'.closed e

/-- What may become of the writer of a group: its frames stay in its file or in a closed one,
and its chunk stays or gets into the file. -/
structure WriterMoves (env : RecorderEnv) (config : RecorderConfig) (codec : CodecOps) (gi : ℕ)
    (closed : List SegmentOnDisk) (w w' : PriorityWriter) : Prop where
  chunk_ok : w'.chunk ≠ [] → w'.file.isSome = true
  group_ok : w'.file.isSome = true → gi < config.groups.length
  file_ok : ∀ f ∈ w'.file, OpenSegment env config codec w'.encryptor f
  file : ∀ f ∈ w.file, ∀ e, Holds f e →
    (∃ f' ∈ w'.file, Holds f' e) ∨ ∃ f' ∈ closed, StoredSegment env config codec f' ∧ Holds f' e
  chunk : ∀ e ∈ w.chunk, e ∈ w'.chunk ∨ ∃ f' ∈ w'.file, Holds f' e

section Carries

variable {env : RecorderEnv} {config : RecorderConfig} {codec : CodecOps} {r r' r'' : RecorderState}

/-- Two steps that carry all entries are one. -/
theorem Carries.trans (h : Carries env config codec r r') (h' : Carries env config codec r' r'') :
    Carries env config codec r r'' where
  reading := h.reading.trans h'.reading
  reach hreach := h.reach (h'.reach hreach)
  ok hreach hok := h'.ok hreach (h.ok (h'.reach hreach) hok)
  disk hreach hok e he :=
    h'.disk hreach (h.ok (h'.reach hreach) hok) e (h.disk (h'.reach hreach) hok e he)
  chunk hreach hok e he := by
    have hok' := h.ok (h'.reach hreach) hok
    rcases h.chunk (h'.reach hreach) hok e he with hchunk | hdisk
    · exact h'.chunk hreach hok' e hchunk
    · exact .inr (h'.disk hreach hok' e hdisk)

/-- What was kept in front of the step is kept behind it. -/
theorem Carries.kept (h : Carries env config codec r r') (hreach : FlushesReach env config r')
    (hok : WritersOk env config codec r.writers) {e : LogEntry}
    (he : Kept env config codec r e) : Kept env config codec r' e := by
  rcases he with hchunk | hdisk
  · exact h.chunk hreach hok e hchunk
  · exact .inr (h.disk hreach hok e hdisk)

/-- The writers and the files did not change. -/
theorem Carries.of_eq (hreading : SameReading r r') (hwriters : r'.writers = r.writers)
    (hclosed : r'.closed = r.closed) (hflushes : r'.history.flushes = r.history.flushes) :
    Carries env config codec r r' where
  reading := hreading
  reach hreach := by
    unfold FlushesReach at hreach ⊢
    rw [hflushes] at hreach
    exact hreach
  ok _ hok := by rw [hwriters]; exact hok
  disk _ _ e he := by rw [hwriters, hclosed]; exact he
  chunk _ _ e he := by rw [hwriters]; exact .inl he

/-- No step carries all entries. -/
theorem Carries.rfl : Carries env config codec r r :=
  .of_eq .rfl (Eq.refl _) (Eq.refl _) (Eq.refl _)

/-- One writer changed. -/
theorem Carries.of_moves {gi : ℕ} {w : PriorityWriter} (hreading : SameReading r r')
    (hwriters : r'.writers = Function.update r.writers gi w)
    (hclosed : ∀ f ∈ r.closed, f ∈ r'.closed)
    (hreach : FlushesReach env config r' → FlushesReach env config r)
    (hmoves : FlushesReach env config r' → WritersOk env config codec r.writers →
      WriterMoves env config codec gi r'.closed (r.writers gi) w) :
    Carries env config codec r r' where
  reading := hreading
  reach := hreach
  ok h hok := by
    rw [hwriters]
    exact hok.update (hmoves h hok).chunk_ok (hmoves h hok).group_ok (hmoves h hok).file_ok
  disk h hok e he := by
    rw [hwriters]
    apply he.update hclosed
    intro f hf hholds
    exact (hmoves h hok).file f hf e hholds
  chunk h hok e he := by
    rw [hwriters]
    rcases he.update gi w with hchunk | hmem
    · exact .inl hchunk
    · rcases (hmoves h hok).chunk e hmem with hchunk | ⟨f', hf', he'⟩
      · exact .inl ⟨gi, by rw [Function.update_self]; exact hchunk⟩
      · exact .inr (.inl ⟨gi, f', by rw [Function.update_self]; exact hf', he'⟩)

/-- A writer that keeps its file, encryptor and chunk. -/
theorem WriterMoves.of_eq {gi : ℕ} {closed : List SegmentOnDisk} {w w' : PriorityWriter}
    {writers : ℕ → PriorityWriter} (hok : WritersOk env config codec writers)
    (hw : writers gi = w) (hfile : w'.file = w.file) (hencryptor : w'.encryptor = w.encryptor)
    (hchunk : w'.chunk = w.chunk) : WriterMoves env config codec gi closed w w' where
  chunk_ok := by
    rw [hfile, hchunk, ← hw]
    exact hok.chunks gi
  group_ok := by
    rw [hfile, ← hw]
    exact hok.groups gi
  file_ok := by
    rw [hfile, hencryptor, ← hw]
    exact hok.files gi
  file f hf e he := .inl ⟨f, by rw [hfile]; exact hf, he⟩
  chunk e he := .inl (by rw [hchunk]; exact he)

/-- A retention pass carries all entries: it removes files that are closed. -/
theorem retention_carries (env : RecorderEnv) (config : RecorderConfig) (codec : CodecOps)
    (r : RecorderState) :
    Carries env config codec r (r.retention env config).2 := by
  unfold RecorderState.retention
  split
  · exact .of_eq ⟨rfl, rfl, rfl, rfl, rfl⟩ rfl rfl rfl
  · exact .of_eq ⟨rfl, rfl, rfl, rfl, rfl⟩ rfl rfl rfl

/-- Noting an error carries all entries. -/
theorem after_carries (r : RecorderState) (errno : Option Errno) :
    Carries env config codec r (r.after errno) := .of_eq ⟨rfl, rfl, rfl, rfl, rfl⟩ rfl rfl rfl

/-- `writer_sync_if_due` changes when the writer was synced. -/
theorem writerSyncIfDue_keeps (env : RecorderEnv) (config : RecorderConfig) (t gi : ℕ)
    (w : PriorityWriter) :
    (writerSyncIfDue env config t gi w).2.file = w.file ∧
      (writerSyncIfDue env config t gi w).2.encryptor = w.encryptor ∧
      (writerSyncIfDue env config t gi w).2.chunk = w.chunk := by
  unfold writerSyncIfDue
  simp only
  split
  · exact ⟨rfl, rfl, rfl⟩
  · split
    · split <;> exact ⟨rfl, rfl, rfl⟩
    · exact ⟨rfl, rfl, rfl⟩

/-- A sync carries all entries. -/
theorem syncIfDue_carries (env : RecorderEnv) (config : RecorderConfig) (codec : CodecOps)
    (r : RecorderState) (gi : ℕ) :
    Carries env config codec r (r.syncIfDue env config gi).2 := by
  obtain ⟨hfile, hencryptor, hchunk⟩ :=
    writerSyncIfDue_keeps env config r.tick gi (r.writers gi)
  refine .of_moves (w := (writerSyncIfDue env config r.tick gi (r.writers gi)).2)
    ⟨rfl, rfl, rfl, rfl, rfl⟩ rfl (fun _ hf => hf) (fun h => h) ?_
  intro _ hok
  exact .of_eq hok rfl hfile hencryptor hchunk

end Carries

section Laws

variable {env : RecorderEnv} (config : RecorderConfig) {codec : CodecOps}
  (evpLaws : EvpLaws env.evp) (laws : ChunkLaws env codec)

include evpLaws laws

/-- A flush that reaches the file moves the chunk into it. -/
theorem writerFlushChunk_moves {t gi : ℕ} {writers : ℕ → PriorityWriter}
    (closed : List SegmentOnDisk) (hok : WritersOk env config codec writers)
    (hreach : (writers gi).chunk ≠ [] → FlushReaches env config t (writers gi)) :
    WriterMoves env config codec gi closed (writers gi)
      (writerFlushChunk env config t gi (writers gi)).2 := by
  by_cases hchunk : (writers gi).chunk = []
  · rw [writerFlushChunk_of_nil gi hchunk]
    exact .of_eq hok rfl rfl rfl rfl
  · have hsome := hok.chunks gi hchunk
    obtain ⟨f, hf⟩ := Option.isSome_iff_exists.mp hsome
    obtain ⟨f', hf', hframes, hopen⟩ := writerFlushChunk_spec evpLaws laws gi hf
      (hok.files gi f hf) hchunk (hreach hchunk)
    constructor
    · intro hne
      exact absurd (writerFlushChunk_chunk gi _) hne
    · exact fun _ => hok.groups gi hsome
    · intro f0 hf0
      obtain rfl : f0 = f' := Option.some.inj (hf0.symm.trans hf')
      exact hopen
    · intro f0 hf0 e he
      obtain rfl : f0 = f := Option.some.inj (hf0.symm.trans hf)
      obtain ⟨frame, hframe, he⟩ := he
      refine .inl ⟨f', hf', frame, ?_, he⟩
      rw [hframes]
      exact List.mem_append_left _ hframe
    · intro e he
      refine .inr ⟨f', hf', ⟨f.content.length, (writers gi).chunk⟩, ?_, he⟩
      rw [hframes]
      exact List.mem_append_right _ (List.mem_singleton.mpr rfl)

/-- A flush carries all entries, or fails. -/
theorem flushChunk_carries (r : RecorderState) (gi : ℕ) :
    Carries env config codec r (r.flushChunk env config gi).2 := by
  refine .of_moves (w := (writerFlushChunk env config r.tick gi (r.writers gi)).2)
    ⟨rfl, rfl, rfl, rfl, rfl⟩ rfl (fun _ hf => hf) ?_ ?_
  · intro h flush hflush
    exact h flush (List.mem_append_left _ hflush)
  · intro h hok
    apply writerFlushChunk_moves config evpLaws laws _ hok
    exact h (r.tick, r.writers gi) (List.mem_append_right _ (List.mem_singleton.mpr rfl))

/-- Closing a segment moves its file to the closed ones. -/
theorem closeSegment_carries (r : RecorderState) (gi : ℕ) (reason : RotateReason) :
    Carries env config codec r (r.closeSegment env config gi reason).2 := by
  unfold RecorderState.closeSegment
  split
  · exact .rfl
  · have hflush := flushChunk_carries config evpLaws laws r gi
    have hempty : ((r.flushChunk env config gi).2.writers gi).chunk = [] := by
      simp only [RecorderState.flushChunk, RecorderState.after, Function.update_self]
      exact writerFlushChunk_chunk gi _
    split
    · rename_i hres
      rw [hres] at hflush
      exact hflush
    · rename_i r1 hres
      rw [hres] at hflush hempty
      apply hflush.trans
      split
      · exact .rfl
      · rename_i f hf
        refine .of_moves (w := (writerFinishSegment env r1.tick (r1.writers gi) f reason).2.1)
          ⟨rfl, rfl, rfl, rfl, rfl⟩ rfl (fun _ hg => List.mem_append_left _ hg) (fun h => h) ?_
        intro _ hok
        obtain ⟨hnone, hchunk, hframes, hstored⟩ :=
          writerFinishSegment_spec (t := r1.tick) (hok.files gi f hf) reason
        rw [hempty] at hchunk
        constructor
        · intro hne
          exact absurd hchunk hne
        · rw [hnone]
          exact nofun
        · intro f0 hf0
          rw [hnone] at hf0
          cases hf0
        · intro f0 hf0 e he
          obtain rfl : f0 = f := Option.some.inj (hf0.symm.trans hf)
          obtain ⟨frame, hframe, he⟩ := he
          rw [← hframes] at hframe
          exact .inr ⟨_, List.mem_append_right _ (List.mem_singleton.mpr rfl), hstored, frame,
            hframe, he⟩
        · intro e he
          rw [hempty] at he
          cases he

/-- Closing a segment carries all entries. -/
theorem closeWriter_carries (r : RecorderState) (gi : ℕ) (reason : RotateReason) :
    Carries env config codec r (recorderCloseWriter env config r gi reason).2 := by
  have hclose := closeSegment_carries config evpLaws laws r gi reason
  unfold recorderCloseWriter
  split
  · rename_i hres
    rw [hres] at hclose
    exact hclose
  · rename_i hres
    rw [hres] at hclose
    exact hclose.trans (retention_carries _ _ _ _)

omit laws in
/-- A new segment is opened for a writer without one. -/
theorem openSegment_carries (r : RecorderState) {gi : ℕ} (hgi : gi < config.groups.length)
    (hclosed : (r.writers gi).file = none) (e : LogEntry) :
    Carries env config codec r (r.openSegment env config gi e).2 := by
  obtain ⟨hchunk, hopen⟩ := writerOpenSegment_spec (t := r.tick) evpLaws zeroKey gi
    r.nextSegmentSeq r.clockJumpSeq hclosed e
  refine .of_moves (w := (writerOpenSegment env config r.tick gi r.nextSegmentSeq r.clockJumpSeq
      (r.writers gi) e).writer) ⟨rfl, rfl, rfl, rfl, rfl⟩ rfl
    (fun _ hf => List.mem_append_left _ hf) (fun h => h) ?_
  intro _ hok
  have hempty : (r.writers gi).chunk = [] := by
    by_contra hne
    have hsome := hok.chunks gi hne
    rw [hclosed] at hsome
    cases hsome
  rw [hempty] at hchunk
  constructor
  · intro hne
    exact absurd hchunk hne
  · exact fun _ => hgi
  · exact hopen
  · intro f hf
    rw [hclosed] at hf
    cases hf
  · intro e he
    rw [hempty] at he
    cases he

omit evpLaws laws in
/-- A segment that was opened without an error is open. -/
theorem openSegment_isOpen (r : RecorderState) {gi : ℕ} {e : LogEntry}
    (h : (r.openSegment env config gi e).1 = none) :
    ((r.openSegment env config gi e).2.writers gi).file.isSome = true := by
  simp only [RecorderState.openSegment, RecorderState.after, Function.update_self] at h ⊢
  exact writerOpenSegment_isSome h

/-! ## Submitting an entry -/

/-- `recorder_ensure_writer` leaves an open segment or fails. -/
theorem recorderEnsureWriter_spec (r : RecorderState) {gi : ℕ} (hgi : gi < config.groups.length)
    (e : LogEntry) :
    Carries env config codec r (recorderEnsureWriter env config r gi e).2 ∧
      ((recorderEnsureWriter env config r gi e).1 = none →
        ((recorderEnsureWriter env config r gi e).2.writers gi).file.isSome = true) := by
  have hrotated : Carries env config codec r
      (if writerShouldRotate env config r.tick r.clockJumpSeq r.clockJumpUsec (r.writers gi) e =
          .none then (none, r)
        else recorderCloseWriter env config r gi (writerShouldRotate env config r.tick
          r.clockJumpSeq r.clockJumpUsec (r.writers gi) e)).2 := by
    split
    · exact .rfl
    · exact closeWriter_carries config evpLaws laws r gi _
  unfold recorderEnsureWriter
  simp only
  split
  · rename_i hres
    rw [hres] at hrotated
    exact ⟨hrotated, nofun⟩
  · rename_i r1 hres
    rw [hres] at hrotated
    split
    · rename_i hopen
      exact ⟨hrotated, fun _ => hopen⟩
    · rename_i hopen
      have hclosed : (r1.writers gi).file = none := by
        simpa [PriorityWriter.isOpen] using hopen
      exact ⟨hrotated.trans (openSegment_carries config evpLaws r1 hgi hclosed e),
        openSegment_isOpen config r1⟩

/-- What follows in `recorder_add_entry` once the entry is in the chunk.
SOURCE: recorder.c:3993-4004 -/
theorem addEntry_rest_carries (r1 : RecorderState) (gi : ℕ) :
    Carries env config codec r1
      (match (if (r1.writers gi).chunk.length = chunkSize then r1.flushChunk env config gi
        else (none, r1)) with
      | (some err, r2) => (some err, r2)
      | (none, r2) =>
        if (r2.writers gi).bytesWritten ≥ recorderSegmentLimit config then
          recorderCloseWriter env config r2 gi .size
        else (none, r2)).2 := by
  have hflushed : Carries env config codec r1
      (if (r1.writers gi).chunk.length = chunkSize then r1.flushChunk env config gi
        else (none, r1)).2 := by
    split
    · exact flushChunk_carries config evpLaws laws r1 gi
    · exact .rfl
  split
  · rename_i hres
    rw [hres] at hflushed
    exact hflushed
  · rename_i hres
    rw [hres] at hflushed
    split
    · exact hflushed.trans (closeWriter_carries config evpLaws laws _ gi _)
    · exact hflushed

/-- Behind the serialization: a full chunk is flushed, a full segment closed. -/
theorem recorderAddEntry_spec (r : RecorderState) {gi : ℕ}
    (hopen : (r.writers gi).file.isSome = true) (e : LogEntry) :
    Carries env config codec r (recorderAddEntry env config r gi e).2 ∧
      ((recorderAddEntry env config r gi e).1 = none →
        FlushesReach env config (recorderAddEntry env config r gi e).2 →
        WritersOk env config codec r.writers →
        Kept env config codec (recorderAddEntry env config r gi e).2 e) := by
  unfold recorderAddEntry
  split
  · exact ⟨after_carries _ _, nofun⟩
  · set r1 := { r with
      writers := Function.update r.writers gi
        (writerAddEntry (r.writers gi) e) }.after none with hr1
    have hadd : Carries env config codec r r1 := by
      refine .of_moves (w := writerAddEntry (r.writers gi) e) ⟨rfl, rfl, rfl, rfl, rfl⟩ rfl
        (fun _ hf => hf) (fun h => h) ?_
      intro _ hok
      exact ⟨fun _ => hopen, hok.groups gi, hok.files gi, fun f hf e' he' => .inl ⟨f, hf, he'⟩,
        fun e' he' => .inl (List.mem_append_left _ he')⟩
    have hmem : InChunk r1.writers e := by
      refine ⟨gi, ?_⟩
      simp only [hr1, RecorderState.after, Function.update_self]
      exact List.mem_append_right _ (List.mem_singleton.mpr rfl)
    have hrest := addEntry_rest_carries config evpLaws laws r1 gi
    refine ⟨hadd.trans hrest, ?_⟩
    intro _ hreach hok
    exact hrest.kept hreach (hadd.ok (hrest.reach hreach) hok) (.inl hmem)

/-- **An entry that `recorder_submit_entry` takes is kept.** -/
theorem recorderSubmitEntry_spec (r : RecorderState) (e : LogEntry) :
    Carries env config codec r (recorderSubmitEntry env config r e).2 ∧
      ((recorderSubmitEntry env config r e).1 = none →
        FlushesReach env config (recorderSubmitEntry env config r e).2 →
        WritersOk env config codec r.writers →
        Kept env config codec (recorderSubmitEntry env config r e).2 e) := by
  obtain ⟨hensure, hopen⟩ := recorderEnsureWriter_spec config evpLaws laws r
    (config.priorityToGroup_lt e.priority) e
  unfold recorderSubmitEntry
  simp only
  split
  · rename_i hres
    rw [hres] at hensure
    exact ⟨hensure, nofun⟩
  · rename_i r1 hres
    rw [hres] at hensure hopen
    obtain ⟨hadd, hkept⟩ := recorderAddEntry_spec config evpLaws laws r1 (hopen rfl) e
    refine ⟨hensure.trans hadd, ?_⟩
    intro hnone hreach hok
    exact hkept hnone hreach (hensure.ok (hadd.reach hreach) hok)

/-- Submitting an entry carries all others, and keeps it where it succeeds. -/
theorem recorderSubmitEntryWithRecovery_spec (r : RecorderState) (e : LogEntry) :
    Carries env config codec r (recorderSubmitEntryWithRecovery env config r e).2 ∧
      ((recorderSubmitEntryWithRecovery env config r e).1 = none →
        FlushesReach env config (recorderSubmitEntryWithRecovery env config r e).2 →
        WritersOk env config codec r.writers →
        Kept env config codec (recorderSubmitEntryWithRecovery env config r e).2 e) := by
  unfold recorderSubmitEntryWithRecovery
  simp only
  set r0 := if config.minFreeBytes ≠ 0 then (r.retention env config).2 else r with hr0
  have hretention : Carries env config codec r r0 := by
    rw [hr0]
    split
    · exact retention_carries _ _ _ r
    · exact .rfl
  obtain ⟨hsubmit, hkept⟩ := recorderSubmitEntry_spec config evpLaws laws r0 e
  split
  · rename_i hres
    rw [hres] at hsubmit hkept
    refine ⟨hretention.trans hsubmit, ?_⟩
    intro _ hreach hok
    exact hkept rfl hreach (hretention.ok (hsubmit.reach hreach) hok)
  · rename_i err r1 hres
    rw [hres] at hsubmit
    have hfirst := hretention.trans hsubmit
    split
    · have hpass := retention_carries env config codec r1
      split
      · rename_i r2 hres2
        rw [hres2] at hpass
        have hbefore := hfirst.trans hpass
        obtain ⟨hagain, hkept2⟩ := recorderSubmitEntry_spec config evpLaws laws r2 e
        refine ⟨hbefore.trans hagain, ?_⟩
        intro hnone hreach hok
        exact hkept2 hnone hreach (hbefore.ok (hagain.reach hreach) hok)
      · rename_i r2 hres2
        rw [hres2] at hpass
        exact ⟨hfirst.trans hpass, nofun⟩
    · exact ⟨hfirst, nofun⟩

end Laws

end Recorder.Analysis
