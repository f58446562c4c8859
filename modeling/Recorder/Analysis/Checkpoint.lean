import Recorder.Analysis.WriterCalls

/-!
# Journal cursors and stored entries

A journal cursor is written once all chunks were flushed. As long as every flushed frame
reached its file, each accepted entry is in a chunk or in a frame of a segment file, and
when a cursor is written no chunk has entries left. A flush that fails before its frame is
in the file drops the chunk all the same, and the next cursor covers the lost entries
(`lostChunk_not_delivered`).

**Main result**: `checkpoint_keeps_entries`.
-/

set_option autoImplicit false

namespace Recorder.Analysis

open Recorder.Model

/-! ## The invariant -/

section Invariant

variable (env : RecorderEnv) (config : RecorderConfig) (codec : CodecOps)

/-- Every accepted entry is in a file. -/
def AllOnDisk (r : RecorderState) : Prop :=
  ∀ a ∈ r.history.accepted, OnDisk env config codec r.writers r.closed a.2

/-- The position of the journal entry that the next turn reads. -/
def nextPosition (r : RecorderState) : ℕ :=
  if r.currentEntryPending then r.position else r.position + 1

/-- **The invariant of a run**: every accepted entry is kept, those that a cursor covers are
in the files, and no cursor is at or behind the position `n`. -/
structure CursorInv (n : ℕ) (r : RecorderState) : Prop where
  ok : WritersOk env config codec r.writers
  kept : ∀ a ∈ r.history.accepted, Kept env config codec r a.2
  covered : ∀ c ∈ r.history.cursors, ∀ a ∈ r.history.accepted, a.1 ≤ c →
    OnDisk env config codec r.writers r.closed a.2
  cursors : ∀ c ∈ r.history.cursors, c < n
  pending : ∀ c ∈ r.pendingCursor, c < n

/-- A call that keeps the invariant, as long as the flushes in it reach the files. -/
def KeepsInv (r r' : RecorderState) : Prop :=
  FlushesReach env config r' → FlushesReach env config r ∧
    (CursorInv env config codec (nextPosition r) r →
      CursorInv env config codec (nextPosition r') r')

end Invariant

section Keeps

variable {env : RecorderEnv} {config : RecorderConfig} {codec : CodecOps} {n : ℕ}
  {r r' r'' : RecorderState}

/-- The invariant of a journal position is one of every later position. -/
theorem CursorInv.mono (h : CursorInv env config codec n r) {m : ℕ} (hm : n ≤ m) :
    CursorInv env config codec m r where
  ok := h.ok
  kept := h.kept
  covered := h.covered
  cursors c hc := Nat.lt_of_lt_of_le (h.cursors c hc) hm
  pending c hc := Nat.lt_of_lt_of_le (h.pending c hc) hm

/-- Two steps that keep the invariant are one. -/
theorem KeepsInv.trans (h : KeepsInv env config codec r r')
    (h' : KeepsInv env config codec r' r'') :
    KeepsInv env config codec r r'' := by
  intro hreach
  obtain ⟨hreach', hinv'⟩ := h' hreach
  obtain ⟨hreach0, hinv⟩ := h hreach'
  exact ⟨hreach0, fun h0 => hinv' (hinv h0)⟩

/-- No step keeps it. -/
theorem KeepsInv.rfl : KeepsInv env config codec r r := fun h => ⟨h, id⟩

/-- The next position depends on what is kept of the reading only. -/
theorem nextPosition_eq (h : SameReading r r') : nextPosition r' = nextPosition r := by
  unfold nextPosition
  rw [h.pending, h.position]

/-- The calls of the writers keep the invariant. -/
theorem Carries.inv (h : Carries env config codec r r') (hreach : FlushesReach env config r')
    (hinv : CursorInv env config codec n r) : CursorInv env config codec n r' where
  ok := h.ok hreach hinv.ok
  kept a ha := by
    rw [h.reading.accepted] at ha
    exact h.kept hreach hinv.ok (hinv.kept a ha)
  covered c hc a ha hle := by
    rw [h.reading.cursors] at hc
    rw [h.reading.accepted] at ha
    exact h.disk hreach hinv.ok a.2 (hinv.covered c hc a ha hle)
  cursors := by
    rw [h.reading.cursors]
    exact hinv.cursors
  pending := by
    rw [h.reading.pendingCursor]
    exact hinv.pending

/-- What carries all entries keeps the invariant. -/
theorem Carries.keeps (h : Carries env config codec r r') : KeepsInv env config codec r r' := by
  intro hreach
  refine ⟨h.reach hreach, ?_⟩
  rw [nextPosition_eq h.reading]
  exact h.inv hreach

/-- A state that differs in nothing the invariant speaks of. -/
theorem CursorInv.of_eq (h : CursorInv env config codec n r) (hwriters : r'.writers = r.writers)
    (hclosed : r'.closed = r.closed) (haccepted : r'.history.accepted = r.history.accepted)
    (hcursors : r'.history.cursors = r.history.cursors)
    (hpending : ∀ c ∈ r'.pendingCursor, c < n) : CursorInv env config codec n r' where
  ok := by rw [hwriters]; exact h.ok
  kept := by
    unfold Kept
    rw [haccepted, hwriters, hclosed]
    exact h.kept
  covered := by rw [hcursors, haccepted, hwriters, hclosed]; exact h.covered
  cursors := by rw [hcursors]; exact h.cursors
  pending := hpending

/-- What carries all entries leaves those on disk there. -/
theorem Carries.allOnDisk (h : Carries env config codec r r') (hreach : FlushesReach env config r')
    (hok : WritersOk env config codec r.writers) (hall : AllOnDisk env config codec r) :
    AllOnDisk env config codec r' := by
  intro a ha
  rw [h.reading.accepted] at ha
  exact h.disk hreach hok a.2 (hall a ha)

/-! ## Reading the journal -/

/-- The cursor that is kept is that of the current entry. -/
theorem recorderKeepCursor_inv (hpending : r.currentEntryPending = false)
    (hinv : CursorInv env config codec (nextPosition r) r) :
    CursorInv env config codec (nextPosition (recorderKeepCursor env r).2)
      (recorderKeepCursor env r).2 := by
  unfold recorderKeepCursor
  split
  · split
    · exact hinv.of_eq rfl rfl rfl rfl hinv.pending
    · refine hinv.of_eq rfl rfl rfl rfl ?_
      rintro c ⟨⟩
      simp [nextPosition, hpending]
  · exact hinv

/-- Keeping a cursor flushes nothing. -/
theorem recorderKeepCursor_flushes (env : RecorderEnv) (r : RecorderState) :
    (recorderKeepCursor env r).2.history.flushes = r.history.flushes := by
  unfold recorderKeepCursor
  split
  · split <;> rfl
  · rfl

/-! ## Writing a cursor -/

/-- From one state to the next, at most the pending cursor is written. -/
structure WritesCursor (r r' : RecorderState) : Prop where
  reading : r'.position = r.position ∧ r'.currentEntryPending = r.currentEntryPending ∧
    r'.pendingCursor = r.pendingCursor
  writers : r'.writers = r.writers
  closed : r'.closed = r.closed
  flushes : r'.history.flushes = r.history.flushes
  accepted : r'.history.accepted = r.history.accepted
  cursors : ∀ c ∈ r'.history.cursors, c ∈ r.history.cursors ∨ c ∈ r.pendingCursor

/-- No call writes no cursor. -/
theorem WritesCursor.rfl : WritesCursor r r :=
  ⟨⟨Eq.refl _, Eq.refl _, Eq.refl _⟩, Eq.refl _, Eq.refl _, Eq.refl _, Eq.refl _, fun _ => .inl⟩

/-- Two calls that write no cursor but the pending one are one. -/
theorem WritesCursor.trans (h : WritesCursor r r') (h' : WritesCursor r' r'') :
    WritesCursor r r'' where
  reading := ⟨h'.reading.1.trans h.reading.1, h'.reading.2.1.trans h.reading.2.1,
    h'.reading.2.2.trans h.reading.2.2⟩
  writers := h'.writers.trans h.writers
  closed := h'.closed.trans h.closed
  flushes := h'.flushes.trans h.flushes
  accepted := h'.accepted.trans h.accepted
  cursors c hc := by
    rcases h'.cursors c hc with hc | hc
    · exact h.cursors c hc
    · rw [h.reading.2.2] at hc
      exact .inr hc

/-- `write_cursor` writes the pending cursor. -/
theorem writeCursor_writes (env : RecorderEnv) {cursor : ℕ} (h : r.pendingCursor = some cursor) :
    WritesCursor r (r.writeCursor env cursor).2 := by
  refine ⟨⟨rfl, rfl, rfl⟩, rfl, rfl, rfl, rfl, ?_⟩
  intro c hc
  rcases List.mem_append.mp hc with hc | hc
  · exact .inl hc
  · rw [List.mem_singleton.mp hc]
    exact .inr h

/-- `persist_journal_cursor` writes the pending cursor or none. -/
theorem persistJournalCursor_writes (env : RecorderEnv) (r : RecorderState) :
    WritesCursor r (persistJournalCursor env r) := by
  unfold persistJournalCursor
  split
  · split
    · exact .rfl
    · rename_i cursor hcursor
      have hwrite := writeCursor_writes env hcursor
      split
      · rename_i hres
        rw [hres] at hwrite
        exact hwrite
      · rename_i hres
        rw [hres] at hwrite
        exact ⟨hwrite.reading, hwrite.writers, hwrite.closed, hwrite.flushes, hwrite.accepted,
          hwrite.cursors⟩
  · exact .rfl

/-- The shutdown writes the pending cursor or none. -/
theorem recorderShutdownCursor_writes (env : RecorderEnv) (r : RecorderState) :
    WritesCursor r (recorderShutdownCursor env r) := by
  unfold recorderShutdownCursor
  split
  · exact .rfl
  · rename_i cursor hcursor
    have hpersist := persistJournalCursor_writes env r
    simp only
    split
    · exact hpersist.trans (writeCursor_writes env (hpersist.reading.2.2.trans hcursor))
    · exact hpersist

/-- A cursor may be written while every accepted entry is in a file. -/
theorem WritesCursor.inv (h : WritesCursor r r') (hall : AllOnDisk env config codec r)
    (hinv : CursorInv env config codec n r) : CursorInv env config codec n r' where
  ok := by rw [h.writers]; exact hinv.ok
  kept := by
    unfold Kept
    rw [h.accepted, h.writers, h.closed]
    exact hinv.kept
  covered c _ a ha _ := by
    rw [h.accepted] at ha
    rw [h.writers, h.closed]
    exact hall a ha
  cursors c hc := by
    rcases h.cursors c hc with hc | hc
    · exact hinv.cursors c hc
    · exact hinv.pending c hc
  pending := by
    rw [h.reading.2.2]
    exact hinv.pending

/-- Writing a cursor leaves the next position. -/
theorem WritesCursor.nextPosition_eq (h : WritesCursor r r') :
    nextPosition r' = nextPosition r := by
  unfold nextPosition
  rw [h.reading.1, h.reading.2.1]

/-- The condition on flushes looks at their history only. -/
theorem FlushesReach.of_eq (h : FlushesReach env config r')
    (hflushes : r'.history.flushes = r.history.flushes) : FlushesReach env config r := by
  unfold FlushesReach at h ⊢
  rw [hflushes] at h
  exact h

end Keeps

section Runs

variable {env : RecorderEnv} (config : RecorderConfig) {codec : CodecOps}
  (evpLaws : EvpLaws env.evp) (laws : ChunkLaws env codec)

include evpLaws laws

omit evpLaws laws in
/-- The tie order leaves segments, history and reading alone. -/
theorem assignMonotonicTieOrder_keeps (r : RecorderState) (e : LogEntry) :
    (recorderAssignMonotonicTieOrder r e).1.writers = r.writers ∧
      (recorderAssignMonotonicTieOrder r e).1.closed = r.closed ∧
      (recorderAssignMonotonicTieOrder r e).1.history = r.history ∧
      SameReading r (recorderAssignMonotonicTieOrder r e).1 := by
  unfold recorderAssignMonotonicTieOrder
  split
  · exact ⟨rfl, rfl, rfl, .rfl⟩
  · exact ⟨rfl, rfl, rfl, rfl, rfl, rfl, rfl, rfl⟩

/-- Storing the current entry. No cursor covers it before. -/
theorem recorderStoreEntry_inv (r : RecorderState) (e : LogEntry)
    (hpending : r.currentEntryPending = false)
    (hreach : FlushesReach env config (recorderStoreEntry env config r e).2) :
    FlushesReach env config r ∧ (CursorInv env config codec r.position r →
      CursorInv env config codec (nextPosition (recorderStoreEntry env config r e).2)
        (recorderStoreEntry env config r e).2) := by
  have hnext : r.position ≤ nextPosition r := by simp [nextPosition, hpending]
  unfold recorderStoreEntry at hreach ⊢
  split at hreach
  · exact ⟨hreach, fun hinv => (hinv.mono hnext).of_eq rfl rfl rfl rfl (hinv.mono hnext).pending⟩
  · rw [FlushesReach, recorderKeepCursor_flushes] at hreach
    refine ⟨hreach, fun hinv => recorderKeepCursor_inv hpending ?_⟩
    exact (hinv.mono hnext).of_eq rfl rfl rfl rfl (hinv.mono hnext).pending
  · rename_i e' _
    set r0 := { r with tick := r.tick + 1 } with hr0
    obtain ⟨hcarries, hkept⟩ := recorderSubmitEntryWithRecovery_spec config evpLaws laws r0 e'
    split at hreach
    · rename_i err r1 hres
      simp only [hres] at hcarries ⊢
      have hreach1 : FlushesReach env config r1 := hreach
      refine ⟨hcarries.reach hreach1, fun hinv => ?_⟩
      have hinv0 : CursorInv env config codec r.position r0 :=
        hinv.of_eq rfl rfl rfl rfl hinv.pending
      have hinv1 := hcarries.inv hreach1 hinv0
      have hposition : r1.position = r.position := hcarries.reading.position
      simp only [nextPosition, if_true, hposition]
      exact hinv1.of_eq rfl rfl rfl rfl hinv1.pending
    · rename_i r1 hres
      simp only [hres] at hcarries hkept ⊢
      have hreach1 : FlushesReach env config r1 :=
        hreach.of_eq (recorderKeepCursor_flushes env _)
      refine ⟨hcarries.reach hreach1, fun hinv => recorderKeepCursor_inv ?_ ?_⟩
      · exact hcarries.reading.pending.trans hpending
      · have hinv0 : CursorInv env config codec r.position r0 :=
          hinv.of_eq rfl rfl rfl rfl hinv.pending
        have hinv1 := hcarries.inv hreach1 hinv0
        have hposition : r1.position = r.position := hcarries.reading.position
        have hle : r.position ≤ nextPosition r1 := by
          rw [nextPosition_eq hcarries.reading]
          exact hnext
        constructor
        · exact hinv1.ok
        · intro a ha
          rcases List.mem_append.mp ha with ha | ha
          · exact hinv1.kept a ha
          · rw [List.mem_singleton.mp ha]
            exact hkept trivial hreach1 hinv0.ok
        · intro c hc a ha hac
          rcases List.mem_append.mp ha with ha | ha
          · exact hinv1.covered c hc a ha hac
          · rw [List.mem_singleton.mp ha] at hac
            have hlt := hinv1.cursors c hc
            simp only [hposition] at hac
            omega
        · exact (hinv1.mono hle).cursors
        · exact (hinv1.mono hle).pending

/-- Receiving an entry moves the invariant to the next position. -/
theorem recorderReceiveEntry_inv (r : RecorderState) (e : LogEntry)
    (hreach : FlushesReach env config (recorderReceiveEntry env config r e).2) :
    FlushesReach env config r ∧ (CursorInv env config codec r.position r →
      CursorInv env config codec (nextPosition (recorderReceiveEntry env config r e).2)
        (recorderReceiveEntry env config r e).2) := by
  unfold recorderReceiveEntry at hreach ⊢
  rcases hboot : extractBoot r.boots e with ⟨boots, e1⟩
  simp only [hboot] at hreach ⊢
  split at hreach
  · refine ⟨hreach, fun hinv => ?_⟩
    have hinv' := hinv.mono (Nat.le_succ r.position)
    exact hinv'.of_eq rfl rfl rfl rfl hinv'.pending
  · set r0 : RecorderState :=
      { r with boots := boots, currentEntryPending := false, tick := r.tick + 1 } with hr0
    obtain ⟨hwriters, hclosed, hhistory, hreading⟩ := assignMonotonicTieOrder_keeps r0 e1
    rcases hassign : recorderAssignMonotonicTieOrder r0 e1 with ⟨r2, e2⟩
    simp only [hassign] at hwriters hclosed hhistory hreading hreach ⊢
    obtain ⟨hreach2, hstore⟩ := recorderStoreEntry_inv config evpLaws laws r2 e2
      hreading.pending hreach
    refine ⟨hreach2.of_eq (congrArg RecorderHistory.flushes hhistory), fun hinv => hstore ?_⟩
    rw [hreading.position]
    apply hinv.of_eq hwriters hclosed hreading.accepted hreading.cursors
    rw [hreading.pendingCursor]
    exact hinv.pending

/-- **One turn of `recorder_step`** keeps the invariant. -/
theorem recorderTurn_keeps (journal : List LogEntry) (r : RecorderState) :
    KeepsInv env config codec r (recorderTurn env config journal r).2 := by
  unfold recorderTurn
  simp only
  split
  · exact .rfl
  · intro hreach
    obtain ⟨hreach0, hreceive⟩ := recorderReceiveEntry_inv config evpLaws laws _ _ hreach
    exact ⟨hreach0, fun hinv => hreceive (hinv.of_eq rfl rfl rfl rfl hinv.pending)⟩

/-- **The loop of `recorder_step` keeps the invariant**, by induction on its turns. -/
theorem recorderStepLoop_keeps (journal : List LogEntry) (n : ℕ) :
    ∀ r, KeepsInv env config codec r (recorderStepLoop env config journal n r).2 := by
  induction n with
  | zero => exact fun r => .rfl
  | succ n ih =>
    intro r
    have hturn := recorderTurn_keeps config evpLaws laws journal r
    unfold recorderStepLoop
    split
    · rename_i hres
      rw [hres] at hturn
      exact hturn
    · rename_i hres
      rw [hres] at hturn
      exact hturn.trans (ih _)

/-! ## Checkpoints -/

/-- Flushing one group after the other carries all entries. -/
theorem recorderFlushLoop_carries (gis : List ℕ) :
    ∀ r, Carries env config codec r (recorderFlushLoop env config gis r).2 := by
  induction gis with
  | nil => exact fun r => .rfl
  | cons gi rest ih =>
    intro r
    have hflush := flushChunk_carries config evpLaws laws r gi
    unfold recorderFlushLoop
    split
    · rename_i hres
      rw [hres] at hflush
      exact hflush
    · rename_i r1 hres
      rw [hres] at hflush
      have hsync := syncIfDue_carries env config codec r1 gi
      split
      · rename_i hres2
        rw [hres2] at hsync
        exact hflush.trans hsync
      · rename_i hres2
        rw [hres2] at hsync
        exact (hflush.trans hsync).trans (ih _)

omit evpLaws laws in
/-- A flush leaves no chunk in its group, and no new one in others. -/
theorem flushChunk_chunk (r : RecorderState) (gi gj : ℕ)
    (h : gj = gi ∨ (r.writers gj).chunk = []) :
    ((r.flushChunk env config gi).2.writers gj).chunk = [] := by
  simp only [RecorderState.flushChunk, RecorderState.after]
  by_cases hgj : gj = gi
  · rw [hgj, Function.update_self]
    exact writerFlushChunk_chunk gi _
  · rw [Function.update_of_ne hgj]
    exact h.resolve_left hgj

omit evpLaws laws in
/-- A sync leaves the chunks alone. -/
theorem syncIfDue_chunk (env : RecorderEnv) (r : RecorderState) (gi gj : ℕ) :
    ((r.syncIfDue env config gi).2.writers gj).chunk = (r.writers gj).chunk := by
  simp only [RecorderState.syncIfDue, RecorderState.after]
  by_cases hgj : gj = gi
  · rw [hgj, Function.update_self]
    exact (writerSyncIfDue_keeps env config r.tick gi _).2.2
  · rw [Function.update_of_ne hgj]

omit evpLaws laws in
/-- A loop that ends well has emptied the chunks it went through. -/
theorem recorderFlushLoop_chunk (gis : List ℕ) :
    ∀ r : RecorderState, (recorderFlushLoop env config gis r).1 = none →
      ∀ gj, gj ∈ gis ∨ (r.writers gj).chunk = [] →
        ((recorderFlushLoop env config gis r).2.writers gj).chunk = [] := by
  induction gis with
  | nil =>
    intro r _ gj hgj
    exact hgj.resolve_left (by simp)
  | cons gi rest ih =>
    intro r hnone gj hgj
    have hflush : gj = gi ∨ (r.writers gj).chunk = [] →
        ((r.flushChunk env config gi).2.writers gj).chunk = [] :=
      flushChunk_chunk config r gi gj
    unfold recorderFlushLoop at hnone ⊢
    split at hnone
    · cases hnone
    · rename_i r1 hres
      rw [hres] at hflush
      have hsync := syncIfDue_chunk config env r1 gi gj
      split at hnone
      · cases hnone
      · rename_i r2 hres2
        rw [hres2] at hsync
        apply ih r2 hnone gj
        rcases hgj with hgj | hgj
        · rcases List.mem_cons.mp hgj with rfl | hmem
          · exact .inr (hsync.trans (hflush (.inl rfl)))
          · exact .inl hmem
        · exact .inr (hsync.trans (hflush (.inr hgj)))

omit evpLaws laws in
/-- Behind a loop over all groups no entry waits any more. -/
theorem recorderFlushLoop_allOnDisk {r r' : RecorderState}
    (hres : recorderFlushLoop env config (List.range config.groups.length) r = (none, r')) {n : ℕ}
    (hok : WritersOk env config codec r.writers) (hinv : CursorInv env config codec n r') :
    AllOnDisk env config codec r' := by
  intro a ha
  rcases hinv.kept a ha with ⟨gi, hmem⟩ | hdisk
  · have hempty := recorderFlushLoop_chunk config _ r (by rw [hres]) gi ?_
    · rw [hres] at hempty
      rw [hempty] at hmem
      cases hmem
    · by_cases hchunk : (r.writers gi).chunk = []
      · exact .inr hchunk
      · exact .inl (List.mem_range.mpr (hok.groups gi (hok.chunks gi hchunk)))
  · exact hdisk

/-- `recorder_flush_all`: a cursor is written only when every accepted entry is in a file. -/
theorem recorderFlushAll_keeps (checkpoint : Bool) (r : RecorderState) :
    KeepsInv env config codec r (recorderFlushAll env config checkpoint r).2 := by
  have hloop := recorderFlushLoop_carries config evpLaws laws (List.range config.groups.length) r
  unfold recorderFlushAll
  split
  · rename_i hres
    rw [hres] at hloop
    exact hloop.keeps
  · rename_i r1 hres
    rw [hres] at hloop
    intro hreach
    cases checkpoint with
    | false => exact hloop.keeps hreach
    | true =>
      have hwrites := persistJournalCursor_writes env r1
      have hreach1 := FlushesReach.of_eq hreach hwrites.flushes
      refine ⟨hloop.reach hreach1, fun hinv => ?_⟩
      have hinv1 := hloop.inv hreach1 hinv
      have hinv2 := hwrites.inv (recorderFlushLoop_allOnDisk config hres hinv.ok hinv1) hinv1
      rw [← nextPosition_eq hloop.reading, ← hwrites.nextPosition_eq] at hinv2
      exact hinv2

/-- Closing one group after the other carries all entries. -/
theorem recorderCloseLoop_carries (gis : List ℕ) :
    ∀ r, Carries env config codec r (recorderCloseLoop env config gis r).2 := by
  induction gis with
  | nil => exact fun r => .rfl
  | cons gi rest ih =>
    intro r
    exact (closeSegment_carries config evpLaws laws r gi .shutdown).trans (ih _)

/-- `recorder_shutdown`: the cursors are written behind a flush of all groups. -/
theorem recorderShutdown_keeps (r : RecorderState) :
    KeepsInv env config codec r (recorderShutdown env config r) := by
  have hflush := recorderFlushLoop_carries config evpLaws laws (List.range config.groups.length) r
  unfold recorderShutdown
  rcases hres : recorderFlushAll env config false r with ⟨errno, r1⟩
  have hloop : recorderFlushLoop env config (List.range config.groups.length) r = (errno, r1) := by
    unfold recorderFlushAll at hres
    split at hres
    · rename_i hres'
      rw [hres', hres]
    · rename_i hres'
      rw [hres', ← hres]
      rfl
  rw [hloop] at hflush
  have hclose := recorderCloseLoop_carries config evpLaws laws (List.range config.groups.length) r1
  rcases hres2 : recorderCloseLoop env config (List.range config.groups.length) r1 with ⟨ok, r2⟩
  rw [hres2] at hclose
  simp only [hres2]
  set r3 := if errno.isNone && ok then recorderShutdownCursor env r2 else r2 with hr3
  intro hreach
  have hretention := retention_carries env config codec { r3 with pendingCursor := none }
  have hreach3 : FlushesReach env config r3 := hretention.reach hreach
  have hboth := hflush.trans hclose
  have hwrites : WritesCursor r2 r3 := by
    rw [hr3]
    split
    · exact recorderShutdownCursor_writes env r2
    · exact .rfl
  have hreach2 := hreach3.of_eq hwrites.flushes
  refine ⟨hboth.reach hreach2, fun hinv => ?_⟩
  have hinv2 := hboth.inv hreach2 hinv
  have hinv3 : CursorInv env config codec (nextPosition r) r3 := by
    by_cases hok : (errno.isNone && ok) = true
    · obtain ⟨hnone, -⟩ := Bool.and_eq_true_iff.mp hok
      obtain rfl : errno = none := Option.isNone_iff_eq_none.mp hnone
      have hinv1 := hflush.inv (hclose.reach hreach2) hinv
      have hall := recorderFlushLoop_allOnDisk config hloop hinv.ok hinv1
      exact hwrites.inv (hclose.allOnDisk hreach2 hinv1.ok hall) hinv2
    · rw [hr3, if_neg hok]
      exact hinv2
  have hnext : nextPosition { r3 with pendingCursor := none } = nextPosition r := by
    rw [← nextPosition_eq hboth.reading, ← hwrites.nextPosition_eq]
    rfl
  rw [nextPosition_eq hretention.reading, hnext]
  exact hretention.inv hreach (hinv3.of_eq rfl rfl rfl rfl nofun)

/-! ## Runs -/

/-- **One call keeps the invariant.** -/
theorem recorderCall_keeps (journal : List LogEntry) (r : RecorderState) (call : RecorderCall) :
    KeepsInv env config codec r (recorderCall env config journal r call) := by
  cases call with
  | clockJump usec => exact Carries.keeps (.of_eq ⟨rfl, rfl, rfl, rfl, rfl⟩ rfl rfl rfl)
  | step => exact recorderStepLoop_keeps config evpLaws laws journal chunkSize r
  | flushAll => exact recorderFlushAll_keeps config evpLaws laws true r
  | shutdown => exact recorderShutdown_keeps config evpLaws laws r

/-- **Every run keeps the invariant**, by induction on its calls. -/
theorem recorderRun_keeps (journal : List LogEntry) (calls : List RecorderCall) :
    ∀ r, KeepsInv env config codec r (recorderRun env config journal calls r) := by
  induction calls with
  | nil => exact fun r => .rfl
  | cons call calls ih =>
    intro r
    exact (recorderCall_keeps config evpLaws laws journal r call).trans (ih _)

end Runs

/-- A recorder at its start: the writers are closed and nothing happened. A cursor it resumed
from lies in front of the next entry.
SOURCE: recorder.c:3788-3874, 4519-4579 -/
structure RecorderStarted (r : RecorderState) : Prop where
  chunks : ∀ gi, (r.writers gi).chunk = []
  files : ∀ gi, (r.writers gi).file = none
  accepted : r.history.accepted = []
  cursors : r.history.cursors = []
  pending : ∀ c ∈ r.pendingCursor, c < nextPosition r

/-- The segment files of a recorder. -/
def RecorderState.files (config : RecorderConfig) (r : RecorderState) : List SegmentOnDisk :=
  r.closed ++ (List.range config.groups.length).filterMap fun gi => (r.writers gi).file

/-- An entry that a scan of the segment files delivers: the chunk of one of the calls has it. -/
def EntryDelivered (env : RecorderEnv) (config : RecorderConfig) (codec : CodecOps)
    (r : RecorderState) (e : LogEntry) : Prop :=
  ∃ f ∈ RecorderState.files config r, ∃ chunk info, e ∈ chunk ∧
    (info, env.chunkBytes (!config.fullEntries) chunk) ∈
      (segmentScanPath env.evp codec f.content true (some recordCalls) []).ctx

/-- What is on disk is delivered by a scan of its segment. -/
theorem OnDisk.delivered {env : RecorderEnv} {config : RecorderConfig} {codec : CodecOps}
    (evpLaws : EvpLaws env.evp)
    (hsmall : ∀ t gi key, dataOffset env.evp key config.encryption (groupDict env config t gi) <
      2 ^ 32) {r : RecorderState} (hok : WritersOk env config codec r.writers) {e : LogEntry}
    (h : OnDisk env config codec r.writers r.closed e) : EntryDelivered env config codec r e := by
  have hfile : ∃ f ∈ RecorderState.files config r,
      StoredSegment env config codec f ∧ Holds f e := by
    rcases h with ⟨gi, f, hf, he⟩ | ⟨f, hf, hstored, he⟩
    · refine ⟨f, List.mem_append_right _ (List.mem_filterMap.mpr ⟨gi, ?_, hf⟩),
        (hok.files gi f hf).stored, he⟩
      exact List.mem_range.mpr (hok.groups gi (by rw [hf]; rfl))
    · exact ⟨f, List.mem_append_left _ hf, hstored, he⟩
  obtain ⟨f, hf, ⟨key, images, tail, hwritten⟩, frame, hframe, he⟩ := hfile
  obtain ⟨t, gi, hdict⟩ := hwritten.dict
  obtain ⟨info, hinfo⟩ := hwritten.delivers evpLaws (by rw [hdict]; exact hsmall t gi key) frame
    hframe
  exact ⟨f, hf, frame.entries, info, he, hinfo⟩

/-- **No accepted entry is lost behind a cursor**, in any run in which every flushed frame
reaches its file and the header and dictionary of each segment are smaller than 4 GiB. -/
theorem checkpoint_keeps_entries (env : RecorderEnv) (config : RecorderConfig) (codec : CodecOps)
    (evpLaws : EvpLaws env.evp) (laws : ChunkLaws env codec)
    (hsmall : ∀ t gi key, dataOffset env.evp key config.encryption (groupDict env config t gi) <
      2 ^ 32)
    (journal : List LogEntry) (calls : List RecorderCall) (start : RecorderState)
    (hstart : RecorderStarted start)
    (hreach : FlushesReach env config (recorderRun env config journal calls start)) :
    ∀ c ∈ (recorderRun env config journal calls start).history.cursors,
    ∀ a ∈ (recorderRun env config journal calls start).history.accepted, a.1 ≤ c →
      EntryDelivered env config codec (recorderRun env config journal calls start) a.2 := by
  have hinit : CursorInv env config codec (nextPosition start) start := by
    constructor
    · constructor
      · intro gi hne
        exact absurd (hstart.chunks gi) hne
      · intro gi hsome
        rw [hstart.files gi] at hsome
        cases hsome
      · intro gi f hf
        rw [hstart.files gi] at hf
        cases hf
    · rw [hstart.accepted]
      nofun
    · rw [hstart.cursors]
      nofun
    · rw [hstart.cursors]
      nofun
    · exact hstart.pending
  have hinv := (recorderRun_keeps config evpLaws laws journal calls start hreach).2 hinit
  intro c hc a ha hle
  exact (hinv.covered c hc a ha hle).delivered evpLaws hsmall hinv.ok

/-! ## Two runs -/

/-- An environment without encryption, compression, modifiers and retention, for the fixed
runs below: a chunk is the messages of its entries. -/
def plainEnv (io : ℕ → IoOp → IoOutcome) : RecorderEnv where
  io := io
  timezone _ := []
  monotonicSec _ := 0
  random _ := none
  evp := noEvp
  staticDict _ _ := []
  chunkBytes _ chunk := chunk.flatMap fun e => e.texts.message.getD []
  zstdCompress _ _ := none
  applyModifierList _ _ e := .keep e.priority e.texts
  staleErrno _ := .einval
  removes _ _ := false
  listed _ files := files
  timezone_length _ := Nat.zero_le _
  timezone_chars _ := by simp
  listed_mem _ _ _ hf := hf

/-- A decoder that takes every chunk and has nothing to decompress. -/
def plainCodec : CodecOps := ⟨fun _ _ _ => none, fun _ _ => true⟩

/-- Without compression the codec laws hold. -/
theorem plainEnv_laws (io : ℕ → IoOp → IoOutcome) : ChunkLaws (plainEnv io) plainCodec where
  verify _ _ _ := rfl
  decompress _ _ _ h := by cases h

/-- A configuration with one group. -/
def oneGroup : RecorderConfig where
  groups := [{ name := [108, 111, 103] }]
  priorityToGroup _ := 0
  priorityToGroup_lt _ := Nat.zero_lt_one
  names_nodup := by simp

/-- An entry with a message of 32 bytes. -/
def messageEntry : LogEntry where
  realtimeTs := 5
  monotonicTs := 7
  priority := 6
  bootId := [98]
  texts := { message := some (List.replicate 32 65) }
  bootId_length := by decide
  bootId_chars := by simp

/-- The default state is that of a recorder just started. -/
theorem started_default : RecorderStarted {} :=
  ⟨fun _ => rfl, fun _ => rfl, rfl, rfl, nofun⟩

/-- A footer is seen within its 48 bytes. -/
theorem FooterImage.of_append {bs rest : Bytes} (hlen : 48 ≤ bs.length)
    (h : FooterImage (bs ++ rest)) : FooterImage bs := by
  obtain ⟨f, hf⟩ := h
  rw [List.take_append_of_le_length hlen] at hf
  exact ⟨f, hf⟩

/-- A flush of that message reaches the file when nothing fails. -/
theorem messageEntry_reaches {t : ℕ} {w : PriorityWriter} (hencryptor : w.encryptor = none)
    (hchunk : (w.chunk.flatMap fun e => e.texts.message.getD []) = List.replicate 32 65) :
    FlushReaches (plainEnv fun _ _ => .ok) oneGroup t w where
  noFault _ _ := rfl
  raw_le := by
    simp only [plainEnv, hchunk]
    decide
  compressed_le _ _ h := by cases h
  frame f _ input hinput := by
    have hframe : input = ⟨0, List.replicate 32 65, 32⟩ := by
      simp only [encodeChunk, plainEnv, hchunk, IoOutcome.errno] at hinput
      exact (Except.ok.inj hinput).symm
    rw [hframe, hencryptor]
    refine ⟨rfl, fun rest hfooter => ?_⟩
    have hno := (footerAt_eq_none_iff (segmentWriteFrame noEvp ⟨true, .ok⟩ none 0
      (List.replicate 32 65) 32).written).mp (by decide +kernel)
    exact hno (hfooter.of_append (by decide +kernel))

/-- The entry is stored, a cursor is written, and a scan delivers the entry. -/
theorem checkpoint_one_entry :
    ∃ a ∈ (recorderRun (plainEnv fun _ _ => .ok) oneGroup [messageEntry] [.step, .flushAll]
        {}).history.accepted,
      EntryDelivered (plainEnv fun _ _ => .ok) oneGroup plainCodec
        (recorderRun (plainEnv fun _ _ => .ok) oneGroup [messageEntry] [.step, .flushAll] {})
        a.2 := by
  have haccepted : ∃ a ∈ (recorderRun (plainEnv fun _ _ => .ok) oneGroup [messageEntry]
      [.step, .flushAll] {}).history.accepted, a.1 ≤ 1 := by decide +kernel
  have hflushes : ∀ flush ∈ (recorderRun (plainEnv fun _ _ => .ok) oneGroup [messageEntry]
      [.step, .flushAll] {}).history.flushes, flush.2.encryptor = none ∧
        (flush.2.chunk.flatMap fun e => e.texts.message.getD []) = List.replicate 32 65 := by
    decide +kernel
  obtain ⟨a, ha, hle⟩ := haccepted
  refine ⟨a, ha, checkpoint_keeps_entries _ _ _ noEvp_laws (plainEnv_laws _) (fun _ _ _ => ?_)
    _ _ _ started_default ?_ 1 (by decide +kernel) a ha hle⟩
  · have hdict : ∀ t gi, groupDict (plainEnv fun _ _ => .ok) oneGroup t gi = [] := by
      intro t gi
      unfold groupDict
      split <;> rfl
    rw [hdict]
    simp [dataOffset, oneGroup]
  · intro flush hflush _
    exact messageEntry_reaches (hflushes flush hflush).1 (hflushes flush hflush).2

/-- The disk is full while the frame is written, and has room again later. -/
def frameFails (t : ℕ) (op : IoOp) : IoOutcome :=
  if op = .writeFrame ∧ t = 5 then .fail 0 .enospc else .ok

/-- **A lost chunk**: `recorder_flush_all` fails to write the frame and drops the chunk, the
shutdown that follows finds nothing to flush and writes the cursor, and the accepted entry
is in no file. -/
theorem lostChunk_not_delivered :
    RecorderStarted {} ∧ EvpLaws noEvp ∧ ChunkLaws (plainEnv frameFails) plainCodec ∧
      ¬ ∀ c ∈ (recorderRun (plainEnv frameFails) oneGroup [messageEntry]
          [.step, .flushAll, .shutdown] {}).history.cursors,
        ∀ a ∈ (recorderRun (plainEnv frameFails) oneGroup [messageEntry]
          [.step, .flushAll, .shutdown] {}).history.accepted, a.1 ≤ c →
        EntryDelivered (plainEnv frameFails) oneGroup plainCodec
          (recorderRun (plainEnv frameFails) oneGroup [messageEntry]
            [.step, .flushAll, .shutdown] {}) a.2 := by
  refine ⟨started_default, noEvp_laws, plainEnv_laws _, fun h => ?_⟩
  have haccepted : ∃ a ∈ (recorderRun (plainEnv frameFails) oneGroup [messageEntry]
      [.step, .flushAll, .shutdown] {}).history.accepted, a.1 ≤ 1 := by decide +kernel
  have hscan : ∀ f ∈ RecorderState.files oneGroup (recorderRun (plainEnv frameFails) oneGroup
      [messageEntry] [.step, .flushAll, .shutdown] {}),
      (segmentScanPath noEvp plainCodec f.content true (some recordCalls) []).ctx = [] := by
    decide +kernel
  obtain ⟨a, ha, hle⟩ := haccepted
  obtain ⟨f, hf, chunk, info, -, hmem⟩ := h 1 (by decide +kernel) a ha hle
  have hnone : (info, (plainEnv frameFails).chunkBytes (!oneGroup.fullEntries) chunk) ∈
      (segmentScanPath noEvp plainCodec f.content true (some recordCalls) []).ctx := hmem
  rw [hscan f hf] at hnone
  cases hnone

end Recorder.Analysis
