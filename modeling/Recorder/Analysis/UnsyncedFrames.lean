import Recorder.Analysis.ConfigDurability
import Recorder.Analysis.NeverSynced

/-!
# Frames that are not synced

`unsynced_frames` is raised with every frame and cleared with every `fsync` of the segment, and
each frame asks for the `fsync` that is due with it. So the number of frames behind the last
`fsync` is bounded as the group wants it, behind any call of a run without failures
(`SyncCounters`). The counter has this number modulo 2^32.

**Main result**: `unsynced_frames_bounded_iff`.
-/

set_option autoImplicit false

namespace Recorder.Analysis

open Recorder.Model Recorder.Lib

/-! ## One writer -/

/-- How many frames of its open file a writer has written since the last `fsync`. -/
def framesBehindSync (w : PriorityWriter) (f : SegmentOnDisk) : ℕ :=
  f.frames.length - w.syncedFrames

/-- The counter of a writer with an open file, and the bounds of its group. -/
structure SyncCounters (group : PriorityGroup) (w : PriorityWriter) (f : SegmentOnDisk) :
    Prop where
  synced_le : w.syncedFrames ≤ f.frames.length
  counted : w.unsyncedFrames = UInt32.ofNat (framesBehindSync w f)
  durable : group.durablePerFrame = true → framesBehindSync w f = 0
  batched : group.durabilityFlushFrames ≠ 0 → group.durabilityFlushFrames ≤ uint32Max →
    framesBehindSync w f < group.durabilityFlushFrames

/-- The counter of a writer, which says nothing while the writer is closed. -/
def WriterSynced (group : PriorityGroup) (w : PriorityWriter) : Prop :=
  ∀ f, w.file = some f → SyncCounters group w f

section Writer

variable {env : RecorderEnv} {config : RecorderConfig} {t gi : ℕ} {w : PriorityWriter}

/-- With nothing behind the last `fsync` every bound holds. -/
theorem SyncCounters.of_zero (group : PriorityGroup) {f : SegmentOnDisk}
    (hsynced : w.syncedFrames = f.frames.length) (hunsynced : w.unsyncedFrames = 0) :
    SyncCounters group w f := by
  have hzero : framesBehindSync w f = 0 := by rw [framesBehindSync, hsynced, Nat.sub_self]
  refine ⟨Nat.le_of_eq hsynced, ?_, fun _ => hzero, fun h _ => ?_⟩
  · rw [hunsynced, hzero]
    rfl
  · rw [hzero]
    exact Nat.pos_of_ne_zero h

/-- Behind a sync the counters agree. -/
theorem synced_counters (group : PriorityGroup) {f : SegmentOnDisk} (hfile : w.file = some f)
    (now : ℤ) : SyncCounters group (w.synced now) f := by
  apply SyncCounters.of_zero
  · rw [PriorityWriter.synced, hfile]
    rfl
  · rfl

/-- The invariant looks at the file and the two counters only. -/
theorem WriterSynced.congr {group : PriorityGroup} {w' : PriorityWriter}
    (h : WriterSynced group w) (hfile : w'.file = w.file)
    (hunsynced : w'.unsyncedFrames = w.unsyncedFrames)
    (hsynced : w'.syncedFrames = w.syncedFrames) : WriterSynced group w' := by
  intro f hf
  obtain ⟨hle, hcounted, hdurable, hbatched⟩ := h f (hfile ▸ hf)
  constructor <;> simpa only [framesBehindSync, hunsynced, hsynced]

/-- One frame more, and the `fsync` that is due with it. -/
theorem finishFrame_synced {length : ℕ} {f f' : SegmentOnDisk}
    (hcounters : SyncCounters (config.group gi) w f) {frame : WrittenFrame} {w' : PriorityWriter}
    (hfile : w'.file = some f') (hframes : f'.frames = f.frames ++ [frame])
    (hunsynced : w'.unsyncedFrames = w.unsyncedFrames)
    (hsynced : w'.syncedFrames = w.syncedFrames)
    (hok : (finishFrame env config t gi length w').1 = none) :
    WriterSynced (config.group gi) (finishFrame env config t gi length w').2 := by
  have hle := hcounters.synced_le
  have hcounted := hcounters.counted
  have hbatch := hcounters.batched
  have hbehind : f'.frames.length - w'.syncedFrames = framesBehindSync w f + 1 := by
    rw [hframes, hsynced, framesBehindSync, List.length_append, List.length_singleton]
    omega
  unfold finishFrame at hok ⊢
  split at hok
  · cases hok
  · dsimp only at hok ⊢
    split at hok
    · next hdue =>
      rw [if_pos hdue]
      split at hok
      · cases hok
      · intro f0 hf0
        obtain rfl : f' = f0 := Option.some.inj (hfile.symm.trans hf0)
        apply SyncCounters.of_zero
        · simp only [PriorityWriter.synced, hfile, Option.map_some, Option.getD_some]
        · rfl
    · next hdue =>
      rw [if_neg hdue]
      intro f0 hf0
      obtain rfl : f' = f0 := Option.some.inj (hfile.symm.trans hf0)
      simp only [syncDueAfterFrame, Bool.or_eq_true, Bool.and_eq_true, decide_eq_true_eq,
        not_or, not_and, Nat.not_le] at hdue
      obtain ⟨⟨hdurable, hframe⟩, -⟩ := hdue
      refine ⟨?_, ?_, fun hd => absurd hd hdurable, fun hk hmax => ?_⟩
      · simp only [hframes, hsynced, List.length_append]
        omega
      · change w'.unsyncedFrames + 1 = UInt32.ofNat (f'.frames.length - w'.syncedFrames)
        rw [hbehind, hunsynced, hcounted, UInt32.ofNat_add]
        rfl
      · have hlt := hbatch hk hmax
        have hcount := hframe hk
        -- the bound keeps the counter from wrapping
        have hexact : (w'.unsyncedFrames + 1).toNat = framesBehindSync w f + 1 := by
          rw [hunsynced, hcounted]
          simp only [UInt32.toNat_add, UInt32.toNat_ofNat', UInt32.toNat_one]
          simp only [uint32Max] at hmax
          omega
        change f'.frames.length - w'.syncedFrames < _
        rw [hbehind]
        omega

/-- A flush that succeeds keeps the invariant. -/
theorem WriterSynced.flush (h : WriterSynced (config.group gi) w)
    (hok : (writerFlushChunk env config t gi w).1 = none) :
    WriterSynced (config.group gi) (writerFlushChunk env config t gi w).2 := by
  rcases writerFlushChunk_cases env config t gi w with
    hres | ⟨err, w', hres, -⟩ | ⟨f, content, encryptor, hfile, hres⟩
  · rw [hres]
    exact h
  · rw [hres] at hok
    cases hok
  · rw [hres] at hok ⊢
    exact finishFrame_synced (h f hfile) rfl rfl rfl rfl hok

/-- `writer_sync_if_due` keeps the invariant. -/
theorem WriterSynced.sync (h : WriterSynced (config.group gi) w) :
    WriterSynced (config.group gi) (writerSyncIfDue env config t gi w).2 := by
  unfold writerSyncIfDue
  dsimp only
  split
  · exact h
  · split
    · split
      · exact h
      · intro f hf
        exact synced_counters _ hf _
    · exact h

/-- A segment that was opened meets the invariant. -/
theorem writerOpenSegment_synced {seq clockJumpSeq : UInt64} {e : LogEntry}
    (h : (writerOpenSegment env config t gi seq clockJumpSeq w e).errno = none) :
    WriterSynced (config.group gi)
      (writerOpenSegment env config t gi seq clockJumpSeq w e).writer := by
  unfold writerOpenSegment at h ⊢
  dsimp only at h ⊢
  split at h
  · cases h
  · split at h
    · cases h
    · split at h
      · cases h
      · intro f hf
        obtain rfl := Option.some.inj hf
        exact SyncCounters.of_zero _ rfl rfl

end Writer

/-! ## Runs -/

section Runs

variable {env : RecorderEnv} {config : RecorderConfig} {journal : List LogEntry}

/-- Without a failure every writer keeps its bounds. -/
def RecorderSynced (config : RecorderConfig) (r : RecorderState) : Prop :=
  r.history.failed = false → ∀ gi, WriterSynced (config.group gi) (r.writers gi)

/-- One writer is exchanged. -/
theorem WriterSynced.update {r : RecorderState} {gi : ℕ} {w : PriorityWriter}
    (h : ∀ gj, WriterSynced (config.group gj) (r.writers gj))
    (hw : WriterSynced (config.group gi) w) (gj : ℕ) :
    WriterSynced (config.group gj) (Function.update r.writers gi w gj) := by
  by_cases hgj : gj = gi
  · subst hgj
    rw [Function.update_self]
    exact hw
  · rw [Function.update_of_ne hgj]
    exact h gj

/-- **No call breaks the invariant.** -/
theorem synced_rule (env : RecorderEnv) (config : RecorderConfig) (journal : List LogEntry) :
    RecorderRule env config journal (fun _ => RecorderSynced config)
      (fun _ _ => RecorderSynced config) where
  same hsame h hok := by
    rw [hsame.writers]
    exact h (hsame.failed hok)
  receive := by
    intro r e _ h hok
    obtain ⟨hwriters, -, -, -, hhistory, -⟩ := received_same (atNextEntry r) e
    rw [hhistory] at hok
    rw [hwriters]
    exact h hok
  numbered _ h := h
  modified _ _ h := h
  dropped h := h
  pending _ h := h
  accepted _ h := h
  again _ h := h
  flush gi h hok := by
    obtain ⟨hr, hnone⟩ := after_failed_eq hok
    exact WriterSynced.update (h hr) ((h hr gi).flush hnone)
  sync gi h hok := by
    obtain ⟨hr, -⟩ := after_failed_eq hok
    exact WriterSynced.update (h hr) (h hr gi).sync
  finish := by
    intro _ r gi f reason _ _ h hok
    obtain ⟨hr, -⟩ := after_failed_eq hok
    have hclosed : WriterSynced (config.group gi)
        (writerFinishSegment env r.tick (r.writers gi) f reason).2.1 := by
      intro g hg
      rw [writerFinishSegment_file] at hg
      cases hg
    exact WriterSynced.update (h hr) hclosed
  retention h hok := by
    rw [retention_failed] at hok
    rw [retention_writers]
    exact h hok
  stays _ _ _ h := h
  opened _ _ _ h hok := by
    obtain ⟨hr, hnone⟩ := after_failed_eq hok
    exact WriterSynced.update (h hr) (writerOpenSegment_synced hnone)
  notOpened _ hnone _ hok := absurd (after_failed_eq hok).2 hnone
  added h hok := by
    obtain ⟨hr, -⟩ := after_failed_eq hok
    exact WriterSynced.update (h hr) ((h hr _).congr rfl rfl rfl)
  notAdded err _ hok := by
    cases (after_failed_eq hok).2

end Runs

/-! ## Behind `recorder_flush_all` -/

/-- No entry waits in a chunk, and the counter of every open writer has the frames behind the
last `fsync` of its segment: none for a group with a durable priority, else fewer than
`durability_flush_frames` if that is set. -/
structure UnsyncedBounded (config : Config) (r : RecorderState) : Prop where
  chunk : ∀ gi < config.groups.length, (r.writers gi).chunk = []
  durable : ∀ gi g f, config.groups[gi]? = some g → (r.writers gi).file = some f →
    HasDurablePriority config g → (r.writers gi).unsyncedFrames = 0
  batched : ∀ gi g f, config.groups[gi]? = some g → (r.writers gi).file = some f →
    ¬ HasDurablePriority config g → 0 < g.durabilityFlushFrames →
      (r.writers gi).unsyncedFrames.toNat < g.durabilityFlushFrames
  counted : ∀ gi g f, config.groups[gi]? = some g → (r.writers gi).file = some f →
    (r.writers gi).unsyncedFrames.toNat = framesBehindSync (r.writers gi) f

/-- In the groups that neither a durable priority nor `durability_flush_frames` makes sync,
fewer than 2^32 frames lie behind the last `fsync`. -/
def FewBehindSync (config : Config) (r : RecorderState) : Prop :=
  ∀ gi g f, config.groups[gi]? = some g → (r.writers gi).file = some f →
    ¬ HasDurablePriority config g → g.durabilityFlushFrames = 0 →
      framesBehindSync (r.writers gi) f < 2 ^ 32

/-- A flush of all groups that succeeds leaves no chunk. -/
theorem recorderFlushAll_chunk {env : RecorderEnv} {config : RecorderConfig} {checkpoint : Bool}
    {r r' : RecorderState} (h : recorderFlushAll env config checkpoint r = (none, r')) {gi : ℕ}
    (hgi : gi < config.groups.length) : (r'.writers gi).chunk = [] := by
  have hloop := @recorderFlushLoop_chunk env config (List.range config.groups.length) r
  unfold recorderFlushAll at h
  split at h
  · cases h
  · next r1 hres =>
    rw [hres] at hloop
    have hchunk := hloop rfl gi (.inl (List.mem_range.2 hgi))
    obtain ⟨-, rfl⟩ := Prod.mk.inj h
    cases checkpoint with
    | false => exact hchunk
    | true =>
      rw [if_pos rfl, (RecorderRule.persistJournalCursor_same env r1).writers]
      exact hchunk

/-- A number survives the 32 bits if it is below `2 ^ 32`. -/
theorem toNat_ofNat_eq_iff (n : ℕ) : (UInt32.ofNat n).toNat = n ↔ n < 2 ^ 32 := by
  rw [UInt32.toNat_ofNat']
  omega

/-- **Unsynced frames are bounded** behind every successful `recorder_flush_all` of a run
without failures, exactly as long as the counter has not wrapped.
SOURCE: recorder.c:3647-3677, 3749-3764, 4283-4298 -/
theorem unsynced_frames_bounded_iff {cenv : ConfigEnv} {main : Json} {dropins : List Json}
    {config : Config} (hload : recorderConfigLoadAll cenv main dropins = .ok config)
    (env : RecorderEnv) (journal : List LogEntry) (calls : List RecorderCall)
    {start : RecorderState} (hstart : RecorderStarted start) (checkpoint : Bool)
    {r : RecorderState}
    (hflush : recorderFlushAll env (writerConfig config (recorderConfigLoadAll_loaded hload).routed)
      checkpoint (recorderRun env (writerConfig config (recorderConfigLoadAll_loaded hload).routed)
        journal calls start) = (none, r))
    (hok : r.history.failed = false) :
    UnsyncedBounded config r ↔ FewBehindSync config r := by
  have hchecked := recorderConfigLoadAll_checked hload
  generalize (recorderConfigLoadAll_loaded hload).routed = routed at hflush
  have hsynced : ∀ gi g f, config.groups[gi]? = some g → (r.writers gi).file = some f →
      SyncCounters g.priorityGroup (r.writers gi) f := by
    intro gi g f hg hf
    have rule := synced_rule env (writerConfig config routed) journal
    have hrun := rule.run calls (r := start) fun _ gi f hf => by
      rw [hstart.files gi] at hf
      cases hf
    have hend := rule.flushAll checkpoint (x := .idle) hrun
    rw [hflush] at hend
    have hcounters := hend hok gi f hf
    rwa [writerConfig_group routed hg] at hcounters
  have hgroup : ∀ gi g, config.groups[gi]? = some g → g ∈ config.groups :=
    fun gi g hg => List.mem_of_getElem? hg
  constructor
  · intro hbounded gi g f hg hf _ _
    rw [← toNat_ofNat_eq_iff, ← (hsynced gi g f hg hf).counted]
    exact hbounded.counted gi g f hg hf
  · intro hfew
    have hexact : ∀ gi g f, config.groups[gi]? = some g → (r.writers gi).file = some f →
        (r.writers gi).unsyncedFrames.toNat = framesBehindSync (r.writers gi) f := by
      intro gi g f hg hf
      obtain ⟨-, hcounted, hdurable, hbatched⟩ := hsynced gi g f hg hf
      rw [hcounted, toNat_ofNat_eq_iff]
      by_cases hd : HasDurablePriority config g
      · rw [hdurable ((hchecked.durable g (hgroup gi g hg)).2 hd)]
        exact Nat.two_pow_pos 32
      · by_cases hk : g.durabilityFlushFrames = 0
        · exact hfew gi g f hg hf hd hk
        · have hmax := hchecked.frames g (hgroup gi g hg)
          exact lt_of_lt_of_le (hbatched hk hmax) (le_trans hmax (by decide))
    refine ⟨fun gi hgi => ?_, fun gi g f hg hf hd => ?_, fun gi g f hg hf _ hk => ?_, hexact⟩
    · refine recorderFlushAll_chunk hflush ?_
      simpa [writerConfig] using hgi
    · obtain ⟨-, hcounted, hdurable, -⟩ := hsynced gi g f hg hf
      rw [hcounted, hdurable ((hchecked.durable g (hgroup gi g hg)).2 hd)]
      rfl
    · rw [hexact gi g f hg hf]
      exact (hsynced gi g f hg hf).batched (Nat.pos_iff_ne_zero.1 hk)
        (hchecked.frames g (hgroup gi g hg))

/-- A pair with a known first component. -/
theorem eq_pair {α β : Type} {p : α × β} {a : α} (h : p.1 = a) : p = (a, p.2) := by
  rw [← h]

/-- A group of all priorities. -/
def durableGroup : Json := groupsRoot [groupItem [97] [0, 1, 2, 3, 4, 5, 6, 7]]

/-- The configuration is accepted. -/
theorem durableGroup_loads :
    recorderConfigLoadAll anyFile durableGroup [] = .ok (configOf durableGroup) := rfl

/-- The frame of the one entry is synced, since its group has a durable priority. -/
theorem unsynced_frames_bounded_durable :
    ∃ config, ∃ h : recorderConfigLoadAll anyFile durableGroup [] = .ok config, ∃ r,
      recorderFlushAll (plainEnv fun _ _ => .ok)
          (writerConfig config (recorderConfigLoadAll_loaded h).routed) true
          (recorderRun (plainEnv fun _ _ => .ok)
            (writerConfig config (recorderConfigLoadAll_loaded h).routed) [messageEntry]
            [.step] {}) = (none, r) ∧
        UnsyncedBounded config r := by
  refine ⟨configOf durableGroup, durableGroup_loads, _, eq_pair (by decide +kernel), ?_⟩
  refine (unsynced_frames_bounded_iff durableGroup_loads (plainEnv fun _ _ => .ok)
    [messageEntry] [.step] started_default true (eq_pair (by decide +kernel))
    (by decide +kernel)).2 ?_
  intro gi g f hg _ hdurable _
  cases gi with
  | zero =>
    obtain rfl := Option.some.inj hg
    exact absurd ⟨0, by decide, by decide⟩ hdurable
  | succ gi => cases hg

/-- The built-in groups, with segments that may get large and old. -/
def largeSegments : Json :=
  .object [("segment_max_bytes", .integer (2 ^ 60)), ("segment_max_age_sec", .integer 0)]

/-- The configuration is accepted, and never syncs. -/
theorem largeSegments_loads :
    ∃ config, ∃ h : recorderConfigLoadAll anyFile largeSegments [] = .ok config,
      NeverSyncs (writerConfig config (recorderConfigLoadAll_loaded h).routed) ∧
      ∃ g, config.groups[6]? = some g := by
  refine ⟨_, rfl, ?_, _, rfl⟩
  constructor <;> rfl

/-- Behind 2^32 steps with 512 entries each, whatever the clock says, the counter is back at
zero. -/
theorem unsynced_frames_wrap :
    ∃ config, ∃ h : recorderConfigLoadAll anyFile largeSegments [] = .ok config, ∃ r,
      recorderFlushAll (clockEnv fun t => t)
        (writerConfig config (recorderConfigLoadAll_loaded h).routed) true
        (recorderRun (clockEnv fun t => t)
          (writerConfig config (recorderConfigLoadAll_loaded h).routed)
          (quietJournal ((4294967295 + 1) * 512))
          (List.replicate (4294967295 + 1) .step) {}) = (none, r) ∧
      r.history.failed = false ∧ ¬ UnsyncedBounded config r := by
  obtain ⟨config, h, hc, g, hg⟩ := largeSegments_loads
  obtain ⟨r, f, hflush, hfailed, hfile, hframes, hsynced⟩ :=
    steps_never_synced (fun t => t) hc 4294967295 (by decide)
  refine ⟨config, h, r, hflush, hfailed, fun hbounded => ?_⟩
  have hcounted := hbounded.counted 6 g f hg hfile
  rw [framesBehindSync, hframes, hsynced] at hcounted
  have hlt := (r.writers 6).unsyncedFrames.toNat_lt
  omega

end Recorder.Analysis
