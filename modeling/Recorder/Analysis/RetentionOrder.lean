import Mathlib.Data.List.Dedup
import Recorder.Analysis.RetentionOutcome

/-!
# Retention and the order of `readdir`

A pass collects at most 4096 closed segments. Up to that number the order in which `readdir`
lists the store has no influence: the sort brings the same segments into the same order.
Beyond it every segment is left out in some order, namely in one that lists it last, so the
pass removes the same segments in all orders exactly where it removes none in any
(`retention_order_independent_iff`).
-/

set_option autoImplicit false

namespace Recorder.Analysis

open Recorder.Model Recorder.Lib

/-! ## Orders of `readdir` -/

/-- The files are listed directory by directory. -/
def ByDirectory (files : List LogFile) : Prop :=
  ∃ blocks : List (Bytes × List LogFile), (blocks.map (·.1)).Nodup ∧
    (∀ b ∈ blocks, ∀ f ∈ b.2, f.dir = b.1) ∧ files = blocks.flatMap (·.2)

/-- One store lists the files of another, in any order of the directories and of the files
of each. -/
def Enumerates (s' s : LogStore) : Prop := s'.files.Perm s.files ∧ ByDirectory s'.files

/-- The files of some directories, directory by directory. -/
def arrange (dirs : List Bytes) (files : List LogFile) : List LogFile :=
  dirs.flatMap fun d => files.filter fun f => f.dir = d

/-- The files come directory by directory. -/
theorem arrange_byDirectory {dirs : List Bytes} (hdirs : dirs.Nodup) (files : List LogFile) :
    ByDirectory (arrange dirs files) := by
  refine ⟨dirs.map fun d => (d, files.filter fun f => f.dir = d), ?_, ?_, ?_⟩
  · simpa [List.map_map, Function.comp_def] using hdirs
  · intro b hb f hf
    obtain ⟨d, -, rfl⟩ := List.mem_map.mp hb
    exact of_decide_eq_true (List.mem_filter.mp hf).2
  · rw [List.flatMap_map]
    rfl

/-- Arranging the files loses none. -/
theorem arrange_perm {dirs : List Bytes} (hdirs : dirs.Nodup) {files : List LogFile}
    (hcover : ∀ f ∈ files, f.dir ∈ dirs) : (arrange dirs files).Perm files := by
  induction dirs generalizing files with
  | nil =>
    have hnil : files = [] := List.eq_nil_iff_forall_not_mem.mpr fun f hf =>
      absurd (hcover f hf) (by simp)
    rw [hnil]
    exact List.Perm.refl _
  | cons d dirs ih =>
    obtain ⟨hd, hdirs⟩ := List.nodup_cons.mp hdirs
    -- the other directories do not see the files of this one
    have hrest : arrange dirs files = arrange dirs (files.filter fun f => ¬ f.dir = d) := by
      unfold arrange
      apply List.flatMap_congr
      intro d' hd'
      rw [List.filter_filter]
      refine List.filter_congr fun f _ => ?_
      by_cases hf : f.dir = d'
      · have hne : d' ≠ d := fun h => hd (h ▸ hd')
        simp [hf, hne]
      · simp [hf]
    have hcover' : ∀ f ∈ files.filter fun f => ¬ f.dir = d, f.dir ∈ dirs := by
      intro f hf
      obtain ⟨hmem, hne⟩ := List.mem_filter.mp hf
      exact (List.mem_cons.mp (hcover f hmem)).resolve_left (of_decide_eq_true hne)
    have hperm := ih hdirs hcover'
    rw [← hrest] at hperm
    have hcons : arrange (d :: dirs) files =
        (files.filter fun f => f.dir = d) ++ arrange dirs files := by
      simp [arrange]
    rw [hcons]
    refine (hperm.append_left _).trans ?_
    have hpart := List.filter_append_perm (fun f : LogFile => decide (f.dir = d)) files
    simpa using hpart

/-- Any list of the files, arranged by any order of the directories, is an enumeration. -/
theorem exists_enumeration (s : LogStore) {files : List LogFile} (hfiles : files.Perm s.files)
    {dirs : List Bytes} (hdirs : dirs.Nodup) (hcover : ∀ f ∈ s.files, f.dir ∈ dirs) :
    ∃ s' : LogStore, Enumerates s' s ∧ s'.files = arrange dirs files := by
  have hperm : (arrange dirs files).Perm s.files :=
    (arrange_perm hdirs fun f hf => hcover f (hfiles.subset hf)).trans hfiles
  refine ⟨⟨arrange dirs files, ?_⟩, ⟨hperm, arrange_byDirectory hdirs files⟩, rfl⟩
  exact ((hperm.map _).nodup_iff).mpr s.paths_nodup

/-- The directories of a list of files, but one of them. -/
def otherDirs (files : List LogFile) (dir : Bytes) : List Bytes :=
  (files.map (·.dir)).dedup.filter (· ≠ dir)

/-- The other directories are different. -/
theorem otherDirs_nodup (files : List LogFile) (dir : Bytes) : (otherDirs files dir).Nodup :=
  (List.nodup_dedup _).filter _

/-- The directory itself is not among them. -/
theorem not_mem_otherDirs (files : List LogFile) (dir : Bytes) : dir ∉ otherDirs files dir := by
  simp [otherDirs]

/-- The directory of any other file is. -/
theorem mem_otherDirs {files : List LogFile} {dir : Bytes} {f : LogFile} (hf : f ∈ files)
    (hne : f.dir ≠ dir) : f.dir ∈ otherDirs files dir := by
  refine List.mem_filter.mpr ⟨List.mem_dedup.mpr (List.mem_map_of_mem hf), ?_⟩
  exact decide_eq_true hne

/-- **Any files of one directory can come first**, in any order. -/
theorem exists_enumeration_first (s : LogStore) (dir : Bytes) (first : List LogFile)
    (hnodup : first.Nodup) (hfirst : ∀ f ∈ first, f ∈ s.files ∧ f.dir = dir) :
    ∃ s' rest, Enumerates s' s ∧ s'.files = first ++ rest := by
  have hperm : (first ++ s.files.filter (· ∉ first)).Perm s.files := by
    have hchosen : (s.files.filter (· ∈ first)).Perm first := by
      refine (List.perm_ext_iff_of_nodup (s.paths_nodup.of_map.filter _) hnodup).mpr fun f => ?_
      rw [List.mem_filter, decide_eq_true_eq]
      exact ⟨fun h => h.2, fun h => ⟨(hfirst f h).1, h⟩⟩
    refine (hchosen.symm.append_right _).trans ?_
    simpa using List.filter_append_perm (· ∈ first) s.files
  have hcover : ∀ f ∈ s.files, f.dir ∈ dir :: otherDirs s.files dir := by
    intro f hf
    by_cases hdir : f.dir = dir
    · exact hdir ▸ List.mem_cons_self ..
    · exact List.mem_cons_of_mem _ (mem_otherDirs hf hdir)
  obtain ⟨s', hs', hfiles⟩ := exists_enumeration s hperm
    (List.nodup_cons.mpr ⟨not_mem_otherDirs s.files dir, otherDirs_nodup s.files dir⟩) hcover
  rw [arrange, List.flatMap_cons, List.filter_append,
    List.filter_eq_self.mpr fun f hf => decide_eq_true (hfirst f hf).2,
    List.append_assoc] at hfiles
  exact ⟨s', _, hs', hfiles⟩

/-- **Any file can come last.** -/
theorem exists_enumeration_last (s : LogStore) {f : LogFile} (hf : f ∈ s.files) :
    ∃ s' front, Enumerates s' s ∧ s'.files = front ++ [f] := by
  have hperm : (s.files.filter (· ≠ f) ++ [f]).Perm s.files := by
    have hlast : (s.files.filter (· = f)).Perm [f] := by
      refine (List.perm_ext_iff_of_nodup (s.paths_nodup.of_map.filter _)
        (List.nodup_singleton f)).mpr fun g => ?_
      rw [List.mem_filter, decide_eq_true_eq, List.mem_singleton]
      exact ⟨fun h => h.2, fun h => ⟨h ▸ hf, h⟩⟩
    refine (List.perm_append_comm.trans (hlast.symm.append_right _)).trans ?_
    simpa using List.filter_append_perm (fun g => decide (g = f)) s.files
  have hcover : ∀ g ∈ s.files, g.dir ∈ otherDirs s.files f.dir ++ [f.dir] := by
    intro g hg
    by_cases hdir : g.dir = f.dir
    · exact List.mem_append_right _ (List.mem_singleton.mpr hdir)
    · exact List.mem_append_left _ (mem_otherDirs hg hdir)
  have hnodup : (otherDirs s.files f.dir ++ [f.dir]).Nodup := by
    refine List.nodup_append.mpr
      ⟨otherDirs_nodup s.files f.dir, List.nodup_singleton _, fun d hd e he => ?_⟩
    rintro rfl
    rw [List.mem_singleton.mp he] at hd
    exact not_mem_otherDirs s.files f.dir hd
  obtain ⟨s', hs', hfiles⟩ := exists_enumeration s hperm hnodup hcover
  have hself : [f].filter (fun g => decide (g.dir = f.dir)) = [f] := by simp
  rw [arrange, List.flatMap_append, List.flatMap_singleton, List.filter_append, hself,
    ← List.append_assoc] at hfiles
  exact ⟨s', _, hs', hfiles⟩

/-! ## Collecting in another order -/

variable {config : RecorderConfig} {env : RetentionEnv} {s s' : LogStore}

/-- The closed segments of the same files are the same. -/
theorem closedSegments_perm (config : RecorderConfig) (active : List (Bytes × Bytes))
    {files files' : List LogFile} (h : files.Perm files') :
    (closedSegments config active files).Perm (closedSegments config active files') :=
  (h.filter _).filterMap _

/-- The closed segments of two lists of files. -/
theorem closedSegments_append (config : RecorderConfig) (active : List (Bytes × Bytes))
    (files files' : List LogFile) :
    closedSegments config active (files ++ files') =
      closedSegments config active files ++ closedSegments config active files' := by
  simp [closedSegments]

/-- The order of the files does not count for their bytes. -/
theorem countStoreBytes_perm (h : s'.files.Perm s.files) :
    countStoreBytes s' = countStoreBytes s := by
  unfold countStoreBytes
  rw [sizeSum_perm (h.filter _), sizeSum_perm (h.filter _)]

/-- The segments a pass removes. -/
def removedSegments (config : RecorderConfig) (env : RetentionEnv) (s : LogStore) :
    List RetainedFile :=
  (retentionEnforce config env s).removals.map (·.1)

/-- Where every unlink succeeds, what is out of limits is removed. -/
theorem removedSegments_eq (hok : ∀ path, env.unlinkOk path = true) :
    removedSegments config env s =
      (retentionOrder config env s).filter
        (isOutOfLimits config env (countStoreBytes s) (retentionOrder config env s)) := by
  rw [← removed_eq_filter hok, removedSegments, retentionEnforce_removals]
  rfl

/-- Collecting everything, the order of removal depends on the files only. -/
theorem retentionOrder_eq_of_perm (hperm : s'.files.Perm s.files)
    (hcount : (closedSegments config env.active s.files).length ≤ maxRetainedFiles)
    (hdistinct : ((closedSegments config env.active s.files).map (·.segmentSeq)).Nodup) :
    retentionOrder config env s' = retentionOrder config env s := by
  have hclosed := closedSegments_perm config env.active hperm
  unfold retentionOrder retentionSort
  rw [collectClosedSegments_eq, collectClosedSegments_eq, List.take_of_length_le hcount,
    List.take_of_length_le (hclosed.length_eq ▸ hcount)]
  refine (exchangeSort_eq_of_perm removedBefore_weakOrder hclosed.symm ?_).symm
  -- two segments that tie have the same number
  intro a ha b hb hab hba
  refine List.inj_on_of_nodup_map hdistinct ha hb ?_
  simp only [removedBefore, gt_iff_lt, Bool.or_eq_false_iff, decide_eq_false_iff_not,
    Bool.and_eq_false_iff, UInt64.lt_iff_toNat_lt] at hab hba
  rw [← UInt64.toNat_inj]
  omega

/-- The first 4096 closed segments are sorted. -/
theorem mem_retentionOrder_iff {r : RetainedFile} :
    r ∈ retentionOrder config env s ↔
      r ∈ (closedSegments config env.active s.files).take maxRetainedFiles := by
  rw [← collectClosedSegments_eq]
  exact (exchangeSort_perm removedBefore _).mem_iff

/-! ## More segments than the table holds -/

/-- The pass removes the same segments of two stores. -/
def SameRemoved (config : RecorderConfig) (env : RetentionEnv) (s₁ s₂ : LogStore) : Prop :=
  ∀ path, path ∈ (removedSegments config env s₁).map (·.path) ↔
    path ∈ (removedSegments config env s₂).map (·.path)

/-- **Beyond the table**, the same segments in all orders are none. -/
theorem removedSegments_nil_of_same (hok : ∀ path, env.unlinkOk path = true)
    (hmany : maxRetainedFiles < (closedSegments config env.active s.files).length)
    (hsame : ∀ s₁ s₂, Enumerates s₁ s → Enumerates s₂ s → SameRemoved config env s₁ s₂)
    (h : Enumerates s' s) : removedSegments config env s' = [] := by
  refine List.eq_nil_iff_forall_not_mem.mpr fun r hr => ?_
  have hin : ∀ {s₁ : LogStore} {r₁ : RetainedFile}, r₁ ∈ removedSegments config env s₁ →
      r₁ ∈ (closedSegments config env.active s₁.files).take maxRetainedFiles := by
    intro s₁ r₁ hr₁
    rw [removedSegments_eq hok] at hr₁
    exact mem_retentionOrder_iff.mp (List.mem_of_mem_filter hr₁)
  obtain ⟨f, hf, seq, hdir, hseq, hactive, rfl⟩ :=
    mem_closedSegments.mp (List.mem_of_mem_take (hin hr))
  -- in the order that lists the file last it is not collected
  obtain ⟨s₂, front, hs₂, hfiles⟩ := exists_enumeration_last s (h.1.subset hf)
  have hlast : closedSegments config env.active [f] = [retainedFile config f seq] := by
    simp [closedSegments, hdir, hseq, hactive]
  have hclosed : closedSegments config env.active s₂.files =
      closedSegments config env.active front ++ [retainedFile config f seq] := by
    rw [hfiles, closedSegments_append, hlast]
  have hlength : maxRetainedFiles ≤ (closedSegments config env.active front).length := by
    have hperm := (closedSegments_perm config env.active hs₂.1).length_eq
    rw [hclosed, List.length_append, List.length_singleton] at hperm
    omega
  obtain ⟨r₂, hr₂, hpath⟩ := List.mem_map.mp
    ((hsame s' s₂ h hs₂ _).mp (List.mem_map_of_mem hr))
  have hfront := hin hr₂
  rw [hclosed, List.take_append_of_le_length hlength] at hfront
  have hnodup := closedSegments_paths_nodup config env.active s₂
  rw [hclosed, List.map_append, List.nodup_append] at hnodup
  refine hnodup.2.2 r₂.path (List.mem_map_of_mem (List.mem_of_mem_take hfront))
    (retainedFile config f seq).path (List.mem_map_of_mem (List.mem_singleton_self _)) hpath

/-- No limit is exceeded, whichever closed segments are collected. -/
structure NothingToRemove (config : RecorderConfig) (env : RetentionEnv) (s : LogStore) :
    Prop where
  log : config.logMaxBytes = 0 ∨ countStoreBytes s ≤ config.logMaxBytes
  age : ∀ r ∈ closedSegments config env.active s.files, ∀ gi, r.groupIndex = some gi →
    pastMaxAge env (config.group gi) r.modifiedAt = false
  group : ∀ gi, (config.group gi).maxBytes ≠ 0 → ∀ chosen : List RetainedFile, chosen.Nodup →
    (∀ r ∈ chosen, r ∈ closedSegments config env.active s.files ∧ r.groupIndex = some gi) →
    chosen.length ≤ maxRetainedFiles → retainedBytes chosen ≤ (config.group gi).maxBytes

/-- Where no limit is exceeded, nothing is removed in any order. -/
theorem removedSegments_nil_of_nothing (hok : ∀ path, env.unlinkOk path = true)
    (hnothing : NothingToRemove config env s) (h : Enumerates s' s) :
    removedSegments config env s' = [] := by
  rw [removedSegments_eq hok, List.filter_eq_nil_iff]
  intro r hr
  obtain ⟨passed, rest, hsplit⟩ := List.append_of_mem hr
  have hnodup := (retentionOrder_paths_nodup config env s').of_map
  have hclosed : ∀ c ∈ retentionOrder config env s',
      c ∈ closedSegments config env.active s.files := fun c hc =>
    (closedSegments_perm config env.active h.1).subset
      (List.mem_of_mem_take (mem_retentionOrder_iff.mp hc))
  have hlog : ¬ (config.logMaxBytes ≠ 0 ∧
      config.logMaxBytes < countStoreBytes s' - retainedBytes passed) := by
    rw [countStoreBytes_perm h.1]
    rintro ⟨hlimit, hover⟩
    have := hnothing.log.resolve_left hlimit
    omega
  have hgroup : ∀ gi, ¬ ((config.group gi).maxBytes ≠ 0 ∧
      (config.group gi).maxBytes < collectedGroupBytes (r :: rest) gi) := by
    rintro gi ⟨hlimit, hover⟩
    have hsub : ((r :: rest).filter fun f => f.groupIndex = some gi).Sublist
        (retentionOrder config env s') := by
      rw [hsplit]
      exact List.filter_sublist.trans (List.sublist_append_right _ _)
    refine absurd (hnothing.group gi hlimit _ (hnodup.sublist hsub) ?_ ?_)
      (Nat.not_le_of_lt hover)
    · intro c hc
      exact ⟨hclosed c (hsub.subset hc), of_decide_eq_true (List.mem_filter.mp hc).2⟩
    · refine le_trans hsub.length_le ?_
      rw [retentionOrder, retentionSort, (exchangeSort_perm removedBefore _).length_eq,
        collectClosedSegments_eq]
      exact List.length_take_le _ _
  rw [hsplit] at hnodup ⊢
  rw [isOutOfLimits_split config env _ hnodup]
  unfold outOfLimits
  simp only [Bool.or_eq_true, Bool.and_eq_true, decide_eq_true_eq, not_or]
  refine ⟨hlog, ?_⟩
  cases hindex : r.groupIndex with
  | none => simp
  | some gi =>
    simp only [Bool.or_eq_true, Bool.and_eq_true, decide_eq_true_eq, not_or, Bool.not_eq_true]
    exact ⟨hgroup gi, hnothing.age r (hclosed r hr) gi hindex⟩

/-- Where nothing is removed, the totals are those of the start. -/
theorem totals_of_removedSegments_nil (hnone : removedSegments config env s = []) :
    removed (retentionLoop config env s) = [] := by
  rw [removedSegments, retentionEnforce_removals] at hnone
  exact hnone

/-- A file of the store, listed first, is collected. -/
theorem exists_collecting {r : RetainedFile} (hr : r ∈ closedSegments config env.active s.files) :
    ∃ s', Enumerates s' s ∧ r ∈ retentionOrder config env s' := by
  obtain ⟨f, hf, seq, hdir, hseq, hactive, rfl⟩ := mem_closedSegments.mp hr
  obtain ⟨s', rest, hs', hfiles⟩ := exists_enumeration_first s f.dir [f]
    (List.nodup_singleton f) (by simpa using hf)
  refine ⟨s', hs', mem_retentionOrder_iff.mpr ?_⟩
  have hfirst : closedSegments config env.active [f] = [retainedFile config f seq] := by
    simp [closedSegments, hdir, hseq, hactive]
  rw [hfiles, closedSegments_append, hfirst, List.singleton_append]
  exact List.mem_cons_self ..

/-- Segments of one group, as many as fit, are collected by a pass that lists them first. -/
theorem exists_collecting_group {gi : ℕ} {chosen : List RetainedFile} (hnodup : chosen.Nodup)
    (hchosen : ∀ r ∈ chosen,
      r ∈ closedSegments config env.active s.files ∧ r.groupIndex = some gi)
    (hlength : chosen.length ≤ maxRetainedFiles) :
    ∃ s', Enumerates s' s ∧
      retainedBytes chosen ≤ collectedGroupBytes (retentionOrder config env s') gi := by
  -- the files of the chosen segments, in the order of the store
  let first := s.files.filter fun f => decide (f.path ∈ chosen.map (·.path)) &&
    isClosedSegment env.active f
  have hfirst : ∀ f ∈ first, f ∈ s.files ∧ f.dir = (config.group gi).name := by
    intro f hf
    obtain ⟨hmem, hp⟩ := List.mem_filter.mp hf
    obtain ⟨hpath, -⟩ := Bool.and_eq_true _ _ ▸ hp
    obtain ⟨r, hr, hrpath⟩ := List.mem_map.mp (of_decide_eq_true hpath)
    obtain ⟨g, hg, seq, -, -, -, rfl⟩ := mem_closedSegments.mp (hchosen r hr).1
    have hsame := List.inj_on_of_nodup_map s.paths_nodup hg hmem hrpath
    subst hsame
    exact ⟨hmem, (groupOfDir_name (retainedFile_groupIndex (hchosen _ hr).2)).symm⟩
  obtain ⟨s', rest, hs', hfiles⟩ := exists_enumeration_first s (config.group gi).name first
    (s.paths_nodup.of_map.filter _) hfirst
  refine ⟨s', hs', ?_⟩
  have hperm : (closedSegments config env.active first).Perm chosen := by
    have hpaths := closedSegments_paths_nodup config env.active s
    have hsub : ((closedSegments config env.active first).map (·.path)).Nodup :=
      closedSegments_paths_nodup config env.active
        ⟨first, s.paths_nodup.sublist (List.filter_sublist.map _)⟩
    refine (List.perm_ext_iff_of_nodup hsub.of_map hnodup).mpr fun r => ?_
    constructor
    · intro hr
      obtain ⟨f, hf, seq, hdir, hseq, hactive, rfl⟩ := mem_closedSegments.mp hr
      obtain ⟨hmem, hp⟩ := List.mem_filter.mp hf
      obtain ⟨hpath, -⟩ := Bool.and_eq_true _ _ ▸ hp
      obtain ⟨c, hc, hcpath⟩ := List.mem_map.mp (of_decide_eq_true hpath)
      have hsame := List.inj_on_of_nodup_map hpaths (hchosen c hc).1
        (mem_closedSegments.mpr ⟨f, hmem, seq, hdir, hseq, hactive, rfl⟩) hcpath
      exact hsame ▸ hc
    · intro hr
      obtain ⟨f, hf, seq, hdir, hseq, hactive, rfl⟩ := mem_closedSegments.mp (hchosen r hr).1
      refine mem_closedSegments.mpr ⟨f, List.mem_filter.mpr ⟨hf, ?_⟩, seq, hdir, hseq, hactive, rfl⟩
      have hpath : f.path ∈ chosen.map (·.path) := List.mem_map.mpr ⟨_, hr, rfl⟩
      simp [hpath, isClosedSegment, hseq, hactive]
  have hcollected : (closedSegments config env.active first).Sublist
      (collectClosedSegments config env.active s') := by
    rw [collectClosedSegments_eq, hfiles, closedSegments_append,
      List.take_append, List.take_of_length_le (hperm.length_eq ▸ hlength)]
    exact List.sublist_append_left _ _
  calc retainedBytes chosen
      = collectedGroupBytes chosen gi := by
        rw [collectedGroupBytes_eq, List.filter_eq_self.mpr fun r hr =>
          decide_eq_true (hchosen r hr).2]
    _ = collectedGroupBytes (closedSegments config env.active first) gi :=
        (collectedGroupBytes_perm hperm gi).symm
    _ ≤ collectedGroupBytes (collectClosedSegments config env.active s') gi :=
        collectedGroupBytes_le_of_sublist hcollected gi
    _ = collectedGroupBytes (retentionOrder config env s') gi :=
        (collectedGroupBytes_perm (exchangeSort_perm removedBefore _) gi).symm

/-- Where nothing is removed in any order, no limit is exceeded. -/
theorem nothing_of_removedSegments_nil (hok : ∀ path, env.unlinkOk path = true)
    (hsome : closedSegments config env.active s.files ≠ [])
    (hnone : ∀ s', Enumerates s' s → removedSegments config env s' = []) :
    NothingToRemove config env s := by
  constructor
  · by_contra hover
    obtain ⟨hlimit, htotal⟩ := not_or.mp hover
    obtain ⟨r, hr⟩ := List.exists_mem_of_ne_nil _ hsome
    obtain ⟨s', hs', hmem⟩ := exists_collecting hr
    have hempty := totals_of_removedSegments_nil (hnone s' hs')
    have hinv := retentionLoop_inv config env s'
    have hall := removed_of_total_over rfl (retentionStart_groupBytes config env s') hlimit
      (retentionOrder config env s') (List.prefix_refl _) (.inl (by
        rw [← retentionLoop_eq, hinv.total, hempty]
        have hstart : (retentionStart config env s').total = countStoreBytes s' := rfl
        rw [hstart, countStoreBytes_perm hs'.1, retainedBytes_nil]
        exact Nat.lt_of_not_le htotal))
    rw [← retentionLoop_eq, hempty, removable_eq_self fun f _ => hok f.path] at hall
    rw [← hall] at hmem
    exact absurd hmem (by simp)
  · intro r hr gi hindex
    by_contra hage
    obtain ⟨s', hs', hmem⟩ := exists_collecting hr
    have hempty := hnone s' hs'
    rw [removedSegments_eq hok, List.filter_eq_nil_iff] at hempty
    refine hempty r hmem ?_
    unfold isOutOfLimits outOfLimits
    rw [hindex]
    simp [Bool.not_eq_false _ ▸ hage]
  · intro gi hlimit chosen hnodup hchosen hlength
    by_contra hover
    obtain ⟨s', hs', hle⟩ := exists_collecting_group hnodup hchosen hlength
    have hempty := totals_of_removedSegments_nil (hnone s' hs')
    have hinv := retentionLoop_inv config env s'
    have hall := removed_of_group_over rfl (retentionStart_groupBytes config env s') hlimit
      (retentionOrder config env s') (List.prefix_refl _) (by
        rw [← retentionLoop_eq, hinv.groupBytes, hempty, collectedGroupBytes_nil]
        omega)
    rw [← retentionLoop_eq, hempty, removable_eq_self fun f _ => hok f.path,
      collectedGroupBytes_nil] at hall
    omega

/-! ## The key result -/

/-- **The order of `readdir` has no influence** on a pass exactly where all closed segments
fit the table, or where no limit is exceeded whichever of them are collected. -/
theorem retention_order_independent_iff (hok : ∀ path, env.unlinkOk path = true)
    (hdistinct : ((closedSegments config env.active s.files).map (·.segmentSeq)).Nodup) :
    (∀ s₁ s₂, Enumerates s₁ s → Enumerates s₂ s → SameRemoved config env s₁ s₂) ↔
      (closedSegments config env.active s.files).length ≤ maxRetainedFiles ∨
        NothingToRemove config env s := by
  constructor
  · intro hsame
    by_cases hcount : (closedSegments config env.active s.files).length ≤ maxRetainedFiles
    · exact .inl hcount
    · have hmany := Nat.lt_of_not_le hcount
      have hsome : closedSegments config env.active s.files ≠ [] := by
        intro hnil
        rw [hnil] at hmany
        exact absurd hmany (Nat.not_lt_zero _)
      exact .inr (nothing_of_removedSegments_nil hok hsome fun s' hs' =>
        removedSegments_nil_of_same hok hmany hsame hs')
  · rintro (hcount | hnothing) s₁ s₂ h₁ h₂ path
    · have horder : removedSegments config env s₁ = removedSegments config env s₂ := by
        rw [removedSegments_eq hok, removedSegments_eq hok,
          retentionOrder_eq_of_perm h₁.1 hcount hdistinct,
          retentionOrder_eq_of_perm h₂.1 hcount hdistinct, countStoreBytes_perm h₁.1,
          countStoreBytes_perm h₂.1]
      rw [horder]
    · rw [removedSegments_nil_of_nothing hok hnothing h₁,
        removedSegments_nil_of_nothing hok hnothing h₂]

/-- A store of two closed segments. -/
theorem retention_order_independent_pair :
    (closedSegments (limitedLog 250) quietEnv.active indexedPair.files).length = 2 ∧
      ∀ s₁ s₂, Enumerates s₁ indexedPair → Enumerates s₂ indexedPair →
        SameRemoved (limitedLog 250) quietEnv s₁ s₂ := by
  refine ⟨by decide +kernel, ?_⟩
  exact (retention_order_independent_iff (fun _ => rfl) (by decide +kernel)).mpr
    (.inl (by decide +kernel))

/-- A group `a` in which segments are kept for five seconds. -/
def agedLog : RecorderConfig where
  groups := [{ name := [97], maxAgeSec := 5 }]
  priorityToGroup _ := 0
  priorityToGroup_lt _ := Nat.zero_lt_one
  names_nodup := by simp

/-- Different numbers have different names. -/
theorem segmentName_ofNat_inj {i j : ℕ} (hi : i < 4097) (hj : j < 4097)
    (h : segmentName (UInt64.ofNat i) = segmentName (UInt64.ofNat j)) : i = j := by
  have hseq := congrArg segmentSeqFromName h
  rw [segmentSeqFromName_segmentName, segmentSeqFromName_segmentName, Option.some_inj] at hseq
  have hnat := congrArg UInt64.toNat hseq
  rw [UInt64.toNat_ofNat', UInt64.toNat_ofNat'] at hnat
  omega

/-- One segment more than the table holds, all of them ten seconds old. -/
def manySegments : LogStore where
  files := (List.range 4097).map fun i => groupSegment (UInt64.ofNat i) 200
  paths_nodup := by
    rw [List.map_map]
    refine List.nodup_range.map_on fun i hi j hj h => ?_
    exact segmentName_ofNat_inj (List.mem_range.mp hi) (List.mem_range.mp hj)
      (congrArg Prod.snd h)

/-- All segments of the group are closed ones. -/
theorem closedSegments_groupSegments (numbers : List ℕ) :
    closedSegments agedLog quietEnv.active
        (numbers.map fun i => groupSegment (UInt64.ofNat i) 200) =
      numbers.map fun i =>
        retainedFile agedLog (groupSegment (UInt64.ofNat i) 200) (UInt64.ofNat i) := by
  unfold closedSegments
  rw [List.filter_eq_self.mpr]
  · rw [List.filterMap_map, ← List.filterMap_eq_map]
    apply List.filterMap_congr
    intro i _
    have hname : segmentSeqFromName (groupSegment (UInt64.ofNat i) 200).name =
        some (UInt64.ofNat i) := segmentSeqFromName_segmentName _
    simp [hname, quietEnv]
  · intro f hf
    obtain ⟨i, -, rfl⟩ := List.mem_map.mp hf
    rfl

/-- Of 4097 segments past their age, which one stays depends on the order of `readdir`. -/
theorem manySegments_order_matters :
    ((closedSegments agedLog quietEnv.active manySegments.files).map (·.segmentSeq)).Nodup ∧
      ¬ ∀ s₁ s₂, Enumerates s₁ manySegments → Enumerates s₂ manySegments →
        SameRemoved agedLog quietEnv s₁ s₂ := by
  have hclosed := closedSegments_groupSegments (List.range 4097)
  have hlength : (closedSegments agedLog quietEnv.active manySegments.files).length = 4097 := by
    rw [manySegments, hclosed, List.length_map, List.length_range]
  constructor
  · rw [manySegments, hclosed, List.map_map]
    refine List.nodup_range.map_on fun i hi j hj h => ?_
    have hseq : UInt64.ofNat i = UInt64.ofNat j := h
    exact segmentName_ofNat_inj (List.mem_range.mp hi) (List.mem_range.mp hj) (by rw [hseq])
  · intro hsame
    have hsome : closedSegments agedLog quietEnv.active manySegments.files ≠ [] :=
      List.ne_nil_of_length_pos (by omega)
    have hnothing := nothing_of_removedSegments_nil (fun _ => rfl) hsome fun s' hs' =>
      removedSegments_nil_of_same (fun _ => rfl) (by rw [hlength]; decide) hsame hs'
    have hmem : retainedFile agedLog (groupSegment (UInt64.ofNat 0) 200) (UInt64.ofNat 0) ∈
        closedSegments agedLog quietEnv.active manySegments.files := by
      rw [manySegments, hclosed]
      exact List.mem_map_of_mem (List.mem_range.mpr (by omega))
    exact absurd (hnothing.age _ hmem 0 (by decide +kernel)) (by decide +kernel)

end Recorder.Analysis
