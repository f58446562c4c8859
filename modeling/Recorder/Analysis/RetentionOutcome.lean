import Recorder.Analysis.RetentionLimits

/-!
# The limits behind a retention pass

Where all closed segments fit into the table and every `unlink` succeeds, the removed segments
are exactly those out of the limits (`removed_eq_filter`), so the age and size limits of the
groups hold behind the pass and the order of removal is kept. Two things are left out of it.
The closed segments of a group named `state` are passed over, and so keep whatever is wrong with
them. And the limit of the log holds for the files the pass has measured, but behind the loop it
writes `state/boots` anew.

`retention_reaches_limits_iff`: the limits are reached exactly where the segments that are
passed over respect them and the files that stay, with the new `state/boots`, are within the
limit of the log (`LimitsReachable`).
-/

set_option autoImplicit false

namespace Recorder.Analysis

open Recorder.Model Recorder.Lib

/-! ## The removed segments in closed form -/

/-- A segment of a list is out of the limits at its place. -/
def isOutOfLimits (config : RecorderConfig) (env : RetentionEnv) (total : ℕ)
    (files : List RetainedFile) (f : RetainedFile) : Bool :=
  outOfLimits config env total (files.takeWhile (· ≠ f)) f (files.dropWhile (· ≠ f)).tail

theorem isOutOfLimits_split (config : RecorderConfig) (env : RetentionEnv) (total : ℕ)
    {passed rest : List RetainedFile} {f : RetainedFile}
    (hnodup : (passed ++ f :: rest).Nodup) :
    isOutOfLimits config env total (passed ++ f :: rest) f =
      outOfLimits config env total passed f rest := by
  have hnot : ∀ g ∈ passed, decide (g ≠ f) = true := by
    intro g hg
    rw [decide_eq_true_eq]
    rintro rfl
    exact (List.nodup_append.mp hnodup).2.2 g hg g (List.mem_cons_self ..) rfl
  obtain ⟨htake, hdrop⟩ := takeWhile_dropWhile_append (p := fun g => decide (g ≠ f)) hnot
    (f :: rest) (by simp)
  unfold isOutOfLimits
  rw [htake, hdrop, List.tail_cons]

section Outcome

variable {config : RecorderConfig} {env : RetentionEnv} {s : LogStore}

/-- **The pass removes what is out of the limits.** -/
theorem removed_eq_filter (hok : ∀ path, env.unlinkOk path = true) :
    removed (retentionLoop config env s) =
      (retentionOrder config env s).filter
        (isOutOfLimits config env (countStoreBytes s) (retentionOrder config env s)) := by
  have hnodup : (retentionOrder config env s).Nodup :=
    (retentionOrder_paths_nodup config env s).of_map
  have hgroups := retentionStart_groupBytes config env s
  have hprefix : ∀ passed, passed <+: retentionOrder config env s →
      removed (stateAfter config env (retentionStart config env s) passed) =
        passed.filter (isOutOfLimits config env (countStoreBytes s)
          (retentionOrder config env s)) := by
    intro passed
    induction passed using List.reverseRecOn with
    | nil => exact fun _ => rfl
    | append_singleton passed f ih =>
      rintro ⟨rest, hrest⟩
      have hsplit : retentionOrder config env s = passed ++ f :: rest := by
        rw [← hrest, List.append_assoc, List.singleton_append]
      have hwants := retentionWants_iff config env rfl hgroups (fun g _ => hok g.path) hsplit
      have hout := isOutOfLimits_split config env (countStoreBytes s) (hsplit ▸ hnodup)
      rw [stateAfter_concat, removed_step, ih ⟨f :: rest, hsplit.symm⟩, hwants,
        List.filter_append]
      congr 1
      rw [← hsplit] at hout
      have hout' : isOutOfLimits config env (countStoreBytes s) (retentionOrder config env s) f =
          outOfLimits config env (retentionStart config env s).total passed f rest := hout
      rw [List.filter_cons, hout', removable_eq_self (fun g _ => hok g.path)]
      rfl
  exact hprefix _ (List.prefix_refl _)

/-! ## Segments behind the pass -/

theorem segmentSeqFromName_boots : segmentSeqFromName bootsFileName = none := by decide +kernel

/-- Writing `state/boots` touches no segment. -/
theorem persistBootState_filter (s : LogStore) (boots : BootRegistry) {p : LogFile → Bool}
    (hp : ∀ f, p f = true → (segmentSeqFromName f.name).isSome = true) :
    (persistBootState env s boots).files.filter p = s.files.filter p := by
  have hboots : ∀ f : LogFile, p f = true → f.path ≠ (stateDirName, bootsFileName) := by
    intro f hf hpath
    have hname : f.name = bootsFileName := congrArg Prod.snd hpath
    have hsome := hp f hf
    rw [hname, segmentSeqFromName_boots] at hsome
    exact absurd hsome (by simp)
  unfold persistBootState
  cases env.dumpBoots boots.boots with
  | none => rfl
  | some text =>
    by_cases hwritten : env.bootsWritten = true
    · simp only [if_pos hwritten, LogStore.put, LogStore.erase, List.filter_append,
        List.filter_filter]
      have hnew : p ⟨stateDirName, bootsFileName, text.length, env.now, none⟩ = false := by
        by_contra h
        exact hboots _ (Bool.not_eq_false _ ▸ h) rfl
      rw [List.filter_cons, hnew]
      simp only [Bool.false_eq_true, if_false, List.filter_nil, List.append_nil]
      refine List.filter_congr fun f _ => ?_
      cases hf : p f with
      | false => rfl
      | true =>
        rw [Bool.true_and]
        exact decide_eq_true (hboots f hf)
    · simp only [if_neg hwritten]

/-- The segments behind the pass are those behind its loop. -/
theorem retentionEnforce_filter (config : RecorderConfig) (env : RetentionEnv) (s : LogStore)
    {p : LogFile → Bool} (hp : ∀ f, p f = true → (segmentSeqFromName f.name).isSome = true) :
    (retentionEnforce config env s).store.files.filter p =
      (eraseAll env s (removed (retentionLoop config env s))).files.filter p := by
  have hstore : (retentionLoop config env s).store =
      eraseAll env s (removed (retentionLoop config env s)) :=
    (retentionLoop_inv config env s).store
  unfold retentionEnforce
  simp only
  split
  · rw [hstore]
  · rw [persistBootState_filter _ _ hp, hstore]

/-- A segment is in the store behind the pass exactly if it was there and was not removed. -/
theorem mem_retentionEnforce_store {f : LogFile}
    (hname : (segmentSeqFromName f.name).isSome = true) :
    f ∈ (retentionEnforce config env s).store.files ↔
      f ∈ s.files ∧ f.path ∉ (removed (retentionLoop config env s)).map (·.path) := by
  have hfilter := retentionEnforce_filter config env s
    (p := fun f => (segmentSeqFromName f.name).isSome) (fun _ h => h)
  have hmem : ∀ files : List LogFile,
      f ∈ files ↔ f ∈ files.filter fun f => (segmentSeqFromName f.name).isSome := by
    intro files
    rw [List.mem_filter]
    exact ⟨fun h => ⟨h, hname⟩, fun h => h.1⟩
  rw [hmem, hfilter, ← hmem, eraseAll_files, List.mem_filter, decide_eq_true_eq,
    mem_erasedPaths_of_segment hname]

/-! ## Groups -/

theorem groupOfDir_lt {dir : Bytes} {gi : ℕ} (h : groupOfDir config dir = some gi) :
    gi < config.groups.length := by
  obtain ⟨p, -, rfl⟩ := List.mem_map.mp (List.mem_of_find?_eq_some h)
  exact config.priorityToGroup_lt p

theorem limited_group_name_inj {g gi : ℕ} (hg : g < config.groups.length)
    (hlimit : (config.group gi).maxBytes ≠ 0)
    (hname : (config.group g).name = (config.group gi).name) : g = gi := by
  have hgi : gi < config.groups.length := by
    by_contra hnot
    rw [RecorderConfig.group, List.getD_eq_getElem?_getD,
      List.getElem?_eq_none (Nat.le_of_not_lt hnot)] at hlimit
    exact hlimit rfl
  exact group_name_inj hg hgi hname

/-! ## Regular stores -/

/-- A store with room for its closed segments in the table, all of them readable and in
configured groups, on which every `unlink` succeeds. -/
structure RegularStore (config : RecorderConfig) (env : RetentionEnv) (s : LogStore) :
    Prop where
  count : (closedSegments config env.active s.files).length ≤ maxRetainedFiles
  scannable : ∀ f ∈ s.files, isClosedSegment env.active f = true → f.scan.isSome = true
  configured : ∀ f ∈ s.files, isClosedSegment env.active f = true →
    (groupOfDir config f.dir).isSome = true
  unlinks : ∀ path, env.unlinkOk path = true

/-- A closed segment that retention never collects, because its directory is no segment
directory; of the configured groups only one named `state` has such a directory.
SOURCE: recorder.c:1732-1740, 2411-2486 -/
def isPassedOver (env : RetentionEnv) (f : LogFile) : Bool :=
  isClosedSegment env.active f && !isSegmentDirName f.dir

/-- A closed segment in a segment directory is collected, with the group of its directory. -/
theorem exists_mem_retentionOrder (hregular : RegularStore config env s) {f : LogFile}
    (hf : f ∈ s.files) (hclosed : isClosedSegment env.active f = true)
    (hdir : isSegmentDirName f.dir = true) {seq : UInt64}
    (hseq : segmentSeqFromName f.name = some seq) :
    retainedFile config f seq ∈ retentionOrder config env s ∧
      (retainedFile config f seq).groupIndex = groupOfDir config f.dir := by
  have hactive : f.path ∉ env.active := by simpa [isClosedSegment, hseq] using hclosed
  obtain ⟨out, hscan⟩ := Option.isSome_iff_exists.mp (hregular.scannable f hf hclosed)
  refine ⟨?_, by simp [retainedFile, hscan]⟩
  apply (exchangeSort_perm removedBefore _).symm.subset
  rw [collectClosedSegments_eq, List.take_of_length_le hregular.count]
  exact mem_closedSegments.mpr ⟨f, hf, seq, hdir, hseq, hactive, rfl⟩

theorem isClosedSegment_name {active : List (Bytes × Bytes)} {f : LogFile}
    (h : isClosedSegment active f = true) : (segmentSeqFromName f.name).isSome = true :=
  (Bool.and_eq_true _ _ ▸ h).1

/-- **The closed segments of a group**, with any collected segments removed, are those the loop
still counts for it. -/
theorem closedGroupBytes_eraseAll (hregular : RegularStore config env s)
    {removed : List RetainedFile} (hsub : removed.Sublist (retentionOrder config env s)) {gi : ℕ}
    (hlimit : (config.group gi).maxBytes ≠ 0)
    (hdir : isSegmentDirName (config.group gi).name = true) :
    closedGroupBytes config env.active (eraseAll env s removed) gi =
      collectedGroupBytes (retentionOrder config env s) gi - collectedGroupBytes removed gi := by
  have hpaths := retentionOrder_paths_nodup config env s
  apply Nat.le_antisymm
  · rw [collectedGroupBytes_sub hpaths.of_map hsub]
    apply sum_map_le_of_keys LogFile.path RetainedFile.path
    · exact (eraseAll env s removed).paths_nodup.sublist (List.filter_sublist.map _)
    · intro f hf
      obtain ⟨hmem, hp⟩ := List.mem_filter.mp hf
      obtain ⟨hname, hclosed⟩ : f.dir = (config.group gi).name ∧
          isClosedSegment env.active f = true := by simpa using hp
      have hsegment := isClosedSegment_name hclosed
      rw [eraseAll_files, List.mem_filter, decide_eq_true_eq,
        mem_erasedPaths_of_segment hsegment] at hmem
      obtain ⟨hfile, hleft⟩ := hmem
      obtain ⟨seq, hseq⟩ := Option.isSome_iff_exists.mp hsegment
      obtain ⟨hr, hindex⟩ := exists_mem_retentionOrder hregular hfile hclosed
        (by rw [hname]; exact hdir) hseq
      refine ⟨_, List.mem_filter.mpr ⟨List.mem_filter.mpr ⟨hr, ?_⟩, ?_⟩, rfl, rfl⟩
      · exact decide_eq_true fun hrem => hleft (List.mem_map.mpr ⟨_, hrem, rfl⟩)
      · -- the directory belongs to one group only
        obtain ⟨g, hg⟩ := Option.isSome_iff_exists.mp (hregular.configured f hfile hclosed)
        rw [hindex, hg, decide_eq_true_eq, Option.some_inj]
        exact limited_group_name_inj (groupOfDir_lt hg) hlimit ((groupOfDir_name hg).trans hname)
  · exact groupBytes_le_closedGroupBytes hpaths (fun r hr => mem_retentionOrder hr) hsub gi

/-! ## What the pass reaches -/

/-- **What is asked of a retention pass.** -/
structure LimitsReached (config : RecorderConfig) (env : RetentionEnv) (s : LogStore)
    (res : RetentionResult) : Prop where
  /-- No active segment is removed. -/
  active : ∀ f ∈ s.files, (segmentSeqFromName f.name).isSome = true → f.path ∈ env.active →
    f ∈ res.store.files
  /-- No closed segment past the age limit of its group is left. -/
  age : ∀ f ∈ res.store.files, isClosedSegment env.active f = true →
    ∀ gi, groupOfDir config f.dir = some gi →
      pastMaxAge env (config.group gi) f.modifiedAt = false
  /-- The closed segments of every group are within its limit. -/
  group : ∀ gi, (config.group gi).maxBytes ≠ 0 →
    closedGroupBytes config env.active res.store gi ≤ (config.group gi).maxBytes
  /-- All files are within the limit of the log, or no closed segment is left. -/
  log : config.logMaxBytes ≠ 0 → ownedBytes res.store ≤ config.logMaxBytes ∨
    ∀ f ∈ res.store.files, isClosedSegment env.active f = false
  /-- With a segment removed only for the log, all that come before it in priority and
  number are removed. -/
  order : ∀ r ∈ res.removals, groupReason config env r.2 r.1 = false →
    ∀ f ∈ s.files, ∀ seq, isClosedSegment env.active f = true →
      segmentSeqFromName f.name = some seq →
      removedBefore (retainedFile config f seq) r.1 = true →
      f ∉ res.store.files

theorem removedBefore_weakOrder : WeakOrder removedBefore fun _ => True where
  asymm {a b} _ _ h := by
    simp only [removedBefore, gt_iff_lt, Bool.or_eq_true, decide_eq_true_eq, Bool.and_eq_true,
      Bool.or_eq_false_iff, decide_eq_false_iff_not, Bool.and_eq_false_iff,
      UInt64.lt_iff_toNat_lt] at h ⊢
    omega
  trans {a b c} _ _ _ hba hcb := by
    simp only [removedBefore, gt_iff_lt, Bool.or_eq_false_iff, decide_eq_false_iff_not,
      Bool.and_eq_false_iff, UInt64.lt_iff_toNat_lt] at hba hcb ⊢
    omega

/-- Whatever comes before a segment in priority and number stands in front of it. -/
theorem mem_passed_of_removedBefore {passed rest : List RetainedFile} {r c : RetainedFile}
    (hsplit : retentionOrder config env s = passed ++ r :: rest)
    (hc : c ∈ retentionOrder config env s) (hbefore : removedBefore c r = true) :
    c ∈ passed := by
  have hsorted := exchangeSort_pairwise removedBefore_weakOrder
    (collectClosedSegments config env.active s)
  have hsorted' : (passed ++ r :: rest).Pairwise fun a b => removedBefore b a = false := by
    rw [← hsplit]
    exact hsorted
  rw [hsplit, List.mem_append, List.mem_cons] at hc
  rcases hc with hc | rfl | hc
  · exact hc
  · exact absurd (hbefore.symm.trans (removedBefore_weakOrder.irrefl trivial)) (by simp)
  · have hlater := (List.pairwise_cons.mp (List.pairwise_append.mp hsorted').2.1).1 c hc
    exact absurd (hbefore.symm.trans hlater) (by simp)

/-- A collected segment that is out of the limits is gone. -/
theorem not_mem_store_of_removed {f : LogFile} {r : RetainedFile}
    (hname : (segmentSeqFromName f.name).isSome = true) (hpath : r.path = f.path)
    (hr : r ∈ removed (retentionLoop config env s)) :
    f ∉ (retentionEnforce config env s).store.files := by
  rw [mem_retentionEnforce_store hname]
  rintro ⟨-, hnot⟩
  exact hnot (List.mem_map.mpr ⟨r, hr, hpath⟩)

/-- A segment that is passed over stays. -/
theorem mem_store_of_passedOver {f : LogFile} (hf : f ∈ s.files)
    (hover : isPassedOver env f = true) :
    f ∈ (retentionEnforce config env s).store.files := by
  obtain ⟨hclosed, hdir⟩ := (Bool.and_eq_true _ _).mp hover
  rw [mem_retentionEnforce_store (isClosedSegment_name hclosed)]
  refine ⟨hf, fun hpath => ?_⟩
  obtain ⟨r, hr, hrpath⟩ := List.mem_map.mp hpath
  -- what is removed was collected, from a segment directory
  obtain ⟨g, -, seq, hgdir, -, -, rfl⟩ := mem_closedSegments.mp
    (mem_retentionOrder ((retentionLoop_inv config env s).sublist.subset hr))
  have hsame : g.dir = f.dir := congrArg Prod.fst hrpath
  rw [hsame] at hgdir
  rw [hgdir] at hdir
  cases hdir

/-- Active segments stay. -/
theorem retention_keeps_active {f : LogFile} (hf : f ∈ s.files)
    (hname : (segmentSeqFromName f.name).isSome = true) (hactive : f.path ∈ env.active) :
    f ∈ (retentionEnforce config env s).store.files := by
  rw [mem_retentionEnforce_store hname]
  refine ⟨hf, fun hpath => ?_⟩
  obtain ⟨r, hr, hrpath⟩ := List.mem_map.mp hpath
  obtain ⟨g, -, seq, -, -, hnot, rfl⟩ := mem_closedSegments.mp
    (mem_retentionOrder ((retentionLoop_inv config env s).sublist.subset hr))
  rw [← hrpath] at hactive
  exact hnot hactive

/-- Segments past the age limit of their group go, where they are collected. -/
theorem retention_age (hregular : RegularStore config env s) {f : LogFile}
    (hf : f ∈ (retentionEnforce config env s).store.files)
    (hclosed : isClosedSegment env.active f = true) (hdir : isSegmentDirName f.dir = true) {gi : ℕ}
    (hgroup : groupOfDir config f.dir = some gi) :
    pastMaxAge env (config.group gi) f.modifiedAt = false := by
  by_contra hage
  have hname := isClosedSegment_name hclosed
  obtain ⟨seq, hseq⟩ := Option.isSome_iff_exists.mp hname
  have hmem := ((mem_retentionEnforce_store hname).mp hf).1
  obtain ⟨hr, hindex⟩ := exists_mem_retentionOrder hregular hmem hclosed hdir hseq
  refine not_mem_store_of_removed hname (retainedFile_path config f seq) ?_ hf
  rw [removed_eq_filter hregular.unlinks, List.mem_filter]
  refine ⟨hr, ?_⟩
  unfold isOutOfLimits outOfLimits
  rw [hindex, hgroup]
  simp [retainedFile, Bool.not_eq_false _ ▸ hage]

/-- The closed segments behind the pass are those behind its loop. -/
theorem closedGroupBytes_retentionEnforce (gi : ℕ) :
    closedGroupBytes config env.active (retentionEnforce config env s).store gi =
      closedGroupBytes config env.active
        (eraseAll env s (removed (retentionLoop config env s))) gi := by
  unfold closedGroupBytes
  rw [retentionEnforce_filter config env s fun f hf =>
    isClosedSegment_name ((Bool.and_eq_true _ _).mp hf).2]

/-- The closed segments of every group that is collected end within its limit. -/
theorem retention_group (hregular : RegularStore config env s) {gi : ℕ}
    (hlimit : (config.group gi).maxBytes ≠ 0)
    (hdir : isSegmentDirName (config.group gi).name = true) :
    closedGroupBytes config env.active (retentionEnforce config env s).store gi ≤
      (config.group gi).maxBytes := by
  have hgroups := retentionStart_groupBytes config env s
  have hinv := retentionLoop_inv config env s
  rw [closedGroupBytes_retentionEnforce,
    closedGroupBytes_eraseAll hregular hinv.sublist hlimit hdir]
  -- the running count of the group ends within the limit
  by_contra hover
  have htracked : (config.group gi).maxBytes < (retentionLoop config env s).groupBytes gi := by
    rw [hinv.groupBytes]
    exact Nat.lt_of_not_le hover
  have hall := removed_of_group_over rfl hgroups hlimit _ (List.prefix_refl _) htracked
  rw [removable_eq_self fun f _ => hregular.unlinks f.path, ← retentionLoop_eq] at hall
  omega

/-- The closed segments of a group that is passed over stay what they are. -/
theorem closedGroupBytes_of_passedOver {gi : ℕ}
    (hdir : isSegmentDirName (config.group gi).name = false) :
    closedGroupBytes config env.active (retentionEnforce config env s).store gi =
      closedGroupBytes config env.active s gi := by
  rw [closedGroupBytes_retentionEnforce]
  unfold closedGroupBytes
  rw [eraseAll_files, List.filter_filter]
  congr 1
  refine List.filter_congr fun f hf => ?_
  cases hclosed : decide (f.dir = (config.group gi).name) && isClosedSegment env.active f with
  | false => rw [Bool.false_and]
  | true =>
    rw [Bool.true_and, decide_eq_true_eq]
    obtain ⟨hname, hclosed⟩ := (Bool.and_eq_true _ _).mp hclosed
    have hover : isPassedOver env f = true := by
      rw [isPassedOver, hclosed, of_decide_eq_true hname, hdir]
      rfl
    have hsegment := isClosedSegment_name hclosed
    rw [mem_erasedPaths_of_segment hsegment]
    exact ((mem_retentionEnforce_store hsegment).mp (mem_store_of_passedOver hf hover)).2

/-- What is removed stays removed. -/
theorem removed_of_passed {passed rest : List RetainedFile} {c : RetainedFile}
    (hsplit : retentionOrder config env s = passed ++ rest)
    (hc : c ∈ removed (stateAfter config env (retentionStart config env s) passed)) :
    c ∈ removed (retentionLoop config env s) := by
  obtain ⟨r, hr, rfl⟩ := List.mem_map.mp hc
  obtain ⟨front, behind, hpassed, h⟩ := (mem_removals_stateAfter rfl passed r).mp hr
  have hlonger : retentionOrder config env s = front ++ r.1 :: (behind ++ rest) := by
    rw [hsplit, hpassed, List.append_assoc, List.cons_append]
  exact List.mem_map_of_mem ((mem_removals_stateAfter rfl _ r).mpr ⟨front, _, hlonger, h⟩)

/-- A segment goes for its group: it is too old, or the group from it on is too large. -/
def groupOutOfLimits (config : RecorderConfig) (env : RetentionEnv) (r : RetainedFile)
    (rest : List RetainedFile) : Bool :=
  match r.groupIndex with
  | none => false
  | some gi =>
    (decide ((config.group gi).maxBytes ≠ 0) &&
      decide ((config.group gi).maxBytes < collectedGroupBytes (r :: rest) gi)) ||
    pastMaxAge env (config.group gi) r.modifiedAt

/-- What a group has in the store when the loop comes to one of its segments is what it has from
that segment on, as far as its limit is concerned. -/
theorem groupReason_eq (hregular : RegularStore config env s) {passed rest : List RetainedFile}
    {r : RetainedFile} (hsplit : retentionOrder config env s = passed ++ r :: rest) :
    groupReason config env (stateAfter config env (retentionStart config env s) passed).store r =
      groupOutOfLimits config env r rest := by
  have hgroups := retentionStart_groupBytes config env s
  have hinv := stateAfter_inv config env rfl hgroups passed ⟨_, hsplit.symm⟩
  have hmem : r ∈ retentionOrder config env s := by
    rw [hsplit]
    exact List.mem_append_right _ (List.mem_cons_self ..)
  obtain ⟨f, hf, seq, hdir, hseq, hactive, rfl⟩ := mem_closedSegments.mp (mem_retentionOrder hmem)
  have hclosed : isClosedSegment env.active f = true := by simp [isClosedSegment, hseq, hactive]
  obtain ⟨-, hindex⟩ := exists_mem_retentionOrder hregular hf hclosed hdir hseq
  obtain ⟨gi, hgi⟩ := Option.isSome_iff_exists.mp (hregular.configured f hf hclosed)
  rw [hgi] at hindex
  have hover : (decide ((config.group gi).maxBytes ≠ 0) && decide ((config.group gi).maxBytes <
        closedGroupBytes config env.active
          (stateAfter config env (retentionStart config env s) passed).store gi)) =
      (decide ((config.group gi).maxBytes ≠ 0) && decide ((config.group gi).maxBytes <
        collectedGroupBytes (retainedFile config f seq :: rest) gi)) := by
    by_cases hlimit : (config.group gi).maxBytes = 0
    · simp [hlimit]
    · have hclosedBytes : closedGroupBytes config env.active
          (stateAfter config env (retentionStart config env s) passed).store gi =
          (stateAfter config env (retentionStart config env s) passed).groupBytes gi := by
        rw [hinv.groupBytes, hinv.store]
        exact closedGroupBytes_eraseAll hregular
          (hinv.sublist.trans (List.IsPrefix.sublist ⟨_, hsplit.symm⟩)) hlimit
          (by rw [groupOfDir_name hgi]; exact hdir)
      rw [hclosedBytes, decide_eq_decide.mpr (groupBytes_over_iff rfl hgroups
        (fun g _ => hregular.unlinks g.path) hsplit hlimit)]
  unfold groupReason groupOutOfLimits
  rw [hindex, show (retainedFile config f seq).dirName = f.dir from rfl, hgi]
  simp only [hover, Bool.or_comm]

/-- A removal with nothing but the total for a reason is of a segment that goes only for the
log. -/
theorem log_only_of_removal (hregular : RegularStore config env s) {r : RetainedFile × LogStore}
    (hr : r ∈ (retentionEnforce config env s).removals)
    (hreason : groupReason config env r.2 r.1 = false) :
    ∃ passed rest, retentionOrder config env s = passed ++ r.1 :: rest ∧
      config.logMaxBytes ≠ 0 ∧ config.logMaxBytes < countStoreBytes s - retainedBytes passed ∧
      groupOutOfLimits config env r.1 rest = false := by
  rw [retentionEnforce_removals, retentionLoop_eq] at hr
  obtain ⟨passed, rest, hsplit, -, hwants, hstore⟩ := (mem_removals_stateAfter rfl _ r).mp hr
  have hgroups := retentionStart_groupBytes config env s
  have hprefix : passed <+: retentionOrder config env s := ⟨_, hsplit.symm⟩
  rw [hstore] at hreason
  obtain ⟨hlimit, htotal⟩ : config.logMaxBytes ≠ 0 ∧ config.logMaxBytes <
      (stateAfter config env (retentionStart config env s) passed).total :=
    (retentionWants_reason hsplit hwants).resolve_right (by simp [hreason])
  have hremoved := removed_of_total_over rfl hgroups hlimit passed hprefix (.inl htotal)
  rw [removable_eq_self fun g _ => hregular.unlinks g.path] at hremoved
  rw [(stateAfter_inv config env rfl hgroups passed hprefix).total, hremoved] at htotal
  exact ⟨passed, rest, hsplit, hlimit, htotal, (groupReason_eq hregular hsplit).symm.trans hreason⟩

/-- A segment that goes only for the log goes last of those before it. -/
theorem retention_order (hregular : RegularStore config env s) {passed rest : List RetainedFile}
    {r : RetainedFile} (hsplit : retentionOrder config env s = passed ++ r :: rest)
    (hlimit : config.logMaxBytes ≠ 0)
    (htotal : config.logMaxBytes < countStoreBytes s - retainedBytes passed) {f : LogFile}
    (hf : f ∈ s.files) {seq : UInt64} (hclosed : isClosedSegment env.active f = true)
    (hdir : isSegmentDirName f.dir = true) (hseq : segmentSeqFromName f.name = some seq)
    (hbefore : removedBefore (retainedFile config f seq) r = true) :
    f ∉ (retentionEnforce config env s).store.files := by
  have hall : removable env passed = passed := removable_eq_self fun g _ => hregular.unlinks g.path
  -- it was the total that was above its limit, so everything in front of it is gone
  have hremoved := removed_of_total_over rfl (retentionStart_groupBytes config env s) hlimit
    passed ⟨_, hsplit.symm⟩ (.inr (by rw [hall]; exact htotal))
  rw [hall] at hremoved
  have hc := (exists_mem_retentionOrder hregular hf hclosed hdir hseq).1
  have hpassed := mem_passed_of_removedBefore hsplit hc hbefore
  rw [← hremoved] at hpassed
  exact not_mem_store_of_removed (isClosedSegment_name hclosed) (retainedFile_path config f seq)
    (removed_of_passed hsplit hpassed)

/-- With all collected segments gone and none passed over no closed segment is left, and the
other way round. -/
theorem removed_all_iff (hregular : RegularStore config env s) :
    (removed (retentionLoop config env s) = retentionOrder config env s ∧
        ∀ f ∈ s.files, isPassedOver env f = false) ↔
      ∀ f ∈ (retentionEnforce config env s).store.files,
        isClosedSegment env.active f = false := by
  constructor
  · rintro ⟨hall, hnone⟩ f hf
    by_contra hclosed
    rw [Bool.not_eq_false] at hclosed
    have hname := isClosedSegment_name hclosed
    obtain ⟨seq, hseq⟩ := Option.isSome_iff_exists.mp hname
    obtain ⟨hfile, hleft⟩ := (mem_retentionEnforce_store hname).mp hf
    have hdir : isSegmentDirName f.dir = true := by
      have hnot := hnone f hfile
      rwa [isPassedOver, hclosed, Bool.true_and, Bool.not_eq_false'] at hnot
    obtain ⟨hr, -⟩ := exists_mem_retentionOrder hregular hfile hclosed hdir hseq
    rw [← hall] at hr
    exact hleft (List.mem_map.mpr ⟨_, hr, rfl⟩)
  · intro hnone
    constructor
    · refine (retentionLoop_inv config env s).sublist.eq_of_length_le ?_
      have hnodup := (retentionOrder_paths_nodup config env s).of_map
      apply (List.subperm_of_subset hnodup ?_).length_le
      intro r hr
      by_contra hnot
      obtain ⟨f, hf, seq, -, hseq, hactive, rfl⟩ := mem_closedSegments.mp (mem_retentionOrder hr)
      have hname : (segmentSeqFromName f.name).isSome = true := by rw [hseq]; rfl
      -- the file is still there, and closed
      have hmem : f ∈ (retentionEnforce config env s).store.files := by
        rw [mem_retentionEnforce_store hname]
        refine ⟨hf, fun hpath => ?_⟩
        obtain ⟨r, hrem, hrpath⟩ := List.mem_map.mp hpath
        have hsame := List.inj_on_of_nodup_map (retentionOrder_paths_nodup config env s)
          ((retentionLoop_inv config env s).sublist.subset hrem) hr hrpath
        rw [hsame] at hrem
        exact hnot hrem
      have hopen := hnone f hmem
      simp [isClosedSegment, hname, hactive] at hopen
    · intro f hf
      by_contra hover
      rw [Bool.not_eq_false] at hover
      have hopen := hnone f (mem_store_of_passedOver hf hover)
      rw [((Bool.and_eq_true _ _).mp hover).1] at hopen
      cases hopen

/-! ## What stays -/

variable (config env s) in
/-- The segments out of the limits. -/
def outOfLimitsSegments : List RetainedFile :=
  (retentionOrder config env s).filter
    (isOutOfLimits config env (countStoreBytes s) (retentionOrder config env s))

variable (config env s) in
/-- The files of the store but the segments out of the limits and their indexes. -/
def storeLeft : LogStore where
  files := s.files.filter fun f =>
    !((outOfLimitsSegments config env s).flatMap (erasedPaths env)).contains f.path
  paths_nodup := s.paths_nodup.sublist (List.filter_sublist.map _)

variable (config env s) in
/-- The text of the new `state/boots`, with the boots of the segments that stay.
SOURCE: recorder.c:2564-2567, 2719-2763 -/
def newBootsText : Option Bytes :=
  if env.bootsWritten then
    env.dumpBoots
      (bootRegistryRebuildFromSegments (scannedSegments (storeLeft config env s))).boots
  else none

variable (config env s) in
/-- The bytes the recorder has on disk behind a pass: the files that stay, with the new
`state/boots` in place of the old one where a segment went. -/
def bytesLeft : ℕ :=
  if outOfLimitsSegments config env s = [] then ownedBytes s
  else
    match newBootsText config env s with
    | none => ownedBytes (storeLeft config env s)
    | some text =>
      sizeSum ((storeLeft config env s).files.filter fun f =>
        isOwned f && decide (f.path ≠ (stateDirName, bootsFileName))) + text.length

theorem LogStore.eq_of_files {a b : LogStore} (h : a.files = b.files) : a = b := by
  cases a
  cases b
  cases h
  rfl

/-- The bytes behind a write of `state/boots`. -/
theorem ownedBytes_persistBootState (left : LogStore) (boots : BootRegistry) :
    ownedBytes (persistBootState env left boots) =
      match if env.bootsWritten then env.dumpBoots boots.boots else none with
      | none => ownedBytes left
      | some text =>
        sizeSum (left.files.filter fun f =>
          isOwned f && decide (f.path ≠ (stateDirName, bootsFileName))) + text.length := by
  unfold persistBootState
  cases hdump : env.dumpBoots boots.boots with
  | none => simp
  | some text =>
    cases hwritten : env.bootsWritten with
    | false => simp
    | true =>
      have howned : isOwned ⟨stateDirName, bootsFileName, text.length, env.now, none⟩ = true := rfl
      simp only [if_true, ownedBytes, LogStore.put, LogStore.erase, List.filter_append,
        List.filter_filter, sizeSum_append]
      rw [List.filter_cons, howned]
      simp only [if_true, List.filter_nil, sizeSum_cons, sizeSum_nil, Nat.add_zero]
      rfl

/-- **The bytes behind a pass.** -/
theorem ownedBytes_retentionEnforce (hok : ∀ path, env.unlinkOk path = true) :
    ownedBytes (retentionEnforce config env s).store = bytesLeft config env s := by
  have hremoved : removed (retentionLoop config env s) = outOfLimitsSegments config env s :=
    removed_eq_filter hok
  have hstore : (retentionLoop config env s).store =
      eraseAll env s (outOfLimitsSegments config env s) := by
    rw [← hremoved]
    exact (retentionLoop_inv config env s).store
  have hempty : (retentionLoop config env s).removals.isEmpty = true ↔
      outOfLimitsSegments config env s = [] := by
    rw [← hremoved, List.isEmpty_iff, removed, List.map_eq_nil_iff]
  unfold retentionEnforce bytesLeft
  by_cases hnone : outOfLimitsSegments config env s = []
  · simp only [hempty.mpr hnone, if_true, if_pos hnone]
    rw [hstore, hnone]
    rfl
  · have hleft : (retentionLoop config env s).store = storeLeft config env s := by
      rw [hstore]
      apply LogStore.eq_of_files
      rw [eraseAll_files, storeLeft]
      refine List.filter_congr fun f _ => ?_
      rw [List.contains_eq_mem, decide_not]
    simp only [Bool.eq_false_iff.mpr (mt hempty.mp hnone), Bool.false_eq_true, if_false,
      if_neg hnone, hleft, ownedBytes_persistBootState]
    rfl

/-! ## The result -/

/-- **When retention reaches its limits**, for the segments it passes over and for the bytes that
stay. -/
structure LimitsReachable (config : RecorderConfig) (env : RetentionEnv) (s : LogStore) :
    Prop where
  /-- No segment that is passed over is past the age limit of its group. -/
  age : ∀ f ∈ s.files, isPassedOver env f = true → ∀ gi, groupOfDir config f.dir = some gi →
    pastMaxAge env (config.group gi) f.modifiedAt = false
  /-- A group whose directory is passed over is within its limit. -/
  group : ∀ gi, (config.group gi).maxBytes ≠ 0 →
    isSegmentDirName (config.group gi).name = false →
    closedGroupBytes config env.active s gi ≤ (config.group gi).maxBytes
  /-- No segment that is passed over comes before one that goes only for the log. -/
  order : ∀ passed r rest, retentionOrder config env s = passed ++ r :: rest →
    config.logMaxBytes ≠ 0 → config.logMaxBytes < countStoreBytes s - retainedBytes passed →
    groupOutOfLimits config env r rest = false →
    ∀ f ∈ s.files, isPassedOver env f = true → ∀ seq, segmentSeqFromName f.name = some seq →
      removedBefore (retainedFile config f seq) r = false
  /-- What stays is within the limit of the log, or no closed segment stays. -/
  log : config.logMaxBytes ≠ 0 → bytesLeft config env s ≤ config.logMaxBytes ∨
    outOfLimitsSegments config env s = retentionOrder config env s ∧
      ∀ f ∈ s.files, isPassedOver env f = false

/-- The limit of the log, on the input. -/
theorem retention_log_iff (hregular : RegularStore config env s) :
    (ownedBytes (retentionEnforce config env s).store ≤ config.logMaxBytes ∨
        ∀ f ∈ (retentionEnforce config env s).store.files,
          isClosedSegment env.active f = false) ↔
      (bytesLeft config env s ≤ config.logMaxBytes ∨
        outOfLimitsSegments config env s = retentionOrder config env s ∧
          ∀ f ∈ s.files, isPassedOver env f = false) := by
  have hremoved : removed (retentionLoop config env s) = outOfLimitsSegments config env s :=
    removed_eq_filter hregular.unlinks
  rw [ownedBytes_retentionEnforce hregular.unlinks, ← removed_all_iff hregular, hremoved]

/-- A segment that goes only for the log is removed, and with nothing but the total for a
reason. -/
theorem removal_of_log_only (hregular : RegularStore config env s)
    {passed rest : List RetainedFile} {r : RetainedFile}
    (hsplit : retentionOrder config env s = passed ++ r :: rest) (hlimit : config.logMaxBytes ≠ 0)
    (htotal : config.logMaxBytes < countStoreBytes s - retainedBytes passed)
    (hgroup : groupOutOfLimits config env r rest = false) :
    ∃ store, (r, store) ∈ (retentionEnforce config env s).removals ∧
      groupReason config env store r = false := by
  have hwants := retentionWants_iff config env rfl (retentionStart_groupBytes config env s)
    (fun g _ => hregular.unlinks g.path) hsplit
  have hout : outOfLimits config env (retentionStart config env s).total passed r rest = true := by
    simp [outOfLimits, hlimit,
      show (retentionStart config env s).total = countStoreBytes s from rfl, htotal]
  rw [hout] at hwants
  refine ⟨_, ?_, (groupReason_eq hregular hsplit).trans hgroup⟩
  rw [retentionEnforce_removals]
  exact (mem_removals_stateAfter rfl _ _).mpr
    ⟨passed, rest, hsplit, hregular.unlinks r.path, hwants, rfl⟩

/-- **Retention reaches its limits in priority order** exactly where they can be reached, for
every regular store. -/
theorem retention_reaches_limits_iff (hregular : RegularStore config env s) :
    LimitsReached config env s (retentionEnforce config env s) ↔ LimitsReachable config env s := by
  constructor
  · intro h
    constructor
    · intro f hf hover gi hgroup
      exact h.age f (mem_store_of_passedOver hf hover) ((Bool.and_eq_true _ _).mp hover).1 gi hgroup
    · intro gi hlimit hdir
      have hbytes := h.group gi hlimit
      rwa [closedGroupBytes_of_passedOver hdir] at hbytes
    · intro passed r rest hsplit hlimit htotal hgroup f hf hover seq hseq
      by_contra hbefore
      rw [Bool.not_eq_false] at hbefore
      obtain ⟨store, hr, hreason⟩ := removal_of_log_only hregular hsplit hlimit htotal hgroup
      exact h.order _ hr hreason f hf seq ((Bool.and_eq_true _ _).mp hover).1 hseq hbefore
        (mem_store_of_passedOver hf hover)
    · exact fun hlimit => (retention_log_iff hregular).mp (h.log hlimit)
  · intro h
    have hdirOf : ∀ f, isClosedSegment env.active f = true →
        isSegmentDirName f.dir = true ∨ isPassedOver env f = true := by
      intro f hclosed
      rw [isPassedOver, hclosed, Bool.true_and]
      cases isSegmentDirName f.dir with
      | true => exact .inl rfl
      | false => exact .inr rfl
    constructor
    · exact fun f hf hname hactive => retention_keeps_active hf hname hactive
    · intro f hf hclosed gi hgroup
      rcases hdirOf f hclosed with hdir | hover
      · exact retention_age hregular hf hclosed hdir hgroup
      · have hfile := ((mem_retentionEnforce_store (isClosedSegment_name hclosed)).mp hf).1
        exact h.age f hfile hover gi hgroup
    · intro gi hlimit
      cases hdir : isSegmentDirName (config.group gi).name with
      | true => exact retention_group hregular hlimit hdir
      | false =>
        rw [closedGroupBytes_of_passedOver hdir]
        exact h.group gi hlimit hdir
    · exact fun hlimit => (retention_log_iff hregular).mpr (h.log hlimit)
    · intro r hr hreason f hf seq hclosed hseq hbefore
      obtain ⟨passed, rest, hsplit, hlimit, htotal, hgroup⟩ :=
        log_only_of_removal hregular hr hreason
      rcases hdirOf f hclosed with hdir | hover
      · exact retention_order hregular hsplit hlimit htotal hf hclosed hdir hseq hbefore
      · have hnot := h.order passed r.1 rest hsplit hlimit htotal hgroup f hf hover seq hseq
        exact absurd (hbefore.symm.trans hnot) (by simp)

/-- Two segments of 200 bytes of one boot, with the `state/boots` of an empty store. -/
def bootsAndPair : LogStore where
  files := [groupSegment 1 200, groupSegment 2 200, ⟨stateDirName, bootsFileName, 2, 0, none⟩]
  paths_nodup := by decide +kernel

/-- A closed segment in the directory of a group named `state`. -/
def stateSegment : LogFile := { groupSegment 3 100 with dir := stateDirName }

/-- The groups `a` and `state`, the second with limits of its own. -/
def stateGroupLog : RecorderConfig where
  groups := [{ name := [97] }, { name := stateDirName, maxBytes := 150, maxAgeSec := 20 }]
  priorityToGroup p := if p.val = 7 then 1 else 0
  logMaxBytes := 450
  priorityToGroup_lt p := by
    revert p
    decide
  names_nodup := by decide

/-- The two segments with a third one that is passed over. -/
def pairAndStateSegment : LogStore where
  files := bootsAndPair.files ++ [stateSegment]
  paths_nodup := by decide +kernel

/-- The limit of the log takes the first segment, and the segment that is passed over respects
the limits of its group, so that all limits are reached. -/
theorem retention_reaches_limits_pair :
    LimitsReached stateGroupLog quietEnv pairAndStateSegment
      (retentionEnforce stateGroupLog quietEnv pairAndStateSegment) := by
  have hregular : RegularStore stateGroupLog quietEnv pairAndStateSegment :=
    ⟨by decide +kernel, by decide +kernel, by decide +kernel, fun _ => rfl⟩
  have honly : ∀ f ∈ pairAndStateSegment.files, isPassedOver quietEnv f = true →
      f = stateSegment := by
    decide +kernel
  refine (retention_reaches_limits_iff hregular).mpr ⟨?_, ?_, ?_, fun _ => .inl (by decide +kernel)⟩
  · intro f hf hover gi hgroup
    rw [honly f hf hover] at hgroup ⊢
    have hstate : groupOfDir stateGroupLog stateSegment.dir = some 1 := by decide +kernel
    rw [hstate] at hgroup
    cases hgroup
    decide +kernel
  · intro gi hlimit _
    rcases gi with _ | _ | gi
    · exact absurd rfl hlimit
    · decide +kernel
    · exact absurd rfl hlimit
  · intro passed r rest hsplit _ _ _ f hf hover seq hseq
    have hlater : ∀ r ∈ retentionOrder stateGroupLog quietEnv pairAndStateSegment,
        removedBefore (retainedFile stateGroupLog stateSegment 3) r = false := by
      decide +kernel
    have hthree : segmentSeqFromName stateSegment.name = some 3 := by decide +kernel
    rw [honly f hf hover] at hseq ⊢
    rw [hthree] at hseq
    cases hseq
    exact hlater r (by rw [hsplit]; exact List.mem_append_right _ (List.mem_cons_self ..))

/-- With a limit of 210 bytes one segment goes, and the new `state/boots` of 77 bytes brings the
store above the limit again, with the other segment left. -/
theorem bootsAndPair_over_limit :
    RegularStore (limitedLog 210) quietEnv bootsAndPair ∧
      ¬ LimitsReached (limitedLog 210) quietEnv bootsAndPair
        (retentionEnforce (limitedLog 210) quietEnv bootsAndPair) := by
  refine ⟨⟨by decide +kernel, by decide +kernel, by decide +kernel, fun _ => rfl⟩, fun h => ?_⟩
  have hlog := h.log (by decide)
  revert hlog
  decide +kernel

end Outcome

end Recorder.Analysis
