import Recorder.Analysis.RetentionLoop
import Recorder.Analysis.SegmentSeq

/-!
# The store of a retention pass

What the pass collects are the first 4096 closed segments in the order of `readdir`
(`collectClosedSegments_eq`). Removing segments takes their files and indexes out of the
store (`eraseAll_files`), and the bytes the pass counts for a group are never more than the
closed segments the group really has (`groupBytes_le_closedGroupBytes`).
-/

set_option autoImplicit false

namespace Recorder.Analysis

open Recorder.Model Recorder.Lib

/-! ## What the limits are about -/

/-- The files of the recorder: those in the segment directories and the state directory. -/
def isOwned (f : LogFile) : Bool := isSegmentDirName f.dir || decide (f.dir = stateDirName)

/-- The bytes of all files of the recorder. -/
def ownedBytes (s : LogStore) : ℕ := sizeSum (s.files.filter isOwned)

/-- A segment file no writer has open. -/
def isClosedSegment (active : List (Bytes × Bytes)) (f : LogFile) : Bool :=
  (segmentSeqFromName f.name).isSome && !pathIsActiveSegment active f.path

/-- The bytes of a group's closed `.seg` files. -/
def closedGroupBytes (config : RecorderConfig) (active : List (Bytes × Bytes)) (s : LogStore)
    (gi : ℕ) : ℕ :=
  sizeSum (s.files.filter fun f =>
    decide (f.dir = (config.group gi).name) && isClosedSegment active f)

@[simp] theorem sizeSum_nil : sizeSum [] = 0 := rfl

@[simp] theorem sizeSum_cons (f : LogFile) (files : List LogFile) :
    sizeSum (f :: files) = f.size + sizeSum files := by
  simp [sizeSum]

@[simp] theorem sizeSum_append (a b : List LogFile) :
    sizeSum (a ++ b) = sizeSum a + sizeSum b := by
  simp [sizeSum]

theorem sizeSum_perm {a b : List LogFile} (h : a.Perm b) : sizeSum a = sizeSum b :=
  (h.map _).sum_nat

theorem isSegmentDirName_state : isSegmentDirName stateDirName = false := by decide

/-- `count_store_bytes` counts the files of the recorder. -/
theorem countStoreBytes_eq_ownedBytes (s : LogStore) : countStoreBytes s = ownedBytes s := by
  unfold countStoreBytes ownedBytes
  induction s.files with
  | nil => rfl
  | cons f files ih =>
    -- no directory is both
    by_cases hstate : f.dir = stateDirName
    · have hsegment : isSegmentDirName f.dir = false := by
        rw [hstate]
        exact isSegmentDirName_state
      simp [hstate, isOwned, isSegmentDirName_state] at ih ⊢
      omega
    · by_cases hsegment : isSegmentDirName f.dir = true
      · simp [hstate, isOwned, hsegment] at ih ⊢
        omega
      · simp [hstate, isOwned, hsegment] at ih ⊢
        omega

/-! ## Collecting -/

/-- The closed segments of the store, as they are collected. -/
def closedSegments (config : RecorderConfig) (active : List (Bytes × Bytes))
    (files : List LogFile) : List RetainedFile :=
  (files.filter fun f => isSegmentDirName f.dir).filterMap fun f =>
    (segmentSeqFromName f.name).bind fun seq =>
      if pathIsActiveSegment active f.path then none else some (retainedFile config f seq)

/-- **What is collected** are the first closed segments, as many as fit. -/
theorem collectClosedSegments_eq (config : RecorderConfig) (active : List (Bytes × Bytes))
    (s : LogStore) :
    collectClosedSegments config active s =
      (closedSegments config active s.files).take maxRetainedFiles := by
  have hfold : ∀ (files : List LogFile) (collected : List RetainedFile),
      files.foldl (collectStep config active) collected =
        collected ++ (files.filterMap fun f => (segmentSeqFromName f.name).bind fun seq =>
          if pathIsActiveSegment active f.path then none
          else some (retainedFile config f seq)).take
            (maxRetainedFiles - collected.length) := by
    intro files
    induction files with
    | nil => simp
    | cons f files ih =>
      intro collected
      rw [List.foldl_cons, ih]
      unfold collectStep
      by_cases hfull : collected.length ≥ maxRetainedFiles
      · have hzero : maxRetainedFiles - collected.length = 0 := Nat.sub_eq_zero_of_le hfull
        rw [if_pos hfull, hzero, List.take_zero, List.take_zero]
      · rw [if_neg hfull, List.filterMap_cons]
        cases hname : segmentSeqFromName f.name with
        | none => simp
        | some seq =>
          cases hactive : pathIsActiveSegment active f.path with
          | true => simp
          | false =>
            have hroom : maxRetainedFiles - collected.length =
                (maxRetainedFiles - (collected.length + 1)) + 1 := by omega
            simp only [Bool.false_eq_true, if_false, Option.bind_some, List.length_append,
              List.length_singleton]
            rw [hroom, List.take_succ_cons]
            simp
  exact (hfold _ []).trans (by simp [closedSegments])

theorem mem_closedSegments {config : RecorderConfig} {active : List (Bytes × Bytes)}
    {files : List LogFile} {r : RetainedFile} :
    r ∈ closedSegments config active files ↔
      ∃ f ∈ files, ∃ seq, isSegmentDirName f.dir = true ∧
        segmentSeqFromName f.name = some seq ∧ f.path ∉ active ∧ r = retainedFile config f seq := by
  unfold closedSegments
  rw [List.mem_filterMap]
  constructor
  · rintro ⟨f, hf, hr⟩
    obtain ⟨hmem, hdir⟩ := List.mem_filter.mp hf
    obtain ⟨seq, hseq, hsome⟩ := Option.bind_eq_some_iff.mp hr
    cases hactive : pathIsActiveSegment active f.path with
    | true =>
      rw [hactive, if_pos rfl] at hsome
      cases hsome
    | false =>
      rw [hactive, if_neg Bool.false_ne_true, Option.some_inj] at hsome
      rw [pathIsActiveSegment_eq_false] at hactive
      exact ⟨f, hmem, seq, hdir, hseq, hactive, hsome.symm⟩
  · rintro ⟨f, hf, seq, hdir, hseq, hactive, rfl⟩
    refine ⟨f, List.mem_filter.mpr ⟨hf, hdir⟩, ?_⟩
    rw [← pathIsActiveSegment_eq_true] at hactive
    rw [hseq, Option.bind_some, if_neg hactive]

@[simp] theorem retainedFile_path (config : RecorderConfig) (f : LogFile) (seq : UInt64) :
    (retainedFile config f seq).path = f.path := rfl

/-- The group of a collected segment is the one its directory is named after. -/
theorem groupOfDir_name {config : RecorderConfig} {dir : Bytes} {gi : ℕ}
    (h : groupOfDir config dir = some gi) : (config.group gi).name = dir := by
  simpa using List.find?_some h

theorem retainedFile_groupIndex {config : RecorderConfig} {f : LogFile} {seq : UInt64} {gi : ℕ}
    (h : (retainedFile config f seq).groupIndex = some gi) : groupOfDir config f.dir = some gi := by
  obtain ⟨_, _, hgroup⟩ := Option.bind_eq_some_iff.mp h
  exact hgroup

/-- Collected segments have distinct paths. -/
theorem closedSegments_paths_nodup (config : RecorderConfig) (active : List (Bytes × Bytes))
    (s : LogStore) : ((closedSegments config active s.files).map (·.path)).Nodup := by
  have hsub : ((closedSegments config active s.files).map (·.path)).Sublist
      (s.files.map (·.path)) := by
    unfold closedSegments
    generalize s.files = files
    induction files with
    | nil => exact List.Sublist.refl _
    | cons f files ih =>
      by_cases hdir : isSegmentDirName f.dir = true
      · rw [List.filter_cons, if_pos hdir, List.filterMap_cons]
        cases hname : segmentSeqFromName f.name with
        | none => exact ih.cons _
        | some seq =>
          cases hactive : pathIsActiveSegment active f.path with
          | true =>
            simp only [Option.bind_some, if_true]
            exact ih.cons _
          | false =>
            simp only [Option.bind_some, Bool.false_eq_true, if_false]
            exact ih.cons_cons _
      · rw [List.filter_cons, if_neg hdir]
        exact ih.cons _
  exact s.paths_nodup.sublist hsub

/-! ## Removing -/

/-- An index is no segment. -/
theorem segmentSeqFromName_indexName (seq : UInt64) :
    segmentSeqFromName (indexName seq) = none := by
  have hread := strtoull_decimal_append seq.toNat_lt [46, 105, 100, 120]
    (by simp [isDigit])
  unfold segmentSeqFromName indexName
  rw [hread]
  exact if_neg (by decide)

/-- The paths that go with a segment. -/
def erasedPaths (env : RetentionEnv) (f : RetainedFile) : List (Bytes × Bytes) :=
  f.path :: if env.unlinkOk (f.dirName, indexName f.segmentSeq) then
    [(f.dirName, indexName f.segmentSeq)] else []

theorem eraseSegment_files (env : RetentionEnv) (s : LogStore) (f : RetainedFile) :
    (eraseSegment env s f).files = s.files.filter fun g => g.path ∉ erasedPaths env f := by
  unfold eraseSegment erasedPaths
  by_cases hok : env.unlinkOk (f.dirName, indexName f.segmentSeq) = true
  · simp only [if_pos hok, LogStore.erase, List.filter_filter]
    refine List.filter_congr fun g _ => ?_
    simp [and_comm]
  · simp only [if_neg hok, LogStore.erase]
    refine List.filter_congr fun g _ => ?_
    simp

/-- **The store behind any removals** has the files whose paths did not go. -/
theorem eraseAll_files (env : RetentionEnv) (s : LogStore) (removed : List RetainedFile) :
    (eraseAll env s removed).files =
      s.files.filter fun g => g.path ∉ removed.flatMap (erasedPaths env) := by
  induction removed generalizing s with
  | nil => simp [eraseAll]
  | cons f removed ih =>
    have hrest := ih (eraseSegment env s f)
    rw [eraseAll] at hrest ⊢
    rw [List.foldl_cons, hrest, eraseSegment_files, List.filter_filter]
    refine List.filter_congr fun g _ => ?_
    simp [Bool.and_comm]

/-- Of the segments, just the removed ones go. -/
theorem mem_erasedPaths_of_segment {env : RetentionEnv} {removed : List RetainedFile}
    {g : LogFile} (hname : (segmentSeqFromName g.name).isSome = true) :
    g.path ∈ removed.flatMap (erasedPaths env) ↔ g.path ∈ removed.map (·.path) := by
  rw [List.mem_flatMap, List.mem_map]
  refine exists_congr fun f => and_congr_right fun _ => ?_
  unfold erasedPaths
  rw [List.mem_cons]
  constructor
  · rintro (h | h)
    · exact h.symm
    · -- the index has another name
      split at h
      · have hidx : g.name = indexName f.segmentSeq :=
          congrArg Prod.snd (List.mem_singleton.mp h)
        rw [hidx, segmentSeqFromName_indexName] at hname
        exact absurd hname (by simp)
      · exact absurd h (by simp)
  · exact fun h => .inl h.symm

/-! ## Counting by path -/

/-- What is found in another list by key and size does not sum up to more than it. -/
theorem sum_map_le_of_keys {α β κ : Type} {a : List α} {b : List β} (key : α → κ)
    (key' : β → κ) {size : α → ℕ} {size' : β → ℕ} (hnodup : (a.map key).Nodup)
    (hfound : ∀ x ∈ a, ∃ y ∈ b, key' y = key x ∧ size' y = size x) :
    (a.map size).sum ≤ (b.map size').sum := by
  have hsub : (a.map fun x => (key x, size x)).Subperm (b.map fun y => (key' y, size' y)) := by
    apply List.subperm_of_subset
    · refine List.Nodup.of_map Prod.fst ?_
      rw [List.map_map]
      exact hnodup
    · intro p hp
      obtain ⟨x, hx, rfl⟩ := List.mem_map.mp hp
      obtain ⟨y, hy, hkey, hsize⟩ := hfound x hx
      exact List.mem_map.mpr ⟨y, hy, by rw [hkey, hsize]⟩
  obtain ⟨l, hperm, hl⟩ := hsub
  have hsum := (hl.map Prod.snd).sum_le_sum (fun _ _ => Nat.zero_le _)
  rw [(hperm.map Prod.snd).sum_nat] at hsum
  simpa [List.map_map, Function.comp_def] using hsum

/-- Removing a part leaves the other part. -/
theorem collectedGroupBytes_sub {files removed : List RetainedFile} (hnodup : files.Nodup)
    (hsub : removed.Sublist files) (gi : ℕ) :
    collectedGroupBytes files gi - collectedGroupBytes removed gi =
      collectedGroupBytes (files.filter (· ∉ removed)) gi := by
  have hperm : (removed ++ files.filter (· ∉ removed)).Perm files := by
    have hpart := List.filter_append_perm (· ∈ removed) files
    have hremoved : (files.filter (· ∈ removed)).Perm removed := by
      refine (List.perm_ext_iff_of_nodup (hnodup.filter _) (hnodup.sublist hsub)).mpr fun f => ?_
      rw [List.mem_filter, decide_eq_true_eq]
      exact ⟨fun h => h.2, fun h => ⟨hsub.subset h, h⟩⟩
    refine (hremoved.symm.append_right _).trans ?_
    simpa using hpart
  rw [← collectedGroupBytes_perm hperm, collectedGroupBytes_append]
  omega

/-- **What the loop counts for a group** is no more than the closed segments the group has
at that moment. -/
theorem groupBytes_le_closedGroupBytes {config : RecorderConfig} {env : RetentionEnv}
    {s : LogStore} {files removed : List RetainedFile} (hpaths : (files.map (·.path)).Nodup)
    (hfiles : ∀ f ∈ files, f ∈ closedSegments config env.active s.files)
    (hsub : removed.Sublist files) (gi : ℕ) :
    collectedGroupBytes files gi - collectedGroupBytes removed gi ≤
      closedGroupBytes config env.active (eraseAll env s removed) gi := by
  rw [collectedGroupBytes_sub hpaths.of_map hsub, collectedGroupBytes_eq]
  have hkept : ((files.filter (· ∉ removed)).filter fun f => f.groupIndex = some gi).Sublist
      files := List.filter_sublist.trans List.filter_sublist
  apply sum_map_le_of_keys RetainedFile.path LogFile.path (hpaths.sublist (hkept.map _))
  intro k hk
  obtain ⟨hk, hgroup⟩ := List.mem_filter.mp hk
  obtain ⟨hmem, hnot⟩ := List.mem_filter.mp hk
  obtain ⟨f, hf, seq, -, hseq, hactive, rfl⟩ := mem_closedSegments.mp (hfiles k hmem)
  have hname : (segmentSeqFromName f.name).isSome = true := by rw [hseq]; rfl
  have hleft : f.path ∉ removed.flatMap (erasedPaths env) := by
    rw [mem_erasedPaths_of_segment hname]
    intro hpath
    obtain ⟨r, hr, hrpath⟩ := List.mem_map.mp hpath
    have hsame := List.inj_on_of_nodup_map hpaths (hsub.subset hr) hmem hrpath
    rw [hsame] at hr
    exact of_decide_eq_true hnot hr
  refine ⟨f, List.mem_filter.mpr ⟨?_, ?_⟩, rfl, rfl⟩
  · rw [eraseAll_files]
    exact List.mem_filter.mpr ⟨hf, decide_eq_true hleft⟩
  · have hdir := groupOfDir_name (retainedFile_groupIndex (of_decide_eq_true hgroup))
    simp [isClosedSegment, hname, hactive, hdir]

end Recorder.Analysis
