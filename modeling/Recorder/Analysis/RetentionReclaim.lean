import Recorder.Analysis.ConfigLoad
import Recorder.Analysis.RetentionOutcome

/-!
# Reclaiming space

`retention_reclaim_lower_priority` tries the collected segments of less important groups in the
order of removal, each until a reading of the free space suffices (`LoopTrace`). What is missing
from the store behind it are the segments it tried and could `unlink`.

**Main result**: `reclaim_spares_important`.
-/

set_option autoImplicit false

namespace Recorder.Analysis

open Recorder.Model Recorder.Lib

section Loop

variable {config : RecorderConfig} {env : RetentionEnv} {available : ℕ → Option UInt64}
  {priority : ℕ} {required : UInt64}

/-! ## The loop -/

/-- The segments of less important groups. -/
def lowerPriority (priority : ℕ) (files : List RetainedFile) : List RetainedFile :=
  files.filter fun f => decide (priority < f.minPriority)

/-- What the loop does from a state on: it tries a first part of the less important segments,
and stops in front of the others only behind a reading that suffices. -/
structure LoopTrace (env : RetentionEnv) (available : ℕ → Option UInt64) (priority : ℕ)
    (required : UInt64) (files : List RetainedFile) (st st' : ReclaimState)
    (tried left : List RetainedFile) : Prop where
  split : lowerPriority priority files = tried ++ left
  attempts : st'.attempts = st.attempts ++ tried
  changed : st'.changed = (st.changed || tried.any fun f => env.unlinkOk f.path)
  store : st'.retention.store = eraseAll env st.retention.store (removable env tried)
  wanted : ∀ k, k + 1 < tried.length →
    spaceSuffices available required (st.readings + k) = false
  stopped : left ≠ [] → ∃ k, tried.length = k + 1 ∧
    spaceSuffices available required (st.readings + k) = true

theorem retentionRemoveFile_store (st : RetentionState) (f : RetainedFile) :
    (retentionRemoveFile env st f).store = eraseAll env st.store (removable env [f]) := by
  unfold retentionRemoveFile
  cases hok : env.unlinkOk f.path with
  | false => simp [removable, hok, eraseAll]
  | true => simp [removable, hok, eraseAll]

theorem eraseAll_append (s : LogStore) (a b : List RetainedFile) :
    eraseAll env s (a ++ b) = eraseAll env (eraseAll env s a) b := List.foldl_append

variable (env available priority required) in
/-- **What the loop does**, whatever the readings say. -/
theorem reclaimLoop_trace (files : List RetainedFile) (st : ReclaimState) :
    ∃ tried left, LoopTrace env available priority required files st
      (reclaimLoop env available priority required files st) tried left := by
  induction files generalizing st with
  | nil => exact ⟨[], [], rfl, by simp [reclaimLoop], by simp [reclaimLoop], rfl, by simp,
      fun h => absurd rfl h⟩
  | cons f files ih =>
    unfold reclaimLoop
    by_cases hskip : f.minPriority ≤ priority
    · rw [if_pos hskip]
      obtain ⟨tried, left, htrace⟩ := ih st
      have hfilter : lowerPriority priority (f :: files) = lowerPriority priority files := by
        unfold lowerPriority
        rw [List.filter_cons_of_neg (by simpa using hskip)]
      exact ⟨tried, left, { htrace with split := hfilter.trans htrace.split }⟩
    · rw [if_neg hskip]
      have hfilter : lowerPriority priority (f :: files) = f :: lowerPriority priority files := by
        unfold lowerPriority
        rw [List.filter_cons_of_pos (by simpa using hskip)]
      have hstore := @retentionRemoveFile_store env { st.retention with total := 0 } f
      cases hspace : spaceSuffices available required st.readings with
      | true =>
        rw [if_pos rfl]
        refine ⟨[f], lowerPriority priority files, hfilter, rfl, ?_, hstore, ?_, ?_⟩
        · simp [reclaimAttempt]
        · simp
        · exact fun _ => ⟨0, rfl, hspace⟩
      | false =>
        rw [if_neg (by simp)]
        obtain ⟨tried, left, htrace⟩ := ih (reclaimAttempt env st f)
        refine ⟨f :: tried, left, ?_, ?_, ?_, ?_, ?_, ?_⟩
        · rw [hfilter, htrace.split, List.cons_append]
        · rw [htrace.attempts, reclaimAttempt, List.append_assoc, List.singleton_append]
        · rw [htrace.changed, reclaimAttempt, List.any_cons, Bool.or_assoc]
        · rw [htrace.store, reclaimAttempt, hstore, ← eraseAll_append, ← removable_append,
            List.singleton_append]
        · intro k hk
          cases k with
          | zero => exact hspace
          | succ k =>
            have hk' : k + 1 < tried.length := by simpa using hk
            have hwanted := htrace.wanted k hk'
            rwa [show (reclaimAttempt env st f).readings + k = st.readings + (k + 1) by
              simp only [reclaimAttempt]; omega] at hwanted
        · intro hleft
          obtain ⟨k, hk, hspace'⟩ := htrace.stopped hleft
          refine ⟨k + 1, by rw [List.length_cons, hk], ?_⟩
          rwa [show (reclaimAttempt env st f).readings + k = st.readings + (k + 1) by
            simp only [reclaimAttempt]; omega] at hspace'

/-- What `retention_reclaim_lower_priority` does: the trace of its loop, or nothing where the
first reading fails or suffices. -/
structure ReclaimTrace (config : RecorderConfig) (env : RetentionEnv)
    (available : ℕ → Option UInt64) (priority : ℕ) (required : UInt64) (s : LogStore)
    (out : ReclaimResult) (left : List RetainedFile) : Prop where
  split : lowerPriority priority (retentionOrder config env s) = out.attempts ++ left
  changed : out.changed = out.attempts.any fun f => env.unlinkOk f.path
  store : out.store = eraseAll env s (removable env out.attempts) ∨
    ∃ boots, out.store = persistBootState env (eraseAll env s (removable env out.attempts)) boots
  enough : ∀ k < out.attempts.length, spaceSuffices available required k = false
  stopped : left ≠ [] → available 0 = none ∨
    spaceSuffices available required out.attempts.length = true

/-- Behind a first reading that does not suffice the loop runs. -/
theorem ReclaimTrace.of_loop {config : RecorderConfig} {s : LogStore} {st st' : ReclaimState}
    {out : ReclaimResult} {tried left : List RetainedFile}
    (htrace : LoopTrace env available priority required (retentionOrder config env s) st st'
      tried left)
    (hfirst : spaceSuffices available required 0 = false) (hreadings : st.readings = 1)
    (hchanged : st.changed = false) (hattempts : st.attempts = []) (hstore : st.retention.store = s)
    (hout : out.attempts = st'.attempts) (hout' : out.changed = st'.changed)
    (hleft : out.store = st'.retention.store ∨
      ∃ boots, out.store = persistBootState env st'.retention.store boots) :
    ReclaimTrace config env available priority required s out left := by
  have htried : out.attempts = tried := by
    rw [hout, htrace.attempts, hattempts, List.nil_append]
  refine ⟨?_, ?_, ?_, fun k hk => ?_, fun hne => ?_⟩
  · rw [htried, htrace.split]
  · rw [hout', htrace.changed, hchanged, htried, Bool.false_or]
  · rw [htrace.store, hstore, ← htried] at hleft
    exact hleft
  · cases k with
    | zero => exact hfirst
    | succ k =>
      rw [Nat.add_comm, ← hreadings]
      exact htrace.wanted k (htried ▸ hk)
  · obtain ⟨k, hk, hspace⟩ := htrace.stopped hne
    rw [htried, hk, Nat.add_comm, ← hreadings]
    exact .inr hspace

variable (env available priority required) in
theorem retentionReclaimLowerPriority_trace (config : RecorderConfig) (s : LogStore) :
    ∃ left, ReclaimTrace config env available priority required s
      (retentionReclaimLowerPriority config env available priority required s) left := by
  unfold retentionReclaimLowerPriority
  split
  · next hfirst => exact ⟨_, rfl, rfl, .inl rfl, by simp, fun _ => .inl hfirst⟩
  · next bytes hfirst =>
    split
    · next henough =>
      refine ⟨_, rfl, rfl, .inl rfl, by simp, fun _ => .inr ?_⟩
      simp only [spaceSuffices, List.length_nil, hfirst]
      exact decide_eq_true henough
    · next hshort =>
      have hfirst' : spaceSuffices available required 0 = false := by
        simp only [spaceSuffices, hfirst]
        exact decide_eq_false hshort
      obtain ⟨tried, left, htrace⟩ := reclaimLoop_trace env available priority required
        (retentionOrder config env s)
        { retention := ⟨s, 0, collectedGroupBytes (retentionOrder config env s), []⟩
          readings := 1
          changed := false
          attempts := [] }
      refine ⟨left, ?_⟩
      dsimp only
      split
      · next hdid => exact .of_loop htrace hfirst' rfl rfl rfl rfl rfl hdid.symm (.inr ⟨_, rfl⟩)
      · next hdid =>
        exact .of_loop htrace hfirst' rfl rfl rfl rfl rfl (Bool.not_eq_true _ ▸ hdid).symm
          (.inl rfl)

end Loop

/-! ## The groups of a configuration -/

section Groups

variable {config : Config} (routed : RoutedGroups config.groups config.priorityToGroup)

/-- The directory of a group is found by its name. -/
theorem groupOfDir_writerConfig {i : ℕ} {g : ConfigGroup} (hg : config.groups[i]? = some g) :
    groupOfDir (writerConfig config routed) g.name = some i := by
  have hlt := (List.getElem?_eq_some_iff.1 hg).1
  obtain ⟨p, hp, -, -⟩ := routed.sharedOut.least g (List.mem_of_getElem? hg)
  have hroute : (writerConfig config routed).priorityToGroup p = i := by
    simp [writerConfig, routed.sharedOut.owner i g p hg hp]
  have hname : ((writerConfig config routed).group i).name = g.name := by
    rw [writerConfig_group routed hg]
    rfl
  have hfound : (groupOfDir (writerConfig config routed) g.name).isSome = true := by
    unfold groupOfDir
    rw [List.find?_isSome]
    exact ⟨i, List.mem_map.2 ⟨p, List.mem_finRange p, hroute⟩, decide_eq_true hname⟩
  obtain ⟨j, hj⟩ := Option.isSome_iff_exists.1 hfound
  have hsame : j = i :=
    group_name_inj (groupOfDir_lt hj) (by simpa [writerConfig] using hlt)
      ((groupOfDir_name hj).trans hname.symm)
  rw [hj, hsame]

theorem retainedFile_minPriority {f : LogFile} {g : ConfigGroup} (hg : g ∈ config.groups)
    (hdir : f.dir = g.name) (hscan : f.scan.isSome = true) (seq : UInt64) :
    (retainedFile (writerConfig config routed) f seq).minPriority = g.minPriority := by
  obtain ⟨i, hi⟩ := List.mem_iff_getElem?.1 hg
  obtain ⟨out, hout⟩ := Option.isSome_iff_exists.1 hscan
  simp only [retainedFile, hout, Option.bind_some, hdir, groupOfDir_writerConfig routed hi,
    Option.map_some, Option.getD_some, writerConfig_group routed hi]
  rfl

end Groups

/-! ## The outcome -/

/-- The store has room for its closed segments in the table, and all of them are readable and
in the directories of configured groups. -/
structure ScannableStore (config : Config) (writers : RecorderConfig) (env : RetentionEnv)
    (s : LogStore) : Prop where
  count : (closedSegments writers env.active s.files).length ≤ maxRetainedFiles
  scannable : ∀ f ∈ s.files, isClosedSegment env.active f = true → f.scan.isSome = true
  configured : ∀ f ∈ s.files, isClosedSegment env.active f = true →
    ∃ g ∈ config.groups, g.name = f.dir

/-- The loop tries a closed segment of the store, which is in the directory of the group. -/
structure AttemptAt (env : RetentionEnv) (s : LogStore) (r : RetainedFile) (f : LogFile)
    (g : ConfigGroup) : Prop where
  mem : f ∈ s.files
  closed : isClosedSegment env.active f = true
  dir : f.dir = g.name
  path : r.path = f.path
  seq : segmentSeqFromName f.name = some r.segmentSeq
  minPriority : r.minPriority = g.minPriority

/-- Decreasing minimal priority, then increasing number. -/
def InReclaimOrder (a b : RetainedFile) : Prop :=
  b.minPriority < a.minPriority ∨ a.minPriority = b.minPriority ∧ a.segmentSeq ≤ b.segmentSeq

/-- **What is asked of reclaiming space.** -/
structure SparesImportant (config : Config) (writers : RecorderConfig) (env : RetentionEnv)
    (available : ℕ → Option UInt64) (priority : ℕ) (required : UInt64) (s : LogStore)
    (out : ReclaimResult) : Prop where
  /-- Only closed segments of less important groups are tried. -/
  attempts : ∀ r ∈ out.attempts, ∃ f, ∃ g ∈ config.groups, AttemptAt env s r f g ∧
    priority < g.minPriority
  /-- So none of the entry's own group. -/
  ownGroup : ∀ p : Fin 8, p.val = priority → ∀ g ∈ config.groups, p ∈ g.priorities →
    ∀ r ∈ out.attempts, r.dirName ≠ g.name
  /-- Of the segments, those are gone that were tried and could be unlinked. -/
  removed : ∀ f ∈ s.files, (segmentSeqFromName f.name).isSome = true →
    (f ∉ out.store.files ↔ ∃ r ∈ out.attempts, r.path = f.path ∧ env.unlinkOk f.path = true)
  /-- Of the other files, the indexes of these and the old `state/boots`. -/
  others : ∀ f ∈ s.files, segmentSeqFromName f.name = none → f ∉ out.store.files →
    (∃ r ∈ out.attempts, env.unlinkOk r.path = true ∧
      f.path = (r.dirName, indexName r.segmentSeq)) ∨ f.path = (stateDirName, bootsFileName)
  /-- The attempts are a first part of all less important segments in their order; what is left
  was left for a reading. -/
  ordered : ∃ left, (out.attempts ++ left).Pairwise InReclaimOrder ∧
    (out.attempts ++ left).Perm
      (lowerPriority priority (closedSegments writers env.active s.files)) ∧
    (left ≠ [] → available 0 = none ∨
      spaceSuffices available required out.attempts.length = true)
  /-- No attempt follows a reading that suffices. -/
  enough : ∀ k < out.attempts.length, spaceSuffices available required k = false
  changed : out.changed = true ↔
    ∃ f ∈ s.files, (segmentSeqFromName f.name).isSome = true ∧ f ∉ out.store.files

section Outcome

variable {config : RecorderConfig} {env : RetentionEnv} {available : ℕ → Option UInt64}
  {priority : ℕ} {required : UInt64} {s : LogStore} {out : ReclaimResult}
  {left : List RetainedFile}

theorem mem_persistBootState {s : LogStore} {f : LogFile} (boots : BootRegistry)
    (hf : f ∈ s.files) (hpath : f.path ≠ (stateDirName, bootsFileName)) :
    f ∈ (persistBootState env s boots).files := by
  unfold persistBootState
  split
  · exact hf
  · split
    · exact List.mem_append_left _ (List.mem_filter.2 ⟨hf, decide_eq_true hpath⟩)
    · exact hf

/-- Of the segments, those the loop removed are missing. -/
theorem ReclaimTrace.mem_store_iff
    (h : ReclaimTrace config env available priority required s out left) {f : LogFile}
    (hf : f ∈ s.files) (hname : (segmentSeqFromName f.name).isSome = true) :
    f ∉ out.store.files ↔ ∃ r ∈ out.attempts, r.path = f.path ∧ env.unlinkOk f.path = true := by
  have herased : f ∈ (eraseAll env s (removable env out.attempts)).files ↔
      f.path ∉ (removable env out.attempts).map (·.path) := by
    rw [eraseAll_files, List.mem_filter, decide_eq_true_eq, mem_erasedPaths_of_segment hname]
    exact and_iff_right hf
  have hstore : f ∈ out.store.files ↔ f.path ∉ (removable env out.attempts).map (·.path) := by
    rcases h.store with hstore | ⟨boots, hstore⟩
    · rw [hstore, herased]
    · have hfilter : (persistBootState env (eraseAll env s (removable env out.attempts))
            boots).files.filter (fun f => (segmentSeqFromName f.name).isSome) =
          (eraseAll env s (removable env out.attempts)).files.filter fun f =>
            (segmentSeqFromName f.name).isSome :=
        persistBootState_filter _ boots fun _ h => h
      have hmem : ∀ files : List LogFile,
          f ∈ files ↔ f ∈ files.filter fun f => (segmentSeqFromName f.name).isSome := by
        intro files
        rw [List.mem_filter]
        exact ⟨fun h => ⟨h, hname⟩, fun h => h.1⟩
      rw [hstore, hmem, hfilter, ← hmem, herased]
  rw [hstore, not_not, List.mem_map]
  constructor
  · rintro ⟨r, hr, hpath⟩
    obtain ⟨hmem, hok⟩ := List.mem_filter.1 hr
    exact ⟨r, hmem, hpath, hpath ▸ hok⟩
  · rintro ⟨r, hr, hpath, hok⟩
    exact ⟨r, List.mem_filter.2 ⟨hr, by rw [hpath, hok]⟩, hpath⟩

/-- Of the other files, the indexes that go with them and the old registry are missing. -/
theorem ReclaimTrace.mem_store_other
    (h : ReclaimTrace config env available priority required s out left) {f : LogFile}
    (hf : f ∈ s.files) (hname : segmentSeqFromName f.name = none) (hgone : f ∉ out.store.files)
    (hsegments : ∀ r ∈ out.attempts, (segmentSeqFromName r.name).isSome = true) :
    (∃ r ∈ out.attempts, env.unlinkOk r.path = true ∧
      f.path = (r.dirName, indexName r.segmentSeq)) ∨
      f.path = (stateDirName, bootsFileName) := by
  by_cases hboots : f.path = (stateDirName, bootsFileName)
  · exact .inr hboots
  · left
    have herased : f ∉ (eraseAll env s (removable env out.attempts)).files := by
      intro hmem
      rcases h.store with hstore | ⟨boots, hstore⟩
      · exact hgone (hstore ▸ hmem)
      · exact hgone (hstore ▸ mem_persistBootState boots hmem hboots)
    rw [eraseAll_files, List.mem_filter, decide_eq_true_eq, not_and, not_not] at herased
    obtain ⟨r, hr, hpath⟩ := List.mem_flatMap.1 (herased hf)
    obtain ⟨hmem, hok⟩ := List.mem_filter.1 hr
    refine ⟨r, hmem, hok, ?_⟩
    unfold erasedPaths at hpath
    rcases List.mem_cons.1 hpath with hsegment | hindex
    · -- a segment has another name
      have hsame : f.name = r.name := congrArg Prod.snd hsegment
      have hsome := hsegments r hmem
      rw [← hsame, hname] at hsome
      cases hsome
    · split at hindex
      · exact List.mem_singleton.1 hindex
      · cases hindex

end Outcome

/-- **Reclaiming space spares equally important data**, for every sequence of readings and
every outcome of the `unlink` calls.
SOURCE: recorder.c:2411-2527, 2570-2611 -/
theorem reclaim_spares_important {cenv : ConfigEnv} {main : Json} {dropins : List Json}
    {config : Config} (hload : recorderConfigLoadAll cenv main dropins = .ok config)
    (env : RetentionEnv) (available : ℕ → Option UInt64) (priority : ℕ) (required : UInt64)
    (s : LogStore)
    (hs : ScannableStore config (writerConfig config (recorderConfigLoadAll_loaded hload).routed)
      env s) :
    SparesImportant config (writerConfig config (recorderConfigLoadAll_loaded hload).routed) env
      available priority required s
      (retentionReclaimLowerPriority
        (writerConfig config (recorderConfigLoadAll_loaded hload).routed) env available priority
        required s) := by
  generalize (recorderConfigLoadAll_loaded hload).routed = routed at hs ⊢
  obtain ⟨left, htrace⟩ := retentionReclaimLowerPriority_trace env available priority required
    (writerConfig config routed) s
  generalize retentionReclaimLowerPriority (writerConfig config routed) env available priority
    required s = out at htrace ⊢
  have hperm : (retentionOrder (writerConfig config routed) env s).Perm
      (closedSegments (writerConfig config routed) env.active s.files) := by
    unfold retentionOrder retentionSort
    rw [collectClosedSegments_eq, List.take_of_length_le hs.count]
    exact exchangeSort_perm removedBefore _
  have hattempts : ∀ r ∈ out.attempts, ∃ f, ∃ g ∈ config.groups, AttemptAt env s r f g ∧
      priority < g.minPriority := by
    intro r hr
    have hlower : r ∈ lowerPriority priority
        (retentionOrder (writerConfig config routed) env s) := by
      rw [htrace.split]
      exact List.mem_append_left _ hr
    obtain ⟨hmem, hless⟩ := List.mem_filter.1 hlower
    obtain ⟨f, hf, seq, -, hseq, hactive, rfl⟩ := mem_closedSegments.1 (hperm.subset hmem)
    have hclosed : isClosedSegment env.active f = true := by
      simp [isClosedSegment, hseq, hactive]
    obtain ⟨g, hg, hname⟩ := hs.configured f hf hclosed
    have hmin := retainedFile_minPriority routed hg hname.symm (hs.scannable f hf hclosed) seq
    rw [decide_eq_true_eq, hmin] at hless
    exact ⟨f, g, hg, ⟨hf, hclosed, hname.symm, rfl, hseq, hmin⟩, hless⟩
  refine ⟨hattempts, ?_, fun f hf hname => htrace.mem_store_iff hf hname, ?_, ?_,
    htrace.enough, ?_⟩
  · intro p hp g hg hpg r hr hdir
    obtain ⟨f, g', hg', hat, hless⟩ := hattempts r hr
    have hsame : g' = g := by
      apply List.inj_on_of_nodup_map routed.sharedOut.distinct hg' hg
      exact hat.dir.symm.trans ((congrArg Prod.fst hat.path).symm.trans hdir)
    obtain ⟨q, -, hq, hle⟩ := routed.sharedOut.least g hg
    have hmin := hle p hpg
    rw [hsame] at hless
    omega
  · intro f hf hname hgone
    refine htrace.mem_store_other hf hname hgone fun r hr => ?_
    obtain ⟨f', g, -, hat, -⟩ := hattempts r hr
    have hrname : r.name = f'.name := congrArg Prod.snd hat.path
    rw [hrname, hat.seq]
    rfl
  · refine ⟨left, ?_, ?_, htrace.stopped⟩
    · rw [← htrace.split]
      have hsorted : (retentionOrder (writerConfig config routed) env s).Pairwise
          fun a b => removedBefore b a = false := exchangeSort_pairwise removedBefore_weakOrder _
      refine (hsorted.filter _).imp fun {a b} hab => ?_
      simp only [removedBefore, gt_iff_lt, Bool.or_eq_false_iff, decide_eq_false_iff_not,
        Bool.and_eq_false_iff, UInt64.not_lt] at hab
      obtain ⟨hle, hseq⟩ := hab
      rcases Nat.lt_or_ge b.minPriority a.minPriority with hlt | hge
      · exact .inl hlt
      · have heq : a.minPriority = b.minPriority := Nat.le_antisymm hge (Nat.not_lt.1 hle)
        exact .inr ⟨heq, hseq.resolve_left (not_not.2 heq.symm)⟩
    · rw [← htrace.split]
      exact hperm.filter _
  · rw [htrace.changed, List.any_eq_true]
    constructor
    · rintro ⟨r, hr, hok⟩
      obtain ⟨f, g, -, hat, -⟩ := hattempts r hr
      have hname : (segmentSeqFromName f.name).isSome = true := by
        rw [hat.seq]
        rfl
      exact ⟨f, hat.mem, hname, (htrace.mem_store_iff hat.mem hname).2 ⟨r, hr, hat.path,
        hat.path ▸ hok⟩⟩
    · rintro ⟨f, hf, hname, hgone⟩
      obtain ⟨r, hr, hpath, hok⟩ := (htrace.mem_store_iff hf hname).1 hgone
      exact ⟨r, hr, by rw [hpath, hok]⟩

/-- A group of the priorities 0 to 2 and one, `a`, of the others. -/
def highAndLow : Json := groupsRoot [groupItem [98] [0, 1, 2], groupItem [97] [3, 4, 5, 6, 7]]

theorem highAndLow_loads :
    recorderConfigLoadAll anyFile highAndLow [] = .ok (configOf highAndLow) := rfl

/-- For an entry of priority 0 the first of two segments is removed; the second reading
suffices. -/
theorem reclaim_spares_important_pair :
    SparesImportant (configOf highAndLow)
        (writerConfig (configOf highAndLow) (recorderConfigLoadAll_loaded highAndLow_loads).routed)
        quietEnv (fun reading => if reading = 0 then some 10 else some 60) 0 50 indexedPair
        (retentionReclaimLowerPriority
          (writerConfig (configOf highAndLow)
            (recorderConfigLoadAll_loaded highAndLow_loads).routed)
          quietEnv (fun reading => if reading = 0 then some 10 else some 60) 0 50 indexedPair) ∧
      (retentionReclaimLowerPriority
          (writerConfig (configOf highAndLow)
            (recorderConfigLoadAll_loaded highAndLow_loads).routed)
          quietEnv (fun reading => if reading = 0 then some 10 else some 60) 0 50
          indexedPair).attempts.map (·.segmentSeq) = [1] := by
  refine ⟨reclaim_spares_important highAndLow_loads _ _ _ _ _ ⟨?_, ?_, ?_⟩, by decide +kernel⟩
  · decide +kernel
  · decide +kernel
  · decide +kernel

end Recorder.Analysis
