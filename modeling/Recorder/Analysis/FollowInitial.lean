import Recorder.Model.Player
import Recorder.Analysis.FollowRun

/-!
# The first scan of `player -f`

A first follow scan for `n` entries reads the newest segment of each group and then the other
segments by falling numbers, until it has seen `n` entries (`scanFollow_initial`). The player
prints the last `n` entries in this order of arrival (`scanLogFollow_initial`).
-/

set_option autoImplicit false

namespace Recorder.Analysis

open Recorder.Model Recorder.Lib

/-! ## What is printed -/

/-- Follow mode without filters and without `--sort-wallclock`. -/
structure PlainFollow (opts : PlayerOptions) : Prop where
  follow : opts.follow = true
  recorded : opts.sortWallclock = false
  groups : opts.groups = []
  unit : opts.unitFilter = none
  bootId : opts.bootIdFilter = none
  bootSeq : opts.bootSeqFilter = none
  sinceTs : opts.sinceTs = none
  untilTs : opts.untilTs = none

/-- The loop leaves the last `initialCount` of the old entries. -/
theorem printInitialLoop_old (oldCount initialCount : ℕ) (items : List PlayerEntry) :
    ∀ oldSeen, oldSeen + items.length = oldCount → (∀ item ∈ items, item.followNew = false) →
      printInitialLoop oldCount initialCount items oldSeen =
        (items.map (·.entry)).drop (items.length - initialCount) := by
  induction items with
  | nil =>
    intro oldSeen _ _
    simp [printInitialLoop]
  | cons item rest ih =>
    intro oldSeen hcount hold
    rw [List.length_cons] at hcount
    have hitem := hold item (by simp)
    have hrest := ih (oldSeen + 1) (by omega) fun i hi => hold i (by simp [hi])
    simp only [printInitialLoop, hitem, Bool.false_eq_true, if_false, Bool.false_or,
      decide_eq_true_eq, hrest, List.map_cons, List.length_cons]
    split
    · rename_i hle
      rw [(by omega : rest.length - initialCount = 0),
        (by omega : rest.length + 1 - initialCount = 0), List.drop_zero, List.drop_zero]
    · rename_i hgt
      rw [(by omega : rest.length + 1 - initialCount = rest.length - initialCount + 1),
        List.drop_succ_cons]

section Collect

variable {bootId : StoredEntry → Bytes} {opts : PlayerOptions}

/-- Without filters every entry is collected. -/
theorem printRecord_old (hopts : PlainFollow opts) (items : List PlayerEntry)
    {e : StoredEntry} (hold : e.data.realtimeTs < opts.followStartTs) :
    printRecord bootId { followContext opts false with entries := items } e =
      { followContext opts false with entries := items ++ [⟨e, items.length, false⟩] } := by
  have hboot : bootMatches { followContext opts false with entries := items } e.bootSeq
      (bootId e) = true := by
    simp [bootMatches, followContext, hopts.bootSeq, hopts.bootId]
  have hvalues : entryMatchesValues { followContext opts false with entries := items }
      e.data.realtimeTs e.data.unit = true := by
    simp [entryMatchesValues, followContext, hopts.sinceTs, hopts.untilTs, hopts.unit]
  unfold printRecord
  rw [hboot, hvalues]
  simp [followContext, appendPlayerEntry, hold]

variable (bootId) in
/-- A first scan collects what it is handed, in the order of arrival. -/
theorem foldl_printRecord (hopts : PlainFollow opts) (scanned : List StoredEntry) :
    ∀ items : List PlayerEntry, (∀ e ∈ scanned, e.data.realtimeTs < opts.followStartTs) →
      ∃ new : List PlayerEntry,
        scanned.foldl (printRecord bootId) { followContext opts false with entries := items } =
          { followContext opts false with entries := items ++ new } ∧
        new.map (·.entry) = scanned ∧ ∀ item ∈ new, item.followNew = false := by
  induction scanned with
  | nil =>
    intro items _
    exact ⟨[], by simp, rfl, by simp⟩
  | cons e rest ih =>
    intro items hold
    obtain ⟨new, hfold, hentries, hfollow⟩ := ih (items ++ [⟨e, items.length, false⟩])
      fun x hx => hold x (by simp [hx])
    refine ⟨⟨e, items.length, false⟩ :: new, ?_, by simp [hentries], ?_⟩
    · rw [List.foldl_cons, printRecord_old hopts items (hold e (by simp)), hfold,
        List.append_assoc, List.singleton_append]
    · intro item hitem
      rcases List.mem_cons.mp hitem with rfl | hmem
      · rfl
      · exact hfollow item hmem

/-- **The player prints the last `initialCount` entries that arrived**, if all of them are
older than its start.
SOURCE: player.c:1501-1534 -/
theorem scanLogFollow_of_scan {store : Store} {scanned : List StoredEntry} {st : FollowState}
    (hopts : PlainFollow opts)
    (hold : ∀ e ∈ scanned, e.data.realtimeTs < opts.followStartTs)
    (hscan : scanFollow store [] (fun _ => none) opts.initialCount {} = (0, scanned, st)) :
    scanLogFollow bootId store (fun _ => none) opts false {} =
      (0, scanned.drop (scanned.length - opts.initialCount), st) := by
  obtain ⟨new, hfold, hentries, hfollow⟩ := foldl_printRecord bootId hopts scanned []
    hold
  have hcount : (new.countP fun item => !item.followNew) = new.length := by
    rw [List.countP_eq_length]
    intro item hitem
    simp [hfollow item hitem]
  have hlen : new.length = scanned.length := by rw [← hentries, List.length_map]
  have hfold' : scanned.foldl (printRecord bootId) (followContext opts false) =
      { followContext opts false with entries := new } := by
    rw [List.nil_append] at hfold
    exact hfold
  have hinitial : (followContext opts false).initialFollowScan = true := by
    simp [followContext, hopts.follow]
  unfold scanLogFollow
  rw [hopts.groups, hscan]
  simp only [ne_eq, not_true_eq_false, if_false, hfold', hopts.recorded, Bool.false_eq_true,
    hinitial, printSelectedEntries, if_true, hcount]
  rw [printInitialLoop_old _ _ new 0 (Nat.zero_add _) hfollow, hentries, hlen]

end Collect

/-! ## What arrives -/

/-- The entries in a list of segments. -/
def pathEntries (paths : List SegmentPath) : List StoredEntry :=
  paths.flatMap (·.file.fileEntries)

/-- Segments from the front of a list, until they hold as many entries as are missing. -/
def segmentsBack : ℕ → List SegmentPath → List SegmentPath
  | _, [] => []
  | missing, p :: ps =>
    if missing = 0 then [] else p :: segmentsBack (missing - p.file.fileEntries.length) ps

/-- Whether a group has a segment with a larger number than this one. -/
def hasNewer (store : Store) (p : SegmentPath) : Bool :=
  store.files.any fun g => g.group == p.file.group && decide (p.file.nameSeq < g.nameSeq)

/-- The newest segments of the selected groups, by their numbers. -/
def newestSegments (store : Store) (filter : List Bytes) : List SegmentPath :=
  sortPaths (collectLatestSegmentPaths store filter)

/-- The other segments of the selected groups, the largest number first. -/
def olderSegments (store : Store) (filter : List Bytes) : List SegmentPath :=
  (sortPaths (collectSegmentPaths store filter)).reverse.filter (hasNewer store)

/-- The segments that hold the first `n` entries to arrive. -/
def neededSegments (store : Store) (filter : List Bytes) (n : ℕ) : List SegmentPath :=
  newestSegments store filter ++
    segmentsBack (n - (pathEntries (newestSegments store filter)).length)
      (olderSegments store filter)

/-- The entries the segments hold beyond the `n` that are asked for. -/
def surplus (store : Store) (filter : List Bytes) (n : ℕ) : ℕ :=
  (pathEntries (neededSegments store filter n)).length - n

theorem segmentsBack_zero (paths : List SegmentPath) : segmentsBack 0 paths = [] := by
  cases paths <;> simp [segmentsBack]

theorem segmentsBack_isPrefix (paths : List SegmentPath) :
    ∀ missing, segmentsBack missing paths <+: paths := by
  induction paths with
  | nil => exact fun _ => List.prefix_rfl
  | cons p ps ih =>
    intro missing
    rw [segmentsBack]
    split
    · exact List.nil_prefix
    · rw [List.cons_prefix_cons]
      exact ⟨rfl, ih _⟩

/-- The segments hold what is missing, if there is so much. -/
theorem le_length_segmentsBack (paths : List SegmentPath) :
    ∀ missing, missing ≤ (pathEntries paths).length →
      missing ≤ (pathEntries (segmentsBack missing paths)).length := by
  induction paths with
  | nil => exact fun _ h => h
  | cons p ps ih =>
    intro missing h
    rw [segmentsBack]
    split
    · omega
    · simp only [pathEntries, List.flatMap_cons, List.length_append] at h ih ⊢
      have := ih (missing - p.file.fileEntries.length) (by omega)
      omega

section Scan

variable {store : Store} {filter : List Bytes}

/-- At the end marks, a segment is passed over in the history if it is the newest one. -/
theorem newer_iff_mark (hdir : store.directory = true)
    {marks marks' : List FollowSegment} (hend : MarksAtEnd store filter marks marks')
    {p : SegmentPath} (hp : p ∈ sortPaths (collectSegmentPaths store filter)) :
    ∃ m, findFollowSegment marks' p.file.group = some m ∧
      (p.segmentSeq ≥ m.segmentSeq ↔ hasNewer store p = false) := by
  obtain ⟨hmem, hallowed, hseq⟩ := (mem_sortPaths_all hdir).mp hp
  obtain ⟨g, hg, hgroup, -⟩ := exists_newest hmem
  refine ⟨_, by rw [← hgroup]; exact hend.newest g hg (by rw [hgroup]; exact hallowed), ?_⟩
  rw [hseq, hasNewer, List.any_eq_false]
  constructor
  · intro hge x hx
    simp only [Bool.and_eq_true, beq_iff_eq, decide_eq_true_eq, not_and, UInt64.not_lt]
    intro hxg
    exact UInt64.le_trans (hg.le x hx (hxg.trans hgroup.symm)) hge
  · intro hnone
    have hnot := hnone g hg.mem
    simpa [hgroup, UInt64.not_lt] using hnot

theorem entriesFrom_zero (f : StoreFile) : f.entriesFrom 0 = f.fileEntries := by
  unfold StoreFile.entriesFrom StoreFile.fileEntries
  rw [List.filter_eq_self.mpr]
  intro frame _
  exact decide_eq_true (UInt64.zero_le)

/-- The history loop reads older segments until there are enough entries. -/
theorem followHistoryLoop_eq (hdir : store.directory = true)
    {marks marks' : List FollowSegment} (hend : MarksAtEnd store filter marks marks') (n : ℕ)
    (paths : List SegmentPath) :
    ∀ scanned, (∀ p ∈ paths, p ∈ sortPaths (collectSegmentPaths store filter)) →
      followHistoryLoop (fun _ => none) marks' n paths scanned =
        (true, pathEntries (segmentsBack (n - scanned) (paths.filter (hasNewer store)))) := by
  induction paths with
  | nil => intro scanned _; rfl
  | cons p ps ih =>
    intro scanned hpaths
    have hps : ∀ q ∈ ps, q ∈ sortPaths (collectSegmentPaths store filter) :=
      fun q hq => hpaths q (by simp [hq])
    obtain ⟨m, hm, hiff⟩ := newer_iff_mark hdir hend (hpaths p (by simp))
    rw [followHistoryLoop, hm]
    by_cases hmore : scanned < n
    · rw [if_pos hmore]
      cases hnewer : hasNewer store p with
      | false =>
        simp only [hiff.mpr hnewer, if_true, ih scanned hps, List.filter_cons, hnewer,
          Bool.false_eq_true, if_false]
      | true =>
        have hlt : ¬ p.segmentSeq ≥ m.segmentSeq := by simp [hiff, hnewer]
        have hne : n - scanned ≠ 0 := by omega
        simp only [hlt, if_false, scanPathWithContext, entriesFrom_zero, ih _ hps,
          List.filter_cons, hnewer, if_true, segmentsBack, hne, pathEntries,
          List.flatMap_cons, Nat.sub_sub]
    · rw [if_neg hmore, (by omega : n - scanned = 0), segmentsBack_zero]
      rfl

variable (filter) in
/-- **A first follow scan** hands over the entries of the needed segments. -/
theorem scanFollow_initial (hwf : StoreWf store) (hdir : store.directory = true) (n : ℕ) :
    ∃ st, scanFollow store filter (fun _ => none) n {} =
      (0, pathEntries (neededSegments store filter n), st) := by
  obtain ⟨marks, hloop, hend⟩ := followLoop_latest filter hwf hdir (marksBehind_nil store)
  have hall : ((sortPaths (collectLatestSegmentPaths store filter)).flatMap fun p =>
      p.file.fileEntries.filter (afterMark [])) =
      pathEntries (newestSegments store filter) := by
    apply List.flatMap_congr
    intro p _
    exact List.filter_eq_self.mpr fun _ _ => rfl
  rw [hall] at hloop
  have hhistory : (if (pathEntries (newestSegments store filter)).length < n then
      followHistoryLoop (fun _ => none) marks n
        (sortPaths (collectSegmentPaths store filter)).reverse
        (pathEntries (newestSegments store filter)).length else (true, [])) =
      (true, pathEntries (segmentsBack
        (n - (pathEntries (newestSegments store filter)).length)
        (olderSegments store filter))) := by
    split
    · exact followHistoryLoop_eq hdir hend n _ _ fun p hp => List.mem_reverse.mp hp
    · rw [(by omega : n - (pathEntries (newestSegments store filter)).length = 0),
        segmentsBack_zero]
      rfl
  refine ⟨{ segments := marks, initialized := true }, ?_⟩
  simp only [scanFollow, Bool.and_false, Bool.false_eq_true, if_false, hloop, hdir,
    Bool.not_false, Bool.true_and, Bool.and_true, decide_eq_true_eq, hhistory]
  rw [neededSegments, pathEntries, pathEntries, pathEntries, List.flatMap_append]

end Scan

/-! ## The needed segments -/

section Needed

variable {store : Store} {filter : List Bytes}

theorem mem_newestSegments (hwf : StoreWf store) (hdir : store.directory = true)
    {p : SegmentPath} :
    p ∈ newestSegments store filter ↔ IsNewest store p.file ∧
      groupAllowed filter p.file.group ∧ p.segmentSeq = p.file.nameSeq := by
  unfold newestSegments
  rw [(sortPaths_perm _).mem_iff, mem_collectLatest hwf hdir]

theorem hasNewer_iff {p : SegmentPath} (hp : p.file ∈ store.files) :
    hasNewer store p = true ↔ ¬ IsNewest store p.file := by
  rw [hasNewer, List.any_eq_true]
  constructor
  · rintro ⟨g, hg, hnewer⟩ hnewest
    simp only [Bool.and_eq_true, beq_iff_eq, decide_eq_true_eq] at hnewer
    exact absurd hnewer.2 (UInt64.not_lt.mpr (hnewest.le g hg hnewer.1))
  · intro hnot
    by_contra hnone
    apply hnot
    refine ⟨hp, ?_⟩
    intro g hg hgroup
    by_contra hle
    exact hnone ⟨g, hg, by simp [hgroup, UInt64.not_le.mp hle]⟩

theorem mem_olderSegments (hdir : store.directory = true) {p : SegmentPath} :
    p ∈ olderSegments store filter ↔ (p.file ∈ store.files ∧ ¬ IsNewest store p.file) ∧
      groupAllowed filter p.file.group ∧ p.segmentSeq = p.file.nameSeq := by
  unfold olderSegments
  rw [List.mem_filter, List.mem_reverse, mem_sortPaths_all hdir]
  constructor
  · rintro ⟨⟨hmem, hallowed, hseq⟩, hnewer⟩
    exact ⟨⟨hmem, (hasNewer_iff hmem).mp hnewer⟩, hallowed, hseq⟩
  · rintro ⟨⟨hmem, hnot⟩, hallowed, hseq⟩
    exact ⟨⟨hmem, hallowed, hseq⟩, (hasNewer_iff hmem).mpr hnot⟩

/-- In each group the numbers fall. -/
def PathsFall (paths : List SegmentPath) : Prop :=
  paths.Pairwise fun p q => p.file.group = q.file.group → q.segmentSeq < p.segmentSeq

variable (filter) in
/-- The newest segments come first, and then each group falls. -/
theorem newest_append_older_fall (hwf : StoreWf store) (hdir : store.directory = true) :
    PathsFall (newestSegments store filter ++ olderSegments store filter) := by
  refine List.pairwise_append.mpr ⟨?_, ?_, ?_⟩
  · have hsymm : ∀ {p q : SegmentPath}, p.file.group ≠ q.file.group →
        q.file.group ≠ p.file.group := fun h => h.symm
    have hgroups := ((sortPaths_perm _).pairwise_iff hsymm).mpr (collectLatest_groups filter hdir)
    exact hgroups.imp fun hne heq => absurd heq hne
  · have hall : PathsInOrder (sortPaths (collectSegmentPaths store filter)) :=
      sortPaths_all_inOrder hwf hdir
    exact ((List.pairwise_reverse.mpr hall).imp fun h heq => h heq.symm).filter _
  · intro p hp q hq hgroup
    obtain ⟨hnewest, -, hpseq⟩ := (mem_newestSegments hwf hdir).mp hp
    obtain ⟨⟨hqmem, hnot⟩, -, hqseq⟩ := (mem_olderSegments hdir).mp hq
    rw [hpseq, hqseq]
    refine UInt64.lt_of_le_of_ne (hnewest.le _ hqmem hgroup.symm) ?_
    intro heq
    apply hnot
    rw [file_eq_of_name hwf hqmem hnewest.mem hgroup.symm heq]
    exact hnewest

theorem PathsFall.nodup {paths : List SegmentPath} (h : PathsFall paths) : paths.Nodup := by
  refine h.imp ?_
  rintro p q hfall rfl
  exact UInt64.lt_irrefl _ (hfall rfl)

theorem neededSegments_sublist (n : ℕ) : (neededSegments store filter n).Sublist
    (newestSegments store filter ++ olderSegments store filter) :=
  (List.Sublist.refl _).append (segmentsBack_isPrefix _ _).sublist

theorem neededSegments_fall (hwf : StoreWf store) (hdir : store.directory = true) (n : ℕ) :
    PathsFall (neededSegments store filter n) :=
  (newest_append_older_fall filter hwf hdir).sublist (neededSegments_sublist n)

variable (filter) in
/-- Together the segments are all of the selected groups. -/
theorem newest_append_older_perm (hwf : StoreWf store) (hdir : store.directory = true) :
    (newestSegments store filter ++ olderSegments store filter).Perm
      (sortPaths (collectSegmentPaths store filter)) := by
  have hall : (sortPaths (collectSegmentPaths store filter)).Nodup := by
    refine (sortPaths_names hwf).imp ?_
    rintro p q hne rfl
    exact hne rfl rfl
  rw [List.perm_ext_iff_of_nodup (newest_append_older_fall filter hwf hdir).nodup hall]
  intro p
  rw [List.mem_append, mem_newestSegments hwf hdir, mem_olderSegments hdir, mem_sortPaths_all hdir]
  constructor
  · rintro (⟨hnewest, hrest⟩ | ⟨⟨hmem, -⟩, hrest⟩)
    · exact ⟨hnewest.mem, hrest⟩
    · exact ⟨hmem, hrest⟩
  · rintro ⟨hmem, hrest⟩
    by_cases hnewest : IsNewest store p.file
    · exact .inl ⟨hnewest, hrest⟩
    · exact .inr ⟨⟨hmem, hnewest⟩, hrest⟩

theorem mem_all_of_needed (hwf : StoreWf store) (hdir : store.directory = true) {n : ℕ}
    {p : SegmentPath} (hp : p ∈ neededSegments store filter n) : p.file ∈ store.files ∧
      groupAllowed filter p.file.group ∧ p.segmentSeq = p.file.nameSeq :=
  (mem_sortPaths_all hdir).mp ((newest_append_older_perm filter hwf hdir).mem_iff.mp
    ((neededSegments_sublist n).subset hp))

/-- What is newer than a needed segment of its group is needed. -/
theorem mem_neededSegments_of_lt (hwf : StoreWf store) (hdir : store.directory = true) {n : ℕ}
    {p : SegmentPath} (hp : p ∈ neededSegments store filter n) {f : StoreFile}
    (hf : f ∈ store.files) (hgroup : f.group = p.file.group) (hlt : p.segmentSeq < f.nameSeq) :
    (⟨f, f.nameSeq⟩ : SegmentPath) ∈ neededSegments store filter n := by
  obtain ⟨-, hallowed, hseq⟩ := mem_all_of_needed hwf hdir hp
  have hfallowed : groupAllowed filter f.group = true := by rw [hgroup]; exact hallowed
  by_cases hnewest : IsNewest store f
  · exact List.mem_append_left _ ((mem_newestSegments hwf hdir).mpr ⟨hnewest, hfallowed, rfl⟩)
  · -- `f` is an older segment, and in all segments it is in front of `p`
    have hfmem : (⟨f, f.nameSeq⟩ : SegmentPath) ∈ olderSegments store filter :=
      (mem_olderSegments hdir).mpr ⟨⟨hf, hnewest⟩, hfallowed, rfl⟩
    obtain ⟨rest, hrest⟩ := segmentsBack_isPrefix (olderSegments store filter)
      (n - (pathEntries (newestSegments store filter)).length)
    have hsplit : newestSegments store filter ++ olderSegments store filter =
        neededSegments store filter n ++ rest := by
      rw [neededSegments, List.append_assoc, hrest]
    have hfall := newest_append_older_fall filter hwf hdir
    rw [PathsFall, hsplit] at hfall
    have hfall' := List.mem_append_right (newestSegments store filter) hfmem
    rw [hsplit] at hfall'
    rcases List.mem_append.mp hfall' with hfront | htail
    · exact hfront
    · have hlt' := (List.pairwise_append.mp hfall).2.2 p hp _ htail hgroup.symm
      exact absurd hlt (UInt64.not_lt.mpr (UInt64.le_of_lt hlt'))

/-- The needed segments hold `n` entries if the store does. -/
theorem le_length_needed (hwf : StoreWf store) (hdir : store.directory = true) {n : ℕ}
    (h : n ≤ (selectedEntries store filter).length) :
    n ≤ (pathEntries (neededSegments store filter n)).length := by
  have htotal : (selectedEntries store filter).length =
      (pathEntries (newestSegments store filter)).length +
        (pathEntries (olderSegments store filter)).length := by
    rw [← List.length_append, pathEntries, pathEntries, ← List.flatMap_append]
    have hperm := ((newest_append_older_perm filter hwf hdir).flatMap_right
      fun p => p.file.fileEntries)
    rw [hperm.length_eq, ((sortPaths_perm _).flatMap_right _).length_eq]
    unfold selectedEntries
    rw [← collectSegmentPaths_map_file, List.flatMap_map]
  have hback := le_length_segmentsBack (olderSegments store filter)
    (n - (pathEntries (newestSegments store filter)).length) (by omega)
  rw [neededSegments, pathEntries, List.flatMap_append, List.length_append]
  simp only [pathEntries] at hback ⊢
  omega

/-- **What the first scan of `player -f` prints.**
SOURCE: player.c:1641-1644,1701-1712 -/
theorem scanLogFollow_initial (bootId : StoredEntry → Bytes) (hwf : StoreWf store)
    (hdir : store.directory = true) {opts : PlayerOptions} (hopts : PlainFollow opts)
    (hold : ∀ e ∈ selectedEntries store [], e.data.realtimeTs < opts.followStartTs) :
    (scanLogFollow bootId store (fun _ => none) opts false {}).2.1 =
      (pathEntries (neededSegments store [] opts.initialCount)).drop
        (surplus store [] opts.initialCount) := by
  obtain ⟨st, hscan⟩ := scanFollow_initial [] hwf hdir opts.initialCount
  rw [scanLogFollow_of_scan hopts ?_ hscan]
  · rfl
  · intro e he
    obtain ⟨p, hp, hep⟩ := List.mem_flatMap.mp he
    obtain ⟨hmem, hallowed, -⟩ := mem_all_of_needed hwf hdir hp
    apply hold
    exact List.mem_flatMap.mpr ⟨p.file, List.mem_filter.mpr ⟨hmem, hallowed⟩, hep⟩

end Needed

end Recorder.Analysis
