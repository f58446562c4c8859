import Recorder.Lib.Suffix
import Recorder.Analysis.FollowInitial
import Recorder.Analysis.IteratorCursor

/-!
# The newest lines of each group

What a first follow scan prints lacks the entries at the front of the order of arrival, and
these are entries of newest segments. In a group that loses some of them while entries of
another segment are left, the lines are not the last ones of the group.

The needed segments and the surplus are computed from the store and the number of lines, so
whether this happens can be told beforehand (`CutBetweenGroups`).

**Main result**: `follow_initial_newest_iff`.
-/

set_option autoImplicit false

namespace Recorder.Analysis

open Recorder.Model Recorder.Lib

/-- `lines` are the last entries of each group, in any order, and `n` in total if the store
holds so many. -/
structure NewestLines (store : Store) (filter : List Bytes) (n : ℕ) (lines : List StoredEntry) :
    Prop where
  suffix : ∀ group, ∃ last, last <:+ groupRecording store filter group ∧
    (lines.filter (·.group == group)).Perm last
  count : n ≤ (selectedEntries store filter).length → lines.length = n

/-- The same, with the lines of each group in the order of the recording. -/
structure NewestLinesInOrder (store : Store) (filter : List Bytes) (n : ℕ)
    (lines : List StoredEntry) : Prop where
  suffix : ∀ group, lines.filter (·.group == group) <:+ groupRecording store filter group
  count : n ≤ (selectedEntries store filter).length → lines.length = n

/-- Of two segments with entries of one group, the second is cut off whole if the first one
loses anything. -/
def CutBetweenGroups (cut : ℕ) (paths : List SegmentPath) : Prop :=
  ∀ before p between q after, paths = before ++ p :: between ++ q :: after →
    p.file.group = q.file.group → p.file.fileEntries ≠ [] → q.file.fileEntries ≠ [] →
    cut ≤ (pathEntries before).length ∨
      (pathEntries (before ++ p :: between ++ [q])).length ≤ cut

/-- Of two segments with entries of one group, the second is cut off whole. -/
def CutToOneSegment (cut : ℕ) (paths : List SegmentPath) : Prop :=
  ∀ before p between q after, paths = before ++ p :: between ++ q :: after →
    p.file.group = q.file.group → p.file.fileEntries ≠ [] → q.file.fileEntries ≠ [] →
    (pathEntries (before ++ p :: between ++ [q])).length ≤ cut

/-! ## The recording of a group -/

section Recording

variable {store : Store} {filter : List Bytes}

/-- The recording of a group has its selected entries. -/
theorem mem_groupRecording {group : Bytes} {e : StoredEntry} :
    e ∈ groupRecording store filter group ↔
      e ∈ selectedEntries store filter ∧ e.group = group := by
  have hselected : e ∈ selectedEntries store filter ↔
      ∃ p ∈ sortPaths (collectSegmentPaths store filter), e ∈ p.file.fileEntries := by
    unfold selectedEntries
    rw [← collectSegmentPaths_map_file, List.flatMap_map, List.mem_flatMap]
    simp only [(sortPaths_perm _).mem_iff]
  unfold groupRecording
  rw [hselected, List.mem_flatMap]
  constructor
  · rintro ⟨p, hp, he⟩
    obtain ⟨hmem, hgroup⟩ := List.mem_filter.mp hp
    rw [beq_iff_eq] at hgroup
    exact ⟨⟨p, hmem, he⟩, (mem_fileEntries he).1.trans hgroup⟩
  · rintro ⟨⟨p, hp, he⟩, hgroup⟩
    refine ⟨p, List.mem_filter.mpr ⟨hp, ?_⟩, he⟩
    rw [beq_iff_eq, ← hgroup, (mem_fileEntries he).1]

/-- Of two locations at most one is smaller. -/
theorem compareLocation_asymm (a b : StoredEntry) (h : compareLocation a b = .lt) :
    ¬ compareLocation b a = .lt := by
  have hswap : compareLocation b a = (compareLocation a b).swap := Std.OrientedCmp.eq_swap
  rw [hswap, h]
  exact Ordering.noConfusion

/-- In a group the number of the segment comes first. -/
theorem compareLocation_of_segmentSeq_lt {a b : StoredEntry} (hgroup : a.group = b.group)
    (hlt : a.segmentSeq < b.segmentSeq) : compareLocation a b = .lt := by
  simp only [compareLocation, compareLex, compareOn, Ordering.then_eq_lt, Std.compare_eq_lt,
    Std.LawfulEqCmp.compare_eq_iff_eq]
  exact .inr ⟨hgroup, .inl hlt⟩

/-- In a group, a later place is in a segment with the same number or a larger one. -/
theorem segmentSeq_le_of_compareLocation {a b : StoredEntry} (hgroup : a.group = b.group)
    (h : compareLocation a b = .lt) : a.segmentSeq ≤ b.segmentSeq := by
  by_contra hnot
  have hlt := compareLocation_of_segmentSeq_lt hgroup.symm (UInt64.not_le.mp hnot)
  exact compareLocation_asymm b a hlt h

/-- Lines of the store are the last ones of each group exactly when nothing is left out
behind any of them. -/
theorem newest_iff_closed (hwf : StoreWf store) {lines : List StoredEntry}
    (hnodup : lines.Nodup) (hsub : ∀ e ∈ lines, e ∈ selectedEntries store filter) :
    (∀ group, ∃ last, last <:+ groupRecording store filter group ∧
      (lines.filter (·.group == group)).Perm last) ↔
      ∀ a ∈ lines, ∀ b ∈ selectedEntries store filter, a.group = b.group →
        compareLocation a b = .lt → b ∈ lines := by
  have hgroup : ∀ group : Bytes, (∃ last, last <:+ groupRecording store filter group ∧
      (lines.filter (·.group == group)).Perm last) ↔
      ∀ a ∈ lines.filter (·.group == group), ∀ b ∈ groupRecording store filter group,
        compareLocation a b = .lt → b ∈ lines.filter (·.group == group) := by
    intro group
    apply exists_suffix_perm_iff compareLocation_asymm
      (groupRecording_location_lt hwf filter group) (hnodup.filter _)
    intro e he
    obtain ⟨hmem, heq⟩ := List.mem_filter.mp he
    exact mem_groupRecording.mpr ⟨hsub e hmem, by simpa using heq⟩
  simp only [hgroup, List.mem_filter, mem_groupRecording, beq_iff_eq]
  constructor
  · intro h a ha b hb hab hlt
    exact (h b.group a ⟨ha, hab⟩ b ⟨hb, rfl⟩ hlt).1
  · rintro h group a ⟨ha, rfl⟩ b ⟨hb, hab⟩ hlt
    exact ⟨h a ha b hb hab.symm hlt, hab⟩

end Recording

/-! ## The order of arrival -/

/-- Of two entries of one group, the second one to arrive is from an older segment or from
further behind. -/
def ArrivesBefore (a b : StoredEntry) : Prop :=
  a.group = b.group → b.segmentSeq < a.segmentSeq ∨ compareLocation a b = .lt

section Arrival

variable {store : Store} {filter : List Bytes} {n cut : ℕ}
  (hwf : StoreWf store) (hdir : store.directory = true)

include hwf hdir

/-- An entry of a segment has its group and number. -/
theorem entry_of_needed {p : SegmentPath} (hp : p ∈ neededSegments store filter n)
    {e : StoredEntry} (he : e ∈ p.file.fileEntries) :
    e.group = p.file.group ∧ e.segmentSeq = p.segmentSeq := by
  obtain ⟨hmem, -, hseq⟩ := mem_all_of_needed hwf hdir hp
  obtain ⟨hgroup, heseq, -, -⟩ := mem_fileEntries he
  exact ⟨hgroup, by rw [heseq, hwf.headers _ hmem, hseq]⟩

variable (filter n) in
/-- The entries of the needed segments are in the order they arrive in. -/
theorem pathEntries_arrive :
    (pathEntries (neededSegments store filter n)).Pairwise ArrivesBefore := by
  refine List.pairwise_flatMap.mpr ⟨?_, ?_⟩
  · intro p _
    exact (fileEntries_pairwise p.file).imp fun h _ => .inr h.location_lt
  · refine (neededSegments_fall hwf hdir n).imp_of_mem ?_
    intro p q hp hq hfall a ha b hb hgroup
    obtain ⟨hga, hsa⟩ := entry_of_needed hwf hdir hp ha
    obtain ⟨hgb, hsb⟩ := entry_of_needed hwf hdir hq hb
    rw [hsa, hsb]
    exact .inl (hfall (by rw [← hga, ← hgb, hgroup]))

variable (filter n) in
/-- No entry is there twice. -/
theorem pathEntries_nodup : (pathEntries (neededSegments store filter n)).Nodup := by
  refine (pathEntries_arrive filter n hwf hdir).imp ?_
  rintro a b h rfl
  rcases h rfl with hlt | hlt
  · exact UInt64.lt_irrefl _ hlt
  · exact compareLocation_asymm a a hlt hlt

/-- The entries of the needed segments are selected ones. -/
theorem mem_selected_of_needed {e : StoredEntry}
    (he : e ∈ pathEntries (neededSegments store filter n)) :
    e ∈ selectedEntries store filter := by
  obtain ⟨p, hp, hep⟩ := List.mem_flatMap.mp he
  obtain ⟨hmem, hallowed, -⟩ := mem_all_of_needed hwf hdir hp
  exact List.mem_flatMap.mpr ⟨p.file, List.mem_filter.mpr ⟨hmem, hallowed⟩, hep⟩

/-- Of two needed segments of a group, the one in front has the larger number. -/
theorem segmentSeq_lt_of_split {before between after : List SegmentPath} {p q : SegmentPath}
    (hsplit : neededSegments store filter n = before ++ p :: between ++ q :: after)
    (hgroup : p.file.group = q.file.group) : q.segmentSeq < p.segmentSeq := by
  have hfall : PathsFall (neededSegments store filter n) := neededSegments_fall hwf hdir n
  rw [hsplit] at hfall
  exact (List.pairwise_append.mp hfall).2.2 p (by simp) q (by simp) hgroup

/-- The entries of the second one are further in front. -/
theorem compareLocation_of_split {before between after : List SegmentPath} {p q : SegmentPath}
    (hsplit : neededSegments store filter n = before ++ p :: between ++ q :: after)
    (hgroup : p.file.group = q.file.group) {a b : StoredEntry} (ha : a ∈ q.file.fileEntries)
    (hb : b ∈ p.file.fileEntries) : a.group = b.group ∧ compareLocation a b = .lt := by
  obtain ⟨hga, hsa⟩ := entry_of_needed hwf hdir (by rw [hsplit]; simp) ha
  obtain ⟨hgb, hsb⟩ := entry_of_needed hwf hdir (by rw [hsplit]; simp) hb
  have hab : a.group = b.group := by rw [hga, hgb, hgroup]
  refine ⟨hab, compareLocation_of_segmentSeq_lt hab ?_⟩
  rw [hsa, hsb]
  exact segmentSeq_lt_of_split hwf hdir hsplit hgroup

/-- Of two segments of a group the newer one comes first. -/
theorem exists_split {p q : SegmentPath} (hp : p ∈ neededSegments store filter n)
    (hq : q ∈ neededSegments store filter n) (hgroup : p.file.group = q.file.group)
    (hlt : q.segmentSeq < p.segmentSeq) :
    ∃ before between after,
      neededSegments store filter n = before ++ p :: between ++ q :: after := by
  have hne : p ≠ q := by
    rintro rfl
    exact UInt64.lt_irrefl _ hlt
  rcases exists_append_of_mem_pair hp hq hne with hsplit | ⟨before, between, after, hsplit⟩
  · exact hsplit
  · have hlt' := segmentSeq_lt_of_split hwf hdir hsplit hgroup.symm
    exact absurd hlt (UInt64.not_lt.mpr (UInt64.le_of_lt hlt'))

/-- What arrives behind an entry of the same segment that is left is left as well. -/
theorem mem_drop_of_segment_eq {a b : StoredEntry}
    (ha : a ∈ (pathEntries (neededSegments store filter n)).drop cut)
    (hb : b ∈ pathEntries (neededSegments store filter n)) (hgroup : a.group = b.group)
    (hseq : a.segmentSeq = b.segmentSeq) (hlt : compareLocation a b = .lt) :
    b ∈ (pathEntries (neededSegments store filter n)).drop cut := by
  have harrive := pathEntries_arrive filter n hwf hdir
  rw [← List.take_append_drop cut (pathEntries (neededSegments store filter n))] at harrive hb
  rcases List.mem_append.mp hb with htake | hdrop
  · rcases (List.pairwise_append.mp harrive).2.2 b htake a ha hgroup.symm with hback | hback
    · rw [hseq] at hback
      exact absurd hback (UInt64.lt_irrefl _)
    · exact absurd hback (compareLocation_asymm a b hlt)
  · exact hdrop

/-- **Nothing is left out behind a line** exactly when the cut is between groups. -/
theorem closed_iff_cutBetweenGroups :
    (∀ a ∈ (pathEntries (neededSegments store filter n)).drop cut,
      ∀ b ∈ selectedEntries store filter, a.group = b.group → compareLocation a b = .lt →
        b ∈ (pathEntries (neededSegments store filter n)).drop cut) ↔
      CutBetweenGroups cut (neededSegments store filter n) := by
  have hnodup := pathEntries_nodup filter n hwf hdir
  constructor
  · intro hclosed before p between q after hsplit hgroup hpne hqne
    by_contra hnot
    obtain ⟨hbefore, hthrough⟩ := not_or.mp hnot
    -- the first entry of `p` is cut off and the last one of `q` is left
    obtain ⟨b, hb, hbnot⟩ := exists_notMem_drop (hsplit.trans (List.append_assoc _ _ _)) hnodup hpne
      (not_le.mp hbefore)
    obtain ⟨a, ha, hmem⟩ := exists_mem_drop hsplit hqne (not_le.mp hthrough)
    obtain ⟨hab, hlt⟩ := compareLocation_of_split hwf hdir hsplit hgroup ha hb
    have hbmem : b ∈ pathEntries (neededSegments store filter n) :=
      List.mem_flatMap.mpr ⟨p, by rw [hsplit]; simp, hb⟩
    exact hbnot (hclosed a hmem b (mem_selected_of_needed hwf hdir hbmem) hab hlt)
  · intro hcut a ha b hb hgroup hlt
    obtain ⟨q, hq, haq⟩ := List.mem_flatMap.mp (List.mem_of_mem_drop ha)
    obtain ⟨hga, hsa⟩ := entry_of_needed hwf hdir hq haq
    obtain ⟨f, hf, hbf⟩ := List.mem_flatMap.mp hb
    obtain ⟨hfmem, hallowed⟩ := List.mem_filter.mp hf
    obtain ⟨hgb, hsb, -, -⟩ := mem_fileEntries hbf
    rw [hwf.headers f hfmem] at hsb
    have hle := segmentSeq_le_of_compareLocation hgroup hlt
    have hfq : f.group = q.file.group := by rw [← hgb, ← hgroup, hga]
    obtain ⟨hqmem, -, hqseq⟩ := mem_all_of_needed hwf hdir hq
    by_cases hseq : a.segmentSeq = b.segmentSeq
    · -- both are in one segment
      have hsame : f = q.file := by
        apply file_eq_of_name hwf hfmem hqmem hfq
        rw [← hsb, ← hseq, hsa, hqseq]
      refine mem_drop_of_segment_eq hwf hdir ha ?_ hgroup hseq hlt
      exact List.mem_flatMap.mpr ⟨q, hq, by rw [← hsame]; exact hbf⟩
    · have hlt' : q.segmentSeq < f.nameSeq := by
        rw [← hsa, ← hsb]
        exact UInt64.lt_of_le_of_ne hle hseq
      have hp := mem_neededSegments_of_lt hwf hdir hq hfmem hfq hlt'
      obtain ⟨before, between, after, hsplit⟩ := exists_split hwf hdir hp hq hfq hlt'
      rcases hcut before ⟨f, f.nameSeq⟩ between q after hsplit hfq (List.ne_nil_of_mem hbf)
        (List.ne_nil_of_mem haq) with hbefore | hthrough
      · exact mem_drop_of_cut_le (hsplit.trans (List.append_assoc _ _ _)) hbefore hbf
      · exact absurd ha (notMem_drop_of_le_cut hsplit hnodup hthrough haq)

/-- **The lines of each group are in order** exactly when only one segment of it is left. -/
theorem inOrder_iff_cutToOneSegment :
    (∀ group, ((pathEntries (neededSegments store filter n)).drop cut).filter
        (·.group == group) <:+ groupRecording store filter group) ↔
      CutToOneSegment cut (neededSegments store filter n) := by
  have hnodup := pathEntries_nodup filter n hwf hdir
  have hclosed := newest_iff_closed hwf
    (hnodup.sublist (List.drop_sublist cut _))
    (fun e he => mem_selected_of_needed hwf hdir (List.mem_of_mem_drop he))
  constructor
  · intro hsuffix before p between q after hsplit hgroup hpne hqne
    by_contra hthrough
    have hcut := (closed_iff_cutBetweenGroups hwf hdir).mp (hclosed.mp fun group =>
      ⟨_, hsuffix group, List.Perm.refl _⟩)
    have hbefore := (hcut before p between q after hsplit hgroup hpne hqne).resolve_right hthrough
    -- all of `p` is left, in front of all of `q`
    obtain ⟨b, hb⟩ := List.exists_mem_of_ne_nil _ hpne
    obtain ⟨a, ha⟩ := List.exists_mem_of_ne_nil _ hqne
    obtain ⟨hab, hlt⟩ := compareLocation_of_split hwf hdir hsplit hgroup ha hb
    have hleft : (pathEntries (neededSegments store filter n)).drop cut =
        (pathEntries before).drop cut ++
          (p.file.fileEntries ++ pathEntries (between ++ q :: after)) := by
      rw [hsplit, ← List.drop_append_of_le_length hbefore]
      simp [pathEntries]
    have hsorted := (groupRecording_location_lt hwf filter b.group).sublist
      (hsuffix b.group).sublist
    rw [List.pairwise_filter, hleft] at hsorted
    have hback := (List.pairwise_append.mp (List.pairwise_append.mp hsorted).2.1).2.2 b hb a
      (List.mem_flatMap.mpr ⟨q, by simp, ha⟩) (by simp) (by simp [hab])
    exact compareLocation_asymm b a hback hlt
  · intro hcut group
    have hbetween : CutBetweenGroups cut (neededSegments store filter n) :=
      fun before p between q after hsplit hgroup hpne hqne =>
        .inr (hcut before p between q after hsplit hgroup hpne hqne)
    obtain ⟨last, hlast, hperm⟩ :=
      hclosed.mpr ((closed_iff_cutBetweenGroups hwf hdir).mpr hbetween) group
    have hsorted : (((pathEntries (neededSegments store filter n)).drop cut).filter
        (·.group == group)).Pairwise fun a b => compareLocation a b = .lt := by
      rw [List.pairwise_filter]
      have harrives := (pathEntries_arrive filter n hwf hdir).sublist (List.drop_sublist cut _)
      refine harrives.imp_of_mem ?_
      intro b a hb ha harrive hgb hga
      rw [beq_iff_eq] at hgb hga
      refine (harrive (hgb.trans hga.symm)).resolve_left ?_
      intro hlt
      obtain ⟨p, hp, hbp⟩ := List.mem_flatMap.mp (List.mem_of_mem_drop hb)
      obtain ⟨q, hq, haq⟩ := List.mem_flatMap.mp (List.mem_of_mem_drop ha)
      obtain ⟨hgroupa, hsa⟩ := entry_of_needed hwf hdir hq haq
      obtain ⟨hgroupb, hsb⟩ := entry_of_needed hwf hdir hp hbp
      have hpq : p.file.group = q.file.group := by rw [← hgroupa, ← hgroupb, hga, hgb]
      obtain ⟨before, between, after, hsplit⟩ := exists_split hwf hdir hp hq hpq
        (by rw [← hsa, ← hsb]; exact hlt)
      have hthrough := hcut before p between q after hsplit hpq (List.ne_nil_of_mem hbp)
        (List.ne_nil_of_mem haq)
      exact notMem_drop_of_le_cut hsplit hnodup hthrough haq ha
    rw [hperm.eq_of_pairwise ?_ hsorted
      ((groupRecording_location_lt hwf filter group).sublist hlast.sublist)]
    · exact hlast
    · intro a b _ _ hab hba
      exact absurd hba (compareLocation_asymm a b hab)

end Arrival

/-! ## The first lines -/

/-- **The first lines of `player -f` are the newest ones of each group** exactly when the
surplus of the needed segments ends between groups, and they are in the order of the recording
exactly when only one segment of each group is left behind it. `n` of them are printed in any
case. -/
theorem follow_initial_newest_iff (bootId : StoredEntry → Bytes) (store : Store)
    (hwf : StoreWf store) (hdir : store.directory = true) (opts : PlayerOptions)
    (hopts : PlainFollow opts)
    (hold : ∀ e ∈ selectedEntries store [], e.data.realtimeTs < opts.followStartTs) :
    (NewestLines store [] opts.initialCount
        (scanLogFollow bootId store (fun _ => none) opts false {}).2.1 ↔
      CutBetweenGroups (surplus store [] opts.initialCount)
        (neededSegments store [] opts.initialCount)) ∧
    (NewestLinesInOrder store [] opts.initialCount
        (scanLogFollow bootId store (fun _ => none) opts false {}).2.1 ↔
      CutToOneSegment (surplus store [] opts.initialCount)
        (neededSegments store [] opts.initialCount)) := by
  have hcount : opts.initialCount ≤ (selectedEntries store []).length →
      ((pathEntries (neededSegments store [] opts.initialCount)).drop
        (surplus store [] opts.initialCount)).length = opts.initialCount := by
    intro hle
    have hneeded := le_length_needed hwf hdir hle
    rw [List.length_drop, surplus]
    omega
  have hclosed := newest_iff_closed hwf
    ((pathEntries_nodup [] opts.initialCount hwf hdir).sublist
      (List.drop_sublist (surplus store [] opts.initialCount) _))
    (fun e he => mem_selected_of_needed hwf hdir (List.mem_of_mem_drop he))
  rw [scanLogFollow_initial bootId hwf hdir hopts hold]
  constructor
  · rw [← closed_iff_cutBetweenGroups hwf hdir, ← hclosed]
    exact ⟨fun h => h.suffix, fun h => ⟨h, hcount⟩⟩
  · rw [← inOrder_iff_cutToOneSegment hwf hdir]
    exact ⟨fun h => h.suffix, fun h => ⟨h, hcount⟩⟩

/-! ## Two segments of one group -/

/-- A segment of group `a` with one frame. -/
def lineSegment (seq : UInt64) (times : List UInt64) (hlen : times.length < 2 ^ 32) :
    StoreFile where
  group := [97]
  nameSeq := seq
  file :=
    { header :=
        { flags := 0, segmentSeq := seq, bootSeq := 0, bootId := [], timezone := []
          firstRealtimeTs := 0, firstMonotonicTs := 0, dictLen := 0 }
      frames := [⟨252, times.map fun t => ⟨t, t, 0, none⟩, by rw [List.length_map]; exact hlen⟩]
      footer := none
      index := none
      committedEnd := 300
      offsets_lt := List.pairwise_singleton _ _
      offset_lt_end := by
        intro frame hframe
        rw [List.mem_singleton.mp hframe]
        exact (by decide : (252 : UInt64) < 300)
      length_lt := length_singleton_lt _ _ }

/-- Two lines in an older segment and one in the newest. -/
def lineStore : Store where
  directory := true
  files := [lineSegment 1 [1, 2] (by decide), lineSegment 2 [3] (by decide)]
  length_lt := length_pair_lt _ _ _

/-- `player -f -n COUNT`, started later. -/
def followLines (n : ℕ) : PlayerOptions :=
  { follow := true, followStartTs := 4, lineCount := some n }

/-- The store is well formed. -/
theorem lineStore_wf : StoreWf lineStore := by
  refine ⟨?_, ?_, ?_⟩
  · refine List.pairwise_pair.mpr fun _ => ?_
    decide
  · intro f hf
    rcases List.mem_pair.mp hf with rfl | rfl <;> rfl
  · intro h
    cases h

/-- The call asks for the last `n` entries. -/
theorem followLines_plain (n : ℕ) : PlainFollow (followLines n) :=
  ⟨rfl, rfl, rfl, rfl, rfl, rfl, rfl, rfl⟩

/-- All entries are older than the call. -/
theorem lineStore_old (n : ℕ) :
    ∀ e ∈ selectedEntries lineStore [], e.data.realtimeTs < (followLines n).followStartTs := by
  show ∀ e ∈ selectedEntries lineStore [], e.data.realtimeTs < 4
  decide

/-- Asked for all three lines, the player prints them, those of the newest segment first. -/
theorem follow_initial_newest_three :
    NewestLines lineStore [] 3
        (scanLogFollow (fun _ => []) lineStore (fun _ => none) (followLines 3) false {}).2.1 ∧
      ¬ NewestLinesInOrder lineStore [] 3
        (scanLogFollow (fun _ => []) lineStore (fun _ => none) (followLines 3) false {}).2.1 := by
  obtain ⟨hnewest, horder⟩ := follow_initial_newest_iff (fun _ => []) lineStore lineStore_wf rfl
    (followLines 3) (followLines_plain 3) (lineStore_old 3)
  have hsurplus : surplus lineStore [] 3 = 0 := by decide
  refine ⟨hnewest.mpr ?_, fun h => ?_⟩
  · intro before p between q after _ _ _ _
    left
    exact hsurplus.trans_le (Nat.zero_le _)
  · have hcut := horder.mp h [] ⟨lineSegment 2 [3] (by decide), 2⟩ []
      ⟨lineSegment 1 [1, 2] (by decide), 1⟩ [] rfl rfl (by decide) (by decide)
    revert hcut
    decide

/-- Asked for two lines, it prints those of the older segment: the newest line of the store
is the one left out. -/
theorem follow_initial_drops_newest :
    StoreWf lineStore ∧ lineStore.directory = true ∧ PlainFollow (followLines 2) ∧
      (∀ e ∈ selectedEntries lineStore [],
        e.data.realtimeTs < (followLines 2).followStartTs) ∧
      (scanLogFollow (fun _ => []) lineStore (fun _ => none) (followLines 2) false {}).2.1.map
        (·.data.realtimeTs) = [1, 2] ∧
      ¬ NewestLines lineStore [] (followLines 2).initialCount
        (scanLogFollow (fun _ => []) lineStore (fun _ => none) (followLines 2) false {}).2.1 := by
  refine ⟨lineStore_wf, rfl, followLines_plain 2, lineStore_old 2, by decide, ?_⟩
  intro h
  have hclosed := (newest_iff_closed lineStore_wf (by decide) (by decide)).mp h.suffix
  revert hclosed
  decide

end Recorder.Analysis
