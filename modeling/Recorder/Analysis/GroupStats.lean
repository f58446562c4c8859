import Recorder.Analysis.SegmentStats
import Recorder.Analysis.SingleFrame

/-!
# Group statistics do not depend on indexes

The files of a group are added one after the other, whether their entries were counted from an
index or by a scan. `GroupsOf` is what the statistics say after some files, and `GroupsOf.step`
what one more file does to them.

**Main result**: `group_stats_count_entries` for a reader that has the keys it needs. Without
the key an encrypted segment is counted from its index alone (`group_stats_need_key`).
-/

set_option autoImplicit false

namespace Recorder.Analysis

open Recorder.Model Recorder.Lib

/-! ## Files -/

/-- **An intact segment file** in the directory of a group, with or without an index that was
written for it. -/
structure IntactFile (evp : EvpOps) (codec : CodecOps) (getters : ChunkGetters) where
  group : Bytes
  blocks : ℕ
  segment : Bytes
  header : SegmentHeader
  calls : List (SegmentFrameInfo × Bytes)
  index : Option (ℕ × Bytes)
  group_eq : groupFromPath group = some group
  intact : IntactSegment evp codec segment header calls
  written : ∀ blocks file, index = some (blocks, file) → WrittenIndex getters header calls file

section Files

variable {evp : EvpOps} {codec : CodecOps} {getters : ChunkGetters} {decryptor : Bool}

/-- What is at the path of the index. -/
def IntactFile.onDisk (f : IntactFile evp codec getters) : IndexOnDisk :=
  match f.index with
  | none => .missing
  | some (blocks, file) => .file blocks file

/-- The path that is collected for the file. -/
def IntactFile.path (f : IntactFile evp codec getters) : StatsPath where
  directory := f.group
  segment := some (f.blocks, f.segment)
  index := f.onDisk

/-- The realtime of the entries in the file. -/
def IntactFile.times (f : IntactFile evp codec getters) : List UInt64 :=
  storedTimes getters f.header f.calls

/-- The bytes allocated for segment and index. -/
def IntactFile.disk (f : IntactFile evp codec getters) : ℕ :=
  (f.blocks + (f.index.map (·.1)).getD 0) * 512

/-- The reader has a usable index, or can scan the segment. -/
def IntactFile.Readable (f : IntactFile evp codec getters) (decryptor : Bool) : Prop :=
  (∃ blocks file, f.index = some (blocks, file) ∧ (indexOpenRead file f.segment).isSome) ∨
    decryptor = true ∨ f.header.flags &&& flagEncrypted = 0

/-- The bytes of a file are added where they fit.
SOURCE: librecorder.c:1575-1590 -/
theorem groupStatsAddFileBytes_eq (stats : RecorderGroupStats) (blocks : ℕ)
    (hfits : stats.diskBytes.toNat + blocks * 512 < 2 ^ 64) :
    ∃ stats', groupStatsAddFileBytes stats blocks = some stats' ∧
      stats'.diskBytes.toNat = stats.diskBytes.toNat + blocks * 512 ∧
      stats'.name = stats.name ∧ stats'.entryCount = stats.entryCount ∧
      stats'.firstRealtimeUsec = stats.firstRealtimeUsec ∧
      stats'.lastRealtimeUsec = stats.lastRealtimeUsec := by
  have hmax : uint64Max.toNat = 2 ^ 64 - 1 := rfl
  have hbytes : (UInt64.ofNat (blocks * 512)).toNat = blocks * 512 := by
    rw [UInt64.toNat_ofNat', Nat.mod_eq_of_lt (by omega)]
  unfold groupStatsAddFileBytes
  have hrange : ¬ ((blocks : ℤ) < 0 ∨ (blocks : ℤ).toNat > uint64Max.toNat / 512) := by
    rw [Int.toNat_natCast, hmax]
    omega
  have hroom : ¬ stats.diskBytes > uint64Max - UInt64.ofNat (blocks * 512) := by
    rw [gt_iff_lt, UInt64.lt_iff_toNat_lt, UInt64.toNat_sub_of_le _ _ (by
      rw [UInt64.le_iff_toNat_le]
      omega)]
    omega
  rw [if_neg hrange, Int.toNat_natCast]
  simp only [if_neg hroom]
  refine ⟨_, rfl, ?_, rfl, rfl, rfl, rfl⟩
  show (stats.diskBytes + UInt64.ofNat (blocks * 512)).toNat = _
  rw [UInt64.toNat_add, hbytes]
  omega

/-- **The entries of a file are counted**, whichever way they are read.
SOURCE: librecorder.c:1641-1648 -/
theorem segmentStatsAddEntries_counts (hgetters : ∀ compact chunk,
      (getters.entries compact chunk).length < 2 ^ 32) (f : IntactFile evp codec getters)
    (hread : f.Readable decryptor) (hfits : f.times.length < 2 ^ 64) {stats : RecorderGroupStats}
    (hstats : Counts [] stats) :
    ∃ stats', segmentStatsAddEntries evp codec getters decryptor f.segment f.onDisk.content stats =
        some stats' ∧
      Counts f.times stats' ∧ stats'.diskBytes = stats.diskBytes := by
  unfold segmentStatsAddEntries
  by_cases husable : ∃ blocks file, f.index = some (blocks, file) ∧
      (indexOpenRead file f.segment).isSome
  · obtain ⟨blocks, file, hindex, hopen⟩ := husable
    obtain ⟨stats', hscan, hcounts, -, hdisk⟩ := indexScanFrames_counts hgetters f.intact
      (f.written blocks file hindex) hopen hstats hfits
    have hcontent : f.onDisk.content = some file := by
      rw [IntactFile.onDisk, hindex]
      rfl
    rw [hcontent, hscan]
    exact ⟨stats', rfl, hcounts, hdisk⟩
  · have hkey := hread.resolve_left husable
    have hscan : indexScanFrames groupStatsIndexFrame f.onDisk.content f.segment stats =
        (false, stats) := by
      unfold indexScanFrames IntactFile.onDisk
      cases hindex : f.index with
      | none => rfl
      | some r =>
        obtain ⟨blocks, file⟩ := r
        cases hopen : indexOpenRead file f.segment with
        | none =>
          simp only [IndexOnDisk.content, hopen]
        | some count => exact absurd ⟨blocks, file, hindex, by rw [hopen]; rfl⟩ husable
    have hcleared : Counts [] { stats with
        entryCount := 0, firstRealtimeUsec := 0, lastRealtimeUsec := 0 } := counts_empty rfl rfl rfl
    obtain ⟨stats', hfile, hcounts, -, hdisk⟩ := recPlayerScanFile_counts f.intact hkey hcleared
      hfits
    rw [hscan]
    simp only [hfile]
    exact ⟨stats', rfl, hcounts, hdisk⟩

/-- **The statistics of a file** count its entries and its bytes.
SOURCE: librecorder.c:1635-1648 -/
theorem segmentStats_counts (hgetters : ∀ compact chunk,
      (getters.entries compact chunk).length < 2 ^ 32) (f : IntactFile evp codec getters)
    (hread : f.Readable decryptor) (hdisk : f.disk < 2 ^ 64) (hfits : f.times.length < 2 ^ 64) :
    ∃ stats, segmentStats evp codec getters decryptor f.blocks f.segment f.onDisk = some stats ∧
      Counts f.times stats ∧ stats.diskBytes.toNat = f.disk := by
  rw [IntactFile.disk] at hdisk
  have hzero : ({} : RecorderGroupStats).diskBytes.toNat = 0 := rfl
  obtain ⟨stats₁, hbytes₁, hdisk₁, -, hcount₁, hfirst₁, hlast₁⟩ :=
    groupStatsAddFileBytes_eq {} f.blocks (by omega)
  rw [hzero, Nat.zero_add] at hdisk₁
  -- the bytes of the index are added, and no entries so far
  obtain ⟨stats₂, hbytes₂, hdisk₂, hcounts₂⟩ : ∃ stats₂,
      groupStatsAddIndexBytes stats₁ f.onDisk = some stats₂ ∧
        stats₂.diskBytes.toNat = f.disk ∧ Counts [] stats₂ := by
    rw [IntactFile.disk]
    unfold IntactFile.onDisk
    cases hindex : f.index with
    | none =>
      refine ⟨stats₁, rfl, ?_, counts_empty hcount₁ hfirst₁ hlast₁⟩
      rw [hdisk₁]
      rfl
    | some r =>
      obtain ⟨blocks, file⟩ := r
      rw [hindex] at hdisk
      simp only [Option.map_some, Option.getD_some] at hdisk
      obtain ⟨stats₂, hbytes₂, hdisk₂, -, hcount₂, hfirst₂, hlast₂⟩ :=
        groupStatsAddFileBytes_eq stats₁ blocks (by omega)
      refine ⟨stats₂, hbytes₂, ?_, counts_empty (hcount₂.trans hcount₁) (hfirst₂.trans hfirst₁)
        (hlast₂.trans hlast₁)⟩
      rw [hdisk₂, hdisk₁, ← Nat.add_mul]
      rfl
  obtain ⟨stats₃, hentries, hcounts₃, hdisk₃⟩ :=
    segmentStatsAddEntries_counts hgetters f hread hfits hcounts₂
  refine ⟨stats₃, ?_, hcounts₃, by rw [hdisk₃, hdisk₂]⟩
  simp only [segmentStats, hbytes₁, hbytes₂, Option.bind_eq_bind, Option.bind_some]
  exact hentries

end Files

/-! ## Groups -/

section Groups

variable {evp : EvpOps} {codec : CodecOps} {getters : ChunkGetters} {decryptor : Bool}

/-- The realtime of the entries that are stored in a group. -/
def groupTimes (files : List (IntactFile evp codec getters)) (name : Bytes) : List UInt64 :=
  (files.filter (·.group = name)).flatMap (·.times)

/-- The bytes allocated for the files of a group. -/
def groupDisk (files : List (IntactFile evp codec getters)) (name : Bytes) : ℕ :=
  ((files.filter (·.group = name)).map (·.disk)).sum

/-- The statistics of a group with some files. -/
structure Summarizes (files : List (IntactFile evp codec getters)) (group : RecorderGroupStats) :
    Prop where
  counts : Counts (groupTimes files group.name) group
  disk : group.diskBytes.toNat = groupDisk files group.name

/-- **The groups of some files**: one for each directory, with its statistics. -/
structure GroupsOf (files : List (IntactFile evp codec getters))
    (groups : List RecorderGroupStats) : Prop where
  nodup : (groups.map (·.name)).Nodup
  names : ∀ name, name ∈ groups.map (·.name) ↔ ∃ f ∈ files, f.group = name
  summarizes : ∀ group ∈ groups, Summarizes files group

theorem groupTimes_append (files files' : List (IntactFile evp codec getters)) (name : Bytes) :
    groupTimes (files ++ files') name = groupTimes files name ++ groupTimes files' name := by
  simp only [groupTimes, List.filter_append, List.flatMap_append]

theorem groupDisk_append (files files' : List (IntactFile evp codec getters)) (name : Bytes) :
    groupDisk (files ++ files') name = groupDisk files name + groupDisk files' name := by
  simp only [groupDisk, List.filter_append, List.map_append, List.sum_append]

/-- A file counts in its own group. -/
theorem groupTimes_own (f : IntactFile evp codec getters) : groupTimes [f] f.group = f.times := by
  simp [groupTimes]

theorem groupDisk_own (f : IntactFile evp codec getters) : groupDisk [f] f.group = f.disk := by
  simp [groupDisk]

/-- A file does not count in another group. -/
theorem Summarizes.other {files : List (IntactFile evp codec getters)} {group : RecorderGroupStats}
    (h : Summarizes files group) {f : IntactFile evp codec getters} (hne : group.name ≠ f.group) :
    Summarizes (files ++ [f]) group := by
  have hnone : [f].filter (·.group = group.name) = [] := by simp [Ne.symm hne]
  constructor
  · rw [groupTimes_append, show groupTimes [f] group.name = [] by rw [groupTimes, hnone]; rfl,
      List.append_nil]
    exact h.counts
  · rw [groupDisk_append, show groupDisk [f] group.name = 0 by rw [groupDisk, hnone]; rfl]
    exact h.disk

/-- **A segment is added to its group.**
SOURCE: librecorder.c:1669-1676 -/
theorem groupStatsAddSegment_eq {times block : List UInt64} {group segment : RecorderGroupStats}
    (hgroup : Counts times group) (hsegment : Counts block segment)
    (hdisk : group.diskBytes.toNat + segment.diskBytes.toNat < 2 ^ 64)
    (hfits : times.length + block.length < 2 ^ 64) :
    ∃ group', groupStatsAddSegment group segment = some group' ∧
      Counts (times ++ block) group' ∧ group'.name = group.name ∧
      group'.diskBytes.toNat = group.diskBytes.toNat + segment.diskBytes.toNat := by
  have hmax : uint64Max.toNat = 2 ^ 64 - 1 := rfl
  have hroom : ¬ group.diskBytes > uint64Max - segment.diskBytes := by
    rw [gt_iff_lt, UInt64.lt_iff_toNat_lt, UInt64.toNat_sub_of_le _ _ (by
      rw [UInt64.le_iff_toNat_le]
      omega)]
    omega
  have hgroup' : Counts times { group with diskBytes := group.diskBytes + segment.diskBytes } :=
    ⟨hgroup.count, hgroup.none, hgroup.some⟩
  obtain ⟨group', hadd, hcounts, hname, hsame⟩ := hgroup'.add hsegment.count hsegment.some hfits
  refine ⟨group', ?_, hcounts, hname, ?_⟩
  · rw [groupStatsAddSegment, if_neg hroom, hadd]
  · rw [hsame, UInt64.toNat_add, Nat.mod_eq_of_lt hdisk]

/-- Groups of other names are passed over. -/
theorem groupsAddSegment_skip (name : Bytes) (segment : RecorderGroupStats)
    {before : List RecorderGroupStats} (h : ∀ group ∈ before, group.name ≠ name)
    (rest : List RecorderGroupStats) :
    groupsAddSegment name segment (before ++ rest) =
      (groupsAddSegment name segment rest).map (before ++ ·) := by
  induction before with
  | nil => simp
  | cons group before ih =>
    rw [List.cons_append, groupsAddSegment, if_neg (h group (by simp)),
      ih fun g hg => h g (by simp [hg])]
    cases groupsAddSegment name segment rest <;> rfl

/-- **A file is added to its group**, which is appended if it is the first of its name.
SOURCE: librecorder.c:1649-1676 -/
theorem GroupsOf.add {files : List (IntactFile evp codec getters)}
    {groups : List RecorderGroupStats} (h : GroupsOf files groups)
    (f : IntactFile evp codec getters) {stats : RecorderGroupStats}
    (hcounts : Counts f.times stats) (hdisk : stats.diskBytes.toNat = f.disk)
    (htimesFit : (groupTimes (files ++ [f]) f.group).length < 2 ^ 64)
    (hdiskFits : groupDisk (files ++ [f]) f.group < 2 ^ 64) :
    ∃ groups', groupsAddSegment f.group stats groups = some groups' ∧
      GroupsOf (files ++ [f]) groups' := by
  rw [groupTimes_append, groupTimes_own, List.length_append] at htimesFit
  rw [groupDisk_append, groupDisk_own] at hdiskFits
  have hnames : ∀ name, (∃ g ∈ files ++ [f], g.group = name) ↔
      (∃ g ∈ files, g.group = name) ∨ f.group = name := by
    intro name
    simp only [List.mem_append, List.mem_singleton, or_and_right, exists_or, exists_eq_left]
  -- what the statistics of the group are afterwards
  have hown : ∀ group : RecorderGroupStats, group.name = f.group → Summarizes files group →
      ∃ group', groupStatsAddSegment group stats = some group' ∧ group'.name = f.group ∧
        Summarizes (files ++ [f]) group' := by
    intro group hname hgroup
    have hgroupDisk := hgroup.disk
    have hgroupCounts := hgroup.counts
    rw [hname] at hgroupDisk hgroupCounts
    obtain ⟨group', hadd, hcounts', hname', hdisk'⟩ := groupStatsAddSegment_eq hgroupCounts hcounts
      (by omega) htimesFit
    have hname'' := hname'.trans hname
    refine ⟨group', hadd, hname'', ⟨?_, ?_⟩⟩
    · rw [hname'', groupTimes_append, groupTimes_own]
      exact hcounts'
    · rw [hname'', groupDisk_append, groupDisk_own]
      omega
  by_cases hmem : f.group ∈ groups.map (·.name)
  · obtain ⟨group, hgroup, hname⟩ := List.mem_map.mp hmem
    obtain ⟨before, after, rfl⟩ := List.append_of_mem hgroup
    obtain ⟨group', hadd, hname', hsummarizes⟩ := hown group hname (h.summarizes group hgroup)
    have hnodup := h.nodup
    rw [List.map_append, List.map_cons, List.nodup_append, List.nodup_cons] at hnodup
    obtain ⟨-, ⟨hafter, -⟩, hdisjoint⟩ := hnodup
    have hbefore : ∀ g ∈ before, g.name ≠ f.group := fun g hg heq =>
      hdisjoint g.name (List.mem_map_of_mem hg) group.name (by simp) (heq.trans hname.symm)
    have hafter' : ∀ g ∈ after, g.name ≠ f.group := fun g hg heq =>
      hafter (by rw [hname, ← heq]; exact List.mem_map_of_mem hg)
    have hsame : (before ++ group' :: after).map (·.name) =
        (before ++ group :: after).map (·.name) := by
      simp only [List.map_append, List.map_cons, hname', hname]
    refine ⟨before ++ group' :: after, ?_, ?_, ?_, ?_⟩
    · rw [groupsAddSegment_skip _ _ hbefore, groupsAddSegment, if_pos hname, hadd]
      rfl
    · rw [hsame]
      exact h.nodup
    · intro name
      rw [hsame, h.names, hnames]
      refine ⟨.inl, fun hor => hor.elim id ?_⟩
      rintro rfl
      exact (h.names _).mp hmem
    · intro g hg
      rcases List.mem_append.mp hg with hg | hg
      · exact (h.summarizes g (by simp [hg])).other (hbefore g hg)
      · rcases List.mem_cons.mp hg with rfl | hg
        · exact hsummarizes
        · exact (h.summarizes g (by simp [hg])).other (hafter' g hg)
  · have hother : ∀ g ∈ groups, g.name ≠ f.group := fun g hg heq =>
      hmem (by rw [← heq]; exact List.mem_map_of_mem hg)
    -- no file so far is in the new group
    have hnone : files.filter (·.group = f.group) = [] := by
      rw [List.filter_eq_nil_iff]
      intro g hg heq
      exact hmem ((h.names _).mpr ⟨g, hg, of_decide_eq_true heq⟩)
    have hfresh : Summarizes files { name := f.group } := by
      constructor
      · rw [groupTimes, hnone]
        exact counts_empty rfl rfl rfl
      · rw [groupDisk, hnone]
        rfl
    obtain ⟨group', hadd, hname', hsummarizes⟩ := hown _ rfl hfresh
    refine ⟨groups ++ [group'], ?_, ?_, ?_, ?_⟩
    · have hskip := groupsAddSegment_skip f.group stats hother []
      rw [List.append_nil] at hskip
      rw [hskip, groupsAddSegment, hadd]
      rfl
    · rw [List.map_append, List.map_singleton, hname']
      exact h.nodup.append (List.nodup_singleton _) (by simpa using hmem)
    · intro name
      rw [List.map_append, List.mem_append, h.names, hnames, List.map_singleton,
        List.mem_singleton, hname', eq_comm (a := name)]
    · intro g hg
      rcases List.mem_append.mp hg with hg | hg
      · exact (h.summarizes g hg).other (hother g hg)
      · rw [List.mem_singleton.mp hg]
        exact hsummarizes

/-- **One turn of the loop.**
SOURCE: librecorder.c:1623-1677 -/
theorem GroupsOf.step (hgetters : ∀ compact chunk,
      (getters.entries compact chunk).length < 2 ^ 32)
    {files : List (IntactFile evp codec getters)} {groups : List RecorderGroupStats}
    (h : GroupsOf files groups) (f : IntactFile evp codec getters) (hread : f.Readable decryptor)
    (htimesFit : (groupTimes (files ++ [f]) f.group).length < 2 ^ 64)
    (hdiskFits : groupDisk (files ++ [f]) f.group < 2 ^ 64) :
    ∃ groups', groupsAddPath evp codec getters decryptor groups f.path = some groups' ∧
      GroupsOf (files ++ [f]) groups' := by
  have htimes := htimesFit
  have hdisk := hdiskFits
  rw [groupTimes_append, groupTimes_own, List.length_append] at htimes
  rw [groupDisk_append, groupDisk_own] at hdisk
  obtain ⟨stats, hstats, hcounts, hdisk'⟩ := segmentStats_counts hgetters f hread (by omega)
    (by omega)
  obtain ⟨groups', hadd, hgroups'⟩ := h.add f hcounts hdisk' htimesFit hdiskFits
  refine ⟨groups', ?_, hgroups'⟩
  simp only [groupsAddPath, IntactFile.path, f.group_eq, hstats, Option.bind_eq_bind,
    Option.bind_some]
  exact hadd

/-- The whole loop. The induction is over the files that are left. -/
theorem GroupsOf.run (hgetters : ∀ compact chunk,
      (getters.entries compact chunk).length < 2 ^ 32)
    (rest : List (IntactFile evp codec getters)) :
    ∀ (files : List (IntactFile evp codec getters)) (groups : List RecorderGroupStats),
      GroupsOf files groups → (∀ f ∈ rest, f.Readable decryptor) →
      (∀ name, (groupTimes (files ++ rest) name).length < 2 ^ 64) →
      (∀ name, groupDisk (files ++ rest) name < 2 ^ 64) →
      ∃ groups', (rest.map (·.path)).foldlM (groupsAddPath evp codec getters decryptor) groups =
          some groups' ∧
        GroupsOf (files ++ rest) groups' := by
  induction rest with
  | nil =>
    intro files groups h _ _ _
    rw [List.append_nil]
    exact ⟨groups, rfl, h⟩
  | cons f rest ih =>
    intro files groups h hread htimes hdisk
    have hsplit : files ++ f :: rest = (files ++ [f]) ++ rest := by simp
    rw [hsplit] at htimes hdisk ⊢
    have htimes' := htimes f.group
    have hdisk' := hdisk f.group
    rw [groupTimes_append, List.length_append] at htimes'
    rw [groupDisk_append] at hdisk'
    obtain ⟨groups₁, hadd, hgroups₁⟩ := h.step hgetters f (hread f (by simp)) (by omega) (by omega)
    obtain ⟨groups₂, hrun, hgroups₂⟩ := ih (files ++ [f]) groups₁ hgroups₁
      (fun g hg => hread g (by simp [hg])) htimes hdisk
    refine ⟨groups₂, ?_, hgroups₂⟩
    rw [List.map_cons, List.foldlM_cons, hadd]
    exact hrun

/-- Sorting by name leaves the groups as they are. -/
theorem GroupsOf.sort {files : List (IntactFile evp codec getters)}
    {groups groups' : List RecorderGroupStats} (h : GroupsOf files groups)
    (hperm : groups'.Perm groups) : GroupsOf files groups' := by
  have hnames := hperm.map (·.name)
  refine ⟨hnames.nodup_iff.mpr h.nodup, fun name => ?_, fun group hgroup => ?_⟩
  · rw [hnames.mem_iff]
    exact h.names name
  · exact h.summarizes group (hperm.mem_iff.mp hgroup)

end Groups

/-- **Group statistics do not depend on indexes**: for a reader that has the key of every
encrypted segment without a usable index, each group has the count and the extremes of the
entries stored in its files, whichever of the files have an index. Entries and bytes are
counted in 64 bits.
SOURCE: librecorder.c:1547-1573, 1599-1688; librecorder.h:97-104 -/
theorem group_stats_count_entries (evp : EvpOps) (codec : CodecOps) (getters : ChunkGetters)
    (hgetters : ∀ compact chunk, (getters.entries compact chunk).length < 2 ^ 32)
    (decryptor : Bool) (files : List (IntactFile evp codec getters))
    (hread : ∀ f ∈ files, f.Readable decryptor)
    (htimes : ∀ name, (groupTimes files name).length < 2 ^ 64)
    (hdisk : ∀ name, groupDisk files name < 2 ^ 64) :
    ∃ groups, recPlayerGetGroupStats evp codec getters decryptor (files.map (·.path)) =
        some groups ∧
      GroupsOf files groups ∧ SortedBy (compareOn (·.name)) groups := by
  have hempty : GroupsOf ([] : List (IntactFile evp codec getters)) [] :=
    ⟨List.nodup_nil, by simp, by simp⟩
  obtain ⟨groups, hrun, hgroups⟩ := GroupsOf.run hgetters files [] [] hempty hread
    (by rw [List.nil_append]; exact htimes) (by rw [List.nil_append]; exact hdisk)
  refine ⟨_, ?_, hgroups.sort (List.perm_insertionSort _ _), sortedBy_insertionSort groups⟩
  rw [recPlayerGetGroupStats, hrun]
  rfl

/-! ## With and without an index -/

/-- A reader's key opens every frame. -/
def unlockingEvp : EvpOps :=
  ⟨fun _ => none, fun _ => some (List.replicate segmentDekSize 0), fun _ _ _ _ => none,
    fun _ _ _ ciphertext _ => some ciphertext⟩

/-- Every chunk has one entry, at time zero. -/
def oneEntry : ChunkGetters := ⟨fun _ _ => [(⟨0, 0, 0, none⟩, 6)]⟩

def lockedHeader : SegmentHeader := { plainHeader with flags := flagEncrypted }

/-- An encrypted segment of one frame. -/
def lockedSegment : Bytes :=
  headerImage lockedHeader (encryptionExtension (List.replicate noncePrefixSize 0) [1]) [] ++
    frameImage (frameHeader 0 3 3 39) [1, 2, 3] (List.replicate gcmTagSize 0)

def lockedCall : SegmentFrameInfo × Bytes := (⟨0, 3, 3, 189, 39⟩, [1, 2, 3])

theorem lockedSegment_intact :
    IntactSegment unlockingEvp takingCodec lockedSegment lockedHeader [lockedCall] where
  parse := ⟨189, ⟨[1], List.replicate noncePrefixSize 0⟩, by decide +kernel⟩
  scan := ⟨⟨lockedHeader, {}, 228, [lockedCall.1]⟩, by decide +kernel, by decide +kernel, rfl⟩
  delivered := by decide +kernel

/-- The closed index of the segment. -/
def lockedIndex : Bytes :=
  (indexWriterClose true .ok (indexOfCalls oneEntry lockedHeader [(lockedCall, true)]) 228).2

/-- The segment in a group, without its index. -/
def lockedFile : IntactFile unlockingEvp takingCodec oneEntry where
  group := [97]
  blocks := 1
  segment := lockedSegment
  header := lockedHeader
  calls := [lockedCall]
  index := none
  group_eq := by decide
  intact := lockedSegment_intact
  written := by rintro _ _ ⟨⟩

/-- The same with its index. -/
def lockedIndexedFile : IntactFile unlockingEvp takingCodec oneEntry :=
  { lockedFile with
    index := some (1, lockedIndex)
    written := by
      rintro _ _ ⟨⟩
      exact .closed [(lockedCall, true)] 228 rfl (by rintro _ ⟨⟩; rfl) }

/-- One entry is counted in the index of a file, and one in a file without an index. -/
theorem group_stats_count_entries_locked :
    ∃ groups, recPlayerGetGroupStats unlockingEvp takingCodec oneEntry true
        ([lockedIndexedFile, lockedFile].map (·.path)) = some groups ∧
      GroupsOf [lockedIndexedFile, lockedFile] groups ∧ SortedBy (compareOn (·.name)) groups := by
  have hfiles : ∀ name, [lockedIndexedFile, lockedFile].filter (·.group = name) =
      [lockedIndexedFile, lockedFile] ∨
      [lockedIndexedFile, lockedFile].filter (·.group = name) = [] := by
    intro name
    by_cases hname : ([97] : Bytes) = name
    · exact .inl (by rw [← hname]; rfl)
    · exact .inr (by simp [lockedIndexedFile, lockedFile, hname])
  refine group_stats_count_entries unlockingEvp takingCodec oneEntry
    (fun _ _ => (by decide : 1 < 2 ^ 32)) true [lockedIndexedFile, lockedFile]
    (fun _ _ => .inr (.inl rfl)) (fun name => ?_) (fun name => ?_)
  · rcases hfiles name with hall | hnone
    · rw [groupTimes, hall]
      decide
    · rw [groupTimes, hnone]
      decide
  · rcases hfiles name with hall | hnone
    · rw [groupDisk, hall]
      decide
    · rw [groupDisk, hnone]
      decide

/-- **Without the key an encrypted segment needs its index.**
SOURCE: librecorder.c:1641-1648 -/
theorem group_stats_need_key :
    recPlayerGetGroupStats unlockingEvp takingCodec oneEntry false [lockedIndexedFile.path] =
        some [⟨[97], 1, 1024, 0, 0⟩] ∧
      recPlayerGetGroupStats unlockingEvp takingCodec oneEntry false [lockedFile.path] = none := by
  decide +kernel

end Recorder.Analysis
