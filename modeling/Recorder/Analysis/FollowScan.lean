import Recorder.Analysis.WallclockAgree
import Recorder.Model.Follow

/-!
# One follow scan

A follow scan goes through a list of segments in which the numbers of each group grow. It
delivers what lies behind the marks it started with in these segments, and leaves the mark
of each group at the end of the last of them (`followLoop_spec`). Whether this is all that
lies behind the marks depends on the segments it looks at: the newest one of each group,
or all of them after a change of the directory was noticed (`scanFollow_spec`).
-/

set_option autoImplicit false

namespace Recorder.Analysis

open Recorder.Model Recorder.Lib

/-! ## Marks -/

/-- Whether an entry lies behind the mark of its group. -/
def afterMark (marks : List FollowSegment) (e : StoredEntry) : Bool :=
  match findFollowSegment marks e.group with
  | none => true
  | some m => decide (m.segmentSeq < e.segmentSeq) ||
      (decide (m.segmentSeq = e.segmentSeq) && decide (m.committedEnd ≤ e.frameOffset))

section Marks

variable {marks : List FollowSegment} {path : SegmentPath} {committedEnd : UInt64}

/-- Remembering a segment leaves the marks of other groups. -/
theorem findFollowSegment_remember_ne {group : Bytes} (h : path.file.group ≠ group) :
    findFollowSegment (rememberFollowSegment marks path committedEnd) group =
      findFollowSegment marks group := by
  unfold findFollowSegment
  induction marks with
  | nil => simp [rememberFollowSegment, h]
  | cons item rest ih =>
    rw [rememberFollowSegment]
    by_cases hitem : item.group = path.file.group
    · have hne : ¬ item.group = group := by
        rw [hitem]
        exact h
      simp only [hitem, beq_self_eq_true, if_true]
      split
      · rfl
      · simp [h, hne]
    · simp only [beq_iff_eq, hitem, if_false, List.find?_cons, ih]

/-- The mark of its group is at the segment. -/
theorem findFollowSegment_remember_self (committedEnd : UInt64)
    (h : ∀ m, findFollowSegment marks path.file.group = some m → m.segmentSeq ≤ path.segmentSeq) :
    findFollowSegment (rememberFollowSegment marks path committedEnd) path.file.group =
      some ⟨path.file.group, path.segmentSeq, committedEnd⟩ := by
  unfold findFollowSegment at *
  induction marks with
  | nil => simp [rememberFollowSegment]
  | cons item rest ih =>
    rw [rememberFollowSegment]
    by_cases hitem : item.group = path.file.group
    · have hle := h item (by simp [hitem])
      simp [hitem, UInt64.not_lt.mpr hle]
    · have hrest := ih fun m hm => h m (by simp [hitem, hm])
      simp only [beq_iff_eq, hitem, if_false, List.find?_cons]
      rw [show (item.group == path.file.group) = false by simpa using hitem]
      exact hrest

/-- What is behind the marks depends on the mark of the group. -/
theorem afterMark_congr {marks' : List FollowSegment} {e : StoredEntry}
    (h : findFollowSegment marks' e.group = findFollowSegment marks e.group) :
    afterMark marks' e = afterMark marks e := by
  unfold afterMark
  rw [h]

end Marks

/-! ## Scanning one segment -/

/-- A frame is selected as a whole. -/
theorem filter_scanFrame (group : Bytes) (header : SegmentHeader) (frame : ChunkFrame)
    (p : StoredEntry → Bool) (b : Bool) (h : ∀ e ∈ scanFrame group header frame, p e = b) :
    (scanFrame group header frame).filter p = if b then scanFrame group header frame else [] := by
  cases b with
  | true => exact List.filter_eq_self.mpr h
  | false =>
    rw [if_neg (by simp), List.filter_eq_nil_iff]
    intro e he hp
    rw [h e he] at hp
    cases hp

/-- A scan from an offset delivers the entries from there on. -/
theorem entriesFrom_eq (f : StoreFile) (start : UInt64) :
    f.entriesFrom start = f.fileEntries.filter fun e => decide (start ≤ e.frameOffset) := by
  unfold StoreFile.entriesFrom StoreFile.fileEntries
  induction f.file.frames with
  | nil => rfl
  | cons frame rest ih =>
    have hframe := filter_scanFrame f.group f.file.header frame
      (fun e => decide (start ≤ e.frameOffset)) (decide (start ≤ frame.fileOffset))
      (by
        intro e he
        rw [(mem_scanFrame he).2.2.2])
    rw [List.flatMap_cons, List.filter_append, hframe, ← ih, List.filter_cons]
    split
    · rw [List.flatMap_cons]
    · rfl

/-- The segment of a path, with the number in its header. -/
def HeaderSeq (path : SegmentPath) : Prop := path.file.file.header.segmentSeq = path.segmentSeq

section Start

variable {marks : List FollowSegment} {path : SegmentPath}

/-- A segment in front of the mark has nothing behind it. -/
theorem filter_afterMark_of_skipped (hseq : HeaderSeq path)
    (h : followStart marks path = none) :
    path.file.fileEntries.filter (afterMark marks) = [] := by
  rw [List.filter_eq_nil_iff]
  intro e he hafter
  obtain ⟨hgroup, hesq, -, -⟩ := mem_fileEntries he
  unfold followStart at h
  unfold afterMark at hafter
  rw [hgroup] at hafter
  cases hfind : findFollowSegment marks path.file.group with
  | none => simp [hfind] at h
  | some m =>
    have hlt : path.segmentSeq < m.segmentSeq := by
      by_contra hnot
      simp only [hfind, hnot, if_false] at h
      split at h <;> cases h
    rw [hfind, hesq, hseq] at hafter
    simp only [Bool.or_eq_true, Bool.and_eq_true, decide_eq_true_eq] at hafter
    rcases hafter with hgt | ⟨heq, -⟩
    · exact absurd (UInt64.lt_trans hgt hlt) (UInt64.lt_irrefl _)
    · rw [heq] at hlt
      exact absurd hlt (UInt64.lt_irrefl _)

/-- The scan of a segment delivers what lies behind the mark, and the mark is not behind the
segment. -/
theorem entriesFrom_followStart (hseq : HeaderSeq path) {start : UInt64}
    (h : followStart marks path = some start) :
    path.file.entriesFrom start = path.file.fileEntries.filter (afterMark marks) ∧
      ∀ m, findFollowSegment marks path.file.group = some m → m.segmentSeq ≤ path.segmentSeq := by
  unfold followStart at h
  constructor
  · rw [entriesFrom_eq]
    apply List.filter_congr
    intro e he
    obtain ⟨hgroup, hesq, -, -⟩ := mem_fileEntries he
    unfold afterMark
    rw [hgroup, hesq, hseq]
    cases hfind : findFollowSegment marks path.file.group with
    | none =>
      simp only [hfind, Option.some.injEq] at h
      rw [← h]
      exact decide_eq_true (UInt64.zero_le)
    | some m =>
      simp only [hfind] at h
      split at h
      · cases h
      · next hnot =>
        split at h
        · next heq =>
          rw [Option.some.injEq] at h
          rw [← h, heq]
          simp [UInt64.lt_irrefl]
        · next hne =>
          rw [Option.some.injEq] at h
          have hlt : m.segmentSeq < path.segmentSeq :=
            UInt64.lt_of_le_of_ne (UInt64.not_lt.mp hnot) (Ne.symm hne)
          rw [← h]
          simp [hlt]
  · intro m hm
    simp only [hm] at h
    split at h
    · cases h
    · next hnot => exact UInt64.not_lt.mp hnot

end Start

/-! ## The loop over the segments -/

/-- In each group the numbers grow along the list. -/
def PathsInOrder (paths : List SegmentPath) : Prop :=
  paths.Pairwise fun p q => p.file.group = q.file.group → p.segmentSeq < q.segmentSeq

/-- A scanned segment moves the mark to its end; what lies behind it in later segments of
its group and in other groups stays the same. -/
theorem afterMark_remember {marks : List FollowSegment} {path q : SegmentPath}
    {committedEnd : UInt64} (hq : HeaderSeq q)
    (horder : path.file.group = q.file.group → path.segmentSeq < q.segmentSeq)
    (hle : ∀ m, findFollowSegment marks path.file.group = some m →
      m.segmentSeq ≤ path.segmentSeq) {e : StoredEntry} (he : e ∈ q.file.fileEntries) :
    afterMark (rememberFollowSegment marks path committedEnd) e = afterMark marks e := by
  obtain ⟨hgroup, hesq, -, -⟩ := mem_fileEntries he
  by_cases hsame : path.file.group = q.file.group
  · have hlt := horder hsame
    have hself := findFollowSegment_remember_self committedEnd hle
    have hleft : afterMark (rememberFollowSegment marks path committedEnd) e = true := by
      unfold afterMark
      rw [hgroup, ← hsame, hself, hesq, hq]
      simp [hlt]
    have hright : afterMark marks e = true := by
      unfold afterMark
      rw [hgroup, ← hsame, hesq, hq]
      cases hfind : findFollowSegment marks path.file.group with
      | none => rfl
      | some m =>
        have hmlt : m.segmentSeq < q.segmentSeq := UInt64.lt_of_le_of_lt (hle m hfind) hlt
        simp [hmlt]
    rw [hleft, hright]
  · apply afterMark_congr
    rw [hgroup]
    exact findFollowSegment_remember_ne hsame

/-- **The loop of `rec_player_scan_follow`** delivers what lies behind the marks in its
segments, and moves the mark of a group to the end of the last of them.
SOURCE: librecorder.c:1396-1409 -/
theorem followLoop_spec (paths : List SegmentPath) :
    ∀ marks : List FollowSegment, PathsInOrder paths → (∀ p ∈ paths, HeaderSeq p) →
      ∃ marks', followLoop (fun _ => none) paths marks =
          (true, paths.flatMap fun p => p.file.fileEntries.filter (afterMark marks), marks') ∧
        (∀ group, (∀ p ∈ paths, p.file.group ≠ group) →
          findFollowSegment marks' group = findFollowSegment marks group) ∧
        ∀ p ∈ paths, (∀ q ∈ paths, q.file.group = p.file.group → q.segmentSeq ≤ p.segmentSeq) →
          (∀ m, findFollowSegment marks p.file.group = some m → m.segmentSeq ≤ p.segmentSeq) →
          findFollowSegment marks' p.file.group =
            some ⟨p.file.group, p.segmentSeq, p.file.file.committedEnd⟩ := by
  induction paths with
  | nil =>
    intro marks _ _
    exact ⟨marks, rfl, fun _ _ => rfl, fun p hp => by cases hp⟩
  | cons path rest ih =>
    intro marks horder hseq
    obtain ⟨hfirst, hrest⟩ := List.pairwise_cons.mp horder
    have hseqRest : ∀ p ∈ rest, HeaderSeq p := fun p hp => hseq p (by simp [hp])
    have hseqPath := hseq path (by simp)
    cases hstart : followStart marks path with
    | none =>
      obtain ⟨marks', hloop, hother, hlast⟩ := ih marks hrest hseqRest
      refine ⟨marks', ?_, ?_, ?_⟩
      · rw [followLoop, hstart, List.flatMap_cons,
          filter_afterMark_of_skipped hseqPath hstart, List.nil_append]
        exact hloop
      · intro group hgroup
        exact hother group fun p hp => hgroup p (by simp [hp])
      · intro p hp hmax hle
        rcases List.mem_cons.mp hp with rfl | hp'
        · -- a segment that is passed over is in front of its mark
          exfalso
          unfold followStart at hstart
          cases hfind : findFollowSegment marks p.file.group with
          | none => simp [hfind] at hstart
          | some m =>
            have hnot := UInt64.not_lt.mpr (hle m hfind)
            simp only [hfind, hnot, if_false] at hstart
            split at hstart <;> cases hstart
        · exact hlast p hp' (fun q hq => hmax q (by simp [hq])) hle
    | some start =>
      obtain ⟨hentries, hlePath⟩ := entriesFrom_followStart hseqPath hstart
      obtain ⟨marks', hloop, hother, hlast⟩ :=
        ih (rememberFollowSegment marks path path.file.file.committedEnd) hrest hseqRest
      have hcongr : (rest.flatMap fun p => p.file.fileEntries.filter
          (afterMark (rememberFollowSegment marks path path.file.file.committedEnd))) =
          rest.flatMap fun p => p.file.fileEntries.filter (afterMark marks) := by
        apply List.flatMap_congr
        intro q hq
        apply List.filter_congr
        intro e he
        exact afterMark_remember (hseqRest q hq) (hfirst q hq) hlePath he
      refine ⟨marks', ?_, ?_, ?_⟩
      · rw [followLoop, hstart]
        simp only [scanPathWithContext, hloop, hcongr, List.flatMap_cons, hentries]
      · intro group hgroup
        rw [hother group fun p hp => hgroup p (by simp [hp])]
        exact findFollowSegment_remember_ne (hgroup path (by simp))
      · intro p hp hmax hle
        rcases List.mem_cons.mp hp with rfl | hp'
        · rw [hother p.file.group]
          · exact findFollowSegment_remember_self _ hlePath
          · intro q hq hgroup
            have hlt := hfirst q hq hgroup.symm
            have hge := hmax q (by simp [hq]) hgroup
            exact absurd hlt (UInt64.not_lt.mpr hge)
        · apply hlast p hp' fun q hq => hmax q (by simp [hq])
          intro m hm
          by_cases hsame : path.file.group = p.file.group
          · rw [← hsame, findFollowSegment_remember_self _ hlePath, Option.some.injEq] at hm
            rw [← hm]
            exact UInt64.le_of_lt (hfirst p hp' hsame)
          · rw [findFollowSegment_remember_ne hsame] at hm
            exact hle m hm

/-! ## The segments a scan looks at -/

/-- The newest segment of its group. -/
structure IsNewest (store : Store) (f : StoreFile) : Prop where
  mem : f ∈ store.files
  le : ∀ g ∈ store.files, g.group = f.group → g.nameSeq ≤ f.nameSeq

/-- The fold keeps the largest number. -/
theorem latestSegment_fold (rest : List StoreFile) : ∀ best : StoreFile, ∃ f,
    rest.foldl (fun best f =>
      match best with
      | none => some f
      | some b => if f.nameSeq > b.nameSeq then some f else some b) (some best) = some f ∧
    (f = best ∨ f ∈ rest) ∧ best.nameSeq ≤ f.nameSeq ∧ ∀ g ∈ rest, g.nameSeq ≤ f.nameSeq := by
  induction rest with
  | nil =>
    intro best
    exact ⟨best, rfl, .inl rfl, UInt64.le_refl _, fun g hg => by cases hg⟩
  | cons a rest ih =>
    intro best
    rw [List.foldl_cons]
    by_cases hgt : a.nameSeq > best.nameSeq
    · obtain ⟨f, hf, hwhere, hle, hall⟩ := ih a
      refine ⟨f, by simp only [hgt, if_true]; exact hf, ?_, ?_, ?_⟩
      · rcases hwhere with rfl | hmem
        · exact .inr (by simp)
        · exact .inr (by simp [hmem])
      · exact UInt64.le_trans (UInt64.le_of_lt hgt) hle
      · intro g hg
        rcases List.mem_cons.mp hg with rfl | hg'
        · exact hle
        · exact hall g hg'
    · obtain ⟨f, hf, hwhere, hle, hall⟩ := ih best
      refine ⟨f, by simp only [hgt, if_false]; exact hf, ?_, hle, ?_⟩
      · rcases hwhere with rfl | hmem
        · exact .inl rfl
        · exact .inr (by simp [hmem])
      · intro g hg
        rcases List.mem_cons.mp hg with rfl | hg'
        · exact UInt64.le_trans (UInt64.not_lt.mp hgt) hle
        · exact hall g hg'

/-- The latest segment has the largest number. -/
theorem latestSegment_spec (files : List StoreFile) (hne : files ≠ []) :
    ∃ f, latestSegment files = some f ∧ f ∈ files ∧ ∀ g ∈ files, g.nameSeq ≤ f.nameSeq := by
  cases files with
  | nil => exact absurd rfl hne
  | cons a rest =>
    obtain ⟨f, hf, hwhere, hle, hall⟩ := latestSegment_fold rest a
    refine ⟨f, hf, ?_, ?_⟩
    · rcases hwhere with rfl | hmem
      · exact List.mem_cons_self
      · exact List.mem_cons_of_mem _ hmem
    · intro g hg
      rcases List.mem_cons.mp hg with rfl | hg'
      · exact hle
      · exact hall g hg'

section Paths

variable {store : Store} {filter : List Bytes}

/-- In a directory a group and a number name one file. -/
theorem file_eq_of_name (hwf : StoreWf store) {f g : StoreFile} (hf : f ∈ store.files)
    (hg : g ∈ store.files) (hgroup : f.group = g.group) (hseq : f.nameSeq = g.nameSeq) : f = g := by
  by_contra hne
  have hsymm : Std.Symm fun f g : StoreFile => f.group = g.group → f.nameSeq ≠ g.nameSeq :=
    ⟨fun _ _ h heq => (h heq.symm).symm⟩
  exact hwf.names.forall hf hg hne hgroup hseq

/-- A group has one newest segment. -/
theorem IsNewest.unique (hwf : StoreWf store) {f g : StoreFile} (hf : IsNewest store f)
    (hg : IsNewest store g) (hgroup : f.group = g.group) : f = g := by
  apply file_eq_of_name hwf hf.mem hg.mem hgroup
  exact UInt64.le_antisymm (hg.le f hf.mem hgroup) (hf.le g hg.mem hgroup.symm)

/-- Every group with a segment has a newest one. -/
theorem exists_newest {f : StoreFile} (hf : f ∈ store.files) :
    ∃ g, IsNewest store g ∧ g.group = f.group ∧
      latestSegment (store.files.filter (·.group == f.group)) = some g := by
  have hmem : f ∈ store.files.filter (·.group == f.group) := by simp [hf]
  obtain ⟨g, hg, hgmem, hle⟩ := latestSegment_spec _ (List.ne_nil_of_mem hmem)
  obtain ⟨hgfiles, hgroup⟩ := List.mem_filter.mp hgmem
  rw [beq_iff_eq] at hgroup
  refine ⟨g, ⟨hgfiles, ?_⟩, hgroup, hg⟩
  intro x hx hxg
  exact hle x (List.mem_filter.mpr ⟨hx, by rw [beq_iff_eq, hxg, hgroup]⟩)

/-- The latest segments are the newest ones of the selected groups. -/
theorem mem_collectLatest (hwf : StoreWf store) (hdir : store.directory = true)
    {path : SegmentPath} :
    path ∈ collectLatestSegmentPaths store filter ↔
      IsNewest store path.file ∧ groupAllowed filter path.file.group ∧
        path.segmentSeq = path.file.nameSeq := by
  unfold collectLatestSegmentPaths
  rw [if_pos hdir, List.mem_filterMap]
  constructor
  · rintro ⟨group, hgroup, hpath⟩
    obtain ⟨hmem, hallowed⟩ := List.mem_filter.mp hgroup
    obtain ⟨f, hf, rfl⟩ := List.mem_map.mp (List.mem_eraseDups.mp hmem)
    obtain ⟨g, hnewest, hgg, hlatest⟩ := exists_newest hf
    rw [hlatest, Option.map_some, Option.some.injEq] at hpath
    subst hpath
    exact ⟨hnewest, by rw [hgg]; exact hallowed, rfl⟩
  · rintro ⟨hnewest, hallowed, hseq⟩
    refine ⟨path.file.group, List.mem_filter.mpr ⟨?_, hallowed⟩, ?_⟩
    · exact List.mem_eraseDups.mpr (List.mem_map_of_mem hnewest.mem)
    · obtain ⟨g, hg, hgg, hlatest⟩ := exists_newest hnewest.mem
      obtain rfl := hg.unique hwf hnewest hgg
      rw [hlatest, Option.map_some, ← hseq]

/-- Without repetitions no element is there twice. -/
theorem nodup_eraseDups (n : ℕ) :
    ∀ l : List Bytes, l.length ≤ n → l.eraseDups.Nodup := by
  induction n with
  | zero =>
    intro l hl
    rw [List.length_eq_zero_iff.mp (by omega : l.length = 0)]
    exact List.nodup_nil
  | succ n ih =>
    intro l hl
    cases l with
    | nil => exact List.nodup_nil
    | cons a l =>
      rw [List.eraseDups_cons, List.nodup_cons]
      have hlen : (l.filter fun b => !(b == a)).length ≤ n :=
        (List.length_filter_le _ _).trans (by rw [List.length_cons] at hl; omega)
      refine ⟨?_, ih _ hlen⟩
      intro hmem
      simp [List.mem_eraseDups] at hmem

/-- The newest segments are of different groups. -/
theorem collectLatest_groups (filter : List Bytes) (hdir : store.directory = true) :
    (collectLatestSegmentPaths store filter).Pairwise fun p q => p.file.group ≠ q.file.group := by
  unfold collectLatestSegmentPaths
  rw [if_pos hdir, List.pairwise_filterMap]
  have hnodup : (store.groups.filter (groupAllowed filter)).Nodup :=
    (nodup_eraseDups _ _ (Nat.le_refl _)).filter _
  refine List.Pairwise.imp_of_mem ?_ hnodup
  intro a b ha hb hne p hp q hq heq
  have hgroup : ∀ (g : Bytes) (p : SegmentPath), (latestSegment
      (store.files.filter (·.group == g))).map (fun f => (⟨f, f.nameSeq⟩ : SegmentPath)) = some p →
      p.file.group = g := by
    intro g p hp
    obtain ⟨f, hf, rfl⟩ := Option.map_eq_some_iff.mp hp
    have hne' : store.files.filter (·.group == g) ≠ [] := by
      intro hnil
      rw [hnil] at hf
      cases hf
    obtain ⟨f', hf', hmem, -⟩ := latestSegment_spec _ hne'
    rw [hf, Option.some.injEq] at hf'
    subst hf'
    simpa using (List.mem_filter.mp hmem).2
  apply hne
  rw [← hgroup a p hp, ← hgroup b q hq, heq]

/-- In a directory the segments of the selected groups are collected. -/
theorem collectSegmentPaths_eq (hdir : store.directory = true) :
    collectSegmentPaths store filter =
      (store.files.filter fun f => groupAllowed filter f.group).map fun f => ⟨f, f.nameSeq⟩ := by
  unfold collectSegmentPaths
  rw [if_pos hdir]

/-- The latest segments are scanned in order. -/
theorem sortPaths_latest_inOrder (hdir : store.directory = true) :
    PathsInOrder (sortPaths (collectLatestSegmentPaths store filter)) := by
  have hsymm : ∀ {p q : SegmentPath}, p.file.group ≠ q.file.group → q.file.group ≠ p.file.group :=
    fun h => h.symm
  have h := ((sortPaths_perm _).pairwise_iff hsymm).mpr (collectLatest_groups filter hdir)
  exact h.imp fun hne heq => absurd heq hne

/-- All segments are scanned in order. -/
theorem sortPaths_all_inOrder (hwf : StoreWf store) (hdir : store.directory = true) :
    PathsInOrder (sortPaths (collectSegmentPaths store filter)) := by
  have h := (sortPaths_sorted (collectSegmentPaths store filter)).and
    (sortPaths_names hwf)
  refine h.imp_of_mem ?_
  rintro p q hp hq ⟨hle, hne⟩ hgroup
  have hp' := segmentSeq_of_directory hdir hp
  have hq' := segmentSeq_of_directory hdir hq
  apply UInt64.lt_of_le_of_ne hle
  rw [hp', hq']
  exact hne hgroup

end Paths

/-! ## The scan -/

/-- Marks that do not point behind the newest segment of their group. -/
def MarksBehind (store : Store) (marks : List FollowSegment) : Prop :=
  ∀ group m, findFollowSegment marks group = some m → ∃ f, IsNewest store f ∧ f.group = group ∧
    m.segmentSeq ≤ f.nameSeq ∧ (m.segmentSeq = f.nameSeq → m.committedEnd ≤ f.file.committedEnd)

/-- Marks at the ends of the newest segments of the selected groups, with all other marks as
they were. -/
structure MarksAtEnd (store : Store) (filter : List Bytes) (marks marks' : List FollowSegment) :
    Prop where
  newest : ∀ f, IsNewest store f → groupAllowed filter f.group →
    findFollowSegment marks' f.group = some ⟨f.group, f.nameSeq, f.file.committedEnd⟩
  other : ∀ group, (∀ f ∈ store.files, f.group = group → groupAllowed filter f.group = false) →
    findFollowSegment marks' group = findFollowSegment marks group

/-- Only the newest segment of each selected group has entries behind the mark. -/
def NewestOnly (store : Store) (filter : List Bytes) (marks : List FollowSegment) : Prop :=
  ∀ f ∈ store.files, groupAllowed filter f.group →
    (∃ g ∈ store.files, g.group = f.group ∧ f.nameSeq < g.nameSeq) →
    ∀ e ∈ f.fileEntries, afterMark marks e = false

section Scan

variable {store : Store} {filter : List Bytes}

/-- The loop over segments of the selected groups, the newest ones among them. -/
theorem followLoop_atEnd (filter : List Bytes) {marks : List FollowSegment}
    {paths : List SegmentPath}
    (hwf : StoreWf store) (hbehind : MarksBehind store marks) (horder : PathsInOrder paths)
    (hpaths : ∀ p ∈ paths, p.file ∈ store.files ∧ groupAllowed filter p.file.group ∧
      p.segmentSeq = p.file.nameSeq)
    (hnewest : ∀ f, IsNewest store f → groupAllowed filter f.group →
      (⟨f, f.nameSeq⟩ : SegmentPath) ∈ paths) :
    ∃ marks', followLoop (fun _ => none) paths marks =
        (true, paths.flatMap fun p => p.file.fileEntries.filter (afterMark marks), marks') ∧
      MarksAtEnd store filter marks marks' := by
  have hseq : ∀ p ∈ paths, HeaderSeq p := by
    intro p hp
    obtain ⟨hmem, -, hname⟩ := hpaths p hp
    rw [HeaderSeq, hwf.headers _ hmem, hname]
  obtain ⟨marks', hloop, hother, hlast⟩ := followLoop_spec paths marks horder hseq
  refine ⟨marks', hloop, ?_, ?_⟩
  · intro f hf hallowed
    apply hlast ⟨f, f.nameSeq⟩ (hnewest f hf hallowed)
    · intro q hq hgroup
      obtain ⟨hmem, -, hname⟩ := hpaths q hq
      rw [hname]
      exact hf.le _ hmem hgroup
    · intro m hm
      obtain ⟨g, hg, hgroup, hle, -⟩ := hbehind _ m hm
      rw [hg.unique hwf hf hgroup] at hle
      exact hle
  · intro group hnone
    apply hother
    intro p hp hgroup
    obtain ⟨hmem, hallowed, -⟩ := hpaths p hp
    rw [hnone _ hmem hgroup] at hallowed
    cases hallowed

/-- The loop over the newest segments. -/
theorem followLoop_latest (filter : List Bytes) (hwf : StoreWf store)
    (hdir : store.directory = true)
    {marks : List FollowSegment} (hbehind : MarksBehind store marks) :
    ∃ marks',
      followLoop (fun _ => none) (sortPaths (collectLatestSegmentPaths store filter)) marks =
        (true, (sortPaths (collectLatestSegmentPaths store filter)).flatMap fun p =>
          p.file.fileEntries.filter (afterMark marks), marks') ∧
      MarksAtEnd store filter marks marks' := by
  apply followLoop_atEnd filter hwf hbehind (sortPaths_latest_inOrder hdir)
  · intro p hp
    obtain ⟨hnewest, hallowed, hseq⟩ :=
      (mem_collectLatest hwf hdir).mp ((sortPaths_perm _).mem_iff.mp hp)
    exact ⟨hnewest.mem, hallowed, hseq⟩
  · intro f hf hallowed
    exact (sortPaths_perm _).mem_iff.mpr ((mem_collectLatest hwf hdir).mpr ⟨hf, hallowed, rfl⟩)

/-- The sorted segments are those of the selected groups. -/
theorem mem_sortPaths_all (hdir : store.directory = true) {p : SegmentPath} :
    p ∈ sortPaths (collectSegmentPaths store filter) ↔
      p.file ∈ store.files ∧ groupAllowed filter p.file.group ∧ p.segmentSeq = p.file.nameSeq := by
  rw [(sortPaths_perm _).mem_iff, collectSegmentPaths_eq hdir, List.mem_map]
  constructor
  · rintro ⟨f, hf, rfl⟩
    obtain ⟨hmem, hallowed⟩ := List.mem_filter.mp hf
    exact ⟨hmem, hallowed, rfl⟩
  · rintro ⟨hmem, hallowed, hseq⟩
    exact ⟨p.file, List.mem_filter.mpr ⟨hmem, hallowed⟩, by rw [← hseq]⟩

/-- A full scan delivers everything behind the marks. -/
theorem flatMap_all_perm (marks : List FollowSegment) :
    ((sortPaths (collectSegmentPaths store filter)).flatMap fun p =>
      p.file.fileEntries.filter (afterMark marks)).Perm
      ((selectedEntries store filter).filter (afterMark marks)) := by
  have hselected : (selectedEntries store filter).filter (afterMark marks) =
      (collectSegmentPaths store filter).flatMap fun p =>
        p.file.fileEntries.filter (afterMark marks) := by
    unfold selectedEntries
    rw [List.filter_flatMap, ← collectSegmentPaths_map_file, List.flatMap_map]
  rw [hselected]
  exact (sortPaths_perm _).flatMap_right _

/-- A scan of the newest segments delivers everything behind the marks if nothing behind
them is in another segment. -/
theorem flatMap_latest_perm (hwf : StoreWf store) (hdir : store.directory = true)
    {marks : List FollowSegment} (h : NewestOnly store filter marks) :
    ((sortPaths (collectLatestSegmentPaths store filter)).flatMap fun p =>
      p.file.fileEntries.filter (afterMark marks)).Perm
      ((selectedEntries store filter).filter (afterMark marks)) := by
  classical
  refine List.Perm.trans ?_ (flatMap_all_perm marks)
  set all := sortPaths (collectSegmentPaths store filter) with hall
  set latest := sortPaths (collectLatestSegmentPaths store filter) with hlatest
  have hlatestMem : ∀ p, p ∈ latest ↔ p ∈ all ∧ IsNewest store p.file := by
    intro p
    rw [hlatest, (sortPaths_perm _).mem_iff, mem_collectLatest hwf hdir, hall,
      mem_sortPaths_all hdir]
    constructor
    · rintro ⟨hnewest, hallowed, hseq⟩
      exact ⟨⟨hnewest.mem, hallowed, hseq⟩, hnewest⟩
    · rintro ⟨⟨-, hallowed, hseq⟩, hnewest⟩
      exact ⟨hnewest, hallowed, hseq⟩
  have hallNodup : all.Nodup := by
    refine (sortPaths_names hwf).imp ?_
    rintro p q hne rfl
    exact hne rfl rfl
  have hlatestNodup : latest.Nodup := by
    rw [hlatest, (sortPaths_perm _).nodup_iff]
    refine (collectLatest_groups filter hdir).imp ?_
    rintro p q hne rfl
    exact hne rfl
  -- the newest segments among all are those that are scanned
  have hperm : latest.Perm (all.filter fun p => decide (IsNewest store p.file)) := by
    rw [List.perm_ext_iff_of_nodup hlatestNodup (hallNodup.filter _)]
    intro p
    rw [hlatestMem, List.mem_filter, decide_eq_true_eq]
  have hrest : ((all.filter fun p => !decide (IsNewest store p.file)).flatMap fun p =>
      p.file.fileEntries.filter (afterMark marks)) = [] := by
    rw [List.flatMap_eq_nil_iff]
    intro p hp
    obtain ⟨hpall, hnot⟩ := List.mem_filter.mp hp
    obtain ⟨hmem, hallowed, -⟩ := (mem_sortPaths_all hdir).mp hpall
    have hnot' : ¬ IsNewest store p.file := by simpa using hnot
    obtain ⟨g, hg, hgroup, hlt⟩ : ∃ g ∈ store.files, g.group = p.file.group ∧
        p.file.nameSeq < g.nameSeq := by
      by_contra hnone
      apply hnot'
      refine ⟨hmem, ?_⟩
      intro g hg hgroup
      by_contra hle
      exact hnone ⟨g, hg, hgroup, UInt64.not_le.mp hle⟩
    rw [List.filter_eq_nil_iff]
    intro e he
    rw [h p.file hmem hallowed ⟨g, hg, hgroup, hlt⟩ e he]
    exact Bool.false_ne_true
  calc latest.flatMap (fun p => p.file.fileEntries.filter (afterMark marks))
    _ |>.Perm ((all.filter fun p => decide (IsNewest store p.file)).flatMap fun p =>
          p.file.fileEntries.filter (afterMark marks)) := hperm.flatMap_right _
    _ = ((all.filter fun p => decide (IsNewest store p.file)) ++
          all.filter fun p => !decide (IsNewest store p.file)).flatMap fun p =>
            p.file.fileEntries.filter (afterMark marks) := by
        rw [List.flatMap_append, hrest, List.append_nil]
    _ |>.Perm (all.flatMap fun p => p.file.fileEntries.filter (afterMark marks)) :=
        (List.filter_append_perm _ all).flatMap_right _

/-- **A follow scan of an initialised reader**: everything behind the marks is delivered and
the marks go to the ends of the newest segments, if the directory was looked at anew or
nothing behind the marks is in an older segment.
SOURCE: librecorder.c:1376-1438 -/
theorem scanFollow_spec (filter : List Bytes) (hwf : StoreWf store)
    (hdir : store.directory = true) (n : ℕ)
    {st : FollowState} (hinit : st.initialized = true) (hbehind : MarksBehind store st.segments) :
    ∃ entries marks', scanFollow store filter (fun _ => none) n st =
        (0, entries, { st with segments := marks', topologyPending := false }) ∧
      MarksAtEnd store filter st.segments marks' ∧
      (st.topologyPending = true ∨ NewestOnly store filter st.segments →
        entries.Perm ((selectedEntries store filter).filter (afterMark st.segments))) := by
  have hfinish : ∀ (paths : List SegmentPath) (entries : List StoredEntry)
      (marks' : List FollowSegment),
      (if store.directory && st.initialized && st.topologyPending then
        collectSegmentPaths store filter else collectLatestSegmentPaths store filter) = paths →
      followLoop (fun _ => none) (sortPaths paths) st.segments = (true, entries, marks') →
      scanFollow store filter (fun _ => none) n st =
        (0, entries, { st with segments := marks', topologyPending := false }) := by
    intro paths entries marks' hpaths hloop
    simp only [scanFollow]
    rw [hpaths, hloop]
    simp [hinit]
  cases hpending : st.topologyPending with
  | true =>
    obtain ⟨marks', hloop, hend⟩ := followLoop_atEnd filter hwf hbehind
      (sortPaths_all_inOrder hwf hdir) (fun p hp => (mem_sortPaths_all hdir).mp hp)
      (fun f hf hallowed => (mem_sortPaths_all hdir).mpr ⟨hf.mem, hallowed, rfl⟩)
    refine ⟨_, marks', hfinish (collectSegmentPaths store filter) _ marks' ?_ hloop, hend, ?_⟩
    · simp [hdir, hinit, hpending]
    · intro _
      exact flatMap_all_perm _
  | false =>
    obtain ⟨marks', hloop, hend⟩ := followLoop_latest filter hwf hdir hbehind
    refine ⟨_, marks', hfinish (collectLatestSegmentPaths store filter) _ marks' ?_ hloop, hend, ?_⟩
    · simp [hpending]
    · rintro (hfalse | hnewest)
      · cases hfalse
      · exact flatMap_latest_perm hwf hdir hnewest

end Scan

/-! ## Nothing behind the marks -/

/-- Marks at the ends of the newest segments, with no change of the directory noticed. -/
structure CaughtUp (store : Store) (filter : List Bytes) (st : FollowState) : Prop where
  initialized : st.initialized = true
  topology : st.topologyPending = false
  mark : ∀ path ∈ collectLatestSegmentPaths store filter,
    findFollowSegment st.segments path.file.group =
      some ⟨path.file.group, path.segmentSeq, path.file.file.committedEnd⟩

section CaughtUp

/-- Of one element nothing is asked. -/
theorem pairwise_of_length_le_one {α : Type} {R : α → α → Prop} {l : List α}
    (h : l.length ≤ 1) : l.Pairwise R := by
  match l, h with
  | [], _ => exact List.Pairwise.nil
  | [a], _ => exact List.pairwise_singleton R a

variable {store : Store} {filter : List Bytes} {marks : List FollowSegment}

/-- A mark at the end of its segment stays when the segment is remembered again. -/
theorem findFollowSegment_remember_same {path : SegmentPath}
    (h : findFollowSegment marks path.file.group =
      some ⟨path.file.group, path.segmentSeq, path.file.file.committedEnd⟩) (group : Bytes) :
    findFollowSegment (rememberFollowSegment marks path path.file.file.committedEnd) group =
      findFollowSegment marks group := by
  by_cases hsame : path.file.group = group
  · subst hsame
    rw [h]
    apply findFollowSegment_remember_self
    intro m hm
    rw [h, Option.some.injEq] at hm
    rw [← hm]
    exact UInt64.le_refl _
  · exact findFollowSegment_remember_ne hsame

/-- Nothing is behind the committed end. -/
theorem entriesFrom_committedEnd (f : StoreFile) : f.entriesFrom f.file.committedEnd = [] := by
  have hnone : f.file.frames.filter (f.file.committedEnd ≤ ·.fileOffset) = [] := by
    rw [List.filter_eq_nil_iff]
    intro frame hframe hle
    have hlt := f.file.offset_lt_end frame hframe
    exact UInt64.not_lt.mpr (of_decide_eq_true hle) hlt
  rw [StoreFile.entriesFrom, hnone, List.flatMap_nil]

/-- The loop over segments whose marks stand at their ends. -/
theorem followLoop_caughtUp (paths : List SegmentPath) :
    ∀ marks : List FollowSegment, (∀ path ∈ paths, findFollowSegment marks path.file.group =
        some ⟨path.file.group, path.segmentSeq, path.file.file.committedEnd⟩) →
      ∃ marks', followLoop (fun _ => none) paths marks = (true, [], marks') ∧
        ∀ group, findFollowSegment marks' group = findFollowSegment marks group := by
  induction paths with
  | nil => exact fun marks _ => ⟨marks, rfl, fun _ => rfl⟩
  | cons path rest ih =>
    intro marks h
    have hpath := h path (by simp)
    have hsame := findFollowSegment_remember_same hpath
    obtain ⟨marks', hloop, hfind⟩ :=
      ih (rememberFollowSegment marks path path.file.file.committedEnd) (by
        intro p hp
        rw [hsame]
        exact h p (by simp [hp]))
    refine ⟨marks', ?_, fun group => (hfind group).trans (hsame group)⟩
    have hstart : followStart marks path = some path.file.file.committedEnd := by
      simp [followStart, hpath]
    simp only [followLoop, hstart, scanPathWithContext, entriesFrom_committedEnd, hloop,
      List.append_nil]

/-- **A scan with nothing behind the marks** delivers nothing and leaves the marks where they
are.
SOURCE: librecorder.c:1376-1438 -/
theorem scanFollow_caughtUp {st : FollowState} (h : CaughtUp store filter st) (n : ℕ) :
    ∃ st', scanFollow store filter (fun _ => none) n st = (0, [], st') ∧
      CaughtUp store filter st' := by
  obtain ⟨marks', hloop, hfind⟩ :=
    followLoop_caughtUp (sortPaths (collectLatestSegmentPaths store filter)) st.segments
      fun path hpath => h.mark path ((sortPaths_perm _).mem_iff.mp hpath)
  refine ⟨{ st with segments := marks', initialized := true, topologyPending := false }, ?_,
    rfl, rfl, ?_⟩
  · simp [scanFollow, h.initialized, h.topology, hloop]
  · intro path hpath
    rw [hfind]
    exact h.mark path hpath

/-- The newest segments are of different groups, for both kinds of reader. -/
theorem collectLatest_pairwise (hwf : StoreWf store) (filter : List Bytes) :
    (sortPaths (collectLatestSegmentPaths store filter)).Pairwise
      fun p q => p.file.group ≠ q.file.group := by
  have hsymm : ∀ {p q : SegmentPath}, p.file.group ≠ q.file.group → q.file.group ≠ p.file.group :=
    fun h => h.symm
  rw [(sortPaths_perm _).pairwise_iff hsymm]
  cases hdir : store.directory with
  | true => exact collectLatest_groups filter hdir
  | false =>
    apply pairwise_of_length_le_one
    simp only [collectLatestSegmentPaths, hdir, Bool.false_eq_true, if_false, addReaderFilePath,
      List.length_map]
    exact (List.length_filter_le _ _).trans (hwf.single hdir)

/-- **`initialize_tail_follow`** leaves nothing behind the marks.
SOURCE: librecorder.c:1463-1496 -/
theorem initializeTailFollow_caughtUp (hwf : StoreWf store) (filter : List Bytes) :
    CaughtUp store filter (initializeTailFollow store filter {}) := by
  have hfold : ∀ (paths : List SegmentPath) (marks : List FollowSegment),
      paths.Pairwise (fun p q => p.file.group ≠ q.file.group) →
      (∀ p ∈ paths, findFollowSegment marks p.file.group = none) →
      (∀ group, (∀ p ∈ paths, p.file.group ≠ group) →
        findFollowSegment (paths.foldl (fun marks path =>
          rememberFollowSegment marks path path.file.file.committedEnd) marks) group =
          findFollowSegment marks group) ∧
      ∀ p ∈ paths, findFollowSegment (paths.foldl (fun marks path =>
          rememberFollowSegment marks path path.file.file.committedEnd) marks) p.file.group =
        some ⟨p.file.group, p.segmentSeq, p.file.file.committedEnd⟩ := by
    intro paths
    induction paths with
    | nil => exact fun marks _ _ => ⟨fun _ _ => rfl, fun p hp => by cases hp⟩
    | cons path rest ih =>
      intro marks hpair hnone
      obtain ⟨hfirst, hrest⟩ := List.pairwise_cons.mp hpair
      obtain ⟨hother, hmark⟩ :=
        ih (rememberFollowSegment marks path path.file.file.committedEnd) hrest (by
          intro p hp
          rw [findFollowSegment_remember_ne (hfirst p hp)]
          exact hnone p (by simp [hp]))
      refine ⟨?_, ?_⟩
      · intro group hgroup
        rw [List.foldl_cons, hother group fun p hp => hgroup p (by simp [hp])]
        exact findFollowSegment_remember_ne (hgroup path (by simp))
      · intro p hp
        rw [List.foldl_cons]
        rcases List.mem_cons.mp hp with rfl | hp
        · rw [hother p.file.group fun q hq => (hfirst q hq).symm]
          apply findFollowSegment_remember_self
          intro m hm
          rw [hnone p (by simp)] at hm
          cases hm
        · exact hmark p hp
  refine ⟨rfl, rfl, ?_⟩
  intro path hpath
  exact (hfold _ [] (collectLatest_pairwise hwf filter) (fun _ _ => rfl)).2 path
    ((sortPaths_perm _).mem_iff.mpr hpath)

end CaughtUp

end Recorder.Analysis
