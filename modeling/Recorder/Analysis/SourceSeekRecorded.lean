import Recorder.Analysis.SourceSeek

/-!
# Where a search in receipt order puts a source

`source_seek_recorded_after` passes over the segments of earlier boots, searches those of the
key's boot and enters the first one of a later boot. In a source that is in receipt order it
leaves exactly what lies behind the key, or, where nothing does, the first entry of the last
segment it decoded when that one has no index (`sourceSeekRecordedAfter_spec`).
-/

set_option autoImplicit false

namespace Recorder.Analysis

open Recorder.Model Recorder.Lib

/-! ## The search behind a key in receipt order -/

section Compare

variable {a b : StoredEntry}

theorem compareRecorded_of_boot_lt (h : a.bootSeq < b.bootSeq) : compareRecorded a b = .lt := by
  simp only [compareRecorded, compareLex, compareOn, Ordering.then_eq_lt, Std.compare_eq_lt]
  exact .inl h

theorem compareRecorded_of_monotonic_lt (hboot : a.bootSeq = b.bootSeq)
    (h : a.data.monotonicTs < b.data.monotonicTs) : compareRecorded a b = .lt := by
  simp only [compareRecorded, compareLex, compareOn, Ordering.then_eq_lt, Std.compare_eq_lt,
    Std.LawfulEqCmp.compare_eq_iff_eq]
  exact .inr ⟨hboot, .inl h⟩

end Compare

section BestAfter

variable {cmp : StoredEntry → StoredEntry → Ordering} [Std.TransCmp cmp] {key : StoredEntry}

/-- In sorted entries a choice is never replaced by a later entry. -/
theorem bestAfter_keeps (l : List StoredEntry) (best : StoredEntry × ℕ) :
    ∀ n : ℕ, (∀ e ∈ l, (cmp best.1 e).isLE) →
      (l.zipIdx n).foldl (fun best e =>
        if cmp e.1 key == .gt && best.all (fun b : StoredEntry × ℕ => cmp e.1 b.1 == .lt)
        then some e else best) (some best) = some best := by
  induction l with
  | nil => intro n _; rfl
  | cons e l ih =>
    intro n h
    have hnot : (cmp e best.1 == .lt) = false := by
      have hle := h e (by simp)
      rw [beq_eq_false_iff_ne, ne_eq, ← Std.OrientedCmp.gt_iff_lt]
      intro hgt
      rw [hgt] at hle
      cases hle
    rw [List.zipIdx_cons, List.foldl_cons]
    simp only [Option.all_some, hnot, Bool.and_false, Bool.false_eq_true, if_false]
    exact ih (n + 1) fun x hx => h x (by simp [hx])

/-- **In sorted entries** the choice behind a key is the first entry behind it.
SOURCE: librecorder.c:2008-2013 -/
theorem bestAfter_eq_findIdx? {entries : List StoredEntry} (h : SortedBy cmp entries) :
    bestAfter cmp key entries = entries.findIdx? fun e => cmp e key == .gt := by
  have hgen : ∀ (l : List StoredEntry) (n : ℕ), SortedBy cmp l →
      ((l.zipIdx n).foldl (fun best e =>
        if cmp e.1 key == .gt && best.all (fun b : StoredEntry × ℕ => cmp e.1 b.1 == .lt)
        then some e else best) none).map (·.2) =
        (l.findIdx? fun e => cmp e key == .gt).map (· + n) := by
    intro l
    induction l with
    | nil => intro n _; rfl
    | cons e l ih =>
      intro n hsorted
      obtain ⟨he, hl⟩ := List.pairwise_cons.mp hsorted
      rw [List.zipIdx_cons, List.foldl_cons, List.findIdx?_cons]
      cases hgt : cmp e key == .gt with
      | true =>
        simp only [Option.all_none, Bool.and_self, if_true]
        rw [bestAfter_keeps l (e, n) (n + 1) he]
        simp
      | false =>
        simp only [Bool.false_and, Bool.false_eq_true, if_false]
        rw [ih (n + 1) hl, Option.map_map]
        congr 1
        funext k
        simp only [Function.comp_apply]
        omega
  have := hgen entries 0 h
  rw [show (fun k : ℕ => k + 0) = id from rfl, Option.map_id_fun, id_eq] at this
  exact this

end BestAfter

/-- The binary search for a monotonic time finds the first row of the index that reaches
it. -/
def MonotonicSearchExact (usec : UInt64) (f : StoreFile) : Prop :=
  ∀ rows, f.file.index = some rows →
    indexFindMonotonicFrame rows usec = rows.findIdx? fun row => usec ≤ row.maxMonotonicTs

instance (usec : UInt64) (f : StoreFile) : Decidable (MonotonicSearchExact usec f) :=
  inferInstanceAs (Decidable (∀ rows ∈ f.file.index, _ = _))

/-- The search is exact in a segment whose frames all have entries, in monotonic order. -/
theorem monotonicSearchExact_of_nonempty {f : StoreFile} (husable : UsableIndex f)
    (hne : ∀ frame ∈ f.file.frames, frame.entries ≠ [])
    (hsorted : (f.file.frames.flatMap (·.entries)).Pairwise fun a b =>
      a.monotonicTs ≤ b.monotonicTs) (usec : UInt64) : MonotonicSearchExact usec f := by
  intro rows hrows
  obtain rfl := husable rows hrows
  have hgrow := rowMax_pairwise (·.maxMonotonicTs) (·.monotonicTs)
    indexRow_maxMonotonicTs hne hsorted
  rw [indexFindMonotonicFrame, indexBisect_eq_findIdx?]
  · congr 1
    funext row
    rw [← decide_not]
    exact decide_eq_decide.mpr UInt64.not_lt
  · refine hgrow.imp ?_
    intro a b hab hb
    rw [decide_eq_true_eq] at hb ⊢
    exact UInt64.lt_of_le_of_lt hab hb

/-- The segments `source_seek_recorded_after` decodes: of the key's boot those without index
and those with a row that reaches the key, of later boots those that are not known to be
empty. -/
def decodesRecorded (key : StoredEntry) (path : SegmentPath) : Bool :=
  if path.file.file.header.bootSeq < key.bootSeq then false
  else if path.file.file.header.bootSeq > key.bootSeq then
    path.file.file.index.all fun rows => !rows.isEmpty
  else path.file.file.index.all fun rows =>
    (indexFindMonotonicFrame rows key.data.monotonicTs).isSome

/-- Whether an entry does not lie behind a key in receipt order. -/
abbrev upTo (key e : StoredEntry) : Bool := (compareRecorded e key).isLE

section Recorded

variable {key : StoredEntry} {s : IteratorSource} {path : SegmentPath} {i : ℕ}

/-- The part of a list behind entries up to a key. -/
theorem dropWhile_upTo {l pre post : List StoredEntry} (hsplit : l = pre ++ post)
    (hpre : ∀ e ∈ pre, upTo key e = true) (hpost : ∀ e ∈ post.head?, upTo key e = false) :
    l.dropWhile (upTo key) = post := by
  rw [hsplit, List.dropWhile_append_of_pos hpre]
  cases post with
  | nil => rfl
  | cons e post => rw [List.dropWhile_cons_of_neg (by simp [hpost e (by simp)])]

/-- The frames in front of the row that is found, in a segment of the key's boot. -/
theorem upTo_of_row_lt {f : StoreFile} {frames : List ChunkFrame}
    (hboot : f.file.header.bootSeq = key.bootSeq)
    (h : ∀ frame ∈ frames, (indexRow frame).maxMonotonicTs < key.data.monotonicTs) :
    ∀ e ∈ frames.flatMap (frameEntries f), upTo key e = true := by
  intro e he
  obtain ⟨frame, hframe, he⟩ := List.mem_flatMap.mp he
  have hlt := UInt64.lt_of_le_of_lt
    ((indexRow_maxMonotonicTs frame).1 _ (mem_frameEntries_data he)) (h frame hframe)
  have hb : e.bootSeq = key.bootSeq := by
    rw [(mem_scanFrame he).2.2.1, hboot]
  rw [upTo, compareRecorded_of_monotonic_lt hb hlt]
  rfl

theorem mem_segmentStream {f : StoreFile} {e : StoredEntry} (h : e ∈ segmentStream f) :
    e ∈ f.fileEntries :=
  (segmentStream_perm f).mem_iff.mp h

/-- What a source that has found nothing in its first `i` segments stands on: nothing, or an
old entry. -/
def MissedAfter (key : StoredEntry) (s : IteratorSource) (i : ℕ) : Prop :=
  sourceCurrent s = none ∨ leavesStale (decodesRecorded key) (s.segments.take i) = true

/-- One turn of the search: it ends in the segment or behind it, or goes on to the next one
when no entry of the segment lies behind the key. -/
def SeekAfterStep (key : StoredEntry) (s : IteratorSource) (path : SegmentPath)
    (paths : List SegmentPath) (i : ℕ) : Prop :=
  (∃ s', sourceSeekRecordedLoop none compareRecorded key (path :: paths) i s = (0, s') ∧
      Keeps s s' ∧ Remaining .forward s' ((sourceStream s).dropWhile (upTo key))) ∨
    ∃ s1, sourceSeekRecordedLoop none compareRecorded key (path :: paths) i s =
        sourceSeekRecordedLoop none compareRecorded key paths (i + 1) s1 ∧ Keeps s s1 ∧
      (∀ e ∈ segmentStream path.file, upTo key e = true) ∧ MissedAfter key s1 (i + 1)

variable {paths : List SegmentPath}

/-- A segment of an earlier boot is passed over. -/
theorem sourceSeekRecordedLoop_earlier (hseg : s.segments[i]? = some path)
    (hboot : path.file.file.header.bootSeq < key.bootSeq) (hmissed : MissedAfter key s i) :
    SeekAfterStep key s path paths i := by
  refine .inr ⟨s, ?_, .rfl, ?_, ?_⟩
  · simp only [sourceSeekRecordedLoop, hboot, if_true]
  · intro e he
    rw [upTo, compareRecorded_of_boot_lt]
    · rfl
    · rw [(mem_fileEntries (mem_segmentStream he)).2.2.1]
      exact hboot
  · have hdecodes : decodesRecorded key path = false := by simp [decodesRecorded, hboot]
    rw [MissedAfter, leavesStale_succ_of_not hseg hdecodes]
    exact hmissed

/-- A segment of a later boot is entered at its first entry. -/
theorem sourceSeekRecordedLoop_later (wf : SourceWf s) (hseg : s.segments[i]? = some path)
    (hboot : path.file.file.header.bootSeq > key.bootSeq)
    (hbefore : ∀ e ∈ streamUpTo s.segments i, upTo key e = true)
    (hmissed : MissedAfter key s i) : SeekAfterStep key s path paths i := by
  have hmem := List.mem_of_getElem? hseg
  have hnot : ¬ path.file.file.header.bootSeq < key.bootSeq := fun h =>
    absurd (UInt32.lt_trans h hboot) (UInt32.lt_irrefl _)
  have hseg' : (atSegment s i).segments[(atSegment s i).segmentIndex]? = some path := hseg
  obtain ⟨s', hkeeps, hidx, hcase⟩ := sourceLoadSegmentEdge_forward hseg'
    (wf.group_eq _ hmem) (wf.usable _ hmem)
  have hkeeps' : Keeps s s' := ⟨hkeeps.segments_eq, hkeeps.group_eq⟩
  rcases hcase with ⟨hnil, hload, hdone⟩ | ⟨hne, hload, hat⟩
  · simp only [atSegment] at hload
    refine .inr ⟨s', ?_, hkeeps', ?_, ?_⟩
    · simp [sourceSeekRecordedLoop, hnot, hboot, hload]
    · rw [hnil]
      simp
    · by_cases hrows : path.file.file.index = some []
      · -- nothing is loaded, so that the source stays as it was
        rcases hmissed with hcur | hstale
        · exact .inl (hdone (.inl hcur)).current
        · right
          have hdecodes : decodesRecorded key path = false := by
            simp [decodesRecorded, hnot, hboot, hrows]
          rw [hkeeps'.segments_eq, leavesStale_succ_of_not hseg hdecodes]
          exact hstale
      · exact .inl (hdone (.inr hrows)).current
  · simp only [atSegment] at hload
    have hplace := SourceAt.of_loadedAt hkeeps hidx hseg' hat
    rw [List.append_nil] at hplace
    refine .inl ⟨s', ?_, hkeeps', ?_⟩
    · simp [sourceSeekRecordedLoop, hnot, hboot, hload]
    · have hsplit := hplace.append_eq.symm
      rw [hkeeps'.sourceStream_eq] at hsplit
      rw [dropWhile_upTo hsplit hbefore]
      · exact hplace.remaining
      · intro e he
        obtain ⟨a, rest, hcons⟩ := List.exists_cons_of_ne_nil hne
        rw [hcons, List.cons_append, List.head?_cons, Option.mem_some_iff] at he
        have hae : e ∈ path.file.fileEntries := by
          rw [← he]
          exact mem_segmentStream (by rw [hcons]; simp)
        have hlt : key.bootSeq < e.bootSeq := by
          rw [(mem_fileEntries hae).2.2.1]
          exact hboot
        rw [upTo, Std.OrientedCmp.gt_iff_lt.mpr (compareRecorded_of_boot_lt hlt)]
        rfl

/-- A segment of the key's boot without index: its first entry behind the key. -/
theorem sourceSeekRecordedLoop_unindexed (hseg : s.segments[i]? = some path)
    (hboot : path.file.file.header.bootSeq = key.bootSeq) (hindex : path.file.file.index = none)
    (hsorted : SortedBy compareRecorded (segmentStream path.file))
    (hbefore : ∀ e ∈ streamUpTo s.segments i, upTo key e = true) :
    SeekAfterStep key s path paths i := by
  have hlt : ¬ path.file.file.header.bootSeq < key.bootSeq := by
    rw [hboot]
    exact UInt32.lt_irrefl _
  have hgt : ¬ path.file.file.header.bootSeq > key.bootSeq := by
    rw [hboot]
    exact UInt32.lt_irrefl _
  obtain ⟨rc, s1, hload, hrc, hkeeps, hentries, hidx, hat⟩ :=
    sourceLoadSegmentFallback_spec hseg hindex
  simp only [atSegment] at hload
  have hneg : ¬ rc < 0 := by omega
  have hbest : bestAfter compareRecorded key s1.entries =
      s1.entries.findIdx? fun e => compareRecorded e key == .gt :=
    bestAfter_eq_findIdx? (by rw [hentries]; exact hsorted)
  cases hfind : s1.entries.findIdx? (fun e => compareRecorded e key == .gt) with
  | some j =>
    rw [hfind] at hbest
    obtain ⟨e, rest, hdrop, hj, he, hbeforej⟩ := findIdx?_split hfind
    have hatj := hat j hj
    have hkeepsj : Keeps s (atEntry s1 j) := ⟨hkeeps.segments_eq, hkeeps.group_eq⟩
    refine .inl ⟨atEntry s1 j, ?_, hkeepsj, ?_⟩
    · simp only [sourceSeekRecordedLoop, hlt, hgt, if_false, hindex, hload, hneg, hbest]
      rfl
    · have hsplit := hatj.append_eq.symm
      rw [hkeepsj.sourceStream_eq] at hsplit
      rw [dropWhile_upTo hsplit]
      · exact hatj.remaining
      · intro x hx
        rcases List.mem_append.mp hx with hx | hx
        · exact hbefore x hx
        · have hngt : compareRecorded x key ≠ .gt := by simpa using hbeforej x hx
          rw [upTo]
          cases hc : compareRecorded x key with
          | lt => rfl
          | eq => rfl
          | gt => exact absurd hc hngt
      · rw [hdrop]
        intro x hx
        rw [List.cons_append, List.head?_cons, Option.mem_some_iff] at hx
        rw [upTo, ← hx, beq_iff_eq.mp he]
        rfl
  | none =>
    rw [hfind] at hbest
    have hall := List.findIdx?_eq_none_iff.mp hfind
    rw [hentries] at hall
    refine .inr ⟨s1, ?_, hkeeps, ?_, ?_⟩
    · simp only [sourceSeekRecordedLoop, hlt, hgt, if_false, hindex, hload, hneg, hbest]
    · intro e he
      have hngt : compareRecorded e key ≠ .gt := by simpa using hall e he
      rw [upTo]
      cases hc : compareRecorded e key with
      | lt => rfl
      | eq => rfl
      | gt => exact absurd hc hngt
    · by_cases hnil : s1.entries = []
      · exact .inl (sourceCurrent_of_entries_nil hnil)
      · right
        rw [hkeeps.segments_eq]
        refine leavesStale_succ hseg (by simp [decodesRecorded, hlt, hgt, hindex]) hindex ?_
        intro hempty
        apply hnil
        rw [hentries, segmentStream_of_none hindex, hempty]
        rfl

/-- A segment of the key's boot with an index: the first entry behind the key from the row
on that reaches the key's time. -/
theorem sourceSeekRecordedLoop_indexed (wf : SourceWf s) (hseg : s.segments[i]? = some path)
    (hboot : path.file.file.header.bootSeq = key.bootSeq)
    (hindex : path.file.file.index = some (path.file.file.frames.map indexRow))
    (hexact : MonotonicSearchExact key.data.monotonicTs path.file)
    (hbefore : ∀ e ∈ streamUpTo s.segments i, upTo key e = true)
    (hmissed : MissedAfter key s i) : SeekAfterStep key s path paths i := by
  have hlt : ¬ path.file.file.header.bootSeq < key.bootSeq := by
    rw [hboot]
    exact UInt32.lt_irrefl _
  have hgt : ¬ path.file.file.header.bootSeq > key.bootSeq := by
    rw [hboot]
    exact UInt32.lt_irrefl _
  have hsearch := hexact _ hindex
  cases hfind : indexFindMonotonicFrame (path.file.file.frames.map indexRow)
      key.data.monotonicTs with
  | none =>
    have hdecodes : decodesRecorded key path = false := by
      simp [decodesRecorded, hlt, hgt, hindex, hfind]
    refine .inr ⟨atSegment s i, ?_, ⟨rfl, rfl⟩, ?_, ?_⟩
    · simp only [sourceSeekRecordedLoop, hlt, hgt, if_false, hindex, hfind]
      rfl
    · rw [segmentStream_of_index hindex]
      apply upTo_of_row_lt hboot
      rw [hfind, eq_comm, List.findIdx?_eq_none_iff] at hsearch
      intro frame hframe
      have := hsearch _ (List.mem_map_of_mem hframe)
      simpa using this
    · rw [MissedAfter, atSegment_segments, leavesStale_succ_of_not hseg hdecodes]
      exact hmissed
  | some k =>
    rw [hfind, eq_comm] at hsearch
    obtain ⟨row, rest, -, hk, -, hfront⟩ := findIdx?_split hsearch
    rw [List.length_map] at hk
    have htake : ∀ e ∈ (path.file.file.frames.take k).flatMap (frameEntries path.file),
        upTo key e = true := by
      apply upTo_of_row_lt hboot
      intro frame hframe
      have := hfront (indexRow frame) (by rw [← List.map_take]; exact List.mem_map_of_mem hframe)
      simpa using this
    obtain ⟨s1, rc, s2, hopen, hload, hkeeps, hcase⟩ := sourceLoadIndexedFrom_spec wf hseg hindex hk
    -- what is left from the row on, and what is passed over in front of it
    obtain ⟨hrc, pre, post, hsplit, hpre, hrem⟩ : 0 ≤ rc ∧ ∃ pre post,
        (post = [] ∧ pre = streamUpTo s.segments (i + 1) ∨ sourceStream s = pre ++ post) ∧
          (∀ e ∈ pre, upTo key e = true) ∧ Remaining .forward s2 post := by
      rcases hcase with ⟨rfl, hnil, hcur⟩ | ⟨rfl, j, frame, hframe, hentries, hne, hpre, hzero, hat⟩
      · refine ⟨by omega, _, [], .inl ⟨rfl, rfl⟩, ?_, .inl ⟨rfl, hcur⟩⟩
        rw [streamUpTo_succ hseg, segmentStream_of_index hindex,
          ← flatMap_split path.file.file.frames k (frameEntries path.file), hnil, List.append_nil]
        intro e he
        rcases List.mem_append.mp he with he | he
        · exact hbefore e he
        · exact htake e he
      · obtain ⟨post, hat0⟩ := hat 0 (List.length_pos_of_ne_nil hne)
        have hself : atEntry s2 (0 : ℕ) = s2 := by
          change { s2 with entryIndex := 0 } = s2
          rw [← hzero]
        rw [hself, List.take_zero, List.append_nil, hpre] at hat0
        refine ⟨by omega, _, _, .inr (hkeeps.sourceStream_eq.symm.trans hat0.append_eq.symm), ?_,
          hat0.remaining⟩
        intro e he
        rcases List.mem_append.mp he with he | he
        · exact hbefore e he
        · exact htake e he
    obtain ⟨s3, hadvance, hkeeps3, hrem3⟩ :=
      sourceAdvanceWhile_spec (wf.keeps hkeeps) hrem (upTo key)
    simp only [atSegment] at hopen
    have hneg : ¬ rc < 0 := by omega
    cases hrest : post.dropWhile (upTo key) with
    | cons e rest' =>
      have hcur : sourceCurrent s3 = some e := by
        rw [hrem3.current, hrest]
        rfl
      refine .inl ⟨s3, ?_, hkeeps.trans hkeeps3, ?_⟩
      · simp [sourceSeekRecordedLoop, hlt, hgt, hindex, hfind, hopen, hload, hneg, hadvance, hcur]
      · rcases hsplit with ⟨rfl, -⟩ | hsplit
        · cases hrest
        · rw [hsplit, List.dropWhile_append_of_pos hpre]
          exact hrem3
    | nil =>
      rw [hrest] at hrem3
      have hcur : sourceCurrent s3 = none := hrem3.current
      refine .inr ⟨s3, ?_, hkeeps.trans hkeeps3, ?_, .inl hcur⟩
      · simp [sourceSeekRecordedLoop, hlt, hgt, hindex, hfind, hopen, hload, hneg, hadvance, hcur]
      · intro e he
        rcases hsplit with ⟨-, rfl⟩ | hsplit
        · apply hpre
          rw [streamUpTo_succ hseg]
          exact List.mem_append_right _ he
        · have hmem : e ∈ sourceStream s :=
            List.mem_flatMap.mpr ⟨path, List.mem_of_getElem? hseg, he⟩
          rw [hsplit] at hmem
          rcases List.mem_append.mp hmem with hmem | hmem
          · exact hpre e hmem
          · exact List.dropWhile_eq_nil_iff.mp hrest e hmem

/-- The loop of `source_seek_recorded_after`. -/
theorem sourceSeekRecordedLoop_spec (key : StoredEntry) (paths : List SegmentPath) :
    ∀ (i : ℕ) (s : IteratorSource), SourceWf s → s.segments.drop i = paths →
      (∀ path ∈ paths, path.file.file.header.bootSeq = key.bootSeq →
        MonotonicSearchExact key.data.monotonicTs path.file) →
      SortedBy compareRecorded (sourceStream s) →
      (∀ e ∈ streamUpTo s.segments i, upTo key e = true) → MissedAfter key s i →
      ∃ s', sourceSeekRecordedLoop none compareRecorded key paths i s = (0, s') ∧ Keeps s s' ∧
        (Remaining .forward s' ((sourceStream s).dropWhile (upTo key)) ∨
          (∀ e ∈ sourceStream s, upTo key e = true) ∧
            leavesStale (decodesRecorded key) s.segments = true) := by
  induction paths with
  | nil =>
    intro i s wf hdrop _ _ hbefore hmissed
    have hlen := List.drop_eq_nil_iff.mp hdrop
    rw [streamUpTo_of_le hlen] at hbefore
    rw [MissedAfter, List.take_of_length_le hlen] at hmissed
    refine ⟨s, rfl, .rfl, ?_⟩
    rcases hmissed with hcur | hstale
    · left
      have hall : ∀ e ∈ sourceStream s, upTo key e = true := hbefore
      rw [List.dropWhile_eq_nil_iff.mpr hall]
      exact .inl ⟨rfl, hcur⟩
    · exact .inr ⟨hbefore, hstale⟩
  | cons path paths ih =>
    intro i s wf hdrop hexact hsorted hbefore hmissed
    obtain ⟨hseg, hrest⟩ := getElem?_of_drop_eq_cons hdrop
    have hmem := List.mem_of_getElem? hseg
    have hstep : SeekAfterStep key s path paths i := by
      by_cases hlt : path.file.file.header.bootSeq < key.bootSeq
      · exact sourceSeekRecordedLoop_earlier hseg hlt hmissed
      · by_cases hgt : path.file.file.header.bootSeq > key.bootSeq
        · exact sourceSeekRecordedLoop_later wf hseg hgt hbefore hmissed
        · have hboot : path.file.file.header.bootSeq = key.bootSeq :=
            UInt32.le_antisymm (UInt32.not_lt.mp hgt) (UInt32.not_lt.mp hlt)
          cases hindex : path.file.file.index with
          | none =>
            have hsegment : SortedBy compareRecorded (segmentStream path.file) :=
              (List.pairwise_flatMap.mp hsorted).1 path hmem
            exact sourceSeekRecordedLoop_unindexed hseg hboot hindex hsegment hbefore
          | some rows =>
            obtain rfl := wf.usable path hmem rows hindex
            exact sourceSeekRecordedLoop_indexed wf hseg hboot hindex
              (hexact path (by simp) hboot) hbefore hmissed
    rcases hstep with ⟨s', heq, hkeeps, hrem⟩ | ⟨s1, hloop, hkeeps, hsegment, hmissed1⟩
    · exact ⟨s', heq, hkeeps, .inl hrem⟩
    · rw [hloop]
      obtain ⟨s', heq, hkeeps', hout⟩ := ih (i + 1) s1 (wf.keeps hkeeps)
        (by rw [hkeeps.segments_eq]; exact hrest) (fun p hp => hexact p (by simp [hp]))
        (by rw [hkeeps.sourceStream_eq]; exact hsorted)
        (by
          rw [hkeeps.segments_eq, streamUpTo_succ hseg]
          intro e he
          rcases List.mem_append.mp he with he | he
          · exact hbefore e he
          · exact hsegment e he)
        hmissed1
      rw [hkeeps.sourceStream_eq, hkeeps.segments_eq] at hout
      exact ⟨s', heq, hkeeps.trans hkeeps', hout⟩

/-- **`source_seek_recorded_after`** leaves what lies behind the key in receipt order, unless
it leaves the source on an old entry.
SOURCE: librecorder.c:1968-2032 -/
theorem sourceSeekRecordedAfter_spec (wf : SourceWf s)
    (hexact : ∀ path ∈ s.segments, path.file.file.header.bootSeq = key.bootSeq →
      MonotonicSearchExact key.data.monotonicTs path.file)
    (hsorted : SortedBy compareRecorded (sourceStream s))
    (hlands : leavesStale (decodesRecorded key) s.segments = true →
      ∃ e ∈ sourceStream s, compareRecorded e key = .gt) :
    ∃ s', sourceSeekRecordedAfter none .recorded key s = (0, s') ∧ Keeps s s' ∧
      Remaining .forward s' ((sourceStream s).dropWhile (upTo key)) := by
  have hkeeps : Keeps s { sourceClearFrame s with frameCount := 0 } := ⟨rfl, rfl⟩
  obtain ⟨s', heq, hkeeps', hout⟩ := sourceSeekRecordedLoop_spec key s.segments 0
    { sourceClearFrame s with frameCount := 0 } (wf.keeps hkeeps) rfl hexact hsorted
    (by rw [streamUpTo_zero]; simp) (.inl rfl)
  refine ⟨s', heq, hkeeps.trans hkeeps', ?_⟩
  rcases hout with hrem | ⟨hall, hstale⟩
  · exact hrem
  · obtain ⟨e, he, hgt⟩ := hlands hstale
    have := hall e he
    rw [upTo, hgt] at this
    cases this

end Recorded

end Recorder.Analysis
