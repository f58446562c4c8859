import Recorder.Lib.MergeFilter
import Recorder.Analysis.IteratorCursor

/-!
# Reading on from a time

`rec_player_seek_realtime_usec` puts every group in front of its first entry that reaches a
time, and `rec_player_next` merges what is left of the groups. Where the entries of a group do
not run backwards, a group is left at the right place exactly when (`SeekLands`) the first
segment with an entry that reaches the time has no index or is searched without being misled
by the row of an empty frame, or, where no entry reaches the time, the last segment that was
decoded has no entries: otherwise the source still stands on the first of its old entries.

**Main result**: `realtime_seek_exact_iff`.
-/

set_option autoImplicit false

namespace Recorder.Analysis

open Recorder.Model Recorder.Lib

/-- Whether a segment has an entry that reaches the time. -/
def segmentReaches (usec : UInt64) (path : SegmentPath) : Bool :=
  path.file.fileEntries.any fun e => usec ≤ e.data.realtimeTs

/-- The search for a time leaves a source with these segments at the right place. -/
def SeekLands (usec : UInt64) (segments : List SegmentPath) : Prop :=
  match segments.find? (segmentReaches usec) with
  | some path =>
    ∀ rows, path.file.file.index = some rows → SearchReaches (·.maxRealtimeTs < usec) rows
  | none => leavesStale decodesRealtime segments = false

/-- The entries of a source fall in those before the time and those from it on. -/
def SplitsAt (usec : UInt64) (pre post : List StoredEntry) : Prop :=
  (∀ e ∈ pre, e.data.realtimeTs < usec) ∧ ∀ e ∈ post, usec ≤ e.data.realtimeTs

section Split

variable {usec : UInt64} {pre post : List StoredEntry}

/-- A source left at a place delivers the entries from the time on just if the place is where
they begin. -/
theorem splitsAt_iff : SplitsAt usec pre post ↔
    (pre ++ post).filter (fun e => usec ≤ e.data.realtimeTs) = post := by
  rw [List.filter_append]
  constructor
  · rintro ⟨hpre, hpost⟩
    have hnil : pre.filter (fun e => usec ≤ e.data.realtimeTs) = [] := by
      rw [List.filter_eq_nil_iff]
      intro e he
      simpa [UInt64.not_le] using hpre e he
    have hall : post.filter (fun e => usec ≤ e.data.realtimeTs) = post := by
      rw [List.filter_eq_self]
      intro e he
      simpa using hpost e he
    rw [hnil, hall, List.nil_append]
  · intro h
    have hpost : ∀ e ∈ post, usec ≤ e.data.realtimeTs := by
      intro e he
      rw [← h, ← List.filter_append] at he
      simpa using (List.mem_filter.mp he).2
    refine ⟨?_, hpost⟩
    have hall : post.filter (fun e => usec ≤ e.data.realtimeTs) = post := by
      rw [List.filter_eq_self]
      intro e he
      simpa using hpost e he
    rw [hall, List.append_left_eq_self, List.filter_eq_nil_iff] at h
    intro e he
    simpa [UInt64.not_le] using h e he

end Split

/-! ## The segments of a source -/

section Segments

variable {usec : UInt64} {s : IteratorSource} {path : SegmentPath} {segments : List SegmentPath}
  {i : ℕ}

theorem segmentReaches_iff :
    segmentReaches usec path = true ↔ ∃ e ∈ segmentStream path.file, usec ≤ e.data.realtimeTs := by
  simp only [segmentReaches, List.any_eq_true, decide_eq_true_eq,
    (segmentStream_perm path.file).mem_iff]

theorem segmentReaches_eq_false_iff :
    segmentReaches usec path = false ↔ ∀ e ∈ segmentStream path.file, e.data.realtimeTs < usec := by
  rw [← Bool.not_eq_true, segmentReaches_iff]
  simp only [not_exists, not_and, UInt64.not_le]

/-- The segment that is left stale has entries. -/
theorem exists_of_leavesStale (h : leavesStale decodesRealtime (segments.take i) = true) :
    ∃ e, e ∈ streamUpTo segments i := by
  unfold leavesStale at h
  obtain ⟨path, hlast, hstale⟩ := (Option.any_eq_true _ _).mp h
  rw [Bool.and_eq_true, Bool.not_eq_true', List.isEmpty_eq_false_iff] at hstale
  obtain ⟨e, he⟩ := List.exists_mem_of_ne_nil _ hstale.2
  have hpath := (List.mem_filter.mp (List.mem_of_getLast? hlast)).1
  exact ⟨e, List.mem_flatMap.mpr ⟨path, hpath, (segmentStream_perm path.file).mem_iff.mpr he⟩⟩

/-- The last decoded segment decides alone. -/
theorem leavesStale_succ_of_decodes (hseg : segments[i]? = some path)
    (h : decodesRealtime path = true) :
    leavesStale decodesRealtime (segments.take (i + 1)) = !path.file.fileEntries.isEmpty := by
  have hindex : path.file.file.index.isNone = true := h
  unfold leavesStale
  rw [List.take_add_one, hseg, Option.toList_some, List.filter_append,
    List.filter_cons_of_pos h, List.filter_nil, List.getLast?_concat, Option.any_some, hindex,
    Bool.true_and]

/-- A row that reaches a time after the start of all time is that of a frame with entries. -/
theorem frameEntries_ne_nil_of_row (f : StoreFile) {frame : ChunkFrame} (hzero : usec ≠ 0)
    (h : usec ≤ (indexRow frame).maxRealtimeTs) : frameEntries f frame ≠ [] := by
  intro hempty
  have hnil : frame.entries = [] := by simpa [frameEntries, scanFrame] using hempty
  rw [indexRow_maxRealtimeTs_of_nil hnil] at h
  exact hzero (UInt64.le_zero_iff.mp h)

/-- The search for the time 0 is not misled. -/
theorem searchReaches_zero (rows : List IndexFrame) :
    SearchReaches (·.maxRealtimeTs < (0 : UInt64)) rows := by
  intro k _ m _ _ row _
  simp

/-- A search that is not misled finds the first row that reaches the time. -/
theorem realtimeSearchExact_iff {rows : List IndexFrame} :
    (indexFindRealtimeFrame rows usec = rows.findIdx? fun row => usec ≤ row.maxRealtimeTs) ↔
      SearchReaches (·.maxRealtimeTs < usec) rows := by
  rw [← indexBisect_eq_findIdx?_iff, indexFindRealtimeFrame]
  have hpred : (fun row : IndexFrame => decide (usec ≤ row.maxRealtimeTs)) =
      fun row => !decide (row.maxRealtimeTs < usec) := by
    funext row
    rw [← decide_not]
    exact decide_eq_decide.mpr UInt64.not_lt.symm
  rw [hpred]

end Segments

/-! ## Where the search ends -/

section Search

variable {usec : UInt64} {s : IteratorSource} {path : SegmentPath} {i : ℕ}
  {post : List StoredEntry}

/-- What a source that has found nothing in its first `i` segments has left: the old segment
it decoded last, if that has entries. -/
structure MissedAt (usec : UInt64) (s : IteratorSource) (i : ℕ) (post : List StoredEntry) :
    Prop where
  remaining : Remaining .forward s post
  stale : leavesStale decodesRealtime (s.segments.take i) = true →
    ∃ e ∈ post, e.data.realtimeTs < usec
  fresh : leavesStale decodesRealtime (s.segments.take i) = false → post = []

/-- The search ends where the source was, or behind the first `i` segments. -/
def EndsFrom (s : IteratorSource) (i : ℕ) (post : List StoredEntry)
    (result : Int × IteratorSource) : Prop :=
  ∃ s' pre' post', result = (0, s') ∧ Keeps s s' ∧ sourceStream s = pre' ++ post' ∧
    Remaining .forward s' post' ∧ (post' = post ∨ ∃ rest, pre' = streamUpTo s.segments i ++ rest)

theorem StopsIn.endsFrom {skipped : List StoredEntry} {result : Int × IteratorSource}
    (h : StopsIn usec s path i skipped result) : EndsFrom s i post result := by
  obtain ⟨s', front, e, post', heq, hkeeps, hat, -, -, -⟩ := h
  refine ⟨s', _, _, heq, hkeeps, ?_, hat.remaining, .inr ⟨skipped ++ front, rfl⟩⟩
  rw [← hkeeps.sourceStream_eq, hat.append_eq]

/-- A search that ends behind segment `i` for a source that has at most moved to this segment
has ended from segment `i` on. -/
theorem EndsFrom.of_succ {s1 : IteratorSource} {post1 : List StoredEntry}
    {result : Int × IteratorSource} (hseg : s.segments[i]? = some path) (hkeeps : Keeps s s1)
    (hpost : post1 = post ∨ post1 = [] ∨ post1 = streamFrom s.segments i)
    (h : EndsFrom s1 (i + 1) post1 result) : EndsFrom s i post result := by
  obtain ⟨s', pre', post', heq, hkeeps', hsplit, hrem', hends⟩ := h
  rw [hkeeps.sourceStream_eq] at hsplit
  rw [hkeeps.segments_eq, streamUpTo_succ hseg] at hends
  refine ⟨s', pre', post', heq, hkeeps.trans hkeeps', hsplit, hrem', ?_⟩
  have hwhole : sourceStream s = streamUpTo s.segments i ++ streamFrom s.segments i :=
    (flatMap_split s.segments i fun p => segmentStream p.file).symm
  rcases hends with rfl | ⟨rest, rfl⟩
  · rcases hpost with rfl | rfl | rfl
    · exact .inl rfl
    · rw [List.append_nil] at hsplit
      exact .inr ⟨_, hsplit.symm.trans hwhole⟩
    · have hpre := List.append_cancel_right (hsplit.symm.trans hwhole)
      exact .inr ⟨[], by rw [hpre, List.append_nil]⟩
  · exact .inr ⟨_, List.append_assoc _ _ _⟩

/-- Wherever the search goes on from segment `i`, it ends where it was, or behind the first `i`
segments. -/
theorem sourceSeekRealtimeLoop_ends (usec : UInt64) (paths : List SegmentPath) :
    ∀ (i : ℕ) (s : IteratorSource) (post : List StoredEntry), SourceWf s →
      s.segments.drop i = paths → Remaining .forward s post →
      EndsFrom s i post (sourceSeekRealtimeLoop none usec paths i s) := by
  induction paths with
  | nil =>
    intro i s post wf _ hrem
    obtain ⟨pre, hsplit⟩ := hrem.split
    exact ⟨s, pre, post, rfl, .rfl, hsplit, hrem, .inl rfl⟩
  | cons path paths ih =>
    intro i s post wf hdrop hrem
    obtain ⟨hseg, hrest⟩ := getElem?_of_drop_eq_cons hdrop
    have hnext : ∀ {s1 : IteratorSource} {post1 : List StoredEntry}, Keeps s s1 →
        Remaining .forward s1 post1 →
        EndsFrom s1 (i + 1) post1 (sourceSeekRealtimeLoop none usec paths (i + 1) s1) :=
      fun hkeeps hrem1 => ih (i + 1) _ _ (wf.keeps hkeeps)
        (by rw [hkeeps.segments_eq]; exact hrest) hrem1
    cases hindex : path.file.file.index with
    | none =>
      rcases sourceSeekRealtimeLoop_decoded hseg hindex with
        hstop | ⟨s1, heq, hkeeps, -, hrem1⟩
      · exact hstop.endsFrom
      · rw [heq]
        refine .of_succ hseg hkeeps ?_ (hnext hkeeps hrem1)
        split
        · exact .inr (.inl rfl)
        · exact .inr (.inr rfl)
    | some rows =>
      obtain rfl := wf.usable path (List.mem_of_getElem? hseg) rows hindex
      cases hfind : indexFindRealtimeFrame (path.file.file.frames.map indexRow) usec with
      | none =>
        simp only [sourceSeekRealtimeLoop, hindex, hfind]
        exact .of_succ hseg .rfl (.inl rfl) (hnext .rfl hrem)
      | some k =>
        rcases sourceSeekRealtimeLoop_found wf hseg hindex hfind with
          hstop | ⟨s1, heq, hkeeps, -, hcur⟩
        · exact hstop.endsFrom
        · rw [heq]
          exact .of_succ hseg hkeeps (.inr (.inl rfl)) (hnext hkeeps (.inl ⟨rfl, hcur⟩))

/-- A search that ends from a place with old entries only, and behind an entry that reaches
the time, is wrong. -/
theorem EndsFrom.not_splitsAt {result : Int × IteratorSource} (h : EndsFrom s i post result)
    {e : StoredEntry} (he : e ∈ streamUpTo s.segments i) (hreach : usec ≤ e.data.realtimeTs)
    (hold : post = [] ∨ ∃ x ∈ post, x.data.realtimeTs < usec) :
    ∃ s' pre' post', result = (0, s') ∧ Keeps s s' ∧ sourceStream s = pre' ++ post' ∧
      Remaining .forward s' post' ∧ ¬ SplitsAt usec pre' post' := by
  obtain ⟨s', pre', post', heq, hkeeps, hsplit, hrem, hends⟩ := h
  refine ⟨s', pre', post', heq, hkeeps, hsplit, hrem, ?_⟩
  rintro ⟨hpre, hpost⟩
  have hnotin : e ∉ pre' := fun hmem => absurd (hpre e hmem) (UInt64.not_lt.mpr hreach)
  rcases hends with rfl | ⟨rest, rfl⟩
  · rcases hold with rfl | ⟨x, hx, hlt⟩
    · -- with nothing left everything was passed over
      apply hnotin
      rw [List.append_nil] at hsplit
      rw [← hsplit, sourceStream, ← flatMap_split s.segments i]
      exact List.mem_append_left _ he
    · exact absurd (hpost x hx) (UInt64.not_le.mpr hlt)
  · exact hnotin (List.mem_append_left _ he)

/-- **A turn in a segment without an entry that reaches the time** goes on to the next one.
SOURCE: librecorder.c:1923-1963 -/
theorem sourceSeekRealtimeLoop_passes {paths : List SegmentPath} (wf : SourceWf s)
    (hseg : s.segments[i]? = some path) (hnot : segmentReaches usec path = false)
    (hbefore : ∀ e ∈ streamUpTo s.segments i, e.data.realtimeTs < usec)
    (hmissed : MissedAt usec s i post) :
    ∃ s1 post1, sourceSeekRealtimeLoop none usec (path :: paths) i s =
        sourceSeekRealtimeLoop none usec paths (i + 1) s1 ∧ Keeps s s1 ∧
      MissedAt usec s1 (i + 1) post1 := by
  have hold := segmentReaches_eq_false_iff.mp hnot
  have hstop : ∀ {skipped : List StoredEntry} {result : Int × IteratorSource},
      ¬ StopsIn usec s path i skipped result := by
    rintro skipped result ⟨-, -, e, -, -, -, -, -, he, hle⟩
    exact absurd (hold e he) (UInt64.not_lt.mpr hle)
  cases hindex : path.file.file.index with
  | none =>
    have hdecodes : decodesRealtime path = true := by simp [decodesRealtime, hindex]
    rcases sourceSeekRealtimeLoop_decoded hseg hindex with
      h | ⟨s1, heq, hkeeps, -, hrem⟩
    · exact absurd h hstop
    · refine ⟨s1, _, heq, hkeeps, hrem, ?_, ?_⟩
      · rw [hkeeps.segments_eq, leavesStale_succ_of_decodes hseg hdecodes]
        intro hne
        have hentries : segmentStream path.file ≠ [] := by
          intro hnil
          have hperm := segmentStream_perm path.file
          rw [hnil] at hperm
          rw [hperm.symm.eq_nil] at hne
          cases hne
        obtain ⟨e, he⟩ := List.exists_mem_of_ne_nil _ hentries
        rw [if_neg hentries, streamFrom_eq hseg]
        exact ⟨e, List.mem_append_left _ he, hold e he⟩
      · rw [hkeeps.segments_eq, leavesStale_succ_of_decodes hseg hdecodes]
        intro hempty
        apply if_pos
        rw [Bool.not_eq_false', List.isEmpty_iff] at hempty
        rw [segmentStream_of_none hindex, hempty]
        rfl
  | some rows =>
    obtain rfl := wf.usable path (List.mem_of_getElem? hseg) rows hindex
    have hdecodes : decodesRealtime path = false := by simp [decodesRealtime, hindex]
    cases hfind : indexFindRealtimeFrame (path.file.file.frames.map indexRow) usec with
    | none =>
      refine ⟨s, post, ?_, .rfl, hmissed.remaining, ?_, ?_⟩
      · simp only [sourceSeekRealtimeLoop, hindex, hfind]
      · rw [leavesStale_succ_of_not hseg hdecodes]
        exact hmissed.stale
      · rw [leavesStale_succ_of_not hseg hdecodes]
        exact hmissed.fresh
    | some k =>
      rcases sourceSeekRealtimeLoop_found wf hseg hindex hfind with
        h | ⟨s1, heq, hkeeps, hnil, hcur⟩
      · exact absurd h hstop
      · -- only a search for the time 0 stops at a row behind which there is no entry
        have hzero : usec = 0 := by
          by_contra hne
          obtain ⟨row, hrow, hreaches⟩ := indexBisect_eq_some hfind
          rw [List.getElem?_map, Option.map_eq_some_iff] at hrow
          obtain ⟨frame, hframe, rfl⟩ := hrow
          obtain ⟨hk, rfl⟩ := List.getElem?_eq_some_iff.mp hframe
          apply frameEntries_ne_nil_of_row path.file hne (by simpa using hreaches)
          rw [List.drop_eq_getElem_cons hk, List.flatMap_cons, List.append_eq_nil_iff] at hnil
          exact hnil.1
        have hstale : leavesStale decodesRealtime (s.segments.take i) = false := by
          rw [Bool.eq_false_iff]
          intro hstale
          obtain ⟨e, he⟩ := exists_of_leavesStale hstale
          have := hbefore e he
          rw [hzero] at this
          exact UInt64.not_lt_zero this
        refine ⟨s1, [], heq, hkeeps, .inl ⟨rfl, hcur⟩, ?_, fun _ => rfl⟩
        rw [hkeeps.segments_eq, leavesStale_succ_of_not hseg hdecodes, hstale]
        intro h
        cases h

/-- The frames in front of the first row that reaches the time have old entries only. -/
theorem lt_of_findIdx? {frames : List ChunkFrame} {k : ℕ}
    (h : (frames.map indexRow).findIdx? (fun row => usec ≤ row.maxRealtimeTs) = some k)
    (f : StoreFile) : ∀ e ∈ (frames.take k).flatMap (frameEntries f), e.data.realtimeTs < usec := by
  obtain ⟨row, rest, -, -, -, hfront⟩ := findIdx?_split h
  apply lt_of_row_lt
  intro frame hframe
  have := hfront (indexRow frame) (by rw [← List.map_take]; exact List.mem_map_of_mem hframe)
  simpa using this

/-- **A turn in the first segment with an entry that reaches the time**, when the search of its
index is not misled: it stops where these entries begin. -/
theorem sourceSeekRealtimeLoop_lands {paths : List SegmentPath} (wf : SourceWf s)
    (hsorted : (sourceStream s).Pairwise fun a b => a.data.realtimeTs ≤ b.data.realtimeTs)
    (hseg : s.segments[i]? = some path) (hreach : segmentReaches usec path = true)
    (hsearch : ∀ rows, path.file.file.index = some rows →
      SearchReaches (·.maxRealtimeTs < usec) rows)
    (hbefore : ∀ e ∈ streamUpTo s.segments i, e.data.realtimeTs < usec) :
    ∃ s' pre' post', sourceSeekRealtimeLoop none usec (path :: paths) i s = (0, s') ∧
      Keeps s s' ∧ sourceStream s = pre' ++ post' ∧ Remaining .forward s' post' ∧
      SplitsAt usec pre' post' := by
  obtain ⟨e0, he0, hle0⟩ := segmentReaches_iff.mp hreach
  -- behind the first entry that reaches the time all do
  have hstops : ∀ {skipped : List StoredEntry} {result : Int × IteratorSource},
      StopsIn usec s path i skipped result → (∀ e ∈ skipped, e.data.realtimeTs < usec) →
      ∃ s' pre' post', result = (0, s') ∧ Keeps s s' ∧ sourceStream s = pre' ++ post' ∧
        Remaining .forward s' post' ∧ SplitsAt usec pre' post' := by
    rintro skipped result ⟨s', front, e, post', heq, hkeeps, hat, hfront, -, hle⟩ hskipped
    have hsplit := hat.append_eq
    rw [hkeeps.sourceStream_eq] at hsplit
    refine ⟨s', _, _, heq, hkeeps, hsplit.symm, hat.remaining, ?_, ?_⟩
    · simp only [List.forall_mem_append]
      exact ⟨hbefore, hskipped, hfront⟩
    · rw [← hsplit, List.pairwise_append, List.pairwise_cons] at hsorted
      intro x hx
      rcases List.mem_cons.mp hx with rfl | hx
      · exact hle
      · exact UInt64.le_trans hle (hsorted.2.1.1 x hx)
  cases hindex : path.file.file.index with
  | none =>
    rcases sourceSeekRealtimeLoop_decoded hseg hindex with h | ⟨-, -, -, hall, -⟩
    · exact hstops h (by simp)
    · exact absurd (hall e0 he0) (UInt64.not_lt.mpr hle0)
  | some rows =>
    obtain rfl := wf.usable path (List.mem_of_getElem? hseg) rows hindex
    have hexact := realtimeSearchExact_iff.mpr (hsearch _ hindex)
    rw [segmentStream_of_index hindex] at he0
    cases hfind : indexFindRealtimeFrame (path.file.file.frames.map indexRow) usec with
    | none =>
      exfalso
      rw [hfind, eq_comm, List.findIdx?_eq_none_iff] at hexact
      have hall : ∀ frame ∈ path.file.file.frames, (indexRow frame).maxRealtimeTs < usec := by
        intro frame hframe
        have := hexact _ (List.mem_map_of_mem hframe)
        simpa using this
      exact absurd (lt_of_row_lt hall path.file e0 he0) (UInt64.not_lt.mpr hle0)
    | some k =>
      have htake := lt_of_findIdx? (hexact.symm.trans hfind) path.file
      rcases sourceSeekRealtimeLoop_found wf hseg hindex hfind with h | ⟨-, -, -, hnil, -⟩
      · exact hstops h htake
      · rw [← flatMap_split path.file.file.frames k (frameEntries path.file), hnil,
          List.append_nil] at he0
        exact absurd (htake e0 he0) (UInt64.not_lt.mpr hle0)

theorem MissedAt.old (h : MissedAt usec s i post) :
    post = [] ∨ ∃ x ∈ post, x.data.realtimeTs < usec := by
  cases hstale : leavesStale decodesRealtime (s.segments.take i) with
  | true => exact .inr (h.stale hstale)
  | false => exact .inl (h.fresh hstale)

/-- **A turn in the first segment with an entry that reaches the time**, when the search of its
index is misled: an entry from the time on is lost, or an old one is left. -/
theorem sourceSeekRealtimeLoop_misled {paths : List SegmentPath} (wf : SourceWf s)
    (hdrop : s.segments.drop i = path :: paths) (hreach : segmentReaches usec path = true)
    (hindex : path.file.file.index = some (path.file.file.frames.map indexRow))
    (hsearch : ¬ SearchReaches (·.maxRealtimeTs < usec) (path.file.file.frames.map indexRow))
    (hmissed : MissedAt usec s i post) :
    ∃ s' pre' post', sourceSeekRealtimeLoop none usec (path :: paths) i s = (0, s') ∧
      Keeps s s' ∧ sourceStream s = pre' ++ post' ∧ Remaining .forward s' post' ∧
      ¬ SplitsAt usec pre' post' := by
  obtain ⟨hseg, hrest⟩ := getElem?_of_drop_eq_cons hdrop
  obtain ⟨e0, he0, hle0⟩ := segmentReaches_iff.mp hreach
  have hzero : usec ≠ 0 := by
    rintro rfl
    exact hsearch (searchReaches_zero _)
  have hne := mt realtimeSearchExact_iff.mp hsearch
  cases hfind : indexFindRealtimeFrame (path.file.file.frames.map indexRow) usec with
  | none =>
    -- the search passes over the segment
    simp only [sourceSeekRealtimeLoop, hindex, hfind]
    refine (sourceSeekRealtimeLoop_ends usec paths (i + 1) s post wf hrest
      hmissed.remaining).not_splitsAt ?_ hle0 hmissed.old
    rw [streamUpTo_succ hseg]
    exact List.mem_append_right _ he0
  | some k' =>
    obtain ⟨row, hrow, hreaches⟩ := indexBisect_eq_some hfind
    obtain ⟨hk', hrow⟩ := List.getElem?_eq_some_iff.mp hrow
    -- the row it stops at lies behind the first one that reaches the time
    obtain ⟨k, hk⟩ : ∃ k, ((path.file.file.frames.map indexRow).findIdx?
        fun row => usec ≤ row.maxRealtimeTs) = some k := by
      rw [← Option.isSome_iff_exists, List.findIdx?_isSome, List.any_eq_true]
      exact ⟨row, hrow ▸ List.getElem_mem hk', by simpa using hreaches⟩
    obtain ⟨hklt, hkreach, hkfirst⟩ := List.findIdx?_eq_some_iff_getElem.mp hk
    have hkk' : k < k' := by
      rcases Nat.lt_trichotomy k k' with h | rfl | h
      · exact h
      · exact absurd (hfind.trans hk.symm) hne
      · have := hkfirst k' h
        rw [hrow] at this
        simp only [decide_eq_false_iff_not, UInt64.not_lt] at hreaches
        exact absurd hreaches (by simpa using this)
    rw [List.length_map] at hklt hk'
    rw [List.getElem_map] at hrow
    have hkrow : usec ≤ (indexRow path.file.file.frames[k]).maxRealtimeTs := by
      simpa using hkreach
    obtain ⟨e, he, hle⟩ := exists_reaching (f := path.file) hkrow
      (frameEntries_ne_nil_of_row _ hzero hkrow)
    have hskipped : e ∈ (path.file.file.frames.take k').flatMap (frameEntries path.file) := by
      refine List.mem_flatMap.mpr ⟨_, ?_, he⟩
      exact List.mem_take_iff_getElem.mpr ⟨k, by omega, rfl⟩
    rcases sourceSeekRealtimeLoop_found wf hseg hindex hfind with
      ⟨s', front, e', post', heq, hkeeps, hat, -, -, -⟩ | ⟨-, -, -, hnil, -⟩
    · have hsplit := hat.append_eq
      rw [hkeeps.sourceStream_eq] at hsplit
      refine ⟨s', _, _, heq, hkeeps, hsplit.symm, hat.remaining, ?_⟩
      rintro ⟨hpre, -⟩
      exact absurd (hpre e (by simp [hskipped])) (UInt64.not_lt.mpr hle)
    · exfalso
      have hrow' : usec ≤ (indexRow path.file.file.frames[k']).maxRealtimeTs := by
        rw [hrow]
        simpa using hreaches
      apply frameEntries_ne_nil_of_row path.file hzero hrow'
      rw [List.drop_eq_getElem_cons hk', List.flatMap_cons, List.append_eq_nil_iff] at hnil
      exact hnil.1

/-- The loop of `source_seek_realtime`, from segment `i` on. -/
theorem sourceSeekRealtimeLoop_splits_iff (usec : UInt64) (paths : List SegmentPath) :
    ∀ (i : ℕ) (s : IteratorSource) (post : List StoredEntry), SourceWf s →
      (sourceStream s).Pairwise (fun a b => a.data.realtimeTs ≤ b.data.realtimeTs) →
      s.segments.drop i = paths → (∀ e ∈ streamUpTo s.segments i, e.data.realtimeTs < usec) →
      MissedAt usec s i post →
      ∃ s' pre' post', sourceSeekRealtimeLoop none usec paths i s = (0, s') ∧ Keeps s s' ∧
        sourceStream s = pre' ++ post' ∧ Remaining .forward s' post' ∧
        (SplitsAt usec pre' post' ↔
          match paths.find? (segmentReaches usec) with
          | some path => ∀ rows, path.file.file.index = some rows →
              SearchReaches (·.maxRealtimeTs < usec) rows
          | none => leavesStale decodesRealtime s.segments = false) := by
  induction paths with
  | nil =>
    intro i s post wf _ hdrop hbefore hmissed
    have hlen := List.drop_eq_nil_iff.mp hdrop
    obtain ⟨pre, hsplit⟩ := hmissed.remaining.split
    refine ⟨s, pre, post, rfl, .rfl, hsplit, hmissed.remaining, ?_⟩
    have hstale := hmissed.stale
    have hfresh := hmissed.fresh
    rw [List.take_of_length_le hlen] at hstale hfresh
    rw [List.find?_nil]
    constructor
    · rintro ⟨-, hpost⟩
      rw [Bool.eq_false_iff]
      intro h
      obtain ⟨e, he, hlt⟩ := hstale h
      exact absurd (hpost e he) (UInt64.not_le.mpr hlt)
    · intro h
      rw [hfresh h, List.append_nil] at hsplit
      refine ⟨?_, by simp [hfresh h]⟩
      rw [← hsplit]
      rw [streamUpTo_of_le hlen] at hbefore
      exact hbefore
  | cons path paths ih =>
    intro i s post wf hsorted hdrop hbefore hmissed
    obtain ⟨hseg, hrest⟩ := getElem?_of_drop_eq_cons hdrop
    cases hreach : segmentReaches usec path with
    | false =>
      rw [List.find?_cons_of_neg (by simp [hreach])]
      obtain ⟨s1, post1, heq, hkeeps, hmissed1⟩ :=
        sourceSeekRealtimeLoop_passes wf hseg hreach hbefore hmissed
      rw [heq]
      obtain ⟨s', pre', post', heq', hkeeps', hsplit, hrem, hiff⟩ := ih (i + 1) s1 post1
        (wf.keeps hkeeps) (by rw [hkeeps.sourceStream_eq]; exact hsorted)
        (by rw [hkeeps.segments_eq]; exact hrest)
        (by
          rw [hkeeps.segments_eq, streamUpTo_succ hseg]
          intro e he
          rcases List.mem_append.mp he with he | he
          · exact hbefore e he
          · exact segmentReaches_eq_false_iff.mp hreach e he)
        hmissed1
      rw [hkeeps.sourceStream_eq] at hsplit
      rw [hkeeps.segments_eq] at hiff
      exact ⟨s', pre', post', heq', hkeeps.trans hkeeps', hsplit, hrem, hiff⟩
    | true =>
      rw [List.find?_cons_of_pos hreach]
      by_cases hsearch : ∀ rows, path.file.file.index = some rows →
          SearchReaches (·.maxRealtimeTs < usec) rows
      · obtain ⟨s', pre', post', heq, hkeeps, hsplit, hrem, hsplits⟩ :=
          sourceSeekRealtimeLoop_lands wf hsorted hseg hreach hsearch hbefore
        exact ⟨s', pre', post', heq, hkeeps, hsplit, hrem, iff_of_true hsplits hsearch⟩
      · obtain ⟨rows, hindex, hmisled⟩ : ∃ rows, path.file.file.index = some rows ∧
            ¬ SearchReaches (·.maxRealtimeTs < usec) rows := by
          simpa only [not_forall, exists_prop] using hsearch
        obtain rfl := wf.usable path (List.mem_of_getElem? hseg) rows hindex
        obtain ⟨s', pre', post', heq, hkeeps, hsplit, hrem, hsplits⟩ :=
          sourceSeekRealtimeLoop_misled wf hdrop hreach hindex hmisled hmissed
        exact ⟨s', pre', post', heq, hkeeps, hsplit, hrem, iff_of_false hsplits hsearch⟩

/-- **`source_seek_realtime`** leaves the entries from the time on exactly when the search lands.
SOURCE: librecorder.c:1917-1966 -/
theorem sourceSeekRealtime_splits_iff (usec : UInt64) (wf : SourceWf s)
    (hsorted : (sourceStream s).Pairwise fun a b => a.data.realtimeTs ≤ b.data.realtimeTs) :
    ∃ s' pre' post', sourceSeekRealtime none usec s = (0, s') ∧ Keeps s s' ∧
      sourceStream s = pre' ++ post' ∧ Remaining .forward s' post' ∧
      (SplitsAt usec pre' post' ↔ SeekLands usec s.segments) := by
  have hkeeps : Keeps s { sourceClearFrame s with frameCount := 0 } := ⟨rfl, rfl⟩
  obtain ⟨s', pre', post', heq, hkeeps', hsplit, hrem, hiff⟩ :=
    sourceSeekRealtimeLoop_splits_iff usec s.segments 0
      { sourceClearFrame s with frameCount := 0 } [] (wf.keeps hkeeps) hsorted rfl
      (by rw [streamUpTo_zero]; simp) ⟨.inl ⟨rfl, rfl⟩, by simp [leavesStale], fun _ => rfl⟩
  exact ⟨s', pre', post', heq, hkeeps.trans hkeeps', hsplit, hrem, hiff⟩

end Search

/-! ## The store -/

section Store

variable {usec : UInt64} {store : Store} {filter : List Bytes} {r : Reader}

/-- What was read holds each entry from the time on once, by time. -/
def DeliversFrom (usec : UInt64) (store : Store) (filter : List Bytes) (out : List StoredEntry) :
    Prop :=
  out.Perm ((selectedEntries store filter).filter fun e => usec ≤ e.data.realtimeTs) ∧
    out.Pairwise fun a b => a.data.realtimeTs ≤ b.data.realtimeTs

/-- The stream of a group that does not run backwards does not either, with or without
indexes. -/
theorem sourceStream_pairwise_realtime (hkey : KeyNondecreasing .wallclock store filter)
    {s : IteratorSource} (hs : s ∈ storeSources store filter) :
    (sourceStream s).Pairwise fun a b => a.data.realtimeTs ≤ b.data.realtimeTs := by
  have hsegments := (storeSources_collected store filter).segments_eq s hs
  by_cases hnil : s.segments = []
  · rw [sourceStream, hnil, List.flatMap_nil]
    exact List.Pairwise.nil
  obtain ⟨first, hfirst⟩ := List.exists_mem_of_ne_nil _ hnil
  have hrecording := hkey s.group (group_mem_groups hs hfirst)
  rw [groupRecording, ← hsegments, List.pairwise_flatMap] at hrecording
  rw [sourceStream, List.pairwise_flatMap]
  refine ⟨fun path hpath => ?_, ?_⟩
  · cases hindex : path.file.file.index with
    | some rows =>
      rw [segmentStream, hindex]
      exact (hrecording.1 path hpath).imp fun h => by simpa [keyLE] using h
    | none =>
      rw [segmentStream_of_none hindex]
      exact (sortedBy_insertionSort _).imp realtime_le_of_isLE
  · refine hrecording.2.imp ?_
    intro p q h a ha b hb
    have hle := h a ((segmentStream_perm p.file).mem_iff.mp ha) b
      ((segmentStream_perm q.file).mem_iff.mp hb)
    simpa [keyLE] using hle

/-- **`iterator_seek_realtime`** leaves ends of the streams; each is that from the time on just
if the search of its group lands.
SOURCE: librecorder.c:2034-2043 -/
theorem iteratorSeekRealtime_splits (usec : UInt64) (husable : UsableIndexes store)
    (hunit : r.unitFilter = none) (hkey : KeyNondecreasing .wallclock store r.groupFilter) :
    ∃ sources posts, iteratorSeekRealtime store usec r =
        (0, { iteratorReset r with sources := sources, lastDirection := some .forward }) ∧
      Positioned .forward sources posts ∧
      List.Forall₂ (fun s post => s ∈ storeSources store r.groupFilter ∧
        ∃ pre, sourceStream s = pre ++ post ∧
          (post = (sourceStream s).filter (fun e => usec ≤ e.data.realtimeTs) ↔
            SeekLands usec s.segments)) (storeSources store r.groupFilter) posts := by
  obtain ⟨sources, hinit, hforall⟩ := iteratorInitialize_sources husable hunit .forward
  obtain ⟨sources', hseek, hforall'⟩ := forSources_forall₂
    (f := sourceSeekRealtime r.unitFilter usec)
    (Q := fun s s' => ∃ post, s ∈ storeSources store r.groupFilter ∧ SourceWf s' ∧
      Remaining .forward s' post ∧ ∃ pre, sourceStream s = pre ++ post ∧
        (post = (sourceStream s).filter (fun e => usec ≤ e.data.realtimeTs) ↔
          SeekLands usec s.segments))
    hforall (by
      rintro s s1 ⟨hs, hkeeps, -⟩
      have wf := (storeSources_wf husable hs).keeps hkeeps
      obtain ⟨s2, pre, post, heq, hkeeps2, hsplit, hrem, hiff⟩ :=
        sourceSeekRealtime_splits_iff usec wf
          (by rw [hkeeps.sourceStream_eq]; exact sourceStream_pairwise_realtime hkey hs)
      rw [hkeeps.sourceStream_eq] at hsplit
      rw [hkeeps.segments_eq, splitsAt_iff, ← hsplit, eq_comm] at hiff
      rw [hunit]
      exact ⟨0, s2, heq, by omega, post, hs, wf.keeps hkeeps2, hrem, pre, hsplit, hiff⟩)
  obtain ⟨posts, hstreams, hpos⟩ := forall₂_exists hforall'
  refine ⟨sources', posts, ?_, ?_, ?_⟩
  · simp only [iteratorSeekRealtime, hinit]
    rw [show (iteratorReset r).unitFilter = r.unitFilter from rfl, hseek]
    rfl
  · exact hpos.imp fun s' post h => ⟨h.choose_spec.2.1, h.choose_spec.2.2.1⟩
  · refine hstreams.imp ?_
    rintro s post ⟨_, hs, _, _, hsplit⟩
    exact ⟨hs, hsplit⟩

end Store

end Recorder.Analysis
