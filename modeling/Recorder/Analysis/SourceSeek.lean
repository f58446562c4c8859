import Recorder.Lib.Bisect
import Recorder.Lib.ListCursor
import Recorder.Analysis.IndexIndependence

/-!
# Where a search for a time puts a source

`source_seek_realtime` goes through the segments of a source and stops in front of the first
entry that reaches a time. Where the binary search of an index finds the first row that
reaches it (`RealtimeSearchExact`), everything it passes over lies before the time
(`sourceSeekRealtime_spec`).

A search that finds no such entry leaves the source where the last segment it decoded left
it. That is past the end, unless this segment has no index: then the source still stands on
its first entry (`leavesStale`). Moving on from there (`sourceAdvanceWhile_spec`) and back
(`sourceStepBack_remaining`) only depends on what is left of the source.
-/

set_option autoImplicit false

namespace Recorder.Analysis

open Recorder.Model Recorder.Lib

/-! ## Moving past entries -/

section Move

variable {dir : Direction} {s : IteratorSource} {l pre post : List StoredEntry}

theorem length_sourceStream_lt (s : IteratorSource) :
    (sourceStream s).length < sourceSize s := by
  have hlen : ∀ segments : List SegmentPath,
      (segments.flatMap fun path => segmentStream path.file).length =
        (segments.map (·.file.fileEntries.length)).sum := by
    intro segments
    rw [List.length_flatMap]
    congr 1
    apply List.map_congr_left
    intro path _
    exact (segmentStream_perm path.file).length_eq
  unfold sourceStream sourceSize
  rw [hlen]
  omega

/-- A place in the stream leaves the rest of the stream. -/
theorem SourceAt.remaining (h : SourceAt s pre post) : Remaining .forward s post := by
  obtain ⟨e, rest, rfl, -⟩ := h.current
  exact .inr ⟨pre, e, rest, h, rfl⟩

/-- What is left of a source forward is an end of its stream. -/
theorem Remaining.split (h : Remaining .forward s post) : ∃ pre, sourceStream s = pre ++ post := by
  rcases h with ⟨rfl, -⟩ | ⟨pre, e, rest, hat, rfl⟩
  · exact ⟨sourceStream s, (List.append_nil _).symm⟩
  · exact ⟨pre, hat.append_eq.symm⟩

theorem Remaining.length_le (h : Remaining dir s l) : l.length ≤ (sourceStream s).length := by
  rcases h with ⟨rfl, -⟩ | ⟨pre, e, rest, hat, rfl⟩
  · exact Nat.zero_le _
  · rw [← hat.append_eq, List.length_append]
    cases dir <;> simp

/-- **The loops that advance a source** past entries with a property. -/
theorem sourceAdvanceWhile_remaining (skip : StoredEntry → Bool) (fuel : ℕ) :
    ∀ (s : IteratorSource) (l : List StoredEntry), SourceWf s → Remaining dir s l →
      l.length ≤ fuel →
      ∃ s', sourceAdvanceWhile none dir skip fuel s = (true, s') ∧ Keeps s s' ∧
        Remaining dir s' (l.dropWhile skip) := by
  induction fuel with
  | zero =>
    intro s l _ h hlen
    obtain rfl := List.length_eq_zero_iff.mp (Nat.le_zero.mp hlen)
    exact ⟨s, rfl, .rfl, h⟩
  | succ fuel ih =>
    intro s l wf h hlen
    cases l with
    | nil =>
      refine ⟨s, ?_, .rfl, h⟩
      simp only [sourceAdvanceWhile, h.current, List.head?_nil]
    | cons e l =>
      have hcur : sourceCurrent s = some e := h.current
      cases hskip : skip e with
      | false =>
        refine ⟨s, ?_, .rfl, ?_⟩
        · simp only [sourceAdvanceWhile, hcur, hskip, Bool.false_eq_true, if_false]
        · rw [List.dropWhile_cons_of_neg (by simp [hskip])]
          exact h
      | true =>
        rw [List.dropWhile_cons_of_pos hskip]
        obtain ⟨rc, s1, hadv, hrc, hkeeps, hrem⟩ := sourceAdvance_remaining wf h
        rcases hrc with ⟨rfl, rfl⟩ | rfl
        · refine ⟨s1, ?_, hkeeps, hrem⟩
          simp [sourceAdvanceWhile, hcur, hskip, hadv]
        · obtain ⟨s2, hloop, hkeeps2, hrem2⟩ :=
            ih s1 l (wf.keeps hkeeps) hrem (by rw [List.length_cons] at hlen; omega)
          refine ⟨s2, ?_, hkeeps.trans hkeeps2, hrem2⟩
          simp [sourceAdvanceWhile, hcur, hskip, hadv, hloop]

/-- The bound on the loops is never reached. -/
theorem sourceAdvanceWhile_spec (wf : SourceWf s) (h : Remaining dir s l)
    (skip : StoredEntry → Bool) :
    ∃ s', sourceAdvanceWhile none dir skip (sourceSize s) s = (true, s') ∧ Keeps s s' ∧
      Remaining dir s' (l.dropWhile skip) :=
  sourceAdvanceWhile_remaining skip _ s l wf h
    (h.length_le.trans (Nat.le_of_lt (length_sourceStream_lt s)))

/-- **Stepping a source back** delivers what lay in front of it, without the entries at or
behind the key.
SOURCE: librecorder.c:2710-2722, 2743-2747 -/
theorem sourceStepBack_remaining (wf : SourceWf s) (h : Remaining .forward s post)
    (hsplit : sourceStream s = pre ++ post) (skip : StoredEntry → Bool) :
    ∃ s', sourceStepBack none skip s = (0, s') ∧ Keeps s s' ∧
      Remaining .reverse s' (pre.reverse.dropWhile skip) := by
  obtain ⟨rc, s1, hstep, hrc, hkeeps, hrem⟩ : ∃ rc s1,
      (if (sourceCurrent s).isSome then sourceAdvance none s .reverse
        else sourcePositionEdge none s .reverse) = (rc, s1) ∧ 0 ≤ rc ∧ Keeps s s1 ∧
        Remaining .reverse s1 pre.reverse := by
    rcases h with ⟨rfl, hcur⟩ | ⟨pre', e, rest, hat, rfl⟩
    · -- a source that has run out is entered from its end
      rw [List.append_nil] at hsplit
      obtain ⟨rc, s1, hedge, hrc, hkeeps, hrem⟩ := sourcePositionEdge_remaining wf hcur .reverse
      refine ⟨rc, s1, ?_, hrc, hkeeps, ?_⟩
      · rw [hcur]
        exact hedge
      · rw [← hsplit]
        exact hrem
    · obtain rfl : pre' = pre := by
        have := hat.append_eq.trans hsplit
        exact List.append_cancel_right this
      obtain ⟨e', rest', heq, hcur⟩ := hat.current
      have hback : Remaining .reverse s (e :: pre'.reverse) := .inr ⟨pre', e, rest, hat, rfl⟩
      obtain ⟨rc, s1, hadv, hrc, hkeeps, hrem⟩ := sourceAdvance_remaining wf hback
      refine ⟨rc, s1, ?_, by omega, hkeeps, hrem⟩
      rw [hcur]
      exact hadv
  obtain ⟨s2, hloop, hkeeps2, hrem2⟩ := sourceAdvanceWhile_spec (wf.keeps hkeeps) hrem skip
  refine ⟨s2, ?_, hkeeps.trans hkeeps2, hrem2⟩
  simp only [sourceStepBack, hstep, hloop]
  rw [if_neg (by omega)]
  rfl

end Move

/-! ## Rows and their frames -/

/-- The largest value of a frame, as a row of the index is built up.
SOURCE: index.c:76-90 -/
theorem rowMax_spec {get : IndexFrame → UInt64} {value : EntryData → UInt64}
    (hadd : ∀ row i e, get (indexAddEntry row i e) =
      if i = 0 ∨ value e > get row then value e else get row) (todo : List EntryData) :
    ∀ (done : List EntryData) (row : IndexFrame), (∀ e ∈ done, value e ≤ get row) →
      (done ≠ [] → ∃ e ∈ done, value e = get row) →
      (∀ e ∈ done ++ todo, value e ≤
        get ((todo.zipIdx done.length).foldl (fun row e => indexAddEntry row e.2 e.1) row)) ∧
      (done ++ todo ≠ [] → ∃ e ∈ done ++ todo, value e =
        get ((todo.zipIdx done.length).foldl (fun row e => indexAddEntry row e.2 e.1) row)) := by
  induction todo with
  | nil =>
    intro done row hle hmem
    rw [List.append_nil]
    exact ⟨hle, hmem⟩
  | cons a todo ih =>
    intro done row hle hmem
    have hlen : (done ++ [a]).length = done.length + 1 := by simp
    rw [List.zipIdx_cons, List.foldl_cons, ← hlen, List.append_cons done a todo]
    apply ih
    · intro e he
      rw [hadd]
      rcases List.mem_append.mp he with he | he
      · have hne : done.length ≠ 0 := by
          have := List.length_pos_of_mem he
          omega
        split
        · next h =>
          rcases h with h | h
          · exact absurd h hne
          · exact UInt64.le_trans (hle e he) (UInt64.le_of_lt h)
        · exact hle e he
      · rw [List.mem_singleton.mp he]
        split
        · exact UInt64.le_refl _
        · next h => exact UInt64.not_lt.mp fun hlt => h (.inr hlt)
    · intro _
      rw [hadd]
      split
      · exact ⟨a, by simp, rfl⟩
      · next h =>
        have hne : done ≠ [] := fun hnil => h (.inl (by rw [hnil]; rfl))
        obtain ⟨e, he, heq⟩ := hmem hne
        exact ⟨e, List.mem_append_left _ he, heq⟩

section Rows

variable {frame : ChunkFrame}

theorem indexRow_maxRealtimeTs (frame : ChunkFrame) :
    (∀ e ∈ frame.entries, e.realtimeTs ≤ (indexRow frame).maxRealtimeTs) ∧
      (frame.entries ≠ [] → ∃ e ∈ frame.entries, e.realtimeTs = (indexRow frame).maxRealtimeTs) :=
  rowMax_spec (fun _ _ _ => rfl) frame.entries [] _ (by simp) (by simp)

theorem indexRow_maxMonotonicTs (frame : ChunkFrame) :
    (∀ e ∈ frame.entries, e.monotonicTs ≤ (indexRow frame).maxMonotonicTs) ∧
      (frame.entries ≠ [] → ∃ e ∈ frame.entries, e.monotonicTs = (indexRow frame).maxMonotonicTs) :=
  rowMax_spec (fun _ _ _ => rfl) frame.entries [] _ (by simp) (by simp)

/-- The rows of frames that all have entries grow with the values along the frames. -/
theorem rowMax_pairwise (get : IndexFrame → UInt64) (value : EntryData → UInt64)
    (hmax : ∀ frame, (∀ e ∈ frame.entries, value e ≤ get (indexRow frame)) ∧
      (frame.entries ≠ [] → ∃ e ∈ frame.entries, value e = get (indexRow frame)))
    {frames : List ChunkFrame} (hne : ∀ frame ∈ frames, frame.entries ≠ [])
    (hsorted : (frames.flatMap (·.entries)).Pairwise fun a b => value a ≤ value b) :
    (frames.map indexRow).Pairwise fun a b => get a ≤ get b := by
  rw [List.pairwise_map]
  refine (List.pairwise_flatMap.mp hsorted).2.imp_of_mem ?_
  intro f g hf hg hle
  obtain ⟨a, ha, hamax⟩ := (hmax f).2 (hne f hf)
  obtain ⟨b, hb⟩ := List.exists_mem_of_ne_nil _ (hne g hg)
  rw [← hamax]
  exact UInt64.le_trans (hle a ha b hb) ((hmax g).1 b hb)

theorem mem_frameEntries_data {f : StoreFile} {e : StoredEntry} (h : e ∈ frameEntries f frame) :
    e.data ∈ frame.entries := by
  obtain ⟨i, hi, rfl⟩ := List.mem_mapIdx.mp h
  exact List.getElem_mem hi

/-- A frame without entries has a row without a time. -/
theorem indexRow_maxRealtimeTs_of_nil (h : frame.entries = []) :
    (indexRow frame).maxRealtimeTs = 0 := by
  simp [indexRow, h]

end Rows

/-! ## The binary search -/

section Bisect

variable {below : IndexFrame → Bool} {rows : List IndexFrame}

theorem bisectLoop_eq_bisect (fuel : ℕ) : ∀ lo hi : ℕ,
    bisectLoop below rows fuel lo hi = bisect (fun i => (rows[i]?).any below) fuel lo hi := by
  induction fuel with
  | zero => intro lo hi; rfl
  | succ fuel ih =>
    intro lo hi
    simp only [bisectLoop, bisect, ih]

/-- Halving the rows towards the first one that is not below meets no row behind it that is
below. -/
def SearchReaches (below : IndexFrame → Bool) (rows : List IndexFrame) : Prop :=
  ∀ k, rows.findIdx? (fun row => !below row) = some k →
    ∀ m ∈ bisectPath k (rows.length + 1) 0 rows.length, k < m →
      ∀ row, rows[m]? = some row → below row = false

/-- **When the binary search finds the first row that is not below.**
SOURCE: index.c:517-522 -/
theorem indexBisect_eq_findIdx?_iff :
    (indexBisect below rows = rows.findIdx? fun row => !below row) ↔ SearchReaches below rows := by
  simp only [indexBisect, bisectLoop_eq_bisect]
  cases hfind : rows.findIdx? (fun row => !below row) with
  | none =>
    have hall := List.findIdx?_eq_none_iff.mp hfind
    have hend : bisect (fun i => (rows[i]?).any below) (rows.length + 1) 0 rows.length =
        rows.length := by
      apply bisect_eq_end _ _ _ _ (Nat.zero_le _) (by omega)
      intro i _ hi
      rw [List.getElem?_eq_getElem hi, Option.any_some]
      simpa using hall _ (List.getElem_mem hi)
    rw [hend, if_neg (Nat.lt_irrefl _)]
    exact ⟨fun _ k hk => (by rw [hfind] at hk; cases hk), fun _ => rfl⟩
  | some k =>
    obtain ⟨hk, hreach, hbefore⟩ := List.findIdx?_eq_some_iff_getElem.mp hfind
    have hiff := bisect_eq_iff (fun i => (rows[i]?).any below) (k := k)
      (rows.length + 1) 0 rows.length (by omega) (Nat.zero_le k) (Nat.le_of_lt hk)
      (by
        intro i _ hi
        rw [List.getElem?_eq_getElem (by omega), Option.any_some]
        simpa using hbefore i hi)
      (by
        intro _
        rw [List.getElem?_eq_getElem hk, Option.any_some]
        simpa using hreach)
    have hany : ∀ m : ℕ, (rows[m]?).any below = false ↔
        ∀ row, rows[m]? = some row → below row = false := by
      intro m
      cases rows[m]? <;> simp
    have hpath : SearchReaches below rows ↔
        bisect (fun i => (rows[i]?).any below) (rows.length + 1) 0 rows.length = k := by
      rw [hiff]
      simp only [SearchReaches, hfind, Option.some.injEq, forall_eq', hany]
    rw [hpath]
    split
    · rw [Option.some.injEq]
    · next hnot =>
      constructor
      · intro h
        cases h
      · intro h
        omega

/-- The binary search ends at a row that is not below. -/
theorem indexBisect_eq_some {k : ℕ} (h : indexBisect below rows = some k) :
    ∃ row, rows[k]? = some row ∧ below row = false := by
  simp only [indexBisect, bisectLoop_eq_bisect] at h
  split at h
  · next hlt =>
    obtain rfl := Option.some.inj h
    have hend := bisect_lt (fun i => (rows[i]?).any below) _ _ _ (Nat.zero_le _)
      (by omega) hlt
    rw [List.getElem?_eq_getElem hlt, Option.any_some] at hend
    exact ⟨_, List.getElem?_eq_getElem hlt, hend⟩
  · cases h

/-- **The binary search finds the first row that is not below the target**, if the rows below
come first. -/
theorem indexBisect_eq_findIdx?
    (hfirst : rows.Pairwise fun a b => below b = true → below a = true) :
    indexBisect below rows = rows.findIdx? fun row => !below row := by
  rw [indexBisect_eq_findIdx?_iff]
  intro k hfind m hm hlt row hrow
  obtain ⟨hk, hreach, -⟩ := List.findIdx?_eq_some_iff_getElem.mp hfind
  obtain ⟨hmlt, rfl⟩ := List.getElem?_eq_some_iff.mp hrow
  cases hbelow : below rows[m] with
  | false => rfl
  | true =>
    rw [List.pairwise_iff_getElem.mp hfirst k m hk hmlt hlt hbelow] at hreach
    cases hreach

end Bisect

/-! ## Loading from a row on -/

section Load

variable {s : IteratorSource} {path : SegmentPath} {i k : ℕ}

/-- **A segment entered at a row**: the source stands on the first entry from this frame on,
or the segment has none there.
SOURCE: librecorder.c:1792-1803 -/
theorem sourceLoadIndexedFrom_spec (wf : SourceWf s) (hseg : s.segments[i]? = some path)
    (hindex : path.file.file.index = some (path.file.file.frames.map indexRow))
    (hk : k < path.file.file.frames.length) :
    ∃ s1 rc s2, sourceLoadIndex (atSegment s i) = (0, s1) ∧
      sourceLoadIndexedFrom none s1 k .forward = (rc, s2) ∧ Keeps s s2 ∧
      (rc = 0 ∧ (path.file.file.frames.drop k).flatMap (frameEntries path.file) = [] ∧
          sourceCurrent s2 = none ∨
        rc = 1 ∧ ∃ j frame, path.file.file.frames[j]? = some frame ∧
          s2.entries = frameEntries path.file frame ∧ s2.entries ≠ [] ∧
          (path.file.file.frames.take j).flatMap (frameEntries path.file) =
            (path.file.file.frames.take k).flatMap (frameEntries path.file) ∧
          s2.entryIndex = 0 ∧
          ∀ m < s2.entries.length, ∃ post,
            SourceAt (atEntry s2 m)
              (streamUpTo s.segments i ++
                ((path.file.file.frames.take j).flatMap (frameEntries path.file) ++
                  s2.entries.take m))
              (s2.entries.drop m ++ post)) := by
  have hmem := List.mem_of_getElem? hseg
  have hseg' : (atSegment s i).segments[(atSegment s i).segmentIndex]? = some path := hseg
  have hi := openIndex_indexed hseg' hindex (wf.group_eq _ hmem)
  rcases sourceLoadIndexedLoop_forward (path.file.file.frames.length + 1) _ k hi hk (by omega) with
    ⟨j, frame, hframe, hne, hpre, heq⟩ | ⟨hnil, frame, hempty, heq⟩
  · refine ⟨_, 1, _, sourceLoadIndex_eq hseg' hindex, heq, ⟨rfl, rfl⟩, .inr ⟨rfl, j, frame, hframe,
      rfl, hne, hpre, rfl, ?_⟩⟩
    intro m hm
    have hi' := hi.loadFrame .forward j frame
    have hload := LoadedAt.indexed
      (s := atEntry (loadFrame (openIndex (atSegment s i) path) path .forward j frame) m)
      ⟨hi'.seg, hi'.index, hi'.reader, hi'.count, hi'.fallback, hi'.group⟩ frame hframe rfl m hm rfl
    have hkeeps : Keeps (atSegment s i)
        (atEntry (loadFrame (openIndex (atSegment s i) path) path .forward j frame) m) := ⟨rfl, rfl⟩
    have hat := SourceAt.of_loadedAt hkeeps rfl hseg' hload
    rw [List.append_assoc] at hat
    exact ⟨_, hat⟩
  · exact ⟨_, 0, _, sourceLoadIndex_eq hseg' hindex, heq, ⟨rfl, rfl⟩, .inl ⟨rfl, hnil,
      sourceCurrent_of_entries_nil hempty⟩⟩

/-- **A segment without index**, loaded as a whole and entered at one of its entries.
SOURCE: librecorder.c:1805-1820 -/
theorem sourceLoadSegmentFallback_spec (hseg : s.segments[i]? = some path)
    (hindex : path.file.file.index = none) :
    ∃ rc s1, sourceLoadSegmentFallback (atSegment s i) .forward = (rc, s1) ∧ 0 ≤ rc ∧ Keeps s s1 ∧
      s1.entries = segmentStream path.file ∧ s1.entryIndex = 0 ∧
      ∀ m < s1.entries.length,
        SourceAt (atEntry s1 m) (streamUpTo s.segments i ++ s1.entries.take m)
          (s1.entries.drop m ++ streamFrom s.segments (i + 1)) := by
  have hseg' : (atSegment s i).segments[(atSegment s i).segmentIndex]? = some path := hseg
  refine ⟨_, _, sourceLoadSegmentFallback_eq hseg' .forward, ?_, ⟨rfl, rfl⟩,
    (segmentStream_of_none hindex).symm, rfl, ?_⟩
  · split <;> omega
  · intro m hm
    have hload := LoadedAt.fallback (s := atEntry (loadFallback (atSegment s i) path .forward) m)
      ⟨hseg', hindex, rfl, rfl⟩ m hm rfl
    have hkeeps : Keeps (atSegment s i) (atEntry (loadFallback (atSegment s i) path .forward) m) :=
      ⟨rfl, rfl⟩
    exact SourceAt.of_loadedAt hkeeps rfl hseg' hload

/-- Frames with entries in front of which the same entries lie are the same. -/
theorem frame_eq_of_take_eq {f : StoreFile} {j : ℕ} {frame frame' : ChunkFrame}
    (hj : f.file.frames[j]? = some frame) (hk : f.file.frames[k]? = some frame')
    (hne : frameEntries f frame ≠ []) (hne' : frameEntries f frame' ≠ [])
    (h : (f.file.frames.take j).flatMap (frameEntries f) =
      (f.file.frames.take k).flatMap (frameEntries f)) : frame = frame' := by
  -- a frame with entries makes everything that reaches behind it longer
  have hlt : ∀ {a b : ℕ} {fr : ChunkFrame}, f.file.frames[a]? = some fr →
      frameEntries f fr ≠ [] → a < b →
      ((f.file.frames.take a).flatMap (frameEntries f)).length <
        ((f.file.frames.take b).flatMap (frameEntries f)).length := by
    intro a b fr ha hfr hab
    have hsub : ((f.file.frames.take (a + 1)).flatMap (frameEntries f)).length ≤
        ((f.file.frames.take b).flatMap (frameEntries f)).length := by
      obtain ⟨t, ht⟩ := List.take_prefix_take_left (l := f.file.frames) (show a + 1 ≤ b from hab)
      rw [← ht, List.flatMap_append, List.length_append]
      omega
    rw [flatMap_take_succ ha, List.length_append] at hsub
    have := List.length_pos_of_ne_nil hfr
    omega
  have hlen := congrArg List.length h
  have hjk : j = k := by
    rcases Nat.lt_trichotomy j k with hlt' | heq | hgt
    · have := hlt hj hne hlt'
      omega
    · exact heq
    · have := hlt hk hne' hgt
      omega
  rw [hjk, hk] at hj
  exact (Option.some.inj hj).symm

end Load

/-! ## Searches that find nothing -/

/-- Whether a search that decodes some of the segments, and finds nothing in them, leaves the
source on an old entry: the last segment it decodes has entries and no index. -/
def leavesStale (decodes : SegmentPath → Bool) (segments : List SegmentPath) : Bool :=
  (segments.filter decodes).getLast?.any fun path =>
    path.file.file.index.isNone && !path.file.fileEntries.isEmpty

section Stale

variable {decodes : SegmentPath → Bool} {segments : List SegmentPath} {path : SegmentPath} {i : ℕ}

theorem leavesStale_succ_of_not (hseg : segments[i]? = some path) (h : decodes path = false) :
    leavesStale decodes (segments.take (i + 1)) = leavesStale decodes (segments.take i) := by
  unfold leavesStale
  rw [List.take_add_one, hseg, Option.toList_some, List.filter_append,
    List.filter_cons_of_neg (by simp [h]), List.filter_nil, List.append_nil]

theorem leavesStale_succ (hseg : segments[i]? = some path) (h : decodes path = true)
    (hindex : path.file.file.index = none) (hne : path.file.fileEntries ≠ []) :
    leavesStale decodes (segments.take (i + 1)) = true := by
  unfold leavesStale
  rw [List.take_add_one, hseg, Option.toList_some, List.filter_append,
    List.filter_cons_of_pos h, List.filter_nil, List.getLast?_concat]
  simp [hindex, hne]

end Stale

section Search

variable {α : Type}

/-- Where a linear search ends: nothing before it has the property. -/
theorem findIdx?_split {p : α → Bool} {l : List α} {j : ℕ} (h : l.findIdx? p = some j) :
    ∃ a rest, l.drop j = a :: rest ∧ j < l.length ∧ p a = true ∧ ∀ b ∈ l.take j, p b = false := by
  obtain ⟨hlt, hp, hbefore⟩ := List.findIdx?_eq_some_iff_getElem.mp h
  refine ⟨l[j], l.drop (j + 1), List.drop_eq_getElem_cons hlt, hlt, hp, ?_⟩
  intro b hb
  obtain ⟨k, hk, rfl⟩ := List.mem_take_iff_getElem.mp hb
  simpa using hbefore k (by omega)

theorem getElem?_of_drop_eq_cons {l rest : List α} {a : α} {i : ℕ} (h : l.drop i = a :: rest) :
    l[i]? = some a ∧ l.drop (i + 1) = rest := by
  constructor
  · rw [← List.head?_drop, h]
    rfl
  · rw [← List.tail_drop, h]
    rfl

end Search

/-! ## The search for a time -/

/-- The binary search for a time finds the first row of the index that reaches it. -/
def RealtimeSearchExact (usec : UInt64) (f : StoreFile) : Prop :=
  ∀ rows, f.file.index = some rows →
    indexFindRealtimeFrame rows usec = rows.findIdx? fun row => usec ≤ row.maxRealtimeTs

instance (usec : UInt64) (f : StoreFile) : Decidable (RealtimeSearchExact usec f) :=
  inferInstanceAs (Decidable (∀ rows ∈ f.file.index, _ = _))

/-- The search is exact in a segment whose frames all have entries, with a realtime that does not
run backwards. -/
theorem realtimeSearchExact_of_nonempty {f : StoreFile} (husable : UsableIndex f)
    (hne : ∀ frame ∈ f.file.frames, frame.entries ≠ [])
    (hsorted : (f.file.frames.flatMap (·.entries)).Pairwise fun a b => a.realtimeTs ≤ b.realtimeTs)
    (usec : UInt64) : RealtimeSearchExact usec f := by
  intro rows hrows
  obtain rfl := husable rows hrows
  have hgrow := rowMax_pairwise (·.maxRealtimeTs) (·.realtimeTs)
    indexRow_maxRealtimeTs hne hsorted
  rw [indexFindRealtimeFrame, indexBisect_eq_findIdx?]
  · congr 1
    funext row
    rw [← decide_not]
    exact decide_eq_decide.mpr UInt64.not_lt
  · refine hgrow.imp ?_
    intro a b hab hb
    rw [decide_eq_true_eq] at hb ⊢
    exact UInt64.lt_of_le_of_lt hab hb

/-- The segments `source_seek_realtime` decodes without finding an entry. -/
def decodesRealtime (path : SegmentPath) : Bool := path.file.file.index.isNone

/-- Where `source_seek_realtime` leaves a source: in front of the first entry that reaches the
time, or on an old entry when there is none. -/
def SoughtRealtime (usec : UInt64) (s : IteratorSource) : Prop :=
  ∃ pre post, sourceStream s = pre ++ post ∧ Remaining .forward s post ∧
    (∀ e ∈ pre, e.data.realtimeTs < usec) ∧
    ((∀ e ∈ post.head?, usec ≤ e.data.realtimeTs) ∨
      (∀ e ∈ sourceStream s, e.data.realtimeTs < usec) ∧
        leavesStale decodesRealtime s.segments = true)

section Realtime

variable {usec : UInt64} {s : IteratorSource} {path : SegmentPath} {i : ℕ}

/-- The frames in front of the row that is found, and all frames when none is found, lie
before the time. -/
theorem lt_of_row_lt {frames : List ChunkFrame}
    (h : ∀ frame ∈ frames, (indexRow frame).maxRealtimeTs < usec) (f : StoreFile) :
    ∀ e ∈ frames.flatMap (frameEntries f), e.data.realtimeTs < usec := by
  intro e he
  obtain ⟨frame, hframe, he⟩ := List.mem_flatMap.mp he
  exact UInt64.lt_of_le_of_lt ((indexRow_maxRealtimeTs frame).1 _ (mem_frameEntries_data he))
    (h frame hframe)

/-- Every frame with entries whose row reaches the time has an entry that does. -/
theorem exists_reaching {f : StoreFile} {frame : ChunkFrame}
    (h : usec ≤ (indexRow frame).maxRealtimeTs) (hne : frameEntries f frame ≠ []) :
    ∃ e ∈ frameEntries f frame, usec ≤ e.data.realtimeTs := by
  have hentries : frame.entries ≠ [] := by
    intro hnil
    apply hne
    simp [frameEntries, scanFrame, hnil]
  obtain ⟨d, hd, hmax⟩ := (indexRow_maxRealtimeTs frame).2 hentries
  obtain ⟨k, hk, rfl⟩ := List.getElem_of_mem hd
  refine ⟨_, List.mem_mapIdx.mpr ⟨k, hk, rfl⟩, ?_⟩
  change usec ≤ frame.entries[k].realtimeTs
  rw [hmax]
  exact h

/-- The search stops in segment `i`, behind the entries it skips without a look and in front of
the first later one that reaches the time. -/
def StopsIn (usec : UInt64) (s : IteratorSource) (path : SegmentPath) (i : ℕ)
    (skipped : List StoredEntry) (result : Int × IteratorSource) : Prop :=
  ∃ s' front e post, result = (0, s') ∧ Keeps s s' ∧
    SourceAt s' (streamUpTo s.segments i ++ (skipped ++ front)) (e :: post) ∧
    (∀ x ∈ front, x.data.realtimeTs < usec) ∧ e ∈ segmentStream path.file ∧
    usec ≤ e.data.realtimeTs

/-- **A turn of the search in a segment without index**: it stops in the segment, or leaves the
source on its first entry, if it has one.
SOURCE: librecorder.c:1936-1946 -/
theorem sourceSeekRealtimeLoop_decoded {paths : List SegmentPath}
    (hseg : s.segments[i]? = some path) (hindex : path.file.file.index = none) :
    StopsIn usec s path i [] (sourceSeekRealtimeLoop none usec (path :: paths) i s) ∨
      ∃ s1, sourceSeekRealtimeLoop none usec (path :: paths) i s =
          sourceSeekRealtimeLoop none usec paths (i + 1) s1 ∧ Keeps s s1 ∧
        (∀ e ∈ segmentStream path.file, e.data.realtimeTs < usec) ∧
        Remaining .forward s1
          (if segmentStream path.file = [] then [] else streamFrom s.segments i) := by
  obtain ⟨rc, s1, hload, hrc, hkeeps, hentries, hidx, hat⟩ :=
    sourceLoadSegmentFallback_spec hseg hindex
  simp only [atSegment] at hload
  have hneg : ¬ rc < 0 := by omega
  cases hfind : s1.entries.findIdx? (fun e => usec ≤ e.data.realtimeTs) with
  | some j =>
    obtain ⟨e, rest, hdrop, hj, he, hbeforej⟩ := findIdx?_split hfind
    have hatj := hat j hj
    rw [hdrop] at hatj
    have hkeepsj : Keeps s (atEntry s1 j) := ⟨hkeeps.segments_eq, hkeeps.group_eq⟩
    refine .inl ⟨atEntry s1 j, s1.entries.take j, e, _, ?_, hkeepsj, hatj, ?_, ?_, ?_⟩
    · simp only [sourceSeekRealtimeLoop, hindex, hload, hneg, if_false, hfind]
      rfl
    · intro x hx
      have := hbeforej x hx
      simpa using this
    · rw [← hentries]
      exact List.mem_of_mem_drop (hdrop ▸ List.mem_cons_self)
    · simpa using he
  | none =>
    have hall := List.findIdx?_eq_none_iff.mp hfind
    refine .inr ⟨s1, ?_, hkeeps, fun e he => ?_, ?_⟩
    · simp only [sourceSeekRealtimeLoop, hindex, hload, hneg, if_false, hfind]
    · rw [hentries] at hall
      simpa using hall e he
    · rw [← hentries]
      by_cases hnil : s1.entries = []
      · rw [if_pos hnil]
        exact .inl ⟨rfl, sourceCurrent_of_entries_nil hnil⟩
      · rw [if_neg hnil, streamFrom_eq hseg, ← hentries]
        have hat0 := hat 0 (List.length_pos_of_ne_nil hnil)
        have hself : atEntry s1 (0 : ℕ) = s1 := by
          change { s1 with entryIndex := 0 } = s1
          rw [← hidx]
        rw [hself] at hat0
        exact hat0.remaining

/-- **A turn of the search in a segment whose index names a row**: it stops in the segment,
behind the frames in front of this row, or there is no entry from the row on.
SOURCE: librecorder.c:1947-1964 -/
theorem sourceSeekRealtimeLoop_found {paths : List SegmentPath} (wf : SourceWf s)
    (hseg : s.segments[i]? = some path)
    (hindex : path.file.file.index = some (path.file.file.frames.map indexRow)) {k : ℕ}
    (hfind : indexFindRealtimeFrame (path.file.file.frames.map indexRow) usec = some k) :
    StopsIn usec s path i ((path.file.file.frames.take k).flatMap (frameEntries path.file))
        (sourceSeekRealtimeLoop none usec (path :: paths) i s) ∨
      ∃ s1, sourceSeekRealtimeLoop none usec (path :: paths) i s =
          sourceSeekRealtimeLoop none usec paths (i + 1) s1 ∧ Keeps s s1 ∧
        (path.file.file.frames.drop k).flatMap (frameEntries path.file) = [] ∧
        sourceCurrent s1 = none := by
  obtain ⟨row, hrow, hreaches⟩ := indexBisect_eq_some hfind
  rw [List.getElem?_map, Option.map_eq_some_iff] at hrow
  obtain ⟨frame', hframe', rfl⟩ := hrow
  obtain ⟨hk, rfl⟩ := List.getElem?_eq_some_iff.mp hframe'
  have hrow : usec ≤ (indexRow path.file.file.frames[k]).maxRealtimeTs := by
    simpa using hreaches
  obtain ⟨s1, rc, s2, hopen, hload, hkeeps, hcase⟩ := sourceLoadIndexedFrom_spec wf hseg hindex hk
  simp only [atSegment] at hopen
  rcases hcase with ⟨rfl, hnil, hcur⟩ | ⟨rfl, j, frame, hframe, hentries, hne, hpre, -, hat⟩
  · refine .inr ⟨s2, ?_, hkeeps, hnil, hcur⟩
    simp [sourceSeekRealtimeLoop, hindex, hfind, hopen, hload]
  · left
    cases hentry : s2.entries.findIdx? (fun e => usec ≤ e.data.realtimeTs) with
    | some m =>
      obtain ⟨e, rest', hdropm, hm, he, hbeforem⟩ := findIdx?_split hentry
      obtain ⟨post, hatm⟩ := hat m hm
      have hkeepsm : Keeps s (atEntry s2 m) := ⟨hkeeps.segments_eq, hkeeps.group_eq⟩
      rw [hpre, hdropm] at hatm
      refine ⟨atEntry s2 m, s2.entries.take m, e, _, ?_, hkeepsm, hatm, ?_, ?_, ?_⟩
      · simp only [sourceSeekRealtimeLoop, hindex, hfind, hopen, hload, hentry]
        rfl
      · intro x hx
        simpa using hbeforem x hx
      · have hmem : e ∈ s2.entries := List.mem_of_mem_drop (hdropm ▸ List.mem_cons_self)
        rw [hentries] at hmem
        rw [segmentStream_of_index hindex]
        exact List.mem_flatMap.mpr ⟨frame, List.mem_of_getElem? hframe, hmem⟩
      · simpa using he
    | none =>
      -- the frame of the row has an entry that reaches the time, so it is the one loaded
      exfalso
      have hall := List.findIdx?_eq_none_iff.mp hentry
      rw [hentries] at hall hne
      by_cases hempty : frameEntries path.file path.file.file.frames[k] = []
      · -- only the time 0 is reached by a row without entries
        have hzero : usec = 0 := by
          have hnil : path.file.file.frames[k].entries = [] := by
            simpa [frameEntries, scanFrame] using hempty
          rw [indexRow_maxRealtimeTs_of_nil hnil] at hrow
          exact UInt64.le_zero_iff.mp hrow
        obtain ⟨e, he⟩ := List.exists_mem_of_ne_nil _ hne
        have := hall e he
        rw [hzero] at this
        simp at this
      · have hsame := frame_eq_of_take_eq hframe (List.getElem?_eq_getElem hk) hne hempty hpre
        rw [hsame] at hall
        obtain ⟨e, he, hle⟩ := exists_reaching hrow hempty
        have := hall e he
        simp [hle] at this

/-- What a source that has found nothing in its first `i` segments has left: nothing, or old
entries. -/
def MissedRealtime (s : IteratorSource) (i : ℕ) : Prop :=
  ∃ post, Remaining .forward s post ∧
    (post = [] ∨ leavesStale decodesRealtime (s.segments.take i) = true)

/-- One turn of the search: it ends in the segment, or goes on to the next one when all
entries of the segment lie before the time. -/
def SeekRealtimeStep (usec : UInt64) (s : IteratorSource) (path : SegmentPath)
    (paths : List SegmentPath) (i : ℕ) : Prop :=
  (∃ s', sourceSeekRealtimeLoop none usec (path :: paths) i s = (0, s') ∧ Keeps s s' ∧
      SoughtRealtime usec s') ∨
    ∃ s1, sourceSeekRealtimeLoop none usec (path :: paths) i s =
        sourceSeekRealtimeLoop none usec paths (i + 1) s1 ∧ Keeps s s1 ∧
      (∀ e ∈ segmentStream path.file, e.data.realtimeTs < usec) ∧ MissedRealtime s1 (i + 1)

/-- A search that stops behind old entries only has found its place. -/
theorem StopsIn.sought {skipped : List StoredEntry} {result : Int × IteratorSource}
    (h : StopsIn usec s path i skipped result)
    (hbefore : ∀ e ∈ streamUpTo s.segments i, e.data.realtimeTs < usec)
    (hskipped : ∀ e ∈ skipped, e.data.realtimeTs < usec) :
    ∃ s', result = (0, s') ∧ Keeps s s' ∧ SoughtRealtime usec s' := by
  obtain ⟨s', front, e, post, heq, hkeeps, hat, hfront, -, he⟩ := h
  refine ⟨s', heq, hkeeps, _, _, hat.append_eq.symm, hat.remaining, ?_, .inl (by simpa using he)⟩
  simp only [List.forall_mem_append]
  exact ⟨hbefore, hskipped, hfront⟩

theorem sourceSeekRealtimeLoop_unindexed {paths : List SegmentPath}
    (hseg : s.segments[i]? = some path) (hindex : path.file.file.index = none)
    (hbefore : ∀ e ∈ streamUpTo s.segments i, e.data.realtimeTs < usec) :
    SeekRealtimeStep usec s path paths i := by
  rcases sourceSeekRealtimeLoop_decoded hseg hindex with hstop | ⟨s1, heq, hkeeps, hall, hrem⟩
  · exact .inl (hstop.sought hbefore (by simp))
  · refine .inr ⟨s1, heq, hkeeps, hall, _, hrem, ?_⟩
    by_cases hnil : segmentStream path.file = []
    · exact .inl (if_pos hnil)
    · right
      rw [hkeeps.segments_eq]
      refine leavesStale_succ hseg (by simp [decodesRealtime, hindex]) hindex ?_
      intro hempty
      apply hnil
      rw [segmentStream_of_none hindex, hempty]
      rfl

theorem sourceSeekRealtimeLoop_indexed {paths : List SegmentPath} (wf : SourceWf s)
    (hseg : s.segments[i]? = some path)
    (hindex : path.file.file.index = some (path.file.file.frames.map indexRow))
    (hexact : RealtimeSearchExact usec path.file)
    (hbefore : ∀ e ∈ streamUpTo s.segments i, e.data.realtimeTs < usec)
    (hmissed : MissedRealtime s i) : SeekRealtimeStep usec s path paths i := by
  have hsearch := hexact _ hindex
  have hdecodes : decodesRealtime path = false := by simp [decodesRealtime, hindex]
  cases hfind : indexFindRealtimeFrame (path.file.file.frames.map indexRow) usec with
  | none =>
    obtain ⟨post, hrem, hpost⟩ := hmissed
    refine .inr ⟨s, ?_, .rfl, ?_, post, hrem, ?_⟩
    · simp only [sourceSeekRealtimeLoop, hindex, hfind]
    · rw [segmentStream_of_index hindex]
      apply lt_of_row_lt
      rw [hfind, eq_comm, List.findIdx?_eq_none_iff] at hsearch
      intro frame hframe
      have := hsearch _ (List.mem_map_of_mem hframe)
      simpa using this
    · rw [leavesStale_succ_of_not hseg hdecodes]
      exact hpost
  | some k =>
    rw [hfind, eq_comm] at hsearch
    obtain ⟨row, rest, hdrop, hk, hreaches, hfront⟩ := findIdx?_split hsearch
    -- every frame in front of the row lies before the time
    have htake : ∀ e ∈ (path.file.file.frames.take k).flatMap (frameEntries path.file),
        e.data.realtimeTs < usec := by
      apply lt_of_row_lt
      intro frame hframe
      have := hfront (indexRow frame) (by rw [← List.map_take]; exact List.mem_map_of_mem hframe)
      simpa using this
    rcases sourceSeekRealtimeLoop_found wf hseg hindex hfind with
      hstop | ⟨s1, heq, hkeeps, hnil, hcur⟩
    · exact .inl (hstop.sought hbefore htake)
    · refine .inr ⟨s1, heq, hkeeps, ?_, [], .inl ⟨rfl, hcur⟩, .inl rfl⟩
      rw [segmentStream_of_index hindex,
        ← flatMap_split path.file.file.frames k (frameEntries path.file), hnil, List.append_nil]
      exact htake

/-- The loop of `source_seek_realtime`. -/
theorem sourceSeekRealtimeLoop_spec (usec : UInt64) (paths : List SegmentPath) :
    ∀ (i : ℕ) (s : IteratorSource), SourceWf s → s.segments.drop i = paths →
      (∀ path ∈ paths, RealtimeSearchExact usec path.file) →
      (∀ e ∈ streamUpTo s.segments i, e.data.realtimeTs < usec) → MissedRealtime s i →
      ∃ s', sourceSeekRealtimeLoop none usec paths i s = (0, s') ∧ Keeps s s' ∧
        SoughtRealtime usec s' := by
  induction paths with
  | nil =>
    intro i s wf hdrop _ hbefore hmissed
    have hlen := List.drop_eq_nil_iff.mp hdrop
    rw [streamUpTo_of_le hlen] at hbefore
    obtain ⟨post, hrem, hpost⟩ := hmissed
    rw [List.take_of_length_le hlen] at hpost
    obtain ⟨pre, hsplit⟩ := hrem.split
    refine ⟨s, rfl, .rfl, pre, post, hsplit, hrem, ?_, ?_⟩
    · intro e he
      apply hbefore e
      change e ∈ sourceStream s
      rw [hsplit]
      exact List.mem_append_left _ he
    · rcases hpost with rfl | hstale
      · exact .inl (by simp)
      · exact .inr ⟨hbefore, hstale⟩
  | cons path paths ih =>
    intro i s wf hdrop hexact hbefore hmissed
    obtain ⟨hseg, hrest⟩ := getElem?_of_drop_eq_cons hdrop
    have hstep : SeekRealtimeStep usec s path paths i := by
      cases hindex : path.file.file.index with
      | none => exact sourceSeekRealtimeLoop_unindexed hseg hindex hbefore
      | some rows =>
        obtain rfl := wf.usable path (List.mem_of_getElem? hseg) rows hindex
        exact sourceSeekRealtimeLoop_indexed wf hseg hindex (hexact path (by simp)) hbefore hmissed
    rcases hstep with hdone | ⟨s1, hloop, hkeeps, hsegment, hmissed1⟩
    · exact hdone
    · rw [hloop]
      obtain ⟨s', heq, hkeeps', hsought⟩ := ih (i + 1) s1 (wf.keeps hkeeps)
        (by rw [hkeeps.segments_eq]; exact hrest) (fun p hp => hexact p (by simp [hp]))
        (by
          rw [hkeeps.segments_eq, streamUpTo_succ hseg]
          intro e he
          rcases List.mem_append.mp he with he | he
          · exact hbefore e he
          · exact hsegment e he)
        hmissed1
      exact ⟨s', heq, hkeeps.trans hkeeps', hsought⟩

/-- **`source_seek_realtime`** stops in front of the first entry that reaches the time.
SOURCE: librecorder.c:1917-1966 -/
theorem sourceSeekRealtime_spec (usec : UInt64) (wf : SourceWf s)
    (hexact : ∀ path ∈ s.segments, RealtimeSearchExact usec path.file) :
    ∃ s', sourceSeekRealtime none usec s = (0, s') ∧ Keeps s s' ∧ SoughtRealtime usec s' := by
  have hkeeps : Keeps s { sourceClearFrame s with frameCount := 0 } := ⟨rfl, rfl⟩
  obtain ⟨s', heq, hkeeps', hsought⟩ := sourceSeekRealtimeLoop_spec usec s.segments 0
    { sourceClearFrame s with frameCount := 0 } (wf.keeps hkeeps) rfl hexact
    (by rw [streamUpTo_zero]; simp) ⟨[], .inl ⟨rfl, rfl⟩, .inl rfl⟩
  exact ⟨s', heq, hkeeps.trans hkeeps', hsought⟩

end Realtime

end Recorder.Analysis
