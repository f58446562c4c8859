import Recorder.Analysis.SourceSeekRecorded

/-!
# Turning the merge round

`iterator_reposition_after_current` sets every source up again from the current entry alone:
in wallclock order from the first entry that reaches its time, in receipt order from the
first entry behind it. Where these searches find their place, each source delivers in the new
direction what lies beyond the current entry (`iteratorRepositionAfterCurrent_spec`).
-/

set_option autoImplicit false

namespace Recorder.Analysis

open Recorder.Model Recorder.Lib

/-! ## What lies beyond an entry -/

/-- Whether an entry comes behind a key in a direction. -/
def beyond (order : Order) (dir : Direction) (key e : StoredEntry) : Bool :=
  compareDirection order dir e key == .gt

section Beyond

variable (order : Order) {key : StoredEntry} {l pre post : List StoredEntry}

theorem beyond_forward (key : StoredEntry) :
    beyond order .forward key = fun e => compareIteratorEntries order e key == .gt := rfl

theorem beyond_reverse (key : StoredEntry) :
    beyond order .reverse key = fun e => compareIteratorEntries order e key == .lt := by
  funext e
  have hswap : compareIteratorEntries order key e = (compareIteratorEntries order e key).swap :=
    Std.OrientedCmp.eq_swap
  simp only [beyond, compareDirection, hswap]
  cases compareIteratorEntries order e key <;> rfl

/-- What lies beyond a key forward, as the loops leave it. -/
theorem dropWhile_eq_beyond (h : SortedBy (compareIteratorEntries order) l) (key : StoredEntry) :
    l.dropWhile (fun e => (compareIteratorEntries order e key).isLE) =
      l.filter (beyond order .forward key) :=
  h.dropWhile_le key

/-- What lies beyond a key in reverse, as the loops leave it. -/
theorem takeWhile_eq_beyond (h : SortedBy (compareIteratorEntries order) l) (key : StoredEntry) :
    l.takeWhile (fun e => compareIteratorEntries order e key == .lt) =
      l.filter (beyond order .reverse key) := by
  rw [beyond_reverse]
  exact h.takeWhile_lt key

/-- Stepping back over the entries at or behind a key. -/
theorem dropWhile_reverse_eq_beyond (h : SortedBy (compareIteratorEntries order) l)
    (hsplit : l = pre ++ post)
    (hpost : ∀ e ∈ post, compareIteratorEntries order e key = .gt) :
    pre.reverse.dropWhile (fun e => (compareIteratorEntries order e key).isGE) =
      (l.filter (beyond order .reverse key)).reverse := by
  have hpre : SortedBy (compareIteratorEntries order) pre := by
    rw [hsplit] at h
    exact (List.pairwise_append.mp h).1
  have hpost' : post.filter (beyond order .reverse key) = [] := by
    rw [List.filter_eq_nil_iff, beyond_reverse]
    intro e he
    simp only [hpost e he]
    decide
  rw [hsplit, List.filter_append, hpost', List.append_nil, ← List.filter_reverse, beyond_reverse,
    dropWhile_eq_filter]
  · apply List.filter_congr
    intro e _
    cases compareIteratorEntries order e key <;> rfl
  · rw [List.pairwise_reverse]
    refine hpre.imp ?_
    -- what follows an entry at or behind the key is there as well
    intro a b hab ha
    rw [Std.OrientedCmp.isGE_iff_isLE] at ha ⊢
    exact Std.TransCmp.isLE_trans ha hab

theorem compareStoredEntries_of_realtime_lt {a b : StoredEntry}
    (h : a.data.realtimeTs < b.data.realtimeTs) : compareStoredEntries a b = .lt := by
  simp only [compareStoredEntries, compareLex, compareOn, Ordering.then_eq_lt, Std.compare_eq_lt]
  exact .inl h

end Beyond

/-! ## Turning one source -/

section Source

variable {s : IteratorSource} {key : StoredEntry}

/-- **A turn in wallclock order**, from where the search for the time of the current entry
left the source. An old entry it was left on is passed over like any other.
SOURCE: librecorder.c:2730-2750 -/
theorem sourceReposition_wallclock (wf : SourceWf s)
    (hsought : SoughtRealtime key.data.realtimeTs s)
    (hsorted : SortedBy compareStoredEntries (sourceStream s)) (dir : Direction) :
    ∃ s', sourceReposition none .wallclock key dir s = (0, s') ∧ Keeps s s' ∧
      Remaining dir s'
        (inDirection dir ((sourceStream s).filter (beyond .wallclock dir key))) := by
  obtain ⟨pre, post, hsplit, hrem, hpre, -⟩ := hsought
  have hlt : ∀ e ∈ pre, compareStoredEntries e key = .lt := fun e he =>
    compareStoredEntries_of_realtime_lt (hpre e he)
  cases dir with
  | forward =>
    obtain ⟨s1, hloop, hkeeps, hrem1⟩ := sourceAdvanceWhile_spec wf hrem
      fun e => (compareStoredEntries e key).isLE
    refine ⟨s1, ?_, hkeeps, ?_⟩
    · simp only [sourceReposition, hloop]
      rfl
    · have hdrop : (sourceStream s).dropWhile (fun e => (compareStoredEntries e key).isLE) =
          post.dropWhile fun e => (compareStoredEntries e key).isLE := by
        rw [hsplit]
        apply List.dropWhile_append_of_pos
        intro e he
        rw [hlt e he]
        rfl
      rw [← hdrop] at hrem1
      rw [inDirection, ← dropWhile_eq_beyond .wallclock hsorted key]
      exact hrem1
  | reverse =>
    obtain ⟨s1, hloop, hkeeps, hrem1⟩ := sourceAdvanceWhile_spec wf hrem
      fun e => compareStoredEntries e key == .lt
    have hsplit1 : sourceStream s1 =
        (pre ++ post.takeWhile fun e => compareStoredEntries e key == .lt) ++
          post.dropWhile fun e => compareStoredEntries e key == .lt := by
      rw [hkeeps.sourceStream_eq, hsplit, List.append_assoc, List.takeWhile_append_dropWhile]
    obtain ⟨s2, hback, hkeeps2, hrem2⟩ :=
      sourceStepBack_remaining (wf.keeps hkeeps) hrem1 hsplit1 fun _ => false
    refine ⟨s2, ?_, hkeeps.trans hkeeps2, ?_⟩
    · simp only [sourceReposition, hloop, Bool.not_true, Bool.false_eq_true, if_false]
      exact hback
    · have htake : (sourceStream s).takeWhile (fun e => compareStoredEntries e key == .lt) =
          pre ++ post.takeWhile fun e => compareStoredEntries e key == .lt := by
        rw [hsplit]
        apply List.takeWhile_append_of_pos
        intro e he
        rw [hlt e he]
        rfl
      have hnone : ∀ l : List StoredEntry, l.dropWhile (fun _ => false) = l := by
        intro l
        cases l <;> rfl
      rw [hnone, ← htake] at hrem2
      rw [inDirection, ← takeWhile_eq_beyond .wallclock hsorted key]
      exact hrem2

/-- **A turn in receipt order.**
SOURCE: librecorder.c:2700-2723 -/
theorem sourceReposition_recorded (wf : SourceWf s)
    (hexact : ∀ path ∈ s.segments, path.file.file.header.bootSeq = key.bootSeq →
      MonotonicSearchExact key.data.monotonicTs path.file)
    (hsorted : SortedBy compareRecorded (sourceStream s))
    (hlands : leavesStale (decodesRecorded key) s.segments = true →
      ∃ e ∈ sourceStream s, compareRecorded e key = .gt) (dir : Direction) :
    ∃ s', sourceReposition none .recorded key dir s = (0, s') ∧ Keeps s s' ∧
      Remaining dir s'
        (inDirection dir ((sourceStream s).filter (beyond .recorded dir key))) := by
  obtain ⟨s1, hseek, hkeeps, hrem⟩ := sourceSeekRecordedAfter_spec wf hexact hsorted hlands
  cases dir with
  | forward =>
    refine ⟨s1, ?_, hkeeps, ?_⟩
    · simp only [sourceReposition, hseek]
      rfl
    · rw [inDirection, ← dropWhile_eq_beyond .recorded hsorted key]
      exact hrem
  | reverse =>
    have hsplit : sourceStream s = (sourceStream s).takeWhile (upTo key) ++
        (sourceStream s).dropWhile (upTo key) := List.takeWhile_append_dropWhile.symm
    have hpost : ∀ e ∈ (sourceStream s).dropWhile (upTo key), compareRecorded e key = .gt := by
      intro e he
      rw [show (sourceStream s).dropWhile (upTo key) = _ from hsorted.dropWhile_le key] at he
      exact beq_iff_eq.mp (List.mem_filter.mp he).2
    obtain ⟨s2, hback, hkeeps2, hrem2⟩ := sourceStepBack_remaining (wf.keeps hkeeps) hrem
      (hkeeps.sourceStream_eq.trans hsplit) fun e => (compareRecorded e key).isGE
    refine ⟨s2, ?_, hkeeps.trans hkeeps2, ?_⟩
    · simp only [sourceReposition, hseek]
      exact hback
    · rw [inDirection, ← dropWhile_reverse_eq_beyond .recorded hsorted hsplit hpost]
      exact hrem2

end Source

/-! ## Turning the merge -/

/-- The searches of a turn find their place in a group: binary searches find the first row
that reaches the key, and no source is left on an old entry when nothing of its group lies
behind the key. In wallclock order an old entry does no harm. -/
def TurnLands (order : Order) (key : StoredEntry) (segments : List SegmentPath) : Prop :=
  match order with
  | .wallclock => ∀ path ∈ segments, RealtimeSearchExact key.data.realtimeTs path.file
  | .recorded =>
    (∀ path ∈ segments, path.file.file.header.bootSeq = key.bootSeq →
      MonotonicSearchExact key.data.monotonicTs path.file) ∧
    (leavesStale (decodesRecorded key) segments = true →
      ∃ path ∈ segments, ∃ e ∈ path.file.fileEntries, compareRecorded e key = .gt)

instance (order : Order) (key : StoredEntry) (segments : List SegmentPath) :
    Decidable (TurnLands order key segments) :=
  match order with
  | .wallclock =>
    inferInstanceAs (Decidable (∀ path ∈ segments, RealtimeSearchExact _ path.file))
  | .recorded => inferInstanceAs (Decidable (_ ∧ _))

section Iterator

variable {store : Store} {r : Reader}

/-- **`iterator_seek_realtime`** puts every source in front of its first entry that reaches
the time, or leaves it on an old one.
SOURCE: librecorder.c:2034-2043 -/
theorem iteratorSeekRealtime_sources (usec : UInt64) (husable : UsableIndexes store)
    (hunit : r.unitFilter = none)
    (hexact : ∀ s ∈ storeSources store r.groupFilter, ∀ path ∈ s.segments,
      RealtimeSearchExact usec path.file) :
    ∃ sources, iteratorSeekRealtime store usec r =
        (0, { iteratorReset r with sources := sources, lastDirection := some .forward }) ∧
      List.Forall₂ (fun s s' => s ∈ storeSources store r.groupFilter ∧ Keeps s s' ∧
        SoughtRealtime usec s') (storeSources store r.groupFilter) sources := by
  obtain ⟨sources, hinit, hforall⟩ := iteratorInitialize_sources husable hunit .forward
  obtain ⟨sources', hseek, hforall'⟩ := forSources_forall₂
    (f := sourceSeekRealtime r.unitFilter usec)
    (Q := fun s s' => s ∈ storeSources store r.groupFilter ∧ Keeps s s' ∧ SoughtRealtime usec s')
    hforall (by
      rintro s s1 ⟨hs, hkeeps, -⟩
      obtain ⟨s2, heq, hkeeps2, hsought⟩ := sourceSeekRealtime_spec usec
        ((storeSources_wf husable hs).keeps hkeeps)
        (by rw [hkeeps.segments_eq]; exact hexact s hs)
      rw [hunit]
      exact ⟨0, s2, heq, by omega, hs, hkeeps.trans hkeeps2, hsought⟩)
  refine ⟨sources', ?_, hforall'⟩
  simp only [iteratorSeekRealtime, hinit]
  rw [show (iteratorReset r).unitFilter = r.unitFilter from rfl, hseek]
  rfl

/-- What every source delivers in a direction from a key on. -/
def turnedStreams (store : Store) (filter : List Bytes) (order : Order) (dir : Direction)
    (key : StoredEntry) : List (List StoredEntry) :=
  (storeStreams store filter).map fun l => inDirection dir (l.filter (beyond order dir key))

/-- Sources that deliver what lies beyond a key. -/
theorem positioned_turned {order : Order} {dir : Direction} {key : StoredEntry}
    {filter : List Bytes} {sources : List IteratorSource}
    (h : List.Forall₂ (fun s s' => SourceWf s' ∧
      Remaining dir s' (inDirection dir ((sourceStream s).filter (beyond order dir key))))
      (storeSources store filter) sources) :
    Positioned dir sources (turnedStreams store filter order dir key) := by
  rw [turnedStreams, storeStreams, List.map_map]
  unfold Positioned
  rw [List.forall₂_map_right_iff]
  exact h.flip

/-- **`iterator_reposition_after_current`** leaves what lies beyond the current entry in the
new direction, when the searches find their place in every group.
SOURCE: librecorder.c:2686-2757 -/
theorem iteratorRepositionAfterCurrent_spec (husable : UsableIndexes store)
    (hunit : r.unitFilter = none) {key : StoredEntry} (hvalid : r.currentValid = true)
    (hentry : r.currentEntry = some key)
    (hsorted : ∀ s ∈ storeSources store r.groupFilter,
      SortedBy (compareIteratorEntries r.order) (sourceStream s))
    (hlands : ∀ s ∈ storeSources store r.groupFilter, TurnLands r.order key s.segments)
    (dir : Direction) :
    ∃ sources, iteratorRepositionAfterCurrent store dir r =
        (0, { iteratorReset r with sources := sources, lastDirection := some dir }) ∧
      Positioned dir sources (turnedStreams store r.groupFilter r.order dir key) := by
  have hkey : (if r.currentValid then r.currentEntry else none) = some key := by
    rw [hvalid, if_pos rfl, hentry]
  cases horder : r.order with
  | wallclock =>
    rw [horder] at hsorted hlands
    obtain ⟨sources, hseek, hforall⟩ :=
      iteratorSeekRealtime_sources key.data.realtimeTs husable hunit hlands
    obtain ⟨sources', hturn, hforall'⟩ := forSources_forall₂
      (f := sourceReposition none .wallclock key dir)
      (Q := fun s s' => SourceWf s' ∧
        Remaining dir s' (inDirection dir ((sourceStream s).filter (beyond .wallclock dir key))))
      hforall (by
        rintro s s1 ⟨hs, hkeeps, hsought⟩
        have wf := (storeSources_wf husable hs).keeps hkeeps
        obtain ⟨s2, heq, hkeeps2, hrem⟩ := sourceReposition_wallclock wf hsought
          (by rw [hkeeps.sourceStream_eq]; exact hsorted s hs) dir
        rw [hkeeps.sourceStream_eq] at hrem
        exact ⟨0, s2, heq, by omega, wf.keeps hkeeps2, hrem⟩)
    refine ⟨sources', ?_, positioned_turned hforall'⟩
    simp only [iteratorRepositionAfterCurrent, hkey, horder, hseek]
    rw [show (iteratorReset r).unitFilter = none from hunit,
      show (iteratorReset r).order = .wallclock from horder, hturn]
    rfl
  | recorded =>
    rw [horder] at hsorted hlands
    have hstart : List.Forall₂ (fun s s' => s ∈ storeSources store r.groupFilter ∧ s' = s)
        (storeSources store r.groupFilter) (storeSources store r.groupFilter) :=
      List.forall₂_same.mpr fun s hs => ⟨hs, rfl⟩
    obtain ⟨sources', hturn, hforall'⟩ := forSources_forall₂
      (f := sourceReposition none .recorded key dir)
      (Q := fun s s' => SourceWf s' ∧
        Remaining dir s' (inDirection dir ((sourceStream s).filter (beyond .recorded dir key))))
      hstart (by
        rintro s _ ⟨hs, rfl⟩
        have wf := storeSources_wf husable hs
        obtain ⟨hexact, hland⟩ := hlands _ hs
        obtain ⟨s2, heq, hkeeps2, hrem⟩ := sourceReposition_recorded wf hexact (hsorted _ hs)
          (by
            intro hstale
            obtain ⟨path, hpath, e, he, hgt⟩ := hland hstale
            exact ⟨e, List.mem_flatMap.mpr ⟨path, hpath,
              (segmentStream_perm path.file).mem_iff.mpr he⟩, hgt⟩) dir
        exact ⟨0, s2, heq, by omega, wf.keeps hkeeps2, hrem⟩)
    refine ⟨sources', ?_, positioned_turned hforall'⟩
    have hcollected : forSources (sourceReposition (iteratorCollectSources store r).unitFilter
        (iteratorCollectSources store r).order key dir) (iteratorCollectSources store r).sources =
          (true, sources') := by
      rw [show (iteratorCollectSources store r).unitFilter = none from hunit,
        show (iteratorCollectSources store r).order = .recorded from horder]
      exact hturn
    simp only [iteratorRepositionAfterCurrent, hkey, horder, hcollected]
    rfl

end Iterator

end Recorder.Analysis
