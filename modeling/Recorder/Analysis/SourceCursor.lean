import Recorder.Analysis.IteratorCursor

/-!
# Seeking one source to an entry

`source_seek_cursor` loads the frame of the entry, found by its offset in the index, or the
whole segment without one, and looks for the entry there. No two entries of a segment share
frame and index, so that the source stands on the entry it was asked for
(`sourceSeekCursor_spec`).
-/

set_option autoImplicit false

namespace Recorder.Analysis

open Recorder.Model Recorder.Lib

/-! ## Finding an entry by frame and index -/

/-- Entries that a cursor into their segment tells apart. -/
def Apart (a b : StoredEntry) : Prop :=
  ¬ (a.frameOffset = b.frameOffset ∧ a.frameEntryIndex = b.frameEntryIndex)

/-- Two entries are apart in either order. -/
theorem Apart.symm {a b : StoredEntry} (h : Apart a b) : Apart b a :=
  fun heq => h ⟨heq.1.symm, heq.2.symm⟩

/-- The entries of a file are apart. -/
theorem fileEntries_apart (f : StoreFile) : f.fileEntries.Pairwise Apart := by
  refine (fileEntries_pairwise f).imp ?_
  rintro a b h ⟨hoffset, hindex⟩
  rcases h.place_lt with hlt | ⟨-, hlt⟩
  · rw [hoffset] at hlt
    exact absurd hlt (UInt64.lt_irrefl _)
  · rw [hindex] at hlt
    exact absurd hlt (UInt32.lt_irrefl _)

/-- The sorted entries of a file are apart. -/
theorem sortStored_apart (f : StoreFile) : (sortStored f.fileEntries).Pairwise Apart :=
  ((List.perm_insertionSort _ f.fileEntries).pairwise_iff Apart.symm).mpr (fileEntries_apart f)

/-- The entries of a frame are apart. -/
theorem frameEntries_apart (f : StoreFile) {frame : Model.ChunkFrame}
    (hframe : frame ∈ f.file.frames) :
    (frameEntries f frame).Pairwise Apart := by
  have h := fileEntries_apart f
  unfold StoreFile.fileEntries at h
  exact (List.pairwise_flatMap.mp h).1 frame hframe

/-- An entry of the loaded array is found at its place. -/
theorem findCursorEntry_eq {s : IteratorSource} {e : StoredEntry} {k : ℕ}
    (hapart : s.entries.Pairwise Apart) (hk : s.entries[k]? = some e) :
    findCursorEntry s e.frameOffset e.frameEntryIndex = some k := by
  obtain ⟨hlt, hget⟩ := List.getElem?_eq_some_iff.mp hk
  unfold findCursorEntry
  rw [List.findIdx?_eq_some_iff_getElem]
  refine ⟨hlt, by simp [hget], ?_⟩
  intro m hm hfound
  have hne := List.pairwise_iff_getElem.mp hapart m k (hm.trans hlt) hlt hm
  rw [hget] at hne
  exact hne (by simpa using hfound)

/-! ## The frame of an entry -/

/-- **`index_find_offset_frame`** finds the row of a frame of the segment.
SOURCE: index.c:561-587 -/
theorem indexFindOffsetFrame_eq {f : StoreFile} {frame : Model.ChunkFrame} {j : ℕ}
    (hframe : f.file.frames[j]? = some frame) :
    indexFindOffsetFrame (f.file.frames.map indexRow) frame.fileOffset = some j := by
  obtain ⟨hj, hget⟩ := List.getElem?_eq_some_iff.mp hframe
  have hgrow : (f.file.frames.map indexRow).Pairwise fun a b => a.fileOffset < b.fileOffset := by
    rw [List.pairwise_map]
    refine f.file.offsets_lt.imp fun h => ?_
    rw [indexRow_fileOffset, indexRow_fileOffset]
    exact h
  have hbisect : indexBisect (·.fileOffset < frame.fileOffset) (f.file.frames.map indexRow) =
      some j := by
    rw [indexBisect_eq_findIdx?, List.findIdx?_eq_some_iff_getElem]
    · refine ⟨by simpa using hj, ?_, ?_⟩
      · simp [indexRow_fileOffset, hget]
      · intro m hm
        have hlt := List.pairwise_iff_getElem.mp f.file.offsets_lt m j (hm.trans hj) hj hm
        rw [hget] at hlt
        simp [indexRow_fileOffset, hlt]
    · refine hgrow.imp fun hab hb => ?_
      rw [decide_eq_true_eq] at hb ⊢
      exact UInt64.lt_trans hab hb
  unfold indexFindOffsetFrame
  rw [hbisect]
  simp [List.getElem?_map, hframe, indexRow_fileOffset]

/-- An entry of a file is in one of its frames. -/
theorem exists_frame_of_mem {f : StoreFile} {e : StoredEntry} (he : e ∈ f.fileEntries) :
    ∃ (j : ℕ) (frame : Model.ChunkFrame), f.file.frames[j]? = some frame ∧
      e ∈ frameEntries f frame ∧ frame.fileOffset = e.frameOffset := by
  unfold StoreFile.fileEntries at he
  obtain ⟨frame, hframe, hmem⟩ := List.mem_flatMap.mp he
  obtain ⟨j, hj⟩ := List.getElem?_of_mem hframe
  exact ⟨j, frame, hj, hmem, (mem_scanFrame hmem).2.2.2.symm⟩

/-! ## One source -/

section Source

variable {s : IteratorSource} {path : SegmentPath} {e : StoredEntry} {i : ℕ}

/-- The entry in its frame, loaded by the index. -/
theorem sourceLoadCursorFrame_indexed (wf : SourceWf s) (hseg : s.segments[i]? = some path)
    (hindex : path.file.file.index = some (path.file.file.frames.map indexRow))
    (he : e ∈ path.file.fileEntries) :
    ∃ (s1 : IteratorSource) (k : ℕ) (pre post : List StoredEntry),
      sourceLoadCursorFrame none (atSegment s i) path e.frameOffset = (0, s1) ∧
      s1.entries.Pairwise Apart ∧ s1.entries[k]? = some e ∧ Keeps s s1 ∧
      SourceAt (atEntry s1 k) pre (e :: post) := by
  obtain ⟨j, frame, hframe, hmem, hoffset⟩ := exists_frame_of_mem he
  obtain ⟨k, hk⟩ := List.getElem?_of_mem hmem
  have hseg' : (atSegment s i).segments[(atSegment s i).segmentIndex]? = some path := hseg
  have hi := openIndex_indexed hseg' hindex (wf.group_eq _ (List.mem_of_getElem? hseg))
  have hi' := hi.loadFrame .forward j frame
  have hlt := (List.getElem?_eq_some_iff.mp hk).1
  have hload := LoadedAt.indexed
    (s := atEntry (loadFrame (openIndex (atSegment s i) path) path .forward j frame) k)
    ⟨hi'.seg, hi'.index, hi'.reader, hi'.count, hi'.fallback, hi'.group⟩ frame hframe rfl k hlt rfl
  have hkeeps : Keeps (atSegment s i)
      (atEntry (loadFrame (openIndex (atSegment s i) path) path .forward j frame) k) := ⟨rfl, rfl⟩
  have hat := SourceAt.of_loadedAt hkeeps rfl hseg' hload
  have hdrop : (frameEntries path.file frame).drop k =
      e :: (frameEntries path.file frame).drop (k + 1) := by
    obtain ⟨hlt', hget⟩ := List.getElem?_eq_some_iff.mp hk
    rw [List.drop_eq_getElem_cons hlt', hget]
  simp only [atEntry_entries] at hat
  rw [show (loadFrame (openIndex (atSegment s i) path) path .forward j frame).entries =
    frameEntries path.file frame from rfl, hdrop, List.cons_append, List.cons_append] at hat
  refine ⟨loadFrame (openIndex (atSegment s i) path) path .forward j frame, k, _, _, ?_,
    frameEntries_apart path.file (List.mem_of_getElem? hframe), hk, ⟨rfl, rfl⟩, hat⟩
  unfold sourceLoadCursorFrame
  rw [hindex, Option.bind_some, ← hoffset, indexFindOffsetFrame_eq hframe]
  simp only [sourceLoadIndex_eq hseg' hindex, sourceLoadFrame_eq hi .forward hframe]
  rfl

/-- The entry in its segment, loaded as a whole where there is no index. -/
theorem sourceLoadCursorFrame_fallback (hseg : s.segments[i]? = some path)
    (hindex : path.file.file.index = none) (he : e ∈ path.file.fileEntries) :
    ∃ (rc : Int) (s1 : IteratorSource) (k : ℕ) (pre post : List StoredEntry),
      sourceLoadCursorFrame none (atSegment s i) path e.frameOffset = (rc, s1) ∧ 0 ≤ rc ∧
      s1.entries.Pairwise Apart ∧ s1.entries[k]? = some e ∧ Keeps s s1 ∧
      SourceAt (atEntry s1 k) pre (e :: post) := by
  obtain ⟨rc, s1, hload, hrc, hkeeps, hentries, -, hat⟩ :=
    sourceLoadSegmentFallback_spec hseg hindex
  rw [segmentStream_of_none hindex] at hentries
  have hmem : e ∈ s1.entries := by
    rw [hentries]
    exact (List.perm_insertionSort _ _).mem_iff.mpr he
  obtain ⟨k, hk⟩ := List.getElem?_of_mem hmem
  obtain ⟨hlt, hget⟩ := List.getElem?_eq_some_iff.mp hk
  have hat := hat k hlt
  rw [List.drop_eq_getElem_cons hlt, hget, List.cons_append] at hat
  refine ⟨rc, s1, k, _, _, ?_, hrc, ?_, hk, hkeeps, hat⟩
  · unfold sourceLoadCursorFrame
    rw [hindex]
    exact hload
  · rw [hentries]
    exact sortStored_apart path.file

/-- **`source_seek_cursor`** stands on the entry it was asked for.
SOURCE: librecorder.c:2045-2098 -/
theorem sourceSeekCursor_spec (wf : SourceWf s)
    (hfind : s.segments.findIdx? (·.segmentSeq == e.segmentSeq) = some i)
    (hseg : s.segments[i]? = some path) (he : e ∈ path.file.fileEntries) :
    ∃ s' pre post, sourceSeekCursor none s e.segmentSeq e.frameOffset e.frameEntryIndex =
        (some e.data.realtimeTs, s') ∧ Keeps s s' ∧ SourceAt s' pre (e :: post) := by
  obtain ⟨rc, s1, k, pre, post, hload, hrc, hapart, hk, hkeeps, hat⟩ :
      ∃ (rc : Int) (s1 : IteratorSource) (k : ℕ) (pre post : List StoredEntry),
        sourceLoadCursorFrame none (atSegment s i) path e.frameOffset = (rc, s1) ∧ 0 ≤ rc ∧
        s1.entries.Pairwise Apart ∧ s1.entries[k]? = some e ∧ Keeps s s1 ∧
        SourceAt (atEntry s1 k) pre (e :: post) := by
    cases hindex : path.file.file.index with
    | none => exact sourceLoadCursorFrame_fallback hseg hindex he
    | some rows =>
      obtain rfl := wf.usable path (List.mem_of_getElem? hseg) rows hindex
      obtain ⟨s1, k, pre, post, hload, hrest⟩ := sourceLoadCursorFrame_indexed wf hseg hindex he
      exact ⟨0, s1, k, pre, post, hload, le_rfl, hrest⟩
  have hload' : sourceLoadCursorFrame none { s with segmentIndex := i } path e.frameOffset =
      (rc, s1) := hload
  refine ⟨atEntry s1 k, pre, post, ?_, ⟨hkeeps.segments_eq, hkeeps.group_eq⟩, hat⟩
  unfold sourceSeekCursor
  simp only [hfind, hseg, hload', if_neg (Int.not_lt.mpr hrc), findCursorEntry_eq hapart hk, hk,
    Option.map_some]
  rfl

end Source

end Recorder.Analysis
