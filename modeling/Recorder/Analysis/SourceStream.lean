import Recorder.Lib.Merge
import Recorder.Model.Source

/-!
# What a merge source delivers

A source walks one fixed list, its stream: the entries of its segments in turn, in file
order where the segment has a usable index and sorted where it has not (`sourceStream`).
`SourceAt` ties the three indices of an `IteratorSource` to a place in the stream, with
everything before it and everything from it on. `sourcePositionEdge` goes to either end of
the stream (`sourcePositionEdge_forward`, `sourcePositionEdge_reverse`), and
`sourceAdvance` moves by exactly one entry in either direction (`sourceAdvance_forward`,
`sourceAdvance_reverse`): empty frames and segments are passed over, and the wrapped frame
index that a segment without frames leaves behind only costs a detour.
-/

set_option autoImplicit false

namespace Recorder.Analysis

open Recorder.Model

/-! ## Streams -/

/-- An index that was written for the frames of its segment. -/
def UsableIndex (f : StoreFile) : Prop :=
  ∀ rows, f.file.index = some rows → rows = f.file.frames.map indexRow

/-- The entries of one frame. -/
def frameEntries (f : StoreFile) (frame : ChunkFrame) : List StoredEntry :=
  scanFrame f.group f.file.header frame

/-- The entries of a segment in the order a source delivers them. -/
def segmentStream (f : StoreFile) : List StoredEntry :=
  if f.file.index.isSome then f.fileEntries else sortStored f.fileEntries

/-- The entries of a source in the order it delivers them. -/
def sourceStream (s : IteratorSource) : List StoredEntry :=
  s.segments.flatMap fun path => segmentStream path.file

/-- A source over segments of one group, each with a usable index or none. -/
structure SourceWf (s : IteratorSource) : Prop where
  group_eq : ∀ path ∈ s.segments, path.file.group = s.group
  usable : ∀ path ∈ s.segments, UsableIndex path.file
  length_lt : s.segments.length < 2 ^ 63

/-- The parts of a source that no movement changes. -/
structure Keeps (s s' : IteratorSource) : Prop where
  segments_eq : s'.segments = s.segments
  group_eq : s'.group = s.group

/-- A source keeps its own parts. -/
theorem Keeps.rfl {s : IteratorSource} : Keeps s s := ⟨Eq.refl _, Eq.refl _⟩

/-- Two movements keep what each of them keeps. -/
theorem Keeps.trans {s s' s'' : IteratorSource} (h : Keeps s s') (h' : Keeps s' s'') :
    Keeps s s'' :=
  ⟨h'.segments_eq.trans h.segments_eq, h'.group_eq.trans h.group_eq⟩

/-- A movement leaves a source well formed. -/
theorem SourceWf.keeps {s s' : IteratorSource} (wf : SourceWf s) (h : Keeps s s') :
    SourceWf s' := by
  constructor
  · rw [h.segments_eq, h.group_eq]; exact wf.group_eq
  · rw [h.segments_eq]; exact wf.usable
  · rw [h.segments_eq]; exact wf.length_lt

/-- A movement leaves the stream of a source as it was. -/
theorem Keeps.sourceStream_eq {s s' : IteratorSource} (h : Keeps s s') :
    sourceStream s' = sourceStream s := by
  unfold sourceStream
  rw [h.segments_eq]

/-- The entries of the first `i` segments. -/
def streamUpTo (segments : List SegmentPath) (i : ℕ) : List StoredEntry :=
  (segments.take i).flatMap fun path => segmentStream path.file

/-- The entries of the segments from number `i` on. -/
def streamFrom (segments : List SegmentPath) (i : ℕ) : List StoredEntry :=
  (segments.drop i).flatMap fun path => segmentStream path.file

section Blocks

variable {β : Type}

/-- What lies before a place, with the block at the place. -/
theorem flatMap_take_succ {l : List β} {j : ℕ} {b : β} (h : l[j]? = some b)
    (E : β → List StoredEntry) : (l.take (j + 1)).flatMap E = (l.take j).flatMap E ++ E b := by
  rw [List.take_add_one, h]
  simp

/-- What lies from a place on starts with its block. -/
theorem flatMap_drop_eq {l : List β} {j : ℕ} {b : β} (h : l[j]? = some b)
    (E : β → List StoredEntry) : (l.drop j).flatMap E = E b ++ (l.drop (j + 1)).flatMap E := by
  obtain ⟨hlt, rfl⟩ := List.getElem?_eq_some_iff.mp h
  rw [List.drop_eq_getElem_cons hlt, List.flatMap_cons]

/-- The blocks before a place and those from it on are all blocks. -/
theorem flatMap_split (l : List β) (j : ℕ) (E : β → List StoredEntry) :
    (l.take j).flatMap E ++ (l.drop j).flatMap E = l.flatMap E := by
  rw [← List.flatMap_append, List.take_append_drop]

end Blocks

section Streams

variable {segments : List SegmentPath} {i : ℕ} {path : SegmentPath}

/-- The entries before the next segment. -/
theorem streamUpTo_succ (h : segments[i]? = some path) :
    streamUpTo segments (i + 1) = streamUpTo segments i ++ segmentStream path.file :=
  flatMap_take_succ h _

/-- The entries from a segment on start with its own. -/
theorem streamFrom_eq (h : segments[i]? = some path) :
    streamFrom segments i = segmentStream path.file ++ streamFrom segments (i + 1) :=
  flatMap_drop_eq h _

/-- Nothing lies before the first segment. -/
theorem streamUpTo_zero : streamUpTo segments 0 = [] := rfl

/-- All entries lie before a place behind the last segment. -/
theorem streamUpTo_of_le (h : segments.length ≤ i) :
    streamUpTo segments i = segments.flatMap fun path => segmentStream path.file := by
  unfold streamUpTo
  rw [List.take_of_length_le h]

/-- Nothing lies behind the last segment. -/
theorem streamFrom_of_le (h : segments.length ≤ i) : streamFrom segments i = [] := by
  unfold streamFrom
  rw [List.drop_eq_nil_of_le h, List.flatMap_nil]

end Streams

/-! ## Loading one frame -/

/-- The row of a frame has the offset of the frame. -/
theorem indexRow_fileOffset (frame : ChunkFrame) :
    (indexRow frame).fileOffset = frame.fileOffset := by
  unfold indexRow
  generalize frame.entries.zipIdx = es
  suffices h : ∀ row : IndexFrame,
      (es.foldl (fun row e => indexAddEntry row e.2 e.1) row).fileOffset = row.fileOffset from h _
  induction es with
  | nil => intro row; rfl
  | cons e es ih =>
    intro row
    rw [List.foldl_cons, ih]
    rfl

/-- A frame is found by its offset. -/
theorem find?_fileOffset {frames : List ChunkFrame}
    (h : frames.Pairwise fun a b => a.fileOffset < b.fileOffset) {frame : ChunkFrame}
    (hmem : frame ∈ frames) :
    frames.find? (·.fileOffset == frame.fileOffset) = some frame := by
  induction frames with
  | nil => cases hmem
  | cons a rest ih =>
    obtain ⟨hlt, hrest⟩ := List.pairwise_cons.mp h
    rcases List.mem_cons.mp hmem with rfl | hmem
    · simp
    · have hne : ¬ a.fileOffset = frame.fileOffset := by
        intro heq
        have := hlt frame hmem
        rw [heq] at this
        exact absurd this (UInt64.lt_irrefl _)
      rw [List.find?_cons_of_neg (by simpa using hne)]
      exact ih hrest hmem

/-- The index of the current segment is open. -/
structure Indexed (s : IteratorSource) (path : SegmentPath) : Prop where
  seg : s.segments[s.segmentIndex]? = some path
  index : path.file.file.index = some (path.file.file.frames.map indexRow)
  reader : s.indexReader = some (path.file.file.frames.map indexRow)
  count : s.frameCount = path.file.file.frames.length
  fallback : s.segmentScanFallback = false
  group : path.file.group = s.group

/-- The source after a frame was loaded. -/
def loadFrame (s : IteratorSource) (path : SegmentPath) (dir : Direction) (j : ℕ)
    (frame : ChunkFrame) : IteratorSource :=
  { s with
    frameIndex := j
    entries := frameEntries path.file frame
    entryIndex := entryEdge dir (frameEntries path.file frame) }

/-- A loaded frame leaves the index open. -/
theorem Indexed.loadFrame {s : IteratorSource} {path : SegmentPath} (h : Indexed s path)
    (dir : Direction) (j : ℕ) (frame : ChunkFrame) : Indexed (loadFrame s path dir j frame) path :=
  ⟨h.seg, h.index, h.reader, h.count, h.fallback, h.group⟩

/-- **`source_load_frame` on a usable index** loads the frame it is asked for.
SOURCE: librecorder.c:1763-1790 -/
theorem sourceLoadFrame_eq {s : IteratorSource} {path : SegmentPath} (h : Indexed s path)
    (dir : Direction) {j : ℕ} {frame : ChunkFrame}
    (hframe : path.file.file.frames[j]? = some frame) :
    sourceLoadFrame none s j dir = (0, loadFrame s path dir j frame) := by
  have hlt : ¬ j ≥ s.frameCount := by
    rw [h.count]
    exact Nat.not_le.mpr (List.getElem?_eq_some_iff.mp hframe).1
  have hrow : (path.file.file.frames.map indexRow)[j]? = some (indexRow frame) := by
    rw [List.getElem?_map, hframe]
    rfl
  have hfind := find?_fileOffset path.file.file.offsets_lt (List.mem_of_getElem? hframe)
  unfold sourceLoadFrame
  rw [if_neg hlt]
  simp only [sourceClearFrame, h.seg, h.reader, Option.bind_some, hrow,
    indexFrameMayContainService, Bool.not_true, Bool.false_eq_true, if_false,
    indexRow_fileOffset, hfind, loadFrame, frameEntries, h.group]

/-! ## Loading from a frame on -/

section Indexed

variable {s : IteratorSource} {path : SegmentPath}

/-- **`source_load_indexed_from`, forward**: the first frame with entries from frame `j` on
is loaded, or there is none and the last frame is the current one.
SOURCE: librecorder.c:1792-1803 -/
theorem sourceLoadIndexedLoop_forward (fuel : ℕ) :
    ∀ (s : IteratorSource) (j : ℕ), Indexed s path → j < path.file.file.frames.length →
      path.file.file.frames.length ≤ fuel + j →
      (∃ j' frame, path.file.file.frames[j']? = some frame ∧
        frameEntries path.file frame ≠ [] ∧
        (path.file.file.frames.take j').flatMap (frameEntries path.file) =
          (path.file.file.frames.take j).flatMap (frameEntries path.file) ∧
        sourceLoadIndexedLoop none .forward fuel s j =
          (1, loadFrame s path .forward j' frame)) ∨
      ((path.file.file.frames.drop j).flatMap (frameEntries path.file) = [] ∧
        ∃ frame, frameEntries path.file frame = [] ∧
          sourceLoadIndexedLoop none .forward fuel s j =
            (0, loadFrame s path .forward (path.file.file.frames.length - 1) frame)) := by
  induction fuel with
  | zero => intro s j _ hj hfuel; omega
  | succ fuel ih =>
    intro s j hi hj hfuel
    obtain ⟨frame, hframe⟩ : ∃ frame, path.file.file.frames[j]? = some frame :=
      ⟨_, List.getElem?_eq_getElem hj⟩
    simp only [sourceLoadIndexedLoop, sourceLoadFrame_eq hi .forward hframe]
    by_cases hempty : frameEntries path.file frame = []
    · have hentries : (loadFrame s path .forward j frame).entries = [] := hempty
      have hcount : (loadFrame s path .forward j frame).frameCount =
          path.file.file.frames.length := hi.count
      simp only [hentries, ne_eq, not_true_eq_false, and_false, if_false, hcount,
        show ¬ (0 : Int) < 0 by decide]
      by_cases hlast : j + 1 ≥ path.file.file.frames.length
      · -- the frame was the last one
        rw [if_pos hlast]
        right
        have hj1 : j = path.file.file.frames.length - 1 := by omega
        refine ⟨?_, frame, hempty, by rw [← hj1]⟩
        rw [flatMap_drop_eq hframe, hempty, List.drop_eq_nil_of_le hlast]
        rfl
      · rw [if_neg hlast]
        have hnext := ih (loadFrame s path .forward j frame) (j + 1)
          (hi.loadFrame .forward j frame) (by omega) (by omega)
        have hpre : (path.file.file.frames.take (j + 1)).flatMap (frameEntries path.file) =
            (path.file.file.frames.take j).flatMap (frameEntries path.file) := by
          rw [flatMap_take_succ hframe, hempty, List.append_nil]
        have hpost : (path.file.file.frames.drop j).flatMap (frameEntries path.file) =
            (path.file.file.frames.drop (j + 1)).flatMap (frameEntries path.file) := by
          rw [flatMap_drop_eq hframe, hempty, List.nil_append]
        rcases hnext with ⟨j', frame', hframe', hne, hpre', heq⟩ | ⟨hnil, frame', hempty', heq⟩
        · exact .inl ⟨j', frame', hframe', hne, hpre'.trans hpre, heq⟩
        · exact .inr ⟨hpost.trans hnil, frame', hempty', heq⟩
    · have hentries : (loadFrame s path .forward j frame).entries ≠ [] := hempty
      left
      refine ⟨j, frame, hframe, hempty, rfl, ?_⟩
      simp [hentries]

/-- **`source_load_indexed_from`, reverse**: the last frame with entries up to frame `j` is
loaded, or there is none and frame 0 is the current one.
SOURCE: librecorder.c:1792-1803 -/
theorem sourceLoadIndexedLoop_reverse (fuel : ℕ) :
    ∀ (s : IteratorSource) (j : ℕ), Indexed s path → j < path.file.file.frames.length →
      j < fuel →
      (∃ j' frame, path.file.file.frames[j']? = some frame ∧
        frameEntries path.file frame ≠ [] ∧
        (path.file.file.frames.drop (j' + 1)).flatMap (frameEntries path.file) =
          (path.file.file.frames.drop (j + 1)).flatMap (frameEntries path.file) ∧
        sourceLoadIndexedLoop none .reverse fuel s j =
          (1, loadFrame s path .reverse j' frame)) ∨
      ((path.file.file.frames.take (j + 1)).flatMap (frameEntries path.file) = [] ∧
        ∃ frame, frameEntries path.file frame = [] ∧
          sourceLoadIndexedLoop none .reverse fuel s j =
            (0, loadFrame s path .reverse 0 frame)) := by
  induction fuel with
  | zero => intro s j _ _ hfuel; omega
  | succ fuel ih =>
    intro s j hi hj hfuel
    obtain ⟨frame, hframe⟩ : ∃ frame, path.file.file.frames[j]? = some frame :=
      ⟨_, List.getElem?_eq_getElem hj⟩
    simp only [sourceLoadIndexedLoop, sourceLoadFrame_eq hi .reverse hframe]
    by_cases hempty : frameEntries path.file frame = []
    · have hentries : (loadFrame s path .reverse j frame).entries = [] := hempty
      simp only [hentries, ne_eq, not_true_eq_false, and_false, if_false,
        show ¬ (0 : Int) < 0 by decide]
      by_cases hzero : j = 0
      · rw [if_pos hzero]
        subst hzero
        right
        refine ⟨?_, frame, hempty, rfl⟩
        rw [flatMap_take_succ hframe, hempty]
        rfl
      · rw [if_neg hzero]
        have hj1 : j - 1 + 1 = j := by omega
        have hnext := ih (loadFrame s path .reverse j frame) (j - 1)
          (hi.loadFrame .reverse j frame) (by omega) (by omega)
        rw [hj1] at hnext
        have hpre : (path.file.file.frames.take (j + 1)).flatMap (frameEntries path.file) =
            (path.file.file.frames.take j).flatMap (frameEntries path.file) := by
          rw [flatMap_take_succ hframe, hempty, List.append_nil]
        have hpost : (path.file.file.frames.drop j).flatMap (frameEntries path.file) =
            (path.file.file.frames.drop (j + 1)).flatMap (frameEntries path.file) := by
          rw [flatMap_drop_eq hframe, hempty, List.nil_append]
        rcases hnext with ⟨j', frame', hframe', hne, hpost', heq⟩ | ⟨hnil, frame', hempty', heq⟩
        · exact .inl ⟨j', frame', hframe', hne, hpost'.trans hpost, heq⟩
        · exact .inr ⟨hpre.trans hnil, frame', hempty', heq⟩
    · have hentries : (loadFrame s path .reverse j frame).entries ≠ [] := hempty
      left
      refine ⟨j, frame, hframe, hempty, rfl, ?_⟩
      simp [hentries]

end Indexed

/-! ## Places in the stream -/

/-- The current segment is loaded as a whole. -/
structure Fallback (s : IteratorSource) (path : SegmentPath) : Prop where
  seg : s.segments[s.segmentIndex]? = some path
  index : path.file.file.index = none
  fallback : s.segmentScanFallback = true
  entries : s.entries = sortStored path.file.fileEntries

/-- A place in the stream of a segment: what lies before it, and what follows from it on. -/
inductive LoadedAt (s : IteratorSource) (path : SegmentPath) :
    List StoredEntry → List StoredEntry → Prop
  | indexed (h : Indexed s path) (frame : ChunkFrame)
      (hframe : path.file.file.frames[s.frameIndex]? = some frame)
      (hentries : s.entries = frameEntries path.file frame) (k : ℕ) (hk : k < s.entries.length)
      (hidx : s.entryIndex = k) :
      LoadedAt s path
        ((path.file.file.frames.take s.frameIndex).flatMap (frameEntries path.file) ++
          s.entries.take k)
        (s.entries.drop k ++
          (path.file.file.frames.drop (s.frameIndex + 1)).flatMap (frameEntries path.file))
  | fallback (h : Fallback s path) (k : ℕ) (hk : k < s.entries.length) (hidx : s.entryIndex = k) :
      LoadedAt s path (s.entries.take k) (s.entries.drop k)

/-- A place in the stream of a source: what lies before it, and what follows from it on. -/
def SourceAt (s : IteratorSource) (pre post : List StoredEntry) : Prop :=
  ∃ path p q, s.segments[s.segmentIndex]? = some path ∧ LoadedAt s path p q ∧
    pre = streamUpTo s.segments s.segmentIndex ++ p ∧
    post = q ++ streamFrom s.segments (s.segmentIndex + 1)

/-- The current entry is the one at the index. -/
theorem sourceCurrent_of_index {s : IteratorSource} {k : ℕ} (h : s.entryIndex = k) :
    sourceCurrent s = s.entries[k]? := by
  simp [sourceCurrent, h]

section LoadedAt

variable {s : IteratorSource} {path : SegmentPath} {p q : List StoredEntry}

/-- What lies before a place in a segment and what follows are the entries of the segment. -/
theorem LoadedAt.append_eq (h : LoadedAt s path p q) : p ++ q = segmentStream path.file := by
  cases h with
  | indexed h frame hframe hentries k hk hidx =>
    have hstream : segmentStream path.file =
        path.file.file.frames.flatMap (frameEntries path.file) := by
      simp only [segmentStream, h.index, Option.isSome_some, if_true]
      rfl
    rw [hstream, ← flatMap_split path.file.file.frames s.frameIndex, flatMap_drop_eq hframe,
      ← hentries]
    simp only [List.append_assoc]
    rw [← List.append_assoc (s.entries.take k), List.take_append_drop]
  | fallback h k hk hidx =>
    rw [List.take_append_drop, h.entries]
    simp [segmentStream, h.index]

/-- The current entry is the first one that follows. -/
theorem LoadedAt.current (h : LoadedAt s path p q) :
    ∃ e rest, q = e :: rest ∧ sourceCurrent s = some e := by
  cases h with
  | indexed h frame hframe hentries k hk hidx =>
    rw [List.drop_eq_getElem_cons hk, List.cons_append, sourceCurrent_of_index hidx,
      List.getElem?_eq_getElem hk]
    exact ⟨_, _, rfl, rfl⟩
  | fallback h k hk hidx =>
    rw [List.drop_eq_getElem_cons hk, sourceCurrent_of_index hidx, List.getElem?_eq_getElem hk]
    exact ⟨_, _, rfl, rfl⟩

/-- A segment loaded in front of its first entry. -/
theorem LoadedAt.pre_nil_of_indexed (h : Indexed s path) {frame : ChunkFrame}
    (hframe : path.file.file.frames[s.frameIndex]? = some frame)
    (hentries : s.entries = frameEntries path.file frame) (hne : s.entries ≠ [])
    (hidx : s.entryIndex = 0) :
    LoadedAt s path
      ((path.file.file.frames.take s.frameIndex).flatMap (frameEntries path.file))
      ((path.file.file.frames.drop s.frameIndex).flatMap (frameEntries path.file)) := by
  have := LoadedAt.indexed h frame hframe hentries 0 (List.length_pos_of_ne_nil hne) hidx
  rw [List.take_zero, List.append_nil, List.drop_zero, hentries] at this
  rw [flatMap_drop_eq hframe]
  exact this

end LoadedAt

section SourceAt

variable {s : IteratorSource} {pre post : List StoredEntry}

/-- A place splits the stream. -/
theorem SourceAt.append_eq (h : SourceAt s pre post) : pre ++ post = sourceStream s := by
  obtain ⟨path, p, q, hseg, hload, rfl, rfl⟩ := h
  unfold sourceStream streamUpTo streamFrom
  rw [← flatMap_split s.segments s.segmentIndex, flatMap_drop_eq hseg, ← hload.append_eq]
  simp only [List.append_assoc]

/-- The current entry of a placed source is the next one of the stream. -/
theorem SourceAt.current (h : SourceAt s pre post) :
    ∃ e rest, post = e :: rest ∧ sourceCurrent s = some e := by
  obtain ⟨path, p, q, hseg, hload, rfl, rfl⟩ := h
  obtain ⟨e, rest, rfl, hcur⟩ := hload.current
  exact ⟨e, _, rfl, hcur⟩

end SourceAt

/-! ## Loading a segment at its edge -/

/-- A segment without further entries in the direction: `source_advance` leaves it. -/
structure SegDone (s : IteratorSource) (dir : Direction) : Prop where
  current : sourceCurrent s = none
  done : s.segmentScanFallback = true ∨
    match dir with
    | .forward => s.frameCount ≤ sizeInc s.frameIndex
    | .reverse => s.frameIndex = 0 ∨ s.frameCount = 0 ∧
        ∀ path, s.segments[s.segmentIndex]? = some path → path.file.fileEntries = []

/-- A small `size_t` does not wrap. -/
theorem sizeInc_of_lt {n : ℕ} (h : n < 2 ^ 63) : sizeInc n = n + 1 :=
  if_neg (by unfold sizeMax; omega)

/-- Without entries there is no current one. -/
theorem sourceCurrent_of_entries_nil {s : IteratorSource} (h : s.entries = []) :
    sourceCurrent s = none := by
  simp [sourceCurrent, h]

/-- The state `source_load_segment_fallback` leaves. -/
def loadFallback (s : IteratorSource) (path : SegmentPath) (dir : Direction) : IteratorSource :=
  { s with
    entries := sortStored path.file.fileEntries
    segmentScanFallback := true
    frameCount := 0
    entryIndex := entryEdge dir (sortStored path.file.fileEntries) }

/-- **`source_load_segment_fallback`** loads the sorted entries of the segment. -/
theorem sourceLoadSegmentFallback_eq {s : IteratorSource} {path : SegmentPath}
    (h : s.segments[s.segmentIndex]? = some path) (dir : Direction) :
    sourceLoadSegmentFallback s dir =
      (if sortStored path.file.fileEntries ≠ [] then 1 else 0, loadFallback s path dir) := by
  unfold sourceLoadSegmentFallback
  simp only [h]
  rfl

/-- Sorting neither adds nor removes entries. -/
theorem sortStored_eq_nil_iff (l : List StoredEntry) : sortStored l = [] ↔ l = [] := by
  constructor
  · intro h
    have := (List.perm_insertionSort (fun a b => (compareStoredEntries a b).isLE) l)
    rw [show l.insertionSort _ = [] from h] at this
    exact this.symm.eq_nil
  · rintro rfl
    rfl

/-- The state `source_load_index` leaves where there is no index. -/
def closeIndex (s : IteratorSource) : IteratorSource :=
  { s with frameCount := 0, segmentScanFallback := false, indexReader := none }

/-- The state `source_load_index` leaves where the index is usable. -/
def openIndex (s : IteratorSource) (path : SegmentPath) : IteratorSource :=
  { s with
    frameCount := path.file.file.frames.length
    segmentScanFallback := false
    indexReader := some (path.file.file.frames.map indexRow) }

section Edge

variable {s : IteratorSource} {path : SegmentPath}

/-- `source_load_index` opens a usable index. -/
theorem sourceLoadIndex_eq (hseg : s.segments[s.segmentIndex]? = some path)
    (hindex : path.file.file.index = some (path.file.file.frames.map indexRow)) :
    sourceLoadIndex s = (0, openIndex s path) := by
  simp only [sourceLoadIndex, hseg, hindex, List.length_map]
  rfl

/-- With the index open the source is on an indexed segment. -/
theorem openIndex_indexed (hseg : s.segments[s.segmentIndex]? = some path)
    (hindex : path.file.file.index = some (path.file.file.frames.map indexRow))
    (hgroup : path.file.group = s.group) : Indexed (openIndex s path) path :=
  ⟨hseg, hindex, rfl, rfl, rfl, hgroup⟩

/-- With an index the entries come frame by frame. -/
theorem segmentStream_of_index {rows : List IndexFrame} (h : path.file.file.index = some rows) :
    segmentStream path.file = path.file.file.frames.flatMap (frameEntries path.file) := by
  simp only [segmentStream, h, Option.isSome_some, if_true]
  rfl

/-- Without one they come sorted. -/
theorem segmentStream_of_none (h : path.file.file.index = none) :
    segmentStream path.file = sortStored path.file.fileEntries := by
  simp [segmentStream, h]

/-- Entering an array at its end leaves its last entry to come. -/
theorem drop_length_sub_one {l : List StoredEntry} (h : l ≠ []) :
    l.drop (l.length - 1) = [l.getLast h] := by
  obtain ⟨a, e, rfl⟩ := (List.eq_nil_or_concat l).resolve_left h
  simp

/-- The edge of an array, backward, is its last entry. -/
theorem entryEdge_reverse {l : List StoredEntry} (h : l ≠ []) :
    entryEdge .reverse l = ((l.length - 1 : ℕ) : ℤ) := by
  have := List.length_pos_of_ne_nil h
  simp only [entryEdge]
  omega

/-- A frame loaded from its end: its last entry comes next. -/
theorem loadedAt_last (hi : Indexed s path) {j : ℕ} {frame : ChunkFrame}
    (hframe : path.file.file.frames[j]? = some frame) (hne : frameEntries path.file frame ≠ []) :
    ∃ p e, LoadedAt (loadFrame s path .reverse j frame) path p
        (e :: (path.file.file.frames.drop (j + 1)).flatMap (frameEntries path.file)) ∧
      p ++ [e] = (path.file.file.frames.take (j + 1)).flatMap (frameEntries path.file) := by
  have hpos := List.length_pos_of_ne_nil hne
  have hat := LoadedAt.indexed (hi.loadFrame .reverse j frame) frame hframe rfl
    ((frameEntries path.file frame).length - 1) (by simp only [loadFrame]; omega)
    (entryEdge_reverse hne)
  simp only [loadFrame] at hat
  rw [drop_length_sub_one hne] at hat
  refine ⟨_, _, hat, ?_⟩
  rw [List.append_assoc, ← drop_length_sub_one hne, List.take_append_drop,
    flatMap_take_succ hframe]

/-- A segment with an index is loaded from its first or last frame on. -/
theorem sourceLoadSegmentEdge_indexed (hseg : s.segments[s.segmentIndex]? = some path)
    (hindex : path.file.file.index = some (path.file.file.frames.map indexRow))
    (hne : path.file.file.frames.length ≠ 0) (dir : Direction) {rc : Int} {s' : IteratorSource}
    (hload : sourceLoadIndexedFrom none (openIndex s path)
      (match dir with
        | .forward => 0
        | .reverse => (openIndex s path).frameCount - 1) dir = (rc, s')) (hrc : rc ≥ 0) :
    sourceLoadSegmentEdge none s dir = (rc, s') := by
  simp only [sourceLoadSegmentEdge, sourceLoadIndex_eq hseg hindex, if_true]
  rw [if_neg (by exact hne)]
  cases dir with
  | forward =>
    dsimp only at hload ⊢
    rw [hload]
    exact if_pos hrc
  | reverse =>
    dsimp only at hload ⊢
    rw [hload]
    exact if_pos hrc

/-- **A segment entered from its front**: its first entry, or nothing. An index without rows
leaves what was loaded before.
SOURCE: librecorder.c:1849-1861 -/
theorem sourceLoadSegmentEdge_forward (hseg : s.segments[s.segmentIndex]? = some path)
    (hgroup : path.file.group = s.group) (husable : UsableIndex path.file) :
    ∃ s', Keeps s s' ∧ s'.segmentIndex = s.segmentIndex ∧
      ((segmentStream path.file = [] ∧ sourceLoadSegmentEdge none s .forward = (0, s') ∧
          (sourceCurrent s = none ∨ path.file.file.index ≠ some [] → SegDone s' .forward)) ∨
        (segmentStream path.file ≠ [] ∧ sourceLoadSegmentEdge none s .forward = (1, s') ∧
          LoadedAt s' path [] (segmentStream path.file))) := by
  cases hindex : path.file.file.index with
  | none =>
    rw [segmentStream_of_none hindex]
    have hload : sourceLoadSegmentEdge none s .forward =
        (if sortStored path.file.fileEntries ≠ [] then 1 else 0,
          loadFallback (closeIndex s) path .forward) := by
      simp only [sourceLoadSegmentEdge, sourceLoadIndex, hseg, hindex]
      rw [if_neg (by decide)]
      exact sourceLoadSegmentFallback_eq (s := closeIndex s) hseg _
    refine ⟨loadFallback (closeIndex s) path .forward, ⟨rfl, rfl⟩, rfl, ?_⟩
    by_cases hnil : sortStored path.file.fileEntries = []
    · rw [if_neg (by simpa using hnil)] at hload
      exact .inl ⟨hnil, hload, fun _ => ⟨sourceCurrent_of_entries_nil hnil, .inl rfl⟩⟩
    · rw [if_pos hnil] at hload
      refine .inr ⟨hnil, hload, ?_⟩
      exact LoadedAt.fallback (s := loadFallback (closeIndex s) path .forward)
        ⟨hseg, hindex, rfl, rfl⟩ 0 (List.length_pos_of_ne_nil hnil) rfl
  | some rows =>
    obtain rfl := husable rows hindex
    rw [segmentStream_of_index hindex]
    have hi := openIndex_indexed hseg hindex hgroup
    by_cases hzero : path.file.file.frames.length = 0
    · have hnil : path.file.file.frames = [] := List.length_eq_zero_iff.mp hzero
      refine ⟨openIndex s path, ⟨rfl, rfl⟩, rfl, .inl ⟨by simp [hnil], ?_, ?_⟩⟩
      · simp only [sourceLoadSegmentEdge, sourceLoadIndex_eq hseg hindex, openIndex, hzero, if_true]
      · rintro (hcur | hrows)
        · refine ⟨hcur, .inr ?_⟩
          simp only [openIndex, hzero]
          exact Nat.zero_le _
        · simp [hnil] at hrows
    · rcases sourceLoadIndexedLoop_forward (path.file.file.frames.length + 1) _ 0 hi (by omega)
          (by omega) with ⟨j, frame, hframe, hne, hpre, heq⟩ | ⟨hnil, frame, hempty, heq⟩
      · have hload := sourceLoadSegmentEdge_indexed hseg hindex hzero .forward heq (by decide)
        have hj := LoadedAt.pre_nil_of_indexed (hi.loadFrame .forward j frame) hframe rfl hne rfl
        have hpre' : (path.file.file.frames.take j).flatMap (frameEntries path.file) = [] := by
          rw [hpre, List.take_zero, List.flatMap_nil]
        have hall : (path.file.file.frames.drop j).flatMap (frameEntries path.file) =
            path.file.file.frames.flatMap (frameEntries path.file) := by
          rw [← flatMap_split path.file.file.frames j, hpre', List.nil_append]
        refine ⟨loadFrame (openIndex s path) path .forward j frame, ⟨rfl, rfl⟩, rfl,
          .inr ⟨?_, hload, ?_⟩⟩
        · rw [← hall, flatMap_drop_eq hframe]
          simp [hne]
        · rw [← hall, ← hpre']
          exact hj
      · have hload := sourceLoadSegmentEdge_indexed hseg hindex hzero .forward heq (by decide)
        have hlt := path.file.file.length_lt
        refine ⟨loadFrame (openIndex s path) path .forward (path.file.file.frames.length - 1) frame,
          ⟨rfl, rfl⟩, rfl, .inl ⟨by simpa using hnil, hload, fun _ =>
            ⟨sourceCurrent_of_entries_nil hempty, .inr ?_⟩⟩⟩
        change path.file.file.frames.length ≤ sizeInc (path.file.file.frames.length - 1)
        rw [sizeInc_of_lt (by omega)]
        omega

/-- **A segment entered from its end**: its last entry, or nothing.
SOURCE: librecorder.c:1849-1861 -/
theorem sourceLoadSegmentEdge_reverse (hseg : s.segments[s.segmentIndex]? = some path)
    (hgroup : path.file.group = s.group) (husable : UsableIndex path.file)
    (hcur : sourceCurrent s = none) :
    ∃ s', Keeps s s' ∧ s'.segmentIndex = s.segmentIndex ∧
      ((segmentStream path.file = [] ∧ sourceLoadSegmentEdge none s .reverse = (0, s') ∧
          SegDone s' .reverse) ∨
        (∃ p e, segmentStream path.file = p ++ [e] ∧
          sourceLoadSegmentEdge none s .reverse = (1, s') ∧ LoadedAt s' path p [e])) := by
  cases hindex : path.file.file.index with
  | none =>
    rw [segmentStream_of_none hindex]
    have hload : sourceLoadSegmentEdge none s .reverse =
        (if sortStored path.file.fileEntries ≠ [] then 1 else 0,
          loadFallback (closeIndex s) path .reverse) := by
      simp only [sourceLoadSegmentEdge, sourceLoadIndex, hseg, hindex]
      rw [if_neg (by decide)]
      exact sourceLoadSegmentFallback_eq (s := closeIndex s) hseg _
    refine ⟨loadFallback (closeIndex s) path .reverse, ⟨rfl, rfl⟩, rfl, ?_⟩
    by_cases hnil : sortStored path.file.fileEntries = []
    · rw [if_neg (by simpa using hnil)] at hload
      exact .inl ⟨hnil, hload, sourceCurrent_of_entries_nil hnil, .inl rfl⟩
    · rw [if_pos hnil] at hload
      have hpos := List.length_pos_of_ne_nil hnil
      have hat := LoadedAt.fallback (s := loadFallback (closeIndex s) path .reverse)
        ⟨hseg, hindex, rfl, rfl⟩
        ((sortStored path.file.fileEntries).length - 1)
        (by simp only [loadFallback]; omega) (entryEdge_reverse hnil)
      simp only [loadFallback] at hat
      rw [drop_length_sub_one hnil] at hat
      refine .inr ⟨_, _, ?_, hload, hat⟩
      rw [← drop_length_sub_one hnil, List.take_append_drop]
  | some rows =>
    obtain rfl := husable rows hindex
    rw [segmentStream_of_index hindex]
    have hi := openIndex_indexed hseg hindex hgroup
    by_cases hzero : path.file.file.frames.length = 0
    · have hnil : path.file.file.frames = [] := List.length_eq_zero_iff.mp hzero
      refine ⟨openIndex s path, ⟨rfl, rfl⟩, rfl, .inl ⟨by simp [hnil], ?_, hcur, .inr (.inr ?_)⟩⟩
      · simp only [sourceLoadSegmentEdge, sourceLoadIndex_eq hseg hindex, openIndex, hzero, if_true]
      · refine ⟨hzero, ?_⟩
        intro path' hpath'
        obtain rfl : path = path' := by
          rw [show (openIndex s path).segments[(openIndex s path).segmentIndex]? = _ from hseg]
            at hpath'
          exact Option.some.inj hpath'
        simp [StoreFile.fileEntries, hnil]
    · have hlast : path.file.file.frames.length - 1 + 1 = path.file.file.frames.length := by omega
      rcases sourceLoadIndexedLoop_reverse (path.file.file.frames.length + 1) _ _ hi
          (show path.file.file.frames.length - 1 < _ by omega) (by omega) with
        ⟨j, frame, hframe, hne, hpost, heq⟩ | ⟨hnil, frame, hempty, heq⟩
      · have hload := sourceLoadSegmentEdge_indexed hseg hindex hzero .reverse heq (by decide)
        obtain ⟨p, e, hat, hpe⟩ := loadedAt_last hi hframe hne
        rw [hpost, hlast, List.drop_length, List.flatMap_nil] at hat
        refine ⟨loadFrame (openIndex s path) path .reverse j frame, ⟨rfl, rfl⟩, rfl,
          .inr ⟨p, e, ?_, hload, hat⟩⟩
        rw [hpe, ← flatMap_split path.file.file.frames (j + 1), hpost, hlast, List.drop_length,
          List.flatMap_nil, List.append_nil]
      · have hload := sourceLoadSegmentEdge_indexed hseg hindex hzero .reverse heq (by decide)
        rw [hlast, List.take_length] at hnil
        exact ⟨loadFrame (openIndex s path) path .reverse 0 frame, ⟨rfl, rfl⟩, rfl,
          .inl ⟨hnil, hload, sourceCurrent_of_entries_nil hempty,
          .inr (.inl rfl)⟩⟩

end Edge

/-! ## The two ends of the stream -/

/-- The source with another current segment, nothing loaded anew. -/
def atSegment (s : IteratorSource) (i : ℕ) : IteratorSource :=
  { s with segmentIndex := i }

/-- The current segment is the new one. -/
@[simp] theorem atSegment_segmentIndex (s : IteratorSource) (i : ℕ) :
    (atSegment s i).segmentIndex = i := rfl

/-- The segments are those of the source. -/
@[simp] theorem atSegment_segments (s : IteratorSource) (i : ℕ) :
    (atSegment s i).segments = s.segments := rfl

/-- A step forward goes to the next segment, if there is one. -/
theorem segmentStep_forward {s : IteratorSource} (h : s.segmentIndex < 2 ^ 63) :
    segmentStep s .forward =
      (decide (s.segmentIndex + 1 < s.segments.length), atSegment s (s.segmentIndex + 1)) := by
  simp only [segmentStep, sizeInc_of_lt h]
  rfl

/-- There is no step back from the first segment: the index wraps. -/
theorem segmentStep_reverse_zero {s : IteratorSource} (h : s.segmentIndex = 0) :
    segmentStep s .reverse = (false, atSegment s sizeMax) := by
  simp only [segmentStep, h]
  rfl

/-- A step back goes to the segment before. -/
theorem segmentStep_reverse_succ {s : IteratorSource} {i : ℕ} (h : s.segmentIndex = i + 1) :
    segmentStep s .reverse = (true, atSegment s i) := by
  simp only [segmentStep, h]
  rfl

section Ends

variable {s t : IteratorSource} {path : SegmentPath}

/-- A place in the current segment is a place in the source. -/
theorem SourceAt.of_loadedAt (hkeeps : Keeps s t) (hidx : t.segmentIndex = s.segmentIndex)
    (hseg : s.segments[s.segmentIndex]? = some path) {p q : List StoredEntry}
    (hload : LoadedAt t path p q) :
    SourceAt t (streamUpTo s.segments s.segmentIndex ++ p)
      (q ++ streamFrom s.segments (s.segmentIndex + 1)) := by
  rw [← hkeeps.segments_eq, ← hidx]
  refine ⟨path, _, _, ?_, hload, rfl, rfl⟩
  rw [hkeeps.segments_eq, hidx, hseg]

/-- Entering the current segment from its front: the first entry from there on in this
segment, or the segment is over. -/
theorem enter_forward (wf : SourceWf s) (hlt : s.segmentIndex < s.segments.length)
    (hcur : sourceCurrent s = none) :
    ∃ s', Keeps s s' ∧ s'.segmentIndex = s.segmentIndex ∧
      ((streamUpTo s.segments (s.segmentIndex + 1) = streamUpTo s.segments s.segmentIndex ∧
          streamFrom s.segments s.segmentIndex = streamFrom s.segments (s.segmentIndex + 1) ∧
          sourceLoadSegmentEdge none s .forward = (0, s') ∧ SegDone s' .forward) ∨
        (sourceLoadSegmentEdge none s .forward = (1, s') ∧
          SourceAt s' (streamUpTo s.segments s.segmentIndex)
            (streamFrom s.segments s.segmentIndex))) := by
  have hseg := List.getElem?_eq_getElem hlt
  have hmem := List.mem_of_getElem? hseg
  obtain ⟨s', hkeeps, hidx, ⟨hnil, hload, hdone⟩ | ⟨hne, hload, hat⟩⟩ :=
    sourceLoadSegmentEdge_forward hseg (wf.group_eq _ hmem) (wf.usable _ hmem)
  · refine ⟨s', hkeeps, hidx, .inl ⟨?_, ?_, hload, hdone (.inl hcur)⟩⟩
    · rw [streamUpTo_succ hseg, hnil, List.append_nil]
    · rw [streamFrom_eq hseg, hnil, List.nil_append]
  · refine ⟨s', hkeeps, hidx, .inr ⟨hload, ?_⟩⟩
    have := SourceAt.of_loadedAt hkeeps hidx hseg hat
    rw [List.append_nil, ← streamFrom_eq hseg] at this
    exact this

/-- Entering the current segment from its end. -/
theorem enter_reverse (wf : SourceWf s) (hlt : s.segmentIndex < s.segments.length)
    (hcur : sourceCurrent s = none) :
    ∃ s', Keeps s s' ∧ s'.segmentIndex = s.segmentIndex ∧
      ((streamUpTo s.segments (s.segmentIndex + 1) = streamUpTo s.segments s.segmentIndex ∧
          streamFrom s.segments s.segmentIndex = streamFrom s.segments (s.segmentIndex + 1) ∧
          sourceLoadSegmentEdge none s .reverse = (0, s') ∧ SegDone s' .reverse) ∨
        (∃ p e, streamUpTo s.segments (s.segmentIndex + 1) = p ++ [e] ∧
          sourceLoadSegmentEdge none s .reverse = (1, s') ∧
          SourceAt s' p (e :: streamFrom s.segments (s.segmentIndex + 1)))) := by
  have hseg := List.getElem?_eq_getElem hlt
  have hmem := List.mem_of_getElem? hseg
  obtain ⟨s', hkeeps, hidx, ⟨hnil, hload, hdone⟩ | ⟨p, e, heq, hload, hat⟩⟩ :=
    sourceLoadSegmentEdge_reverse hseg (wf.group_eq _ hmem) (wf.usable _ hmem) hcur
  · refine ⟨s', hkeeps, hidx, .inl ⟨?_, ?_, hload, hdone⟩⟩
    · rw [streamUpTo_succ hseg, hnil, List.append_nil]
    · rw [streamFrom_eq hseg, hnil, List.nil_append]
  · refine ⟨s', hkeeps, hidx, .inr ⟨streamUpTo s.segments s.segmentIndex ++ p, e, ?_, hload,
      SourceAt.of_loadedAt hkeeps hidx hseg hat⟩⟩
    rw [streamUpTo_succ hseg, heq, List.append_assoc]

/-- The loop of `source_position_edge`, forward, from segment `segmentIndex` on. -/
theorem sourcePositionEdgeLoop_forward (fuel : ℕ) :
    ∀ s : IteratorSource, SourceWf s → s.segmentIndex < s.segments.length →
      sourceCurrent s = none → s.segments.length ≤ fuel + s.segmentIndex →
      ∃ s', Keeps s s' ∧
        ((streamFrom s.segments s.segmentIndex = [] ∧
            sourcePositionEdgeLoop none .forward fuel s = (0, s') ∧ sourceCurrent s' = none) ∨
          (sourcePositionEdgeLoop none .forward fuel s = (1, s') ∧
            SourceAt s' (streamUpTo s.segments s.segmentIndex)
              (streamFrom s.segments s.segmentIndex))) := by
  induction fuel with
  | zero => intro s _ hlt _ hfuel; omega
  | succ fuel ih =>
    intro s wf hlt hcur hfuel
    obtain ⟨s', hkeeps, hidx, ⟨hpre, hpost, hload, hdone⟩ | ⟨hload, hat⟩⟩ :=
      enter_forward wf hlt hcur
    · -- a segment without entries: on to the next one
      have hlen := wf.length_lt
      have hstep := segmentStep_forward (s := s') (by omega)
      rw [hidx, hkeeps.segments_eq] at hstep
      have hkeeps1 : Keeps s (atSegment s' (s.segmentIndex + 1)) :=
        ⟨hkeeps.segments_eq, hkeeps.group_eq⟩
      by_cases hmore : s.segmentIndex + 1 < s.segments.length
      · obtain ⟨s'', hkeeps', h⟩ := ih (atSegment s' (s.segmentIndex + 1))
          (wf.keeps hkeeps1) (by rw [hkeeps1.segments_eq]; exact hmore) hdone.current
          (by rw [hkeeps1.segments_eq, atSegment_segmentIndex]; omega)
        have hloop : sourcePositionEdgeLoop none .forward (fuel + 1) s =
            sourcePositionEdgeLoop none .forward fuel
              (atSegment s' (s.segmentIndex + 1)) := by
          simp only [sourcePositionEdgeLoop, hload, hstep, hmore]
          rfl
        rw [hkeeps1.segments_eq, atSegment_segmentIndex, hpre] at h
        rw [hloop, hpost]
        exact ⟨s'', hkeeps1.trans hkeeps', h⟩
      · refine ⟨_, hkeeps1, .inl ⟨?_, ?_, hdone.current⟩⟩
        · rw [hpost, streamFrom_of_le (by omega)]
        · simp only [sourcePositionEdgeLoop, hload, hstep, hmore]
          rfl
    · refine ⟨s', hkeeps, .inr ⟨?_, hat⟩⟩
      simp only [sourcePositionEdgeLoop, hload]
      rfl

/-- The loop of `source_position_edge`, reverse, from segment `segmentIndex` on. -/
theorem sourcePositionEdgeLoop_reverse (fuel : ℕ) :
    ∀ s : IteratorSource, SourceWf s → s.segmentIndex < s.segments.length →
      sourceCurrent s = none → s.segmentIndex < fuel →
      ∃ s', Keeps s s' ∧
        ((streamUpTo s.segments (s.segmentIndex + 1) = [] ∧
            sourcePositionEdgeLoop none .reverse fuel s = (0, s') ∧ sourceCurrent s' = none) ∨
          (∃ p e, streamUpTo s.segments (s.segmentIndex + 1) = p ++ [e] ∧
            sourcePositionEdgeLoop none .reverse fuel s = (1, s') ∧
            SourceAt s' p (e :: streamFrom s.segments (s.segmentIndex + 1)))) := by
  induction fuel with
  | zero => intro s _ _ _ hfuel; omega
  | succ fuel ih =>
    intro s wf hlt hcur hfuel
    obtain ⟨s', hkeeps, hidx, ⟨hpre, hpost, hload, hdone⟩ | ⟨p, e, heq, hload, hat⟩⟩ :=
      enter_reverse wf hlt hcur
    · have hkeeps1 (i : ℕ) : Keeps s (atSegment s' i) :=
        ⟨hkeeps.segments_eq, hkeeps.group_eq⟩
      cases hi : s.segmentIndex with
      | zero =>
        refine ⟨_, hkeeps1 sizeMax, .inl ⟨?_, ?_, hdone.current⟩⟩
        · rw [← hi, hpre, hi, streamUpTo_zero]
        · simp only [sourcePositionEdgeLoop, hload, segmentStep_reverse_zero (hidx.trans hi)]
          rfl
      | succ i =>
        obtain ⟨s'', hkeeps', h⟩ := ih (atSegment s' i) (wf.keeps (hkeeps1 i))
          (by rw [(hkeeps1 i).segments_eq, atSegment_segmentIndex]; omega) hdone.current
          (by rw [atSegment_segmentIndex]; omega)
        have hloop : sourcePositionEdgeLoop none .reverse (fuel + 1) s =
            sourcePositionEdgeLoop none .reverse fuel (atSegment s' i) := by
          simp only [sourcePositionEdgeLoop, hload, segmentStep_reverse_succ (hidx.trans hi)]
          rfl
        rw [hi] at hpre hpost
        rw [(hkeeps1 i).segments_eq, atSegment_segmentIndex, hpost, ← hpre] at h
        rw [hloop]
        exact ⟨s'', (hkeeps1 i).trans hkeeps', h⟩
    · refine ⟨s', hkeeps, .inr ⟨p, e, heq, ?_, hat⟩⟩
      simp only [sourcePositionEdgeLoop, hload]
      rfl

/-- **`source_position_edge`, forward**: in front of the whole stream.
SOURCE: librecorder.c:1863-1875 -/
theorem sourcePositionEdge_forward (wf : SourceWf s) (hcur : sourceCurrent s = none) :
    ∃ s', Keeps s s' ∧
      ((sourceStream s = [] ∧ sourcePositionEdge none s .forward = (0, s') ∧
          sourceCurrent s' = none) ∨
        (sourcePositionEdge none s .forward = (1, s') ∧ SourceAt s' [] (sourceStream s))) := by
  by_cases hzero : s.segments.length = 0
  · refine ⟨s, Keeps.rfl, .inl ⟨?_, ?_, hcur⟩⟩
    · simp [sourceStream, List.length_eq_zero_iff.mp hzero]
    · simp only [sourcePositionEdge, hzero, if_true]
  · obtain ⟨s', hkeeps, h⟩ := sourcePositionEdgeLoop_forward (s.segments.length + 1)
      (atSegment s 0) (wf.keeps ⟨rfl, rfl⟩)
      (by rw [atSegment_segmentIndex, atSegment_segments]; omega) hcur
      (by rw [atSegment_segmentIndex, atSegment_segments]; omega)
    refine ⟨s', ⟨hkeeps.segments_eq, hkeeps.group_eq⟩, ?_⟩
    rw [sourcePositionEdge, if_neg hzero]
    exact h

/-- **`source_position_edge`, reverse**: in front of the last entry of the stream.
SOURCE: librecorder.c:1863-1875 -/
theorem sourcePositionEdge_reverse (wf : SourceWf s) (hcur : sourceCurrent s = none) :
    ∃ s', Keeps s s' ∧
      ((sourceStream s = [] ∧ sourcePositionEdge none s .reverse = (0, s') ∧
          sourceCurrent s' = none) ∨
        (∃ p e, sourceStream s = p ++ [e] ∧ sourcePositionEdge none s .reverse = (1, s') ∧
          SourceAt s' p [e])) := by
  by_cases hzero : s.segments.length = 0
  · refine ⟨s, Keeps.rfl, .inl ⟨?_, ?_, hcur⟩⟩
    · simp [sourceStream, List.length_eq_zero_iff.mp hzero]
    · simp only [sourcePositionEdge, hzero, if_true]
  · obtain ⟨s', hkeeps, h⟩ := sourcePositionEdgeLoop_reverse (s.segments.length + 1)
      (atSegment s (s.segments.length - 1)) (wf.keeps ⟨rfl, rfl⟩)
      (by rw [atSegment_segmentIndex, atSegment_segments]; omega) hcur
      (by rw [atSegment_segmentIndex]; omega)
    have hlast : s.segments.length - 1 + 1 = s.segments.length := by omega
    simp only [atSegment_segmentIndex, atSegment_segments, hlast, streamFrom_of_le (le_refl _),
      streamUpTo_of_le (le_refl _)] at h
    refine ⟨s', ⟨hkeeps.segments_eq, hkeeps.group_eq⟩, ?_⟩
    rw [sourcePositionEdge, if_neg hzero]
    exact h

end Ends

/-! ## One entry further -/

section Advance

variable {s : IteratorSource} {previous : Option StoredEntry}

/-- A source that is through with its segment has no frame to step to. -/
theorem SegDone.frameStep_forward (h : SegDone s .forward) :
    ∃ s1, frameStep s .forward = (false, s1) ∧ Keeps s s1 ∧
      s1.segmentIndex = s.segmentIndex ∧ sourceCurrent s1 = none := by
  by_cases hfb : s.segmentScanFallback = true
  · exact ⟨s, by simp [frameStep, hfb], Keeps.rfl, rfl, h.current⟩
  · have hle := h.done.resolve_left hfb
    refine ⟨{ s with frameIndex := sizeInc s.frameIndex }, ?_, ⟨rfl, rfl⟩, rfl, h.current⟩
    have hdec : decide (sizeInc s.frameIndex < s.frameCount) = false :=
      decide_eq_false (Nat.not_lt.mpr hle)
    simp only [frameStep, hfb, hdec]
    rfl

/-- The turn of the loop that leaves a segment. -/
def leaveSegment (dir : Direction) (previous : Option StoredEntry) (fuel : ℕ)
    (s : IteratorSource) : Int × IteratorSource :=
  match segmentStep s dir with
  | (false, s) => (0, sourceClearFrame s)
  | (true, s) =>
    match sourceLoadSegmentEdge none s dir with
    | (rc, s) =>
      if rc < 0 then (-1, s)
      else if rc > 0 then (1, s)
      else sourceAdvanceLoop none dir previous fuel s

/-- Without a frame to step to the loop leaves the segment. -/
theorem sourceAdvanceLoop_leave {dir : Direction} {s1 : IteratorSource} (fuel : ℕ)
    (h : frameStep s dir = (false, s1)) :
    sourceAdvanceLoop none dir previous (fuel + 1) s = leaveSegment dir previous fuel s1 := by
  rw [sourceAdvanceLoop, h]
  rfl

/-- The loop of `source_advance`, forward, behind the last entry of a segment. -/
theorem sourceAdvanceLoop_forward (previous : Option StoredEntry) (fuel : ℕ) :
    ∀ s : IteratorSource, SourceWf s → s.segmentIndex < s.segments.length →
      SegDone s .forward → s.segments.length ≤ fuel + s.segmentIndex →
      ∃ s', Keeps s s' ∧
        ((streamFrom s.segments (s.segmentIndex + 1) = [] ∧
            sourceAdvanceLoop none .forward previous fuel s = (0, s') ∧ s'.entries = []) ∨
          (sourceAdvanceLoop none .forward previous fuel s = (1, s') ∧
            SourceAt s' (streamUpTo s.segments (s.segmentIndex + 1))
              (streamFrom s.segments (s.segmentIndex + 1)))) := by
  induction fuel with
  | zero => intro s _ hlt _ hfuel; omega
  | succ fuel ih =>
    intro s wf hlt hdone hfuel
    obtain ⟨s1, hframe, hkeeps1, hidx1, hcur1⟩ := hdone.frameStep_forward
    have hlen := wf.length_lt
    have hstep := segmentStep_forward (s := s1) (by omega)
    rw [hidx1, hkeeps1.segments_eq] at hstep
    have hkeeps2 : Keeps s (atSegment s1 (s.segmentIndex + 1)) :=
      ⟨hkeeps1.segments_eq, hkeeps1.group_eq⟩
    rw [sourceAdvanceLoop_leave fuel hframe]
    by_cases hmore : s.segmentIndex + 1 < s.segments.length
    · obtain ⟨s2, hkeeps, hidx, h⟩ := enter_forward (wf.keeps hkeeps2)
        (by rw [hkeeps2.segments_eq]; exact hmore) hcur1
      rw [hkeeps2.segments_eq, atSegment_segmentIndex] at h
      rcases h with ⟨hpre, hpost, hload, hdone2⟩ | ⟨hload, hat⟩
      · have hkeeps3 := hkeeps2.trans hkeeps
        obtain ⟨s', hkeeps', h'⟩ := ih s2 (wf.keeps hkeeps3)
          (by rw [hkeeps3.segments_eq, hidx]; exact hmore) hdone2
          (by rw [hkeeps3.segments_eq, hidx, atSegment_segmentIndex]; omega)
        have hloop : leaveSegment .forward previous fuel s1 =
            sourceAdvanceLoop none .forward previous fuel s2 := by
          simp only [leaveSegment, hstep, hmore, decide_true, hload]
          rfl
        rw [hkeeps3.segments_eq, hidx, atSegment_segmentIndex, hpre, ← hpost] at h'
        rw [hloop]
        exact ⟨s', hkeeps3.trans hkeeps', h'⟩
      · refine ⟨s2, hkeeps2.trans hkeeps, .inr ⟨?_, hat⟩⟩
        simp only [leaveSegment, hstep, hmore, decide_true, hload]
        rfl
    · refine ⟨sourceClearFrame (atSegment s1 (s.segmentIndex + 1)),
        ⟨hkeeps1.segments_eq, hkeeps1.group_eq⟩, .inl ⟨?_, ?_, rfl⟩⟩
      · exact streamFrom_of_le (by omega)
      · simp only [leaveSegment, hstep, hmore, decide_false]

/-- Behind the first entry of a segment the loop leaves it, for a wrapped frame index in a
segment without frames one turn later. -/
theorem SegDone.leave_reverse {path : SegmentPath} (h : SegDone s .reverse)
    (previous : Option StoredEntry)
    (hseg : s.segments[s.segmentIndex]? = some path) (fuel : ℕ) :
    ∃ s1 fuel1, fuel ≤ fuel1 ∧ Keeps s s1 ∧ s1.segmentIndex = s.segmentIndex ∧
      sourceCurrent s1 = none ∧
      sourceAdvanceLoop none .reverse previous (fuel + 2) s =
        leaveSegment .reverse previous fuel1 s1 := by
  by_cases hfb : s.segmentScanFallback = true
  · refine ⟨s, fuel + 1, by omega, Keeps.rfl, rfl, h.current, ?_⟩
    exact sourceAdvanceLoop_leave (fuel + 1) (by simp [frameStep, hfb])
  · rcases h.done.resolve_left hfb with hzero | ⟨hcount, hempty⟩
    · refine ⟨{ s with frameIndex := sizeDec s.frameIndex }, fuel + 1, by omega, ⟨rfl, rfl⟩, rfl,
        h.current, ?_⟩
      apply sourceAdvanceLoop_leave (fuel + 1)
      simp only [frameStep, hfb, hzero]
      rfl
    · by_cases hzero : s.frameIndex = 0
      · refine ⟨{ s with frameIndex := sizeDec s.frameIndex }, fuel + 1, by omega, ⟨rfl, rfl⟩,
          rfl, h.current, ?_⟩
        apply sourceAdvanceLoop_leave (fuel + 1)
        simp only [frameStep, hfb, hzero]
        rfl
      · -- the frame cannot be loaded and the fallback finds the segment empty
        have hnil : sortStored path.file.fileEntries = [] :=
          (sortStored_eq_nil_iff _).mpr (hempty path hseg)
        set s0 : IteratorSource := { s with frameIndex := sizeDec s.frameIndex } with hs0
        have hframe : frameStep s .reverse = (true, s0) := by
          have hpos : decide (s.frameIndex > 0) = true :=
            decide_eq_true (Nat.pos_of_ne_zero hzero)
          unfold frameStep
          rw [if_neg hfb]
          simp only [hpos, hs0]
        have hload : sourceLoadIndexedFrom none s0 s0.frameIndex .reverse = (-1, s0) := by
          have hle : s0.frameIndex ≥ s0.frameCount := by
            rw [show s0.frameCount = 0 from hcount]
            exact Nat.zero_le _
          simp only [sourceLoadIndexedFrom, sourceLoadIndexedLoop, sourceLoadFrame, if_pos hle]
          rfl
        have hfall := sourceLoadSegmentFallback_eq (s := s0) hseg .reverse
        rw [if_neg (by simpa using hnil)] at hfall
        have hturn : ∃ s2, sourceAdvanceLoop none .reverse previous (fuel + 2) s =
            sourceAdvanceLoop none .reverse previous (fuel + 1) s2 ∧ Keeps s s2 ∧
            s2.segmentIndex = s.segmentIndex ∧ sourceCurrent s2 = none ∧
            s2.segmentScanFallback = true := by
          cases previous with
          | none =>
            refine ⟨loadFallback s0 path .reverse, ?_, ⟨rfl, rfl⟩, rfl,
              sourceCurrent_of_entries_nil hnil, rfl⟩
            have hentries : (loadFallback s0 path .reverse).entries = [] := hnil
            rw [sourceAdvanceLoop]
            simp only [hframe, hload, hfall, hentries]
            rfl
          | some p =>
            refine ⟨sourceClearFrame (loadFallback s0 path .reverse), ?_, ⟨rfl, rfl⟩, rfl,
              sourceCurrent_of_entries_nil rfl, rfl⟩
            have hentries : (loadFallback s0 path .reverse).entries = [] := hnil
            rw [sourceAdvanceLoop]
            simp only [hframe, hload, sourcePositionFallbackAfter, hfall, hentries]
            rfl
        obtain ⟨s2, hloop, hkeeps, hidx, hcur, hfb2⟩ := hturn
        refine ⟨s2, fuel, le_refl _, hkeeps, hidx, hcur, ?_⟩
        rw [hloop]
        exact sourceAdvanceLoop_leave fuel (by simp [frameStep, hfb2])

/-- The loop of `source_advance`, reverse, in front of the first entry of a segment. -/
theorem sourceAdvanceLoop_reverse (previous : Option StoredEntry) (i : ℕ) :
    ∀ (s : IteratorSource) (fuel : ℕ), s.segmentIndex = i → SourceWf s →
      i < s.segments.length → SegDone s .reverse → 2 * (i + 1) ≤ fuel →
      ∃ s', Keeps s s' ∧
        ((streamUpTo s.segments i = [] ∧
            sourceAdvanceLoop none .reverse previous fuel s = (0, s') ∧ s'.entries = []) ∨
          (∃ p e, streamUpTo s.segments i = p ++ [e] ∧
            sourceAdvanceLoop none .reverse previous fuel s = (1, s') ∧
            SourceAt s' p (e :: streamFrom s.segments i))) := by
  induction i with
  | zero =>
    intro s fuel hi wf hlt hdone hfuel
    obtain ⟨fuel, rfl⟩ : ∃ n, fuel = n + 2 := ⟨fuel - 2, by omega⟩
    obtain ⟨s1, fuel1, _, hkeeps, hidx, hcur, hloop⟩ :=
      hdone.leave_reverse previous (by rw [hi]; exact List.getElem?_eq_getElem hlt) fuel
    refine ⟨sourceClearFrame (atSegment s1 sizeMax), ⟨hkeeps.segments_eq, hkeeps.group_eq⟩,
      .inl ⟨streamUpTo_zero, ?_, rfl⟩⟩
    rw [hloop, leaveSegment, segmentStep_reverse_zero (hidx.trans hi)]
  | succ i ih =>
    intro s fuel hi wf hlt hdone hfuel
    obtain ⟨fuel, rfl⟩ : ∃ n, fuel = n + 2 := ⟨fuel - 2, by omega⟩
    obtain ⟨s1, fuel1, hfuel1, hkeeps1, hidx1, hcur1, hloop⟩ :=
      hdone.leave_reverse previous (by rw [hi]; exact List.getElem?_eq_getElem hlt) fuel
    have hstep := segmentStep_reverse_succ (hidx1.trans hi)
    have hkeeps2 : Keeps s (atSegment s1 i) := ⟨hkeeps1.segments_eq, hkeeps1.group_eq⟩
    obtain ⟨s2, hkeeps, hidx, h⟩ := enter_reverse (wf.keeps hkeeps2)
      (by rw [hkeeps2.segments_eq, atSegment_segmentIndex]; omega) hcur1
    rw [hkeeps2.segments_eq, atSegment_segmentIndex] at h
    rcases h with ⟨hpre, hpost, hload, hdone2⟩ | ⟨p, e, heq, hload, hat⟩
    · have hkeeps3 := hkeeps2.trans hkeeps
      obtain ⟨s', hkeeps', h'⟩ := ih s2 fuel1 hidx (wf.keeps hkeeps3)
        (by rw [hkeeps3.segments_eq]; omega) hdone2 (by omega)
      have hleave : leaveSegment .reverse previous fuel1 s1 =
          sourceAdvanceLoop none .reverse previous fuel1 s2 := by
        simp only [leaveSegment, hstep, hload]
        rfl
      rw [hkeeps3.segments_eq, ← hpre, hpost] at h'
      rw [hloop, hleave]
      exact ⟨s', hkeeps3.trans hkeeps', h'⟩
    · refine ⟨s2, hkeeps2.trans hkeeps, .inr ⟨p, e, heq, ?_, hat⟩⟩
      rw [hloop]
      simp only [leaveSegment, hstep, hload]
      rfl

/-- The source at another entry of the loaded array. -/
def atEntry (s : IteratorSource) (i : ℤ) : IteratorSource :=
  { s with entryIndex := i }

/-- The loaded array is that of the source. -/
@[simp] theorem atEntry_entries (s : IteratorSource) (i : ℤ) :
    (atEntry s i).entries = s.entries := rfl

/-- `source_advance` within the loaded array. -/
theorem sourceAdvance_inside {unit : Option Bytes} {dir : Direction} {k : ℕ}
    (hne : s.entries ≠ []) (hstep : entryStep dir s.entryIndex = k) (hk : k < s.entries.length) :
    sourceAdvance unit s dir = (1, atEntry s k) := by
  unfold sourceAdvance
  rw [if_neg hne]
  simp only [hstep]
  rw [if_pos ⟨by omega, by omega⟩]
  rfl

/-- `source_advance` at the edge of the loaded array. -/
theorem sourceAdvance_outside (unit : Option Bytes) (dir : Direction) (i : ℤ)
    (hne : s.entries ≠ []) (hstep : entryStep dir s.entryIndex = i)
    (hout : ¬ (0 ≤ i ∧ i < s.entries.length)) :
    ∃ previous, sourceAdvance unit s dir =
      sourceAdvanceLoop unit dir previous (3 * s.segments.length + 3) (atEntry s i) := by
  unfold sourceAdvance
  rw [if_neg hne]
  simp only [hstep]
  rw [if_neg hout]
  exact ⟨_, rfl⟩

/-- An index outside the array has no entry. -/
theorem sourceCurrent_of_out {i : ℤ} (hout : ¬ (0 ≤ i ∧ i < s.entries.length)) :
    sourceCurrent (atEntry s i) = none := by
  unfold sourceCurrent
  split
  · next h =>
    apply List.getElem?_eq_none
    have : ¬ i < s.entries.length := fun hi => hout ⟨h, hi⟩
    change s.entries.length ≤ i.toNat
    omega
  · rfl

/-- Behind the last entry of the loaded array, in the middle of an indexed segment or at
its end. -/
theorem advance_forward_of_indexed (previous : Option StoredEntry) {path : SegmentPath}
    (wf : SourceWf s) (h : Indexed s path)
    (hj : s.frameIndex < path.file.file.frames.length) (hcur : sourceCurrent s = none)
    (fuel : ℕ) (hfuel : s.segments.length ≤ fuel) :
    ∃ s', Keeps s s' ∧
      (((path.file.file.frames.drop (s.frameIndex + 1)).flatMap (frameEntries path.file) ++
            streamFrom s.segments (s.segmentIndex + 1) = [] ∧
          sourceAdvanceLoop none .forward previous (fuel + 1) s = (0, s') ∧ s'.entries = []) ∨
        (sourceAdvanceLoop none .forward previous (fuel + 1) s = (1, s') ∧
          SourceAt s' (streamUpTo s.segments s.segmentIndex ++
              (path.file.file.frames.take (s.frameIndex + 1)).flatMap (frameEntries path.file))
            ((path.file.file.frames.drop (s.frameIndex + 1)).flatMap (frameEntries path.file) ++
              streamFrom s.segments (s.segmentIndex + 1)))) := by
  have hlt := (List.getElem?_eq_some_iff.mp h.seg).1
  have hframes := path.file.file.length_lt
  -- what is left when no frame of the segment has further entries
  have hleave : ∀ (s1 : IteratorSource) (fuel1 : ℕ), Keeps s s1 →
      s1.segmentIndex = s.segmentIndex → SegDone s1 .forward → s.segments.length ≤ fuel1 →
      (path.file.file.frames.drop (s.frameIndex + 1)).flatMap (frameEntries path.file) = [] →
      ∃ s', Keeps s s' ∧
        (((path.file.file.frames.drop (s.frameIndex + 1)).flatMap (frameEntries path.file) ++
            streamFrom s.segments (s.segmentIndex + 1) = [] ∧
          sourceAdvanceLoop none .forward previous fuel1 s1 = (0, s') ∧ s'.entries = []) ∨
        (sourceAdvanceLoop none .forward previous fuel1 s1 = (1, s') ∧
          SourceAt s' (streamUpTo s.segments s.segmentIndex ++
              (path.file.file.frames.take (s.frameIndex + 1)).flatMap (frameEntries path.file))
            ((path.file.file.frames.drop (s.frameIndex + 1)).flatMap (frameEntries path.file) ++
              streamFrom s.segments (s.segmentIndex + 1)))) := by
    intro s1 fuel1 hkeeps hidx hdone hfuel1 hnil
    obtain ⟨s', hkeeps', h'⟩ := sourceAdvanceLoop_forward previous fuel1 s1
      (wf.keeps hkeeps) (by rw [hkeeps.segments_eq, hidx]; exact hlt) hdone
      (by rw [hkeeps.segments_eq]; omega)
    have hall : (path.file.file.frames.take (s.frameIndex + 1)).flatMap (frameEntries path.file) =
        segmentStream path.file := by
      rw [segmentStream_of_index h.index, ← flatMap_split path.file.file.frames (s.frameIndex + 1),
        hnil, List.append_nil]
    rw [hkeeps.segments_eq, hidx] at h'
    rw [hnil, List.nil_append, hall, ← streamUpTo_succ h.seg]
    exact ⟨s', hkeeps.trans hkeeps', h'⟩
  by_cases hmore : s.frameIndex + 1 < path.file.file.frames.length
  · set s1 : IteratorSource := { s with frameIndex := s.frameIndex + 1 } with hs1
    have hstep : frameStep s .forward = (true, s1) := by
      unfold frameStep
      rw [if_neg (by simp [h.fallback])]
      simp only [sizeInc_of_lt (show s.frameIndex < 2 ^ 63 by omega), h.count,
        decide_eq_true hmore, hs1]
    have hi : Indexed s1 path := ⟨h.seg, h.index, h.reader, h.count, h.fallback, h.group⟩
    have hfrom : sourceLoadIndexedFrom none s1 s1.frameIndex .forward =
        sourceLoadIndexedLoop none .forward (path.file.file.frames.length + 1) s1
          (s.frameIndex + 1) := by
      rw [sourceLoadIndexedFrom, hi.count]
    rcases sourceLoadIndexedLoop_forward (path.file.file.frames.length + 1) s1 _ hi hmore
        (by omega) with ⟨j, frame, hframe, hne, hpre, heq⟩ | ⟨hnil, frame, hempty, heq⟩
    · have hat := LoadedAt.pre_nil_of_indexed (hi.loadFrame .forward j frame) hframe rfl hne rfl
      have hpost : (path.file.file.frames.drop j).flatMap (frameEntries path.file) =
          (path.file.file.frames.drop (s.frameIndex + 1)).flatMap (frameEntries path.file) := by
        have hsplit := flatMap_split path.file.file.frames j (frameEntries path.file)
        rw [hpre, ← flatMap_split path.file.file.frames (s.frameIndex + 1)] at hsplit
        exact List.append_cancel_left hsplit
      have hplace := SourceAt.of_loadedAt (s := s) (t := loadFrame s1 path .forward j frame)
        ⟨rfl, rfl⟩ rfl h.seg hat
      refine ⟨loadFrame s1 path .forward j frame, ⟨rfl, rfl⟩, .inr ⟨?_, ?_⟩⟩
      · rw [sourceAdvanceLoop, hstep]
        simp only [hfrom, heq]
        rfl
      · rw [← hpre, ← hpost]
        exact hplace
    · have hloop : sourceAdvanceLoop none .forward previous (fuel + 1) s =
          sourceAdvanceLoop none .forward previous fuel
            (loadFrame s1 path .forward (path.file.file.frames.length - 1) frame) := by
        rw [sourceAdvanceLoop, hstep]
        simp only [hfrom, heq]
        rfl
      rw [hloop]
      apply hleave (loadFrame s1 path .forward (path.file.file.frames.length - 1) frame) fuel
        ⟨rfl, rfl⟩ rfl ⟨sourceCurrent_of_entries_nil hempty, .inr ?_⟩ hfuel hnil
      change s.frameCount ≤ sizeInc (path.file.file.frames.length - 1)
      rw [h.count, sizeInc_of_lt (by omega)]
      omega
  · apply hleave s (fuel + 1) Keeps.rfl rfl ⟨hcur, .inr ?_⟩ (by omega)
    · rw [List.drop_eq_nil_of_le (by omega), List.flatMap_nil]
    · change s.frameCount ≤ sizeInc s.frameIndex
      rw [sizeInc_of_lt (by omega), h.count]
      omega

/-- In front of the first entry of the loaded array, in the middle of an indexed segment or
at its start. -/
theorem advance_reverse_of_indexed (previous : Option StoredEntry) {path : SegmentPath}
    (wf : SourceWf s) (h : Indexed s path)
    (hj : s.frameIndex < path.file.file.frames.length) (hcur : sourceCurrent s = none)
    (fuel : ℕ) (hfuel : 2 * (s.segmentIndex + 1) ≤ fuel) :
    ∃ s', Keeps s s' ∧
      ((streamUpTo s.segments s.segmentIndex ++
            (path.file.file.frames.take s.frameIndex).flatMap (frameEntries path.file) = [] ∧
          sourceAdvanceLoop none .reverse previous (fuel + 1) s = (0, s') ∧ s'.entries = []) ∨
        (∃ p e, streamUpTo s.segments s.segmentIndex ++
            (path.file.file.frames.take s.frameIndex).flatMap (frameEntries path.file) = p ++ [e] ∧
          sourceAdvanceLoop none .reverse previous (fuel + 1) s = (1, s') ∧
          SourceAt s' p (e ::
            ((path.file.file.frames.drop s.frameIndex).flatMap (frameEntries path.file) ++
              streamFrom s.segments (s.segmentIndex + 1))))) := by
  have hlt := (List.getElem?_eq_some_iff.mp h.seg).1
  have hleave : ∀ (s1 : IteratorSource) (fuel1 : ℕ), Keeps s s1 →
      s1.segmentIndex = s.segmentIndex → SegDone s1 .reverse → 2 * (s.segmentIndex + 1) ≤ fuel1 →
      (path.file.file.frames.take s.frameIndex).flatMap (frameEntries path.file) = [] →
      ∃ s', Keeps s s' ∧
        ((streamUpTo s.segments s.segmentIndex ++
            (path.file.file.frames.take s.frameIndex).flatMap (frameEntries path.file) = [] ∧
          sourceAdvanceLoop none .reverse previous fuel1 s1 = (0, s') ∧ s'.entries = []) ∨
        (∃ p e, streamUpTo s.segments s.segmentIndex ++
            (path.file.file.frames.take s.frameIndex).flatMap (frameEntries path.file) = p ++ [e] ∧
          sourceAdvanceLoop none .reverse previous fuel1 s1 = (1, s') ∧
          SourceAt s' p (e ::
            ((path.file.file.frames.drop s.frameIndex).flatMap (frameEntries path.file) ++
              streamFrom s.segments (s.segmentIndex + 1))))) := by
    intro s1 fuel1 hkeeps hidx hdone hfuel1 hnil
    obtain ⟨s', hkeeps', h'⟩ := sourceAdvanceLoop_reverse previous s.segmentIndex s1
      fuel1 hidx (wf.keeps hkeeps) (by rw [hkeeps.segments_eq]; exact hlt) hdone hfuel1
    have hall : (path.file.file.frames.drop s.frameIndex).flatMap (frameEntries path.file) =
        segmentStream path.file := by
      rw [segmentStream_of_index h.index, ← flatMap_split path.file.file.frames s.frameIndex,
        hnil, List.nil_append]
    rw [hkeeps.segments_eq, streamFrom_eq h.seg] at h'
    rw [hnil, List.append_nil, hall]
    exact ⟨s', hkeeps.trans hkeeps', h'⟩
  cases hindex : s.frameIndex with
  | zero =>
    rw [hindex] at hleave
    exact hleave s (fuel + 1) Keeps.rfl rfl ⟨hcur, .inr (.inl hindex)⟩ (by omega)
      (by rw [List.take_zero, List.flatMap_nil])
  | succ j =>
    rw [hindex] at hleave
    set s1 : IteratorSource := { s with frameIndex := j } with hs1
    have hstep : frameStep s .reverse = (true, s1) := by
      unfold frameStep
      rw [if_neg (by simp [h.fallback])]
      simp only [hindex, hs1, sizeDec]
      rfl
    have hi : Indexed s1 path := ⟨h.seg, h.index, h.reader, h.count, h.fallback, h.group⟩
    have hfrom : sourceLoadIndexedFrom none s1 s1.frameIndex .reverse =
        sourceLoadIndexedLoop none .reverse (path.file.file.frames.length + 1) s1 j := by
      rw [sourceLoadIndexedFrom, hi.count]
    rcases sourceLoadIndexedLoop_reverse (path.file.file.frames.length + 1) s1 j hi (by omega)
        (by omega) with ⟨j', frame, hframe, hne, hpost, heq⟩ | ⟨hnil, frame, hempty, heq⟩
    · obtain ⟨p, e, hat, hpe⟩ := loadedAt_last hi hframe hne
      have hpre : (path.file.file.frames.take (j' + 1)).flatMap (frameEntries path.file) =
          (path.file.file.frames.take (j + 1)).flatMap (frameEntries path.file) := by
        have hsplit := flatMap_split path.file.file.frames (j' + 1) (frameEntries path.file)
        rw [hpost, ← flatMap_split path.file.file.frames (j + 1)] at hsplit
        exact List.append_cancel_right hsplit
      have hplace := SourceAt.of_loadedAt (s := s) (t := loadFrame s1 path .reverse j' frame)
        ⟨rfl, rfl⟩ rfl h.seg hat
      refine ⟨loadFrame s1 path .reverse j' frame, ⟨rfl, rfl⟩, .inr
        ⟨streamUpTo s.segments s.segmentIndex ++ p, e, ?_, ?_, ?_⟩⟩
      · rw [← hpre, ← hpe, List.append_assoc]
      · rw [sourceAdvanceLoop, hstep]
        simp only [hfrom, heq]
        rfl
      · rw [← hpost]
        exact hplace
    · have hloop : sourceAdvanceLoop none .reverse previous (fuel + 1) s =
          sourceAdvanceLoop none .reverse previous fuel (loadFrame s1 path .reverse 0 frame) := by
        rw [sourceAdvanceLoop, hstep]
        simp only [hfrom, heq]
        rfl
      rw [hloop]
      exact hleave (loadFrame s1 path .reverse 0 frame) fuel ⟨rfl, rfl⟩ rfl
        ⟨sourceCurrent_of_entries_nil hempty, .inr (.inl rfl)⟩ hfuel hnil

/-- One entry moves from what follows to what lies before. -/
theorem take_succ_of_drop {l rest post : List StoredEntry} {k : ℕ} {e : StoredEntry}
    (hk : k < l.length) (h : l.drop k ++ rest = e :: post) :
    l.take (k + 1) = l.take k ++ [e] ∧ l.drop (k + 1) ++ rest = post := by
  rw [List.drop_eq_getElem_cons hk, List.cons_append] at h
  obtain ⟨rfl, rfl⟩ := List.cons.inj h
  exact ⟨List.take_succ_eq_append_getElem hk, rfl⟩

/-- **`source_advance`, forward**, moves the place by one entry, or the stream is over.
SOURCE: librecorder.c:1877-1915 -/
theorem sourceAdvance_forward (wf : SourceWf s) {pre post : List StoredEntry} {e : StoredEntry}
    (h : SourceAt s pre (e :: post)) :
    ∃ s', Keeps s s' ∧
      ((post = [] ∧ sourceAdvance none s .forward = (0, s') ∧ s'.entries = []) ∨
        (sourceAdvance none s .forward = (1, s') ∧ SourceAt s' (pre ++ [e]) post)) := by
  obtain ⟨path, p, q, hseg, hload, rfl, hpost⟩ := h
  cases hload with
  | indexed hi frame hframe hentries k hk hidx =>
    have hne : s.entries ≠ [] := List.ne_nil_of_length_pos (by omega)
    rw [List.append_assoc] at hpost
    obtain ⟨htake, hdrop⟩ := take_succ_of_drop hk hpost.symm
    by_cases hin : k + 1 < s.entries.length
    · have hat := LoadedAt.indexed (s := atEntry s (k + 1 : ℕ))
        ⟨hi.seg, hi.index, hi.reader, hi.count, hi.fallback, hi.group⟩ frame hframe hentries
        (k + 1) hin rfl
      have hplace := SourceAt.of_loadedAt (s := s)
        (t := atEntry s (k + 1 : ℕ)) ⟨rfl, rfl⟩ rfl hseg hat
      refine ⟨atEntry s (k + 1 : ℕ), ⟨rfl, rfl⟩,
        .inr ⟨sourceAdvance_inside hne (k := k + 1) ?_ hin, ?_⟩⟩
      · rw [hidx]; rfl
      · rw [← hdrop, List.append_assoc, List.append_assoc, ← htake,
          ← List.append_assoc (List.drop _ _)]
        exact hplace
    · have hout : ¬ (0 ≤ ((k : ℤ) + 1) ∧ (k : ℤ) + 1 < s.entries.length) := by omega
      obtain ⟨previous, hadv⟩ := sourceAdvance_outside none .forward ((k : ℤ) + 1) hne
        (by rw [hidx]; rfl) hout
      have hdropnil : s.entries.drop (k + 1) = [] := List.drop_eq_nil_of_le (by omega)
      obtain ⟨s', hkeeps, h'⟩ := advance_forward_of_indexed previous
        (s := atEntry s (k + 1)) (wf.keeps ⟨rfl, rfl⟩)
        ⟨hi.seg, hi.index, hi.reader, hi.count, hi.fallback, hi.group⟩
        (List.getElem?_eq_some_iff.mp hframe).1 (sourceCurrent_of_out hout)
        (3 * s.segments.length + 2) (by change s.segments.length ≤ _; omega)
      refine ⟨s', ⟨hkeeps.segments_eq, hkeeps.group_eq⟩, ?_⟩
      have hall : s.entries.take (k + 1) = s.entries := List.take_of_length_le (by omega)
      have hpre' : streamUpTo s.segments s.segmentIndex ++
          ((path.file.file.frames.take s.frameIndex).flatMap (frameEntries path.file) ++
            s.entries.take k) ++ [e] =
          streamUpTo s.segments s.segmentIndex ++
            (path.file.file.frames.take (s.frameIndex + 1)).flatMap (frameEntries path.file) := by
        rw [flatMap_take_succ hframe, ← hentries, List.append_assoc, List.append_assoc, ← htake,
          hall]
      rw [hdropnil, List.nil_append] at hdrop
      rw [hadv, ← hdrop, hpre']
      exact h'
  | fallback hf k hk hidx =>
    have hne : s.entries ≠ [] := List.ne_nil_of_length_pos (by omega)
    obtain ⟨htake, hdrop⟩ := take_succ_of_drop hk hpost.symm
    by_cases hin : k + 1 < s.entries.length
    · have hfall : Fallback (atEntry s (k + 1 : ℕ)) path :=
        ⟨hf.seg, hf.index, hf.fallback, hf.entries⟩
      have hat := LoadedAt.fallback hfall (k + 1) hin rfl
      have hplace := SourceAt.of_loadedAt (s := s)
        (t := atEntry s (k + 1 : ℕ)) ⟨rfl, rfl⟩ rfl hseg hat
      refine ⟨atEntry s (k + 1 : ℕ), ⟨rfl, rfl⟩,
        .inr ⟨sourceAdvance_inside hne (k := k + 1) ?_ hin, ?_⟩⟩
      · rw [hidx]; rfl
      · rw [← hdrop, List.append_assoc, ← htake]
        exact hplace
    · have hout : ¬ (0 ≤ ((k : ℤ) + 1) ∧ (k : ℤ) + 1 < s.entries.length) := by omega
      obtain ⟨previous, hadv⟩ := sourceAdvance_outside none .forward ((k : ℤ) + 1) hne
        (by rw [hidx]; rfl) hout
      obtain ⟨s', hkeeps, h'⟩ := sourceAdvanceLoop_forward previous
        (3 * s.segments.length + 3) (atEntry s (k + 1)) (wf.keeps ⟨rfl, rfl⟩)
        (List.getElem?_eq_some_iff.mp hseg).1 ⟨sourceCurrent_of_out hout, .inl hf.fallback⟩
        (by change s.segments.length ≤ _; omega)
      refine ⟨s', ⟨hkeeps.segments_eq, hkeeps.group_eq⟩, ?_⟩
      have hall : s.entries.take (k + 1) = s.entries := List.take_of_length_le (by omega)
      have hpre' : streamUpTo s.segments s.segmentIndex ++ s.entries.take k ++ [e] =
          streamUpTo s.segments (s.segmentIndex + 1) := by
        rw [streamUpTo_succ hseg, List.append_assoc, ← htake, hall,
          segmentStream_of_none hf.index, hf.entries]
      rw [List.drop_eq_nil_of_le (by omega), List.nil_append] at hdrop
      rw [hadv, ← hdrop, hpre']
      exact h'

/-- **`source_advance`, reverse**, moves the place back by one entry, or there is none
before it.
SOURCE: librecorder.c:1877-1915 -/
theorem sourceAdvance_reverse (wf : SourceWf s) {pre post : List StoredEntry}
    (h : SourceAt s pre post) :
    ∃ s', Keeps s s' ∧
      ((pre = [] ∧ sourceAdvance none s .reverse = (0, s') ∧ s'.entries = []) ∨
        (∃ p e, pre = p ++ [e] ∧ sourceAdvance none s .reverse = (1, s') ∧
          SourceAt s' p (e :: post))) := by
  obtain ⟨path, p, q, hseg, hload, rfl, rfl⟩ := h
  have hlt := (List.getElem?_eq_some_iff.mp hseg).1
  cases hload with
  | indexed hi frame hframe hentries k hk hidx =>
    have hne : s.entries ≠ [] := List.ne_nil_of_length_pos (by omega)
    cases k with
    | succ k =>
      have hk' : k < s.entries.length := by omega
      have hat := LoadedAt.indexed (s := atEntry s k)
        ⟨hi.seg, hi.index, hi.reader, hi.count, hi.fallback, hi.group⟩ frame hframe hentries
        k hk' rfl
      have hplace := SourceAt.of_loadedAt (s := s) (t := atEntry s k)
        ⟨rfl, rfl⟩ rfl hseg hat
      rw [atEntry_entries, List.drop_eq_getElem_cons hk'] at hplace
      refine ⟨atEntry s k, ⟨rfl, rfl⟩, .inr ⟨streamUpTo s.segments s.segmentIndex ++
        ((path.file.file.frames.take s.frameIndex).flatMap (frameEntries path.file) ++
          s.entries.take k), s.entries[k], ?_,
        sourceAdvance_inside hne (k := k) ?_ hk', hplace⟩⟩
      · rw [List.take_succ_eq_append_getElem hk']
        simp only [List.append_assoc]
      · rw [hidx, entryStep]
        omega
    | zero =>
      have hout : ¬ (0 ≤ (-1 : ℤ) ∧ (-1 : ℤ) < s.entries.length) := by omega
      obtain ⟨previous, hadv⟩ := sourceAdvance_outside none .reverse (-1) hne
        (by rw [hidx]; rfl) hout
      obtain ⟨s', hkeeps, h'⟩ := advance_reverse_of_indexed previous
        (s := atEntry s (-1)) (wf.keeps ⟨rfl, rfl⟩)
        ⟨hi.seg, hi.index, hi.reader, hi.count, hi.fallback, hi.group⟩
        (List.getElem?_eq_some_iff.mp hframe).1 (sourceCurrent_of_out hout)
        (3 * s.segments.length + 2) (by change 2 * (s.segmentIndex + 1) ≤ _; omega)
      refine ⟨s', ⟨hkeeps.segments_eq, hkeeps.group_eq⟩, ?_⟩
      rw [hadv, List.take_zero, List.append_nil, List.drop_zero, hentries,
        ← flatMap_drop_eq hframe]
      exact h'
  | fallback hf k hk hidx =>
    have hne : s.entries ≠ [] := List.ne_nil_of_length_pos (by omega)
    cases k with
    | succ k =>
      have hk' : k < s.entries.length := by omega
      have hfall : Fallback (atEntry s k) path := ⟨hf.seg, hf.index, hf.fallback, hf.entries⟩
      have hat := LoadedAt.fallback hfall k hk' rfl
      have hplace := SourceAt.of_loadedAt (s := s) (t := atEntry s k)
        ⟨rfl, rfl⟩ rfl hseg hat
      rw [atEntry_entries, List.drop_eq_getElem_cons hk'] at hplace
      refine ⟨atEntry s k, ⟨rfl, rfl⟩, .inr ⟨streamUpTo s.segments s.segmentIndex ++
        s.entries.take k, s.entries[k], ?_,
        sourceAdvance_inside hne (k := k) ?_ hk', hplace⟩⟩
      · rw [List.take_succ_eq_append_getElem hk', List.append_assoc]
      · rw [hidx, entryStep]
        omega
    | zero =>
      have hout : ¬ (0 ≤ (-1 : ℤ) ∧ (-1 : ℤ) < s.entries.length) := by omega
      obtain ⟨previous, hadv⟩ := sourceAdvance_outside none .reverse (-1) hne
        (by rw [hidx]; rfl) hout
      obtain ⟨s', hkeeps, h'⟩ := sourceAdvanceLoop_reverse previous s.segmentIndex
        (atEntry s (-1)) (3 * s.segments.length + 3) rfl (wf.keeps ⟨rfl, rfl⟩) hlt
        ⟨sourceCurrent_of_out hout, .inl hf.fallback⟩ (by omega)
      refine ⟨s', ⟨hkeeps.segments_eq, hkeeps.group_eq⟩, ?_⟩
      rw [hadv, List.take_zero, List.append_nil, List.drop_zero, hf.entries,
        ← segmentStream_of_none hf.index, ← streamFrom_eq hseg]
      exact h'

end Advance

end Recorder.Analysis
