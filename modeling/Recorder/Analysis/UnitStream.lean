import Mathlib.Data.List.Flatten
import Recorder.Analysis.Iterator

/-!
# What a source delivers under a unit filter

Under a unit filter a source passes over the frames of an indexed segment whose rows rule the
unit out; a segment without index is delivered as a whole. Moved forward from any place a source
delivers the rest of what is loaded, the frames of the segment that are let through and the
segments behind it, to the end (`delivers_of_loaded`, `delivers_of_indexed`). The proof goes
through the segments from the last one on: leaving a segment (`leaves`) needs what the later
ones deliver.

* **`sourcePositionEdge_delivers`**: positioned at its start, a source delivers the frames of all
  its segments that the filter lets through.
-/

set_option autoImplicit false

namespace Recorder.Analysis

open Recorder.Model Recorder.Lib

/-! ## What a source delivers forward -/

/-- The entries a source delivers when it is advanced again and again. -/
def Delivers (unit : Option Bytes) : IteratorSource → List StoredEntry → Prop
  | s, [] => sourceCurrent s = none
  | s, e :: l => sourceCurrent s = some e ∧
      ∃ rc s', sourceAdvance unit s .forward = (rc, s') ∧ 0 ≤ rc ∧ Delivers unit s' l

variable {unit : Option Bytes}

theorem Delivers.current {s : IteratorSource} {l : List StoredEntry} (h : Delivers unit s l) :
    sourceCurrent s = l.head? := by
  cases l with
  | nil => exact h
  | cons e l => exact h.1

/-! ## Frames and segments -/

/-- The frames that the index lets through. -/
def unitFrames (unit : Option Bytes) (frames : List ChunkFrame) : List ChunkFrame :=
  frames.filter fun frame => indexFrameMayContainService (indexRow frame) unit

/-- The entries of a segment in the order a source delivers them under a unit filter: only
an index makes it skip frames. -/
def unitStream (unit : Option Bytes) (f : StoreFile) : List StoredEntry :=
  if f.file.index.isSome then (unitFrames unit f.file.frames).flatMap (frameEntries f)
  else sortStored f.fileEntries

theorem unitStream_none (f : StoreFile) : unitStream none f = segmentStream f := by
  have hall : unitFrames none f.file.frames = f.file.frames :=
    List.filter_eq_self.mpr (by simp [indexFrameMayContainService])
  unfold unitStream segmentStream
  rw [hall]
  rfl

theorem unitStream_sublist (unit : Option Bytes) (f : StoreFile) :
    (unitStream unit f).Sublist (segmentStream f) := by
  unfold unitStream segmentStream
  split
  · exact List.filter_sublist.flatMap _
  · exact List.Sublist.refl _

/-- What the segments from number `i` on deliver. -/
def unitStreamFrom (unit : Option Bytes) (segments : List SegmentPath) (i : ℕ) :
    List StoredEntry :=
  (segments.drop i).flatMap fun path => unitStream unit path.file

theorem unitStreamFrom_eq {segments : List SegmentPath} {i : ℕ} {path : SegmentPath}
    (h : segments[i]? = some path) : unitStreamFrom unit segments i =
      unitStream unit path.file ++ unitStreamFrom unit segments (i + 1) :=
  flatMap_drop_eq h _

theorem unitStreamFrom_of_le {segments : List SegmentPath} {i : ℕ} (h : segments.length ≤ i) :
    unitStreamFrom unit segments i = [] := by
  rw [unitStreamFrom, List.drop_eq_nil_of_le h, List.flatMap_nil]

section UnitFilter

variable {s : IteratorSource} {path : SegmentPath} {segments : List SegmentPath} {i : ℕ}

/-- The source after a frame was skipped. -/
def skipFrame (s : IteratorSource) (j : ℕ) : IteratorSource :=
  { sourceClearFrame s with frameIndex := j }

/-- A frame that the index does not let through is left empty. -/
theorem sourceLoadFrame_skip (h : Indexed s path) (dir : Direction) {j : ℕ} {frame : ChunkFrame}
    (hframe : path.file.file.frames[j]? = some frame)
    (hskip : indexFrameMayContainService (indexRow frame) unit = false) :
    sourceLoadFrame unit s j dir = (1, skipFrame s j) := by
  have hlt : ¬ j ≥ s.frameCount := by
    rw [h.count]
    exact Nat.not_le.mpr (List.getElem?_eq_some_iff.mp hframe).1
  have hrow : (path.file.file.frames.map indexRow)[j]? = some (indexRow frame) := by
    rw [List.getElem?_map, hframe]
    rfl
  unfold sourceLoadFrame
  rw [if_neg hlt]
  simp only [sourceClearFrame, h.seg, h.reader, Option.bind_some, hrow, hskip, Bool.not_false,
    if_true, skipFrame]

/-- A frame that the index lets through is loaded. -/
theorem sourceLoadFrame_pass (h : Indexed s path) (dir : Direction) {j : ℕ} {frame : ChunkFrame}
    (hframe : path.file.file.frames[j]? = some frame)
    (hpass : indexFrameMayContainService (indexRow frame) unit = true) :
    sourceLoadFrame unit s j dir = (0, loadFrame s path dir j frame) := by
  rw [← sourceLoadFrame_eq h dir hframe]
  have hlt : ¬ j ≥ s.frameCount := by
    rw [h.count]
    exact Nat.not_le.mpr (List.getElem?_eq_some_iff.mp hframe).1
  have hrow : (path.file.file.frames.map indexRow)[j]? = some (indexRow frame) := by
    rw [List.getElem?_map, hframe]
    rfl
  have hnone : indexFrameMayContainService (indexRow frame) none = true := rfl
  unfold sourceLoadFrame
  rw [if_neg hlt, if_neg hlt]
  simp only [sourceClearFrame, h.seg, h.reader, Option.bind_some, hrow, hpass, hnone]

/-- What the frames from number `j` on deliver. -/
def unitFrom (unit : Option Bytes) (f : StoreFile) (j : ℕ) : List StoredEntry :=
  (unitFrames unit (f.file.frames.drop j)).flatMap (frameEntries f)

theorem unitFrom_eq (unit : Option Bytes) {j : ℕ} {frame : ChunkFrame}
    (h : path.file.file.frames[j]? = some frame) :
    unitFrom unit path.file j =
      (if indexFrameMayContainService (indexRow frame) unit then frameEntries path.file frame
        else []) ++ unitFrom unit path.file (j + 1) := by
  obtain ⟨hlt, rfl⟩ := List.getElem?_eq_some_iff.mp h
  unfold unitFrom unitFrames
  rw [List.drop_eq_getElem_cons hlt, List.filter_cons]
  split <;> simp

theorem unitFrom_of_le {j : ℕ} (h : path.file.file.frames.length ≤ j) :
    unitFrom unit path.file j = [] := by
  unfold unitFrom
  rw [List.drop_eq_nil_of_le h]
  rfl

theorem unitStream_of_index {rows : List IndexFrame} (h : path.file.file.index = some rows) :
    unitStream unit path.file = unitFrom unit path.file 0 := by
  simp [unitStream, h, unitFrom]

theorem unitStream_of_none (h : path.file.file.index = none) :
    unitStream unit path.file = sortStored path.file.fileEntries := by
  simp [unitStream, h]

/-! ## Loading frames -/

/-- A source over the given segments stands at one of them. -/
structure SegmentAt (s : IteratorSource) (segments : List SegmentPath) (i : ℕ) : Prop where
  wf : SourceWf s
  segments_eq : s.segments = segments
  index_eq : s.segmentIndex = i

/-- The index of this segment is open. -/
structure IndexedAt (s : IteratorSource) (path : SegmentPath) (segments : List SegmentPath)
    (i : ℕ) : Prop extends SegmentAt s segments i, Indexed s path

theorem SegmentAt.keeps (h : SegmentAt s segments i) {s' : IteratorSource} (hkeeps : Keeps s s')
    {j : ℕ} (hindex : s'.segmentIndex = j) : SegmentAt s' segments j :=
  ⟨h.wf.keeps hkeeps, hkeeps.segments_eq.trans h.segments_eq, hindex⟩

theorem SegmentAt.seg (h : SegmentAt s segments i) (hseg : segments[i]? = some path) :
    s.segments[s.segmentIndex]? = some path := by
  rw [h.segments_eq, h.index_eq]
  exact hseg

theorem SegmentAt.openIndex (h : SegmentAt s segments i) (hseg : segments[i]? = some path)
    (hindex : path.file.file.index = some (path.file.file.frames.map indexRow)) :
    IndexedAt (openIndex s path) path segments i :=
  ⟨⟨h.wf.keeps ⟨rfl, rfl⟩, h.segments_eq, h.index_eq⟩, openIndex_indexed (h.seg hseg) hindex
    (h.wf.group_eq path (List.mem_of_getElem? (h.seg hseg)))⟩

theorem IndexedAt.loadFrame (h : IndexedAt s path segments i) (dir : Direction) (j : ℕ)
    (frame : ChunkFrame) : IndexedAt (loadFrame s path dir j frame) path segments i :=
  ⟨⟨h.wf.keeps ⟨rfl, rfl⟩, h.segments_eq, h.index_eq⟩, h.toIndexed.loadFrame dir j frame⟩

/-- What loading from frame `j` on comes to: the first frame that is let through and has
entries, or there is none and the last frame is the current one. -/
def UnitLoad (unit : Option Bytes) (path : SegmentPath) (segments : List SegmentPath) (i j : ℕ)
    (res : Int × IteratorSource) : Prop :=
  (∃ (s : IteratorSource) (k : ℕ) (frame : ChunkFrame),
    res = (1, loadFrame s path .forward k frame) ∧ IndexedAt s path segments i ∧ j ≤ k ∧
    path.file.file.frames[k]? = some frame ∧ frameEntries path.file frame ≠ [] ∧
    unitFrom unit path.file j =
      frameEntries path.file frame ++ unitFrom unit path.file (k + 1)) ∨
  ∃ s : IteratorSource, res = (0, s) ∧ IndexedAt s path segments i ∧ s.entries = [] ∧
    s.frameIndex + 1 = path.file.file.frames.length ∧ unitFrom unit path.file j = []

/-- **`source_load_indexed_from` under a unit filter.**
SOURCE: librecorder.c:1792-1803 -/
theorem sourceLoadIndexedLoop_unit (unit : Option Bytes) (fuel : ℕ) :
    ∀ (s : IteratorSource) (j : ℕ), IndexedAt s path segments i →
      j < path.file.file.frames.length → path.file.file.frames.length ≤ fuel + j →
      UnitLoad unit path segments i j (sourceLoadIndexedLoop unit .forward fuel s j) := by
  induction fuel with
  | zero => intro s j _ hj hfuel; omega
  | succ fuel ih =>
    intro s j hi hj hfuel
    obtain ⟨frame, hframe⟩ : ∃ frame, path.file.file.frames[j]? = some frame :=
      ⟨_, List.getElem?_eq_getElem hj⟩
    have hstep := unitFrom_eq unit hframe
    -- an empty frame and one that is skipped both lead to the next frame
    have hnext : ∀ s1 : IteratorSource, IndexedAt s1 path segments i → s1.entries = [] →
        s1.frameIndex = j → unitFrom unit path.file j = unitFrom unit path.file (j + 1) →
        UnitLoad unit path segments i j
          (if j + 1 ≥ path.file.file.frames.length then (0, s1)
            else sourceLoadIndexedLoop unit .forward fuel s1 (j + 1)) := by
      intro s1 hi1 hnil hindex hfrom
      by_cases hlast : j + 1 ≥ path.file.file.frames.length
      · rw [if_pos hlast]
        refine .inr ⟨s1, rfl, hi1, hnil, by omega, ?_⟩
        rw [hfrom, unitFrom_of_le hlast]
      · rw [if_neg hlast]
        rcases ih s1 (j + 1) hi1 (by omega) (by omega) with
          ⟨s', k, frame', hres, hi', hle, hframe', hne, heq⟩ | ⟨s', hres, hi', hnil', hlast', heq⟩
        · exact .inl ⟨s', k, frame', hres, hi', by omega, hframe', hne, hfrom.trans heq⟩
        · exact .inr ⟨s', hres, hi', hnil', hlast', hfrom.trans heq⟩
    by_cases hpass : indexFrameMayContainService (indexRow frame) unit = true
    · rw [if_pos hpass] at hstep
      have hload := sourceLoadFrame_pass hi.toIndexed .forward hframe hpass
      by_cases hempty : frameEntries path.file frame = []
      · rw [hempty, List.nil_append] at hstep
        have hentries : (loadFrame s path .forward j frame).entries = [] := hempty
        have hcount : (loadFrame s path .forward j frame).frameCount =
            path.file.file.frames.length := hi.count
        have hmore := hnext _ (hi.loadFrame .forward j frame) hempty rfl hstep
        simp only [sourceLoadIndexedLoop, hload, hentries, ne_eq, not_true_eq_false, and_false,
          if_false, hcount, show ¬ (0 : Int) < 0 by decide]
        exact hmore
      · have hentries : (loadFrame s path .forward j frame).entries ≠ [] := hempty
        refine .inl ⟨s, j, frame, ?_, hi, Nat.le_refl _, hframe, hempty, hstep⟩
        simp [sourceLoadIndexedLoop, hload, hentries]
    · rw [if_neg hpass, List.nil_append] at hstep
      have hload := sourceLoadFrame_skip hi.toIndexed .forward hframe (by simpa using hpass)
      have hmore := hnext (skipFrame s j)
        ⟨⟨hi.wf.keeps ⟨rfl, rfl⟩, hi.segments_eq, hi.index_eq⟩,
          ⟨hi.seg, hi.index, hi.reader, hi.count, hi.fallback, hi.group⟩⟩ rfl rfl hstep
      have hcount : (skipFrame s j).frameCount = path.file.file.frames.length := hi.count
      simp only [sourceLoadIndexedLoop, hload, hcount,
        show ¬ (1 : Int) < 0 by decide, show ¬ (1 : Int) = 0 by decide, false_and, if_false]
      exact hmore

/-- At its last frame an indexed segment is over. -/
theorem IndexedAt.segDone (h : IndexedAt s path segments i) (hcur : sourceCurrent s = none)
    (hlast : s.frameIndex + 1 = path.file.file.frames.length) : SegDone s .forward := by
  refine ⟨hcur, .inr ?_⟩
  change s.frameCount ≤ sizeInc s.frameIndex
  rw [sizeInc_of_lt (by have := path.file.file.length_lt; omega), h.count, hlast]

/-! ## Leaving a segment -/

/-- From the end of a segment on, the source delivers what the later ones have. -/
def Leaves (unit : Option Bytes) (segments : List SegmentPath) (i : ℕ) : Prop :=
  ∀ (s : IteratorSource) (previous : Option StoredEntry) (fuel : ℕ), SegmentAt s segments i →
    SegDone s .forward → segments.length ≤ fuel + i →
    ∃ rc s', sourceAdvanceLoop unit .forward previous fuel s = (rc, s') ∧ 0 ≤ rc ∧
      Delivers unit s' (unitStreamFrom unit segments (i + 1))

/-- The loop ends at the next frame with entries. -/
theorem sourceAdvanceLoop_found {unit : Option Bytes} {dir : Direction}
    {previous : Option StoredEntry} {fuel : ℕ} {s s1 s' : IteratorSource}
    (hframe : frameStep s dir = (true, s1))
    (hload : sourceLoadIndexedFrom unit s1 s1.frameIndex dir = (1, s')) :
    sourceAdvanceLoop unit dir previous (fuel + 1) s = (1, s') := by
  rw [sourceAdvanceLoop, hframe]
  simp only [hload]
  exact if_pos (by decide)

/-- The loop takes another turn where no further frame has entries. -/
theorem sourceAdvanceLoop_passed {unit : Option Bytes} {dir : Direction}
    {previous : Option StoredEntry} {fuel : ℕ} {s s1 s' : IteratorSource}
    (hframe : frameStep s dir = (true, s1))
    (hload : sourceLoadIndexedFrom unit s1 s1.frameIndex dir = (0, s')) :
    sourceAdvanceLoop unit dir previous (fuel + 1) s =
      sourceAdvanceLoop unit dir previous fuel s' := by
  rw [sourceAdvanceLoop, hframe]
  simp only [hload]
  rw [if_neg (by decide), if_pos trivial]

/-- A loaded array is delivered entry by entry, and then what comes behind it. -/
theorem delivers_of_array (rest : List StoredEntry) (hne : s.entries ≠ [])
    (hbehind : ∀ previous, ∃ rc s', sourceAdvanceLoop unit .forward previous
        (3 * s.segments.length + 3) (atEntry s s.entries.length) = (rc, s') ∧ 0 ≤ rc ∧
      Delivers unit s' rest) (n : ℕ) :
    ∀ k : ℕ, k + (n + 1) = s.entries.length →
      Delivers unit (atEntry s k) (s.entries.drop k ++ rest) := by
  have hhead : ∀ k (hk : k < s.entries.length),
      sourceCurrent (atEntry s k) = some (s.entries.get ⟨k, hk⟩) := by
    intro k hk
    rw [sourceCurrent_of_index (s := atEntry s k) (k := k) rfl, atEntry_entries,
      List.getElem?_eq_getElem hk]
    rfl
  induction n with
  | zero =>
    intro k hk
    have hlt : k < s.entries.length := by omega
    have hlast : ((k : ℤ) + 1) = s.entries.length := by omega
    rw [List.drop_eq_getElem_cons hlt, List.drop_eq_nil_of_le (by omega)]
    refine ⟨hhead k hlt, ?_⟩
    obtain ⟨previous, hadv⟩ := sourceAdvance_outside (s := atEntry s k) unit .forward
      ((k : ℤ) + 1) hne rfl (by rw [atEntry_entries]; omega)
    obtain ⟨rc, s', hloop, hrc, hdelivers⟩ := hbehind previous
    rw [hlast] at hadv
    exact ⟨rc, s', hadv.trans hloop, hrc, hdelivers⟩
  | succ n ih =>
    intro k hk
    have hlt : k < s.entries.length := by omega
    rw [List.drop_eq_getElem_cons hlt, List.cons_append]
    refine ⟨hhead k hlt, 1, atEntry s (k + 1 : ℕ), ?_, by omega, ih (k + 1) (by omega)⟩
    exact sourceAdvance_inside (s := atEntry s k) hne rfl (by rw [atEntry_entries]; omega)

/-- Behind the end of an array nothing is current. -/
theorem sourceCurrent_atEnd (s : IteratorSource) :
    sourceCurrent (atEntry s s.entries.length) = none :=
  sourceCurrent_of_out (by omega)

/-- A segment that was loaded as a whole is delivered from its first entry. -/
theorem delivers_of_loaded (hleave : Leaves unit segments i) (hat : SegmentAt s segments i)
    (hfallback : s.segmentScanFallback = true) (hentry : s.entryIndex = 0)
    (hne : s.entries ≠ []) :
    Delivers unit s (s.entries ++ unitStreamFrom unit segments (i + 1)) := by
  have hpos := List.length_pos_of_ne_nil hne
  have hstart : atEntry s (0 : ℕ) = s := by
    change { s with entryIndex := 0 } = s
    rw [← hentry]
  have hdelivers := delivers_of_array (unitStreamFrom unit segments (i + 1)) hne (by
    intro previous
    refine hleave (atEntry s s.entries.length) previous _
      ⟨hat.wf.keeps ⟨rfl, rfl⟩, hat.segments_eq, hat.index_eq⟩
      ⟨sourceCurrent_atEnd s, .inl hfallback⟩ ?_
    rw [hat.segments_eq]
    omega) (s.entries.length - 1) 0 (by omega)
  rw [hstart, List.drop_zero] at hdelivers
  exact hdelivers

/-- Behind the entries of a frame, the frames that follow are delivered, and then the segments
that follow. The induction is on the number of frames behind this one. -/
theorem delivers_of_indexed (hleave : Leaves unit segments i) (n : ℕ) :
    ∀ (s : IteratorSource) (j : ℕ) (frame : ChunkFrame), IndexedAt s path segments i →
      path.file.file.frames[j]? = some frame → path.file.file.frames.length ≤ j + n →
      frameEntries path.file frame ≠ [] →
      Delivers unit (loadFrame s path .forward j frame)
        (frameEntries path.file frame ++
          (unitFrom unit path.file (j + 1) ++ unitStreamFrom unit segments (i + 1))) := by
  induction n with
  | zero =>
    intro s j frame _ hframe hn
    have := (List.getElem?_eq_some_iff.mp hframe).1
    omega
  | succ n ih =>
    intro s j frame hi hframe hn hne
    have hjlt := (List.getElem?_eq_some_iff.mp hframe).1
    have hlen := List.length_pos_of_ne_nil hne
    refine delivers_of_array (s := loadFrame s path .forward j frame) _ hne ?_
      ((frameEntries path.file frame).length - 1) 0
      (by change 0 + _ = (frameEntries path.file frame).length; omega)
    intro previous
    set t := atEntry (loadFrame s path .forward j frame)
      (loadFrame s path .forward j frame).entries.length with ht
    have hti : IndexedAt t path segments i :=
      ⟨⟨hi.wf.keeps ⟨rfl, rfl⟩, hi.segments_eq, hi.index_eq⟩,
        ⟨hi.seg, hi.index, hi.reader, hi.count, hi.fallback, hi.group⟩⟩
    have htframe : t.frameIndex = j := rfl
    have hcur : sourceCurrent t = none := sourceCurrent_atEnd _
    have hfuel : (loadFrame s path .forward j frame).segments.length = segments.length :=
      congrArg List.length hi.segments_eq
    rw [hfuel]
    by_cases hlast : j + 1 = path.file.file.frames.length
    · rw [unitFrom_of_le (by omega), List.nil_append]
      exact hleave t previous _ hti.toSegmentAt (hti.segDone hcur (by rw [htframe, hlast]))
        (by omega)
    · have hinc : sizeInc t.frameIndex = j + 1 :=
        sizeInc_of_lt (by have := path.file.file.length_lt; omega)
      have hmore : j + 1 < path.file.file.frames.length := by omega
      have hstep : frameStep t .forward = (true, { t with frameIndex := j + 1 }) := by
        simp [frameStep, hti.fallback, hinc, hti.count, hmore]
      have hi1 : IndexedAt { t with frameIndex := j + 1 } path segments i :=
        ⟨⟨hti.wf.keeps ⟨rfl, rfl⟩, hti.segments_eq, hti.index_eq⟩,
          ⟨hti.seg, hti.index, hti.reader, hti.count, hti.fallback, hti.group⟩⟩
      have hload := sourceLoadIndexedLoop_unit unit (t.frameCount + 1) _ (j + 1) hi1 hmore
        (by rw [hti.count]; omega)
      rcases hload with ⟨s', k, frame', hres, hi', hle, hframe', hne', heq⟩ |
        ⟨s', hres, hi', hnil, hlast', heq⟩
      · refine ⟨1, _, sourceAdvanceLoop_found hstep hres, by omega, ?_⟩
        rw [heq, List.append_assoc]
        exact ih s' k frame' hi' hframe' (by omega) hne'
      · obtain ⟨rc, s'', hloop, hrc, hdelivers⟩ := hleave s' previous (3 * segments.length + 2)
          hi'.toSegmentAt (hi'.segDone (sourceCurrent_of_entries_nil hnil) hlast') (by omega)
        refine ⟨rc, s'', ?_, hrc, ?_⟩
        · rw [sourceAdvanceLoop_passed hstep hres]
          exact hloop
        · rw [heq, List.nil_append]
          exact hdelivers

/-- The frames of an indexed segment, loaded from the first one on. -/
theorem sourceLoadIndexedFrom_unit (hleave : Leaves unit segments i)
    (h : IndexedAt s path segments i) (hframes : path.file.file.frames ≠ []) :
    ∃ s', (sourceLoadIndexedFrom unit s 0 .forward = (1, s') ∧ unitFrom unit path.file 0 ≠ [] ∧
        Delivers unit s' (unitFrom unit path.file 0 ++ unitStreamFrom unit segments (i + 1))) ∨
      (sourceLoadIndexedFrom unit s 0 .forward = (0, s') ∧ unitFrom unit path.file 0 = [] ∧
        SegmentAt s' segments i ∧ s'.entries = [] ∧ SegDone s' .forward) := by
  have hload := sourceLoadIndexedLoop_unit unit (s.frameCount + 1) s 0 h
    (List.length_pos_of_ne_nil hframes) (by rw [h.count]; omega)
  rcases hload with ⟨s', k, frame, hres, hi, -, hframe, hne, heq⟩ | ⟨s', hres, hi, hnil, hlast, heq⟩
  · refine ⟨_, .inl ⟨hres, by simp [heq, hne], ?_⟩⟩
    rw [heq, List.append_assoc]
    exact delivers_of_indexed hleave _ s' k frame hi hframe (Nat.le_add_left _ _) hne
  · exact ⟨s', .inr ⟨hres, heq, hi.toSegmentAt, hnil,
      hi.segDone (sourceCurrent_of_entries_nil hnil) hlast⟩⟩

/-- **A segment entered from its front** delivers its entries and what comes behind it, or has
none to deliver.
SOURCE: librecorder.c:1849-1861 -/
theorem sourceLoadSegmentEdge_unit (hleave : Leaves unit segments i)
    (hat : SegmentAt s segments i) (hseg : segments[i]? = some path)
    (hcur : sourceCurrent s = none) :
    ∃ s', (sourceLoadSegmentEdge unit s .forward = (1, s') ∧
        Delivers unit s' (unitStreamFrom unit segments i)) ∨
      (sourceLoadSegmentEdge unit s .forward = (0, s') ∧
        unitStreamFrom unit segments i = unitStreamFrom unit segments (i + 1) ∧
        SegmentAt s' segments i ∧ SegDone s' .forward) := by
  have hpath := hat.seg hseg
  have husable := hat.wf.usable path (List.mem_of_getElem? hpath)
  rw [unitStreamFrom_eq hseg]
  cases hindex : path.file.file.index with
  | none =>
    have hload : sourceLoadSegmentEdge unit s .forward =
        (if sortStored path.file.fileEntries ≠ [] then 1 else 0,
          loadFallback (closeIndex s) path .forward) := by
      simp only [sourceLoadSegmentEdge, sourceLoadIndex, hpath, hindex]
      rw [if_neg (by decide)]
      exact sourceLoadSegmentFallback_eq (s := closeIndex s) hpath _
    have hat' : SegmentAt (loadFallback (closeIndex s) path .forward) segments i :=
      ⟨hat.wf.keeps ⟨rfl, rfl⟩, hat.segments_eq, hat.index_eq⟩
    rw [unitStream_of_none hindex]
    by_cases hnil : sortStored path.file.fileEntries = []
    · rw [if_neg (by simpa using hnil)] at hload
      rw [hnil, List.nil_append]
      exact ⟨_, .inr ⟨hload, rfl, hat', sourceCurrent_of_entries_nil hnil, .inl rfl⟩⟩
    · rw [if_pos hnil] at hload
      exact ⟨_, .inl ⟨hload, delivers_of_loaded hleave hat' rfl rfl hnil⟩⟩
  | some rows =>
    obtain rfl := husable rows hindex
    have hopen := hat.openIndex hseg hindex
    rw [unitStream_of_index hindex]
    by_cases hframes : path.file.file.frames = []
    · have hzero : path.file.file.frames.length = 0 := List.length_eq_zero_iff.mpr hframes
      rw [unitFrom_of_le (by omega), List.nil_append]
      refine ⟨openIndex s path, .inr ⟨?_, rfl, hopen.toSegmentAt, hcur, .inr ?_⟩⟩
      · simp only [sourceLoadSegmentEdge, sourceLoadIndex_eq hpath hindex, openIndex, hzero,
          if_true]
      · change path.file.file.frames.length ≤ _
        omega
    · have hcount : (openIndex s path).frameCount ≠ 0 := by
        simpa [openIndex] using hframes
      have hedge : ∀ rc s', 0 ≤ rc →
          sourceLoadIndexedFrom unit (openIndex s path) 0 .forward = (rc, s') →
          sourceLoadSegmentEdge unit s .forward = (rc, s') := by
        intro rc s' hrc hres
        simp only [sourceLoadSegmentEdge, sourceLoadIndex_eq hpath hindex, if_true]
        rw [if_neg hcount, hres]
        exact if_pos hrc
      obtain ⟨s', ⟨hres, -, hdelivers⟩ | ⟨hres, hnil, hat', -, hdone⟩⟩ :=
        sourceLoadIndexedFrom_unit hleave hopen hframes
      · exact ⟨s', .inl ⟨hedge _ _ (by omega) hres, hdelivers⟩⟩
      · rw [hnil, List.nil_append]
        exact ⟨s', .inr ⟨hedge _ _ (by omega) hres, rfl, hat', hdone⟩⟩

/-- **Leaving a segment.** The induction is on the number of segments behind it. -/
theorem leaves (n : ℕ) : ∀ i, i < segments.length → segments.length ≤ i + 1 + n →
    Leaves unit segments i := by
  induction n with
  | zero =>
    intro i hlt hn s previous fuel hat hdone hfuel
    obtain ⟨fuel, rfl⟩ : ∃ m, fuel = m + 1 := ⟨fuel - 1, by omega⟩
    obtain ⟨s1, hframe, hkeeps, hindex, -⟩ := hdone.frameStep_forward
    have hat1 := hat.keeps hkeeps (hindex.trans hat.index_eq)
    have hlen := hat.wf.length_lt
    rw [hat.segments_eq] at hlen
    have hstep := segmentStep_forward (s := s1) (by rw [hat1.index_eq]; omega)
    have hmore : decide (s1.segmentIndex + 1 < s1.segments.length) = false := by
      rw [hat1.index_eq, hat1.segments_eq]
      exact decide_eq_false (by omega)
    rw [sourceAdvanceLoop, hframe, unitStreamFrom_of_le (by omega)]
    simp only [hstep, hmore]
    exact ⟨0, _, rfl, by omega, sourceCurrent_of_entries_nil rfl⟩
  | succ n ih =>
    intro i hlt hn s previous fuel hat hdone hfuel
    by_cases hlast : segments.length ≤ i + 1 + n
    · exact ih i hlt hlast s previous fuel hat hdone hfuel
    obtain ⟨fuel, rfl⟩ : ∃ m, fuel = m + 1 := ⟨fuel - 1, by omega⟩
    obtain ⟨s1, hframe, hkeeps, hindex, hcur⟩ := hdone.frameStep_forward
    have hat1 := hat.keeps hkeeps (hindex.trans hat.index_eq)
    have hlen := hat.wf.length_lt
    rw [hat.segments_eq] at hlen
    have hstep := segmentStep_forward (s := s1) (by rw [hat1.index_eq]; omega)
    have hmore : decide (s1.segmentIndex + 1 < s1.segments.length) = true := by
      rw [hat1.index_eq, hat1.segments_eq]
      exact decide_eq_true (by omega)
    have hnext : i + 1 < segments.length := by omega
    have hleave := ih (i + 1) hnext (by omega)
    have hat2 : SegmentAt (atSegment s1 (s1.segmentIndex + 1)) segments (i + 1) :=
      ⟨hat1.wf.keeps ⟨rfl, rfl⟩, hat1.segments_eq, congrArg (· + 1) hat1.index_eq⟩
    rw [sourceAdvanceLoop, hframe]
    simp only [hstep, hmore]
    obtain ⟨s', ⟨hload, hdelivers⟩ | ⟨hload, heq, hat', hdone'⟩⟩ :=
      sourceLoadSegmentEdge_unit hleave hat2 (List.getElem?_eq_getElem hnext) hcur
    · rw [hload]
      exact ⟨1, s', rfl, by omega, hdelivers⟩
    · rw [hload, heq]
      exact hleave s' previous fuel hat' hdone' (by omega)

/-! ## Positioning a source -/

/-- The loop of `source_position_edge`, from segment `i` on. -/
theorem sourcePositionEdgeLoop_delivers (unit : Option Bytes) (fuel : ℕ) :
    ∀ (s : IteratorSource) (i : ℕ), SegmentAt s segments i → i < segments.length →
      sourceCurrent s = none → segments.length ≤ fuel + i →
      ∃ rc s', sourcePositionEdgeLoop unit .forward fuel s = (rc, s') ∧ 0 ≤ rc ∧
        Delivers unit s' (unitStreamFrom unit segments i) := by
  induction fuel with
  | zero => intro s i _ hlt _ hfuel; omega
  | succ fuel ih =>
    intro s i hat hlt hcur hfuel
    have hleave : Leaves unit segments i := leaves segments.length i hlt (by omega)
    obtain ⟨s', ⟨hload, hdelivers⟩ | ⟨hload, heq, hat', hdone⟩⟩ :=
      sourceLoadSegmentEdge_unit hleave hat (List.getElem?_eq_getElem hlt) hcur
    · refine ⟨1, s', ?_, by omega, hdelivers⟩
      simp only [sourcePositionEdgeLoop, hload]
      rfl
    · have hlen := hat'.wf.length_lt
      rw [hat'.segments_eq] at hlen
      have hstep := segmentStep_forward (s := s') (by rw [hat'.index_eq]; omega)
      rw [hat'.index_eq, hat'.segments_eq] at hstep
      have hnext : SegmentAt (atSegment s' (i + 1)) segments (i + 1) :=
        ⟨hat'.wf.keeps ⟨rfl, rfl⟩, hat'.segments_eq, rfl⟩
      rw [heq]
      by_cases hmore : i + 1 < segments.length
      · obtain ⟨rc, s'', hloop, hrc, hdelivers⟩ := ih _ (i + 1) hnext hmore hdone.current
          (by omega)
        refine ⟨rc, s'', ?_, hrc, hdelivers⟩
        simp only [sourcePositionEdgeLoop, hload, hstep, hmore]
        exact hloop
      · rw [unitStreamFrom_of_le (by omega)]
        refine ⟨0, atSegment s' (i + 1), ?_, by omega, hdone.current⟩
        simp only [sourcePositionEdgeLoop, hload, hstep, hmore]
        rfl

/-- **`source_position_edge`, forward, under a unit filter**: what is let through of all
segments is to come.
SOURCE: librecorder.c:1863-1875 -/
theorem sourcePositionEdge_delivers (unit : Option Bytes) (wf : SourceWf s)
    (hcur : sourceCurrent s = none) :
    ∃ rc s', sourcePositionEdge unit s .forward = (rc, s') ∧ 0 ≤ rc ∧
      Delivers unit s' (unitStreamFrom unit s.segments 0) := by
  by_cases hzero : s.segments.length = 0
  · refine ⟨0, s, ?_, by omega, ?_⟩
    · simp only [sourcePositionEdge, hzero, if_true]
    · rw [unitStreamFrom_of_le (by omega)]
      exact hcur
  · have hat : SegmentAt (atSegment s 0) s.segments 0 := ⟨wf.keeps ⟨rfl, rfl⟩, rfl, rfl⟩
    obtain ⟨rc, s', hloop, hrc, hdelivers⟩ := sourcePositionEdgeLoop_delivers unit
      (s.segments.length + 1) (atSegment s 0) 0 hat (by omega) hcur (by omega)
    refine ⟨rc, s', ?_, hrc, hdelivers⟩
    rw [sourcePositionEdge, if_neg hzero]
    exact hloop

end UnitFilter

end Recorder.Analysis
