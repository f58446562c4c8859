import Mathlib.Data.List.Pairwise
import Recorder.Analysis.IndexIndependence
import Recorder.Analysis.WallclockHeap

/-!
# The two wallclock readers

The iterator merges one stream for each group, `rec_player_scan_wallclock` one list for each
segment. Each of these lists is sorted when the footers tell which segments run backwards
(`keptStreams_sorted`), so the scan delivers the entries of the segments it looks at in
sorted order. The iterator does so only as far as the streams of the groups are sorted, and
the scan passes over segments that it takes for empty by their header.

**Main result**: `wallclock_readers_agree_iff`.
-/

set_option autoImplicit false

namespace Recorder.Analysis

open Recorder.Model Recorder.Lib

/-! ## Filling the heap -/

/-- A segment whose source is prepared to deliver a list. -/
def PreparesTo (unit : Option Bytes) (segment : WallclockSegment) (l : List StoredEntry) : Prop :=
  ∃ rc s, wallclockPrepareSource unit segment = (rc, s) ∧ 0 ≤ rc ∧ (0 < rc ↔ l ≠ []) ∧
    Delivers unit s l

variable {unit : Option Bytes}

/-- A further source leaves the current entries of the others. -/
theorem currentOf_append {sources : List IteratorSource} (s : IteratorSource) {j : ℕ}
    (h : j < sources.length) : currentOf (sources ++ [s]) j = currentOf sources j := by
  unfold currentOf
  rw [List.getElem?_append_left h]

/-- A new source enters the heap if it has something to deliver.
SOURCE: librecorder.c:1343-1350 -/
theorem HeapState.append {sources : List IteratorSource} {ls : List (List StoredEntry)}
    {heap : List ℕ} (h : HeapState unit sources ls heap) {s : IteratorSource} {l : List StoredEntry}
    (hs : Delivers unit s l) :
    HeapState unit (sources ++ [s]) (ls ++ [l])
      (if l ≠ [] then wallclockHeapSiftUp (sources ++ [s]) (heap ++ [sources.length]) heap.length
      else heap) := by
  have hlen : sources.length = ls.length := h.delivers.length_eq
  have hdelivers : List.Forall₂ (Delivers unit) (sources ++ [s]) (ls ++ [l]) :=
    List.rel_append h.delivers (.cons hs .nil)
  have hlt : ∀ j ∈ heap, j < sources.length := by
    intro j hj
    obtain ⟨x, rest, hl⟩ := (h.mem_iff j).mp hj
    rw [hlen]
    exact (List.getElem?_eq_some_iff.mp hl).1
  have hold : IsHeap (wallclockHeapLess (sources ++ [s])) heap := by
    intro j a b hj ha hb
    rw [wallclockHeapLess_congr (currentOf_append s (hlt b (List.mem_of_getElem? hb)))
      (currentOf_append s (hlt a (List.mem_of_getElem? ha)))]
    exact h.isHeap j a b hj ha hb
  have hlast : ∀ x rest, (ls ++ [l])[sources.length]? = some (x :: rest) ↔ l = x :: rest := by
    intro x rest
    rw [hlen, List.getElem?_append_right (le_refl _)]
    simp
  have hmem : ∀ i, i ≠ sources.length →
      (i ∈ heap ↔ ∃ x rest, (ls ++ [l])[i]? = some (x :: rest)) := by
    intro i hi
    rw [h.mem_iff]
    by_cases hilt : i < ls.length
    · rw [List.getElem?_append_left hilt]
    · rw [List.getElem?_eq_none (by omega), List.getElem?_eq_none]
      rw [List.length_append, List.length_singleton]
      omega
  by_cases hnil : l = []
  · rw [if_neg (by simpa using hnil)]
    refine ⟨hdelivers, h.nodup, ?_, hold⟩
    intro i
    by_cases hi : i = sources.length
    · subst hi
      constructor
      · intro hi
        exact absurd (hlt _ hi) (Nat.lt_irrefl _)
      · rintro ⟨x, rest, hx⟩
        rw [(hlast x rest).mp hx] at hnil
        cases hnil
    · exact hmem i hi
  · rw [if_pos hnil]
    unfold wallclockHeapSiftUp
    have hsift := siftUp_perm (wallclockHeapLess (sources ++ [s])) heap.length
      (heap ++ [sources.length]) heap.length
    refine ⟨hdelivers, ?_, ?_, ?_⟩
    · rw [hsift.nodup_iff, List.nodup_append]
      refine ⟨h.nodup, List.nodup_singleton _, ?_⟩
      intro a ha b hb hab
      rw [List.mem_singleton] at hb
      have := hlt a ha
      omega
    · intro i
      rw [hsift.mem_iff, List.mem_append, List.mem_singleton]
      by_cases hi : i = sources.length
      · subst hi
        simp only [or_true, true_iff]
        obtain ⟨x, rest, hx⟩ := List.exists_cons_of_ne_nil hnil
        exact ⟨x, rest, (hlast x rest).mpr hx⟩
      · rw [or_iff_left hi]
        exact hmem i hi
    · apply siftUp_append_isHeap (wallclockHeapLess_weakOrder _) (h := heap)
      · intro j hj
        obtain ⟨e, he⟩ := h.valid j hj
        exact ⟨e, by rw [currentOf_append s (hlt j hj)]; exact he⟩
      · obtain ⟨x, rest, hx⟩ := List.exists_cons_of_ne_nil hnil
        refine ⟨x, ?_⟩
        rw [currentOf_eq hdelivers, (hlast x rest).mpr hx]
        rfl
      · exact hold

/-- **Preparing the sources** fills the heap.
SOURCE: librecorder.c:1342-1350 -/
theorem wallclockPrepare_spec {segments : List WallclockSegment} {ls' : List (List StoredEntry)}
    (hprep : List.Forall₂ (PreparesTo unit) segments ls') :
    ∀ {sources : List IteratorSource} {ls : List (List StoredEntry)} {heap : List ℕ},
      HeapState unit sources ls heap →
      ∃ sources' heap', wallclockPrepare unit segments sources heap = some (sources', heap') ∧
        HeapState unit sources' (ls ++ ls') heap' := by
  induction hprep with
  | nil =>
    intro sources ls heap h
    refine ⟨sources, heap, rfl, ?_⟩
    rw [List.append_nil]
    exact h
  | @cons segment l segments ls' hseg _ ih =>
    intro sources ls heap h
    obtain ⟨rc, s, heq, hrc, hpos, hs⟩ := hseg
    obtain ⟨sources', heap', hprepare, hstate⟩ := ih (h.append hs)
    refine ⟨sources', heap', ?_, ?_⟩
    · have hiff : (if rc > 0 then
          wallclockHeapSiftUp (sources ++ [s]) (heap ++ [sources.length]) heap.length else heap) =
          if l ≠ [] then
            wallclockHeapSiftUp (sources ++ [s]) (heap ++ [sources.length]) heap.length else heap :=
        if_congr hpos rfl rfl
      simp only [wallclockPrepare, heq]
      rw [if_neg (by omega), hiff, hprepare]
    · rw [List.append_assoc] at hstate
      exact hstate

/-! ## The segments that are looked at -/

/-- Whether the metadata of a segment ask for sorting. -/
def segmentNeedsSort (file : SegmentFile) : Bool :=
  (wallclockSegmentMetadata {} file).needsSort

/-- Whether a segment gets a slot of its own, given the `needs_sort` left in the slot. -/
def slotKept (stale : Bool) (path : SegmentPath) : Bool :=
  ((stale || segmentNeedsSort path.file.file) && !path.file.fileEntries.isEmpty) ||
    path.file.file.header.firstRealtimeTs != 0

/-- What the source of a segment delivers. -/
def slotStream (unit : Option Bytes) (stale : Bool) (path : SegmentPath) : List StoredEntry :=
  if stale || segmentNeedsSort path.file.file then sortStored path.file.fileEntries
  else unitStream unit path.file

/-- What the sources of the slots deliver. -/
def keptStreams (unit : Option Bytes) : List SegmentPath → Bool → List (List StoredEntry)
  | [], _ => []
  | path :: rest, stale =>
    if slotKept stale path then slotStream unit stale path :: keptStreams unit rest false
    else keptStreams unit rest (stale || segmentNeedsSort path.file.file)

/-- The segments without a slot. -/
def passedOver : List SegmentPath → Bool → List SegmentPath
  | [], _ => []
  | path :: rest, stale =>
    if slotKept stale path then passedOver rest false
    else path :: passedOver rest (stale || segmentNeedsSort path.file.file)

/-- Without a unit a slot has all entries of its segment. -/
theorem slotStream_perm (stale : Bool) (path : SegmentPath) :
    (slotStream none stale path).Perm path.file.fileEntries := by
  unfold slotStream
  split
  · exact List.perm_insertionSort _ _
  · rw [unitStream_none]
    exact segmentStream_perm _

/-- A unit filter only takes entries away. -/
theorem slotStream_sublist (unit : Option Bytes) (stale : Bool) (path : SegmentPath) :
    (slotStream unit stale path).Sublist (slotStream none stale path) := by
  unfold slotStream
  split
  · exact List.Sublist.refl _
  · rw [unitStream_none]
    exact unitStream_sublist unit _

/-- A unit only leaves entries out. -/
theorem keptStreams_sublist (unit : Option Bytes) (paths : List SegmentPath) :
    ∀ stale, List.Forall₂ List.Sublist (keptStreams unit paths stale)
      (keptStreams none paths stale) := by
  induction paths with
  | nil => exact fun _ => .nil
  | cons path rest ih =>
    intro stale
    rw [keptStreams, keptStreams]
    split
    · exact .cons (slotStream_sublist unit stale path) (ih false)
    · exact ih _

/-- Sublists one by one are a sublist together. -/
theorem forall₂_sublist_flatten {ls ls' : List (List StoredEntry)}
    (h : List.Forall₂ List.Sublist ls ls') : ls.flatten.Sublist ls'.flatten := by
  induction h with
  | nil => exact List.Sublist.refl _
  | cons hl _ ih =>
    rw [List.flatten_cons, List.flatten_cons]
    exact hl.append ih

/-- Every entry is in a slot or passed over. -/
theorem keptStreams_perm (paths : List SegmentPath) :
    ∀ stale, ((keptStreams none paths stale).flatten ++
        (passedOver paths stale).flatMap fun path => path.file.fileEntries).Perm
      (paths.flatMap fun path => path.file.fileEntries) := by
  induction paths with
  | nil => intro stale; exact List.Perm.refl _
  | cons path rest ih =>
    intro stale
    rw [keptStreams, passedOver]
    split
    · rw [List.flatten_cons, List.append_assoc, List.flatMap_cons]
      exact (slotStream_perm stale path).append (ih false)
    · rw [List.flatMap_cons, List.flatMap_cons, ← List.append_assoc]
      calc ((keptStreams none rest (stale || segmentNeedsSort path.file.file)).flatten ++
            path.file.fileEntries ++
            (passedOver rest (stale || segmentNeedsSort path.file.file)).flatMap
              fun path => path.file.fileEntries)
        _ |>.Perm (path.file.fileEntries ++
              (keptStreams none rest (stale || segmentNeedsSort path.file.file)).flatten ++
              (passedOver rest (stale || segmentNeedsSort path.file.file)).flatMap
                fun path => path.file.fileEntries) := List.perm_append_comm.append_right _
        _ |>.Perm (path.file.fileEntries ++ rest.flatMap fun path => path.file.fileEntries) := by
            rw [List.append_assoc]
            exact (ih _).append_left _

section Slot

variable {slot : WallclockSegment} {path : SegmentPath}

/-- A slot is sorted where the footer says so, or once it was. -/
theorem wallclockSegmentMetadata_needsSort (slot : WallclockSegment) (file : SegmentFile) :
    (wallclockSegmentMetadata slot file).needsSort = (slot.needsSort || segmentNeedsSort file) := by
  simp only [wallclockSegmentMetadata, segmentNeedsSort, Bool.false_or, Bool.or_assoc]

/-- A filled slot.
SOURCE: librecorder.c:1328-1334 -/
theorem wallclockFillSlot_spec (path : SegmentPath) (hslot : slot.entries = []) :
    (wallclockFillSlot slot path).path = some path ∧
      (wallclockFillSlot slot path).needsSort =
        (slot.needsSort || segmentNeedsSort path.file.file) ∧
      (wallclockFillSlot slot path).entries =
        (if slot.needsSort || segmentNeedsSort path.file.file then sortStored path.file.fileEntries
        else []) ∧
      ((wallclockFillSlot slot path).entries = [] → (wallclockFillSlot slot path).minRealtimeTs =
        path.file.file.header.firstRealtimeTs) := by
  have hsort := wallclockSegmentMetadata_needsSort { slot with path := some path } path.file.file
  have hentries : (wallclockSegmentMetadata { slot with path := some path }
      path.file.file).entries = [] := hslot
  unfold wallclockFillSlot
  simp only [hsort]
  by_cases hneeds : (slot.needsSort || segmentNeedsSort path.file.file) = true
  · rw [if_pos hneeds, if_pos hneeds]
    unfold wallclockLoadSegment
    rw [hentries, List.nil_append]
    cases hfile : path.file.fileEntries with
    | nil => exact ⟨rfl, hsort, hentries, fun _ => rfl⟩
    | cons e rest =>
      refine ⟨rfl, hsort, rfl, fun hnil => ?_⟩
      cases (sortStored_eq_nil_iff _).mp hnil
  · rw [if_neg hneeds, if_neg hneeds]
    exact ⟨rfl, hsort, hentries, fun _ => rfl⟩

/-- A slot is kept by the test of the scan. -/
theorem wallclockFillSlot_kept (path : SegmentPath) (hslot : slot.entries = []) :
    ((wallclockFillSlot slot path).entries ≠ [] ∨ (wallclockFillSlot slot path).minRealtimeTs ≠ 0) ↔
      slotKept slot.needsSort path = true := by
  obtain ⟨-, -, hentries, hmin⟩ := wallclockFillSlot_spec path hslot
  unfold slotKept
  rw [Bool.or_eq_true, Bool.and_eq_true, Bool.not_eq_true', bne_iff_ne, List.isEmpty_eq_false_iff]
  by_cases hneeds : (slot.needsSort || segmentNeedsSort path.file.file) = true
  · rw [if_pos hneeds] at hentries
    by_cases hnil : path.file.fileEntries = []
    · have hempty : (wallclockFillSlot slot path).entries = [] := by
        rw [hentries, (sortStored_eq_nil_iff _).mpr hnil]
      rw [hmin hempty]
      simp [hempty, hnil]
    · have hne : (wallclockFillSlot slot path).entries ≠ [] := by
        rw [hentries]
        exact fun h => hnil ((sortStored_eq_nil_iff _).mp h)
      simp [hne, hneeds, hnil]
  · rw [if_neg hneeds] at hentries
    rw [hmin hentries]
    simp [hentries, hneeds]

/-- The source of an unsorted segment before anything is loaded. -/
def freshSource (path : SegmentPath) : IteratorSource :=
  { group := path.file.group, segments := [path], entryIndex := -1 }

/-- A source of one segment is well formed. -/
theorem freshSource_wf (husable : UsableIndex path.file) : SourceWf (freshSource path) := by
  constructor
  · intro p hp
    rw [List.mem_singleton.mp hp]
    rfl
  · intro p hp
    rw [List.mem_singleton.mp hp]
    exact husable
  · change 1 < 2 ^ 63
    omega

/-- It is at its segment. -/
theorem freshSource_at (husable : UsableIndex path.file) :
    SegmentAt (freshSource path) [path] 0 := ⟨freshSource_wf husable, rfl, rfl⟩

/-- There is no segment behind the only one. -/
theorem leaves_only (unit : Option Bytes) (path : SegmentPath) : Leaves unit [path] 0 :=
  leaves 0 0 Nat.one_pos (Nat.le_refl _)

/-- Behind the only segment there is nothing. -/
theorem append_unitStreamFrom_only (unit : Option Bytes) (path : SegmentPath)
    (l : List StoredEntry) : l ++ unitStreamFrom unit [path] 1 = l := by
  rw [unitStreamFrom_of_le (show [path].length ≤ 1 from Nat.le_refl _), List.append_nil]

/-- The preparation of a segment with nothing to deliver. -/
theorem preparesTo_nil {segment : WallclockSegment} {s : IteratorSource}
    (hprep : wallclockPrepareSource unit segment = (0, s)) (hnil : s.entries = []) :
    PreparesTo unit segment [] :=
  ⟨0, s, hprep, by omega, by simp, sourceCurrent_of_entries_nil hnil⟩

/-- A segment that is scanned as a whole delivers its entries in order. -/
theorem prepare_fallback {s : IteratorSource} (hat : SegmentAt s [path] 0)
    {segment : WallclockSegment}
    (hprep : wallclockPrepareSource unit segment = sourceLoadSegmentFallback s .forward) :
    PreparesTo unit segment (sortStored path.file.fileEntries) := by
  rw [sourceLoadSegmentFallback_eq (hat.seg (show [path][0]? = some path from rfl))] at hprep
  have hat' : SegmentAt (loadFallback s path .forward) [path] 0 :=
    ⟨hat.wf.keeps ⟨rfl, rfl⟩, hat.segments_eq, hat.index_eq⟩
  by_cases hnil : sortStored path.file.fileEntries = []
  · rw [if_neg (by simpa using hnil)] at hprep
    rw [hnil]
    exact preparesTo_nil hprep hnil
  · rw [if_pos hnil] at hprep
    refine ⟨1, _, hprep, by omega, by simp [hnil], ?_⟩
    have hdelivers := delivers_of_loaded (leaves_only unit path) hat' rfl rfl hnil
    rw [append_unitStreamFrom_only] at hdelivers
    exact hdelivers

/-- The preparation of a segment that is read frame by frame. -/
theorem wallclockPrepareSource_unsorted (unit : Option Bytes) {segment : WallclockSegment}
    (hpath : segment.path = some path) (hsort : segment.needsSort = false) :
    wallclockPrepareSource unit segment =
      match sourceLoadIndex (freshSource path) with
      | (rc, s) =>
        if rc = 0 ∧ s.frameCount ≠ 0 then
          match sourceLoadIndexedFrom unit s 0 .forward with
          | (rc, s) => if rc ≥ 0 then (rc, s) else sourceLoadSegmentFallback s .forward
        else sourceLoadSegmentFallback s .forward := by
  unfold wallclockPrepareSource
  rw [hpath, hsort]
  rfl

/-- An unsorted segment is read frame by frame where it has an index with rows, and scanned
otherwise.
SOURCE: librecorder.c:1253-1259 -/
theorem prepare_unsorted (husable : UsableIndex path.file) {segment : WallclockSegment}
    (hpath : segment.path = some path) (hsort : segment.needsSort = false) :
    PreparesTo unit segment (unitStream unit path.file) := by
  have hseg : (freshSource path).segments[(freshSource path).segmentIndex]? = some path := rfl
  have hat := freshSource_at husable
  have hprep := wallclockPrepareSource_unsorted unit hpath hsort
  cases hindex : path.file.file.index with
  | none =>
    have hclosed : SegmentAt (closeIndex (freshSource path)) [path] 0 :=
      ⟨hat.wf.keeps ⟨rfl, rfl⟩, rfl, rfl⟩
    rw [unitStream_of_none hindex]
    apply prepare_fallback hclosed
    rw [hprep]
    simp only [sourceLoadIndex, hseg, hindex]
    rfl
  | some rows =>
    obtain rfl := husable rows hindex
    have hopen := hat.openIndex rfl hindex
    rw [sourceLoadIndex_eq hseg hindex] at hprep
    rw [unitStream_of_index hindex]
    by_cases hframes : path.file.file.frames = []
    · have hempty : unitFrom unit path.file 0 = sortStored path.file.fileEntries := by
        simp [unitFrom, unitFrames, hframes, StoreFile.fileEntries, sortStored]
      have hcount : (openIndex (freshSource path) path).frameCount = 0 := by
        simp [openIndex, hframes]
      rw [hempty]
      apply prepare_fallback hopen.toSegmentAt
      simp only [hcount, ne_eq, not_true_eq_false, and_false, if_false] at hprep
      exact hprep
    · have hcount : (openIndex (freshSource path) path).frameCount ≠ 0 := by
        simpa [openIndex] using hframes
      dsimp only at hprep
      rw [if_pos ⟨rfl, hcount⟩] at hprep
      obtain ⟨s, ⟨hres, hne, hdelivers⟩ | ⟨hres, hnil, -, hentries, -⟩⟩ :=
        sourceLoadIndexedFrom_unit (leaves_only unit path) hopen hframes
      · rw [hres] at hprep
        rw [append_unitStreamFrom_only] at hdelivers
        exact ⟨1, s, hprep, by omega, by simp [hne], hdelivers⟩
      · rw [hres] at hprep
        rw [hnil]
        exact preparesTo_nil hprep hentries

/-- A segment that was sorted is entered at its first entry.
SOURCE: librecorder.c:1243-1252 -/
theorem prepare_sorted (husable : UsableIndex path.file) {segment : WallclockSegment}
    (hpath : segment.path = some path) (hsort : segment.needsSort = true) :
    PreparesTo unit segment segment.entries := by
  have hprep : wallclockPrepareSource unit segment =
      (if segment.entries ≠ [] then 1 else 0,
        { freshSource path with
          entries := segment.entries
          segmentScanFallback := true
          entryIndex := if segment.entries ≠ [] then 0 else -1 }) := by
    unfold wallclockPrepareSource
    rw [hpath, hsort]
    rfl
  by_cases hnil : segment.entries = []
  · rw [if_neg (by simpa using hnil)] at hprep
    rw [hnil] at hprep ⊢
    exact preparesTo_nil hprep rfl
  · rw [if_pos hnil, if_pos hnil] at hprep
    refine ⟨1, _, hprep, by omega, by simp [hnil], ?_⟩
    have hat := freshSource_at husable
    have hdelivers := delivers_of_loaded (leaves_only unit path)
      (s := { freshSource path with
        entries := segment.entries, segmentScanFallback := true, entryIndex := 0 })
      ⟨hat.wf.keeps ⟨rfl, rfl⟩, rfl, rfl⟩ rfl rfl hnil
    rw [append_unitStreamFrom_only] at hdelivers
    exact hdelivers

/-- The source of a filled slot delivers the stream of the slot. -/
theorem fillSlot_preparesTo (hslot : slot.entries = []) (husable : UsableIndex path.file) :
    PreparesTo unit (wallclockFillSlot slot path) (slotStream unit slot.needsSort path) := by
  obtain ⟨hpath, hsort, hentries, -⟩ := wallclockFillSlot_spec path hslot
  unfold slotStream
  by_cases hneeds : (slot.needsSort || segmentNeedsSort path.file.file) = true
  · rw [if_pos hneeds] at hentries ⊢
    rw [← hentries]
    exact prepare_sorted husable hpath (hsort.trans hneeds)
  · rw [if_neg hneeds]
    exact prepare_unsorted husable hpath (hsort.trans (by simpa using hneeds))

end Slot

/-- **The slots** hold what `keptStreams` says.
SOURCE: librecorder.c:1327-1338 -/
theorem wallclockCollect_preparesTo (unit : Option Bytes) (paths : List SegmentPath)
    (husable : ∀ path ∈ paths, UsableIndex path.file) :
    ∀ slot : WallclockSegment, slot.entries = [] →
      List.Forall₂ (PreparesTo unit) (wallclockCollect paths slot)
        (keptStreams unit paths slot.needsSort) := by
  induction paths with
  | nil => intro slot _; exact .nil
  | cons path rest ih =>
    intro slot hslot
    have hrest := ih fun p hp => husable p (by simp [hp])
    have hkept := wallclockFillSlot_kept path hslot
    rw [wallclockCollect, keptStreams]
    by_cases hk : slotKept slot.needsSort path = true
    · rw [if_pos (hkept.mpr hk), if_pos hk]
      exact .cons (fillSlot_preparesTo hslot (husable path (by simp))) (hrest {} rfl)
    · have hnot := mt hkept.mp hk
      rw [if_neg hnot, if_neg hk]
      have hempty : (wallclockFillSlot slot path).entries = [] := by
        by_contra hne
        exact hnot (.inl hne)
      have := hrest (wallclockFillSlot slot path) hempty
      rw [(wallclockFillSlot_spec path hslot).2.1] at this
      exact this

/-! ## Sorted streams -/

/-- The footers of segments in which the realtime runs backwards say so. -/
def FootersFlagged (store : Store) : Prop :=
  ∀ f ∈ store.files, ∀ footer, f.file.footer = some footer → ¬ RealtimeMonotone f →
    footer.footerFlags &&& footerFlagRealtimeNonmonotonic ≠ 0

/-- A store as the recorder leaves it: names are unique in a directory and carry the number
that the header of the segment has, and a reader of a single file has one file. -/
structure StoreWf (store : Store) : Prop where
  names : store.files.Pairwise fun f g => f.group = g.group → f.nameSeq ≠ g.nameSeq
  headers : ∀ f ∈ store.files, f.file.header.segmentSeq = f.nameSeq
  single : store.directory = false → store.files.length ≤ 1

/-- An indexed segment is delivered sorted if its realtime does not step back, and any other one
always. -/
theorem segmentStream_sorted_iff (f : StoreFile) :
    SortedBy compareStoredEntries (segmentStream f) ↔
      (f.file.index.isSome → RealtimeMonotone f) := by
  unfold segmentStream
  by_cases hsome : f.file.index.isSome = true
  · rw [if_pos hsome, sortedBy_fileEntries_iff]
    exact ⟨fun h _ => h, fun h => h hsome⟩
  · rw [if_neg hsome]
    exact ⟨fun _ h => absurd h hsome, fun _ => sortedBy_insertionSort _⟩

/-- The streams of the scan are sorted where the footers say what steps back. -/
theorem keptStreams_sorted {store : Store} (hflags : FootersFlagged store)
    (paths : List SegmentPath) (hpaths : ∀ path ∈ paths, path.file ∈ store.files) :
    ∀ stale, ∀ l ∈ keptStreams unit paths stale, SortedBy compareStoredEntries l := by
  induction paths with
  | nil => intro stale l hl; cases hl
  | cons path rest ih =>
    intro stale l hl
    have hrest := ih fun p hp => hpaths p (by simp [hp])
    rw [keptStreams] at hl
    split at hl
    · rcases List.mem_cons.mp hl with rfl | hl
      · unfold slotStream
        split
        · exact sortedBy_insertionSort _
        · next hneeds =>
          -- the footer is there and does not mark the segment
          refine List.Pairwise.sublist (unitStream_sublist unit _) ?_
          apply (segmentStream_sorted_iff _).mpr
          intro _
          by_contra hmono
          rw [Bool.or_eq_true, not_or] at hneeds
          apply hneeds.2
          cases hfooter : path.file.file.footer with
          | none => simp [segmentNeedsSort, wallclockSegmentMetadata, hfooter]
          | some footer =>
            have := hflags _ (hpaths path (by simp)) footer hfooter hmono
            simp [segmentNeedsSort, wallclockSegmentMetadata, hfooter, this]
      · exact hrest false l hl
    · exact hrest _ l hl

section Segments

variable {store : Store} {filter : List Bytes}

/-- The segments are sorted by number. -/
theorem sortPaths_sorted (paths : List SegmentPath) :
    (sortPaths paths).Pairwise fun a b => a.segmentSeq ≤ b.segmentSeq := by
  have htotal : Std.Total fun a b : SegmentPath => a.segmentSeq ≤ b.segmentSeq :=
    ⟨fun a b => UInt64.le_total _ _⟩
  have htrans : IsTrans SegmentPath fun a b => a.segmentSeq ≤ b.segmentSeq :=
    ⟨fun a b c => UInt64.le_trans⟩
  exact List.pairwise_insertionSort _ _

/-- In a directory the number is that of the name. -/
theorem segmentSeq_of_directory (hdir : store.directory = true) {path : SegmentPath}
    (h : path ∈ sortPaths (collectSegmentPaths store filter)) :
    path.segmentSeq = path.file.nameSeq := by
  have hmem := (sortPaths_perm _).mem_iff.mp h
  unfold collectSegmentPaths at hmem
  rw [if_pos hdir] at hmem
  obtain ⟨f, -, rfl⟩ := List.mem_map.mp hmem
  rfl

/-- No more segments are read than the store has. -/
theorem sortPaths_length_le :
    (sortPaths (collectSegmentPaths store filter)).length ≤ store.files.length := by
  rw [(sortPaths_perm _).length_eq, ← List.length_map (f := fun p : SegmentPath => p.file),
    collectSegmentPaths_map_file]
  exact List.length_filter_le _ _

/-- The files of the paths have different names. -/
theorem sortPaths_names (hwf : StoreWf store) :
    (sortPaths (collectSegmentPaths store filter)).Pairwise fun p q =>
      p.file.group = q.file.group → p.file.nameSeq ≠ q.file.nameSeq := by
  have hsymm : ∀ {p q : SegmentPath},
      (p.file.group = q.file.group → p.file.nameSeq ≠ q.file.nameSeq) →
      q.file.group = p.file.group → q.file.nameSeq ≠ p.file.nameSeq :=
    fun h heq => (h heq.symm).symm
  rw [(sortPaths_perm _).pairwise_iff hsymm]
  have hfiles := hwf.names.filter fun f => groupAllowed filter f.group
  rw [← collectSegmentPaths_map_file, List.pairwise_map] at hfiles
  exact hfiles

/-- In a sorted list what holds along the list holds by the numbers. -/
theorem pairwise_of_seq_lt {R : SegmentPath → SegmentPath → Prop} {l : List SegmentPath}
    (hsorted : l.Pairwise fun a b => a.segmentSeq ≤ b.segmentSeq) (h : l.Pairwise R) :
    ∀ p ∈ l, ∀ q ∈ l, p.segmentSeq < q.segmentSeq → R p q := by
  induction l with
  | nil => intro p hp; cases hp
  | cons a l ih =>
    obtain ⟨hle, hsorted⟩ := List.pairwise_cons.mp hsorted
    obtain ⟨ha, hl⟩ := List.pairwise_cons.mp h
    intro p hp q hq hlt
    rcases List.mem_cons.mp hp with rfl | hp'
    · rcases List.mem_cons.mp hq with rfl | hq'
      · exact absurd hlt (UInt64.lt_irrefl _)
      · exact ha q hq'
    · rcases List.mem_cons.mp hq with rfl | hq'
      · exact absurd hlt (UInt64.not_lt.mpr (hle p hp'))
      · exact ih hsorted hl p hp' q hq' hlt

/-- When the stream of a group is sorted. -/
theorem sourceStream_sorted_iff (s : IteratorSource) :
    SortedBy compareStoredEntries (sourceStream s) ↔
      (∀ path ∈ s.segments, path.file.file.index.isSome → RealtimeMonotone path.file) ∧
        s.segments.Pairwise fun p q => ∀ a ∈ p.file.fileEntries, ∀ b ∈ q.file.fileEntries,
          (compareStoredEntries a b).isLE := by
  unfold SortedBy sourceStream
  rw [List.pairwise_flatMap]
  refine and_congr ?_ ?_
  · refine forall₂_congr fun path _ => segmentStream_sorted_iff path.file
  · have hmem : ∀ (f : StoreFile) (e : StoredEntry), e ∈ segmentStream f ↔ e ∈ f.fileEntries :=
      fun f e => (segmentStream_perm f).mem_iff
    simp only [hmem]

end Segments

/-! ## When the readers agree -/

/-- The entries of each selected group are sorted along its segments, and no segment with
entries is passed over. -/
structure WallclockOrdered (store : Store) (filter : List Bytes) : Prop where
  inside : IndexedMonotone store filter
  between : ∀ f ∈ store.files, ∀ g ∈ store.files, groupAllowed filter f.group →
    f.group = g.group → f.nameSeq < g.nameSeq →
    ∀ a ∈ f.fileEntries, ∀ b ∈ g.fileEntries, (compareStoredEntries a b).isLE
  found : ∀ path ∈ passedOver (sortPaths (collectSegmentPaths store filter)) false,
    path.file.fileEntries = []

section Agree

variable {store : Store} {filter : List Bytes}

/-- A selected file has its path in the source of its group. -/
theorem exists_source_of_file {f : StoreFile} (hf : f ∈ store.files)
    (hgroup : groupAllowed filter f.group) :
    ∃ s ∈ storeSources store filter, ∃ path ∈ s.segments, path.file = f ∧
      path ∈ sortPaths (collectSegmentPaths store filter) := by
  have hmem : f ∈ (collectSegmentPaths store filter).map (·.file) := by
    rw [collectSegmentPaths_map_file]
    exact List.mem_filter.mpr ⟨hf, hgroup⟩
  obtain ⟨path, hpath, rfl⟩ := List.mem_map.mp hmem
  have hsorted := (sortPaths_perm (collectSegmentPaths store filter)).mem_iff.mpr hpath
  obtain ⟨s, hs, hseg⟩ :=
    List.mem_flatMap.mp ((storeSources_collected _ _).perm.mem_iff.mpr hsorted)
  exact ⟨s, hs, path, hseg, rfl, hsorted⟩

/-- The streams of the groups are sorted exactly when the clock does not run backwards
inside an indexed segment or from one segment of a group to a later one. -/
theorem storeStreams_sorted_iff (hwf : StoreWf store) :
    (∀ s ∈ storeSources store filter, SortedBy compareStoredEntries (sourceStream s)) ↔
      IndexedMonotone store filter ∧
        ∀ f ∈ store.files, ∀ g ∈ store.files, groupAllowed filter f.group →
          f.group = g.group → f.nameSeq < g.nameSeq →
          ∀ a ∈ f.fileEntries, ∀ b ∈ g.fileEntries, (compareStoredEntries a b).isLE := by
  have hsegments : ∀ s ∈ storeSources store filter,
      s.segments.Pairwise fun a b => a.segmentSeq ≤ b.segmentSeq := by
    intro s hs
    rw [(storeSources_collected _ _).segments_eq s hs]
    exact (sortPaths_sorted _).filter _
  constructor
  · intro h
    constructor
    · intro f hf hgroup hsome
      obtain ⟨s, hs, path, hpath, rfl, -⟩ := exists_source_of_file hf hgroup
      exact ((sourceStream_sorted_iff s).mp (h s hs)).1 path hpath hsome
    · intro f hf g hg hgroup heq hlt
      obtain ⟨s, hs, p, hp, rfl, hpsorted⟩ := exists_source_of_file hf hgroup
      obtain ⟨s', hs', q, hq, rfl, hqsorted⟩ := exists_source_of_file hg (heq ▸ hgroup)
      have hq' : q ∈ s.segments := by
        rw [(storeSources_collected _ _).segments_eq s hs] at hp ⊢
        have hpg := (List.mem_filter.mp hp).2
        exact List.mem_filter.mpr ⟨hqsorted, by rw [← heq]; exact hpg⟩
      cases hdir : store.directory with
      | true =>
        refine pairwise_of_seq_lt (hsegments s hs) ((sourceStream_sorted_iff s).mp (h s hs)).2
          p hp q hq' ?_
        rw [segmentSeq_of_directory hdir hpsorted, segmentSeq_of_directory hdir hqsorted]
        exact hlt
      | false =>
        have hlen := hwf.single hdir
        obtain ⟨i, hi, hfi⟩ := List.getElem_of_mem hf
        obtain ⟨j, hj, hgj⟩ := List.getElem_of_mem hg
        obtain rfl : i = j := by omega
        rw [hfi] at hgj
        rw [hgj] at hlt
        exact absurd hlt (UInt64.lt_irrefl _)
  · rintro ⟨hinside, hbetween⟩ s hs
    rw [sourceStream_sorted_iff]
    constructor
    · intro path hpath
      obtain ⟨hfile, hgroup⟩ := mem_collect_of_mem_source hs hpath
      exact hinside _ hfile hgroup
    · cases hdir : store.directory with
      | true =>
        have hnames : s.segments.Pairwise fun p q =>
            p.file.group = q.file.group → p.file.nameSeq ≠ q.file.nameSeq := by
          rw [(storeSources_collected _ _).segments_eq s hs]
          exact (sortPaths_names hwf).filter _
        have hboth := (hsegments s hs).and hnames
        refine hboth.imp_of_mem ?_
        rintro p q hp hq ⟨hle, hne⟩
        obtain ⟨hpfile, hpgroup⟩ := mem_collect_of_mem_source hs hp
        obtain ⟨hqfile, -⟩ := mem_collect_of_mem_source hs hq
        rw [(storeSources_collected _ _).segments_eq s hs] at hp hq
        obtain ⟨hpsorted, hpg⟩ := List.mem_filter.mp hp
        obtain ⟨hqsorted, hqg⟩ := List.mem_filter.mp hq
        have hgroup : p.file.group = q.file.group := by
          rw [beq_iff_eq] at hpg hqg
          rw [hpg, hqg]
        rw [segmentSeq_of_directory hdir hpsorted, segmentSeq_of_directory hdir hqsorted] at hle
        exact hbetween _ hpfile _ hqfile hpgroup hgroup
          (UInt64.lt_of_le_of_ne hle (hne hgroup))
      | false =>
        have hlen : s.segments.length ≤ 1 := by
          rw [(storeSources_collected _ _).segments_eq s hs]
          exact (List.length_filter_le _ _).trans (sortPaths_length_le.trans (hwf.single hdir))
        match hsegs : s.segments, hlen with
        | [], _ => exact List.Pairwise.nil
        | [p], _ => exact List.pairwise_singleton _ _

/-- A selected entry is in a file of a selected group. -/
theorem mem_selectedEntries {e : StoredEntry} (h : e ∈ selectedEntries store filter) :
    ∃ f ∈ store.files, groupAllowed filter f.group ∧ e ∈ f.fileEntries := by
  obtain ⟨f, hf, he⟩ := List.mem_flatMap.mp h
  obtain ⟨hmem, hgroup⟩ := List.mem_filter.mp hf
  exact ⟨f, hmem, hgroup, he⟩

/-- Entries of one file with the same location are the same. -/
theorem eq_of_location_eq {f : StoreFile} {a b : StoredEntry} (ha : a ∈ f.fileEntries)
    (hb : b ∈ f.fileEntries) (h : compareLocation a b = .eq) : a = b := by
  by_contra hne
  have hpair : f.fileEntries.Pairwise fun a b => compareLocation a b ≠ .eq :=
    (fileEntries_pairwise f).imp fun hfile heq => by rw [hfile.location_lt] at heq; cases heq
  have hsymm : Std.Symm fun a b : StoredEntry => compareLocation a b ≠ .eq :=
    ⟨fun _ _ h heq => h (Std.OrientedCmp.eq_comm.mp heq)⟩
  exact hpair.forall ha hb hne h

/-- **Locations are unique in a store**: the comparison tells the entries apart. -/
theorem selectedEntries_distinguishes (hwf : StoreWf store) (order : Order) :
    Distinguishes (compareIteratorEntries order) (selectedEntries store filter) := by
  intro a ha b hb htie
  have hloc := compareIteratorEntries_eq htie
  obtain ⟨f, hf, -, haf⟩ := mem_selectedEntries ha
  obtain ⟨g, hg, -, hbg⟩ := mem_selectedEntries hb
  obtain ⟨hgroup, hseq, -, -⟩ := compareLocation_eq.mp hloc
  obtain ⟨hga, hsa, -, -⟩ := mem_fileEntries haf
  obtain ⟨hgb, hsb, -, -⟩ := mem_fileEntries hbg
  have hfg : f = g := by
    by_contra hne
    have hsymm : Std.Symm fun f g : StoreFile => f.group = g.group → f.nameSeq ≠ g.nameSeq :=
      ⟨fun _ _ h heq => (h heq.symm).symm⟩
    refine hwf.names.forall hf hg hne ?_ ?_
    · rw [← hga, ← hgb, hgroup]
    · rw [← hwf.headers f hf, ← hwf.headers g hg, ← hsa, ← hsb, hseq]
  subst hfg
  exact eq_of_location_eq haf hbg hloc

/-- The slots and the segments that are passed over hold all entries. -/
theorem keptStreams_selected (store : Store) (filter : List Bytes) :
    ((keptStreams none (sortPaths (collectSegmentPaths store filter)) false).flatten ++
      (passedOver (sortPaths (collectSegmentPaths store filter)) false).flatMap
        fun path => path.file.fileEntries).Perm (selectedEntries store filter) := by
  refine (keptStreams_perm _ false).trans ?_
  rw [selectedEntries, ← collectSegmentPaths_map_file, List.flatMap_map]
  exact (sortPaths_perm _).flatMap_right _

/-- **The wallclock scan merges what the slots deliver**, under any unit filter.
SOURCE: librecorder.c:1303-1374 -/
theorem recPlayerScanWallclock_mergeRun (husable : UsableIndexes store) (unit : Option Bytes)
    {fuel : ℕ} (hfuel : (selectedEntries store filter).length < fuel) :
    ∃ out, recPlayerScanWallclock store filter unit fuel = (0, out) ∧
      MergeRun compareStoredEntries
        (keptStreams unit (sortPaths (collectSegmentPaths store filter)) false) out := by
  set paths := sortPaths (collectSegmentPaths store filter) with hpaths
  have hempty : HeapState unit [] [] [] :=
    ⟨.nil, List.nodup_nil, by simp, by intro j x y _ hx; simp at hx⟩
  have hprep := wallclockCollect_preparesTo unit paths
    (fun path h => husable _ (mem_files_of_mem_sortPaths h)) {} rfl
  obtain ⟨sources, heap, hprepare, hstate⟩ := wallclockPrepare_spec hprep hempty
  rw [List.nil_append] at hstate
  have hlen : (keptStreams unit paths false).flatten.length < fuel := by
    have hsub := (forall₂_sublist_flatten (keptStreams_sublist unit paths false)).length_le
    have hall := (keptStreams_selected store filter).length_eq
    rw [List.length_append, ← hpaths] at hall
    omega
  obtain ⟨out, hout, hrun⟩ := wallclockLoop_mergeRun fuel _ _ _ hstate hlen
  refine ⟨out, ?_, hrun⟩
  simp only [recPlayerScanWallclock, ← hpaths, hprepare, hout]

/-- **The wallclock scan** delivers the entries of the segments with a slot, sorted.
SOURCE: librecorder.c:1303-1374 -/
theorem recPlayerScanWallclock_spec (husable : UsableIndexes store)
    (hflags : FootersFlagged store) {fuel : ℕ}
    (hfuel : (selectedEntries store filter).length < fuel) :
    ∃ out, recPlayerScanWallclock store filter none fuel = (0, out) ∧
      SortedBy compareStoredEntries out ∧
      (out ++ (passedOver (sortPaths (collectSegmentPaths store filter)) false).flatMap
        fun path => path.file.fileEntries).Perm (selectedEntries store filter) := by
  obtain ⟨out, hout, hrun⟩ := recPlayerScanWallclock_mergeRun husable none hfuel
  exact ⟨out, hout,
    hrun.sorted (keptStreams_sorted hflags _ (fun _ h => mem_files_of_mem_sortPaths h) false),
    (hrun.perm.append_right _).trans (keptStreams_selected store filter)⟩

end Agree

/-- **When the two wallclock readers agree.** For a store whose footers mark the segments
that run backwards, `rec_player_scan_wallclock` makes its callbacks in the order in which
the iterator returns the entries if and only if in each selected group no indexed segment
runs backwards, no segment starts before an earlier one has ended, and no segment with
entries is passed over.
SOURCE: librecorder.c:1303-1374, 2196-2259 -/
theorem wallclock_readers_agree_iff (store : Store) (husable : UsableIndexes store)
    (hwf : StoreWf store) (hflags : FootersFlagged store) (r : Reader)
    (hunit : r.unitFilter = none) (horder : r.order = .wallclock) (fault : ScanFault) (fuel : ℕ)
    (hfuel : (selectedEntries store r.groupFilter).length < fuel) :
    (∃ out, recPlayerScanWallclock store r.groupFilter r.unitFilter fuel = (0, out) ∧
        readFromHead store fault fuel r = some out) ↔
      WallclockOrdered store r.groupFilter := by
  obtain ⟨out, hread, hrun⟩ := readFromHead_mergeRun husable hunit fault fuel hfuel
  obtain ⟨out', hscan, hsorted, hperm⟩ := recPlayerScanWallclock_spec husable hflags hfuel
  rw [hunit, hscan, hread]
  rw [horder] at hrun
  have hrunperm := hrun.perm.trans storeStreams_perm
  constructor
  · rintro ⟨_, hout', hout⟩
    obtain rfl : out' = out := by
      rw [Prod.mk.injEq] at hout'
      rw [Option.some.injEq] at hout
      rw [hout'.2, hout]
    have hstreams : ∀ s ∈ storeSources store r.groupFilter,
        SortedBy compareStoredEntries (sourceStream s) := by
      intro s hs
      rw [← filter_group_eq husable hrun hs]
      exact hsorted.filter _
    obtain ⟨hinside, hbetween⟩ := (storeStreams_sorted_iff hwf).mp hstreams
    refine ⟨hinside, hbetween, ?_⟩
    -- both readers deliver the same number of entries, so nothing is left for the others
    have hlen := hperm.length_eq
    rw [List.length_append, hrunperm.length_eq] at hlen
    have hnil := List.eq_nil_of_length_eq_zero (Nat.add_eq_left.mp hlen)
    intro path hpath
    exact List.flatMap_eq_nil_iff.mp hnil path hpath
  · rintro ⟨hinside, hbetween, hfound⟩
    have hstreams := (storeStreams_sorted_iff hwf).mpr ⟨hinside, hbetween⟩
    have hsorted' : SortedBy compareStoredEntries out := by
      refine hrun.sorted ?_
      intro l hl
      obtain ⟨s, hs, rfl⟩ := List.mem_map.mp hl
      exact hstreams s hs
    rw [List.flatMap_eq_nil_iff.mpr hfound, List.append_nil] at hperm
    have hdist : Distinguishes compareStoredEntries out := by
      intro a ha b hb htie
      exact selectedEntries_distinguishes hwf .wallclock a (hrunperm.mem_iff.mp ha) b
        (hrunperm.mem_iff.mp hb) htie
    obtain rfl := hsorted'.eq_of_perm hsorted hdist (hrunperm.trans hperm.symm)
    exact ⟨out, rfl, rfl⟩

/-- A segment of one frame that was closed properly. -/
def sealedSegment (seq : UInt64) (entries : List EntryData) (h : entries.length < 2 ^ 32) :
    StoreFile :=
  let f := oneFrameSegment [97] seq 0 entries h true
  let footer : SegmentFooter :=
    { entryCount := UInt64.ofNat entries.length
      lastRealtimeTs := (entries.getLast?.map (·.realtimeTs)).getD 0
      lastMonotonicTs := (entries.getLast?.map (·.monotonicTs)).getD 0
      present := true }
  { f with file := { f.file with footer := some footer } }

/-- Two segments of one group, the second one beginning at another time. -/
def twoSegmentStore (second : UInt64) : Store where
  directory := true
  files :=
    [ sealedSegment 1 [⟨10, 1, 0, none⟩, ⟨10, 2, 0, none⟩] (by decide),
      sealedSegment 2 [⟨second, 3, 0, none⟩] (length_singleton_lt _ _) ]
  length_lt := length_pair_lt _ _ _

/-- The indexes of the store are usable. -/
theorem twoSegmentStore_usable (second : UInt64) : UsableIndexes (twoSegmentStore second) := by
  intro f hf rows hrows
  rcases List.mem_cons.mp hf with rfl | hf
  · exact (Option.some.inj hrows).symm
  · rw [List.mem_singleton.mp hf] at hrows ⊢
    exact (Option.some.inj hrows).symm

/-- The store is well formed. -/
theorem twoSegmentStore_wf (second : UInt64) : StoreWf (twoSegmentStore second) := by
  refine ⟨?_, ?_, ?_⟩
  · refine List.pairwise_cons.mpr ⟨?_, List.pairwise_singleton _ _⟩
    intro g hg _
    rw [List.mem_singleton.mp hg]
    change (1 : UInt64) ≠ 2
    decide
  · intro f hf
    rcases List.mem_cons.mp hf with rfl | hf
    · rfl
    · rw [List.mem_singleton.mp hf]
      rfl
  · intro h
    cases h

/-- Its footers say what steps back. -/
theorem twoSegmentStore_flagged (second : UInt64) : FootersFlagged (twoSegmentStore second) := by
  intro f hf footer _ hmono
  refine absurd ?_ hmono
  rcases List.mem_cons.mp hf with rfl | hf
  · change List.Pairwise _ [(10 : UInt64), 10]
    decide
  · rw [List.mem_singleton.mp hf]
    exact List.pairwise_singleton _ _

/-- Two segments one behind the other in time. -/
theorem twoSegmentStore_readers_agree :
    (∃ out, recPlayerScanWallclock (twoSegmentStore 12) [] none 4 = (0, out) ∧
      readFromHead (twoSegmentStore 12) (fun _ => none) 4 {} = some out) ∧
      WallclockOrdered (twoSegmentStore 12) [] := by
  have hagree : ∃ out, recPlayerScanWallclock (twoSegmentStore 12) [] none 4 = (0, out) ∧
      readFromHead (twoSegmentStore 12) (fun _ => none) 4 {} = some out :=
    ⟨(recPlayerScanWallclock (twoSegmentStore 12) [] none 4).2, by decide +kernel,
      by decide +kernel⟩
  exact ⟨hagree, (wallclock_readers_agree_iff (twoSegmentStore 12) (twoSegmentStore_usable 12)
    (twoSegmentStore_wf 12) (twoSegmentStore_flagged 12) {} rfl rfl (fun _ => none) 4
    (by decide)).mp hagree⟩

/-- The clock was set back between the segments: the iterator delivers them one behind the
other, the scan merges them. -/
theorem twoSegmentStore_readers_differ :
    UsableIndexes (twoSegmentStore 5) ∧ StoreWf (twoSegmentStore 5) ∧
      FootersFlagged (twoSegmentStore 5) ∧
      ¬ ∃ out, recPlayerScanWallclock (twoSegmentStore 5) [] none 4 = (0, out) ∧
        readFromHead (twoSegmentStore 5) (fun _ => none) 4 {} = some out := by
  refine ⟨twoSegmentStore_usable 5, twoSegmentStore_wf 5, twoSegmentStore_flagged 5, ?_⟩
  rintro ⟨out, hscan, hread⟩
  have hne : readFromHead (twoSegmentStore 5) (fun _ => none) 4 {} ≠
      some (recPlayerScanWallclock (twoSegmentStore 5) [] none 4).2 := by decide +kernel
  rw [hscan] at hne
  exact hne hread

end Recorder.Analysis
