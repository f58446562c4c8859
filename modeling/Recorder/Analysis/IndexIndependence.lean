import Recorder.Analysis.EntryOrder
import Recorder.Analysis.Iterator

/-!
# What the indexes change

A segment with an index is read in file order, one without in the order of
`compare_stored_entries`. Deleting an index leaves everything else of a store as it is, so
reading from the head changes exactly when one of these two orders differs from the other,
that is when the realtime runs backwards in an indexed segment.

**Main result**: `index_deletion_iff`.
-/

set_option autoImplicit false

namespace Recorder.Analysis

open Recorder.Model Recorder.Lib

/-! ## Deleting indexes -/

/-- A segment whose index file is gone. -/
def withoutIndex (f : StoreFile) : StoreFile :=
  { f with file := { f.file with index := none } }

/-- The file after the deletion of some `.idx` files, which are named by their group and
number. -/
def deleteIndex (deleted : Bytes → UInt64 → Bool) (f : StoreFile) : StoreFile :=
  if deleted f.group f.nameSeq then withoutIndex f else f

/-- The store after the deletion of some `.idx` files. -/
def deleteIndexes (deleted : Bytes → UInt64 → Bool) (store : Store) : Store where
  directory := store.directory
  files := store.files.map (deleteIndex deleted)
  length_lt := by
    rw [List.length_map]
    exact store.length_lt

/-- Seek to the head and read on until 0. -/
def readFromHead (store : Store) (fault : ScanFault) (fuel : ℕ) (r : Reader) :
    Option (List StoredEntry) :=
  match recPlayerSeekHead store r with
  | (rc, r) => if rc = 0 then readAll (recPlayerNext store fault) fuel r else none

section Delete

variable (deleted : Bytes → UInt64 → Bool)

/-- Deleting the index leaves the group of a file. -/
@[simp] theorem deleteIndex_group (f : StoreFile) : (deleteIndex deleted f).group = f.group := by
  unfold deleteIndex
  split <;> rfl

/-- Deleting the index leaves the number of a file. -/
@[simp] theorem deleteIndex_nameSeq (f : StoreFile) :
    (deleteIndex deleted f).nameSeq = f.nameSeq := by
  unfold deleteIndex
  split <;> rfl

/-- Deleting the index leaves the entries of a file. -/
@[simp] theorem deleteIndex_fileEntries (f : StoreFile) :
    (deleteIndex deleted f).fileEntries = f.fileEntries := by
  unfold deleteIndex
  split <;> rfl

/-- No index is usable as well. -/
theorem deleteIndex_usable {f : StoreFile} (h : UsableIndex f) :
    UsableIndex (deleteIndex deleted f) := by
  unfold deleteIndex
  split
  · intro rows hrows
    cases hrows
  · exact h

/-- A store stays usable without its indexes. -/
theorem deleteIndexes_usable {store : Store} (h : UsableIndexes store) :
    UsableIndexes (deleteIndexes deleted store) := by
  intro f hf
  obtain ⟨f', hf', rfl⟩ := List.mem_map.mp hf
  exact deleteIndex_usable deleted (h f' hf')

/-- A path to the file after the deletion. -/
def deletePath (path : SegmentPath) : SegmentPath :=
  { path with file := deleteIndex deleted path.file }

/-- A source over the files after the deletion. -/
def deleteSource (s : IteratorSource) : IteratorSource :=
  { s with segments := s.segments.map (deletePath deleted) }

/-- The same segments are collected. -/
theorem collectSegmentPaths_deleteIndexes (store : Store) (filter : List Bytes) :
    collectSegmentPaths (deleteIndexes deleted store) filter =
      (collectSegmentPaths store filter).map (deletePath deleted) := by
  have hfilter : (store.files.map (deleteIndex deleted)).filter
        (fun f => groupAllowed filter f.group) =
      (store.files.filter fun f => groupAllowed filter f.group).map (deleteIndex deleted) := by
    rw [List.filter_map]
    congr 2
    funext f
    simp
  unfold collectSegmentPaths addReaderFilePath deleteIndexes
  split
  · simp only [hfilter, List.map_map]
    congr 1
    funext f
    simp [deletePath]
  · simp only [hfilter, List.map_map]
    rfl

/-- Segments are sorted alike with and without their indexes. -/
theorem sortPaths_map_deletePath (paths : List SegmentPath) :
    sortPaths (paths.map (deletePath deleted)) = (sortPaths paths).map (deletePath deleted) := by
  unfold sortPaths
  exact (List.map_insertionSort (fun a b : SegmentPath => a.segmentSeq ≤ b.segmentSeq)
    (fun a b : SegmentPath => a.segmentSeq ≤ b.segmentSeq) (deletePath deleted) paths
    fun a _ b _ => Iff.rfl).symm

/-- Segments come to the same sources with and without their indexes. -/
theorem addSourceSegment_deleteSource (sources : List IteratorSource) (path : SegmentPath) :
    addSourceSegment (sources.map (deleteSource deleted)) (deletePath deleted path) =
      (addSourceSegment sources path).map (deleteSource deleted) := by
  induction sources with
  | nil => simp [addSourceSegment, deleteSource, deletePath]
  | cons s rest ih =>
    simp only [List.map_cons, addSourceSegment]
    have hgroup : ((deleteSource deleted s).group == (deletePath deleted path).file.group) =
        (s.group == path.file.group) := by
      simp [deleteSource, deletePath]
    rw [hgroup]
    by_cases h : (s.group == path.file.group) = true
    · simp [h, deleteSource]
    · simp only [h, if_false, Bool.false_eq_true, List.map_cons, ih]

/-- The sources stand for the same segments. -/
theorem storeSources_deleteIndexes (store : Store) (filter : List Bytes) :
    storeSources (deleteIndexes deleted store) filter =
      (storeSources store filter).map (deleteSource deleted) := by
  unfold storeSources
  rw [collectSegmentPaths_deleteIndexes, sortPaths_map_deletePath]
  suffices h : ∀ (paths : List SegmentPath) (sources : List IteratorSource),
      (paths.map (deletePath deleted)).foldl addSourceSegment (sources.map (deleteSource deleted)) =
        (paths.foldl addSourceSegment sources).map (deleteSource deleted) from h _ []
  intro paths
  induction paths with
  | nil => intro sources; rfl
  | cons path rest ih =>
    intro sources
    rw [List.map_cons, List.foldl_cons, List.foldl_cons, addSourceSegment_deleteSource, ih]

/-- The selected entries are the same. -/
theorem selectedEntries_deleteIndexes (store : Store) (filter : List Bytes) :
    selectedEntries (deleteIndexes deleted store) filter = selectedEntries store filter := by
  unfold selectedEntries deleteIndexes
  rw [List.filter_map, List.flatMap_map]
  simp only [Function.comp_def, deleteIndex_group, deleteIndex_fileEntries]

end Delete

/-! ## Streams of different groups do not tie -/

/-- A source delivers entries of its group only. -/
theorem sourceStream_group {s : IteratorSource} (wf : SourceWf s) {e : StoredEntry}
    (h : e ∈ sourceStream s) : e.group = s.group := by
  obtain ⟨path, hpath, he⟩ := List.mem_flatMap.mp h
  rw [(mem_fileEntries ((segmentStream_perm path.file).mem_iff.mp he)).1]
  exact wf.group_eq path hpath

/-- The groups of the sources are pairwise different. -/
theorem storeSources_groups (store : Store) (filter : List Bytes) :
    (storeSources store filter).Pairwise fun s s' => s.group ≠ s'.group := by
  have h := (storeSources_collected store filter).nodup
  rw [List.nodup_iff_pairwise_ne, List.pairwise_map] at h
  exact h

/-- Entries of different sources never compare equal. -/
theorem storeStreams_separated {store : Store} (husable : UsableIndexes store)
    (filter : List Bytes) (order : Order) :
    Separated (compareIteratorEntries order) (storeStreams store filter) := by
  unfold Separated storeStreams
  rw [List.pairwise_map]
  refine (storeSources_groups store filter).imp_of_mem ?_
  intro s s' hs hs' hne a ha b hb htie
  apply hne
  rw [← sourceStream_group (storeSources_wf husable hs) ha,
    ← sourceStream_group (storeSources_wf husable hs') hb]
  exact group_eq_of_compareIteratorEntries_eq htie

/-- Reading from the head delivers the merge of the streams, which is determined by them. -/
theorem readFromHead_mergeRun {store : Store} (husable : UsableIndexes store) {r : Reader}
    (hunit : r.unitFilter = none) (fault : ScanFault) (fuel : ℕ)
    (hfuel : (selectedEntries store r.groupFilter).length < fuel) :
    ∃ out, readFromHead store fault fuel r = some out ∧
      MergeRun (compareIteratorEntries r.order) (storeStreams store r.groupFilter) out := by
  obtain ⟨r', out, hseek, hread, hrun⟩ := readForward_mergeRun husable hunit fault fuel
    (by rw [storeStreams_perm.length_eq]; exact hfuel)
  refine ⟨out, ?_, hrun⟩
  simp only [readFromHead, hseek]
  exact hread

/-- The entries of one group among those delivered are the stream of the group. -/
theorem filter_group_eq {store : Store} (husable : UsableIndexes store) {filter : List Bytes}
    {order : Order} {out : List StoredEntry}
    (hrun : MergeRun (compareIteratorEntries order) (storeStreams store filter) out)
    {s : IteratorSource} (hs : s ∈ storeSources store filter) :
    out.filter (·.group == s.group) = sourceStream s := by
  obtain ⟨k, hk⟩ := List.getElem?_of_mem hs
  refine hrun.filter_eq _ k _ (by rw [storeStreams, List.getElem?_map, hk]; rfl) ?_ ?_
  · intro a ha
    simpa using sourceStream_group (storeSources_wf husable hs) ha
  · intro j l hj hl a ha
    rw [storeStreams, List.getElem?_map, Option.map_eq_some_iff] at hl
    obtain ⟨s', hs', rfl⟩ := hl
    have hmem := List.mem_of_getElem? hs'
    have hgroup := sourceStream_group (storeSources_wf husable hmem) ha
    have hne : s'.group ≠ s.group := by
      intro heq
      apply hj
      have hnodup := (storeSources_collected store filter).nodup
      have hjlt := (List.getElem?_eq_some_iff.mp hs').1
      apply (List.getElem?_inj (by rw [List.length_map]; exact hjlt) hnodup).mp
      rw [List.getElem?_map, List.getElem?_map, hs', hk, Option.map_some, Option.map_some, heq]
    simpa [hgroup] using hne

/-! ## When the indexes do not matter -/

/-- The realtime of a segment does not run backwards. -/
def RealtimeMonotone (f : StoreFile) : Prop :=
  (f.fileEntries.map (·.data.realtimeTs)).Pairwise (· ≤ ·)

instance (f : StoreFile) : Decidable (RealtimeMonotone f) :=
  inferInstanceAs (Decidable (List.Pairwise _ _))

/-- No indexed segment of a selected group has a realtime that runs backwards. -/
def IndexedMonotone (store : Store) (filter : List Bytes) : Prop :=
  ∀ f ∈ store.files, groupAllowed filter f.group → f.file.index.isSome → RealtimeMonotone f

section Iff

variable {store : Store} {filter : List Bytes}

/-- Where realtime does not step back, a segment is delivered alike with and without its index. -/
theorem segmentStream_deleteIndex {f : StoreFile} (deleted : Bytes → UInt64 → Bool)
    (h : f.file.index.isSome → RealtimeMonotone f) :
    segmentStream (deleteIndex deleted f) = segmentStream f := by
  unfold deleteIndex
  split
  · by_cases hsome : f.file.index.isSome
    · have hsorted := (sortedBy_fileEntries_iff f).mpr (h hsome)
      have hself : sortStored f.fileEntries = f.fileEntries := insertionSort_eq_self hsorted
      simp only [segmentStream, hsome, if_true]
      exact hself
    · simp only [segmentStream, hsome]
      rfl
  · rfl

/-- The segments of a source are files of a selected group. -/
theorem mem_collect_of_mem_source {s : IteratorSource} (hs : s ∈ storeSources store filter)
    {path : SegmentPath} (hpath : path ∈ s.segments) :
    path.file ∈ store.files ∧ groupAllowed filter path.file.group := by
  rw [(storeSources_collected _ _).segments_eq s hs] at hpath
  have hmem := (sortPaths_perm _).mem_iff.mp (List.mem_filter.mp hpath).1
  have := List.mem_map_of_mem (f := fun p : SegmentPath => p.file) hmem
  rw [collectSegmentPaths_map_file] at this
  exact List.mem_filter.mp this

/-- Without a clock running backwards the streams stay the same. -/
theorem storeStreams_deleteIndexes (deleted : Bytes → UInt64 → Bool)
    (h : IndexedMonotone store filter) :
    storeStreams (deleteIndexes deleted store) filter = storeStreams store filter := by
  unfold storeStreams
  rw [storeSources_deleteIndexes, List.map_map]
  apply List.map_congr_left
  intro s hs
  unfold Function.comp sourceStream deleteSource
  rw [List.flatMap_map]
  apply List.flatMap_congr
  intro path hpath
  obtain ⟨hfile, hgroup⟩ := mem_collect_of_mem_source hs hpath
  exact segmentStream_deleteIndex deleted (h _ hfile hgroup)

/-- Blocks of the same lengths are determined by their concatenation. -/
theorem eq_of_flatMap_eq {β : Type} {f g : β → List StoredEntry} {l : List β}
    (hlen : ∀ b ∈ l, (f b).length = (g b).length) (h : l.flatMap f = l.flatMap g) :
    ∀ b ∈ l, f b = g b := by
  induction l with
  | nil => intro b hb; cases hb
  | cons a l ih =>
    rw [List.flatMap_cons, List.flatMap_cons] at h
    obtain ⟨ha, hl⟩ := List.append_inj h (hlen a (by simp))
    intro b hb
    rcases List.mem_cons.mp hb with rfl | hb
    · exact ha
    · exact ih (fun b hb => hlen b (by simp [hb])) hl b hb

/-- Equal streams with all indexes and without any mean sorted segments. -/
theorem realtimeMonotone_of_stream_eq {s : IteratorSource}
    (h : sourceStream (deleteSource (fun _ _ => true) s) = sourceStream s) {path : SegmentPath}
    (hpath : path ∈ s.segments) (hsome : path.file.file.index.isSome) :
    RealtimeMonotone path.file := by
  unfold sourceStream deleteSource at h
  rw [List.flatMap_map] at h
  have hlen : ∀ p ∈ s.segments,
      (segmentStream (deletePath (fun _ _ => true) p).file).length =
        (segmentStream p.file).length := by
    intro p _
    rw [(segmentStream_perm _).length_eq, (segmentStream_perm _).length_eq]
    simp [deletePath]
  have heq := eq_of_flatMap_eq hlen h path hpath
  have hdeleted : segmentStream (deletePath (fun _ _ => true) path).file =
      sortStored path.file.fileEntries := rfl
  rw [hdeleted, segmentStream, if_pos hsome] at heq
  rw [RealtimeMonotone, ← sortedBy_fileEntries_iff, ← heq]
  exact sortedBy_insertionSort _

end Iff

/-- **When the indexes do not matter.** Reading from the head returns the same entries in
the same order after the deletion of any index files if and only if the realtime does not
run backwards inside an indexed segment of a selected group.
SOURCE: librecorder.c:1805-1820, 1849-1915 -/
theorem index_deletion_iff (store : Store) (husable : UsableIndexes store) (r : Reader)
    (hunit : r.unitFilter = none) (fault : ScanFault) (fuel : ℕ)
    (hfuel : (selectedEntries store r.groupFilter).length < fuel) :
    (∀ deleted, readFromHead (deleteIndexes deleted store) fault fuel r =
        readFromHead store fault fuel r) ↔
      IndexedMonotone store r.groupFilter := by
  obtain ⟨out, hread, hrun⟩ := readFromHead_mergeRun husable hunit fault fuel hfuel
  constructor
  · intro hsame f hf hgroup hsome
    -- all indexes deleted: the stream of the segment's group is still the same
    have husable' := deleteIndexes_usable (fun _ _ => true) husable
    obtain ⟨out', hread', hrun'⟩ := readFromHead_mergeRun husable' hunit fault fuel
      (by rw [selectedEntries_deleteIndexes]; exact hfuel)
    obtain rfl : out' = out := by
      rw [hsame, hread] at hread'
      exact (Option.some.inj hread').symm
    obtain ⟨path, hpath, rfl⟩ : ∃ path ∈ sortPaths (collectSegmentPaths store r.groupFilter),
        path.file = f := by
      have hmem : f ∈ (collectSegmentPaths store r.groupFilter).map (·.file) := by
        rw [collectSegmentPaths_map_file]
        exact List.mem_filter.mpr ⟨hf, hgroup⟩
      obtain ⟨path, hpath, rfl⟩ := List.mem_map.mp hmem
      exact ⟨path, (sortPaths_perm _).mem_iff.mpr hpath, rfl⟩
    obtain ⟨s, hs, hseg⟩ :=
      List.mem_flatMap.mp ((storeSources_collected _ _).perm.mem_iff.mpr hpath)
    have hs' : deleteSource (fun _ _ => true) s ∈
        storeSources (deleteIndexes (fun _ _ => true) store) r.groupFilter := by
      rw [storeSources_deleteIndexes]
      exact List.mem_map_of_mem hs
    have heq := filter_group_eq husable hrun hs
    have heq' := filter_group_eq husable' hrun' hs'
    exact realtimeMonotone_of_stream_eq (heq'.symm.trans heq) hseg hsome
  · intro hmono deleted
    obtain ⟨out', hread', hrun'⟩ := readFromHead_mergeRun
      (deleteIndexes_usable deleted husable) hunit fault fuel
      (by rw [selectedEntries_deleteIndexes]; exact hfuel)
    rw [storeStreams_deleteIndexes deleted hmono] at hrun'
    rw [hread, hread', hrun'.unique hrun (storeStreams_separated husable _ _)]

/-- A group whose clock stands still and goes on, and one without index. -/
def steadyStore : Store where
  directory := true
  files :=
    [ oneFrameSegment [97] 1 0 [⟨3, 1, 0, none⟩, ⟨3, 2, 0, none⟩] (by decide) true,
      oneFrameSegment [98] 2 0 [⟨4, 3, 0, none⟩, ⟨2, 4, 0, none⟩] (by decide) false ]
  length_lt := length_pair_lt _ _ _

/-- The store meets the condition. -/
theorem steadyStore_indexedMonotone : IndexedMonotone steadyStore [] := by
  intro f hf _ hsome
  rcases List.mem_cons.mp hf with rfl | hf
  · decide
  · rw [List.mem_singleton.mp hf] at hsome
    cases hsome

/-- Its index is usable. -/
theorem steadyStore_usable : UsableIndexes steadyStore := by
  intro f hf
  rcases List.mem_cons.mp hf with rfl | hf
  · exact oneFrameSegment_usable
  · rw [List.mem_singleton.mp hf]
    exact oneFrameSegment_usable

/-- Reading it does not depend on the index. -/
theorem steadyStore_deletion_same :
    IndexedMonotone steadyStore [] ∧
      ∀ deleted, readFromHead (deleteIndexes deleted steadyStore) (fun _ => none) 5 {} =
        readFromHead steadyStore (fun _ => none) 5 {} :=
  ⟨steadyStore_indexedMonotone,
    (index_deletion_iff steadyStore steadyStore_usable {} rfl (fun _ => none) 5
      (by decide)).mpr steadyStore_indexedMonotone⟩

/-- The clock of `mixedStore` runs backwards inside an indexed segment: without the index
its two entries change places, in either order. -/
theorem mixedStore_deletion_changes :
    UsableIndexes mixedStore ∧
      (¬ ∀ deleted,
        readFromHead (deleteIndexes deleted mixedStore) (fun _ => none) 4 { order := .wallclock } =
          readFromHead mixedStore (fun _ => none) 4 { order := .wallclock }) ∧
      ¬ ∀ deleted,
        readFromHead (deleteIndexes deleted mixedStore) (fun _ => none) 4 { order := .recorded } =
          readFromHead mixedStore (fun _ => none) 4 { order := .recorded } := by
  refine ⟨mixedStore_usable, ?_, ?_⟩
  · intro h
    have hdeleted := h fun _ _ => true
    revert hdeleted
    decide +kernel
  · intro h
    have hdeleted := h fun _ _ => true
    revert hdeleted
    decide +kernel

end Recorder.Analysis
