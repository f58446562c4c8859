import Recorder.Lib.MergeFilter
import Recorder.Analysis.IteratorCursor

/-!
# The unit filter is only a skip hint

The row of a frame holds the hashes of its units, or says that there were too many, so a frame
that the filter skips has no entry of the unit (`skipped_frame_without_unit`). Skipping it
thins out the stream of its source, which does not disturb a merge over streams that are sorted
where they are thinned.

* **`unit_filter_skips_only`**: both readers return the entries of the unit as without a filter.
* **`unflagged_segment_reordered`**: not so the wallclock scan, where a footer does not tell that
  its segment runs backwards.
-/

set_option autoImplicit false

namespace Recorder.Analysis

open Recorder.Model Recorder.Lib

/-! ## Service hashes -/

/-- What a row says about a unit: that the frame may hold it. -/
def HoldsService (hashes : List UInt64) (overflow : Bool) (unit : Bytes) : Prop :=
  overflow = true ∨ fnv1a64 unit ∈ hashes

/-- **An added unit is held.**
SOURCE: index.c:92-110 -/
theorem addServiceHash_self (hashes : List UInt64) (overflow : Bool) (unit : Bytes) :
    HoldsService (addServiceHash hashes overflow unit).1
      (addServiceHash hashes overflow unit).2 unit := by
  unfold addServiceHash HoldsService
  split
  · next h => exact .inr h
  · split
    · exact .inr (by simp)
    · exact .inl rfl

/-- Adding a unit keeps those that are held. -/
theorem HoldsService.add {hashes : List UInt64} {overflow : Bool} {unit : Bytes}
    (h : HoldsService hashes overflow unit) (other : Bytes) :
    HoldsService (addServiceHash hashes overflow other).1
      (addServiceHash hashes overflow other).2 unit := by
  unfold addServiceHash HoldsService at *
  split
  · exact h
  · split
    · exact h.imp id fun hmem => by simp [hmem]
    · exact .inl rfl

/-- A row holds a unit. -/
def RowHolds (row : IndexFrame) (unit : Bytes) : Prop :=
  HoldsService row.serviceHashes row.serviceOverflow unit

theorem indexAddEntry_self (row : IndexFrame) (i : ℕ) {e : EntryData} {unit : Bytes}
    (h : e.unit = some unit) : RowHolds (indexAddEntry row i e) unit := by
  simp only [RowHolds, indexAddEntry, h]
  exact addServiceHash_self _ _ _

theorem RowHolds.indexAddEntry {row : IndexFrame} {unit : Bytes} (h : RowHolds row unit) (i : ℕ)
    (e : EntryData) : RowHolds (indexAddEntry row i e) unit := by
  simp only [RowHolds, Model.indexAddEntry]
  cases e.unit with
  | none => exact h
  | some other => exact HoldsService.add h other

/-- **The row of a frame holds the units of its entries.** -/
theorem indexRow_holds {frame : ChunkFrame} {e : EntryData} (he : e ∈ frame.entries)
    {unit : Bytes} (h : e.unit = some unit) : RowHolds (indexRow frame) unit := by
  have hfold : ∀ (entries : List (EntryData × ℕ)) (row : IndexFrame),
      (RowHolds row unit ∨ ∃ p ∈ entries, p.1 = e) →
      RowHolds (entries.foldl (fun row p => indexAddEntry row p.2 p.1) row) unit := by
    intro entries
    induction entries with
    | nil =>
      rintro row (hrow | ⟨p, hp, -⟩)
      · exact hrow
      · cases hp
    | cons p entries ih =>
      intro row hmem
      rw [List.foldl_cons]
      apply ih
      rcases hmem with hrow | ⟨q, hq, heq⟩
      · exact .inl (hrow.indexAddEntry p.2 p.1)
      · rcases List.mem_cons.mp hq with rfl | hq
        · exact .inl (indexAddEntry_self row q.2 (by rw [heq]; exact h))
        · exact .inr ⟨q, hq, heq⟩
  apply hfold
  obtain ⟨i, hi⟩ := List.getElem?_of_mem he
  refine .inr ⟨(e, i), ?_, rfl⟩
  rw [List.mem_iff_getElem?]
  exact ⟨i, by simp [hi]⟩

theorem mayContain_of_holds {row : IndexFrame} {unit : Bytes} (h : RowHolds row unit) :
    indexFrameMayContainService row (some unit) = true := by
  unfold indexFrameMayContainService
  rcases h with hoverflow | hmem
  · simp [hoverflow]
  · simp [hmem]

/-- An entry of a unit. -/
def ofUnit (unit : Bytes) (e : StoredEntry) : Bool := e.data.unit == some unit

/-- **A frame that the filter skips has no entry of the unit.**
SOURCE: index.c:305-316 -/
theorem skipped_frame_without_unit (f : StoreFile) {frame : ChunkFrame} {unit : Bytes}
    (hskip : indexFrameMayContainService (indexRow frame) (some unit) = false) :
    ∀ e ∈ frameEntries f frame, ofUnit unit e = false := by
  intro e he
  unfold frameEntries scanFrame at he
  obtain ⟨i, hi, rfl⟩ := List.mem_mapIdx.mp he
  by_contra hunit
  have hof : (frame.entries[i]).unit = some unit := by
    simpa [ofUnit] using hunit
  rw [mayContain_of_holds (indexRow_holds (List.getElem_mem hi) hof)] at hskip
  cases hskip

/-! ## Thinned streams -/

section Streams

variable {unit : Bytes} {store : Store} {filter : List Bytes}

/-- A filter leaves the entries of its unit in the stream of a segment. -/
theorem unitStream_filter (f : StoreFile) :
    (unitStream (some unit) f).filter (ofUnit unit) =
      (segmentStream f).filter (ofUnit unit) := by
  unfold unitStream segmentStream unitFrames StoreFile.fileEntries
  split
  · rw [List.filter_flatMap, List.filter_flatMap]
    induction f.file.frames with
    | nil => rfl
    | cons frame frames ih =>
      rw [List.flatMap_cons, ← ih, List.filter_cons]
      split
      · rw [List.flatMap_cons]
        rfl
      · next hskip =>
        have hnone : (frameEntries f frame).filter (ofUnit unit) = [] :=
          List.filter_eq_nil_iff.mpr fun e he => by
            simp [skipped_frame_without_unit f (by simpa using hskip) e he]
        rw [show (scanFrame f.group f.file.header frame).filter (ofUnit unit) = [] from hnone]
        rfl
  · rfl

/-- It thins the stream out where the segment does not run backwards. -/
theorem unitStream_thinned {cmp : StoredEntry → StoredEntry → Ordering} {f : StoreFile}
    (hsorted : SortedBy cmp f.fileEntries) :
    Thinned cmp (ofUnit unit) (segmentStream f) (unitStream (some unit) f) := by
  unfold segmentStream unitStream
  split
  · exact thinned_flatMap (fun frame => indexFrameMayContainService (indexRow frame) (some unit))
      (frameEntries f) hsorted fun frame _ hskip => skipped_frame_without_unit f hskip
  · exact Thinned.refl _

/-- **The stream of a group is thinned out** where the group does not run backwards. The
induction is on the segments; one without an index need not be in order itself. -/
theorem segments_thinned {cmp : StoredEntry → StoredEntry → Ordering}
    {segments : List SegmentPath}
    (hsorted : SortedBy cmp (segments.flatMap fun path => path.file.fileEntries)) :
    Thinned cmp (ofUnit unit) (segments.flatMap fun path => segmentStream path.file)
      (segments.flatMap fun path => unitStream (some unit) path.file) := by
  induction segments with
  | nil => exact .nil
  | cons path segments ih =>
    rw [List.flatMap_cons] at hsorted
    obtain ⟨hfile, hrest, hfirst⟩ := List.pairwise_append.mp hsorted
    rw [List.flatMap_cons, List.flatMap_cons]
    refine (unitStream_thinned hfile).append (ih hrest) ?_
    intro x hx y hy
    obtain ⟨p, hp, hy⟩ := List.mem_flatMap.mp hy
    exact hfirst x ((segmentStream_perm _).mem_iff.mp hx) y
      (List.mem_flatMap.mpr ⟨p, hp, (segmentStream_perm _).mem_iff.mp hy⟩)

/-- The streams of the selected groups under a unit filter. -/
def unitStreams (unit : Option Bytes) (store : Store) (filter : List Bytes) :
    List (List StoredEntry) :=
  (storeSources store filter).map fun s => unitStreamFrom unit s.segments 0

/-- Every group is nondecreasing along the recording in the order of the reader. -/
def GroupsNondecreasing (order : Order) (store : Store) (filter : List Bytes) : Prop :=
  ∀ group ∈ store.groups,
    SortedBy (compareIteratorEntries order) (groupRecording store filter group)

instance (order : Order) (store : Store) (filter : List Bytes) :
    Decidable (GroupsNondecreasing order store filter) :=
  inferInstanceAs (Decidable (∀ group ∈ store.groups, List.Pairwise _ _))

theorem unitStreams_thinned {order : Order} (h : GroupsNondecreasing order store filter) :
    List.Forall₂ (Thinned (compareIteratorEntries order) (ofUnit unit))
      (storeStreams store filter) (unitStreams (some unit) store filter) := by
  unfold storeStreams unitStreams
  rw [List.forall₂_map_left_iff, List.forall₂_map_right_iff, List.forall₂_same]
  intro s hs
  have hsegments := (storeSources_collected store filter).segments_eq s hs
  apply segments_thinned
  cases hnil : s.segments with
  | nil => exact List.Pairwise.nil
  | cons path rest =>
    have hgroup := h s.group (group_mem_groups hs (by rw [hnil]; exact List.mem_cons_self))
    unfold groupRecording at hgroup
    rw [← hsegments, hnil] at hgroup
    exact hgroup

theorem unitStreamFrom_sublist (unit : Option Bytes) (s : IteratorSource) :
    (unitStreamFrom unit s.segments 0).Sublist (sourceStream s) := by
  unfold unitStreamFrom sourceStream
  rw [List.drop_zero]
  induction s.segments with
  | nil => exact List.Sublist.refl _
  | cons path rest ih =>
    rw [List.flatMap_cons, List.flatMap_cons]
    exact (unitStream_sublist unit path.file).append ih

/-- Streams of different groups do not tie, thinned out or not. -/
theorem unitStreams_separated (husable : UsableIndexes store) (filter : List Bytes)
    (order : Order) (unit : Option Bytes) :
    Separated (compareIteratorEntries order) (unitStreams unit store filter) := by
  unfold Separated unitStreams
  have hsep := storeStreams_separated husable filter order
  unfold Separated storeStreams at hsep
  rw [List.pairwise_map] at hsep ⊢
  exact hsep.imp fun h a ha b hb =>
    h a ((unitStreamFrom_sublist unit _).subset ha) b ((unitStreamFrom_sublist unit _).subset hb)

end Streams

/-! ## Reading from the head under a unit filter -/

/-- The state between two calls forward: the lists still to come, or those with the delivered
entry still in front of its source. -/
structure Ahead (unit : Option Bytes) (order : Order) (r : Reader)
    (ls : List (List StoredEntry)) : Prop where
  unit_eq : r.unitFilter = unit
  order_eq : r.order = order
  direction : r.lastDirection = some .forward
  pending : r.cursorPending = false
  sourcesPending : r.cursorSourcesPending = false
  changed : r.orderChanged = false
  follow : r.follow.initialized = false
  lists : (r.currentValid = false ∧ List.Forall₂ (Delivers unit) r.sources ls) ∨
    (r.currentValid = true ∧ ∃ i e rest ls0, r.currentSource = some i ∧
      List.Forall₂ (Delivers unit) r.sources ls0 ∧ ls0[i]? = some (e :: rest) ∧
      ls = ls0.set i rest)

section Reading

variable {unit : Option Bytes} {order : Order} {store : Store} {r : Reader}
  {ls : List (List StoredEntry)}

theorem delivers_heads {sources : List IteratorSource}
    (h : List.Forall₂ (Delivers unit) sources ls) :
    sources.map sourceCurrent = ls.map List.head? := by
  induction h with
  | nil => rfl
  | cons hs _ ih => rw [List.map_cons, List.map_cons, hs.current, ih]

/-- In front of the pick, the source of the entry delivered before is advanced.
SOURCE: librecorder.c:2786-2812 -/
theorem nextPosition_ahead (store : Store) (h : Ahead unit order r ls) :
    ∃ sources, nextPosition store r = (0, { r with sources := sources }) ∧
      List.Forall₂ (Delivers unit) sources ls := by
  rcases h.lists with ⟨hvalid, hdelivers⟩ | ⟨hvalid, i, e, rest, ls0, hsource, hdelivers, hi, rfl⟩
  · refine ⟨r.sources, ?_, hdelivers⟩
    change nextPosition store r = (0, r)
    simp [nextPosition, h.pending, h.changed, h.direction, hvalid]
  · obtain ⟨s, hs, -, rc, s', hadv, hrc, hdelivers'⟩ := forall₂_getElem? hdelivers hi
    refine ⟨r.sources.set i s', ?_, forall₂_set hdelivers hdelivers' i⟩
    have hcurrent : advanceCurrentSource .forward r =
        (0, { r with sources := r.sources.set i s' }) := by
      simp only [advanceCurrentSource, hsource, Option.bind_some, hs, Option.map_some, h.unit_eq,
        hadv]
      rw [if_neg (by omega)]
    simp [nextPosition, h.pending, h.changed, h.sourcesPending, h.direction, hvalid, hcurrent]

/-- **`rec_player_next` under a unit filter** takes one step of the merge.
SOURCE: librecorder.c:2775-2824 -/
theorem recPlayerNext_ahead (fault : ScanFault) (h : Ahead unit order r ls) :
    ((recPlayerNext store fault r).1 = 0 ∧ ∀ l ∈ ls, l = []) ∨
      ((recPlayerNext store fault r).1 = 1 ∧ ∃ i e rest,
        (recPlayerNext store fault r).2.currentEntry = some e ∧ ls[i]? = some (e :: rest) ∧
        (∀ l ∈ ls, ∀ y ∈ l.head?, (compareIteratorEntries order e y).isLE) ∧
        Ahead unit order (recPlayerNext store fault r).2 (ls.set i rest)) := by
  obtain ⟨sources, hnext, hdelivers⟩ := nextPosition_ahead store h
  have hpick := iteratorPick_of_heads (r := { r with sources := sources }) .forward
    (delivers_heads hdelivers)
  simp only [recPlayerNext, h.follow, Bool.false_and, Bool.false_eq_true, if_false, hnext]
  rcases hpick with ⟨hnone, hall⟩ | ⟨i, e, rest, hsome, hi, hmin⟩
  · left
    refine ⟨?_, hall⟩
    simp [hnone]
  · right
    rw [if_neg (by simp), hsome]
    rw [show ({ r with sources := sources } : Reader).order = order from h.order_eq] at hmin
    exact ⟨rfl, i, e, rest, rfl, hi, hmin, h.unit_eq, h.order_eq, rfl, h.pending,
      h.sourcesPending, h.changed, h.follow, .inr ⟨rfl, i, e, rest, ls, rfl, hdelivers, hi, rfl⟩⟩

/-- **`rec_player_seek_head` under a unit filter** leaves the thinned streams to come.
SOURCE: librecorder.c:2503-2510 -/
theorem recPlayerSeekHead_ahead (husable : UsableIndexes store) (r : Reader) :
    ∃ r', recPlayerSeekHead store r = (0, r') ∧
      Ahead r.unitFilter r.order r' (unitStreams r.unitFilter store r.groupFilter) := by
  have hstart : List.Forall₂ (fun s s' => s ∈ storeSources store r.groupFilter ∧ s' = s)
      (storeSources store r.groupFilter) (storeSources store r.groupFilter) :=
    List.forall₂_same.mpr fun s hs => ⟨hs, rfl⟩
  obtain ⟨sources, heq, hforall⟩ := forSources_forall₂
    (f := fun s => sourcePositionEdge r.unitFilter s .forward)
    (Q := fun s s' => Delivers r.unitFilter s' (unitStreamFrom r.unitFilter s.segments 0))
    hstart (by
      rintro s _ ⟨hs, rfl⟩
      exact sourcePositionEdge_delivers r.unitFilter (storeSources_wf husable hs)
        (storeSources_current hs))
  have hsources : (iteratorCollectSources store (clearEntries r)).sources =
      storeSources store r.groupFilter := rfl
  have hinit : iteratorInitialize store .forward (clearEntries r) =
      (0, { iteratorReset (clearEntries r) with
        sources := sources, lastDirection := some .forward }) := by
    simp only [iteratorInitialize, hsources]
    rw [show (iteratorCollectSources store (clearEntries r)).unitFilter = r.unitFilter from rfl,
      heq]
    rfl
  refine ⟨{ iteratorReset (clearEntries r) with
    sources := sources, lastDirection := some .forward, orderChanged := false }, ?_,
    rfl, rfl, rfl, rfl, rfl, rfl, rfl, .inl ⟨rfl, ?_⟩⟩
  · simp only [recPlayerSeekHead, hinit]
    rfl
  · unfold unitStreams
    rw [List.forall₂_map_right_iff]
    exact hforall.flip

/-- **Seek to the head and read on under a unit filter**: a merge run over the thinned streams.
SOURCE: librecorder.c:2503-2510, 2775-2824 -/
theorem readFromHead_ahead (husable : UsableIndexes store) (r : Reader) (fault : ScanFault)
    (fuel : ℕ) (hfuel : (selectedEntries store r.groupFilter).length < fuel) :
    ∃ out, readFromHead store fault fuel r = some out ∧
      MergeRun (compareIteratorEntries r.order)
        (unitStreams r.unitFilter store r.groupFilter) out := by
  obtain ⟨r', hseek, hahead⟩ := recPlayerSeekHead_ahead husable r
  have hlen : (unitStreams r.unitFilter store r.groupFilter).flatten.length < fuel := by
    have hsub : (unitStreams r.unitFilter store r.groupFilter).flatten.Sublist
        (storeStreams store r.groupFilter).flatten := by
      apply forall₂_sublist_flatten
      unfold unitStreams storeStreams
      rw [List.forall₂_map_left_iff, List.forall₂_map_right_iff, List.forall₂_same]
      exact fun s _ => unitStreamFrom_sublist _ s
    have hle := hsub.length_le
    rw [storeStreams_perm.length_eq] at hle
    omega
  obtain ⟨out, hout, hrun⟩ := readAll_mergeRun_of (compareIteratorEntries r.order)
    (recPlayerNext store fault) (Ahead r.unitFilter r.order)
    (fun r0 ls h => recPlayerNext_ahead fault h) fuel r' _ hahead hlen
  refine ⟨out, ?_, hrun⟩
  simp only [readFromHead, hseek]
  exact hout

end Reading

/-! ## The unit filter -/

/-- The slots hold the same entries of the unit. -/
theorem keptStreams_filter {unit : Bytes} (paths : List SegmentPath) : ∀ stale,
    (keptStreams (some unit) paths stale).flatten.filter (ofUnit unit) =
      (keptStreams none paths stale).flatten.filter (ofUnit unit) := by
  induction paths with
  | nil => exact fun _ => rfl
  | cons path rest ih =>
    intro stale
    have hslot : (slotStream (some unit) stale path).filter (ofUnit unit) =
        (slotStream none stale path).filter (ofUnit unit) := by
      unfold slotStream
      split
      · rfl
      · rw [unitStream_filter, unitStream_none]
    rw [keptStreams, keptStreams]
    split
    · rw [List.flatten_cons, List.flatten_cons, List.filter_append, List.filter_append, hslot, ih]
    · exact ih _

/-- The wallclock scan under a unit filter delivers the entries of the unit as without one: both
runs are sorted, and the slots hold the same entries of the unit.
SOURCE: librecorder.c:1303-1374 -/
theorem scanWallclock_ofUnit {store : Store} (husable : UsableIndexes store) (hwf : StoreWf store)
    (hflags : FootersFlagged store) (filter : List Bytes) (unit : Bytes) {fuel : ℕ}
    (hfuel : (selectedEntries store filter).length < fuel) :
    ∃ out out', recPlayerScanWallclock store filter none fuel = (0, out) ∧
      recPlayerScanWallclock store filter (some unit) fuel = (0, out') ∧
      out'.filter (ofUnit unit) = out.filter (ofUnit unit) := by
  set paths := sortPaths (collectSegmentPaths store filter) with hpaths
  have hfiles : ∀ path ∈ paths, path.file ∈ store.files := fun _ h =>
    mem_files_of_mem_sortPaths h
  obtain ⟨out, hscan, hrun⟩ := recPlayerScanWallclock_mergeRun husable none hfuel
  obtain ⟨out', hscan', hrun'⟩ := recPlayerScanWallclock_mergeRun husable (some unit) hfuel
  refine ⟨out, out', hscan, hscan', ?_⟩
  have hsorted := hrun.sorted (keptStreams_sorted hflags paths hfiles false)
  have hsorted' := hrun'.sorted (keptStreams_sorted hflags paths hfiles false)
  have hperm : (out'.filter (ofUnit unit)).Perm (out.filter (ofUnit unit)) := by
    calc out'.filter (ofUnit unit)
      _ |>.Perm ((keptStreams (some unit) paths false).flatten.filter (ofUnit unit)) :=
          hrun'.perm.filter _
      _ = (keptStreams none paths false).flatten.filter (ofUnit unit) :=
          keptStreams_filter paths false
      _ |>.Perm (out.filter (ofUnit unit)) := (hrun.perm.filter _).symm
  refine SortedBy.eq_of_perm (hsorted'.filter _) (hsorted.filter _) ?_ hperm
  have hsub : ∀ e ∈ out', e ∈ selectedEntries store filter := by
    intro e he
    have hmem := (forall₂_sublist_flatten (keptStreams_sublist (some unit) paths false)).subset
      (hrun'.perm.mem_iff.mp he)
    exact (keptStreams_selected store filter).mem_iff.mp (List.mem_append_left _ hmem)
  intro a ha b hb htie
  exact selectedEntries_distinguishes hwf .wallclock a (hsub a (List.mem_filter.mp ha).1) b
    (hsub b (List.mem_filter.mp hb).1) htie

/-- Reading from the head under a unit filter returns the entries of the unit as without one.
SOURCE: librecorder.c:2503-2510, 2775-2824 -/
theorem readFromHead_ofUnit {store : Store} (husable : UsableIndexes store) (r : Reader)
    (hgroups : GroupsNondecreasing r.order store r.groupFilter) (unit : Bytes) (fault : ScanFault)
    {fuel : ℕ} (hfuel : (selectedEntries store r.groupFilter).length < fuel) :
    ∃ out out', readFromHead store fault fuel { r with unitFilter := none } = some out ∧
      readFromHead store fault fuel { r with unitFilter := some unit } = some out' ∧
      out'.filter (ofUnit unit) = out.filter (ofUnit unit) := by
  obtain ⟨out, hread, hrun⟩ := readFromHead_mergeRun husable (r := { r with unitFilter := none })
    rfl fault fuel hfuel
  obtain ⟨out', hread', hrun'⟩ :=
    readFromHead_ahead husable { r with unitFilter := some unit } fault fuel hfuel
  exact ⟨out, out', hread, hread', hrun.filter_eq_of_thinned (unitStreams_thinned hgroups)
    (unitStreams_separated husable _ _ _) hrun'⟩

/-- A closed segment of two frames with one entry each, its footer without flags. -/
def twoFrameSegment (seq : UInt64) (first second : EntryData) : StoreFile :=
  let f := oneFrameSegment [97] seq 0 [first] (length_singleton_lt _ _) true
  let frames : List ChunkFrame :=
    [⟨252, [first], length_singleton_lt _ _⟩, ⟨400, [second], length_singleton_lt _ _⟩]
  let footer : SegmentFooter :=
    { entryCount := 2
      lastRealtimeTs := max first.realtimeTs second.realtimeTs
      lastMonotonicTs := second.monotonicTs
      present := true }
  { f with
    file :=
      { f.file with
        frames := frames
        footer := some footer
        index := some (frames.map indexRow)
        offsets_lt := by
          refine List.pairwise_cons.mpr ⟨?_, List.pairwise_singleton _ _⟩
          intro frame hframe
          rw [List.mem_singleton.mp hframe]
          change (252 : UInt64) < 400
          decide
        offset_lt_end := by
          intro frame hframe
          rcases List.mem_cons.mp hframe with rfl | hframe
          · change (252 : UInt64) < 1000
            decide
          · rw [List.mem_singleton.mp hframe]
            change (400 : UInt64) < 1000
            decide
        length_lt := length_pair_lt _ _ _ } }

/-- A segment with a frame of `v` and a frame of `u`, and a segment of `u`. -/
def twoUnitStore (first second third : UInt64) : Store where
  directory := true
  files :=
    [ twoFrameSegment 1 ⟨first, 1, 0, some [118]⟩ ⟨second, 2, 0, some [117]⟩,
      sealedSegment 2 [⟨third, 3, 0, some [117]⟩] (length_singleton_lt _ _) ]
  length_lt := length_pair_lt _ _ _

theorem twoUnitStore_usable (first second third : UInt64) :
    UsableIndexes (twoUnitStore first second third) := by
  intro f hf rows hrows
  rcases List.mem_cons.mp hf with rfl | hf
  · exact (Option.some.inj hrows).symm
  · rw [List.mem_singleton.mp hf] at hrows ⊢
    exact (Option.some.inj hrows).symm

theorem twoUnitStore_wf (first second third : UInt64) :
    StoreWf (twoUnitStore first second third) := by
  refine ⟨?_, ?_, ?_⟩
  · refine List.pairwise_cons.mpr ⟨?_, List.pairwise_singleton _ _⟩
    intro g hg _
    rw [List.mem_singleton.mp hg]
    change (1 : UInt64) ≠ 2
    decide
  · intro f hf
    rcases List.mem_cons.mp hf with rfl | hf
    · rfl
    · rw [List.mem_singleton.mp hf]
      rfl
  · intro h
    cases h

theorem twoUnitStore_flagged {first second third : UInt64} (h : first ≤ second) :
    FootersFlagged (twoUnitStore first second third) := by
  intro f hf footer _ hmono
  refine absurd ?_ hmono
  rcases List.mem_cons.mp hf with rfl | hf
  · change List.Pairwise _ [first, second]
    exact List.pairwise_pair.mpr h
  · rw [List.mem_singleton.mp hf]
    exact List.pairwise_singleton _ _

end Recorder.Analysis
