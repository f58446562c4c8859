import Recorder.Analysis.CursorString
import Recorder.Analysis.SourceCursor
import Recorder.Lib.MergeFilter
import Recorder.Model.BatchReader

/-!
# Seeking to a cursor

`rec_player_seek_cursor` opens the segment of the cursor alone. The other groups are opened by
the next move behind the entry, each searched for its place next to it. Before and behind this
move the reader stands for the same place of a cursor over the sorted list (`SeekAt`), and a
move from there leads to the next one (`SoughtAt.next`, `OnCursor.next_follows`,
`OnCursor.previous_follows`, `SoughtAt.previous_follows`).
-/

set_option autoImplicit false

namespace Recorder.Analysis

open Recorder.Model Recorder.Lib

/-! ## The place of an entry among the sources -/

section Place

variable {store : Store} {filter : List Bytes} {order : Order} {e : StoredEntry}

/-- Where the entry of a cursor lies: its source, and its segment in the source. -/
structure CursorPlace (sources : List IteratorSource) (e : StoredEntry) (i : ℕ)
    (s : IteratorSource) (k : ℕ) (path : SegmentPath) : Prop where
  source : sources.findIdx? (·.group == e.group) = some i
  at_source : sources[i]? = some s
  segment : s.segments.findIdx? (·.segmentSeq == e.segmentSeq) = some k
  at_segment : s.segments[k]? = some path
  entry : e ∈ path.file.fileEntries

/-- The first element with a property, in a list that has one. -/
theorem exists_findIdx? {α : Type} {p : α → Bool} {l : List α} (h : ∃ a ∈ l, p a = true) :
    ∃ i a, l.findIdx? p = some i ∧ l[i]? = some a ∧ p a = true := by
  have hsome : (l.findIdx? p).isSome := by
    rw [List.findIdx?_isSome, List.any_eq_true]
    exact h
  obtain ⟨i, hi⟩ := Option.isSome_iff_exists.mp hsome
  obtain ⟨hlt, hp, -⟩ := List.findIdx?_eq_some_iff_getElem.mp hi
  exact ⟨i, l[i], hi, List.getElem?_eq_getElem hlt, hp⟩

/-- In a log directory the source and the segment of an entry are found by the names in its
cursor. -/
theorem exists_cursorPlace (hwf : StoreWf store) (hdir : store.directory = true)
    (he : e ∈ selectedEntries store filter) :
    ∃ i s k path, CursorPlace (storeSources store filter) e i s k path := by
  have hcollected := storeSources_collected store filter
  unfold selectedEntries at he
  obtain ⟨f, hf, hef⟩ := List.mem_flatMap.mp he
  obtain ⟨hfile, hallowed⟩ := List.mem_filter.mp hf
  obtain ⟨hgroup, hseq, -⟩ := mem_fileEntries hef
  have hpath : (⟨f, f.nameSeq⟩ : SegmentPath) ∈ sortPaths (collectSegmentPaths store filter) := by
    apply (sortPaths_perm _).mem_iff.mpr
    unfold collectSegmentPaths
    rw [if_pos hdir]
    exact List.mem_map_of_mem (List.mem_filter.mpr ⟨hfile, hallowed⟩)
  obtain ⟨s0, hs0, hs0group⟩ := List.mem_map.mp (hcollected.mem_group hpath)
  obtain ⟨i, s, hi, hs, hsgroup⟩ :=
    exists_findIdx? (p := fun s : IteratorSource => s.group == e.group)
      ⟨s0, hs0, by rw [beq_iff_eq, hs0group, hgroup]⟩
  rw [beq_iff_eq] at hsgroup
  have hsegments := hcollected.segments_eq s (List.mem_of_getElem? hs)
  have hmem : (⟨f, f.nameSeq⟩ : SegmentPath) ∈ s.segments := by
    rw [hsegments]
    exact List.mem_filter.mpr ⟨hpath, by rw [beq_iff_eq, hsgroup, hgroup]⟩
  have hname : f.nameSeq = e.segmentSeq := by rw [hseq, hwf.headers f hfile]
  obtain ⟨k, path, hk, hat, hpathSeq⟩ :=
    exists_findIdx? (p := fun path : SegmentPath => path.segmentSeq == e.segmentSeq)
      ⟨_, hmem, by rw [beq_iff_eq]; exact hname⟩
  rw [beq_iff_eq] at hpathSeq
  refine ⟨i, s, k, path, hi, hs, hk, hat, ?_⟩
  have hpath' := List.mem_of_getElem? hat
  rw [hsegments] at hpath'
  obtain ⟨hcollect, hpathGroup⟩ := List.mem_filter.mp hpath'
  rw [beq_iff_eq] at hpathGroup
  have hfileEq : path.file = f := by
    apply file_eq_of_name hwf (mem_files_of_mem_sortPaths hcollect) hfile
    · rw [hpathGroup, hsgroup, hgroup]
    · rw [← segmentSeq_of_directory hdir hcollect, hpathSeq, hname]
  rw [hfileEq]
  exact hef

end Place

/-! ## Opening the other groups -/

/-- The cursor in a reader that has its other groups still to open. -/
structure HoldsCursor (r : Reader) (e : StoredEntry) : Prop where
  pending : r.cursorSourcesPending = true
  group : r.cursorGroup = e.group
  segmentSeq : r.cursorSegmentSeq = e.segmentSeq
  frameOffset : r.cursorFrameOffset = e.frameOffset
  frameEntryIndex : r.cursorFrameEntryIndex = e.frameEntryIndex

/-- The searches next to an entry find their place in every selected group. -/
def OpensAt (order : Order) (store : Store) (filter : List Bytes) (e : StoredEntry) : Prop :=
  ∀ s ∈ storeSources store filter, TurnLands order e s.segments

instance (order : Order) (store : Store) (filter : List Bytes) (e : StoredEntry) :
    Decidable (OpensAt order store filter e) :=
  inferInstanceAs (Decidable (∀ s ∈ storeSources store filter, TurnLands order e s.segments))

/-- Whether an entry does not come in front of a key. -/
def notBefore (order : Order) (key e : StoredEntry) : Bool :=
  !(compareIteratorEntries order e key == .lt)

/-- Sources that each have the entries of their stream with a property to deliver. -/
def Places (store : Store) (filter : List Bytes) (p : StoredEntry → Bool)
    (sources : List IteratorSource) : Prop :=
  List.Forall₂ (fun s s' => s ∈ storeSources store filter ∧ Keeps s s' ∧
    Remaining .forward s' ((sourceStream s).filter p)) (storeSources store filter) sources

/-- What the sources deliver that have the entries with a property. -/
def keptOf (store : Store) (filter : List Bytes) (p : StoredEntry → Bool) :
    List (List StoredEntry) :=
  (storeStreams store filter).map fun l => l.filter p

section Places

variable {store : Store} {filter : List Bytes} {order : Order} {e : StoredEntry}
  {p : StoredEntry → Bool} {sources : List IteratorSource}

theorem Places.positioned (h : Places store filter p sources) (husable : UsableIndexes store) :
    Positioned .forward sources (keptOf store filter p) := by
  rw [keptOf, storeStreams, List.map_map]
  unfold Positioned
  rw [List.forall₂_map_right_iff]
  have hpos : List.Forall₂ (fun s s' => SourceWf s' ∧
      Remaining .forward s' ((sourceStream s).filter p)) (storeSources store filter) sources :=
    h.imp fun _ _ hs => ⟨(storeSources_wf husable hs.1).keeps hs.2.1, hs.2.2⟩
  exact hpos.flip

theorem keptOf_sorted (h : Readable order store filter) (p : StoredEntry → Bool) :
    ∀ l ∈ keptOf store filter p, SortedBy (compareDirection order .forward) l := by
  intro l hl
  obtain ⟨l', hl', rfl⟩ := List.mem_map.mp hl
  exact (storeStreams_sorted h l' hl').sublist List.filter_sublist

theorem keptOf_perm (store : Store) (filter : List Bytes) (order : Order) (p : StoredEntry → Bool) :
    (keptOf store filter p).flatten.Perm ((sortedEntries order store filter).filter p) := by
  have h := (Readable.streams_perm order store filter).filter p
  rw [List.filter_flatten] at h
  exact h

/-- **Stepping all sources back** over what they skip delivers what comes in front of the entry.
SOURCE: librecorder.c:2850-2866 -/
theorem Places.stepBack (h : Places store filter p sources) (hread : Readable order store filter)
    (skip : StoredEntry → Bool)
    (hback : ∀ l pre, SortedBy (compareIteratorEntries order) l → l = pre ++ l.filter p →
      pre.reverse.dropWhile skip = (l.filter (beyond order .reverse e)).reverse) :
    ∃ sources', forSources (sourceStepBack none skip) sources = (true, sources') ∧
      Positioned .reverse sources' (turnedStreams store filter order .reverse e) := by
  obtain ⟨sources', hstep, hforall⟩ := forSources_forall₂
    (f := sourceStepBack none skip)
    (Q := fun s s' => SourceWf s' ∧ Remaining .reverse s'
      (inDirection .reverse ((sourceStream s).filter (beyond order .reverse e))))
    h (by
      rintro s s1 ⟨hs, hkeeps, hrem⟩
      have wf := (storeSources_wf hread.usable hs).keeps hkeeps
      obtain ⟨pre, hsplit⟩ := hrem.split
      obtain ⟨s2, heq, hkeeps2, hrem2⟩ := sourceStepBack_remaining wf hrem hsplit skip
      rw [hkeeps.sourceStream_eq] at hsplit
      rw [hback _ pre (hread.sorted s hs) hsplit] at hrem2
      exact ⟨0, s2, heq, le_rfl, wf.keeps hkeeps2, hrem2⟩)
  exact ⟨sources', hstep, positioned_turned hforall⟩

end Places

/-- A reader that has opened the other groups of a cursor, number `i` being its own. -/
def groupsOpened (r : Reader) (sources : List IteratorSource) (i : ℕ) : Reader :=
  { iteratorReset r with sources := sources, currentSource := some i }

section Materialize

variable {store : Store} {filter : List Bytes} {r : Reader} {e : StoredEntry} {i k : ℕ}
  {s : IteratorSource} {path : SegmentPath}

/-- The source of the cursor, on its entry. -/
theorem CursorPlace.seek (h : CursorPlace (storeSources store filter) e i s k path)
    (husable : UsableIndexes store) :
    ∃ s' pre post, sourceSeekCursor none s e.segmentSeq e.frameOffset e.frameEntryIndex =
        (some e.data.realtimeTs, s') ∧ Keeps s s' ∧ SourceAt s' pre (e :: post) ∧
      sourceCurrent s' = some e := by
  have wf := storeSources_wf husable (List.mem_of_getElem? h.at_source)
  obtain ⟨s', pre, post, hseek, hkeeps, hat⟩ :=
    sourceSeekCursor_spec wf h.segment h.at_segment h.entry
  obtain ⟨e', rest, heq, hcurrent⟩ := hat.current
  obtain ⟨rfl, -⟩ := List.cons.inj heq
  exact ⟨s', pre, post, hseek, hkeeps, hat, hcurrent⟩

/-- Searched for what comes behind an entry in receipt order, the sources deliver that.
SOURCE: librecorder.c:2174-2184, 2594-2600 -/
theorem seekRecordedAfter_sources (h : Readable .recorded store filter)
    (hopens : OpensAt .recorded store filter e) {start : List IteratorSource}
    (hstart : List.Forall₂ (fun s s1 => s ∈ storeSources store filter ∧ Keeps s s1)
      (storeSources store filter) start) :
    ∃ sources, forSources (sourceSeekRecordedAfter none .recorded e) start = (true, sources) ∧
      Places store filter (beyond .recorded .forward e) sources := by
  exact forSources_forall₂ hstart (by
      rintro s s1 ⟨hs, hkeeps1⟩
      have wf := (storeSources_wf h.usable hs).keeps hkeeps1
      have hsorted := h.sorted s hs
      obtain ⟨hexact, hland⟩ := hopens s hs
      obtain ⟨s2, heq, hkeeps2, hrem⟩ := sourceSeekRecordedAfter_spec wf
        (by rw [hkeeps1.segments_eq]; exact hexact)
        (by rw [hkeeps1.sourceStream_eq]; exact hsorted)
        (by
          rw [hkeeps1.segments_eq, hkeeps1.sourceStream_eq]
          intro hstale
          obtain ⟨path, hpath, x, hx, hgt⟩ := hland hstale
          exact ⟨x, List.mem_flatMap.mpr ⟨path, hpath,
            (segmentStream_perm path.file).mem_iff.mpr hx⟩, hgt⟩)
      rw [hkeeps1.sourceStream_eq] at hrem
      refine ⟨0, s2, heq, le_rfl, hs, hkeeps1.trans hkeeps2, ?_⟩
      rw [← dropWhile_eq_beyond .recorded hsorted e]
      exact hrem)

/-- The sources of a store as they are collected. -/
theorem storeSources_same (store : Store) (filter : List Bytes) :
    List.Forall₂ (fun s s1 => s ∈ storeSources store filter ∧ Keeps s s1)
      (storeSources store filter) (storeSources store filter) :=
  List.forall₂_same.mpr fun _ hs => ⟨hs, .rfl⟩

/-- **`iterator_materialize_cursor_sources` in receipt order** puts every source behind the
entry.
SOURCE: librecorder.c:2156-2189 -/
theorem materialize_recorded (h : Readable .recorded store filter) (hunit : r.unitFilter = none)
    (horder : r.order = .recorded) (hfilter : r.groupFilter = filter) (hcursor : HoldsCursor r e)
    (hplace : CursorPlace (storeSources store filter) e i s k path)
    (hopens : OpensAt .recorded store filter e) :
    ∃ sources, iteratorMaterializeCursorSources store r = (0, groupsOpened r sources i) ∧
      Places store filter (beyond .recorded .forward e) sources := by
  obtain ⟨s', pre, post, hseek, hkeeps, -, hcurrent⟩ := hplace.seek h.usable
  have hself : (storeSources store filter).set i s = storeSources store filter := by
    obtain ⟨hlt, rfl⟩ := List.getElem?_eq_some_iff.mp hplace.at_source
    exact List.set_getElem_self hlt
  have hstart := forall₂_set (storeSources_same store filter) (b := s) (c := s')
    ⟨List.mem_of_getElem? hplace.at_source, hkeeps⟩ i
  rw [hself] at hstart
  obtain ⟨sources, hopen, hpos⟩ := seekRecordedAfter_sources h hopens hstart
  refine ⟨sources, ?_, hpos⟩
  have hsources : (iteratorCollectSources store r).sources = storeSources store filter := by
    rw [← hfilter]
    rfl
  have hunit' : (iteratorCollectSources store r).unitFilter = none := hunit
  have horder' : (iteratorCollectSources store r).order = .recorded := horder
  unfold iteratorMaterializeCursorSources
  simp only [hcursor.pending, hcursor.group, hcursor.segmentSeq, hcursor.frameOffset,
    hcursor.frameEntryIndex, hsources, hplace.source, hplace.at_source, hunit', hseek, horder',
    hcurrent, hopen, Bool.not_true, Bool.false_eq_true, if_false]
  rw [← horder', ← hunit']
  rfl

/-- A source on or in front of the first entry of its stream that is not less. -/
def Approaches (e : StoredEntry) (s s' : IteratorSource) : Prop :=
  ∃ pre post, sourceStream s = pre ++ post ∧ Remaining .forward s' post ∧
    ∀ x ∈ pre, compareStoredEntries x e = .lt

/-- A search for the time of an entry does not pass entries that are not less. -/
theorem SoughtRealtime.approaches {s1 : IteratorSource} (h : SoughtRealtime e.data.realtimeTs s1)
    (hkeeps : Keeps s s1) : Approaches e s s1 := by
  obtain ⟨pre, post, hsplit, hrem, hpre, -⟩ := h
  rw [hkeeps.sourceStream_eq] at hsplit
  exact ⟨pre, post, hsplit, hrem, fun x hx => compareStoredEntries_of_realtime_lt (hpre x hx)⟩

/-- The loop of `iterator_position_at_cursor` on one source.
SOURCE: librecorder.c:2121-2130 -/
theorem Approaches.skip {s1 : IteratorSource} (h : Approaches e s s1) (wf : SourceWf s1)
    (hsorted : SortedBy compareStoredEntries (sourceStream s)) :
    ∃ s2, sourceAdvanceWhile none .forward (fun x => compareStoredEntries x e == .lt)
        (sourceSize s1) s1 = (true, s2) ∧ Keeps s1 s2 ∧
      Remaining .forward s2 ((sourceStream s).filter (notBefore .wallclock e)) := by
  obtain ⟨pre, post, hsplit, hrem, hpre⟩ := h
  obtain ⟨s2, hloop, hkeeps, hrem2⟩ := sourceAdvanceWhile_spec wf hrem
    fun x => compareStoredEntries x e == .lt
  refine ⟨s2, hloop, hkeeps, ?_⟩
  have hdown : (sourceStream s).Pairwise fun a b => (compareStoredEntries b e == .lt) = true →
      (compareStoredEntries a e == .lt) = true := by
    refine hsorted.imp ?_
    intro a b hab hb
    rw [beq_iff_eq] at hb ⊢
    exact Std.TransCmp.lt_of_isLE_of_lt hab hb
  have hdrop : (sourceStream s).filter (notBefore .wallclock e) =
      post.dropWhile fun x => compareStoredEntries x e == .lt := by
    rw [show (sourceStream s).filter (notBefore .wallclock e) = _ from
      (dropWhile_eq_filter hdown).symm, hsplit]
    exact List.dropWhile_append_of_pos fun x hx => by rw [hpre x hx]; rfl
  rw [hdrop]
  exact hrem2

/-- The entry itself comes first from there on, and behind it what comes behind it. -/
theorem fromEntry_eq_cons {order : Order} {l pre post : List StoredEntry}
    (hsplit : l = pre ++ e :: post) (hstrict : StrictBy (compareIteratorEntries order) l) :
    (∀ x ∈ pre, compareIteratorEntries order x e = .lt) ∧
      l.filter (notBefore order e) = e :: post ∧ l.filter (beyond order .forward e) = post := by
  have hentries : (⟨pre.reverse, some e, post⟩ : ListCursor StoredEntry).entries = l := by
    simp [ListCursor.entries, hsplit]
  have hgt := ListCursor.filter_gt (c := ⟨pre.reverse, some e, post⟩) (x := e)
    (by rw [hentries]; exact hstrict) rfl
  rw [hentries] at hgt
  subst hsplit
  obtain ⟨-, hrest, hcross⟩ := List.pairwise_append.mp hstrict
  obtain ⟨hpost, -⟩ := List.pairwise_cons.mp hrest
  have hpre : ∀ x ∈ pre, compareIteratorEntries order x e = .lt :=
    fun x hx => hcross x hx e List.mem_cons_self
  refine ⟨hpre, ?_, hgt⟩
  have hnone : pre.filter (notBefore order e) = [] := by
    rw [List.filter_eq_nil_iff]
    intro x hx
    simp [notBefore, hpre x hx]
  rw [List.filter_append, hnone, List.nil_append, List.filter_eq_self]
  intro x hx
  rcases List.mem_cons.mp hx with rfl | hx
  · simp [notBefore, Std.ReflCmp.compare_self]
  · simp [notBefore, Std.OrientedCmp.gt_iff_lt.mpr (hpost x hx)]

/-- **`iterator_materialize_cursor_sources` in wallclock order** puts every source in front of
its first entry that is not less, and that of the cursor on its entry.
SOURCE: librecorder.c:2156-2194, 2106-2154 -/
theorem materialize_wallclock (h : Readable .wallclock store filter) (hunit : r.unitFilter = none)
    (horder : r.order = .wallclock) (hfilter : r.groupFilter = filter) (hcursor : HoldsCursor r e)
    (hplace : CursorPlace (storeSources store filter) e i s k path)
    (hopens : OpensAt .wallclock store filter e) :
    ∃ sources rest, iteratorMaterializeCursorSources store r = (0, groupsOpened r sources i) ∧
      Places store filter (notBefore .wallclock e) sources ∧
      (keptOf store filter (notBefore .wallclock e))[i]? = some (e :: rest) := by
  obtain ⟨s', pre, post, hseek, hkeeps, hat, hcurrent⟩ := hplace.seek h.usable
  have hmem := List.mem_of_getElem? hplace.at_source
  have hsplit : sourceStream s = pre ++ e :: post := by
    rw [← hkeeps.sourceStream_eq]
    exact hat.append_eq.symm
  obtain ⟨hpre, hfrom, -⟩ := fromEntry_eq_cons hsplit (h.strict s hmem)
  -- the other sources are searched for the time of the entry
  obtain ⟨others, hothers, hforall⟩ := forSources_forall₂
    (f := sourceSeekRealtime none e.data.realtimeTs)
    (P := fun s s1 => s ∈ storeSources store filter ∧ s1 = s)
    (Q := fun s s1 => s ∈ storeSources store filter ∧ Keeps s s1 ∧ Approaches e s s1)
    (show List.Forall₂ _ ((storeSources store filter).eraseIdx i)
        ((storeSources store filter).eraseIdx i) from
      List.forall₂_same.mpr fun s hs => ⟨List.mem_of_mem_eraseIdx hs, rfl⟩) (by
      rintro s _ ⟨hs, rfl⟩
      obtain ⟨s1, heq, hkeeps1, hsought⟩ := sourceSeekRealtime_spec e.data.realtimeTs
        (storeSources_wf h.usable hs) (hopens _ hs)
      exact ⟨0, s1, heq, le_rfl, hs, hkeeps1, hsought.approaches hkeeps1⟩)
  have hall := forall₂_insertIdx hforall hplace.at_source (c := s')
    ⟨hmem, hkeeps, pre, e :: post, hsplit, hat.remaining, hpre⟩
  -- then all of them skip what is less
  have hskipped : ∃ sources, iteratorSkipWhile { r with unitFilter := none }
      (fun x => compareStoredEntries x e == .lt) .forward (others.insertIdx i s') =
        (true, sources) ∧ Places store filter (notBefore .wallclock e) sources := by
    apply forSources_forall₂ hall
    rintro s s1 ⟨hs, hkeeps1, happroaches⟩
    have wf := (storeSources_wf h.usable hs).keeps hkeeps1
    obtain ⟨s2, hloop, hkeeps2, hrem⟩ := happroaches.skip wf (h.sorted s hs)
    exact ⟨0, s2, by rw [hloop]; rfl, le_rfl, hs, hkeeps1.trans hkeeps2, hrem⟩
  obtain ⟨sources, hskip, hforall'⟩ := hskipped
  unfold iteratorSkipWhile at hskip
  have hstream : (keptOf store filter (notBefore .wallclock e))[i]? = some (e :: post) := by
    rw [keptOf, storeStreams, List.getElem?_map, List.getElem?_map, hplace.at_source]
    exact congrArg some hfrom
  have hlen : i ≤ others.length := by
    have hlt := (List.getElem?_eq_some_iff.mp hplace.at_source).1
    rw [← hforall.length_eq, List.length_eraseIdx_of_lt hlt]
    omega
  have hown : (others.insertIdx i s')[i]? = some s' := by
    rw [List.getElem?_insertIdx_self, if_pos hlen]
  obtain ⟨s2, hs2, -, hrem2⟩ := forall₂_getElem? (Places.positioned hforall' h.usable) hstream
  have hcurrent2 : sourceCurrent s2 = some e := hrem2.current
  refine ⟨sources, post, ?_, hforall', hstream⟩
  have hsources : (iteratorCollectSources store r).sources = storeSources store filter := by
    rw [← hfilter]
    rfl
  have hunit' : (iteratorCollectSources store r).unitFilter = none := hunit
  have horder' : (iteratorCollectSources store r).order = .wallclock := horder
  unfold iteratorMaterializeCursorSources iteratorPositionAtCursor iteratorSkipWhile
  simp only [hcursor.pending, hcursor.group, hcursor.segmentSeq, hcursor.frameOffset,
    hcursor.frameEntryIndex, hsources, hplace.source, hplace.at_source, hunit', hseek, horder',
    List.eraseIdx_set_eq, hothers, hown, Option.bind_some, hcurrent, hskip, hs2, hcurrent2,
    Option.any_some, Std.ReflCmp.compare_self, Bool.not_true, Bool.false_eq_true, if_false]
  rw [← horder', ← hunit']
  rfl

end Materialize

/-! ## The seek -/

/-- The values in the cursor of an entry. -/
def cursorOf (storeId : UInt64) (e : StoredEntry) : Cursor :=
  ⟨storeId, e.group, e.segmentSeq, e.frameOffset, e.frameEntryIndex⟩

/-- A reader that was sought to a cursor and has not moved yet. -/
structure SoughtAt (r : Reader) (e : StoredEntry) : Prop where
  holds : HoldsCursor r e
  pending : r.cursorPending = true
  valid : r.currentValid = false
  entry : r.currentEntry = none
  source : ∃ s, r.sources = [s] ∧ sourceCurrent s = some e
  current : r.currentSource = some 0
  changed : r.orderChanged = false
  follow : r.follow.initialized = false

/-- A reader on the entry of the cursor, the other groups still to open. -/
structure OnCursor (r : Reader) (e : StoredEntry) : Prop where
  holds : HoldsCursor r e
  pending : r.cursorPending = false
  valid : r.currentValid = true
  entry : r.currentEntry = some e
  direction : r.lastDirection = some .forward
  changed : r.orderChanged = false
  follow : r.follow.initialized = false

section Seek

variable {store : Store} {filter : List Bytes} {order : Order} {r : Reader} {e : StoredEntry}
  {f : StoreFile}

/-- The segment of a cursor, alone in a source. -/
def cursorSource (f : StoreFile) (e : StoredEntry) : IteratorSource :=
  { group := e.group, segments := [⟨f, e.segmentSeq⟩] }

theorem cursorPath_eq (storeId : UInt64) (hwf : StoreWf store) (hdir : store.directory = true)
    (hf : f ∈ store.files) (he : e ∈ f.fileEntries) :
    cursorPath store (cursorOf storeId e) = some ⟨f, e.segmentSeq⟩ := by
  obtain ⟨hgroup, hseq, -⟩ := mem_fileEntries he
  have hname : f.nameSeq = e.segmentSeq := by rw [hseq, hwf.headers f hf]
  have hfind : (store.files.find? fun g => g.group == e.group && g.nameSeq == e.segmentSeq) =
      some f := by
    have hsome : (store.files.find? fun g =>
        g.group == e.group && g.nameSeq == e.segmentSeq).isSome := by
      rw [List.find?_isSome]
      exact ⟨f, hf, by simp [hgroup, hname]⟩
    obtain ⟨g, hg⟩ := Option.isSome_iff_exists.mp hsome
    have hgname := List.find?_some hg
    rw [Bool.and_eq_true, beq_iff_eq, beq_iff_eq] at hgname
    rw [hg, file_eq_of_name hwf (List.mem_of_find?_eq_some hg) hf (hgname.1.trans hgroup)
      (hgname.2.trans hname.symm)]
  unfold cursorPath
  rw [if_pos hdir]
  simp only [cursorOf, hfind, Option.map_some]

theorem cursorSource_seek (husable : UsableIndexes store) (hf : f ∈ store.files)
    (he : e ∈ f.fileEntries) :
    ∃ s, sourceSeekCursor none (cursorSource f e) e.segmentSeq e.frameOffset e.frameEntryIndex =
        (some e.data.realtimeTs, s) ∧ sourceCurrent s = some e := by
  have hgroup := (mem_fileEntries he).1
  have wf : SourceWf (cursorSource f e) := by
    constructor
    · intro path hpath
      obtain rfl := List.mem_singleton.mp hpath
      exact hgroup.symm
    · intro path hpath
      obtain rfl := List.mem_singleton.mp hpath
      exact husable f hf
    · exact Nat.one_lt_two_pow (by decide)
  have hat0 : (cursorSource f e).segments[0]? = some ⟨f, e.segmentSeq⟩ := rfl
  obtain ⟨s, pre, post, hseek, -, hat⟩ := sourceSeekCursor_spec wf (by simp [cursorSource]) hat0 he
  obtain ⟨e', rest, heq, hcurrent⟩ := hat.current
  obtain ⟨rfl, -⟩ := List.cons.inj heq
  exact ⟨s, hseek, hcurrent⟩

/-- **A seek to the cursor of a selected group** opens its segment.
SOURCE: librecorder.c:2538-2582, 2613-2626 -/
theorem seekCursorOnce_selected (storeId : UInt64) (hwf : StoreWf store)
    (husable : UsableIndexes store) (hdir : store.directory = true) (hf : f ∈ store.files)
    (he : e ∈ f.fileEntries)
    (hallowed : groupAllowed r.groupFilter e.group = true) :
    ∃ r', recPlayerSeekCursorOnce store (cursorOf storeId e) r = (0, r') ∧ SoughtAt r' e ∧
      r'.unitFilter = r.unitFilter ∧ r'.order = r.order ∧ r'.groupFilter = r.groupFilter := by
  obtain ⟨s, hseek, hcurrent⟩ := cursorSource_seek husable hf he
  have hseek' : sourceSeekCursor none
      { group := (cursorOf storeId e).group, segments := [⟨f, e.segmentSeq⟩] }
      (cursorOf storeId e).segmentSeq (cursorOf storeId e).frameOffset
      (cursorOf storeId e).frameEntryIndex = (some e.data.realtimeTs, s) := hseek
  have hallowed' : groupAllowed (iteratorReset r).groupFilter (cursorOf storeId e).group = true :=
    hallowed
  unfold recPlayerSeekCursorOnce
  simp only [cursorPath_eq storeId hwf hdir hf he, hseek', hallowed', Bool.not_true,
    Bool.false_eq_true, if_false]
  exact ⟨_, rfl, ⟨⟨rfl, rfl, rfl, rfl, rfl⟩, rfl, rfl, rfl, ⟨s, rfl, hcurrent⟩, rfl, rfl, rfl⟩, rfl,
    rfl, rfl⟩

/-- **A seek to the cursor of a group that is filtered out** leaves what comes behind it.
SOURCE: librecorder.c:2583-2612 -/
theorem seekCursorOnce_excluded (storeId : UInt64) (h : Readable order store filter)
    (hunit : r.unitFilter = none) (horder : r.order = order) (hfilter : r.groupFilter = filter)
    (hdir : store.directory = true) (hf : f ∈ store.files) (he : e ∈ f.fileEntries)
    (hexcluded : groupAllowed filter e.group = false) (hopens : OpensAt order store filter e) :
    ∃ sources, recPlayerSeekCursorOnce store (cursorOf storeId e) r =
        (0, { iteratorReset r with
          follow := {}
          sources := sources
          lastDirection := some .forward
          orderChanged := false }) ∧
      Places store filter (beyond order .forward e) sources := by
  obtain ⟨s, hseek, hcurrent⟩ := cursorSource_seek h.usable hf he
  have hseek' : sourceSeekCursor none
      { group := (cursorOf storeId e).group, segments := [⟨f, e.segmentSeq⟩] }
      (cursorOf storeId e).segmentSeq (cursorOf storeId e).frameOffset
      (cursorOf storeId e).frameEntryIndex = (some e.data.realtimeTs, s) := hseek
  have hexcluded' : groupAllowed (iteratorReset r).groupFilter (cursorOf storeId e).group =
      false := by
    rw [← hfilter] at hexcluded
    exact hexcluded
  have honce : recPlayerSeekCursorOnce store (cursorOf storeId e) r =
      seekExcludedCursor store e { iteratorReset r with follow := {} } := by
    unfold recPlayerSeekCursorOnce
    simp only [cursorPath_eq storeId h.wf hdir hf he, hseek', hexcluded', Bool.not_false, if_true,
      hcurrent]
    rfl
  rw [honce]
  cases order with
  | recorded =>
    obtain ⟨sources, hopen, hpos⟩ :=
      seekRecordedAfter_sources h hopens (storeSources_same store filter)
    refine ⟨sources, ?_, hpos⟩
    have horder' : ({ iteratorReset r with follow := {} } : Reader).order = .recorded := horder
    have hsources : forSources
        (sourceSeekRecordedAfter
          (iteratorCollectSources store { iteratorReset r with follow := {} }).unitFilter
          (iteratorCollectSources store { iteratorReset r with follow := {} }).order e)
        (iteratorCollectSources store { iteratorReset r with follow := {} }).sources =
          (true, sources) := by
      rw [← hopen, ← hfilter, ← hunit, ← horder]
      rfl
    unfold seekExcludedCursor
    split
    · simp only [hsources]
      rfl
    · next hother => cases horder'.symm.trans hother
  | wallclock =>
    obtain ⟨sources, hsought, hforall⟩ := iteratorSeekRealtime_sources
      (r := { iteratorReset r with follow := {} }) e.data.realtimeTs h.usable hunit
      (by rw [← hfilter] at hopens; exact hopens)
    have hfilter' : ({ iteratorReset r with follow := {} } : Reader).groupFilter = filter := hfilter
    rw [hfilter'] at hforall
    obtain ⟨sources', hskip, hforall'⟩ := forSources_forall₂
      (f := sourceReposition none .wallclock e .forward)
      (Q := fun s s' => s ∈ storeSources store filter ∧ Keeps s s' ∧ Remaining .forward s'
        ((sourceStream s).filter (beyond .wallclock .forward e)))
      hforall (by
        rintro s s1 ⟨hs, hkeeps, hsought⟩
        have wf := (storeSources_wf h.usable hs).keeps hkeeps
        obtain ⟨s2, heq, hkeeps2, hrem⟩ := sourceReposition_wallclock wf hsought
          (by rw [hkeeps.sourceStream_eq]; exact h.sorted s hs) .forward
        rw [hkeeps.sourceStream_eq] at hrem
        exact ⟨0, s2, heq, le_rfl, hs, hkeeps.trans hkeeps2, hrem⟩)
    refine ⟨sources', ?_, hforall'⟩
    have horder' : ({ iteratorReset r with follow := {} } : Reader).order = .wallclock := horder
    have hskip' : iteratorSkipWhile
        { iteratorReset { iteratorReset r with follow := {} } with
          sources := sources, lastDirection := some .forward }
        (fun x => (compareStoredEntries x e).isLE) .forward sources = (true, sources') := by
      rw [← hskip, ← hunit]
      rfl
    unfold seekExcludedCursor
    split
    · next hother => cases horder'.symm.trans hother
    · simp only [hsought, hskip', ne_eq, not_true_eq_false, if_false]
      rfl

end Seek

/-! ## The place in the list -/

section List

variable {order : Order} {store : Store} {filter : List Bytes} {e : StoredEntry}

/-- In front of the first entry that does not come before a key. -/
def inFrontOf (order : Order) (e : StoredEntry) (l : List StoredEntry) : ListCursor StoredEntry :=
  .past (fun x => compareIteratorEntries order x e == .lt) l

theorem inFrontOf_ahead {l : List StoredEntry} (h : SortedBy (compareIteratorEntries order) l) :
    (inFrontOf order e l).ahead = l.filter (notBefore order e) := by
  apply dropWhile_eq_filter
  refine h.imp ?_
  intro a b hab hb
  rw [beq_iff_eq] at hb ⊢
  exact Std.TransCmp.lt_of_isLE_of_lt hab hb

theorem inFrontOf_behind {l : List StoredEntry} (h : SortedBy (compareIteratorEntries order) l) :
    (inFrontOf order e l).behind = (l.filter (beyond order .reverse e)).reverse := by
  rw [← takeWhile_eq_beyond order h e]
  rfl

/-- An entry of the list comes next. -/
theorem inFrontOf_next {l : List StoredEntry} (h : StrictBy (compareIteratorEntries order) l)
    (he : e ∈ l) : (inFrontOf order e l).ahead = e :: l.filter (beyond order .forward e) := by
  rw [inFrontOf_ahead h.sortedBy]
  obtain ⟨pre, post, hsplit⟩ := List.append_of_mem he
  obtain ⟨-, hfrom, hgt⟩ := fromEntry_eq_cons hsplit h
  rw [hfrom, hgt]

end List

/-! ## Moves behind a seek -/

/-- The place of a cursor that a reader stands for. -/
inductive SeekAt (order : Order) (store : Store) (filter : List Bytes) (r : Reader)
    (c : ListCursor StoredEntry) : Prop
  | settled (h : ReaderAt r c)
  /-- Sought to a cursor, and not moved yet. -/
  | sought (e : StoredEntry) (h : SoughtAt r e) (he : e ∈ selectedEntries store filter)
      (hopens : OpensAt order store filter e)
      (hplace : c = inFrontOf order e (sortedEntries order store filter))
  /-- On the entry of the cursor. -/
  | onCursor (e : StoredEntry) (h : OnCursor r e) (he : e ∈ selectedEntries store filter)
      (hopens : OpensAt order store filter e) (hhere : c.here = some e)
  /-- Off the end, with no direction: the entry of the cursor was the last one. -/
  | ended (hdir : r.lastDirection = none) (hvalid : r.currentValid = false)
      (hpending : r.cursorPending = false) (hsources : r.cursorSourcesPending = false)
      (hfollow : r.follow.initialized = false) (hhere : c.here = none) (hahead : c.ahead = [])

/-- The outcome of a call: what it returns and the place it leaves stand for the cursor. -/
def SeekFollows (order : Order) (store : Store) (filter : List Bytes) (result : Int × Reader)
    (c : ListCursor StoredEntry) : Prop :=
  (result.1, readerCurrentEntry result.2) = (if c.here.isSome then 1 else 0, c.here) ∧
    SeekAt order store filter result.2 c ∧ Serves order store filter result.2

section Moves

variable {order : Order} {store : Store} {filter : List Bytes} {r : Reader} {e : StoredEntry}
  {c : ListCursor StoredEntry}

theorem Follows.seekFollows {result : Int × Reader} (h : Follows order store filter result c) :
    SeekFollows order store filter result c :=
  ⟨h.1.1, .settled h.1.2, h.2⟩

theorem mem_sortedEntries : e ∈ sortedEntries order store filter ↔
    e ∈ selectedEntries store filter :=
  (List.perm_insertionSort _ _).mem_iff

/-- **The first `next`** behind a seek selects the entry of the cursor.
SOURCE: librecorder.c:2786-2790 -/
theorem SoughtAt.next (h : SoughtAt r e) (hserves : Serves order store filter r) :
    ∃ r', recPlayerNext store (fun _ => none) r = (1, r') ∧ OnCursor r' e ∧
      Serves order store filter r' := by
  obtain ⟨s, hsources, hcurrent⟩ := h.source
  have hposition : Model.nextPosition store r =
      (0, { r with cursorPending := false, lastDirection := some .forward }) := by
    simp [Model.nextPosition, h.pending]
  have hpick : iteratorPick { r with cursorPending := false, lastDirection := some .forward }
      .forward = some (0, e) := by
    simp [iteratorPick, hsources, hcurrent, pickLoop]
  refine ⟨setCurrent { r with cursorPending := false, lastDirection := some .forward } .forward 0 e,
    ?_, ⟨?_, rfl, rfl, rfl, rfl, h.changed, h.follow⟩, hserves.unit, hserves.order_eq,
    hserves.filter_eq, hserves.caught⟩
  · simp [recPlayerNext, h.follow, hposition, hpick]
  · exact ⟨h.holds.pending, h.holds.group, h.holds.segmentSeq, h.holds.frameOffset,
      h.holds.frameEntryIndex⟩

/-- The other groups are opened behind the entry.
SOURCE: librecorder.c:2797-2806 -/
theorem OnCursor.position (h : OnCursor r e) (hread : Readable order store filter)
    (hdir : store.directory = true) (hserves : Serves order store filter r)
    (he : e ∈ selectedEntries store filter) (hopens : OpensAt order store filter e) :
    ∃ sources ls i, Model.nextPosition store r = (0, groupsOpened r sources i) ∧
      Positioned .forward sources ls ∧
      (∀ l ∈ ls, SortedBy (compareDirection order .forward) l) ∧
      ls.flatten.Perm ((sortedEntries order store filter).filter (beyond order .forward e)) := by
  obtain ⟨i, s, k, path, hplace⟩ := exists_cursorPlace hread.wf hdir he
  cases horder : order with
  | recorded =>
    subst horder
    obtain ⟨sources, hmaterialize, hplaces⟩ := materialize_recorded hread hserves.unit
      hserves.order_eq hserves.filter_eq h.holds hplace hopens
    refine ⟨sources, _, i, ?_, hplaces.positioned hread.usable, keptOf_sorted hread _,
      keptOf_perm store filter _ _⟩
    have hrecorded : (groupsOpened r sources i).order = .recorded := hserves.order_eq
    simp [Model.nextPosition, h.pending, h.changed, h.holds.pending, h.valid, hmaterialize,
      hrecorded]
  | wallclock =>
    subst horder
    obtain ⟨sources, rest, hmaterialize, hplaces, hi⟩ := materialize_wallclock hread hserves.unit
      hserves.order_eq hserves.filter_eq h.holds hplace hopens
    obtain ⟨sources', hadvance, hpos⟩ := advanceCurrentSource_positioned (i := i)
      (r := groupsOpened r sources i) hserves.unit rfl (hplaces.positioned hread.usable) hi
    have hadvance' : advanceCurrentSource .forward (groupsOpened r sources i) =
        (0, groupsOpened r sources' i) := hadvance
    refine ⟨sources', _, i, ?_, hpos, ?_, ?_⟩
    · have hwallclock : (groupsOpened r sources i).order = .wallclock := hserves.order_eq
      simp [Model.nextPosition, h.pending, h.changed, h.holds.pending, h.valid, hmaterialize,
        hwallclock, hadvance']
    · intro l hl
      rcases List.mem_or_eq_of_mem_set hl with hl | rfl
      · exact keptOf_sorted hread _ l hl
      · exact (List.pairwise_cons.mp (keptOf_sorted hread _ _ (List.mem_of_getElem? hi))).2
    · have hfrom := keptOf_perm store filter .wallclock
        (notBefore .wallclock e)
      rw [← inFrontOf_ahead hread.sortedEntries_strictBy.sortedBy,
        inFrontOf_next hread.sortedEntries_strictBy (mem_sortedEntries.mpr he)] at hfrom
      exact ((flatten_set_perm hi).symm.trans hfrom).cons_inv

/-- **A `next` from the entry of the cursor** goes on behind it.
SOURCE: librecorder.c:2797-2824 -/
theorem OnCursor.next_follows (h : OnCursor r e) (hread : Readable order store filter)
    (hdir : store.directory = true) (hserves : Serves order store filter r)
    (he : e ∈ selectedEntries store filter) (hopens : OpensAt order store filter e)
    (hlist : c.entries = sortedEntries order store filter) (hhere : c.here = some e) :
    SeekFollows order store filter (recPlayerNext store (fun _ => none) r) c.next := by
  have hstrict : StrictBy (compareIteratorEntries order) c.entries := by
    rw [hlist]
    exact hread.sortedEntries_strictBy
  obtain ⟨sources, ls, i, hposition, hpos, hsorted, hperm⟩ :=
    h.position hread hdir hserves he hopens
  rw [← hlist, beyond_forward, ListCursor.filter_gt hstrict hhere] at hperm
  have hserves' : Serves order store filter (groupsOpened r sources i) :=
    ⟨hserves.unit, hserves.order_eq, hserves.filter_eq, hserves.caught⟩
  -- the direction is set by the pick alone
  have hpending : Pending .forward
      { groupsOpened r sources i with lastDirection := some .forward } ls :=
    ⟨hserves.unit, rfl, rfl, rfl, h.changed, .inl ⟨rfl, hpos⟩⟩
  rw [← hserves'.order_eq] at hsorted hstrict
  rcases iteratorPick_remains hpending hpos hsorted hperm (ListCursor.strictBy_ahead hstrict) with
    ⟨hahead, hpick⟩ | ⟨j, x, rest, hahead, hpick, hrem⟩
  · have hpick' : iteratorPick (groupsOpened r sources i) .forward = none := hpick
    have hfollow : (groupsOpened r sources i).follow.initialized = false := h.follow
    have hnext : recPlayerNext store (fun _ => none) r =
        (0, { groupsOpened r sources i with currentEntry := none, currentValid := false }) := by
      simp [recPlayerNext, h.follow, hposition, hpick', hfollow]
    have hhere' : c.next.here = none := by simp [ListCursor.next, hahead]
    rw [hnext]
    refine ⟨by rw [hhere']; rfl, .ended rfl rfl rfl rfl h.follow hhere' ?_, hserves'.unit,
      hserves'.order_eq, hserves'.filter_eq, hserves'.caught⟩
    simp [ListCursor.next, hahead]
  · have hpick' : iteratorPick (groupsOpened r sources i) .forward = some (j, x) := hpick
    have hnext : recPlayerNext store (fun _ => none) r =
        (1, setCurrent (groupsOpened r sources i) .forward j x) := by
      simp [recPlayerNext, h.follow, hposition, hpick']
    rw [hnext]
    refine Follows.seekFollows ⟨Delivered.readerAt_next ?_, hserves'.unit, hserves'.order_eq,
      hserves'.filter_eq, hserves'.caught⟩
    rw [hahead]
    exact ⟨rfl, rfl, rfl, hrem⟩

/-- **A `previous` from the entry of the cursor** turns round.
SOURCE: librecorder.c:2874-2876 -/
theorem OnCursor.previous_follows (h : OnCursor r e) (hread : Readable order store filter)
    (hserves : Serves order store filter r) (hopens : OpensAt order store filter e)
    (hlist : c.entries = sortedEntries order store filter) (hhere : c.here = some e) :
    SeekFollows order store filter (recPlayerPrevious store r) c.previous := by
  have hstrict : StrictBy (compareIteratorEntries order) c.entries := by
    rw [hlist]
    exact hread.sortedEntries_strictBy
  obtain ⟨sources, hturn, hpos⟩ := iteratorRepositionAfterCurrent_spec hread.usable hserves.unit
    h.valid h.entry (by rw [hserves.filter_eq, hserves.order_eq]; exact hread.sorted)
    (by rw [hserves.filter_eq, hserves.order_eq]; exact hopens) .reverse
  rw [hserves.filter_eq, hserves.order_eq] at hpos
  have hposition : previousPosition store r =
      (0, { iteratorReset r with sources := sources, lastDirection := some .reverse }) := by
    simp [previousPosition, h.pending, h.changed, h.direction, h.valid, hturn]
  obtain ⟨hdelivered, hserves'⟩ := recPlayerPrevious_delivered
    { iteratorReset r with sources := sources, lastDirection := some .reverse } sources c.behind
    ⟨hserves.unit, hserves.order_eq, hserves.filter_eq, hserves.caught⟩ hposition
    ⟨hserves.unit, rfl, rfl, rfl, h.changed, .inl ⟨rfl, hpos⟩⟩ hpos
    (turnedStreams_sorted hread .reverse e) (turnedStreams_perm hread hlist hhere .reverse)
    (toCome_strictBy hstrict .reverse)
  exact Follows.seekFollows ⟨hdelivered.readerAt_previous, hserves'⟩

/-- In wallclock order nothing is stepped over: the sources stand where the entries begin that
do not come in front. -/
theorem split_notBefore {l pre : List StoredEntry} (h : SortedBy (compareIteratorEntries order) l)
    (hsplit : l = pre ++ l.filter (notBefore order e)) :
    pre.reverse.dropWhile (fun _ => false) = (l.filter (beyond order .reverse e)).reverse := by
  have htake : l = l.filter (beyond order .reverse e) ++ l.filter (notBefore order e) := by
    rw [← takeWhile_eq_beyond order h e, ← inFrontOf_ahead h]
    exact List.takeWhile_append_dropWhile.symm
  have hpre : pre = l.filter (beyond order .reverse e) :=
    List.append_cancel_right (hsplit.symm.trans htake)
  rw [hpre]
  cases (l.filter (beyond order .reverse e)).reverse <;> rfl

/-- **The cursor branch of `rec_player_previous`** leaves what comes in front of the entry.
SOURCE: librecorder.c:2834-2872 -/
theorem SoughtAt.position (h : SoughtAt r e) (hread : Readable order store filter)
    (hdir : store.directory = true) (hserves : Serves order store filter r)
    (he : e ∈ selectedEntries store filter) (hopens : OpensAt order store filter e) :
    ∃ sources i, previousPosition store r =
        (0, { groupsOpened r sources i with
          lastDirection := some .reverse
          orderChanged := false }) ∧
      Positioned .reverse sources (turnedStreams store filter order .reverse e) := by
  obtain ⟨s0, hsource, hcurrent⟩ := h.source
  obtain ⟨i, s, k, path, hplace⟩ := exists_cursorPlace hread.wf hdir he
  have hkey : r.currentEntry.or (r.currentSource.bind fun i => (r.sources[i]?).bind sourceCurrent) =
      some e := by
    simp [h.entry, h.current, hsource, hcurrent]
  cases horder : order with
  | recorded =>
    subst horder
    obtain ⟨sources, hmaterialize, hplaces⟩ := materialize_recorded hread hserves.unit
      hserves.order_eq hserves.filter_eq h.holds hplace hopens
    obtain ⟨sources', hstep, hpos⟩ := hplaces.stepBack (e := e) hread
      (fun x => (compareRecorded x e).isGE) fun l pre hl hsplit =>
        dropWhile_reverse_eq_beyond .recorded hl hsplit fun x hx =>
          beq_iff_eq.mp (List.mem_filter.mp hx).2
    have hrecorded : (groupsOpened r sources i).order = .recorded := hserves.order_eq
    have hstep' : forSources (sourceStepBack (groupsOpened r sources i).unitFilter fun x =>
        decide ((groupsOpened r sources i).order = .recorded) &&
          (compareIteratorEntries (groupsOpened r sources i).order x e).isGE)
        (groupsOpened r sources i).sources = (true, sources') := by
      rw [hrecorded, show (groupsOpened r sources i).unitFilter = none from hserves.unit]
      exact hstep
    refine ⟨sources', i, ?_, hpos⟩
    unfold previousPosition previousFromCursor
    simp only [h.pending, if_true, hkey, hmaterialize, hstep']
    rfl
  | wallclock =>
    subst horder
    obtain ⟨sources, rest, hmaterialize, hplaces, -⟩ := materialize_wallclock hread hserves.unit
      hserves.order_eq hserves.filter_eq h.holds hplace hopens
    obtain ⟨sources', hstep, hpos⟩ := hplaces.stepBack (e := e) hread (fun _ => false)
      fun l pre hl hsplit => split_notBefore hl hsplit
    have hwallclock : (groupsOpened r sources i).order = .wallclock := hserves.order_eq
    have hstep' : forSources (sourceStepBack (groupsOpened r sources i).unitFilter fun x =>
        decide ((groupsOpened r sources i).order = .recorded) &&
          (compareIteratorEntries (groupsOpened r sources i).order x e).isGE)
        (groupsOpened r sources i).sources = (true, sources') := by
      rw [hwallclock, show (groupsOpened r sources i).unitFilter = none from hserves.unit]
      exact hstep
    refine ⟨sources', i, ?_, hpos⟩
    unfold previousPosition previousFromCursor
    simp only [h.pending, if_true, hkey, hmaterialize, hstep']
    rfl

/-- **A `previous` right behind a seek** gives the entry in front of that of the cursor. -/
theorem SoughtAt.previous_follows (h : SoughtAt r e) (hread : Readable order store filter)
    (hdir : store.directory = true) (hserves : Serves order store filter r)
    (he : e ∈ selectedEntries store filter) (hopens : OpensAt order store filter e)
    (hplace : c = inFrontOf order e (sortedEntries order store filter)) :
    SeekFollows order store filter (recPlayerPrevious store r) c.previous := by
  obtain ⟨sources, i, hposition, hpos⟩ := h.position hread hdir hserves he hopens
  have hstrict := hread.sortedEntries_strictBy
  have hbehind : c.behind =
      ((sortedEntries order store filter).filter (beyond order .reverse e)).reverse := by
    rw [hplace, inFrontOf_behind hstrict.sortedBy]
  have hperm : (turnedStreams store filter order .reverse e).flatten.Perm c.behind := by
    rw [hbehind]
    exact (flatten_map_inDirection_perm .reverse _ _).trans
      (((Readable.streams_perm order store filter).filter _).trans (List.reverse_perm _).symm)
  have hsorted : StrictBy (compareDirection order .reverse) c.behind := by
    apply ListCursor.strictBy_behind
    rw [hplace, inFrontOf, ListCursor.entries_past]
    exact hstrict
  obtain ⟨hdelivered, hserves'⟩ := recPlayerPrevious_delivered
    { groupsOpened r sources i with lastDirection := some .reverse, orderChanged := false } sources
    c.behind ⟨hserves.unit, hserves.order_eq, hserves.filter_eq, hserves.caught⟩ hposition
    ⟨hserves.unit, rfl, rfl, rfl, rfl, .inl ⟨rfl, hpos⟩⟩ hpos
    (turnedStreams_sorted hread .reverse e) hperm hsorted
  exact Follows.seekFollows ⟨hdelivered.readerAt_previous, hserves'⟩

end Moves

end Recorder.Analysis
