import Recorder.Analysis.FollowScan
import Recorder.Analysis.IteratorTurn

/-!
# The iterator as a cursor over a list

Between two calls a reader is in one of five situations (`ReaderAt`), each of which stands
for a place of a cursor over the sorted list of the stored entries. A `next` or `previous`
delivers the neighbour of that place and ends in a situation that stands for the new place
(`ReaderAt.next`, `ReaderAt.previous`), provided that the searches of a turn find their
place and that a reader without a current entry is asked for the direction it was left in.

**Main result**: `list_cursor_refined`.
-/

set_option autoImplicit false

namespace Recorder.Analysis

open Recorder.Model Recorder.Lib

/-! ## Groups along the recording -/

/-- The entries of a group along the recording: its segments by their numbers, each in file
order. -/
def groupRecording (store : Store) (filter : List Bytes) (group : Bytes) : List StoredEntry :=
  ((sortPaths (collectSegmentPaths store filter)).filter (·.file.group == group)).flatMap
    (·.file.fileEntries)

/-- Whether the key of an order does not decrease from one entry to another: the realtime, or
the boot, the monotonic time and the tie order. -/
def keyLE : Order → StoredEntry → StoredEntry → Bool
  | .wallclock, a, b => a.data.realtimeTs ≤ b.data.realtimeTs
  | .recorded, a, b =>
    (compareLex (compareOn (·.bootSeq)) (compareLex (compareOn (·.data.monotonicTs))
      (compareOn (·.data.monotonicTieOrder))) a b).isLE

/-- Every group is nondecreasing along the recording in the key of an order. -/
def KeyNondecreasing (order : Order) (store : Store) (filter : List Bytes) : Prop :=
  ∀ group ∈ store.groups, (groupRecording store filter group).Pairwise fun a b => keyLE order a b

instance (order : Order) (store : Store) (filter : List Bytes) :
    Decidable (KeyNondecreasing order store filter) :=
  inferInstanceAs (Decidable (∀ group ∈ store.groups, List.Pairwise _ _))

/-- What the order of the reader needs besides its key. In wallclock order entries of a group
with the same time come in the order of their boots. In receipt order a segment without
index, which is read in wallclock order, has a realtime that does not run backwards. -/
def StreamsKept (order : Order) (store : Store) (filter : List Bytes) : Prop :=
  match order with
  | .wallclock => ∀ group ∈ store.groups, (groupRecording store filter group).Pairwise fun a b =>
      a.data.realtimeTs = b.data.realtimeTs → a.bootSeq ≤ b.bootSeq
  | .recorded => ∀ f ∈ store.files, groupAllowed filter f.group → f.file.index = none →
      RealtimeMonotone f

instance (order : Order) (store : Store) (filter : List Bytes) :
    Decidable (StreamsKept order store filter) :=
  match order with
  | .wallclock => inferInstanceAs (Decidable (∀ group ∈ store.groups, List.Pairwise _ _))
  | .recorded => inferInstanceAs (Decidable (∀ f ∈ store.files, _ → _ → RealtimeMonotone f))

section Recording

variable {store : Store} {filter : List Bytes} {order : Order}

/-- The segments of a group have growing numbers in their headers. -/
theorem groupPaths_seq_lt (hwf : StoreWf store) (group : Bytes) :
    ((sortPaths (collectSegmentPaths store filter)).filter (·.file.group == group)).Pairwise
      fun p q => p.file.group = q.file.group ∧
        p.file.file.header.segmentSeq < q.file.file.header.segmentSeq := by
  cases hdir : store.directory with
  | true =>
    have hall : PathsInOrder (sortPaths (collectSegmentPaths store filter)) :=
      sortPaths_all_inOrder hwf hdir
    have hpair := List.Pairwise.filter (fun p : SegmentPath => p.file.group == group) hall
    refine hpair.imp_of_mem ?_
    intro p q hp hq hlt
    obtain ⟨hpmem, hpg⟩ := List.mem_filter.mp hp
    obtain ⟨hqmem, hqg⟩ := List.mem_filter.mp hq
    rw [beq_iff_eq] at hpg hqg
    have hgroup : p.file.group = q.file.group := hpg.trans hqg.symm
    refine ⟨hgroup, ?_⟩
    rw [hwf.headers _ (mem_files_of_mem_sortPaths hpmem),
      hwf.headers _ (mem_files_of_mem_sortPaths hqmem),
      ← segmentSeq_of_directory hdir hpmem, ← segmentSeq_of_directory hdir hqmem]
    exact hlt hgroup
  | false =>
    -- a single file has no second segment
    have hlen : ((sortPaths (collectSegmentPaths store filter)).filter
        (·.file.group == group)).length ≤ 1 :=
      (List.length_filter_le _ _).trans (sortPaths_length_le.trans (hwf.single hdir))
    exact pairwise_of_length_le_one hlen

/-- Locations grow along the recording of a group. -/
theorem groupRecording_location_lt (hwf : StoreWf store) (filter : List Bytes) (group : Bytes) :
    (groupRecording store filter group).Pairwise fun a b => compareLocation a b = .lt := by
  unfold groupRecording
  rw [List.pairwise_flatMap]
  refine ⟨fun p _ => (fileEntries_pairwise p.file).imp FollowsInFile.location_lt, ?_⟩
  refine (groupPaths_seq_lt hwf group).imp ?_
  rintro p q ⟨hgroup, hlt⟩ a ha b hb
  obtain ⟨hga, hsa, -, -⟩ := mem_fileEntries ha
  obtain ⟨hgb, hsb, -, -⟩ := mem_fileEntries hb
  simp only [compareLocation, compareLex, compareOn, Ordering.then_eq_lt, Std.compare_eq_lt,
    Std.LawfulEqCmp.compare_eq_iff_eq]
  refine .inr ⟨by rw [hga, hgb, hgroup], .inl ?_⟩
  rw [hsa, hsb]
  exact hlt

/-- The key and the location decide the comparison. -/
theorem compareIteratorEntries_lt {a b : StoredEntry} (hkey : keyLE order a b)
    (hboot : order = .wallclock → a.data.realtimeTs = b.data.realtimeTs → a.bootSeq ≤ b.bootSeq)
    (hloc : compareLocation a b = .lt) : compareIteratorEntries order a b = .lt := by
  cases order with
  | wallclock =>
    simp only [keyLE, decide_eq_true_eq] at hkey
    simp only [compareIteratorEntries, compareStoredEntries, compareLex, compareOn,
      Ordering.then_eq_lt, Std.compare_eq_lt, Std.LawfulEqCmp.compare_eq_iff_eq, hloc]
    by_cases heq : a.data.realtimeTs = b.data.realtimeTs
    · right
      refine ⟨heq, ?_⟩
      by_cases hb : a.bootSeq = b.bootSeq
      · exact .inr ⟨hb, trivial⟩
      · exact .inl (UInt32.lt_of_le_of_ne (hboot rfl heq) hb)
    · exact .inl (UInt64.lt_of_le_of_ne hkey heq)
  | recorded =>
    simp only [keyLE, compareLex] at hkey
    simp only [compareIteratorEntries, compareRecorded, compareLex, hloc]
    cases h1 : compareOn (fun e : StoredEntry => e.bootSeq) a b <;>
      cases h2 : compareOn (fun e : StoredEntry => e.data.monotonicTs) a b <;>
        cases h3 : compareOn (fun e : StoredEntry => e.data.monotonicTieOrder) a b <;>
          simp [h1, h2, h3] at hkey ⊢

/-- A group of a path is one of the store. -/
theorem group_mem_groups {s : IteratorSource} (hs : s ∈ storeSources store filter)
    {path : SegmentPath} (hpath : path ∈ s.segments) : s.group ∈ store.groups := by
  obtain ⟨hfile, -⟩ := mem_collect_of_mem_source hs hpath
  rw [(storeSources_collected _ _).segments_eq s hs] at hpath
  have hgroup := (List.mem_filter.mp hpath).2
  rw [beq_iff_eq] at hgroup
  rw [← hgroup]
  exact List.mem_eraseDups.mpr (List.mem_map_of_mem hfile)

/-- **Streams in the order of the reader**: under the key and what the order needs besides,
every stream is the recording of its group and strictly sorted. -/
theorem sourceStream_strictBy (hwf : StoreWf store) (hkey : KeyNondecreasing order store filter)
    (hkept : StreamsKept order store filter) {s : IteratorSource}
    (hs : s ∈ storeSources store filter) :
    StrictBy (compareIteratorEntries order) (sourceStream s) := by
  have hsegments := (storeSources_collected store filter).segments_eq s hs
  by_cases hnil : s.segments = []
  · rw [sourceStream, hnil, List.flatMap_nil]
    exact List.Pairwise.nil
  obtain ⟨first, hfirst⟩ := List.exists_mem_of_ne_nil _ hnil
  have hmem := group_mem_groups hs hfirst
  have hstrict : StrictBy (compareIteratorEntries order) (groupRecording store filter s.group) := by
    have hloc := groupRecording_location_lt hwf filter s.group
    cases order with
    | wallclock =>
      refine (((hkey s.group hmem).and (hkept s.group hmem)).and hloc).imp ?_
      rintro a b ⟨⟨hk, hb⟩, hl⟩
      exact compareIteratorEntries_lt hk (fun _ => hb) hl
    | recorded =>
      refine ((hkey s.group hmem).and hloc).imp ?_
      rintro a b ⟨hk, hl⟩
      exact compareIteratorEntries_lt hk (fun h => by cases h) hl
  have hstream : sourceStream s = groupRecording store filter s.group := by
    unfold sourceStream groupRecording
    rw [← hsegments]
    apply List.flatMap_congr
    intro path hpath
    cases hindex : path.file.file.index with
    | some rows => simp [segmentStream, hindex]
    | none =>
      rw [segmentStream_of_none hindex]
      obtain ⟨hfile, hgroup⟩ := mem_collect_of_mem_source hs hpath
      have hmono : RealtimeMonotone path.file := by
        cases order with
        | wallclock =>
          rw [hsegments] at hpath
          have hinside := (List.pairwise_flatMap.mp (hkey s.group hmem)).1 path hpath
          rw [RealtimeMonotone, List.pairwise_map]
          exact hinside.imp fun h => by simpa [keyLE] using h
        | recorded => exact hkept _ hfile hgroup hindex
      exact insertionSort_eq_self ((sortedBy_fileEntries_iff path.file).mpr hmono)
  rw [hstream]
  exact hstrict

end Recording

/-! ## The sorted list -/

/-- The stored entries of the selected groups, sorted by the comparison of the reader. -/
def sortedEntries (order : Order) (store : Store) (filter : List Bytes) : List StoredEntry :=
  (selectedEntries store filter).insertionSort fun a b => (compareIteratorEntries order a b).isLE

/-- A store whose streams are in the order of the reader. -/
structure Readable (order : Order) (store : Store) (filter : List Bytes) : Prop where
  wf : StoreWf store
  usable : UsableIndexes store
  strict : ∀ s ∈ storeSources store filter,
    StrictBy (compareIteratorEntries order) (sourceStream s)

namespace Readable

variable {order : Order} {store : Store} {filter : List Bytes}

theorem sorted (h : Readable order store filter) :
    ∀ s ∈ storeSources store filter, SortedBy (compareIteratorEntries order) (sourceStream s) :=
  fun s hs => (h.strict s hs).sortedBy

theorem streams_perm (order : Order) (store : Store) (filter : List Bytes) :
    (storeStreams store filter).flatten.Perm (sortedEntries order store filter) :=
  storeStreams_perm.trans (List.perm_insertionSort _ _).symm

/-- **No two stored entries tie.** -/
theorem sortedEntries_strictBy (h : Readable order store filter) :
    StrictBy (compareIteratorEntries order) (sortedEntries order store filter) := by
  apply SortedBy.strictBy (sortedBy_insertionSort _)
  have hsymm : ∀ {a b : StoredEntry}, compareIteratorEntries order a b ≠ .eq →
      compareIteratorEntries order b a ≠ .eq :=
    fun hne heq => hne (Std.OrientedCmp.eq_comm.mp heq)
  refine ((streams_perm order store filter).pairwise_iff hsymm).mp ?_
  rw [List.pairwise_flatten]
  constructor
  · intro l hl
    obtain ⟨s, hs, rfl⟩ := List.mem_map.mp hl
    exact (h.strict s hs).imp fun hlt heq => by rw [hlt] at heq; cases heq
  · exact storeStreams_separated h.usable filter order

end Readable

/-- What comes in a direction from a cursor on. -/
def toCome (dir : Direction) (c : ListCursor StoredEntry) : List StoredEntry :=
  match dir with
  | .forward => c.ahead
  | .reverse => c.behind

section ToCome

variable {order : Order} {store : Store} {filter : List Bytes} {dir : Direction}
  {c : ListCursor StoredEntry}

theorem toCome_strictBy (h : StrictBy (compareIteratorEntries order) c.entries)
    (dir : Direction) : StrictBy (compareDirection order dir) (toCome dir c) := by
  cases dir with
  | forward => exact ListCursor.strictBy_ahead h
  | reverse => exact ListCursor.strictBy_behind h

theorem inDirection_perm (dir : Direction) (l : List StoredEntry) : (inDirection dir l).Perm l := by
  cases dir with
  | forward => exact List.Perm.refl l
  | reverse => exact List.reverse_perm l

theorem flatten_map_inDirection_perm (dir : Direction) (p : StoredEntry → Bool)
    (ls : List (List StoredEntry)) :
    (ls.map fun l => inDirection dir (l.filter p)).flatten.Perm (ls.flatten.filter p) := by
  induction ls with
  | nil => exact List.Perm.refl _
  | cons l ls ih =>
    rw [List.map_cons, List.flatten_cons, List.flatten_cons, List.filter_append]
    exact (inDirection_perm dir _).append ih

theorem sortedBy_inDirection {l : List StoredEntry}
    (h : SortedBy (compareIteratorEntries order) l) (dir : Direction) :
    SortedBy (compareDirection order dir) (inDirection dir l) := by
  cases dir with
  | forward => exact h
  | reverse => exact List.pairwise_reverse.mpr h

/-- **After a turn** the streams deliver what lies beyond the current entry. -/
theorem turnedStreams_perm (h : Readable order store filter)
    (hlist : c.entries = sortedEntries order store filter) {e : StoredEntry}
    (hhere : c.here = some e) (dir : Direction) :
    (turnedStreams store filter order dir e).flatten.Perm (toCome dir c) := by
  have hstrict : StrictBy (compareIteratorEntries order) c.entries := by
    rw [hlist]
    exact h.sortedEntries_strictBy
  refine (flatten_map_inDirection_perm dir _ _).trans ?_
  refine ((Readable.streams_perm order store filter).filter _).trans ?_
  rw [← hlist]
  cases dir with
  | forward =>
    rw [beyond_forward, ListCursor.filter_gt hstrict hhere]
    exact List.Perm.refl _
  | reverse =>
    rw [beyond_reverse, ListCursor.filter_lt hstrict hhere]
    exact List.reverse_perm _

theorem turnedStreams_sorted (h : Readable order store filter) (dir : Direction)
    (key : StoredEntry) :
    ∀ l ∈ turnedStreams store filter order dir key, SortedBy (compareDirection order dir) l := by
  intro l hl
  obtain ⟨l', hl', rfl⟩ := List.mem_map.mp hl
  obtain ⟨s, hs, rfl⟩ := List.mem_map.mp hl'
  exact sortedBy_inDirection ((h.sorted s hs).sublist List.filter_sublist) dir

end ToCome

/-! ## What a reader still delivers -/

/-- A list that a reader delivers in a direction, entry by entry. -/
def Remains (dir : Direction) (r : Reader) (todo : List StoredEntry) : Prop :=
  ∃ ls, Pending dir r ls ∧ (∀ l ∈ ls, SortedBy (compareDirection r.order dir) l) ∧
    ls.flatten.Perm todo

/-- What no call changes: the order and the filter, and that a reader that follows has nothing
behind its marks. -/
structure Serves (order : Order) (store : Store) (filter : List Bytes) (r : Reader) : Prop where
  unit : r.unitFilter = none
  order_eq : r.order = order
  filter_eq : r.groupFilter = filter
  caught : r.follow.initialized = true →
    CaughtUp store filter r.follow ∧ r.current = some 0 ∧ r.entries = []

/-- The outcome of a call that delivers the first entry of a list, or reaches its end. -/
def Delivered (dir : Direction) (result : Int × Reader) : List StoredEntry → Prop
  | [] => result.1 = 0 ∧ result.2.currentValid = false ∧ Remains dir result.2 []
  | e :: rest => result.1 = 1 ∧ result.2.currentValid = true ∧
      result.2.currentEntry = some e ∧ Remains dir result.2 rest

section Deliver

variable {order : Order} {store : Store} {filter : List Bytes} {dir : Direction} {r : Reader}
  {ls : List (List StoredEntry)} {todo : List StoredEntry} {sources : List IteratorSource}

/-- **A pick from sorted lists** makes the first entry of what they hold current.
SOURCE: librecorder.c:2246-2259 -/
theorem iteratorPick_remains (h : Pending dir r ls) (hpos : Positioned dir sources ls)
    (hsorted : ∀ l ∈ ls, SortedBy (compareDirection r.order dir) l) (hperm : ls.flatten.Perm todo)
    (hstrict : StrictBy (compareDirection r.order dir) todo) :
    (todo = [] ∧ iteratorPick { r with sources := sources } dir = none) ∨
      ∃ i e rest, todo = e :: rest ∧
        iteratorPick { r with sources := sources } dir = some (i, e) ∧
        Remains dir (setCurrent { r with sources := sources } dir i e) rest := by
  rcases iteratorPick_spec (r := { r with sources := sources }) hpos with
    ⟨hnone, hall⟩ | ⟨i, e, rest, hsome, hi, hmin⟩
  · left
    refine ⟨?_, hnone⟩
    rw [List.flatten_eq_nil_iff.mpr hall] at hperm
    exact hperm.symm.eq_nil
  · right
    obtain ⟨todo', rfl, hperm'⟩ := eq_cons_of_least hsorted hperm hstrict hi hmin
    refine ⟨i, e, todo', rfl, hsome, ls.set i rest, setCurrent_pending h hpos hi, ?_, hperm'⟩
    intro l hl
    rcases List.mem_or_eq_of_mem_set hl with hl | rfl
    · exact hsorted l hl
    · exact (List.pairwise_cons.mp (hsorted _ (List.mem_of_getElem? hi))).2

/-- A reader without a current entry whose sources are used up. -/
theorem remains_nil (h : Pending dir r ls) (hpos : Positioned dir sources ls)
    (hperm : ls.flatten.Perm []) :
    Remains dir { r with sources := sources, currentEntry := none, currentValid := false } [] := by
  refine ⟨ls, ⟨h.unit, h.direction, h.pending, h.sourcesPending, h.changed, .inl ⟨rfl, hpos⟩⟩, ?_,
    hperm⟩
  intro l hl
  rw [List.flatten_eq_nil_iff.mp hperm.eq_nil l hl]
  exact List.Pairwise.nil

/-- A follow scan of a reader with nothing behind its marks returns 0.
SOURCE: librecorder.c:2759-2773 -/
theorem iteratorNextFollowEntry_caughtUp (h : CaughtUp store r.groupFilter r.follow)
    (hcurrent : r.current = some 0) (hentries : r.entries = []) :
    ∃ st, iteratorNextFollowEntry store (fun _ => none) r = (0, { r with follow := st }) ∧
      CaughtUp store r.groupFilter st := by
  obtain ⟨st, hscan, hst⟩ := scanFollow_caughtUp h 0
  refine ⟨{ st with pending := false }, ?_, hst.initialized, hst.topology, hst.mark⟩
  simp [iteratorNextFollowEntry, appendPendingEntries, hcurrent, hentries, hscan]

/-- `Remains` does not look at the follow state. -/
theorem Remains.follow (h : Remains dir r todo) (st : FollowState) :
    Remains dir { r with follow := st } todo := by
  obtain ⟨ls, hp, hsorted, hperm⟩ := h
  exact ⟨ls, ⟨hp.unit, hp.direction, hp.pending, hp.sourcesPending, hp.changed, hp.lists⟩, hsorted,
    hperm⟩

/-- **`rec_player_next`** behind its positioning.
SOURCE: librecorder.c:2813-2824 -/
theorem recPlayerNext_delivered (r1 : Reader) (sources : List IteratorSource)
    (todo : List StoredEntry) (hserves : Serves order store filter r1)
    (hdirect : (r.follow.initialized && r.current.any fun i =>
      decide (i < r.entries.length) || !r.currentValid || r.currentSource.isNone) = false)
    (hposition : nextPosition store r = (0, { r1 with sources := sources }))
    (h : Pending .forward r1 ls) (hpos : Positioned .forward sources ls)
    (hsorted : ∀ l ∈ ls, SortedBy (compareDirection order .forward) l)
    (hperm : ls.flatten.Perm todo) (hstrict : StrictBy (compareDirection order .forward) todo) :
    Delivered .forward (recPlayerNext store (fun _ => none) r) todo ∧
      Serves order store filter (recPlayerNext store (fun _ => none) r).2 := by
  rw [← hserves.order_eq] at hsorted hstrict
  rcases iteratorPick_remains h hpos hsorted hperm hstrict with
    ⟨rfl, hpick⟩ | ⟨i, e, rest, rfl, hpick, hrem⟩
  · set r2 : Reader :=
      { r1 with sources := sources, currentEntry := none, currentValid := false } with hr2
    have hrem := remains_nil h hpos hperm
    by_cases hinit : r1.follow.initialized = true
    · -- a reader that follows looks for new entries and finds none
      obtain ⟨hcaught, hcurrent, hentries⟩ := hserves.caught hinit
      rw [← hserves.filter_eq] at hcaught
      obtain ⟨st, hnext, hst⟩ :=
        iteratorNextFollowEntry_caughtUp (r := r2) hcaught hcurrent hentries
      have heq : recPlayerNext store (fun _ => none) r = (0, { r2 with follow := st }) := by
        rw [← hnext]
        simp [recPlayerNext, hdirect, hposition, hpick, hinit, hr2]
      rw [heq]
      refine ⟨⟨rfl, rfl, hrem.follow st⟩, hserves.unit, hserves.order_eq, hserves.filter_eq, ?_⟩
      intro _
      rw [← hserves.filter_eq]
      exact ⟨hst, hcurrent, hentries⟩
    · have heq : recPlayerNext store (fun _ => none) r = (0, r2) := by
        simp [recPlayerNext, hdirect, hposition, hpick, hinit, hr2]
      rw [heq]
      exact ⟨⟨rfl, rfl, hrem⟩, hserves.unit, hserves.order_eq, hserves.filter_eq, hserves.caught⟩
  · have heq : recPlayerNext store (fun _ => none) r =
        (1, setCurrent { r1 with sources := sources } .forward i e) := by
      simp [recPlayerNext, hdirect, hposition, hpick]
    rw [heq]
    exact ⟨⟨rfl, rfl, rfl, hrem⟩, hserves.unit, hserves.order_eq, hserves.filter_eq,
      hserves.caught⟩

/-- **`rec_player_previous`** behind its positioning.
SOURCE: librecorder.c:2886-2896 -/
theorem recPlayerPrevious_delivered (r1 : Reader) (sources : List IteratorSource)
    (todo : List StoredEntry) (hserves : Serves order store filter r1)
    (hposition : previousPosition store r = (0, { r1 with sources := sources }))
    (h : Pending .reverse r1 ls) (hpos : Positioned .reverse sources ls)
    (hsorted : ∀ l ∈ ls, SortedBy (compareDirection order .reverse) l)
    (hperm : ls.flatten.Perm todo) (hstrict : StrictBy (compareDirection order .reverse) todo) :
    Delivered .reverse (recPlayerPrevious store r) todo ∧
      Serves order store filter (recPlayerPrevious store r).2 := by
  rw [← hserves.order_eq] at hsorted hstrict
  rcases iteratorPick_remains h hpos hsorted hperm hstrict with
    ⟨rfl, hpick⟩ | ⟨i, e, rest, rfl, hpick, hrem⟩
  · have heq : recPlayerPrevious store r =
        (0, { r1 with sources := sources, currentEntry := none, currentValid := false }) := by
      simp [recPlayerPrevious, hposition, hpick]
    rw [heq]
    exact ⟨⟨rfl, rfl, remains_nil h hpos hperm⟩, hserves.unit, hserves.order_eq,
      hserves.filter_eq, hserves.caught⟩
  · have heq : recPlayerPrevious store r =
        (1, setCurrent { r1 with sources := sources } .reverse i e) := by
      simp [recPlayerPrevious, hposition, hpick]
    rw [heq]
    exact ⟨⟨rfl, rfl, rfl, hrem⟩, hserves.unit, hserves.order_eq, hserves.filter_eq,
      hserves.caught⟩

end Deliver

/-! ## The situations of a reader -/

/-- The place of a cursor a reader stands for. -/
inductive ReaderAt (r : Reader) (c : ListCursor StoredEntry) : Prop
  /-- Without a direction: as opened, or behind a seek to the tail. -/
  | unset (hdir : r.lastDirection = none) (hvalid : r.currentValid = false)
      (hpending : r.cursorPending = false) (hsources : r.cursorSourcesPending = false)
      (hhere : c.here = none)
      (hend : if r.follow.initialized then c.ahead = [] else c.behind = [])
  /-- On an entry, moving in a direction. -/
  | onEntry (dir : Direction) (e : StoredEntry) (hvalid : r.currentValid = true)
      (hentry : r.currentEntry = some e) (hhere : c.here = some e)
      (hremains : Remains dir r (toCome dir c))
  /-- In a gap, moving forward: behind a seek, or off the end. -/
  | gap (hvalid : r.currentValid = false) (hhere : c.here = none)
      (hremains : Remains .forward r c.ahead) (hend : r.follow.initialized = true → c.ahead = [])
  /-- Off the front. -/
  | front (hvalid : r.currentValid = false) (hhere : c.here = none) (hbehind : c.behind = [])
      (hremains : Remains .reverse r [])

/-- A delivered entry is where the cursor moves to. -/
theorem Delivered.readerAt_next {result : Int × Reader} {c : ListCursor StoredEntry}
    (h : Delivered .forward result c.ahead) :
    (result.1, if result.2.currentValid then result.2.currentEntry else none) =
        (if c.next.here.isSome then 1 else 0, c.next.here) ∧ ReaderAt result.2 c.next := by
  cases hahead : c.ahead with
  | nil =>
    rw [hahead] at h
    obtain ⟨hrc, hvalid, hrem⟩ := h
    have hhere : c.next.here = none := by simp [ListCursor.next, hahead]
    have hnext : c.next.ahead = [] := by simp [ListCursor.next, hahead]
    refine ⟨by simp [hrc, hvalid, hhere], .gap hvalid hhere ?_ fun _ => hnext⟩
    rw [hnext]
    exact hrem
  | cons e rest =>
    rw [hahead] at h
    obtain ⟨hrc, hvalid, hentry, hrem⟩ := h
    have hhere : c.next.here = some e := by simp [ListCursor.next, hahead]
    refine ⟨by simp [hrc, hvalid, hentry, hhere], .onEntry .forward e hvalid hentry hhere ?_⟩
    simpa [toCome, ListCursor.next, hahead] using hrem

theorem Delivered.readerAt_previous {result : Int × Reader} {c : ListCursor StoredEntry}
    (h : Delivered .reverse result c.behind) :
    (result.1, if result.2.currentValid then result.2.currentEntry else none) =
        (if c.previous.here.isSome then 1 else 0, c.previous.here) ∧
      ReaderAt result.2 c.previous := by
  cases hbehind : c.behind with
  | nil =>
    rw [hbehind] at h
    obtain ⟨hrc, hvalid, hrem⟩ := h
    have hhere : c.previous.here = none := by simp [ListCursor.previous, hbehind]
    refine ⟨by simp [hrc, hvalid, hhere], .front hvalid hhere ?_ hrem⟩
    simp [ListCursor.previous, hbehind]
  | cons e rest =>
    rw [hbehind] at h
    obtain ⟨hrc, hvalid, hentry, hrem⟩ := h
    have hhere : c.previous.here = some e := by simp [ListCursor.previous, hbehind]
    refine ⟨by simp [hrc, hvalid, hentry, hhere], .onEntry .reverse e hvalid hentry hhere ?_⟩
    simpa [toCome, ListCursor.previous, hbehind] using hrem

/-! ## Calls -/

/-- The calls that move a cursor: three seeks and two steps. -/
inductive CursorCall
  | seekHead
  | seekTail
  | seekRealtimeUsec (usec : UInt64)
  | next
  | previous

/-- A call on a reader of a store that can be read. -/
def CursorCall.run (store : Store) (call : CursorCall) (r : Reader) : Int × Reader :=
  match call with
  | .seekHead => recPlayerSeekHead store r
  | .seekTail => recPlayerSeekTail store r
  | .seekRealtimeUsec usec => recPlayerSeekRealtimeUsec store usec r
  | .next => recPlayerNext store (fun _ => none) r
  | .previous => recPlayerPrevious store r

/-- A call on a cursor over a list. -/
def CursorCall.move (l : List StoredEntry) (call : CursorCall) (c : ListCursor StoredEntry) :
    ListCursor StoredEntry :=
  match call with
  | .seekHead => .atHead l
  | .seekTail => .atTail l
  | .seekRealtimeUsec usec => .past (·.data.realtimeTs < usec) l
  | .next => c.next
  | .previous => c.previous

/-- What a call does right from a place of the cursor.

A seek to a time: binary searches find the first row that reaches it, and no source is left on
an old entry when nothing of its group does.

A move from an entry against the direction the reader last moved in: the searches of the turn
find their place in every group.

A move without a current entry: forward, nothing is ahead once the reader follows; back, nothing
is ahead unless the reader last moved back. -/
def CallMeets (store : Store) (r : Reader) (c : ListCursor StoredEntry) : CursorCall → Prop
  | .seekHead => True
  | .seekTail => True
  | .seekRealtimeUsec usec => ∀ s ∈ storeSources store r.groupFilter,
      (∀ path ∈ s.segments, RealtimeSearchExact usec path.file) ∧
      (leavesStale decodesRealtime s.segments = true →
        ∃ path ∈ s.segments, ∃ e ∈ path.file.fileEntries, usec ≤ e.data.realtimeTs)
  | .next =>
    if r.currentValid then r.lastDirection = some .reverse → ∀ key ∈ r.currentEntry,
      ∀ s ∈ storeSources store r.groupFilter, TurnLands r.order key s.segments
    else r.follow.initialized = true → c.ahead = []
  | .previous =>
    if r.currentValid then r.lastDirection = some .forward → ∀ key ∈ r.currentEntry,
      ∀ s ∈ storeSources store r.groupFilter, TurnLands r.order key s.segments
    else r.lastDirection ≠ some .reverse → c.ahead = []

instance (store : Store) (r : Reader) (c : ListCursor StoredEntry) (call : CursorCall) :
    Decidable (CallMeets store r c call) :=
  match call with
  | .seekHead => isTrue trivial
  | .seekTail => isTrue trivial
  | .seekRealtimeUsec _ =>
    inferInstanceAs (Decidable (∀ s ∈ storeSources store r.groupFilter, _ ∧ _))
  | .next => inferInstanceAs (Decidable (if r.currentValid then _ else _))
  | .previous => inferInstanceAs (Decidable (if r.currentValid then _ else _))

section Calls

variable {order : Order} {store : Store} {filter : List Bytes} {r : Reader}
  {c : ListCursor StoredEntry}

/-- The outcome of a call: what it returns and the place it leaves stand for the cursor. -/
def Follows (order : Order) (store : Store) (filter : List Bytes) (result : Int × Reader)
    (c : ListCursor StoredEntry) : Prop :=
  ((result.1, if result.2.currentValid then result.2.currentEntry else none) =
      (if c.here.isSome then 1 else 0, c.here) ∧ ReaderAt result.2 c) ∧
    Serves order store filter result.2

/-- The streams as a merge that goes forward. -/
theorem storeStreams_sorted (h : Readable order store filter) :
    ∀ l ∈ storeStreams store filter, SortedBy (compareDirection order .forward) l := by
  intro l hl
  obtain ⟨s, hs, rfl⟩ := List.mem_map.mp hl
  exact h.sorted s hs

theorem storeStreams_reverse_sorted (h : Readable order store filter) :
    ∀ l ∈ (storeStreams store filter).map List.reverse,
      SortedBy (compareDirection order .reverse) l := by
  intro l hl
  obtain ⟨l', hl', rfl⟩ := List.mem_map.mp hl
  exact sortedBy_inDirection (storeStreams_sorted h l' hl') .reverse

/-- **`rec_player_seek_head`** puts the reader in front of the list. -/
theorem recPlayerSeekHead_follows (h : Readable order store filter)
    (hserves : Serves order store filter r) :
    Follows order store filter (recPlayerSeekHead store r)
      (.atHead (sortedEntries order store filter)) := by
  obtain ⟨r', heq, hpending, hvalid, hfollow, horder, -, hfilter⟩ :=
    recPlayerSeekHead_pending (r := r) h.usable hserves.unit
  rw [heq]
  rw [hserves.filter_eq] at hpending hfilter
  rw [hserves.order_eq] at horder
  refine ⟨⟨by simp [ListCursor.atHead, hvalid], .gap hvalid rfl ⟨_, hpending, ?_, ?_⟩ ?_⟩,
    hpending.unit, horder, hfilter, ?_⟩
  · rw [horder]
    exact storeStreams_sorted h
  · exact Readable.streams_perm order store filter
  · rw [hfollow]
    simp
  · rw [hfollow]
    simp

/-- **`rec_player_seek_tail`** puts the reader behind the list. -/
theorem recPlayerSeekTail_follows (h : Readable order store filter)
    (hserves : Serves order store filter r) :
    Follows order store filter (recPlayerSeekTail store r)
      (.atTail (sortedEntries order store filter)) := by
  obtain ⟨r', heq, hpending, hdir, hvalid, horder, hfilter, hfollow, hcurrent, hentries⟩ :=
    recPlayerSeekTail_spec (r := r) h.usable hserves.unit
  rw [heq]
  rw [hserves.filter_eq] at hfilter hfollow
  have hinit : r'.follow.initialized = true := by rw [hfollow]; rfl
  refine ⟨⟨by simp [ListCursor.atTail, hvalid], .unset hdir hvalid hpending.pending
    hpending.sourcesPending rfl ?_⟩, hpending.unit, horder.trans hserves.order_eq, hfilter, ?_⟩
  · rw [if_pos hinit]
    rfl
  · intro _
    rw [hfollow]
    exact ⟨initializeTailFollow_caughtUp h.wf filter, hcurrent, hentries⟩

theorem realtime_le_of_isLE {a b : StoredEntry} (h : (compareStoredEntries a b).isLE) :
    a.data.realtimeTs ≤ b.data.realtimeTs := by
  simp only [compareStoredEntries, compareLex, compareOn, Ordering.isLE_then_iff_and,
    Std.isLE_compare] at h
  exact h.1

/-- In wallclock order the entries before a time stand in front. -/
theorem pairwise_realtime_lt {l : List StoredEntry} (h : SortedBy compareStoredEntries l)
    (usec : UInt64) :
    l.Pairwise fun a b => decide (b.data.realtimeTs < usec) = true →
      decide (a.data.realtimeTs < usec) = true := by
  refine h.imp ?_
  intro a b hab hb
  rw [decide_eq_true_eq] at hb ⊢
  exact UInt64.lt_of_le_of_lt (realtime_le_of_isLE hab) hb

/-- What a search for a time leaves of a sorted source. -/
theorem SoughtRealtime.remaining {usec : UInt64} {s : IteratorSource}
    (h : SoughtRealtime usec s) (hsorted : SortedBy compareStoredEntries (sourceStream s))
    (hlands : leavesStale decodesRealtime s.segments = true →
      ∃ e ∈ sourceStream s, usec ≤ e.data.realtimeTs) :
    Remaining .forward s ((sourceStream s).filter fun e => !decide (e.data.realtimeTs < usec)) := by
  obtain ⟨pre, post, hsplit, hrem, hpre, hpost⟩ := h
  have hhead : ∀ e ∈ post.head?, usec ≤ e.data.realtimeTs := by
    rcases hpost with hhead | ⟨hall, hstale⟩
    · exact hhead
    · obtain ⟨e, he, hle⟩ := hlands hstale
      exact absurd (hall e he) (UInt64.not_lt.mpr hle)
  have hdrop : (sourceStream s).dropWhile (fun e => decide (e.data.realtimeTs < usec)) = post := by
    rw [hsplit, List.dropWhile_append_of_pos fun e he => decide_eq_true (hpre e he)]
    cases post with
    | nil => rfl
    | cons e post =>
      have hle := hhead e rfl
      rw [List.dropWhile_cons_of_neg (by simp [UInt64.not_lt.mpr hle])]
  rw [← dropWhile_eq_filter (pairwise_realtime_lt hsorted usec), hdrop]
  exact hrem

/-- **`rec_player_seek_realtime_usec`** puts the reader in front of the first entry that
reaches the time. -/
theorem recPlayerSeekRealtimeUsec_follows (h : Readable .wallclock store filter)
    (hserves : Serves .wallclock store filter r) {usec : UInt64}
    (hmeets : CallMeets store r c (.seekRealtimeUsec usec)) :
    Follows .wallclock store filter (recPlayerSeekRealtimeUsec store usec r)
      (.past (fun e => decide (e.data.realtimeTs < usec))
        (sortedEntries .wallclock store filter)) := by
  rw [CallMeets, hserves.filter_eq] at hmeets
  have hfilter : (clearEntries r).groupFilter = filter := hserves.filter_eq
  obtain ⟨sources, hseek, hforall⟩ := iteratorSeekRealtime_sources (r := clearEntries r) usec
    h.usable hserves.unit (by rw [hfilter]; exact fun s hs => (hmeets s hs).1)
  rw [hfilter] at hforall
  have hpos : Positioned .forward sources ((storeStreams store filter).map fun l =>
      inDirection .forward (l.filter fun e => !decide (e.data.realtimeTs < usec))) := by
    have hremaining : List.Forall₂ (fun s s' => SourceWf s' ∧ Remaining .forward s'
        ((sourceStream s).filter fun e => !decide (e.data.realtimeTs < usec)))
        (storeSources store filter) sources := by
      refine hforall.imp ?_
      rintro s s' ⟨hs, hkeeps, hsought⟩
      refine ⟨(storeSources_wf h.usable hs).keeps hkeeps, ?_⟩
      rw [← hkeeps.sourceStream_eq]
      apply hsought.remaining
      · rw [hkeeps.sourceStream_eq]
        exact h.sorted s hs
      · rw [hkeeps.segments_eq, hkeeps.sourceStream_eq]
        intro hstale
        obtain ⟨path, hpath, e, he, hle⟩ := (hmeets s hs).2 hstale
        exact ⟨e, List.mem_flatMap.mpr ⟨path, hpath,
          (segmentStream_perm path.file).mem_iff.mpr he⟩, hle⟩
    rw [storeStreams, List.map_map]
    unfold Positioned
    rw [List.forall₂_map_right_iff]
    exact hremaining.flip
  have heq : recPlayerSeekRealtimeUsec store usec r =
      (0, { iteratorReset (clearEntries r) with
        sources := sources, lastDirection := some .forward, orderChanged := false }) := by
    simp only [recPlayerSeekRealtimeUsec, hseek]
    rfl
  rw [heq]
  refine ⟨⟨rfl, .gap rfl rfl ⟨_, ⟨hserves.unit, rfl, rfl, rfl, rfl, .inl ⟨rfl, hpos⟩⟩, ?_, ?_⟩ ?_⟩,
    hserves.unit, hserves.order_eq, hserves.filter_eq, ?_⟩
  · intro l hl
    obtain ⟨l', hl', rfl⟩ := List.mem_map.mp hl
    rw [show (iteratorReset (clearEntries r)).order = .wallclock from hserves.order_eq]
    exact (storeStreams_sorted h l' hl').sublist List.filter_sublist
  · refine (flatten_map_inDirection_perm .forward _ _).trans ?_
    refine ((Readable.streams_perm .wallclock store filter).filter _).trans ?_
    rw [ListCursor.past, dropWhile_eq_filter (pairwise_realtime_lt
      h.sortedEntries_strictBy.sortedBy usec)]
  · intro hinit
    cases hinit
  · intro hinit
    cases hinit

/-- A reader that follows and has no current entry asks for new ones first, and finds none.
SOURCE: librecorder.c:2780-2784 -/
theorem recPlayerNext_follow (hserves : Serves order store filter r)
    (hinit : r.follow.initialized = true) (hvalid : r.currentValid = false) :
    ∃ st, recPlayerNext store (fun _ => none) r = (0, { r with follow := st }) ∧
      Serves order store filter { r with follow := st } ∧ st.initialized = true := by
  obtain ⟨hcaught, hcurrent, hentries⟩ := hserves.caught hinit
  rw [← hserves.filter_eq] at hcaught
  obtain ⟨st, hnext, hst⟩ := iteratorNextFollowEntry_caughtUp hcaught hcurrent hentries
  refine ⟨st, ?_, ⟨hserves.unit, hserves.order_eq, hserves.filter_eq, fun _ => ?_⟩,
    hst.initialized⟩
  · rw [← hnext]
    simp [recPlayerNext, hinit, hcurrent, hvalid]
  · rw [← hserves.filter_eq]
    exact ⟨hst, hcurrent, hentries⟩

/-- A reader on an entry, or one that does not follow, moves on in the merge. -/
theorem followFirst_eq_false (hserves : Serves order store filter r)
    (h : r.follow.initialized = true → r.currentValid = true ∧ r.currentSource.isSome = true) :
    (r.follow.initialized && r.current.any fun i =>
      decide (i < r.entries.length) || !r.currentValid || r.currentSource.isNone) = false := by
  cases hinit : r.follow.initialized with
  | false => rfl
  | true =>
    obtain ⟨hvalid, hsource⟩ := h hinit
    obtain ⟨-, hcurrent, hentries⟩ := hserves.caught hinit
    simp [hcurrent, hentries, hvalid, Option.isNone_eq_false_iff.mpr hsource]

theorem Pending.currentSource_isSome {dir : Direction} {ls : List (List StoredEntry)}
    (h : Pending dir r ls) (hvalid : r.currentValid = true) : r.currentSource.isSome = true := by
  rcases h.lists with ⟨hinvalid, -⟩ | ⟨-, i, e, rest, ls0, hsource, -⟩
  · rw [hvalid] at hinvalid
    cases hinvalid
  · rw [hsource]
    rfl

/-- A `next` that starts again from the head, for a reader that stands in front of all
entries. -/
theorem recPlayerNext_fromHead (h : Readable order store filter)
    (hserves : Serves order store filter r)
    (hlist : c.entries = sortedEntries order store filter)
    (hfollow : r.follow.initialized = false) (hhere : c.here = none) (hbehind : c.behind = [])
    (hcursor : r.cursorPending = false) (hvalid : r.currentValid = false)
    (hdir : r.lastDirection ≠ some .forward) :
    Follows order store filter (recPlayerNext store (fun _ => none) r) c.next := by
  obtain ⟨r1, heq, hpending, hvalid1, hfollow1, horder, -, hfilter⟩ :=
    recPlayerSeekHead_pending (r := r) h.usable hserves.unit
  rw [hserves.filter_eq] at hpending hfilter
  rw [hserves.order_eq] at horder
  have hposition : nextPosition store r = (0, r1) := by
    simp [nextPosition, hcursor, hvalid, hdir, heq]
  have hahead : c.ahead = sortedEntries order store filter := by
    rw [← hlist]
    simp [ListCursor.entries, hhere, hbehind]
  have hserves1 : Serves order store filter r1 :=
    ⟨hpending.unit, horder, hfilter, by rw [hfollow1]; simp⟩
  have hpos : Positioned .forward r1.sources (storeStreams store filter) := by
    rcases hpending.lists with ⟨-, hpos⟩ | ⟨hvalid2, -⟩
    · exact hpos
    · rw [hvalid1] at hvalid2
      cases hvalid2
  obtain ⟨hdelivered, hserves2⟩ := recPlayerNext_delivered r1 r1.sources c.ahead hserves1
    (followFirst_eq_false hserves (by rw [hfollow]; simp))
    hposition hpending hpos (storeStreams_sorted h)
    (by rw [hahead]; exact Readable.streams_perm order store filter)
    (by rw [hahead]; exact h.sortedEntries_strictBy)
  exact ⟨hdelivered.readerAt_next, hserves2⟩

/-- **`rec_player_next`** moves one entry forward.
SOURCE: librecorder.c:2775-2824 -/
theorem recPlayerNext_follows (h : Readable order store filter)
    (hserves : Serves order store filter r) (hat : ReaderAt r c)
    (hlist : c.entries = sortedEntries order store filter)
    (hmeets : CallMeets store r c .next) :
    Follows order store filter (recPlayerNext store (fun _ => none) r) c.next := by
  have hstrict : StrictBy (compareIteratorEntries order) c.entries := by
    rw [hlist]
    exact h.sortedEntries_strictBy
  cases hat with
  | unset hdir hvalid hpending hsources hhere hend =>
    by_cases hinit : r.follow.initialized = true
    · rw [if_pos hinit] at hend
      obtain ⟨st, hnext, hserves', hst⟩ := recPlayerNext_follow hserves hinit hvalid
      rw [hnext]
      have hhere' : c.next.here = none := by simp [ListCursor.next, hend]
      refine ⟨⟨by simp [hvalid, hhere'], .unset hdir hvalid hpending hsources hhere' ?_⟩, hserves'⟩
      rw [if_pos hst]
      simp [ListCursor.next, hend]
    · rw [if_neg hinit] at hend
      exact recPlayerNext_fromHead h hserves hlist (by simpa using hinit) hhere hend hpending hvalid
        (by rw [hdir]; decide)
  | onEntry dir e hvalid hentry hhere hremains =>
    obtain ⟨ls, hpending, hsorted, hperm⟩ := hremains
    have hdirect := followFirst_eq_false hserves fun _ =>
      ⟨hvalid, hpending.currentSource_isSome hvalid⟩
    rw [hserves.order_eq] at hsorted
    cases dir with
    | forward =>
      obtain ⟨sources, hposition, hpos⟩ := nextPosition_pending store hpending
      obtain ⟨hdelivered, hserves'⟩ :=
        recPlayerNext_delivered r sources c.ahead hserves hdirect hposition hpending
        hpos hsorted hperm (toCome_strictBy hstrict .forward)
      exact ⟨hdelivered.readerAt_next, hserves'⟩
    | reverse =>
      -- a turn: the merge is set up again behind the current entry
      rw [CallMeets, if_pos hvalid] at hmeets
      have hlands := hmeets hpending.direction e hentry
      obtain ⟨sources, hturn, hpos⟩ := iteratorRepositionAfterCurrent_spec h.usable hserves.unit
        hvalid hentry (by rw [hserves.filter_eq, hserves.order_eq]; exact h.sorted) hlands .forward
      rw [hserves.filter_eq, hserves.order_eq] at hpos
      have hposition : nextPosition store r =
          (0, { iteratorReset r with sources := sources, lastDirection := some .forward }) := by
        simp [nextPosition, hpending.pending, hpending.changed, hpending.sourcesPending,
          hpending.direction, hvalid, hturn]
      obtain ⟨hdelivered, hserves'⟩ := recPlayerNext_delivered
        { iteratorReset r with sources := sources, lastDirection := some .forward } sources c.ahead
        ⟨hserves.unit, hserves.order_eq, hserves.filter_eq, hserves.caught⟩ hdirect hposition
        ⟨hserves.unit, rfl, rfl, rfl, hpending.changed, .inl ⟨rfl, hpos⟩⟩ hpos
        (turnedStreams_sorted h .forward e) (turnedStreams_perm h hlist hhere .forward)
        (toCome_strictBy hstrict .forward)
      exact ⟨hdelivered.readerAt_next, hserves'⟩
  | gap hvalid hhere hremains hend =>
    obtain ⟨ls, hpending, hsorted, hperm⟩ := hremains
    by_cases hinit : r.follow.initialized = true
    · have hahead := hend hinit
      obtain ⟨st, hnext, hserves', hst⟩ := recPlayerNext_follow hserves hinit hvalid
      rw [hnext]
      have hhere' : c.next.here = none := by simp [ListCursor.next, hahead]
      have hahead' : c.next.ahead = [] := by simp [ListCursor.next, hahead]
      refine ⟨⟨by simp [hvalid, hhere'], .gap hvalid hhere' ?_ fun _ => hahead'⟩, hserves'⟩
      rw [hahead', ← hahead]
      exact Remains.follow ⟨ls, hpending, hsorted, hperm⟩ st
    · rw [hserves.order_eq] at hsorted
      obtain ⟨sources, hposition, hpos⟩ := nextPosition_pending store hpending
      obtain ⟨hdelivered, hserves'⟩ := recPlayerNext_delivered r sources c.ahead hserves
        (followFirst_eq_false hserves fun hinit' => absurd hinit' hinit) hposition hpending
        hpos hsorted hperm (ListCursor.strictBy_ahead hstrict)
      exact ⟨hdelivered.readerAt_next, hserves'⟩
  | front hvalid hhere hbehind hremains =>
    by_cases hinit : r.follow.initialized = true
    · rw [CallMeets, hvalid, if_neg (by decide)] at hmeets
      have hahead := hmeets hinit
      obtain ⟨st, hnext, hserves', hst⟩ := recPlayerNext_follow hserves hinit hvalid
      rw [hnext]
      have hhere' : c.next.here = none := by simp [ListCursor.next, hahead]
      refine ⟨⟨by simp [hvalid, hhere'], .front hvalid hhere' ?_ (hremains.follow st)⟩, hserves'⟩
      simp [ListCursor.next, hhere, hbehind]
    · obtain ⟨ls, hpending, -, -⟩ := hremains
      exact recPlayerNext_fromHead h hserves hlist (by simpa using hinit) hhere hbehind
        hpending.pending hvalid (by rw [hpending.direction]; decide)

/-- A `previous` that starts again from the tail, for a reader that stands behind all
entries.
SOURCE: librecorder.c:2877-2882 -/
theorem recPlayerPrevious_fromTail (h : Readable order store filter)
    (hserves : Serves order store filter r)
    (hlist : c.entries = sortedEntries order store filter) (hhere : c.here = none)
    (hahead : c.ahead = []) (hcursor : r.cursorPending = false) (hvalid : r.currentValid = false)
    (hdir : r.lastDirection ≠ some .reverse) :
    Follows order store filter (recPlayerPrevious store r) c.previous := by
  obtain ⟨r1, heq, hpending, -, hvalid1, horder, hfilter, hfollow, hcurrent, hentries⟩ :=
    recPlayerSeekTail_spec (r := r) h.usable hserves.unit
  rw [hserves.filter_eq] at hpending hfilter hfollow
  have hposition : previousPosition store r =
      (0, { r1 with lastDirection := some .reverse, orderChanged := false }) := by
    simp [previousPosition, hcursor, hvalid, hdir, heq]
  have hbehind : c.behind = (sortedEntries order store filter).reverse := by
    rw [← hlist]
    simp [ListCursor.entries, hhere, hahead]
  have hserves1 : Serves order store filter
      { r1 with lastDirection := some .reverse, orderChanged := false } := by
    refine ⟨hpending.unit, horder.trans hserves.order_eq, hfilter, fun _ => ?_⟩
    refine ⟨?_, hcurrent, hentries⟩
    change CaughtUp store filter r1.follow
    rw [hfollow]
    exact initializeTailFollow_caughtUp h.wf filter
  have hpos : Positioned .reverse r1.sources ((storeStreams store filter).map List.reverse) := by
    rcases hpending.lists with ⟨-, hpos⟩ | ⟨hvalid2, -⟩
    · exact hpos
    · change r1.currentValid = true at hvalid2
      rw [hvalid1] at hvalid2
      cases hvalid2
  obtain ⟨hdelivered, hserves2⟩ := recPlayerPrevious_delivered
    { r1 with lastDirection := some .reverse, orderChanged := false } r1.sources c.behind hserves1
    hposition
    ⟨hpending.unit, rfl, hpending.pending, hpending.sourcesPending, rfl, .inl ⟨hvalid1, hpos⟩⟩ hpos
    (storeStreams_reverse_sorted h)
    (by
      rw [hbehind]
      exact (flatten_map_reverse_perm _).trans ((Readable.streams_perm order store filter).trans
        (List.reverse_perm _).symm))
    (by rw [hbehind]; exact h.sortedEntries_strictBy.reverse)
  exact ⟨hdelivered.readerAt_previous, hserves2⟩

/-- **`rec_player_previous`** moves one entry back.
SOURCE: librecorder.c:2826-2896 -/
theorem recPlayerPrevious_follows (h : Readable order store filter)
    (hserves : Serves order store filter r) (hat : ReaderAt r c)
    (hlist : c.entries = sortedEntries order store filter)
    (hmeets : CallMeets store r c .previous) :
    Follows order store filter (recPlayerPrevious store r) c.previous := by
  have hstrict : StrictBy (compareIteratorEntries order) c.entries := by
    rw [hlist]
    exact h.sortedEntries_strictBy
  cases hat with
  | unset hdir hvalid hpending hsources hhere hend =>
    rw [CallMeets, hvalid, if_neg (by decide)] at hmeets
    have hne : r.lastDirection ≠ some .reverse := by
      rw [hdir]
      decide
    exact recPlayerPrevious_fromTail h hserves hlist hhere (hmeets hne) hpending hvalid hne
  | onEntry dir e hvalid hentry hhere hremains =>
    obtain ⟨ls, hpending, hsorted, hperm⟩ := hremains
    rw [hserves.order_eq] at hsorted
    cases dir with
    | forward =>
      -- a turn: the merge is set up again in front of the current entry
      rw [CallMeets, if_pos hvalid] at hmeets
      have hlands := hmeets hpending.direction e hentry
      obtain ⟨sources, hturn, hpos⟩ := iteratorRepositionAfterCurrent_spec h.usable hserves.unit
        hvalid hentry (by rw [hserves.filter_eq, hserves.order_eq]; exact h.sorted) hlands .reverse
      rw [hserves.filter_eq, hserves.order_eq] at hpos
      have hposition : previousPosition store r =
          (0, { iteratorReset r with sources := sources, lastDirection := some .reverse }) := by
        simp [previousPosition, hpending.pending, hpending.changed, hpending.direction, hvalid,
          hturn]
      obtain ⟨hdelivered, hserves'⟩ := recPlayerPrevious_delivered
        { iteratorReset r with sources := sources, lastDirection := some .reverse } sources c.behind
        ⟨hserves.unit, hserves.order_eq, hserves.filter_eq, hserves.caught⟩ hposition
        ⟨hserves.unit, rfl, rfl, rfl, hpending.changed, .inl ⟨rfl, hpos⟩⟩ hpos
        (turnedStreams_sorted h .reverse e) (turnedStreams_perm h hlist hhere .reverse)
        (toCome_strictBy hstrict .reverse)
      exact ⟨hdelivered.readerAt_previous, hserves'⟩
    | reverse =>
      obtain ⟨sources, hposition, hpos⟩ := previousPosition_pending store hpending
      obtain ⟨hdelivered, hserves'⟩ :=
        recPlayerPrevious_delivered r sources c.behind hserves hposition hpending
        hpos hsorted hperm (toCome_strictBy hstrict .reverse)
      exact ⟨hdelivered.readerAt_previous, hserves'⟩
  | gap hvalid hhere hremains hend =>
    obtain ⟨ls, hpending, -, -⟩ := hremains
    rw [CallMeets, hvalid, if_neg (by decide)] at hmeets
    have hne : r.lastDirection ≠ some .reverse := by
      rw [hpending.direction]
      decide
    exact recPlayerPrevious_fromTail h hserves hlist hhere (hmeets hne) hpending.pending hvalid hne
  | front hvalid hhere hbehind hremains =>
    obtain ⟨ls, hpending, hsorted, hperm⟩ := hremains
    rw [hserves.order_eq] at hsorted
    obtain ⟨sources, hposition, hpos⟩ := previousPosition_pending store hpending
    obtain ⟨hdelivered, hserves'⟩ := recPlayerPrevious_delivered r sources c.behind hserves
      hposition hpending hpos hsorted (by rw [hbehind]; exact hperm)
      (ListCursor.strictBy_behind hstrict)
    exact ⟨hdelivered.readerAt_previous, hserves'⟩

/-- **One call** of a reader that stands for a place of the cursor: it returns what the
cursor returns, and the reader stands for the new place. -/
theorem cursorCall_follows (h : Readable order store filter)
    (hserves : Serves order store filter r) (hat : ReaderAt r c)
    (hlist : c.entries = sortedEntries order store filter) (call : CursorCall)
    (hcall : ∀ usec, call = .seekRealtimeUsec usec → order = .wallclock)
    (hmeets : CallMeets store r c call) :
    Follows order store filter (call.run store r)
      (call.move (sortedEntries order store filter) c) := by
  cases call with
  | seekHead => exact recPlayerSeekHead_follows h hserves
  | seekTail => exact recPlayerSeekTail_follows h hserves
  | seekRealtimeUsec usec =>
    obtain rfl := hcall usec rfl
    exact recPlayerSeekRealtimeUsec_follows h hserves hmeets
  | next => exact recPlayerNext_follows h hserves hat hlist hmeets
  | previous => exact recPlayerPrevious_follows h hserves hat hlist hmeets

theorem entries_move {l : List StoredEntry} (hlist : c.entries = l) (call : CursorCall) :
    (call.move l c).entries = l := by
  cases call with
  | seekHead => exact ListCursor.entries_atHead
  | seekTail => exact ListCursor.entries_atTail
  | seekRealtimeUsec usec => exact ListCursor.entries_past _
  | next => exact ListCursor.entries_next.trans hlist
  | previous => exact ListCursor.entries_previous.trans hlist

end Calls

/-! ## Runs -/

/-- What the calls of a run return: their results, each with the current entry. -/
def readerReplies (store : Store) : List CursorCall → Reader → List (Int × Option StoredEntry)
  | [], _ => []
  | call :: calls, r =>
    ((call.run store r).1,
      if (call.run store r).2.currentValid then (call.run store r).2.currentEntry else none) ::
        readerReplies store calls (call.run store r).2

/-- What a cursor over a list returns: 1 and the entry it comes to, or 0. -/
def cursorReplies (l : List StoredEntry) :
    List CursorCall → ListCursor StoredEntry → List (Int × Option StoredEntry)
  | [], _ => []
  | call :: calls, c =>
    (if (call.move l c).here.isSome then 1 else 0, (call.move l c).here) ::
      cursorReplies l calls (call.move l c)

/-- Every call of a run meets its condition when it is made. -/
def CallsMeet (store : Store) (l : List StoredEntry) :
    List CursorCall → Reader → ListCursor StoredEntry → Prop
  | [], _, _ => True
  | call :: calls, r, c => CallMeets store r c call ∧
      CallsMeet store l calls (call.run store r).2 (call.move l c)

instance decidableCallsMeet (store : Store) (l : List StoredEntry) :
    ∀ calls r c, Decidable (CallsMeet store l calls r c)
  | [], _, _ => isTrue trivial
  | call :: calls, r, c =>
    have := decidableCallsMeet store l calls (call.run store r).2 (call.move l c)
    inferInstanceAs (Decidable (_ ∧ _))

/-- A reader as `rec_player_open` and the setters of its query leave it. -/
def openedReader (storeId : Option UInt64) (order : Order) (filter : List Bytes)
    (orderChanged : Bool) : Reader :=
  { storeId, order, groupFilter := filter, orderChanged }

theorem readerReplies_eq {order : Order} {store : Store} {filter : List Bytes}
    (h : Readable order store filter) (calls : List CursorCall) :
    ∀ (r : Reader) (c : ListCursor StoredEntry), Serves order store filter r → ReaderAt r c →
      c.entries = sortedEntries order store filter →
      (∀ usec, .seekRealtimeUsec usec ∈ calls → order = .wallclock) →
      CallsMeet store (sortedEntries order store filter) calls r c →
      readerReplies store calls r =
        cursorReplies (sortedEntries order store filter) calls c := by
  induction calls with
  | nil => exact fun _ _ _ _ _ _ _ => rfl
  | cons call calls ih =>
    intro r c hserves hat hlist hcalls hmeets
    obtain ⟨⟨hreply, hat'⟩, hserves'⟩ := cursorCall_follows h hserves hat hlist call
      (fun usec heq => hcalls usec (by simp [heq])) hmeets.1
    rw [readerReplies, cursorReplies, hreply, ih _ _ hserves' hat' (entries_move hlist call)
      (fun usec hmem => hcalls usec (by simp [hmem])) hmeets.2]

/-- Two groups in turn, the second one in a segment without index. -/
def turnStore : Store where
  directory := true
  files :=
    [ oneFrameSegment [97] 1 0 [⟨1, 1, 0, none⟩, ⟨4, 4, 0, none⟩] (by decide) true,
      oneFrameSegment [98] 2 0 [⟨2, 2, 0, none⟩, ⟨3, 3, 0, none⟩] (by decide) false ]
  length_lt := length_pair_lt _ _ _

theorem turnStore_usable : UsableIndexes turnStore := by
  intro f hf
  rcases List.mem_cons.mp hf with rfl | hf
  · exact oneFrameSegment_usable
  · rw [List.mem_singleton.mp hf]
    exact oneFrameSegment_usable

theorem turnStore_wf : StoreWf turnStore := by
  refine ⟨?_, ?_, ?_⟩
  · refine List.pairwise_cons.mpr ⟨?_, List.pairwise_singleton _ _⟩
    intro g hg hgroup
    rw [List.mem_singleton.mp hg] at hgroup
    exact absurd hgroup (by decide)
  · intro f hf
    rcases List.mem_cons.mp hf with rfl | hf
    · rfl
    · rw [List.mem_singleton.mp hf]
      rfl
  · intro h
    cases h

/-- A run over `turnStore` that meets the conditions: to both ends, with turns between the
entries of the two groups, and to a time. -/
def turnCalls : List CursorCall :=
  [.seekHead, .next, .next, .next, .previous, .next, .next, .next, .previous, .seekTail, .next,
    .previous, .previous, .next, .next, .next, .seekRealtimeUsec 3, .next, .previous, .previous]

end Recorder.Analysis
