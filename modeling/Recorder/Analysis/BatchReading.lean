import Recorder.Analysis.CursorString
import Recorder.Model.BatchReader

/-!
# Reading in batches

Between two calls of `rec_player_next` behind a seek to the head, the sources of the reader are
where the last pick left them: the source of the current entry still stands on it
(`StandsOn`). The cursor of this entry and the `next` behind it pick from the same sources
again, so they lead back to the very same reader (`StandsOn.resume`). That is why reading in
batches of any size prints what one pass over the log prints.

With `-f` the program never comes to resume behind a wait. At the end of the log there is no
current entry whose cursor it could keep: it stops there, or, when the last batch was full,
starts again at the head.

**Main results**: `batches_are_one_pass` and `follow_starts_over`.
-/

set_option autoImplicit false

namespace Recorder.Analysis

open Recorder.Model Recorder.Lib

/-! ## One call -/

/-- A reader that goes forward from the head and does not follow. -/
structure ReadsForward (r : Reader) : Prop where
  cursor : r.cursorPending = false
  cursorSources : r.cursorSourcesPending = false
  order : r.orderChanged = false
  direction : r.lastDirection = some .forward
  follow : r.follow.initialized = false

/-- The reader stands on the entry that its sources offer. -/
structure StandsOn (r : Reader) (i : ℕ) (e : StoredEntry) : Prop where
  picked : iteratorPick r .forward = some (i, e)
  current : r = setCurrent r .forward i e

/-- What the calls of a pass leave as it is. -/
structure SameSettings (r r' : Reader) : Prop where
  storeId : r'.storeId = r.storeId
  order : r'.order = r.order
  unitFilter : r'.unitFilter = r.unitFilter
  groupFilter : r'.groupFilter = r.groupFilter
  cursorGroup : r'.cursorGroup = r.cursorGroup
  cursorSegmentSeq : r'.cursorSegmentSeq = r.cursorSegmentSeq
  cursorFrameOffset : r'.cursorFrameOffset = r.cursorFrameOffset
  cursorFrameEntryIndex : r'.cursorFrameEntryIndex = r.cursorFrameEntryIndex

/-- The outcomes of `rec_player_next` in a pass: a failure, the end, or an entry. -/
inductive PassStep (r : Reader) : Int × Reader → Prop
  | fails {rc : Int} {r' : Reader} (h : rc < 0) : PassStep r (rc, r')
  | ends {r' : Reader} (h : ReadsForward r') (hsame : SameSettings r r')
      (hcurrent : readerCurrentEntry r' = none) : PassStep r (0, r')
  | gives {r' : Reader} (i : ℕ) (e : StoredEntry) (h : ReadsForward r')
      (hsame : SameSettings r r') (hstands : StandsOn r' i e) : PassStep r (1, r')

section Call

variable {store : Store} {fault : ScanFault} {r r1 : Reader} {i : ℕ} {e : StoredEntry}

theorem SameSettings.refl (r : Reader) : SameSettings r r :=
  ⟨rfl, rfl, rfl, rfl, rfl, rfl, rfl, rfl⟩

theorem SameSettings.trans {r' r'' : Reader} (h : SameSettings r r') (h' : SameSettings r' r'') :
    SameSettings r r'' :=
  ⟨h'.storeId.trans h.storeId, h'.order.trans h.order, h'.unitFilter.trans h.unitFilter,
    h'.groupFilter.trans h.groupFilter, h'.cursorGroup.trans h.cursorGroup,
    h'.cursorSegmentSeq.trans h.cursorSegmentSeq, h'.cursorFrameOffset.trans h.cursorFrameOffset,
    h'.cursorFrameEntryIndex.trans h.cursorFrameEntryIndex⟩

theorem StandsOn.currentEntry (h : StandsOn r i e) : readerCurrentEntry r = some e := by
  rw [h.current]
  rfl

/-- A reader that does not follow calls the iterator. -/
theorem recPlayerNext_of_not_following (h : r.follow.initialized = false) :
    recPlayerNext store fault r =
      match Model.nextPosition store r with
      | (rc, r) =>
        if rc ≠ 0 then (-1, r)
        else
          match iteratorPick r .forward with
          | none =>
            let r := { r with currentEntry := none, currentValid := false }
            if r.follow.initialized then iteratorNextFollowEntry store fault r else (0, r)
          | some (i, e) => (1, setCurrent r .forward i e) := by
  unfold recPlayerNext
  rw [h]
  rfl

/-- The positioning of a reader that goes forward advances the current source.
SOURCE: librecorder.c:2786-2812 -/
theorem ReadsForward.position (h : ReadsForward r) : Model.nextPosition store r =
    if r.currentValid then advanceCurrentSource .forward r else (0, r) := by
  unfold Model.nextPosition
  rw [h.cursor, h.order, h.cursorSources, h.direction]
  rfl

/-- Advancing a source changes the sources only. -/
theorem advanceCurrentSource_sources (dir : Direction) (r : Reader) :
    (advanceCurrentSource dir r).1 ≤ 0 ∧
      ∃ sources, (advanceCurrentSource dir r).2 = { r with sources := sources } := by
  unfold advanceCurrentSource
  split
  · exact ⟨le_rfl, r.sources, rfl⟩
  · refine ⟨?_, _, rfl⟩
    dsimp only
    split <;> omega

/-- **`rec_player_next` in a pass.**
SOURCE: librecorder.c:2775-2824 -/
theorem ReadsForward.next (h : ReadsForward r) (store : Store) (fault : ScanFault) :
    PassStep r (recPlayerNext store fault r) := by
  rw [recPlayerNext_of_not_following h.follow, h.position]
  obtain ⟨sources, hle, hadvanced⟩ : ∃ sources,
      (if r.currentValid then advanceCurrentSource .forward r else (0, r)).1 ≤ 0 ∧
        (if r.currentValid then advanceCurrentSource .forward r else (0, r)).2 =
          { r with sources := sources } := by
    split
    · obtain ⟨hle, sources, hsources⟩ := advanceCurrentSource_sources .forward r
      exact ⟨sources, hle, hsources⟩
    · exact ⟨r.sources, le_rfl, rfl⟩
  generalize (if r.currentValid then advanceCurrentSource .forward r else (0, r)) = position at *
  obtain ⟨rc, r1⟩ := position
  dsimp only at hadvanced ⊢
  subst hadvanced
  split
  · exact .fails (by omega)
  · split
    · have hfollow := h.follow
      simp only [hfollow]
      refine .ends ⟨h.cursor, h.cursorSources, h.order, h.direction, h.follow⟩
        ⟨rfl, rfl, rfl, rfl, rfl, rfl, rfl, rfl⟩ rfl
    · next i e hpick =>
      exact .gives i e ⟨h.cursor, h.cursorSources, h.order, rfl, h.follow⟩
        ⟨rfl, rfl, rfl, rfl, rfl, rfl, rfl, rfl⟩ ⟨hpick, rfl⟩

/-- The reader behind a seek to its current entry.
SOURCE: librecorder.c:2645-2658 -/
def atCurrent (r : Reader) : Reader :=
  { r with
    cursorPending := true
    cursorSourcesPending := false
    currentEntry := none
    currentValid := false }

theorem ReadsForward.flags (h : ReadsForward r) :
    { r with cursorPending := false, cursorSourcesPending := false } = r := by
  have hcursor := h.cursor
  have hsources := h.cursorSources
  cases r
  dsimp only at hcursor hsources
  rw [hcursor, hsources]

/-- The `next` behind a seek to the current entry leads back to the reader.
SOURCE: librecorder.c:2786-2824 -/
theorem StandsOn.next_atCurrent (h : StandsOn r i e) (hreads : ReadsForward r) :
    recPlayerNext store fault (atCurrent r) = (1, r) := by
  have hposition : Model.nextPosition store (atCurrent r) =
      (0, { atCurrent r with cursorPending := false, lastDirection := some .forward }) := rfl
  have hpick : iteratorPick
      { atCurrent r with cursorPending := false, lastDirection := some .forward } .forward =
        some (i, e) := h.picked
  have hfollow : (atCurrent r).follow.initialized = false := hreads.follow
  rw [recPlayerNext_of_not_following hfollow, hposition]
  simp only [ne_eq, not_true_eq_false, if_false, hpick]
  have hback : setCurrent
      { atCurrent r with cursorPending := false, lastDirection := some .forward } .forward i e =
        setCurrent { r with cursorPending := false, cursorSourcesPending := false } .forward i e :=
    rfl
  rw [hback, hreads.flags, ← h.current]

/-- **Seeking to the current entry and selecting it** changes nothing.
SOURCE: librecorder.c:2645-2658, 2786-2824 -/
theorem StandsOn.resume (h : StandsOn r i e) (hreads : ReadsForward r) (store : Store)
    (fault : ScanFault) {storeId : UInt64} (hid : r.storeId = some storeId)
    (hvalid : readerValidGroupName e.group = true) (hlen : e.group.length ≤ 63) :
    ∃ cursor, recPlayerGetCursor r.storeId (readerCurrentEntry r) = some cursor ∧
      recPlayerSeekCursorText store cursor r = (0, atCurrent r) ∧
      recPlayerNext store fault (atCurrent r) = (1, r) ∧ recPlayerTestCursor cursor r = 1 := by
  have hparse : parseCursor (some (cursorText storeId e.group e.segmentSeq e.frameOffset
      e.frameEntryIndex)) 64 =
        some ⟨storeId, e.group, e.segmentSeq, e.frameOffset, e.frameEntryIndex⟩ :=
    parseCursor_cursorText hvalid hlen le_rfl
  have hnames : (Cursor.mk storeId e.group e.segmentSeq e.frameOffset e.frameEntryIndex).names e =
      true := by
    simp [Cursor.names]
  have hentry : r.currentEntry = some e := by
    rw [h.current]
    rfl
  have hcurrentValid : r.currentValid = true := by
    rw [h.current]
    rfl
  refine ⟨cursorText storeId e.group e.segmentSeq e.frameOffset e.frameEntryIndex, ?_, ?_,
    h.next_atCurrent hreads, ?_⟩
  · rw [hid, h.currentEntry]
    exact recPlayerGetCursor_eq hvalid hlen
  · unfold recPlayerSeekCursorText recPlayerSeekCursor
    simp only [hid, hparse, hentry, hcurrentValid, hnames, Option.any_some, ne_eq,
      not_true_eq_false, if_false, Bool.and_self, if_true]
    rw [← hid]
    rfl
  · unfold recPlayerTestCursor
    rw [h.currentEntry, hid, hparse]
    simp only [ne_eq, not_true_eq_false, if_false, hnames, if_true]

end Call

/-! ## A pass -/

/-- `rec_player_next` until its result is not positive: the last result, and the entries on the
way. -/
def readPass (store : Store) : ℕ → Reader → Option (Int × List StoredEntry)
  | 0, _ => none
  | fuel + 1, r =>
    match recPlayerNext store (fun _ => none) r with
    | (rc, r) =>
      if rc > 0 then
        (readerCurrentEntry r).bind fun e =>
          (readPass store fuel r).map fun (rc, out) => (rc, e :: out)
      else some (rc, [])

/-- A reader with what a pass from it gives. -/
structure PassFrom (store : Store) (r : Reader) (rc : Int) (out : List StoredEntry) : Prop where
  reads : ReadsForward r
  pass : ∃ fuel, readPass store fuel r = some (rc, out)

section Pass

variable {store : Store} {r : Reader} {rc : Int} {out : List StoredEntry}

/-- **The next call of a pass**: it gives the first entry, or the pass is over. -/
theorem PassFrom.next (h : PassFrom store r rc out) :
    (out = [] ∧ rc ≤ 0 ∧ ∃ r', recPlayerNext store (fun _ => none) r = (rc, r') ∧
      (rc = 0 → ReadsForward r' ∧ SameSettings r r' ∧ readerCurrentEntry r' = none)) ∨
    ∃ e rest r' i, out = e :: rest ∧ recPlayerNext store (fun _ => none) r = (1, r') ∧
      PassFrom store r' rc rest ∧ StandsOn r' i e ∧ SameSettings r r' := by
  obtain ⟨fuel, hpass⟩ := h.pass
  cases fuel with
  | zero => cases hpass
  | succ fuel =>
    have hstep := h.reads.next store fun _ => none
    unfold readPass at hpass
    generalize hnext : recPlayerNext store (fun _ => none) r = result at hstep hpass
    cases hstep with
    | fails hneg =>
      rename_i rc' r'
      dsimp only at hpass
      rw [if_neg (by omega)] at hpass
      obtain ⟨rfl, rfl⟩ := Prod.mk.inj (Option.some.inj hpass)
      exact .inl ⟨rfl, by omega, r', rfl, fun hzero => by omega⟩
    | ends hreads hsame hcurrent =>
      rename_i r'
      dsimp only at hpass
      rw [if_neg (by omega)] at hpass
      obtain ⟨rfl, rfl⟩ := Prod.mk.inj (Option.some.inj hpass)
      exact .inl ⟨rfl, le_rfl, r', rfl, fun _ => ⟨hreads, hsame, hcurrent⟩⟩
    | gives i e hreads hsame hstands =>
      rename_i r'
      dsimp only at hpass
      rw [if_pos (by omega), hstands.currentEntry, Option.bind_some] at hpass
      obtain ⟨⟨rc', rest⟩, hrest, heq⟩ := Option.map_eq_some_iff.mp hpass
      obtain ⟨rfl, rfl⟩ := Prod.mk.inj heq
      exact .inr ⟨e, rest, r', i, rfl, rfl, ⟨hreads, fuel, hrest⟩, hstands, hsame⟩

/-- **A batch within the pass** is filled, and the reader stands on its last entry.
SOURCE: batch_reader.c:142-149 -/
theorem readBatch_full (n : ℕ) :
    ∀ (st : BatchState) {out : List StoredEntry}, PassFrom store st.reader rc out →
      n < out.length → ∃ r' i e,
        readBatch store (n + 1) st = .ok (n + 1,
          { st with reader := r', rc := 1, printed := st.printed ++ out.take (n + 1) }) ∧
        PassFrom store r' rc (out.drop (n + 1)) ∧ StandsOn r' i e ∧ e ∈ out ∧
        SameSettings st.reader r' := by
  induction n with
  | zero =>
    intro st out h hlt
    rcases h.next with ⟨rfl, -⟩ | ⟨e, rest, r', i, rfl, hnext, hpass, hstands, hsame⟩
    · cases hlt
    · refine ⟨r', i, e, ?_, hpass, hstands, List.mem_cons_self, hsame⟩
      unfold readBatch
      simp only [hnext, hstands.currentEntry, readBatch]
      rfl
  | succ n ih =>
    intro st out h hlt
    rcases h.next with ⟨rfl, -⟩ | ⟨e, rest, r', i, rfl, hnext, hpass, hstands, hsame⟩
    · cases hlt
    · obtain ⟨r'', i', e', hread, hpass', hstands', hmem, hsame'⟩ :=
        ih { st with reader := r', rc := 1, printed := st.printed ++ [e] } hpass
          (Nat.lt_of_succ_lt_succ hlt)
      refine ⟨r'', i', e', ?_, hpass', hstands', List.mem_cons_of_mem _ hmem, hsame.trans hsame'⟩
      rw [readBatch]
      simp only [hnext, hstands.currentEntry, hread]
      rw [List.take_succ_cons, List.append_assoc]
      rfl

/-- **The last batch of a pass** has what is left of it.
SOURCE: batch_reader.c:142-149 -/
theorem readBatch_short (n : ℕ) :
    ∀ (st : BatchState) {out : List StoredEntry}, PassFrom store st.reader rc out →
      out.length < n → ∃ r',
        readBatch store n st = .ok (out.length,
          { st with reader := r', rc := rc, printed := st.printed ++ out }) ∧ rc ≤ 0 ∧
        (rc = 0 → ReadsForward r' ∧ SameSettings st.reader r' ∧ readerCurrentEntry r' = none) := by
  induction n with
  | zero =>
    intro st out _ hlt
    cases hlt
  | succ n ih =>
    intro st out h hlt
    rcases h.next with ⟨rfl, hrc, r', hnext, hend⟩ |
      ⟨e, rest, r', i, rfl, hnext, hpass, hstands, hsame⟩
    · refine ⟨r', ?_, hrc, hend⟩
      rw [readBatch]
      simp only [hnext, gt_iff_lt, if_neg (Int.not_lt.mpr hrc), List.append_nil]
      rfl
    · obtain ⟨r'', hread, hrc, hend⟩ :=
        ih { st with reader := r', rc := 1, printed := st.printed ++ [e] } hpass
          (Nat.lt_of_succ_lt_succ hlt)
      refine ⟨r'', ?_, hrc, fun hzero => ?_⟩
      · rw [readBatch]
        simp only [hnext, hstands.currentEntry, hread]
        rw [List.append_assoc]
        rfl
      · obtain ⟨hreads, hsame', hcurrent⟩ := hend hzero
        exact ⟨hreads, hsame.trans hsame', hcurrent⟩

end Pass

/-! ## The turns of the loop -/

section Turn

variable {store later : Store} {events : List FollowEvent} {follow : Bool} {size : ℕ}
  {st : BatchState} {rc : Int} {out : List StoredEntry} {storeId : UInt64}

/-- A cursor was kept, of the entry on which the reader stands. -/
structure CursorKept (store : Store) (st : BatchState) (cursor : Bytes) : Prop where
  kept : st.cursor = some cursor
  seek : recPlayerSeekCursorText store cursor st.reader = (0, atCurrent st.reader)
  next : recPlayerNext store (fun _ => none) (atCurrent st.reader) = (1, st.reader)
  test : recPlayerTestCursor cursor st.reader = 1

/-- **Resuming** takes the cursor away, and nothing else changes.
SOURCE: batch_reader.c:126-141 -/
theorem CursorKept.turn {cursor : Bytes} (h : CursorKept store st cursor) :
    batchTurn store later events follow size st =
      batchTurn store later events follow size
        { st with cursor := none, resumes := st.resumes + 1 } := by
  have hresumed : resumeBatch store cursor st =
      .ok { st with cursor := none, resumes := st.resumes + 1 } := by
    unfold resumeBatch
    simp only [h.seek, h.next, h.test]
    rfl
  unfold batchTurn
  simp only [h.kept, hresumed]

/-- A turn with a full batch keeps the cursor of its last entry.
SOURCE: batch_reader.c:142-168 -/
theorem batchTurn_full (later : Store) (events : List FollowEvent) (follow : Bool)
    (hfresh : st.cursor = none) (h : PassFrom store st.reader rc out)
    (hid : st.reader.storeId = some storeId)
    (hnames : ∀ e ∈ out, readerValidGroupName e.group = true ∧ e.group.length ≤ 63)
    (hsize : 0 < size) (hle : size ≤ out.length) :
    ∃ r' cursor, batchTurn store later events follow size st = .again
        { st with
          reader := r'
          rc := 1
          printed := st.printed ++ out.take size
          cursor := some cursor
          batches := st.batches + 1 } ∧
      PassFrom store r' rc (out.drop size) ∧ SameSettings st.reader r' ∧
      ∀ st' : BatchState, st'.reader = r' → st'.cursor = some cursor →
        CursorKept store st' cursor := by
  obtain ⟨n, rfl⟩ := Nat.exists_eq_succ_of_ne_zero hsize.ne'
  obtain ⟨r', i, e, hread, hpass, hstands, hmem, hsame⟩ := readBatch_full n st h hle
  obtain ⟨hvalid, hlen⟩ := hnames e hmem
  obtain ⟨cursor, hcursor, hseek, hnext, htest⟩ := hstands.resume hpass.reads store
    (fun _ => none) (hsame.storeId.trans hid) hvalid hlen
  refine ⟨r', cursor, ?_, hpass, hsame, ?_⟩
  · unfold batchTurn endBatch
    simp only [hfresh, Nat.succ_eq_add_one, hread, hcursor, Option.map_some]
    simp
  · rintro st' rfl hkept
    exact ⟨hkept, hseek, hnext, htest⟩

/-- A turn that fails to read says so.
SOURCE: batch_reader.c:150-153 -/
theorem batchTurn_fails (hfresh : st.cursor = none) (h : PassFrom store st.reader rc out)
    (hlt : out.length < size) (hrc : rc < 0) :
    batchTurn store later events follow size st =
      .done ⟨rc, some .iterationFailed, st.printed ++ out, st.batches, st.resumes⟩ := by
  obtain ⟨r', hread, -⟩ := readBatch_short size st h hlt
  unfold batchTurn endBatch
  simp only [hfresh, hread, if_pos hrc]
  rfl

/-- Without `-f` a turn that comes to the end of the log is the last one.
SOURCE: batch_reader.c:154-173 -/
theorem batchTurn_ends (hfresh : st.cursor = none) (h : PassFrom store st.reader 0 out)
    (hlt : out.length < size) :
    batchTurn store later events false size st =
      .done ⟨0, none, st.printed ++ out, st.batches + if out = [] then 0 else 1, st.resumes⟩ := by
  obtain ⟨r', hread, -⟩ := readBatch_short size st h hlt
  unfold batchTurn endBatch
  simp only [hfresh, hread]
  cases out with
  | nil => simp [BatchState.finished]
  | cons e rest => simp [BatchState.finished]

/-- With `-f` a turn that comes to the end of the log within a batch has no cursor to keep.
SOURCE: batch_reader.c:164-168, librecorder.c:2978-2984 -/
theorem batchTurn_follow_stops (hfresh : st.cursor = none) (h : PassFrom store st.reader 0 out)
    (hlt : out.length < size) (hne : out ≠ []) :
    batchTurn store later events true size st = .done ⟨0, some .cannotGetCursor,
      st.printed ++ out, st.batches + 1, st.resumes⟩ := by
  obtain ⟨r', hread, -, hend⟩ := readBatch_short size st h hlt
  obtain ⟨-, -, hcurrent⟩ := hend rfl
  have hcount : out.length ≠ 0 := fun hzero => hne (List.length_eq_zero_iff.mp hzero)
  have hnone : recPlayerGetCursor r'.storeId (readerCurrentEntry r') = none := by
    rw [hcurrent]
    rfl
  unfold batchTurn endBatch
  simp only [hfresh, hread, hcount, hnone]
  simp [BatchState.failed]

/-- With `-f` a turn at the end of the log waits and seeks to the head.
SOURCE: batch_reader.c:154-163 -/
theorem batchTurn_follow_waits (hfresh : st.cursor = none) (h : PassFrom store st.reader 0 [])
    (hsize : 0 < size) :
    ∃ r', SameSettings st.reader r' ∧ batchTurn store later events true size st =
      if (recPlayerSeekHead later r').1 ≠ 0 then
        .done ⟨0, some .cannotRescan, st.printed, st.batches, st.resumes⟩
      else .waited { st with reader := (recPlayerSeekHead later r').2, rc := 0 } := by
  obtain ⟨r', hread, -, hend⟩ := readBatch_short size st h hsize
  obtain ⟨-, hsame, -⟩ := hend rfl
  refine ⟨waitForReaderChange events r', ?_, ?_⟩
  · unfold waitForReaderChange
    split
    · exact hsame
    · exact ⟨hsame.storeId, hsame.order, hsame.unitFilter, hsame.groupFilter, hsame.cursorGroup,
        hsame.cursorSegmentSeq, hsame.cursorFrameOffset, hsame.cursorFrameEntryIndex⟩
  · unfold batchTurn endBatch
    simp only [hfresh, hread, List.length_nil, List.append_nil]
    rfl

end Turn

/-! ## The loop -/

section Loop

variable {world : BatchWorld} {follow : Bool} {size waits : ℕ} {rc : Int} {storeId : UInt64}

/-- A loop that resumes is as if it had no cursor. -/
theorem CursorKept.loop {st : BatchState} {cursor : Bytes}
    (h : CursorKept (world.stores waits) st cursor) (fuel : ℕ) :
    batchLoop world follow size (fuel + 1) waits st =
      batchLoop world follow size (fuel + 1) waits
        { st with cursor := none, resumes := st.resumes + 1 } := by
  rw [batchLoop, h.turn, batchLoop]

/-- **The full batches of a pass**: they print what they read, and the loop is as if it stood
behind their last entry without a cursor. -/
theorem batchLoop_full (world : BatchWorld) (follow : Bool) (waits : ℕ) (hsize : 0 < size) (q : ℕ) :
    ∀ (st : BatchState) {out : List StoredEntry}, st.cursor = none →
      PassFrom (world.stores waits) st.reader rc out → st.reader.storeId = some storeId →
      (∀ e ∈ out, readerValidGroupName e.group = true ∧ e.group.length ≤ 63) →
      q * size ≤ out.length → ∃ r' rc',
        (∀ fuel, batchLoop world follow size (fuel + 1 + q) waits st =
          batchLoop world follow size (fuel + 1) waits
            { st with
              reader := r'
              rc := rc'
              printed := st.printed ++ out.take (q * size)
              batches := st.batches + q
              resumes := st.resumes + q }) ∧
        PassFrom (world.stores waits) r' rc (out.drop (q * size)) ∧
        SameSettings st.reader r' := by
  induction q with
  | zero =>
    intro st out hfresh h _ _ _
    refine ⟨st.reader, st.rc, fun fuel => ?_, ?_, .refl _⟩
    · rw [Nat.zero_mul, List.take_zero, List.append_nil]
      rfl
    · rw [Nat.zero_mul, List.drop_zero]
      exact h
  | succ q ih =>
    intro st out hfresh h hid hnames hle
    have hfirst : size + q * size ≤ out.length := by
      rw [Nat.succ_mul] at hle
      omega
    obtain ⟨r', cursor, hturn, hpass, hsame, hkept⟩ := batchTurn_full (world.stores (waits + 1))
      (world.events waits) follow hfresh h hid hnames hsize (Nat.le_of_add_right_le hfirst)
    have hrest : q * size ≤ (out.drop size).length := by
      rw [List.length_drop]
      omega
    obtain ⟨r'', rc'', hloop, hpass', hsame'⟩ := ih
      { st with
        reader := r'
        rc := 1
        printed := st.printed ++ out.take size
        cursor := none
        batches := st.batches + 1
        resumes := st.resumes + 1 }
      rfl hpass (hsame.storeId.trans hid)
      (fun e he => hnames e (List.mem_of_mem_drop he)) hrest
    have hsum : (q + 1) * size = size + q * size := by rw [Nat.succ_mul, Nat.add_comm]
    refine ⟨r'', rc'', fun fuel => ?_, ?_, hsame.trans hsame'⟩
    · have hresume : ∀ st' : BatchState, st'.reader = r' → st'.cursor = some cursor →
          batchLoop world follow size (fuel + 1 + q) waits st' =
            batchLoop world follow size (fuel + 1 + q) waits
              { st' with cursor := none, resumes := st'.resumes + 1 } := by
        intro st' hr hc
        rw [Nat.add_right_comm fuel 1 q]
        exact (hkept st' hr hc).loop (fuel + q)
      rw [← Nat.add_assoc, batchLoop, hturn]
      dsimp only
      rw [hresume _ rfl rfl, hloop, hsum, List.take_add, List.append_assoc, hfresh,
        Nat.add_assoc, Nat.add_assoc, Nat.add_comm 1 q]
    · rw [hsum, ← List.drop_drop]
      exact hpass'

theorem length_drop_full (out : List StoredEntry) (size : ℕ) :
    (out.drop (out.length / size * size)).length = out.length % size := by
  rw [List.length_drop]
  have hsum := Nat.div_add_mod' out.length size
  omega

/-- **The last turn of a pass** comes behind its full batches. -/
theorem batchLoop_last (world : BatchWorld) (follow : Bool) (waits : ℕ) (hsize : 0 < size)
    (st : BatchState) {out : List StoredEntry} (hfresh : st.cursor = none)
    (h : PassFrom (world.stores waits) st.reader rc out)
    (hid : st.reader.storeId = some storeId)
    (hnames : ∀ e ∈ out, readerValidGroupName e.group = true ∧ e.group.length ≤ 63) :
    ∃ st' rest, (∀ fuel, batchLoop world follow size (fuel + 1 + out.length / size) waits st =
        batchLoop world follow size (fuel + 1) waits st') ∧
      st'.cursor = none ∧ PassFrom (world.stores waits) st'.reader rc rest ∧
      SameSettings st.reader st'.reader ∧ rest.length = out.length % size ∧
      st'.printed ++ rest = st.printed ++ out ∧
      st'.batches = st.batches + out.length / size ∧
      st'.resumes = st.resumes + out.length / size := by
  obtain ⟨r', rc', hloop, hpass, hsame⟩ := batchLoop_full world follow waits hsize
    (out.length / size) st hfresh h hid hnames (Nat.div_mul_le_self _ _)
  refine ⟨_, out.drop (out.length / size * size), hloop, hfresh, hpass, hsame,
    length_drop_full out size, ?_, rfl, rfl⟩
  rw [List.append_assoc, List.take_append_drop]

end Loop

/-! ## The program -/

section Program

variable {world : BatchWorld} {storeId : UInt64} {store : Store} {r r' : Reader}

/-- The reader that the program opens. -/
def openedFor (storeId : UInt64) (order : Order) : Reader :=
  recPlayerSetOrder order { storeId := some storeId }

theorem parseBatchSize_pos {text : Bytes} {size : ℕ} (h : parseBatchSize text = some size) :
    0 < size := by
  unfold parseBatchSize at h
  split at h
  · split at h
    · cases h
    · next hne =>
      obtain rfl := Option.some.inj h
      exact Nat.pos_of_ne_zero hne
  · cases h

/-- The arguments never set an empty batch.
SOURCE: batch_reader.c:81-93 -/
theorem parseBatchArgs_size (options : BatchOptions) (args : List Bytes)
    (hsize : 0 < options.batchSize) {result : BatchOptions × Bytes}
    (h : parseBatchArgs options args = some result) : 0 < result.1.batchSize := by
  fun_induction parseBatchArgs options args with
  | case1 => cases h
  | case2 =>
    obtain rfl := Option.some.inj h
    exact hsize
  | case3 => cases h
  | case4 options args hdash ih => exact ih hsize h
  | case5 => cases h
  | case6 => cases h
  | case7 options arg args n hn hdash hf ih => exact ih (parseBatchSize_pos hn) h
  | case8 => cases h
  | case9 options args hdash hf hb ih => exact ih hsize h
  | case10 => cases h
  | case11 options args hdash hf hb hs ih => exact ih hsize h
  | case12 => cases h

/-- A seek to the head makes a reader that goes forward.
SOURCE: librecorder.c:2503-2510 -/
theorem recPlayerSeekHead_reads (h : recPlayerSeekHead store r = (0, r')) :
    ReadsForward r' ∧ SameSettings r r' := by
  unfold recPlayerSeekHead iteratorInitialize at h
  dsimp only at h
  split at h
  · next sources _ =>
    obtain ⟨-, rfl⟩ := Prod.mk.inj h
    exact ⟨⟨rfl, rfl, rfl, rfl, rfl⟩, ⟨rfl, rfl, rfl, rfl, rfl, rfl, rfl, rfl⟩⟩
  · cases h

/-- A seek to the head looks at nothing but the settings.
SOURCE: librecorder.c:2503-2510 -/
theorem SameSettings.seekHead {s : Reader} (h : SameSettings r r')
    (hseek : recPlayerSeekHead store r = (0, s)) : recPlayerSeekHead store r' = (0, s) := by
  obtain ⟨hid, horder, hunit, hgroup, hc, hseq, hoff, hindex⟩ := h
  have hclear : clearEntries r' = { clearEntries r with orderChanged := r'.orderChanged } := by
    unfold clearEntries iteratorReset
    rw [hid, horder, hunit, hgroup, hc, hseq, hoff, hindex]
  have hsources : ∀ r : Reader, (iteratorCollectSources store r).sources =
      (sortPaths (collectSegmentPaths store r.groupFilter)).foldl addSourceSegment [] :=
    fun _ => rfl
  have hfilter : ∀ r : Reader, (iteratorCollectSources store r).unitFilter = r.unitFilter :=
    fun _ => rfl
  unfold recPlayerSeekHead iteratorInitialize at hseek ⊢
  rw [hclear]
  simp only [hsources, hfilter] at hseek ⊢
  split at hseek
  · exact hseek
  · cases hseek

/-- **Batches are one pass.** Without `-f` the program prints what `rec_player_next` gives from
the head until its result is not positive, whatever the size of a batch and the order. It counts
a batch for each begun one and a resume behind each full one.
SOURCE: batch_reader.c:115-183 -/
theorem batches_are_one_pass (world : BatchWorld) {args : List Bytes} {options : BatchOptions}
    {path : Bytes} (hargs : parseBatchArgs {} args = some (options, path))
    (hfollow : options.follow = false)
    (hseek : recPlayerSeekHead (world.stores 0) (openedFor storeId options.order) = (0, r))
    {fuel : ℕ} {rc : Int} {out : List StoredEntry}
    (hpass : readPass (world.stores 0) fuel r = some (rc, out))
    (hnames : ∀ e ∈ out, readerValidGroupName e.group = true ∧ e.group.length ≤ 63) :
    ∃ fuel', batchReader world true (some storeId) options fuel' =
      some ⟨rc, if rc < 0 then some .iterationFailed else none, out,
        out.length / options.batchSize +
          (if rc = 0 ∧ out.length % options.batchSize ≠ 0 then 1 else 0),
        out.length / options.batchSize⟩ := by
  have hsize : 0 < options.batchSize :=
    parseBatchArgs_size {} args (Nat.succ_pos 49) hargs
  obtain ⟨hreads, hsame⟩ := recPlayerSeekHead_reads hseek
  have hid : r.storeId = some storeId := by
    rw [hsame.storeId]
    unfold openedFor recPlayerSetOrder
    split <;> rfl
  obtain ⟨st', rest, hloop, hfresh, hlast, -, hlength, hprinted, hbatches, hresumes⟩ :=
    batchLoop_last world false 0 hsize { reader := r } rfl ⟨hreads, fuel, hpass⟩ hid hnames
  have hlt : rest.length < options.batchSize := by
    rw [hlength]
    exact Nat.mod_lt _ hsize
  have hempty : rest = [] ↔ out.length % options.batchSize = 0 := by
    rw [← hlength, List.length_eq_zero_iff]
  have hle : rc ≤ 0 := by
    obtain ⟨-, -, hle, -⟩ := readBatch_short _ st' hlast hlt
    exact hle
  refine ⟨0 + 1 + out.length / options.batchSize, ?_⟩
  unfold batchReader
  rw [openedFor] at hseek
  simp only [hseek]
  simp only [Bool.not_true, Bool.false_eq_true, if_false, ne_eq, not_true_eq_false, hfollow, hloop]
  rw [batchLoop]
  rcases Int.lt_or_eq_of_le hle with hneg | rfl
  · rw [batchTurn_fails hfresh hlast hlt hneg, hprinted, hbatches, hresumes, if_pos hneg,
      if_neg (fun h => absurd h.1 (by omega))]
    simp
  · rw [batchTurn_ends hfresh hlast hlt, hprinted, hbatches, hresumes]
    by_cases hrest : rest = []
    · simp [hrest, hempty.mp hrest]
    · have hmod : out.length % options.batchSize ≠ 0 := fun h => hrest (hempty.mpr h)
      simp [hrest, hmod]

/-- **The passes of `-f`**, one for each wait, until one does not end with a batch. -/
theorem batchLoop_follow (world : BatchWorld) {size : ℕ} (hsize : 0 < size) {opened : Reader}
    (hid : opened.storeId = some storeId) (outs : ℕ → List StoredEntry) {last : ℕ}
    (hpasses : ∀ i ≤ last, ∃ r fuel, recPlayerSeekHead (world.stores i) opened = (0, r) ∧
      readPass (world.stores i) fuel r = some (0, outs i))
    (hnames : ∀ i ≤ last, ∀ e ∈ outs i,
      readerValidGroupName e.group = true ∧ e.group.length ≤ 63)
    (n : ℕ) :
    ∀ (waits : ℕ) (st : BatchState), waits + n ≤ last → st.cursor = none →
      SameSettings opened st.reader → PassFrom (world.stores waits) st.reader 0 (outs waits) →
      (∀ i < n, size ∣ (outs (waits + i)).length) → ¬ size ∣ (outs (waits + n)).length →
      ∃ fuel batches resumes, batchLoop world true size fuel waits st =
        some ⟨0, some .cannotGetCursor,
          st.printed ++ (List.range (n + 1)).flatMap fun i => outs (waits + i), batches,
          resumes⟩ := by
  induction n with
  | zero =>
    intro waits st hwaits hfresh hsame h _ hpart
    obtain ⟨st', rest, hloop, hfresh', hlast, -, hlength, hprinted, -, -⟩ :=
      batchLoop_last world true waits hsize st hfresh h (hsame.storeId.trans hid)
        (hnames waits hwaits)
    have hlt : rest.length < size := by
      rw [hlength]
      exact Nat.mod_lt _ hsize
    have hne : rest ≠ [] := by
      rintro rfl
      exact hpart (Nat.dvd_of_mod_eq_zero hlength.symm)
    refine ⟨0 + 1 + (outs waits).length / size, st'.batches + 1, st'.resumes, ?_⟩
    rw [hloop, batchLoop, batchTurn_follow_stops hfresh' hlast hlt hne, hprinted]
    simp
  | succ n ih =>
    intro waits st hwaits hfresh hsame h hfull hpart
    -- the pass is full batches, and the turn behind them is empty
    obtain ⟨r, fuel, hseek, hpass⟩ := hpasses (waits + 1) (by omega)
    obtain ⟨hreads, hnext⟩ := recPlayerSeekHead_reads hseek
    have hmod : (outs waits).length % size = 0 :=
      Nat.mod_eq_zero_of_dvd (hfull 0 (Nat.succ_pos n))
    have hshift : ∀ i, waits + (i + 1) = waits + 1 + i := fun i => by omega
    obtain ⟨st', rest, hloop, hfresh', hlast, hsame', hlength, hprinted, -, -⟩ :=
      batchLoop_last world true waits hsize st hfresh h (hsame.storeId.trans hid)
        (hnames waits (by omega))
    obtain rfl : rest = [] := List.length_eq_zero_iff.mp (hlength.trans hmod)
    rw [List.append_nil] at hprinted
    obtain ⟨r', hsame'', hturn⟩ := batchTurn_follow_waits hfresh' hlast hsize
    have hagain := ((hsame.trans hsame').trans hsame'').seekHead hseek
    obtain ⟨fuel', batches, resumes, hrest⟩ := ih (waits + 1) { st' with reader := r, rc := 0 }
      (by omega) hfresh' hnext ⟨hreads, fuel, hpass⟩
      (fun i hi => by rw [← hshift]; exact hfull (i + 1) (Nat.succ_lt_succ hi))
      (by rw [← hshift]; exact hpart)
    refine ⟨fuel' + 1 + (outs waits).length / size, batches, resumes, ?_⟩
    rw [hloop, batchLoop, hturn, hagain]
    dsimp only
    simp only [ne_eq, not_true_eq_false, if_false]
    have hpasses' : (List.range (n + 1 + 1)).flatMap (fun i => outs (waits + i)) =
        outs waits ++ (List.range (n + 1)).flatMap fun i => outs (waits + 1 + i) := by
      rw [List.range_succ_eq_map, List.flatMap_cons, List.flatMap_map]
      congr 1
      apply List.flatMap_congr
      intro i _
      rw [← hshift]
    rw [hrest, hprinted, hpasses', List.append_assoc]

/-- **With `-f` the program starts over.** It waits only when the entries of a pass fill its
batches, and then prints the log from the head again, whatever has become of it. Behind a pass
with a rest it stops: the end of the log has no cursor. Its status is that of a success.
SOURCE: batch_reader.c:123-183, librecorder.c:2978-2984 -/
theorem follow_starts_over (world : BatchWorld) {args : List Bytes} {options : BatchOptions}
    {path : Bytes} (hargs : parseBatchArgs {} args = some (options, path))
    (hfollow : options.follow = true) (outs : ℕ → List StoredEntry) {n : ℕ}
    (hpasses : ∀ i ≤ n, ∃ r fuel,
      recPlayerSeekHead (world.stores i) (openedFor storeId options.order) = (0, r) ∧
        readPass (world.stores i) fuel r = some (0, outs i))
    (hnames : ∀ i ≤ n, ∀ e ∈ outs i,
      readerValidGroupName e.group = true ∧ e.group.length ≤ 63)
    (hfull : ∀ i < n, options.batchSize ∣ (outs i).length)
    (hpart : ¬ options.batchSize ∣ (outs n).length) :
    ∃ fuel batches resumes, batchReader world true (some storeId) options fuel =
      some ⟨0, some .cannotGetCursor, (List.range (n + 1)).flatMap outs, batches, resumes⟩ := by
  have hsize : 0 < options.batchSize :=
    parseBatchArgs_size {} args (Nat.succ_pos 49) hargs
  have hid : (openedFor storeId options.order).storeId = some storeId := by
    unfold openedFor recPlayerSetOrder
    split <;> rfl
  obtain ⟨r, fuel, hseek, hpass⟩ := hpasses 0 (Nat.zero_le n)
  obtain ⟨hreads, hsame⟩ := recPlayerSeekHead_reads hseek
  obtain ⟨fuel', batches, resumes, hloop⟩ := batchLoop_follow world hsize hid outs hpasses hnames n
    0 { reader := r } (Nat.zero_add n).le rfl hsame ⟨hreads, fuel, hpass⟩
    (fun i hi => by simpa using hfull i hi) (by simpa using hpart)
  refine ⟨fuel', batches, resumes, ?_⟩
  unfold batchReader
  rw [openedFor] at hseek
  simp only [hseek]
  simp only [Bool.not_true, Bool.false_eq_true, if_false, ne_eq, not_true_eq_false, hfollow, hloop]
  simp

end Program

/-! ## A log in batches -/

/-- A log that is there for the whole run. -/
def turnWorld : BatchWorld := ⟨fun _ => turnStore, fun _ => []⟩

/-- The pass over the log, in the order in which it was recorded. -/
theorem turnStore_pass :
    ∃ r out, recPlayerSeekHead turnStore (openedFor 7 .recorded) = (0, r) ∧
      readPass turnStore 5 r = some (0, out) ∧ out.map (·.data.realtimeTs) = [1, 2, 3, 4] ∧
      ∀ e ∈ out, readerValidGroupName e.group = true ∧ e.group.length ≤ 63 := by
  have hseek : (recPlayerSeekHead turnStore (openedFor 7 .recorded)).1 = 0 := by decide +kernel
  have hpass : (readPass turnStore 5
      (recPlayerSeekHead turnStore (openedFor 7 .recorded)).2).any (fun pass =>
        pass.1 = 0 ∧ pass.2.map (·.data.realtimeTs) = [1, 2, 3, 4] ∧
          ∀ e ∈ pass.2, readerValidGroupName e.group = true ∧ e.group.length ≤ 63) = true := by
    decide +kernel
  obtain ⟨⟨rc, out⟩, hread, hout⟩ := (Option.any_eq_true _ _).mp hpass
  obtain ⟨rfl, htimes, hnames⟩ := of_decide_eq_true hout
  exact ⟨_, out, Prod.ext hseek rfl, hread, htimes, hnames⟩

/-- The four entries in batches of three: two batches, and one resume. -/
theorem batches_are_one_pass_turnStore :
    ∃ fuel out, batchReader turnWorld true (some 7) { batchSize := 3 } fuel =
      some ⟨0, none, out, 2, 1⟩ ∧ out.map (·.data.realtimeTs) = [1, 2, 3, 4] := by
  obtain ⟨r, out, hseek, hpass, htimes, hnames⟩ := turnStore_pass
  have hlength : out.length = 4 := by
    rw [← List.length_map, htimes]
    rfl
  have hargs : parseBatchArgs {} [[0x2d, 0x62], [0x33], [0x2f]] =
      some ({ batchSize := 3 }, [0x2f]) := by decide
  obtain ⟨fuel, hrun⟩ := batches_are_one_pass turnWorld hargs rfl hseek hpass hnames
  refine ⟨fuel, out, ?_, htimes⟩
  rw [hrun, hlength]
  rfl

/-- A batch of three is full, the one behind it is not: the program stops at the end. -/
theorem follow_starts_over_turnStore :
    ∃ fuel out batches resumes,
      batchReader turnWorld true (some 7) { follow := true, batchSize := 3 } fuel =
        some ⟨0, some .cannotGetCursor, out, batches, resumes⟩ ∧
      out.map (·.data.realtimeTs) = [1, 2, 3, 4] := by
  obtain ⟨r, out, hseek, hpass, htimes, hnames⟩ := turnStore_pass
  have hlength : out.length = 4 := by
    rw [← List.length_map, htimes]
    rfl
  have hargs : parseBatchArgs {} [[0x2d, 0x66], [0x2d, 0x62], [0x33], [0x2f]] =
      some ({ follow := true, batchSize := 3 }, [0x2f]) := by decide
  obtain ⟨fuel, batches, resumes, hrun⟩ := follow_starts_over turnWorld hargs rfl
    (fun _ => out) (n := 0) (fun _ _ => ⟨r, 5, hseek, hpass⟩)
    (fun _ _ => hnames) (fun i hi => absurd hi (Nat.not_lt_zero i)) (by rw [hlength]; decide)
  refine ⟨fuel, out, batches, resumes, ?_, htimes⟩
  rw [hrun]
  simp

end Recorder.Analysis
