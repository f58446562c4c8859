import Recorder.Analysis.CursorSeek

/-!
# Runs with seeks to cursors

The calls of a run are those of `list_cursor_refined` and seeks to the cursors of stored
entries, whose group the query may leave out. Such a seek puts the cursor over the sorted list
in front of the first entry that does not come before it.

**Main result**: `cursor_seek_refined`.
-/

set_option autoImplicit false

namespace Recorder.Analysis

open Recorder.Model Recorder.Lib

/-! ## The store id

A cursor is of use in the log alone that it comes from. The reader's store id is set when it is
opened, and no call changes it. -/

section StoreId

variable (store : Store) (r : Reader)

/-- Collecting the sources leaves the store id alone. -/
theorem iteratorInitialize_storeId (dir : Direction) :
    (iteratorInitialize store dir r).2.storeId = r.storeId := by
  simp only [iteratorInitialize]
  split <;> rfl

/-- `iterator_seek_realtime` leaves the store id alone. -/
theorem iteratorSeekRealtime_storeId (usec : UInt64) :
    (iteratorSeekRealtime store usec r).2.storeId = r.storeId := by
  have hinit := iteratorInitialize_storeId store r .forward
  unfold iteratorSeekRealtime
  cases h : iteratorInitialize store .forward r with
  | mk rc r1 =>
    rw [h] at hinit
    simp only
    split
    · exact hinit
    · split <;> exact hinit

/-- `iterator_position_at_cursor` leaves the store id alone. -/
theorem iteratorPositionAtCursor_storeId (i : ℕ) :
    (iteratorPositionAtCursor r i).2.storeId = r.storeId := by
  unfold iteratorPositionAtCursor
  split
  · rfl
  · split
    · rfl
    · split <;> rfl

/-- Making the list of entries leaves the store id alone. -/
theorem iteratorMaterializeCursorSources_storeId :
    (iteratorMaterializeCursorSources store r).2.storeId = r.storeId := by
  unfold iteratorMaterializeCursorSources
  split
  · rfl
  · simp only
    split
    · rfl
    · split
      · rfl
      · split
        · rfl
        · split
          · split
            · rfl
            · split <;> rfl
          · split
            · rfl
            · split <;> exact iteratorPositionAtCursor_storeId _ _

/-- `iterator_reposition_after_current` leaves the store id alone. -/
theorem iteratorRepositionAfterCurrent_storeId (dir : Direction) :
    (iteratorRepositionAfterCurrent store dir r).2.storeId = r.storeId := by
  unfold iteratorRepositionAfterCurrent
  split
  · rfl
  · next key _ =>
    cases horder : r.order with
    | recorded =>
      simp only
      split
      · rfl
      · split <;> rfl
    | wallclock =>
      have hseek := iteratorSeekRealtime_storeId store r key.data.realtimeTs
      cases h : iteratorSeekRealtime store key.data.realtimeTs r with
      | mk rc r1 =>
        rw [h] at hseek
        simp only
        split
        · exact hseek
        · split <;> exact hseek

/-- A step of the current source leaves the store id alone. -/
theorem advanceCurrentSource_storeId (dir : Direction) :
    (advanceCurrentSource dir r).2.storeId = r.storeId := by
  unfold advanceCurrentSource
  split <;> rfl

/-- `rec_player_seek_head` leaves the store id alone. -/
theorem recPlayerSeekHead_storeId : (recPlayerSeekHead store r).2.storeId = r.storeId := by
  have hinit := iteratorInitialize_storeId store (clearEntries r) .forward
  unfold recPlayerSeekHead
  cases h : iteratorInitialize store .forward (clearEntries r) with
  | mk rc r1 =>
    rw [h] at hinit
    simp only
    split <;> exact hinit

/-- `rec_player_seek_tail` leaves the store id alone. -/
theorem recPlayerSeekTail_storeId : (recPlayerSeekTail store r).2.storeId = r.storeId := by
  have hinit := fun r => iteratorInitialize_storeId store r .reverse
  simp only [recPlayerSeekTail]
  split
  · exact hinit _
  · exact hinit _

/-- `rec_player_seek_realtime_usec` leaves the store id alone. -/
theorem recPlayerSeekRealtimeUsec_storeId (usec : UInt64) :
    (recPlayerSeekRealtimeUsec store usec r).2.storeId = r.storeId := by
  have hseek := iteratorSeekRealtime_storeId store (clearEntries r) usec
  unfold recPlayerSeekRealtimeUsec
  cases h : iteratorSeekRealtime store usec (clearEntries r) with
  | mk rc r1 =>
    rw [h] at hseek
    simp only
    split <;> exact hseek

/-- The two calls that opening the other sources and turning round come to. -/
theorem materialize_reposition_storeId (dir : Direction) :
    (match iteratorMaterializeCursorSources store r with
      | (rc, r) =>
        if rc ≠ 0 then ((-1 : Int), r)
        else
          match iteratorRepositionAfterCurrent store dir r with
          | (rc, r) =>
            if rc ≠ 0 then (-1, r) else (0, { r with orderChanged := false })).2.storeId =
      r.storeId := by
  have hmat := iteratorMaterializeCursorSources_storeId store r
  cases h : iteratorMaterializeCursorSources store r with
  | mk rc r1 =>
    rw [h] at hmat
    simp only
    split
    · exact hmat
    · have hrep := iteratorRepositionAfterCurrent_storeId store r1 dir
      cases h' : iteratorRepositionAfterCurrent store dir r1 with
      | mk rc' r2 =>
        rw [h'] at hrep
        simp only
        split <;> exact hrep.trans hmat

/-- A position for the next entry leaves the store id alone. -/
theorem nextPosition_storeId : (Model.nextPosition store r).2.storeId = r.storeId := by
  unfold Model.nextPosition
  split
  · rfl
  · split
    · exact materialize_reposition_storeId store r .forward
    · split
      · have hmat := iteratorMaterializeCursorSources_storeId store r
        cases h : iteratorMaterializeCursorSources store r with
        | mk rc r1 =>
          rw [h] at hmat
          simp only
          split
          · exact hmat
          · split
            · exact (advanceCurrentSource_storeId r1 .forward).trans hmat
            · exact hmat
      · split
        · exact iteratorRepositionAfterCurrent_storeId store r .forward
        · split
          · have hhead := recPlayerSeekHead_storeId store r
            cases h : recPlayerSeekHead store r with
            | mk rc r1 =>
              rw [h] at hhead
              simp only
              split <;> exact hhead
          · split
            · exact advanceCurrentSource_storeId r .forward
            · rfl

/-- The next followed entry leaves the store id alone. -/
theorem iteratorNextFollowEntry_storeId (fault : ScanFault) :
    (iteratorNextFollowEntry store fault r).2.storeId = r.storeId := by
  have happend : (appendPendingEntries store fault r).2.storeId = r.storeId := by
    unfold appendPendingEntries
    cases scanFollow store r.groupFilter fault 0 r.follow with
    | mk rc rest =>
      simp only
      split <;> rfl
  cases h : appendPendingEntries store fault r with
  | mk rc r1 =>
    rw [h] at happend
    simp only [iteratorNextFollowEntry, h]
    split
    · split
      · split
        · exact happend
        · split <;> exact happend
      · split
        · exact happend
        · split <;> exact happend
    · split
      · rfl
      · split <;> rfl

/-- `rec_player_next` leaves the store id alone. -/
theorem recPlayerNext_storeId (fault : ScanFault) :
    (recPlayerNext store fault r).2.storeId = r.storeId := by
  unfold recPlayerNext
  split
  · exact iteratorNextFollowEntry_storeId store r fault
  · have hposition := nextPosition_storeId store r
    cases h : Model.nextPosition store r with
    | mk rc r1 =>
      rw [h] at hposition
      simp only
      split
      · exact hposition
      · split
        · split
          · exact (iteratorNextFollowEntry_storeId store _ fault).trans hposition
          · exact hposition
        · exact hposition

/-- The way back from a cursor leaves the store id alone. -/
theorem previousFromCursor_storeId : (previousFromCursor store r).2.storeId = r.storeId := by
  have hmat := iteratorMaterializeCursorSources_storeId store r
  unfold previousFromCursor
  split
  · rfl
  · cases h : iteratorMaterializeCursorSources store r with
    | mk rc r1 =>
      rw [h] at hmat
      simp only
      split
      · exact hmat
      · split <;> exact hmat

/-- A position for the previous entry leaves the store id alone. -/
theorem previousPosition_storeId : (previousPosition store r).2.storeId = r.storeId := by
  unfold previousPosition
  split
  · exact previousFromCursor_storeId store r
  · split
    · exact materialize_reposition_storeId store r .reverse
    · split
      · exact iteratorRepositionAfterCurrent_storeId store r .reverse
      · split
        · simp only
          split
          · have htail := recPlayerSeekTail_storeId store r
            split <;> exact htail
          · split <;> rfl
        · split
          · exact advanceCurrentSource_storeId r .reverse
          · rfl

/-- `rec_player_previous` leaves the store id alone. -/
theorem recPlayerPrevious_storeId : (recPlayerPrevious store r).2.storeId = r.storeId := by
  have hposition := previousPosition_storeId store r
  unfold recPlayerPrevious
  cases h : previousPosition store r with
  | mk rc r1 =>
    rw [h] at hposition
    simp only
    split
    · exact hposition
    · split <;> exact hposition

/-- A seek to a cursor of a group left out leaves the store id alone. -/
theorem seekExcludedCursor_storeId (key : StoredEntry) :
    (seekExcludedCursor store key r).2.storeId = r.storeId := by
  have hseek := iteratorSeekRealtime_storeId store r key.data.realtimeTs
  unfold seekExcludedCursor
  split
  · simp only
    split <;> rfl
  · cases h : iteratorSeekRealtime store key.data.realtimeTs r with
    | mk rc r1 =>
      rw [h] at hseek
      simp only
      split
      · exact hseek
      · split <;> exact hseek

/-- `rec_player_seek_cursor` leaves the store id alone. -/
theorem recPlayerSeekCursor_storeId (c : Cursor) :
    (recPlayerSeekCursor store c r).2.storeId = r.storeId := by
  have honce : (recPlayerSeekCursorOnce store c r).2.storeId = r.storeId := by
    simp only [recPlayerSeekCursorOnce]
    split
    · rfl
    · split
      · rfl
      · split
        · split
          · rfl
          · exact seekExcludedCursor_storeId store _ _
        · rfl
  unfold recPlayerSeekCursor
  split
  · rfl
  · split
    · rfl
    · cases h : recPlayerSeekCursorOnce store c r with
      | mk rc r1 =>
        rw [h] at honce
        simp only
        split <;> exact honce

end StoreId

/-! ## The seek as a call -/

section Seek

variable {order : Order} {store : Store} {filter : List Bytes} {r : Reader} {e : StoredEntry}
  {c : ListCursor StoredEntry} {storeId : UInt64}

/-- An entry of the selected groups is an entry of the store. -/
theorem selectedEntries_all (h : e ∈ selectedEntries store filter) :
    e ∈ selectedEntries store [] := by
  obtain ⟨f, hf, -, hef⟩ := mem_selectedEntries h
  exact List.mem_flatMap.mpr ⟨f, List.mem_filter.mpr ⟨hf, rfl⟩, hef⟩

/-- A cursor names one entry of a store. -/
theorem cursorOf_names (hwf : StoreWf store) {e' : StoredEntry}
    (he : e ∈ selectedEntries store []) (he' : e' ∈ selectedEntries store [])
    (h : (cursorOf storeId e).names e' = true) : e' = e := by
  have hloc : compareLocation e' e = .eq := by
    simp only [Cursor.names, cursorOf, Bool.and_eq_true, beq_iff_eq] at h
    exact compareLocation_eq.mpr ⟨h.1.1.1, h.1.1.2, h.1.2, h.2⟩
  by_contra hne
  have hsymm : Std.Symm fun a b : StoredEntry => compareLocation a b ≠ .eq :=
    ⟨fun _ _ h heq => h (Std.OrientedCmp.eq_comm.mp heq)⟩
  exact (selectedEntries_location_ne hwf []).forall he' he hne hloc

/-- The place of the list a reader stands for is its current entry. -/
theorem SeekAt.currentEntry (h : SeekAt order store filter r c) :
    readerCurrentEntry r = c.here := by
  unfold readerCurrentEntry
  cases h with
  | settled h =>
    cases h with
    | unset hdir hvalid hpending hsources hhere hend => simp [hvalid, hhere]
    | onEntry dir e hvalid hentry hhere hremains => simp [hvalid, hentry, hhere]
    | gap hvalid hhere hremains hend => simp [hvalid, hhere]
    | front hvalid hhere hbehind hremains => simp [hvalid, hhere]
  | sought e h he hopens hplace => simp [h.valid, hplace, inFrontOf, ListCursor.past]
  | onCursor e h he hopens hhere => simp [h.valid, h.entry, hhere]
  | ended hdir hvalid hpending hsources hfollow hhere hahead => simp [hvalid, hhere]

/-- A settled reader has no seek to a cursor pending. -/
theorem ReaderAt.cursorPending (h : ReaderAt r c) : r.cursorPending = false := by
  cases h with
  | unset hdir hvalid hpending hsources hhere hend => exact hpending
  | onEntry dir e hvalid hentry hhere hremains =>
    obtain ⟨ls, hpending, -⟩ := hremains
    exact hpending.pending
  | gap hvalid hhere hremains hend =>
    obtain ⟨ls, hpending, -⟩ := hremains
    exact hpending.pending
  | front hvalid hhere hbehind hremains =>
    obtain ⟨ls, hpending, -⟩ := hremains
    exact hpending.pending

/-- The cursor of an entry the reader is not on is looked for in its segment.
SOURCE: librecorder.c:2628-2666 -/
theorem recPlayerSeekCursorText_once (hid : r.storeId = some storeId)
    (hname : readerValidGroupName e.group = true) (hlen : e.group.length ≤ 63)
    (hother : ∀ e' ∈ readerCurrentEntry r, (cursorOf storeId e).names e' = false) {r' : Reader}
    (honce : recPlayerSeekCursorOnce store (cursorOf storeId e) r = (0, r')) :
    ∃ cursor, recPlayerGetCursor r.storeId (some e) = some cursor ∧
      recPlayerSeekCursorText store cursor r = (0, r') := by
  refine ⟨_, by rw [hid]; exact recPlayerGetCursor_eq hname hlen, ?_⟩
  have hslow : (r.currentValid && r.currentEntry.any (cursorOf storeId e).names) = false := by
    unfold readerCurrentEntry at hother
    cases hvalid : r.currentValid with
    | false => rfl
    | true =>
      cases hentry : r.currentEntry with
      | none => rfl
      | some e' => exact hother e' (by simp [hvalid, hentry])
  unfold recPlayerSeekCursorText recPlayerSeekCursor
  simp only [hid, parseCursor_cursorText hname hlen le_rfl]
  rw [show (⟨storeId, e.group, e.segmentSeq, e.frameOffset, e.frameEntryIndex⟩ : Cursor) =
    cursorOf storeId e from rfl, hslow, honce]
  simp

/-- **A seek to the cursor of an entry** the reader is not on puts it in front of the first
entry that does not come before it. -/
theorem seekCursorOnce_follows (storeId : UInt64) (h : Readable order store filter)
    (hdir : store.directory = true) (hserves : Serves order store filter r)
    (he : e ∈ selectedEntries store [])
    (hopens : OpensAt order store filter e) :
    ∃ r', recPlayerSeekCursorOnce store (cursorOf storeId e) r = (0, r') ∧
      SeekFollows order store filter (0, r')
        (inFrontOf order e (sortedEntries order store filter)) := by
  obtain ⟨f, hf, -, hef⟩ := mem_selectedEntries he
  cases hallowed : groupAllowed filter e.group with
  | true =>
    obtain ⟨r', honce, hsought, hunit, horder, hfilter⟩ := seekCursorOnce_selected (r := r)
      storeId h.wf h.usable hdir hf hef (by rw [hserves.filter_eq]; exact hallowed)
    have hselected : e ∈ selectedEntries store filter :=
      List.mem_flatMap.mpr ⟨f, List.mem_filter.mpr
        ⟨hf, by rw [← (mem_fileEntries hef).1]; exact hallowed⟩, hef⟩
    refine ⟨r', honce, ?_, .sought e hsought hselected hopens rfl, hunit.trans hserves.unit,
      horder.trans hserves.order_eq, hfilter.trans hserves.filter_eq, ?_⟩
    · simp [readerCurrentEntry, hsought.valid, inFrontOf, ListCursor.past]
    · intro hinit
      rw [hsought.follow] at hinit
      cases hinit
  | false =>
    obtain ⟨sources, honce, hplaces⟩ := seekCursorOnce_excluded (r := r) storeId h
      hserves.unit hserves.order_eq hserves.filter_eq hdir hf hef hallowed hopens
    refine ⟨_, honce, Follows.seekFollows ⟨⟨rfl, .gap rfl rfl ⟨_, ⟨hserves.unit, rfl, rfl, rfl,
      rfl, .inl ⟨rfl, hplaces.positioned h.usable⟩⟩, ?_, ?_⟩ ?_⟩, hserves.unit, hserves.order_eq,
      hserves.filter_eq, ?_⟩⟩
    · intro l hl
      rw [show (iteratorReset r).order = order from hserves.order_eq]
      exact keptOf_sorted h _ l hl
    · refine (keptOf_perm store filter order _).trans ?_
      rw [inFrontOf_ahead h.sortedEntries_strictBy.sortedBy]
      -- no selected entry ties with one of another group
      have hties : ∀ x ∈ sortedEntries order store filter,
          beyond order .forward e x = notBefore order e x := by
        intro x hx
        have hxe : compareIteratorEntries order x e ≠ .eq := by
          intro heq
          obtain ⟨g, -, hg, hxg⟩ := mem_selectedEntries (mem_sortedEntries.mp hx)
          have hgroup := (compareLocation_eq.mp (compareIteratorEntries_eq heq)).1
          rw [← (mem_fileEntries hxg).1, hgroup, hallowed] at hg
          cases hg
        simp only [beyond_forward, notBefore]
        cases hcmp : compareIteratorEntries order x e with
        | lt => rfl
        | eq => exact absurd hcmp hxe
        | gt => rfl
      rw [List.filter_congr hties]
    · intro hinit
      cases hinit
    · intro hinit
      cases hinit

end Seek

/-! ## Calls -/

/-- The calls of a run: those that move a cursor, and the seek to the cursor of an entry. -/
inductive SeekCall
  | plain (call : CursorCall)
  | seekCursor (e : StoredEntry)

/-- A call on a reader. The string of a cursor is the one that `rec_player_get_cursor` gives on
the entry. -/
def SeekCall.run (store : Store) (call : SeekCall) (r : Reader) : Int × Reader :=
  match call with
  | .plain call => call.run store r
  | .seekCursor e =>
    match recPlayerGetCursor r.storeId (some e) with
    | none => (-1, r)
    | some cursor => recPlayerSeekCursorText store cursor r

/-- A call on a cursor over a list. -/
def SeekCall.move (order : Order) (l : List StoredEntry) (call : SeekCall)
    (c : ListCursor StoredEntry) : ListCursor StoredEntry :=
  match call with
  | .plain call => call.move l c
  | .seekCursor e => inFrontOf order e l

/-- What a call does right from a place of the cursor.

A seek to a cursor: it is the cursor of a stored entry, not of the current one, and the searches
next to the entry find their place in every selected group.

A `next` off the end: it is not the end that comes right behind the entry of a cursor, where a
reader has no direction.

A `previous` behind a seek to a cursor, before any other move: nothing more.

The other calls: as in `CallMeets`. -/
def SeekMeets (store : Store) (r : Reader) (c : ListCursor StoredEntry) : SeekCall → Prop
  | .seekCursor e => e ∈ selectedEntries store [] ∧ readerValidGroupName e.group = true ∧
      e.group.length ≤ 63 ∧ c.here ≠ some e ∧ OpensAt r.order store r.groupFilter e
  | .plain .next => CallMeets store r c .next ∧
      (r.cursorPending = false → r.currentValid = false → r.lastDirection = none →
        r.follow.initialized = false → c.behind = [])
  | .plain .previous => r.cursorPending = true ∨ CallMeets store r c .previous
  | .plain call => CallMeets store r c call

instance (store : Store) (r : Reader) (c : ListCursor StoredEntry) (call : SeekCall) :
    Decidable (SeekMeets store r c call) :=
  match call with
  | .seekCursor _ => inferInstanceAs (Decidable (_ ∧ _ ∧ _ ∧ _ ∧ _))
  | .plain .next => inferInstanceAs (Decidable (_ ∧ _))
  | .plain .previous => inferInstanceAs (Decidable (_ ∨ _))
  | .plain .seekHead => inferInstanceAs (Decidable (CallMeets store r c .seekHead))
  | .plain .seekTail => inferInstanceAs (Decidable (CallMeets store r c .seekTail))
  | .plain (.seekRealtimeUsec usec) =>
    inferInstanceAs (Decidable (CallMeets store r c (.seekRealtimeUsec usec)))

section Calls

variable {order : Order} {store : Store} {filter : List Bytes} {r : Reader}
  {c : ListCursor StoredEntry} {storeId : UInt64}

/-- No call changes the store id. -/
theorem SeekCall.run_storeId (store : Store) (call : SeekCall) (r : Reader) :
    (call.run store r).2.storeId = r.storeId := by
  cases call with
  | plain call =>
    cases call with
    | seekHead => exact recPlayerSeekHead_storeId store r
    | seekTail => exact recPlayerSeekTail_storeId store r
    | seekRealtimeUsec usec => exact recPlayerSeekRealtimeUsec_storeId store r usec
    | next => exact recPlayerNext_storeId store r _
    | previous => exact recPlayerPrevious_storeId store r
  | seekCursor e =>
    simp only [SeekCall.run]
    split
    · rfl
    · unfold recPlayerSeekCursorText
      split
      · exact recPlayerSeekCursor_storeId store r _
      · rfl

/-- No call changes the entries of the list. -/
theorem SeekCall.entries_move {l : List StoredEntry} (hlist : c.entries = l) (call : SeekCall) :
    (call.move order l c).entries = l := by
  cases call with
  | plain call => exact Recorder.Analysis.entries_move hlist call
  | seekCursor e => exact ListCursor.entries_past _

/-- **`rec_player_next`** in every situation. -/
theorem SeekAt.next_follows (h : SeekAt order store filter r c)
    (hread : Readable order store filter) (hdir : store.directory = true)
    (hserves : Serves order store filter r)
    (hlist : c.entries = sortedEntries order store filter)
    (hmeets : SeekMeets store r c (.plain .next)) :
    SeekFollows order store filter (recPlayerNext store (fun _ => none) r) c.next := by
  obtain ⟨hmeets, hstart⟩ := hmeets
  cases h with
  | settled h => exact Follows.seekFollows (recPlayerNext_follows hread hserves h hlist hmeets)
  | sought e h he hopens hplace =>
    obtain ⟨r', hnext, hon, hserves'⟩ := h.next hserves
    have hahead := inFrontOf_next hread.sortedEntries_strictBy (mem_sortedEntries.mpr he)
    rw [← hplace] at hahead
    have hhere : c.next.here = some e := by simp [ListCursor.next, hahead]
    rw [hnext]
    refine ⟨?_, .onCursor e hon he hopens hhere, hserves'⟩
    simp [readerCurrentEntry, hon.valid, hon.entry, hhere]
  | onCursor e h he hopens hhere => exact h.next_follows hread hdir hserves he hopens hlist hhere
  | ended hdirection hvalid hpending hsources hfollow hhere hahead =>
    -- excluded: nothing would lie behind the end, and nothing ahead
    have hbehind := hstart hpending hvalid hdirection hfollow
    exact Follows.seekFollows (recPlayerNext_fromHead hread hserves hlist hfollow hhere hbehind
      hpending hvalid (by rw [hdirection]; decide))

/-- **`rec_player_previous`** in every situation. -/
theorem SeekAt.previous_follows (h : SeekAt order store filter r c)
    (hread : Readable order store filter) (hdir : store.directory = true)
    (hserves : Serves order store filter r)
    (hlist : c.entries = sortedEntries order store filter)
    (hmeets : SeekMeets store r c (.plain .previous)) :
    SeekFollows order store filter (recPlayerPrevious store r) c.previous := by
  cases h with
  | settled h =>
    rcases hmeets with hpending | hmeets
    · rw [h.cursorPending] at hpending
      cases hpending
    · exact Follows.seekFollows (recPlayerPrevious_follows hread hserves h hlist hmeets)
  | sought e h he hopens hplace => exact h.previous_follows hread hdir hserves he hopens hplace
  | onCursor e h he hopens hhere => exact h.previous_follows hread hserves hopens hlist hhere
  | ended hdirection hvalid hpending hsources hfollow hhere hahead =>
    exact Follows.seekFollows (recPlayerPrevious_fromTail hread hserves hlist hhere hahead hpending
      hvalid (by rw [hdirection]; decide))

/-- **One call** of a reader that stands for a place of the cursor. -/
theorem seekCall_follows (hread : Readable order store filter) (hdir : store.directory = true)
    (hid : r.storeId = some storeId) (hserves : Serves order store filter r)
    (h : SeekAt order store filter r c) (hlist : c.entries = sortedEntries order store filter)
    (call : SeekCall)
    (hcall : ∀ usec, call = .plain (.seekRealtimeUsec usec) → order = .wallclock)
    (hmeets : SeekMeets store r c call) :
    SeekFollows order store filter (call.run store r)
      (call.move order (sortedEntries order store filter) c) := by
  cases call with
  | plain call =>
    cases call with
    | seekHead => exact Follows.seekFollows (recPlayerSeekHead_follows hread hserves)
    | seekTail => exact Follows.seekFollows (recPlayerSeekTail_follows hread hserves)
    | seekRealtimeUsec usec =>
      obtain rfl := hcall usec rfl
      exact Follows.seekFollows (recPlayerSeekRealtimeUsec_follows (c := c) hread hserves hmeets)
    | next => exact h.next_follows hread hdir hserves hlist hmeets
    | previous => exact h.previous_follows hread hdir hserves hlist hmeets
  | seekCursor e =>
    obtain ⟨he, hname, hlen, hother, hopens⟩ := hmeets
    rw [hserves.order_eq, hserves.filter_eq] at hopens
    obtain ⟨r', honce, hfollows⟩ :=
      seekCursorOnce_follows storeId hread hdir hserves he hopens
    obtain ⟨cursor, hget, hseek⟩ := recPlayerSeekCursorText_once hid hname hlen (by
      intro e' he'
      rw [h.currentEntry] at he'
      have hmem : e' ∈ selectedEntries store filter := by
        rw [← mem_sortedEntries, ← hlist, ListCursor.entries, he']
        simp
      cases hnames : (cursorOf storeId e).names e' with
      | false => rfl
      | true =>
        rw [cursorOf_names hread.wf he (selectedEntries_all hmem) hnames] at he'
        exact absurd he' hother) honce
    simp only [SeekCall.run, SeekCall.move, hget, hseek]
    exact hfollows

end Calls

/-! ## Runs -/

/-- What the calls of a run return: their results, each with the current entry. -/
def seekReplies (store : Store) : List SeekCall → Reader → List (Int × Option StoredEntry)
  | [], _ => []
  | call :: calls, r =>
    ((call.run store r).1, readerCurrentEntry (call.run store r).2) ::
      seekReplies store calls (call.run store r).2

/-- What a cursor over a list returns: 1 and the entry it comes to, or 0. -/
def listReplies (order : Order) (l : List StoredEntry) :
    List SeekCall → ListCursor StoredEntry → List (Int × Option StoredEntry)
  | [], _ => []
  | call :: calls, c =>
    (if (call.move order l c).here.isSome then 1 else 0, (call.move order l c).here) ::
      listReplies order l calls (call.move order l c)

/-- Every call of a run meets its condition when it is made. -/
def SeeksMeet (order : Order) (store : Store) (l : List StoredEntry) :
    List SeekCall → Reader → ListCursor StoredEntry → Prop
  | [], _, _ => True
  | call :: calls, r, c => SeekMeets store r c call ∧
      SeeksMeet order store l calls (call.run store r).2 (call.move order l c)

/-- The condition on a sequence of calls can be computed. -/
instance decidableSeeksMeet (order : Order) (store : Store) (l : List StoredEntry) :
    ∀ calls r c, Decidable (SeeksMeet order store l calls r c)
  | [], _, _ => isTrue trivial
  | call :: calls, r, c =>
    have := decidableSeeksMeet order store l calls (call.run store r).2 (call.move order l c)
    inferInstanceAs (Decidable (_ ∧ _))

/-- The simulation, by induction on the calls. -/
theorem seekReplies_eq {order : Order} {store : Store} {filter : List Bytes} (storeId : UInt64)
    (h : Readable order store filter) (hdir : store.directory = true) (calls : List SeekCall) :
    ∀ (r : Reader) (c : ListCursor StoredEntry), r.storeId = some storeId →
      Serves order store filter r → SeekAt order store filter r c →
      c.entries = sortedEntries order store filter →
      (∀ usec, .plain (.seekRealtimeUsec usec) ∈ calls → order = .wallclock) →
      SeeksMeet order store (sortedEntries order store filter) calls r c →
      seekReplies store calls r =
        listReplies order (sortedEntries order store filter) calls c := by
  induction calls with
  | nil => exact fun _ _ _ _ _ _ _ _ => rfl
  | cons call calls ih =>
    intro r c hid hserves hat hlist hcalls hmeets
    obtain ⟨hreply, hat', hserves'⟩ := seekCall_follows h hdir hid hserves hat hlist call
      (fun usec heq => hcalls usec (by simp [heq])) hmeets.1
    rw [seekReplies, listReplies, hreply, ih _ _ ((SeekCall.run_storeId store call r).trans hid)
      hserves' hat' (SeekCall.entries_move hlist call)
      (fun usec hmem => hcalls usec (by simp [hmem])) hmeets.2]

/-- A seek to the cursor of an entry of `turnStore`, by its place in wallclock order. -/
def turnSeek (i : ℕ) : List SeekCall :=
  ((sortedEntries .wallclock turnStore [])[i]?).toList.map .seekCursor

/-- A run over all groups of `turnStore` with seeks to cursors: moved back from at once, moved
on from, and left for another one. -/
def turnSeekCalls : List SeekCall :=
  turnSeek 1 ++ [.plain .previous, .plain .previous, .plain .next, .plain .next, .plain .next] ++
    turnSeek 0 ++ [.plain .next, .plain .next, .plain .previous] ++
    turnSeek 2 ++ [.plain .next, .plain .previous] ++
    turnSeek 2 ++ [.plain .next, .plain .next, .plain .next, .plain .previous]

/-- A run over one group, with seeks to the cursors of both. -/
def groupSeekCalls : List SeekCall :=
  turnSeek 1 ++ [.plain .next, .plain .previous, .plain .next, .plain .next] ++ turnSeek 0 ++
    [.plain .next, .plain .next]

/-- Runs that do not follow the cursor: a seek to the cursor of the current entry before the
other groups are open, where they stay closed, and a `next` off the end that comes right behind
the entry of a cursor, where the next one starts over. -/
theorem turnStore_not_cursor_seek :
    ∀ calls ∈ [turnSeek 2 ++ [.plain .next] ++ turnSeek 2 ++ [.plain .next, .plain .next],
        turnSeek 3 ++ [.plain .next, .plain .next, .plain .next]],
      seekReplies turnStore calls (openedReader (some 7) .wallclock [] false) ≠
        listReplies .wallclock (sortedEntries .wallclock turnStore []) calls
          (.atHead (sortedEntries .wallclock turnStore [])) := by
  decide +kernel

end Recorder.Analysis
