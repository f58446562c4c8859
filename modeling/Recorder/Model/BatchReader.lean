import Recorder.Model.Cursor
import Recorder.Model.Reader

/-!
# `batch_reader.c`: reading in batches

The program reads a log directory in batches: behind each batch it keeps the cursor of the last
entry, seeks to it in front of the next batch and skips that entry. With `-f` it waits at the
end of the log and goes on. What stands on disk may change with each wait, so the loop gets a
store for each number of waits. Printing to the standard output does not fail.
-/

set_option autoImplicit false

namespace Recorder.Model

open Recorder.Lib

/-! ## The reader's interface -/

/-- `rec_player_set_order`, with an order of the enumeration.
SOURCE: librecorder.c:1035-1048 -/
def recPlayerSetOrder (order : Order) (r : Reader) : Reader :=
  if r.order = order then r else { r with order := order, orderChanged := true }

/-- `current_entry`.
SOURCE: librecorder.c:2476-2480 -/
def readerCurrentEntry (r : Reader) : Option StoredEntry :=
  if r.currentValid then r.currentEntry else none

/-- `rec_player_seek_cursor` with the string of a cursor.
SOURCE: librecorder.c:2628-2641 -/
def recPlayerSeekCursorText (store : Store) (cursor : Bytes) (r : Reader) : Int × Reader :=
  match r.storeId, parseCursor (some cursor) 64 with
  | some _, some c => recPlayerSeekCursor store
      ⟨c.storeId, c.group, c.segmentSeq, c.frameOffset, c.frameEntryIndex⟩ r
  | _, _ => (-1, r)

/-- `rec_player_test_cursor`.
SOURCE: librecorder.c:2668-2684 -/
def recPlayerTestCursor (cursor : Bytes) (r : Reader) : Int :=
  match readerCurrentEntry r, r.storeId, parseCursor (some cursor) 64 with
  | some e, some storeId, some c =>
    if c.storeId ≠ storeId then -1
    else if (Cursor.mk c.storeId c.group c.segmentSeq c.frameOffset c.frameEntryIndex).names e then
      1
    else 0
  | _, _, _ => -1

/-! ## The arguments -/

/-- What the arguments set, with the defaults of `main`. -/
structure BatchOptions where
  follow : Bool := false
  batchSize : ℕ := 50
  order : Order := .recorded
  deriving DecidableEq, Repr

/-- The argument of `-b`.
SOURCE: batch_reader.c:81-93 -/
def parseBatchSize (text : Bytes) : Option ℕ :=
  match strtoull text with
  | (some value, []) => if value = 0 then none else some value
  | _ => none

/-- "wallclock" -/
def wallclockName : Bytes := [0x77, 0x61, 0x6c, 0x6c, 0x63, 0x6c, 0x6f, 0x63, 0x6b]

/-- The arguments behind the program's name: the options, then the path. `none` is the usage
message.
SOURCE: batch_reader.c:78-114 -/
def parseBatchArgs : BatchOptions → List Bytes → Option (BatchOptions × Bytes)
  | _, [] => none
  | options, arg :: args =>
    if arg.head? ≠ some 0x2d then if args = [] then some (options, arg) else none
    else if arg = [0x2d, 0x66] then parseBatchArgs { options with follow := true } args
    else if arg = [0x2d, 0x62] then
      match args with
      | [] => none
      | size :: args =>
        match parseBatchSize size with
        | none => none
        | some size => parseBatchArgs { options with batchSize := size } args
    else if arg = [0x2d, 0x2d, 0x73, 0x6f, 0x72, 0x74] then
      match args with
      | [] => none
      | name :: args =>
        if name = wallclockName then parseBatchArgs { options with order := .wallclock } args
        else none
    else if arg = [0x2d, 0x2d, 0x73, 0x6f, 0x72, 0x74, 0x3d] ++ wallclockName then
      parseBatchArgs { options with order := .wallclock } args
    else none

/-! ## The loop -/

/-- The messages the program ends with. -/
inductive BatchError
  | cannotOpen
  | cannotResume
  | cursorUnavailable
  | cannotPrint
  | iterationFailed
  | cannotRescan
  | cannotGetCursor
  deriving DecidableEq, Repr

/-- The variables of `main`; `printed` are the entries on the standard output, and their number
is `entries`. -/
structure BatchState where
  reader : Reader
  cursor : Option Bytes := none
  rc : Int := 1
  printed : List StoredEntry := []
  batches : ℕ := 0
  resumes : ℕ := 0

/-- What `main` returns, its message if it has one, and what it has printed and counted. -/
structure BatchResult where
  status : Int
  error : Option BatchError
  printed : List StoredEntry
  batches : ℕ
  resumes : ℕ

/-- `goto out`: the status is the last result of the reader. -/
def BatchState.failed (st : BatchState) (error : BatchError) : BatchResult :=
  ⟨st.rc, some error, st.printed, st.batches, st.resumes⟩

/-- The end of the loop. -/
def BatchState.finished (st : BatchState) : BatchResult :=
  ⟨0, none, st.printed, st.batches, st.resumes⟩

/-- The beginning of a turn that has a cursor: seek to it, select its entry and skip it.
SOURCE: batch_reader.c:126-141 -/
def resumeBatch (store : Store) (cursor : Bytes) (st : BatchState) :
    Except BatchError BatchState :=
  match recPlayerSeekCursorText store cursor st.reader with
  | (rc, r) =>
    if rc ≠ 0 then .error .cannotResume
    else
      match recPlayerNext store (fun _ => none) r with
      | (rc, r) =>
        if rc ≠ 1 ∨ recPlayerTestCursor cursor r ≠ 1 then .error .cursorUnavailable
        else .ok { st with reader := r, cursor := none, resumes := st.resumes + 1 }

/-- The inner loop, with room for `n` more entries: how many were printed, and the variables. It
fails when there is no entry to print.
SOURCE: batch_reader.c:142-149 -/
def readBatch (store : Store) : ℕ → BatchState → Except BatchState (ℕ × BatchState)
  | 0, st => .ok (0, st)
  | n + 1, st =>
    match recPlayerNext store (fun _ => none) st.reader with
    | (rc, r) =>
      if rc > 0 then
        match readerCurrentEntry r with
        | none => .error { st with reader := r, rc := rc }
        | some e =>
          match readBatch store n
              { st with reader := r, rc := rc, printed := st.printed ++ [e] } with
          | .error st => .error st
          | .ok (count, st) => .ok (count + 1, st)
      else .ok (0, { st with reader := r, rc := rc })

/-- `wait_for_reader_change`, as far as the reader knows of it: events that have come are
processed.
SOURCE: batch_reader.c:26-48 -/
def waitForReaderChange (events : List FollowEvent) (r : Reader) : Reader :=
  if events.isEmpty then r else { r with follow := (recPlayerProcess true events r.follow).2 }

/-- How a turn of the loop ends. -/
inductive BatchTurn
  /-- The next turn follows at once. -/
  | again (st : BatchState)
  /-- The next turn follows behind a wait. -/
  | waited (st : BatchState)
  | done (result : BatchResult)

/-- What a turn does with the entries it has read. `later` is the store behind the wait.
SOURCE: batch_reader.c:150-173 -/
def endBatch (later : Store) (events : List FollowEvent) (follow : Bool) (count : ℕ)
    (st : BatchState) : BatchTurn :=
  if st.rc < 0 then .done (st.failed .iterationFailed)
  else if count = 0 then
    if !follow then .done st.finished
    else
      let st := { st with reader := waitForReaderChange events st.reader }
      if st.cursor.isNone then
        match recPlayerSeekHead later st.reader with
        | (rc, r) =>
          if rc ≠ 0 then .done ({ st with reader := r }.failed .cannotRescan)
          else .waited { st with reader := r }
      else .waited st
  else
    let st := { st with batches := st.batches + 1 }
    let kept : Option BatchState :=
      if follow ∨ st.rc ≠ 0 then
        (recPlayerGetCursor st.reader.storeId (readerCurrentEntry st.reader)).map fun cursor =>
          { st with cursor := some cursor }
      else some st
    match kept with
    | none => .done (st.failed .cannotGetCursor)
    | some st =>
      if st.rc = 0 then
        if !follow then .done st.finished
        else .waited { st with reader := waitForReaderChange events st.reader }
      else .again st

/-- One turn of the loop.
SOURCE: batch_reader.c:123-173 -/
def batchTurn (store later : Store) (events : List FollowEvent) (follow : Bool) (size : ℕ)
    (st : BatchState) : BatchTurn :=
  let resumed : Except BatchError BatchState := match st.cursor with
    | none => .ok st
    | some cursor => resumeBatch store cursor st
  match resumed with
  | .error error => .done (st.failed error)
  | .ok st =>
    match readBatch store size st with
    | .error st => .done (st.failed .cannotPrint)
    | .ok (count, st) => endBatch later events follow count st

/-- What the program finds: the store behind each number of waits, and the events of each
wait. -/
structure BatchWorld where
  stores : ℕ → Store
  events : ℕ → List FollowEvent

/-- The loop of `main`, behind `waits` waits. -/
def batchLoop (world : BatchWorld) (follow : Bool) (size : ℕ) :
    ℕ → ℕ → BatchState → Option BatchResult
  | 0, _, _ => none
  | fuel + 1, waits, st =>
    match batchTurn (world.stores waits) (world.stores (waits + 1)) (world.events waits) follow
        size st with
    | .again st => batchLoop world follow size fuel waits st
    | .waited st => batchLoop world follow size fuel (waits + 1) st
    | .done result => some result

/-- `main` behind its arguments, for a path that `rec_player_open` can open or not and the store
id it finds there.
SOURCE: batch_reader.c:115-183 -/
def batchReader (world : BatchWorld) (opened : Bool) (storeId : Option UInt64)
    (options : BatchOptions) (fuel : ℕ) : Option BatchResult :=
  let failed : BatchResult := ⟨1, some .cannotOpen, [], 0, 0⟩
  if !opened then some failed
  else
    match recPlayerSeekHead (world.stores 0)
        (recPlayerSetOrder options.order { storeId := storeId }) with
    | (rc, r) =>
      if rc ≠ 0 then some failed
      else batchLoop world options.follow options.batchSize fuel 0 { reader := r }

end Recorder.Model
