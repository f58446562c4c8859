import Recorder.Model.Follow

/-!
# `player.c`: what a follow scan prints

The player collects the entries a scan hands to `print_record` in the order they arrive and
prints some of them afterwards. In the first scan of `-f` these are the last ones that arrived,
together with everything that was recorded after the player had been started.
-/

set_option autoImplicit false

namespace Recorder.Model

/-- `FOLLOW_INITIAL_ENTRY_COUNT`. -/
abbrev followInitialEntryCount : ℕ := 10

/-- `PlayerEntry`, as far as the player chooses and orders entries by it.
SOURCE: player.c:47-71 -/
structure PlayerEntry where
  entry : StoredEntry
  order : ℕ
  followNew : Bool

/-- `PrintContext`, with the lines that were printed at once.
SOURCE: player.c:27-45 -/
structure PrintContext where
  unitFilter : Option Bytes := none
  bootIdFilter : Option Bytes := none
  bootSeqFilter : Option UInt32 := none
  sinceTs : Option UInt64 := none
  untilTs : Option UInt64 := none
  minFrameOffset : UInt64 := 0
  followStartTs : UInt64 := 0
  initialFollowScan : Bool := false
  streamOutput : Bool := false
  entries : List PlayerEntry := []
  printed : List StoredEntry := []

/-- The fields of `PlayerOptions` that a scan without cursors and batches reads.
SOURCE: player.c:73-109 -/
structure PlayerOptions where
  unitFilter : Option Bytes := none
  groups : List Bytes := []
  bootIdFilter : Option Bytes := none
  bootSeqFilter : Option UInt32 := none
  sinceTs : Option UInt64 := none
  untilTs : Option UInt64 := none
  follow : Bool := false
  followStartTs : UInt64 := 0
  lineCount : Option ℕ := none
  linesFromHead : Bool := false
  sortWallclock : Bool := false

/-- The number of entries a first follow scan is asked for.
SOURCE: player.c:1524-1525,1643 -/
def PlayerOptions.initialCount (opts : PlayerOptions) : ℕ :=
  opts.lineCount.getD followInitialEntryCount

/-- `boot_matches`.
SOURCE: player.c:399-412 -/
def bootMatches (pc : PrintContext) (bootSeq : UInt32) (bootId : Bytes) : Bool :=
  match pc.bootSeqFilter with
  | some seq => bootSeq == seq
  | none =>
    match pc.bootIdFilter with
    | none => true
    | some id => !id.isEmpty && id.isPrefixOf bootId

/-- `entry_matches_values`.
SOURCE: player.c:414-427 -/
def entryMatchesValues (pc : PrintContext) (realtimeTs : UInt64) (unit : Option Bytes) : Bool :=
  if pc.sinceTs.any (realtimeTs < ·) then false
  else if pc.untilTs.any (realtimeTs > ·) then false
  else
    match pc.unitFilter with
    | none => true
    | some filter => unit == some filter

/-- `append_player_entry`.
SOURCE: player.c:963-985 -/
def appendPlayerEntry (pc : PrintContext) (entry : StoredEntry) : PrintContext :=
  { pc with
    entries := pc.entries ++
      [{ entry := entry
         order := pc.entries.length
         followNew := pc.initialFollowScan &&
           decide (entry.data.realtimeTs ≥ pc.followStartTs) }] }

/-- `print_record`. `bootId` is the boot id in the header of the entry's segment.
SOURCE: player.c:1160-1181 -/
def printRecord (bootId : StoredEntry → Bytes) (pc : PrintContext) (entry : StoredEntry) :
    PrintContext :=
  if entry.frameOffset < pc.minFrameOffset || !bootMatches pc entry.bootSeq (bootId entry) then pc
  else if !entryMatchesValues pc entry.data.realtimeTs entry.data.unit then pc
  else if pc.streamOutput then { pc with printed := pc.printed ++ [entry] }
  else appendPlayerEntry pc entry

/-- `compare_player_entries`.
SOURCE: player.c:987-1005 -/
def comparePlayerEntries : PlayerEntry → PlayerEntry → Ordering :=
  compareLex (compareOn (·.entry.data.realtimeTs)) (compareOn (·.order))

/-- The second loop of `print_selected_entries` in a first follow scan.
SOURCE: player.c:1528-1532 -/
def printInitialLoop (oldCount initialCount : ℕ) : List PlayerEntry → ℕ → List StoredEntry
  | [], _ => []
  | item :: rest, oldSeen =>
    let more := printInitialLoop oldCount initialCount rest
      (if item.followNew then oldSeen else oldSeen + 1)
    if item.followNew || decide (oldCount - oldSeen ≤ initialCount) then item.entry :: more
    else more

/-- `print_selected_entries`: the entries it prints, in order.
SOURCE: player.c:1501-1534 -/
def printSelectedEntries (entries : List PlayerEntry) (opts : PlayerOptions)
    (initialFollowScan : Bool) : List StoredEntry :=
  if initialFollowScan then
    printInitialLoop (entries.countP fun item => !item.followNew) opts.initialCount entries 0
  else
    match opts.lineCount with
    | none => entries.map (·.entry)
    | some n =>
      if opts.linesFromHead then (entries.take n).map (·.entry)
      else (entries.drop (entries.length - n)).map (·.entry)

/-- The context `scan_log_once` sets up for a follow scan.
SOURCE: player.c:1542-1560 -/
def followContext (opts : PlayerOptions) (followInitialized : Bool) : PrintContext :=
  { unitFilter := opts.unitFilter
    bootIdFilter := opts.bootIdFilter
    bootSeqFilter := opts.bootSeqFilter
    sinceTs := opts.sinceTs
    untilTs := opts.untilTs
    followStartTs := opts.followStartTs
    initialFollowScan := opts.follow && !followInitialized }

/-- `scan_log_once` with `-f` and without `--batch-size`: the result, the entries printed, in
order, and the reader's follow state.
SOURCE: player.c:1538-1560,1641-1644,1699-1715 -/
def scanLogFollow (bootId : StoredEntry → Bytes) (store : Store) (fault : ScanFault)
    (opts : PlayerOptions) (followInitialized : Bool) (st : FollowState) :
    Int × List StoredEntry × FollowState :=
  match scanFollow store opts.groups fault opts.initialCount st with
  | (rc, scanned, st) =>
    if rc ≠ 0 then (1, [], st)
    else
      let output := scanned.foldl (printRecord bootId) (followContext opts followInitialized)
      let entries :=
        if opts.sortWallclock then
          output.entries.insertionSort fun a b => (comparePlayerEntries a b).isLE
        else output.entries
      (0, printSelectedEntries entries opts output.initialFollowScan, st)

end Recorder.Model
