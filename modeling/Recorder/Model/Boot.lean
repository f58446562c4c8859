import Recorder.Model.Segment

/-!
# `recorder.c`: the boot registry

Boots are numbered in the order in which their ids are first seen. The table has room for
256 of them; a further id is given the number of the last one. At startup and behind every
retention pass that removed something the table is rebuilt from the segments that are left,
with the numbers in their headers.
-/

set_option autoImplicit false

namespace Recorder.Model

/-- `MAX_BOOTS`. -/
abbrev maxBoots : ℕ := 256

/-- `BootEntry`.
SOURCE: recorder.c:213-218 -/
structure BootEntry where
  id : Bytes
  seq : UInt32
  firstRealtimeTs : UInt64
  lastCleanRealtimeTs : UInt64
  deriving DecidableEq, Repr

/-- `BootRegistry`, without the unused rest of its table.
SOURCE: recorder.c:220-223 -/
structure BootRegistry where
  boots : List BootEntry
  count_le : boots.length ≤ maxBoots

/-- `boot_registry_init`. -/
def BootRegistry.init : BootRegistry := ⟨[], Nat.zero_le _⟩

/-- `boot_registry_get`: the registry and the place of the boot in its table. An id has at
most 32 bytes, so that comparing 32 of them is comparing all.
SOURCE: recorder.c:1637-1661 -/
def bootRegistryGet (r : BootRegistry) (bootId : Bytes) : BootRegistry × ℕ :=
  match r.boots.findIdx? (·.id = bootId) with
  | some i => (r, i)
  | none =>
    if h : r.boots.length < maxBoots then
      (⟨r.boots ++ [⟨bootId, UInt32.ofNat r.boots.length, 0, 0⟩], by
          rw [List.length_append, List.length_singleton]
          exact h⟩,
        r.boots.length)
    else (r, r.boots.length - 1)

/-- `boot_registry_seq`; `none` is a null pointer.
SOURCE: recorder.c:1663-1667 -/
def bootRegistrySeq (r : BootRegistry) (bootId : Option Bytes) : BootRegistry × UInt32 :=
  match bootId with
  | none => (r, 0)
  | some id =>
    match bootRegistryGet r id with
    | (r, i) => (r, (r.boots[i]?.map (·.seq)).getD 0)

/-- An update of one entry of the table. -/
def BootRegistry.modify (r : BootRegistry) (i : ℕ) (f : BootEntry → BootEntry) :
    BootRegistry :=
  ⟨r.boots.modify i f, by rw [List.length_modify]; exact r.count_le⟩

/-! ## Recovering the registry -/

/-- What a rebuild reads of a segment. The footer of a segment without one is zero. -/
structure SegmentMeta where
  header : SegmentHeader
  footer : SegmentFooter := {}
  deriving DecidableEq, Repr

/-- The note of one segment in `boot_registry_rebuild_from_segments_cb`.
SOURCE: recorder.c:2640-2654 -/
def bootRegistryRebuildStep (r : BootRegistry) (scanned : SegmentMeta) : BootRegistry :=
  match bootRegistryGet r (strnlenPrefix bootIdSize scanned.header.bootId) with
  | (r, i) =>
    r.modify i fun b =>
      { b with
        seq := scanned.header.bootSeq
        firstRealtimeTs :=
          if b.firstRealtimeTs = 0 ∨ scanned.header.firstRealtimeTs < b.firstRealtimeTs then
            scanned.header.firstRealtimeTs
          else b.firstRealtimeTs
        lastCleanRealtimeTs :=
          if scanned.footer.lastRealtimeTs > b.lastCleanRealtimeTs then
            scanned.footer.lastRealtimeTs
          else b.lastCleanRealtimeTs }

/-- `boot_registry_rebuild_from_segments`, with what `segment_scan_path` yields for the
files of the segment directories, in the order of `readdir`; files it rejects are left out.
SOURCE: recorder.c:2617-2668 -/
def bootRegistryRebuildFromSegments (scanned : List SegmentMeta) : BootRegistry :=
  scanned.foldl bootRegistryRebuildStep .init

/-- A member of the array in `state/boots`; `none` is a value that is missing or of another
type. -/
structure BootNode where
  bootId : Option Bytes
  bootSeq : Option Int
  firstRealtimeTs : Option Int
  lastRealtimeTs : Option Int

/-- One turn of the loop of `load_boot_state`.
SOURCE: recorder.c:2695-2713 -/
def loadBootNode (r : BootRegistry) (node : BootNode) : BootRegistry :=
  match node.bootId, node.bootSeq, node.firstRealtimeTs with
  | some id, some seq, some first =>
    match bootRegistryGet r (strnlenPrefix bootIdSize id) with
    | (r, i) =>
      r.modify i fun b =>
        { b with
          seq := UInt32.ofInt seq
          firstRealtimeTs := UInt64.ofInt first
          lastCleanRealtimeTs := (node.lastRealtimeTs.map UInt64.ofInt).getD 0 }
  | _, _, _ => r

/-- `load_boot_state`; `none` is a file that is missing or holds no array.
SOURCE: recorder.c:2670-2717 -/
def loadBootState (state : Option (List BootNode)) : Option BootRegistry :=
  state.map fun nodes => nodes.foldl loadBootNode .init

/-- The registry of a new process: what was loaded is replaced.
SOURCE: recorder.c:3865-3872 -/
def recorderInitBoots (state : Option (List BootNode)) (scanned : List SegmentMeta) :
    BootRegistry :=
  match loadBootState state with
  | none => bootRegistryRebuildFromSegments scanned
  | some _ => bootRegistryRebuildFromSegments scanned

end Recorder.Model
