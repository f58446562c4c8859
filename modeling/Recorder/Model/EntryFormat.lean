import Recorder.Model.Writer

/-!
# `recorder.fbs`: entries in a chunk, and the entries a reader hands out

The recorder serialises an entry into a FlatBuffers table, compact or full, and a chunk is a
vector of these. A table is the record of the fields that were added to it: the generated
`_add` of a scalar leaves out its default, and a getter returns the field, or the default where
it was not added. The builder always succeeds.

On the recorder's side a text is a pointer and a length. A reader gets a `const char *`, so that
a text ends at its first zero byte (`cString`); the values of custom fields keep their length.
-/

set_option autoImplicit false

namespace Recorder.Model

/-! ## Tables -/

/-- `_add` of a scalar field with default 0.
SOURCE: flatbuffers_common_builder.h:472-475 -/
def scalarAdd {α : Type} [DecidableEq α] [OfNat α 0] (value : α) : Option α :=
  if value = 0 then none else some value

/-- A scalar getter: the value that was added, or the default. -/
def scalarGet {α : Type} [OfNat α 0] (field : Option α) : α := field.getD 0

/-- `journal_Field`.
SOURCE: recorder.fbs:3-6 -/
structure FieldTable where
  name : Option Bytes
  value : Option Bytes
  deriving DecidableEq, Repr

/-- `journal_CompactEntry`.
SOURCE: recorder.fbs:8-17 -/
structure CompactEntryTable where
  realtimeTs : Option UInt64
  monotonicTs : Option UInt64
  priority : Option UInt8
  message : Option Bytes
  pid : Option UInt32
  unit : Option Bytes
  monotonicTieOrder : Option UInt16
  deriving DecidableEq, Repr

/-- `journal_FullEntry`.
SOURCE: recorder.fbs:19-48 -/
structure FullEntryTable where
  realtimeTs : Option UInt64
  monotonicTs : Option UInt64
  priority : Option UInt8
  message : Option Bytes
  fields : Option (List FieldTable)
  messageId : Option Bytes
  unit : Option Bytes
  pid : Option UInt32
  uid : Option UInt32
  gid : Option UInt32
  hostname : Option Bytes
  comm : Option Bytes
  exe : Option Bytes
  errno : Option UInt16
  monotonicTieOrder : Option UInt16
  deriving DecidableEq, Repr

/-- A chunk, by its root table: `journal_DefaultChunk` or `journal_Chunk`. -/
inductive ChunkRoot
  | defaultChunk (entries : List CompactEntryTable)
  | chunk (entries : List FullEntryTable)
  deriving DecidableEq, Repr

/-! ## Serialising -/

/-- The fields of `LogEntry` that are serialised. A text that is `none` has no data.
SOURCE: recorder.c:236-261 -/
structure EntryFields where
  realtimeTs : UInt64
  monotonicTs : UInt64
  monotonicTieOrder : UInt16
  pid : UInt32
  uid : UInt32
  gid : UInt32
  priority : UInt8
  errnoValue : UInt16
  texts : EntryTexts
  extraFields : List (Bytes × Bytes)
  deriving DecidableEq, Repr

/-- `create_journal_string`: the reference is 0, and the field not added, without data.
SOURCE: recorder.c:3291-3295 -/
def createJournalString (value : Option Bytes) : Option Bytes := value

/-- `create_journal_bytes`.
SOURCE: recorder.c:3297-3301 -/
def createJournalBytes (value : Bytes) : Option Bytes := some value

/-- The table of one custom field. -/
def serializeField (field : Bytes × Bytes) : FieldTable where
  name := createJournalString (some field.1)
  value := createJournalBytes field.2

/-- `serialize_entry`.
SOURCE: recorder.c:3303-3366 -/
def serializeEntry (entry : EntryFields) : FullEntryTable where
  realtimeTs := scalarAdd entry.realtimeTs
  monotonicTs := scalarAdd entry.monotonicTs
  priority := scalarAdd entry.priority
  message := createJournalString entry.texts.message
  messageId := createJournalString entry.texts.messageId
  unit := createJournalString entry.texts.unit
  pid := if entry.pid ≠ 0 then scalarAdd entry.pid else none
  uid := if entry.uid ≠ 0 then scalarAdd entry.uid else none
  gid := if entry.gid ≠ 0 then scalarAdd entry.gid else none
  hostname := createJournalString entry.texts.hostname
  comm := createJournalString entry.texts.comm
  exe := createJournalString entry.texts.exe
  errno := if entry.errnoValue ≠ 0 then scalarAdd entry.errnoValue else none
  monotonicTieOrder :=
    if entry.monotonicTieOrder ≠ 0 then scalarAdd entry.monotonicTieOrder else none
  fields :=
    if entry.extraFields.length > 0 then some (entry.extraFields.map serializeField) else none

/-- `serialize_compact_entry`.
SOURCE: recorder.c:3368-3386 -/
def serializeCompactEntry (entry : EntryFields) : CompactEntryTable where
  realtimeTs := scalarAdd entry.realtimeTs
  monotonicTs := scalarAdd entry.monotonicTs
  priority := scalarAdd entry.priority
  pid := if entry.pid ≠ 0 then scalarAdd entry.pid else none
  message := createJournalString entry.texts.message
  unit := createJournalString entry.texts.unit
  monotonicTieOrder :=
    if entry.monotonicTieOrder ≠ 0 then scalarAdd entry.monotonicTieOrder else none

/-- The chunk of a list of entries, in the format the segment header announces.
SOURCE: recorder.c:3574-3591, 3977-3986 -/
def serializeChunk (header : SegmentHeader) (entries : List EntryFields) : ChunkRoot :=
  if header.flags &&& flagCompactEntries != 0 then
    .defaultChunk (entries.map serializeCompactEntry)
  else .chunk (entries.map serializeEntry)

/-! ## Reading -/

/-- The string that a `const char *` to the given bytes and a terminator stands for. -/
def cString (s : Bytes) : Bytes := s.takeWhile (· ≠ 0)

/-- `RecorderField`.
SOURCE: librecorder.h:25-31 -/
structure RecorderField where
  name : Option Bytes
  value : Bytes
  deriving DecidableEq, Repr

/-- `RecorderEntry`. A `const char *` is the string it stands for, or `none` for a null
pointer.
SOURCE: librecorder.h:33-69 -/
structure RecorderEntry where
  bootSeq : UInt32
  bootId : Bytes
  segmentSeq : UInt64
  frameOffset : UInt64
  frameEntryIndex : UInt32 := 0
  realtimeTs : UInt64 := 0
  monotonicTs : UInt64 := 0
  monotonicTieOrder : UInt16 := 0
  pid : UInt32 := 0
  uid : UInt32 := 0
  gid : UInt32 := 0
  priority : UInt8 := 0
  errnoValue : UInt16 := 0
  hostname : Option Bytes := none
  comm : Option Bytes := none
  unit : Option Bytes := none
  exe : Option Bytes := none
  message : Option Bytes := none
  messageId : Option Bytes := none
  fields : List RecorderField := []
  group : Bytes
  deriving DecidableEq, Repr

/-- A string getter, as a `const char *`. -/
def stringGet (field : Option Bytes) : Option Bytes := field.map cString

/-- One custom field, as the loop of `scan_frame` copies it.
SOURCE: librecorder.c:287-302 -/
def readField (table : FieldTable) : RecorderField where
  name := stringGet table.name
  value := table.value.getD []

/-- The loop over a compact chunk. The entry is a variable that every turn overwrites in
part.
SOURCE: librecorder.c:267-278 -/
def scanCompactLoop (entry : RecorderEntry) : List CompactEntryTable → ℕ → List RecorderEntry
  | [], _ => []
  | item :: items, i =>
    let entry := { entry with
      realtimeTs := scalarGet item.realtimeTs
      monotonicTs := scalarGet item.monotonicTs
      monotonicTieOrder := scalarGet item.monotonicTieOrder
      priority := scalarGet item.priority
      pid := scalarGet item.pid
      message := stringGet item.message
      unit := stringGet item.unit
      frameEntryIndex := UInt32.ofNat i }
    entry :: scanCompactLoop entry items (i + 1)

/-- The loop over a full chunk.
SOURCE: librecorder.c:280-335 -/
def scanFullLoop (entry : RecorderEntry) : List FullEntryTable → ℕ → List RecorderEntry
  | [], _ => []
  | item :: items, i =>
    let entry := { entry with
      realtimeTs := scalarGet item.realtimeTs
      monotonicTs := scalarGet item.monotonicTs
      monotonicTieOrder := scalarGet item.monotonicTieOrder
      priority := scalarGet item.priority
      pid := scalarGet item.pid
      uid := scalarGet item.uid
      gid := scalarGet item.gid
      errnoValue := scalarGet item.errno
      hostname := stringGet item.hostname
      comm := stringGet item.comm
      unit := stringGet item.unit
      exe := stringGet item.exe
      message := stringGet item.message
      messageId := stringGet item.messageId
      fields := (item.fields.getD []).map readField
      frameEntryIndex := UInt32.ofNat i }
    entry :: scanFullLoop entry items (i + 1)

/-- `scan_frame`, with a callback that returns 0: the entries it is handed. The verifier has
refused a chunk whose root is not the one the header announces.
SOURCE: librecorder.c:250-338 -/
def scanFrameEntries (group : Bytes) (minFrameOffset : UInt64) (header : SegmentHeader)
    (fileOffset : UInt64) (chunk : ChunkRoot) : Option (List RecorderEntry) :=
  if fileOffset < minFrameOffset then some []
  else
    let entry : RecorderEntry :=
      { bootSeq := header.bootSeq
        bootId := cString header.bootId
        segmentSeq := header.segmentSeq
        frameOffset := fileOffset
        group := group }
    match header.flags &&& flagCompactEntries != 0, chunk with
    | true, .defaultChunk entries => some (scanCompactLoop entry entries 0)
    | false, .chunk entries => some (scanFullLoop entry entries 0)
    | _, _ => none

/-! ## Copying -/

/-- `strdup`. -/
def strdup (s : Bytes) : Bytes := cString s

/-- `copy_string`.
SOURCE: librecorder.c:408-412 -/
def copyString (value : Option Bytes) : Option Bytes := value.map strdup

/-- `copy_stored_fields`.
SOURCE: librecorder.c:361-383 -/
def copyStoredFields (fields : List RecorderField) : List RecorderField :=
  if fields.length = 0 then []
  else fields.map fun field => ⟨copyString field.name, field.value⟩

/-- `append_stored_entry_array`, every allocation succeeding. `append_stored_entry` does the
same to the array of a reader.
SOURCE: librecorder.c:447-530 -/
def appendStoredEntryArray (entries : List RecorderEntry) (entry : RecorderEntry) :
    List RecorderEntry :=
  entries ++ [{ entry with
    group := strdup entry.group
    bootId := strdup entry.bootId
    hostname := copyString entry.hostname
    comm := copyString entry.comm
    unit := copyString entry.unit
    exe := copyString entry.exe
    message := copyString entry.message
    messageId := copyString entry.messageId
    fields := copyStoredFields entry.fields }]

end Recorder.Model
