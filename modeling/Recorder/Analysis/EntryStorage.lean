import Mathlib.Data.List.TakeWhile
import Mathlib.Data.List.Forall2
import Recorder.Model.EntryFormat
import Recorder.Model.Store

/-!
# Entries survive storage

An entry that was serialised into a chunk and is handed out by `scan_frame` has the scalars it
had, its custom values byte for byte, and its texts up to their first zero byte, where the
`const char *` of the reader ends. The copy of `append_stored_entry_array` changes nothing
further.

* **`entries_survive_storage`**: both formats, any list of entries.
* `scanFrame_of_serialized`: the entries of the reader's model are these, as far as its order
  and its seeks look at them.
* `text_survives_iff`: a text comes back whole exactly when it has no zero byte.
* **`binary_message_cut`**: a message with a zero byte does not.
-/

set_option autoImplicit false

open Recorder.Model

namespace Recorder.Analysis

/-! ## Fields -/

section Fields

variable {α : Type} [DecidableEq α] [OfNat α 0]

/-- A scalar that is left out when it is the default is read back. -/
@[simp] theorem scalarGet_scalarAdd (value : α) : scalarGet (scalarAdd value) = value := by
  unfold scalarGet scalarAdd
  split
  · rename_i h
    rw [h]
    rfl
  · rfl

/-- So is one whose `_add` is not even called for zero. -/
@[simp] theorem scalarGet_guarded (value : α) :
    scalarGet (if value = 0 then none else scalarAdd value) = value := by
  split
  · rename_i h
    rw [h]
    rfl
  · exact scalarGet_scalarAdd value

end Fields

/-- A string that was read as a `const char *` has no zero byte left to end it. -/
@[simp] theorem cString_cString (s : Bytes) : cString (cString s) = cString s := by
  unfold cString
  rw [List.takeWhile_takeWhile]
  simp

theorem cString_eq_self_iff (s : Bytes) : cString s = s ↔ ∀ b ∈ s, b ≠ 0 := by
  unfold cString
  rw [List.takeWhile_eq_self_iff]
  simp

@[simp] theorem copyString_stringGet (field : Option Bytes) :
    copyString (stringGet field) = stringGet field := by
  cases field with
  | none => rfl
  | some s => simp [copyString, stringGet, strdup]

/-! ## What survives -/

/-- What a reader's entry has of a compact table: `cut` is what becomes of a text. -/
structure SameCompact (cut : Bytes → Bytes) (entry : EntryFields) (r : RecorderEntry) : Prop where
  realtimeTs : r.realtimeTs = entry.realtimeTs
  monotonicTs : r.monotonicTs = entry.monotonicTs
  monotonicTieOrder : r.monotonicTieOrder = entry.monotonicTieOrder
  priority : r.priority = entry.priority
  pid : r.pid = entry.pid
  message : r.message = entry.texts.message.map cut
  unit : r.unit = entry.texts.unit.map cut

/-- What it has of a full one. -/
structure SameFull (cut : Bytes → Bytes) (entry : EntryFields) (r : RecorderEntry) : Prop
    extends SameCompact cut entry r where
  uid : r.uid = entry.uid
  gid : r.gid = entry.gid
  errnoValue : r.errnoValue = entry.errnoValue
  messageId : r.messageId = entry.texts.messageId.map cut
  hostname : r.hostname = entry.texts.hostname.map cut
  comm : r.comm = entry.texts.comm.map cut
  exe : r.exe = entry.texts.exe.map cut
  fields : r.fields = entry.extraFields.map fun field => ⟨some (cut field.1), field.2⟩

/-- What a reader's entry has of the entry that was serialised, by the format. -/
def Survives (cut : Bytes → Bytes) (header : SegmentHeader) (entry : EntryFields)
    (r : RecorderEntry) : Prop :=
  if header.flags &&& flagCompactEntries != 0 then SameCompact cut entry r
  else SameFull cut entry r

/-- The entry at the end of an array it was appended to. -/
def copied (r : RecorderEntry) : RecorderEntry := (appendStoredEntryArray [] r).getLastD r

section Loops

/-- The loop over a compact chunk hands out one entry for each table, by induction on the
tables: a turn sets all that `SameCompact` speaks of. -/
theorem scanCompactLoop_same (entries : List EntryFields) :
    ∀ (base : RecorderEntry) (i : ℕ), List.Forall₂ (SameCompact cString) entries
      (scanCompactLoop base (entries.map serializeCompactEntry) i) := by
  induction entries with
  | nil => exact fun _ _ => .nil
  | cons entry entries ih =>
    intro base i
    refine .cons ?_ (ih _ _)
    constructor <;> simp [serializeCompactEntry, createJournalString, stringGet]

theorem fields_read (fields : List (Bytes × Bytes)) :
    ((if fields.length > 0 then some (fields.map serializeField) else none).getD []).map readField =
      fields.map fun field => ⟨some (cString field.1), field.2⟩ := by
  cases fields with
  | nil => rfl
  | cons field fields =>
    simp [serializeField, readField, createJournalString, createJournalBytes, stringGet]

/-- The loop over a full chunk. -/
theorem scanFullLoop_same (entries : List EntryFields) :
    ∀ (base : RecorderEntry) (i : ℕ), List.Forall₂ (SameFull cString) entries
      (scanFullLoop base (entries.map serializeEntry) i) := by
  induction entries with
  | nil => exact fun _ _ => .nil
  | cons entry entries ih =>
    intro base i
    refine .cons ?_ (ih _ _)
    refine ⟨⟨?_, ?_, ?_, ?_, ?_, ?_, ?_⟩, ?_, ?_, ?_, ?_, ?_, ?_, ?_, ?_⟩
    case refine_15 => exact fields_read entry.extraFields
    all_goals simp [serializeEntry, createJournalString, stringGet]

/-- **A copy keeps what was read.** -/
theorem SameCompact.copied {entry : EntryFields} {r : RecorderEntry}
    (h : SameCompact cString entry r) : SameCompact cString entry (copied r) := by
  have htext : ∀ t : Option Bytes, copyString (t.map cString) = t.map cString :=
    copyString_stringGet
  refine ⟨h.realtimeTs, h.monotonicTs, h.monotonicTieOrder, h.priority, h.pid, ?_, ?_⟩
  · exact (congrArg copyString h.message).trans (htext _)
  · exact (congrArg copyString h.unit).trans (htext _)

theorem SameFull.copied {entry : EntryFields} {r : RecorderEntry}
    (h : SameFull cString entry r) : SameFull cString entry (copied r) := by
  have htext : ∀ t : Option Bytes, copyString (t.map cString) = t.map cString :=
    copyString_stringGet
  refine ⟨h.toSameCompact.copied, h.uid, h.gid, h.errnoValue, ?_, ?_, ?_, ?_, ?_⟩
  · exact (congrArg copyString h.messageId).trans (htext _)
  · exact (congrArg copyString h.hostname).trans (htext _)
  · exact (congrArg copyString h.comm).trans (htext _)
  · exact (congrArg copyString h.exe).trans (htext _)
  · refine (congrArg copyStoredFields h.fields).trans ?_
    unfold copyStoredFields
    split
    · rename_i hlen
      exact (List.length_eq_zero_iff.mp hlen).symm
    · simp [copyString, strdup]

end Loops

/-- **Entries survive storage.** Whatever entries are serialised into a chunk, in the format
the header announces, `scan_frame` hands out one entry for each, in their order, with the same
scalars, the same custom values, and the same texts and custom names up to their first zero
byte; and so is its copy.
SOURCE: recorder.c:3291-3386, librecorder.c:250-338, 361-530 -/
theorem entries_survive_storage (group : Bytes) (header : SegmentHeader) (fileOffset : UInt64)
    (entries : List EntryFields) :
    ∃ out, scanFrameEntries group 0 header fileOffset (serializeChunk header entries) = some out ∧
      List.Forall₂ (fun entry r => Survives cString header entry r ∧
        Survives cString header entry (copied r)) entries out := by
  have hmin : ¬ fileOffset < 0 := UInt64.not_lt.mpr UInt64.zero_le
  unfold scanFrameEntries serializeChunk Survives
  rw [if_neg hmin]
  cases hflag : header.flags &&& flagCompactEntries != 0 with
  | true =>
    exact ⟨_, rfl, (scanCompactLoop_same entries _ 0).imp fun _ _ h => ⟨h, h.copied⟩⟩
  | false =>
    exact ⟨_, rfl, (scanFullLoop_same entries _ 0).imp fun _ _ h => ⟨h, h.copied⟩⟩

/-! ## The entries of the reader's model -/

/-- What the merge and the seeks look at of an entry. -/
def RecorderEntry.stored (r : RecorderEntry) : StoredEntry where
  data := ⟨r.realtimeTs, r.monotonicTs, r.monotonicTieOrder, r.unit⟩
  bootSeq := r.bootSeq
  group := r.group
  segmentSeq := r.segmentSeq
  frameOffset := r.frameOffset
  frameEntryIndex := r.frameEntryIndex

/-- The same of an entry that is serialised. -/
def entryData (entry : EntryFields) : EntryData :=
  ⟨entry.realtimeTs, entry.monotonicTs, entry.monotonicTieOrder, entry.texts.unit.map cString⟩

section Stored

/-- An entry at a place in the frame the loop variable belongs to. -/
def storedAt (base : RecorderEntry) (entry : EntryFields) (i : ℕ) : StoredEntry where
  data := entryData entry
  bootSeq := base.bootSeq
  group := base.group
  segmentSeq := base.segmentSeq
  frameOffset := base.frameOffset
  frameEntryIndex := UInt32.ofNat i

theorem scanCompactLoop_stored (entries : List EntryFields) : ∀ (base : RecorderEntry) (i : ℕ),
    (scanCompactLoop base (entries.map serializeCompactEntry) i).map RecorderEntry.stored =
      entries.mapIdx fun j entry => storedAt base entry (i + j) := by
  induction entries with
  | nil => exact fun _ _ => rfl
  | cons entry entries ih =>
    intro base i
    rw [List.mapIdx_cons, List.map_cons, scanCompactLoop, List.map_cons, ih]
    simp [RecorderEntry.stored, storedAt, entryData, serializeCompactEntry, createJournalString,
      stringGet, Nat.add_assoc, Nat.add_comm 1]

theorem scanFullLoop_stored (entries : List EntryFields) : ∀ (base : RecorderEntry) (i : ℕ),
    (scanFullLoop base (entries.map serializeEntry) i).map RecorderEntry.stored =
      entries.mapIdx fun j entry => storedAt base entry (i + j) := by
  induction entries with
  | nil => exact fun _ _ => rfl
  | cons entry entries ih =>
    intro base i
    rw [List.mapIdx_cons, List.map_cons, scanFullLoop, List.map_cons, ih]
    simp [RecorderEntry.stored, storedAt, entryData, serializeEntry, createJournalString,
      stringGet, Nat.add_assoc, Nat.add_comm 1]

end Stored

/-- **The scan of a frame in the reader's model** is the scan of the serialised chunk, entry by
entry. -/
theorem scanFrame_of_serialized (group : Bytes) (header : SegmentHeader) (frame : ChunkFrame)
    (entries : List EntryFields) (h : frame.entries = entries.map entryData) :
    (scanFrameEntries group 0 header frame.fileOffset (serializeChunk header entries)).map
      (List.map RecorderEntry.stored) = some (scanFrame group header frame) := by
  have hmin : ¬ frame.fileOffset < 0 := UInt64.not_lt.mpr UInt64.zero_le
  have hframe : scanFrame group header frame = entries.mapIdx fun i entry =>
      storedAt ⟨header.bootSeq, cString header.bootId, header.segmentSeq, frame.fileOffset,
        0, 0, 0, 0, 0, 0, 0, 0, 0, none, none, none, none, none, none, [], group⟩ entry i := by
    rw [scanFrame, h]
    refine List.ext_getElem? fun i => ?_
    simp only [List.getElem?_mapIdx, List.getElem?_map, Option.map_map]
    exact Option.map_congr fun _ _ => rfl
  unfold scanFrameEntries serializeChunk
  rw [if_neg hmin, hframe]
  cases hflag : header.flags &&& flagCompactEntries != 0 with
  | true =>
    simp only [if_true, Option.map_some, scanCompactLoop_stored, Nat.zero_add]
  | false =>
    simp only [Bool.false_eq_true, if_false, Option.map_some, scanFullLoop_stored, Nat.zero_add]

/-- A text is handed out whole exactly when it has no zero byte. -/
theorem text_survives_iff (text : Option Bytes) :
    text.map cString = text ↔ ∀ s, text = some s → ∀ b ∈ s, b ≠ 0 := by
  cases text with
  | none => simp
  | some s => simp [cString_eq_self_iff]

/-- An entry with a message, for the fixed input below. -/
def messageFields (message : Bytes) : EntryFields where
  realtimeTs := 1
  monotonicTs := 1
  monotonicTieOrder := 0
  pid := 0
  uid := 0
  gid := 0
  priority := 6
  errnoValue := 0
  texts := { message := some message }
  extraFields := []

/-- A header of a segment with full entries. -/
def fullHeader : SegmentHeader where
  flags := 0
  segmentSeq := 1
  bootSeq := 0
  bootId := []
  timezone := []
  firstRealtimeTs := 1
  firstMonotonicTs := 1
  dictLen := 0

/-- **A message with a zero byte comes back cut**: `a`, zero, `b` is handed out as `a`. -/
theorem binary_message_cut :
    ¬ ∀ (group : Bytes) (header : SegmentHeader) (fileOffset : UInt64)
      (entries : List EntryFields),
      ∃ out, scanFrameEntries group 0 header fileOffset (serializeChunk header entries) =
          some out ∧
        List.Forall₂ (fun entry r => Survives id header entry r ∧
          Survives id header entry (copied r)) entries out := by
  intro hall
  obtain ⟨out, hout, hsame⟩ := hall [] fullHeader 0 [messageFields [97, 0, 98]]
  have hread : scanFrameEntries [] 0 fullHeader 0
      (serializeChunk fullHeader [messageFields [97, 0, 98]]) =
      some (scanFullLoop _ [serializeEntry (messageFields [97, 0, 98])] 0) := rfl
  rw [hread, Option.some.injEq] at hout
  subst hout
  cases hsame with
  | cons hfirst _ =>
    have hmessage := hfirst.1.message
    revert hmessage
    decide

end Recorder.Analysis
