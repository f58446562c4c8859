import Recorder.Model.FrameReader
import Recorder.Model.Store

/-!
# `index.c`: the index file

An index file is a header of 24 bytes, one record of 83 bytes for each frame, and, once it is
closed, a footer of 28 bytes. The writer appends records to an unbuffered stream and counts
them; the reader takes a file only if header, counts, checksum and the chain of frames it
describes agree with the segment.

The entries of a chunk come from the generated FlatBuffers getters (`ChunkGetters`).
-/

set_option autoImplicit false

namespace Recorder.Model

/-- `RECORDER_INDEX_MAGIC`, "RECIDX01". -/
def indexMagic : Bytes := [0x52, 0x45, 0x43, 0x49, 0x44, 0x58, 0x30, 0x31]

/-- `RECORDER_INDEX_FOOTER_MAGIC`, "RECIF001". -/
def indexFooterMagic : Bytes := [0x52, 0x45, 0x43, 0x49, 0x46, 0x30, 0x30, 0x31]

/-- `RECORDER_INDEX_VERSION`. -/
def indexVersion : UInt32 := 1
/-- `RECORDER_INDEX_HEADER_SIZE`. -/
abbrev indexHeaderSize : ℕ := 24
/-- `RECORDER_INDEX_FOOTER_SIZE`. -/
abbrev indexFooterSize : ℕ := 28
/-- `RECORDER_INDEX_RECORD_SIZE`. -/
abbrev indexRecordSize : ℕ := 83

/-- What the FlatBuffers getters return for the entries of a chunk, compact (`true`) or full:
the fields a row is made of, and the priority. Strings end at their first terminator. -/
structure ChunkGetters where
  entries : Bool → Bytes → List (EntryData × UInt8)

/-! ## Writing -/

/-- `IndexWriter`. The stream is the bytes it has written and its error indicator, which a
failed write sets for good.
SOURCE: index.c:30-34 -/
structure IndexWriter where
  bytes : Bytes
  error : Bool := false
  recordCount : UInt64 := 0
  deriving DecidableEq, Repr

/-- The header of an index file.
SOURCE: index.c:194-197 -/
def indexHeaderImage (segmentSeq : UInt64) (flags : UInt32) : Bytes :=
  indexMagic ++ writeU32Le indexVersion ++ writeU64Le segmentSeq ++ writeU32Le flags

/-- `index_writer_open`; a file whose header cannot be written is removed.
SOURCE: index.c:172-202 -/
def indexWriterOpen (write : WriteOutcome) (segmentSeq : UInt64) (flags : UInt32) :
    Option IndexWriter :=
  match write with
  | .ok => some { bytes := indexHeaderImage segmentSeq flags }
  | .fail _ => none

/-- The service hashes of a row, in four slots.
SOURCE: index.c:126, 167 -/
def serviceSlots (hashes : List UInt64) : List UInt64 :=
  hashes ++ List.replicate (serviceHashSlots - hashes.length) 0

/-- The row of a chunk's entries, without the frame's own numbers.
SOURCE: index.c:113-156 -/
def chunkRow (entries : List (EntryData × UInt8)) : IndexFrame :=
  entries.zipIdx.foldl (fun row e => indexAddEntry row e.2 e.1.1)
    { fileOffset := 0
      minRealtimeTs := 0
      maxRealtimeTs := 0
      minMonotonicTs := 0
      maxMonotonicTs := 0
      entryCount := UInt32.ofNat entries.length
      serviceHashes := []
      serviceOverflow := false }

/-- `write_index_frame`: the record of a frame. The priority is that of the last entry, and
the filter kind is 1.
SOURCE: index.c:113-170 -/
def writeIndexFrame (getters : ChunkGetters) (header : SegmentHeader) (frame : SegmentFrameInfo)
    (chunk : Bytes) : Bytes :=
  let entries := getters.entries (header.flags &&& flagCompactEntries != 0) chunk
  let row := chunkRow entries
  writeU64Le (UInt64.ofNat frame.fileOffset) ++ writeU32Le frame.frameLen ++
    writeU64Le row.minRealtimeTs ++ writeU64Le row.maxRealtimeTs ++
    writeU64Le row.minMonotonicTs ++ writeU64Le row.maxMonotonicTs ++
    [(entries.getLast?.map (·.2)).getD 0] ++ writeU32Le row.entryCount ++ [1] ++
    (serviceSlots row.serviceHashes).flatMap writeU64Le ++
    [if row.serviceOverflow then 1 else 0]

/-- `index_writer_append`: the record is written, but it counts only while no write on the
stream has failed.
SOURCE: index.c:168-169, 204-214 -/
def indexWriterAppend (write : WriteOutcome) (getters : ChunkGetters) (writer : IndexWriter)
    (header : SegmentHeader) (frame : SegmentFrameInfo) (chunk : Bytes) : Bool × IndexWriter :=
  let w := write.append (writeIndexFrame getters header frame chunk)
  let writer := { writer with bytes := writer.bytes ++ w.1, error := writer.error || !w.2 }
  if writer.error then (false, writer)
  else (true, { writer with recordCount := writer.recordCount + 1 })

/-- The footer of an index file.
SOURCE: index.c:229-233 -/
def indexFooterImage (recordCount committedEnd : UInt64) (body : Bytes) : Bytes :=
  indexFooterMagic ++ writeU64Le recordCount ++ writeU64Le committedEnd ++
    writeU32Le (recorderCrc32 body)

/-- `index_writer_close`: success, and the file that is left. `readOk` says whether the file
could be read back for its checksum.
SOURCE: index.c:216-243 -/
def indexWriterClose (readOk : Bool) (write : WriteOutcome) (writer : IndexWriter)
    (segmentCommittedEnd : UInt64) : Bool × Bytes :=
  if !readOk then (false, writer.bytes)
  else
    let w := write.append (indexFooterImage writer.recordCount segmentCommittedEnd writer.bytes)
    (w.2, writer.bytes ++ w.1)

/-- `append_index_frame_cb`: a scan callback that appends the record of every frame.
SOURCE: index.c:43-49 -/
def appendIndexFrameCb (getters : ChunkGetters) (write : WriteOutcome) : FrameCb IndexWriter :=
  fun header frame chunk writer =>
    let r := indexWriterAppend write getters writer header frame chunk
    (if r.1 then 0 else -1, r.2)

/-- `index_rebuild_for_segment` when no operation on the index file fails: the file that is
moved to the index path, or `none`. The segment is scanned twice, first for its header and
committed end, then for its frames.
SOURCE: index.c:254-286 -/
def indexRebuildForSegment (evp : EvpOps) (codec : CodecOps) (getters : ChunkGetters)
    (segment : Bytes) (decryptor : Bool) : Option Bytes :=
  match (segmentScanPath (σ := Unit) evp codec segment decryptor none ()).out with
  | .error _ => none
  | .ok out =>
    match indexWriterOpen .ok out.header.segmentSeq out.header.flags with
    | none => none
    | some writer =>
      let scan := segmentScanPath evp codec segment decryptor
        (some (appendIndexFrameCb getters .ok)) writer
      match scan.out with
      | .error _ => none
      | .ok _ => some (indexWriterClose true .ok scan.ctx (UInt64.ofNat out.committedEnd)).2

/-! ## Reading -/

/-- `IndexFrame` with all its fields, as one record of the file holds them.
SOURCE: index.h:13-25 -/
structure IndexRecord where
  fileOffset : UInt64
  frameLen : UInt32
  minRealtimeTs : UInt64
  maxRealtimeTs : UInt64
  minMonotonicTs : UInt64
  maxMonotonicTs : UInt64
  priority : UInt8
  entryCount : UInt32
  serviceFilterKind : UInt8
  serviceHashes : List UInt64
  serviceOverflow : UInt8
  deriving DecidableEq, Repr

/-- `decode_index_frame`.
SOURCE: index.c:288-303 -/
def decodeIndexFrame (record : Bytes) : IndexRecord where
  fileOffset := readU64Le record
  frameLen := readU32Le (record.drop 8)
  minRealtimeTs := readU64Le (record.drop 12)
  maxRealtimeTs := readU64Le (record.drop 20)
  minMonotonicTs := readU64Le (record.drop 28)
  maxMonotonicTs := readU64Le (record.drop 36)
  priority := byteAt record 44
  entryCount := readU32Le (record.drop 45)
  serviceFilterKind := byteAt record 49
  serviceHashes := (List.range serviceHashSlots).map fun i => readU64Le (record.drop (50 + i * 8))
  serviceOverflow := byteAt record 82

/-- `index_frame_may_contain_service`, on a record of the file.
SOURCE: index.c:305-316 -/
def indexRecordMayContainService (frame : IndexRecord) (unit : Option Bytes) : Bool :=
  match unit with
  | none => true
  | some u =>
    if frame.serviceFilterKind != 1 || frame.serviceOverflow != 0 then true
    else frame.serviceHashes.contains (fnv1a64 u)

/-- `index_pread_frame`.
SOURCE: index.c:427-435 -/
def indexPreadFrame (file : Bytes) (index : ℕ) : Option IndexRecord :=
  let record := (file.drop (indexHeaderSize + index * indexRecordSize)).take indexRecordSize
  if record.length = indexRecordSize then some (decodeIndexFrame record) else none

/-- The loop of `index_validate_segment`: the rows from `index` on chain from `expectedEnd`
and stay within the segment. The result is the end of the chain.
SOURCE: index.c:333-341 -/
def validateChain (file : Bytes) (segmentSize : ℕ) : ℕ → ℕ → ℕ → Option ℕ
  | 0, _, expectedEnd => some expectedEnd
  | count + 1, index, expectedEnd =>
    match indexPreadFrame file index with
    | none => none
    | some frame =>
      if frame.frameLen < 20 || frame.fileOffset != UInt64.ofNat expectedEnd ||
          decide (frame.frameLen.toNat > segmentSize - expectedEnd) then none
      else validateChain file segmentSize count (index + 1) (expectedEnd + frame.frameLen.toNat)

/-- `index_validate_segment`. With a footer it is the committed end of the footer that must
be the size of the segment, without one the end of the chain.
SOURCE: index.c:318-347 -/
def indexValidateSegment (file : Bytes) (count : ℕ) (indexSegmentSeq : UInt64)
    (indexFlags : UInt32) (footerEnd : Option UInt64) (segment : Bytes) : Bool :=
  match segmentReadPathHeader segment with
  | none => false
  | some (header, dataOffset, segmentSize) =>
    if header.segmentSeq != indexSegmentSeq || header.flags != indexFlags then false
    else
      match validateChain file segmentSize count 0 dataOffset with
      | none => false
      | some expectedEnd =>
        match footerEnd with
        | some committedEnd => committedEnd == UInt64.ofNat segmentSize
        | none => expectedEnd == segmentSize

/-- `index_open_read`: the number of rows of an index that is accepted.
SOURCE: index.c:349-425 -/
def indexOpenRead (file segment : Bytes) : Option ℕ :=
  if file.length < indexHeaderSize then none
  else if file.take 8 != indexMagic then none
  else if readU32Le (file.drop 8) != indexVersion then none
  else
    let seq := readU64Le (file.drop 12)
    let flags := readU32Le (file.drop 20)
    let footer := file.drop (file.length - indexFooterSize)
    if decide (indexHeaderSize + indexFooterSize ≤ file.length) &&
        footer.take 8 == indexFooterMagic then
      let indexed := file.length - indexHeaderSize - indexFooterSize
      let count := readU64Le (footer.drop 8)
      if count.toNat != indexed / indexRecordSize || indexed % indexRecordSize != 0 then none
      else
        -- all but the footer is read by one `pread`
        match preadExact file (file.length - indexFooterSize) 0 with
        | none => none
        | some contents =>
          if recorderCrc32 contents != readU32Le (footer.drop 24) then none
          else if indexValidateSegment file count.toNat seq flags
              (some (readU64Le (footer.drop 16))) segment then some count.toNat
          else none
    else
      let indexed := file.length - indexHeaderSize
      if indexed % indexRecordSize != 0 then none
      else if indexValidateSegment file (indexed / indexRecordSize) seq flags none segment then
        some (indexed / indexRecordSize)
      else none

/-! ## Searching -/

/-- The loop of the two searches for a time; `none` when a row cannot be read.
SOURCE: index.c:517-522, 545-550 -/
def indexFindLoop (below : IndexRecord → Bool) (file : Bytes) : ℕ → ℕ → ℕ → Option ℕ
  | 0, lo, _ => some lo
  | fuel + 1, lo, hi =>
    if lo < hi then
      let mid := lo + (hi - lo) / 2
      match indexPreadFrame file mid with
      | none => none
      | some frame =>
        if below frame then indexFindLoop below file fuel (mid + 1) hi
        else indexFindLoop below file fuel lo mid
    else some lo

/-- The body of the two searches: the result, and the row with its number. -/
def indexFindFrame (below : IndexRecord → Bool) (file segment : Bytes) :
    Int × Option (IndexRecord × ℕ) :=
  match indexOpenRead file segment with
  | none => (-1, none)
  | some count =>
    match indexFindLoop below file (count + 1) 0 count with
    | none => (-1, none)
    | some lo =>
      if lo < count then
        match indexPreadFrame file lo with
        | none => (-1, none)
        | some frame => (0, some (frame, lo))
      else (1, none)

/-- `index_find_realtime_frame`, on the bytes of the two files.
SOURCE: index.c:508-532 -/
def indexFileFindRealtimeFrame (file segment : Bytes) (usec : UInt64) :
    Int × Option (IndexRecord × ℕ) :=
  indexFindFrame (·.maxRealtimeTs < usec) file segment

/-- `index_find_monotonic_frame`, on the bytes of the two files.
SOURCE: index.c:534-559 -/
def indexFileFindMonotonicFrame (file segment : Bytes) (usec : UInt64) :
    Int × Option (IndexRecord × ℕ) :=
  indexFindFrame (·.maxMonotonicTs < usec) file segment

end Recorder.Model
