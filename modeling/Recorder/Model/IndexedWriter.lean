import Recorder.Model.Index
import Recorder.Model.Writer

/-!
# `recorder.c`: the index beside a segment

A priority writer keeps an index open beside its segment. `writer_open_segment` opens it
behind the header, `writer_flush_chunk` appends the record of every frame it has written, and
`writer_close_segment` closes it behind the footer. What these functions do to the segment is
in `Recorder.Model.Writer`; this module adds what they do to the index.
-/

set_option autoImplicit false

namespace Recorder.Model

/-- A writer with its `index_writer` and `index_header`.
SOURCE: recorder.c:263-304 -/
structure IndexedWriter where
  writer : PriorityWriter
  index : IndexWriter
  indexHeader : SegmentHeader

/-- `writer_open_segment` with the index it opens.
SOURCE: recorder.c:3470-3485 -/
def indexedOpenSegment (env : RecorderEnv) (config : RecorderConfig) (t gi : ℕ)
    (seq clockJumpSeq : UInt64) (w : PriorityWriter) (e : LogEntry) :
    Except Errno IndexedWriter :=
  let opened := writerOpenSegment env config t gi seq clockJumpSeq w e
  match opened.errno with
  | some err => .error err
  | none =>
    let header := newSegmentHeader env config t gi seq e
    match indexWriterOpen (env.io t .openIndex).write header.segmentSeq header.flags with
    | none => .error (env.staleErrno t)
    | some index => .ok ⟨opened.writer, index, header⟩

/-- The frame `writer_flush_chunk` hands to `index_writer_append`, from what it wrote: none if
it did not get that far. The sum of the lengths is a `uint32_t`.
SOURCE: recorder.c:3630-3643 -/
def flushedFrame (env : RecorderEnv) (config : RecorderConfig) (t : ℕ) (w : PriorityWriter) :
    Option (SegmentFrameInfo × Bytes) :=
  if w.chunk = [] then none
  else
    match w.file with
    | none => none
    | some f =>
      match encodeChunk env config t f.dict w.chunk with
      | .error _ => none
      | .ok input =>
        match (env.io t .tellFrame).errno with
        | some _ => none
        | none =>
          match writeChunkFrame env t w.encryptor input with
          | (_, _, some _) => none
          | (_, _, none) =>
            let storedSize := UInt32.ofNat input.payload.length
            some
              ({ flags := input.flags
                 storedLen := storedSize
                 uncompressedLen := input.uncompressedLen
                 fileOffset := f.content.length
                 frameLen := 16 + storedSize + 4 + (if w.encryptor.isSome then 16 else 0) },
                env.chunkBytes (!config.fullEntries) w.chunk)

/-- The environment in which `index_writer_append` has the given result. A stream keeps its
error, so the call also fails behind an earlier failure. -/
def RecorderEnv.appending (env : RecorderEnv) (appended : Bool) : RecorderEnv :=
  if appended then env
  else { env with io := fun t op =>
    if op = .appendIndex then .fail 0 (env.staleErrno t) else env.io t op }

/-- `writer_flush_chunk` with the record it appends.
SOURCE: recorder.c:3561-3677 -/
def indexedFlushChunk (env : RecorderEnv) (config : RecorderConfig) (getters : ChunkGetters)
    (t gi : ℕ) (iw : IndexedWriter) : Option Errno × IndexedWriter :=
  match flushedFrame env config t iw.writer with
  | none =>
    let flushed := writerFlushChunk env config t gi iw.writer
    (flushed.1, { iw with writer := flushed.2 })
  | some (info, raw) =>
    let appended := indexWriterAppend (env.io t .appendIndex).write getters iw.index
      iw.indexHeader info raw
    let flushed := writerFlushChunk (env.appending appended.1) config t gi iw.writer
    (flushed.1, { iw with writer := flushed.2, index := appended.2 })

/-- `writer_close_segment` on an open writer: the segment file and the index file it leaves.
SOURCE: recorder.c:3679-3747 -/
def indexedCloseSegment (env : RecorderEnv) (config : RecorderConfig) (getters : ChunkGetters)
    (t gi : ℕ) (iw : IndexedWriter) (reason : RotateReason) :
    Except Errno (SegmentOnDisk × Bytes) :=
  match indexedFlushChunk env config getters t gi iw with
  | (some err, _) => .error err
  | (none, iw) =>
    match iw.writer.file with
    | none => .error (env.staleErrno t)
    | some f =>
      match writerFinishSegment env (t + 1) iw.writer f reason with
      | (some err, _, _) => .error err
      | (none, released, f) =>
        let closed := indexWriterClose true (env.io (t + 1) .closeIndex).write iw.index
          (UInt64.ofNat released.bytesWritten)
        if closed.1 then .ok (f, closed.2) else .error (env.staleErrno t)

/-- What a recorder does with an open segment. -/
inductive SegmentCall
  | add (e : LogEntry)
  | flush

/-- Calls on an open segment, each of them successful. -/
def indexedCalls (env : RecorderEnv) (config : RecorderConfig) (getters : ChunkGetters) (gi : ℕ) :
    ℕ → List SegmentCall → IndexedWriter → Except Errno IndexedWriter
  | _, [], iw => .ok iw
  | t, .add e :: calls, iw =>
    indexedCalls env config getters gi (t + 1) calls
      { iw with writer := writerAddEntry iw.writer e }
  | t, .flush :: calls, iw =>
    match indexedFlushChunk env config getters t gi iw with
    | (some err, _) => .error err
    | (none, iw) => indexedCalls env config getters gi (t + 1) calls iw

/-- One segment from `writer_open_segment` to `writer_close_segment`, with its index. -/
def indexedSegment (env : RecorderEnv) (config : RecorderConfig) (getters : ChunkGetters)
    (t gi : ℕ) (seq clockJumpSeq : UInt64) (w : PriorityWriter) (e : LogEntry)
    (calls : List SegmentCall) (reason : RotateReason) : Except Errno (SegmentOnDisk × Bytes) :=
  match indexedOpenSegment env config t gi seq clockJumpSeq w e with
  | .error err => .error err
  | .ok iw =>
    match indexedCalls env config getters gi (t + 1) calls iw with
    | .error err => .error err
    | .ok iw => indexedCloseSegment env config getters (t + 1 + calls.length) gi iw reason

end Recorder.Model
