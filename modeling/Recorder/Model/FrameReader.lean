import Recorder.Model.SegmentScan

/-!
# `segment.c`: reading a segment piece by piece

Beside the scan of a mapped file, `segment.c` reads the header alone
(`segmentReadPathHeader`), keeps a file open and reads single frames from it
(`segmentFrameReaderOpen`, `segmentFrameReaderScan`), and reads one frame of a file it opens
and closes again (`segmentScanPathFrame`). All of them read the metadata, the bytes up to the
first frame, by lengths taken from the fixed header, and parse only these. What is read at all
is read by one `pread` (`preadExact`), which transfers no more than `preadLimit` bytes.

A size that does not fit `size_t` is not a size of a file, so the check for it is left out.
-/

set_option autoImplicit false

namespace Recorder.Model

/-- The most that one `pread` transfers on Linux, `0x7ffff000` bytes. -/
abbrev preadLimit : ℕ := 2147479552

/-- `pread_exact`: one call on the file, and a short count is an error.
SOURCE: segment.c:815-818 -/
def preadExact (file : Bytes) (size offset : ℕ) : Option Bytes :=
  if size ≤ preadLimit ∧ offset + size ≤ file.length then some ((file.drop offset).take size)
  else none

/-- The metadata of a segment file: the two length fields are read from the fixed header and
checked against the size, and their 32-bit sum is the number of bytes that are read.
SOURCE: segment.c:520-530, 832-842, 937-944 -/
def readMetadata (file : Bytes) : Option Bytes :=
  if file.length < segmentHeaderFixedSize then none
  else
    let headerSize := readU32Le (file.drop 12)
    let dictLen := readU32Le (file.drop 144)
    if headerSize.toNat < segmentHeaderFixedSize || headerSize.toNat > file.length ||
        dictLen.toNat > file.length - headerSize.toNat then none
    else preadExact file (headerSize + dictLen).toNat 0

/-- `segment_read_path_header`: the header, the data offset and the size of the file.
SOURCE: segment.c:512-541 -/
def segmentReadPathHeader (file : Bytes) : Option (SegmentHeader × ℕ × ℕ) :=
  match readMetadata file with
  | none => none
  | some metadata =>
    match segmentParseHeader metadata with
    | none => none
    | some (header, offset, _) => some (header, offset, file.length)

/-- `SegmentFrameReader`. The descriptor is the content of the file.
SOURCE: segment.c:62-71 -/
structure SegmentFrameReader where
  file : Bytes
  metadata : Bytes
  header : SegmentHeader
  dataOffset : ℕ
  encryption : SegmentEncryptionInfo
  encrypted : Bool
  dek : Bytes

/-- `segment_frame_reader_open`.
SOURCE: segment.c:820-856 -/
def segmentFrameReaderOpen (evp : EvpOps) (file : Bytes) (decryptor : Bool) :
    Option SegmentFrameReader :=
  match readMetadata file with
  | none => none
  | some metadata =>
    match segmentParseHeader metadata with
    | none => none
    | some (header, dataOffset, encryption) =>
      if header.flags &&& flagEncrypted != 0 then
        if !decryptor then none
        else
          match evp.unwrapDek encryption.wrappedDek with
          | none => none
          | some dek => some ⟨file, metadata, header, dataOffset, encryption, true, dek⟩
      else
        some ⟨file, metadata, header, dataOffset, encryption, false,
          List.replicate segmentDekSize 0⟩

/-- The length checks of a frame that is read by its offset: `expected` is what the header
fields say, `rest` the number of bytes from the offset on. -/
def frameLengthsFit (encrypted : Bool) (info : SegmentFrameInfo) (rest : ℕ) : Bool :=
  let expected := segmentFrameHeaderSize + info.storedLen.toNat + tagLen encrypted + 4
  !(decide (expected > uint32Max) || info.frameLen.toNat != expected ||
    decide (info.frameLen.toNat > rest))

/-- `segment_frame_reader_scan`: the return value and the callback's context.
SOURCE: segment.c:867-910 -/
def segmentFrameReaderScan {σ : Type} (evp : EvpOps) (codec : CodecOps)
    (reader : SegmentFrameReader) (cb : FrameCb σ) (ctx : σ) (fileOffset : ℕ)
    (frameIndex : UInt64) : Int × σ :=
  if fileOffset < reader.dataOffset ||
      fileOffset > reader.file.length - segmentFrameHeaderSize - 4 then (-1, ctx)
  else
    match preadExact reader.file segmentFrameHeaderSize fileOffset with
    | none => (-1, ctx)
    | some frameHeader =>
      let info := frameInfoAt frameHeader fileOffset
      if !frameLengthsFit reader.encrypted info (reader.file.length - fileOffset) then (-1, ctx)
      else
        match preadExact reader.file info.frameLen.toNat fileOffset with
        | none => (-1, ctx)
        | some frameBytes =>
          if !frameCrcMatches reader.encrypted frameBytes info.storedLen.toNat then (-1, ctx)
          else
            let dict :=
              (reader.metadata.drop (reader.dataOffset - reader.header.dictLen.toNat)).take
                reader.header.dictLen.toNat
            match openPayload evp reader.encrypted reader.dek reader.encryption.noncePrefix
                frameIndex info frameBytes with
            | none => (-1, ctx)
            | some payload =>
              match decompressPayload codec reader.header dict info payload with
              | none => (-1, ctx)
              | some chunk =>
                if codec.verifyChunk (reader.header.flags &&& flagCompactEntries != 0) chunk then
                  cb reader.header info chunk ctx
                else (-1, ctx)

/-- `segment_scan_path_frame`: the return value and the callback's context. The data key is
unwrapped only once the frame's CRC has matched.
SOURCE: segment.c:912-994 -/
def segmentScanPathFrame {σ : Type} (evp : EvpOps) (codec : CodecOps) (file : Bytes)
    (decryptor : Bool) (cb : FrameCb σ) (ctx : σ) (fileOffset : ℕ) (frameIndex : UInt64) :
    Int × σ :=
  match readMetadata file with
  | none => (-1, ctx)
  | some metadata =>
    match segmentParseHeader metadata with
    | none => (-1, ctx)
    | some (header, dataOffset, encryption) =>
      if fileOffset < dataOffset || fileOffset > file.length - segmentFrameHeaderSize - 4 then
        (-1, ctx)
      else
        match preadExact file segmentFrameHeaderSize fileOffset with
        | none => (-1, ctx)
        | some frameHeader =>
          let encrypted := header.flags &&& flagEncrypted != 0
          let info := frameInfoAt frameHeader fileOffset
          if !frameLengthsFit encrypted info (file.length - fileOffset) then (-1, ctx)
          else
            match preadExact file info.frameLen.toNat fileOffset with
            | none => (-1, ctx)
            | some frameBytes =>
              if !frameCrcMatches encrypted frameBytes info.storedLen.toNat then (-1, ctx)
              else
                let dict := (metadata.drop (dataOffset - header.dictLen.toNat)).take
                  header.dictLen.toNat
                let dek :=
                  if encrypted then
                    if decryptor then evp.unwrapDek encryption.wrappedDek else none
                  else some (List.replicate segmentDekSize 0)
                match dek with
                | none => (-1, ctx)
                | some dek =>
                  match openPayload evp encrypted dek encryption.noncePrefix frameIndex info
                      frameBytes with
                  | none => (-1, ctx)
                  | some payload =>
                    match decompressPayload codec header dict info payload with
                    | none => (-1, ctx)
                    | some chunk =>
                      if codec.verifyChunk (header.flags &&& flagCompactEntries != 0) chunk then
                        cb header info chunk ctx
                      else (-1, ctx)

end Recorder.Model
