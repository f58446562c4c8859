import Recorder.Model.FrameReader

/-!
# `segment.c`: the reads of the scanner

The scanner of a segment with two things made explicit that `Recorder.Model.SegmentScan` leaves
out. Every read of a buffer goes through `load`, which fails where one of the bytes lies outside
of it; and `size_t` has `w` bits, so that sums and differences of it wrap. The words of the
format are `uint32_t` for every `w`.

`scanStepAt` is a turn of the frame loop up to the callback, `scanTurn` a whole turn, and
`frameReaderScanAt` is `segment_frame_reader_scan`. `none` is a read outside of the buffer.
-/

set_option autoImplicit false

namespace Recorder.Model

/-! ## Reads and sizes -/

/-- The `n` bytes from `i` on, if they are in the buffer. A pointer may lie in front of it. -/
def load (buf : Bytes) (i : ℤ) (n : ℕ) : Option Bytes :=
  if 0 ≤ i ∧ i + n ≤ buf.length then some ((buf.drop i.toNat).take n) else none

/-- A load of `n` bytes. -/
def loadBytes (buf : Bytes) (i n : ℕ) : Option Bytes := load buf i n

/-- A load of a 32-bit number. -/
def loadU32 (buf : Bytes) (i : ℕ) : Option UInt32 := (loadBytes buf i 4).map readU32Le

/-- A load of a 64-bit number. -/
def loadU64 (buf : Bytes) (i : ℕ) : Option UInt64 := (loadBytes buf i 8).map readU64Le

/-- A sum of `size_t`. -/
def sizeT (w n : ℕ) : ℕ := n % 2 ^ w

/-- A difference of `size_t`. -/
def sizeSub (w a b : ℕ) : ℕ := (a + 2 ^ w - b) % 2 ^ w

/-! ## The header -/

/-- `segment_parse_header`. The data offset is a sum of `uint32_t`, whatever `size_t` is.
SOURCE: segment.c:419-504 -/
def segmentParseHeaderAt (w : ℕ) (buf : Bytes) :
    Option (SegmentHeader × ℕ × SegmentEncryptionInfo) :=
  if buf.length < segmentHeaderFixedSize then none
  else if buf.take 8 != segmentMagic then none
  else if readU32Le (buf.drop 8) != segmentVersion then none
  else
    let headerSize := readU32Le (buf.drop 12)
    if headerSize.toNat < segmentHeaderFixedSize || headerSize.toNat > buf.length then none
    else
      let header := readHeaderFields buf
      let extensionLen := sizeSub w headerSize.toNat segmentHeaderFixedSize
      let extension := (buf.drop segmentHeaderFixedSize).take extensionLen
      match parseEncryption header.flags extension with
      | none => none
      | some encryption =>
        if readU32Le (buf.drop 148) != headerCrc (buf.take 148) extension then none
        else if header.dictLen.toNat > sizeSub w buf.length headerSize.toNat then none
        else some (header, (headerSize + header.dictLen).toNat, encryption)

/-! ## A turn of the frame loop -/

/-- The footer test.
SOURCE: segment.c:589-611 -/
def footerLoad (w : ℕ) (buf : Bytes) (offset : ℕ) : Option (Option SegmentFooter) :=
  if sizeSub w buf.length offset < segmentFooterSize then some none
  else do
    let magic ← loadBytes buf (offset + 40) 8
    if magic ≠ segmentFooterMagic then return none
    let version ← loadU32 buf (offset + 36)
    if version ≠ segmentVersion then return none
    let expectCrc ← loadU32 buf (offset + 32)
    let tmp ← loadBytes buf offset segmentFooterSize
    if expectCrc ≠ recorderCrc32 (tmp.take 32 ++ writeU32Le 0 ++ tmp.drop 36) then return none
    let footerFlags ← loadU32 buf offset
    let rotationReason ← loadU32 buf (offset + 4)
    let entryCount ← loadU64 buf (offset + 8)
    let lastRealtimeTs ← loadU64 buf (offset + 16)
    let lastMonotonicTs ← loadU64 buf (offset + 24)
    return some { footerFlags, rotationReason, entryCount, lastRealtimeTs, lastMonotonicTs,
                  present := true }

/-- What the length checks of a frame say: the lengths contradict each other, the frame is
longer than the rest of the buffer, or the loop goes on. -/
inductive LengthCheck
  | mismatch
  | torn
  | pass
  deriving DecidableEq, Repr

/-- The length checks. `expected_len` is a `size_t`.
SOURCE: segment.c:623-634 -/
def lengthCheck (w : ℕ) (encrypted : Bool) (rest : ℕ) (storedLen totalLen : UInt32) :
    LengthCheck :=
  let expectedLen := sizeT w (segmentFrameHeaderSize + storedLen.toNat + tagLen encrypted + 4)
  if expectedLen > uint32Max ∨ totalLen.toNat ≠ expectedLen then .mismatch
  else if totalLen.toNat > rest then .torn
  else .pass

/-- A turn of the frame loop up to the length checks: how it ends there, or the frame header.
SOURCE: segment.c:582-634 -/
def frameHeadAt (w : ℕ) (encrypted : Bool) (buf : Bytes) (offset : ℕ) :
    Option (Except ScanStep SegmentFrameInfo) := do
  match ← footerLoad w buf offset with
  | some f => return .error (.footer f)
  | none =>
    let rest := sizeSub w buf.length offset
    if rest < segmentFrameHeaderSize + 4 + tagLen encrypted then return .error .stop
    let flags ← loadU32 buf offset
    let storedLen ← loadU32 buf (offset + 4)
    let uncompressedLen ← loadU32 buf (offset + 8)
    let totalLen ← loadU32 buf (offset + 12)
    match lengthCheck w encrypted rest storedLen totalLen with
    | .mismatch => return .error (if encrypted then .corrupt else .stop)
    | .torn => return .error .stop
    | .pass => return .ok ⟨flags, storedLen, uncompressedLen, offset, totalLen⟩

/-- The checksum of a frame whose lengths are accepted.
SOURCE: segment.c:635-654 -/
def frameCrcAt (encrypted : Bool) (buf : Bytes) (offset : ℕ) (info : SegmentFrameInfo) :
    Option ScanStep := do
  let storedLen := info.storedLen.toNat
  let storedCrc ← loadU32 buf (offset + segmentFrameHeaderSize + storedLen + tagLen encrypted)
  let head ← loadBytes buf offset segmentFrameHeaderSize
  let stored ← loadBytes buf (offset + segmentFrameHeaderSize) storedLen
  let tag ← loadBytes buf (offset + segmentFrameHeaderSize + storedLen) (tagLen encrypted)
  if storedCrc ≠ frameCrc head stored tag then return (if encrypted then .corrupt else .stop)
  return .frame info

/-- A turn of the frame loop up to the callback.
SOURCE: segment.c:582-654 -/
def scanStepAt (w : ℕ) (encrypted : Bool) (buf : Bytes) (offset : ℕ) : Option ScanStep := do
  match ← frameHeadAt w encrypted buf offset with
  | .error step => return step
  | .ok info => frameCrcAt encrypted buf offset info

/-! ## The callback part -/

/-- The dictionary the loop hands to the decoder: `dict_len` bytes in front of the offset it
started from. -/
def dictionaryAt (header : SegmentHeader) (buf : Bytes) (start : ℕ) : Option Bytes :=
  load buf ((start : ℤ) - header.dictLen.toNat) header.dictLen.toNat

/-- `decompress_payload`, which looks at the dictionary only to decompress with it; the inner
`none` is its negative result.
SOURCE: segment.c:369-417 -/
def decompressPayloadAt (codec : CodecOps) (header : SegmentHeader) (dict : Option Bytes)
    (frame : SegmentFrameInfo) (payload : Bytes) : Option (Option Bytes) := do
  if frame.flags &&& frameFlagZstd == 0 then return some (payload.take frame.storedLen.toNat)
  let decoded ←
    if header.flags &&& flagHasStaticDict != 0 && header.dictLen != 0 then
      dict.map fun dict =>
        codec.zstdDecompress (some dict) payload frame.uncompressedLen.toNat
    else some (codec.zstdDecompress none payload frame.uncompressedLen.toNat)
  return decoded.filter fun chunk => chunk.length == frame.uncompressedLen.toNat

/-- The stored payload of a frame, decrypted where the segment is encrypted; the inner `none`
is a failed decryption.
SOURCE: segment.c:655-685 -/
def openPayloadAt (evp : EvpOps) (encrypted : Bool) (dek noncePrefix : Bytes)
    (frameIndex : UInt64) (info : SegmentFrameInfo) (buf : Bytes) (offset : ℕ) :
    Option (Option Bytes) := do
  let storedLen := info.storedLen.toNat
  let stored ← loadBytes buf (offset + segmentFrameHeaderSize) storedLen
  if encrypted then
    let aad ← loadBytes buf offset segmentFrameHeaderSize
    let tag ← loadBytes buf (offset + segmentFrameHeaderSize + storedLen) gcmTagSize
    return recorderCryptoAesGcmDecrypt evp dek (frameNonce noncePrefix frameIndex) aad stored tag
  return some stored

variable {σ : Type}

/-- The callback part of the frame loop, for the frame at `offset`.
SOURCE: segment.c:655-717 -/
def deliverFrameAt (env : ScanEnv σ) (buf : Bytes) (start offset : ℕ) (info : SegmentFrameInfo)
    (frameIndex : UInt64) (ctx : σ) : Option (Delivery σ) :=
  match env.cb with
  | none => some (.ok ctx)
  | some cb =>
    if info.fileOffset < env.minFrameOffset then some (.ok ctx)
    else do
      let bad : Delivery σ := if env.encrypted then .failed (-1) (some .eio) ctx else .stop
      match ← openPayloadAt env.evp env.encrypted env.dek env.encryption.noncePrefix frameIndex
          info buf offset with
      | none => return .failed (-1) (some .eio) ctx
      | some payload =>
        match ← decompressPayloadAt env.codec env.header (dictionaryAt env.header buf start) info
            payload with
        | none => return bad
        | some chunk =>
          if env.codec.verifyChunk (env.header.flags &&& flagCompactEntries != 0) chunk then
            match cb env.header info chunk ctx with
            | (rv, ctx') => return (if rv != 0 then .failed rv none ctx' else .ok ctx')
          else return bad

/-- One turn of the loop that was started at `start`: how the scan ends, or the state of the
next turn.
SOURCE: segment.c:582-722 -/
def scanTurn (env : ScanEnv σ) (buf : Bytes) (start : ℕ) (st : ScanState σ) :
    Option (Except (ScanEnd σ) (ScanState σ)) :=
  if st.offset < buf.length then do
    match ← scanStepAt 64 env.encrypted buf st.offset with
    | .footer f =>
      return .error (.done { st with
        footer := f
        committedEnd := st.offset + segmentFooterSize
        offset := st.offset + segmentFooterSize })
    | .stop => return .error (.done st)
    | .corrupt => return .error (.failed (-1) (some .eio) st.ctx)
    | .frame info =>
      match ← deliverFrameAt env buf start st.offset info st.frameIndex st.ctx with
      | .stop => return .error (.done st)
      | .failed rv errno ctx => return .error (.failed rv errno ctx)
      | .ok ctx =>
        if env.encrypted && st.frameIndex == 0xffffffffffffffff then
          return .error (.failed (-1) (some .eoverflow) ctx)
        return .ok { st with
          frameIndex := st.frameIndex + 1
          offset := sizeT 64 (st.offset + info.frameLen.toNat)
          committedEnd := sizeT 64 (st.offset + info.frameLen.toNat)
          frames := st.frames ++ [info]
          ctx := ctx }
  else some (.error (.done st))

/-! ## The reader of single frames -/

/-- `segment_frame_reader_scan`. The frame header and the frame are read from the file into
buffers of their length, by one `pread` each, and the dictionary is taken from the metadata.
SOURCE: segment.c:867-910 -/
def frameReaderScanAt (evp : EvpOps) (codec : CodecOps) (reader : SegmentFrameReader)
    (cb : FrameCb σ) (ctx : σ) (fileOffset : ℕ) (frameIndex : UInt64) : Option (Int × σ) :=
  let size := reader.file.length
  if fileOffset < reader.dataOffset ∨
      fileOffset > sizeSub 64 (sizeSub 64 size segmentFrameHeaderSize) 4 then some (-1, ctx)
  else do
    let frameHeader ← loadBytes reader.file fileOffset segmentFrameHeaderSize
    let flags ← loadU32 frameHeader 0
    let storedLen ← loadU32 frameHeader 4
    let uncompressedLen ← loadU32 frameHeader 8
    let totalLen ← loadU32 frameHeader 12
    let info : SegmentFrameInfo := ⟨flags, storedLen, uncompressedLen, fileOffset, totalLen⟩
    if lengthCheck 64 reader.encrypted (sizeSub 64 size fileOffset) storedLen totalLen ≠ .pass then
      return (-1, ctx)
    if totalLen.toNat > preadLimit then return (-1, ctx)
    let frameBytes ← loadBytes reader.file fileOffset totalLen.toNat
    match ← frameCrcAt reader.encrypted frameBytes 0 info with
    | .frame _ =>
      match ← openPayloadAt evp reader.encrypted reader.dek reader.encryption.noncePrefix
          frameIndex info frameBytes 0 with
      | none => return (-1, ctx)
      | some payload =>
        match ← decompressPayloadAt codec reader.header
            (dictionaryAt reader.header reader.metadata reader.dataOffset) info payload with
        | none => return (-1, ctx)
        | some chunk =>
          if codec.verifyChunk (reader.header.flags &&& flagCompactEntries != 0) chunk then
            return cb reader.header info chunk ctx
          else return (-1, ctx)
    | _ => return (-1, ctx)

end Recorder.Model
