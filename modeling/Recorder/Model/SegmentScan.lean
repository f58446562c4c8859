import Recorder.Model.Segment

/-!
# `segment.c`: parsing and scanning a segment

`segmentParseHeader` accepts or rejects the header. `scanStep` is one turn of the frame
loop of `segment_scan_impl` on the rest of the buffer: a footer, a frame, the end of the
committed data, or corruption of an encrypted segment. `scanLoop` is the loop itself. Its
state also keeps the list of frames passed so far, which the source does not store: a
metadata scan (no callback) reports it through the committed end, a scan with a callback
through the calls it makes.
-/

set_option autoImplicit false

namespace Recorder.Model

/-- The encryption part of `segment_parse_header`: `none` rejects the segment.
SOURCE: segment.c:460-488 -/
def parseEncryption (flags : UInt32) (extension : Bytes) :
    Option SegmentEncryptionInfo :=
  if flags &&& flagEncrypted != 0 then
    if extension.length < encryptionExtensionFixedSize + noncePrefixSize ||
        extension.take 8 != encryptionExtensionMagic ||
        readU32Le (extension.drop 8) != 1 ||
        (readU32Le (extension.drop 12)).toNat != extension.length ||
        readU32Le (extension.drop 16) != 1 ||
        readU32Le (extension.drop 20) != 1 then none
    else
      let wrappedDekLen := (readU32Le (extension.drop 24)).toNat
      let noncePrefixLen := readU32Le (extension.drop 28)
      if noncePrefixLen != 4 || wrappedDekLen == 0 ||
          wrappedDekLen != extension.length - encryptionExtensionFixedSize -
            noncePrefixLen.toNat then none
      else some
        { noncePrefix := (extension.drop encryptionExtensionFixedSize).take noncePrefixSize
          wrappedDek := (extension.drop (encryptionExtensionFixedSize +
            noncePrefixLen.toNat)).take wrappedDekLen }
  else if extension.length != 0 then none
  else some {}

/-- The header fields of `segment_parse_header`, read at their fixed offsets.
SOURCE: segment.c:446-456 -/
def readHeaderFields (buf : Bytes) : SegmentHeader where
  flags := readU32Le (buf.drop 16)
  segmentSeq := readU64Le (buf.drop 20)
  bootSeq := readU32Le (buf.drop 28)
  bootId := (buf.drop 32).take bootIdSize
  timezone := (buf.drop 64).take (timezoneSize - 1)
  firstRealtimeTs := readU64Le (buf.drop 128)
  firstMonotonicTs := readU64Le (buf.drop 136)
  dictLen := readU32Le (buf.drop 144)

/-- `segment_parse_header`: the header, the data offset and the encryption parameters.
The data offset is a sum of two `uint32_t`.
SOURCE: segment.c:419-504 -/
def segmentParseHeader (buf : Bytes) :
    Option (SegmentHeader × ℕ × SegmentEncryptionInfo) :=
  if buf.length < segmentHeaderFixedSize then none
  else if buf.take 8 != segmentMagic then none
  else if readU32Le (buf.drop 8) != segmentVersion then none
  else
    let headerSize := readU32Le (buf.drop 12)
    if headerSize.toNat < segmentHeaderFixedSize || headerSize.toNat > buf.length then none
    else
      let header := readHeaderFields buf
      let extension := (buf.drop segmentHeaderFixedSize).take
        (headerSize.toNat - segmentHeaderFixedSize)
      match parseEncryption header.flags extension with
      | none => none
      | some encryption =>
        if readU32Le (buf.drop 148) != headerCrc (buf.take 148) extension then none
        else if header.dictLen.toNat > buf.length - headerSize.toNat then none
        else some (header, (headerSize + header.dictLen).toNat, encryption)

/-- The footer test at a frame boundary, and the footer it reads.
SOURCE: segment.c:589-611 -/
def footerAt (p : Bytes) : Option SegmentFooter :=
  if segmentFooterSize ≤ p.length && (p.drop 40).take 8 == segmentFooterMagic &&
      readU32Le (p.drop 36) == segmentVersion then
    let tmp := p.take 32 ++ writeU32Le 0 ++ (p.drop 36).take 12
    if readU32Le (p.drop 32) == recorderCrc32 tmp then
      some { footerFlags := readU32Le p
             rotationReason := readU32Le (p.drop 4)
             entryCount := readU64Le (p.drop 8)
             lastRealtimeTs := readU64Le (p.drop 16)
             lastMonotonicTs := readU64Le (p.drop 24)
             present := true }
    else none
  else none

/-- What one turn of the frame loop finds at a frame boundary. -/
inductive ScanStep
  /-- A footer: the loop ends behind it. -/
  | footer (f : SegmentFooter)
  /-- A whole frame with matching CRC. -/
  | frame (info : SegmentFrameInfo)
  /-- `break`: a torn or invalid tail of a plain segment, or too few bytes for a frame. -/
  | stop
  /-- `goto out`: the tail of an encrypted segment is not a frame. -/
  | corrupt
  deriving DecidableEq, Repr

/-- The tag bytes a frame of the segment carries. -/
def tagLen (encrypted : Bool) : ℕ := if encrypted then gcmTagSize else 0

/-- The frame header at a frame boundary.
SOURCE: segment.c:616-622 -/
def frameInfoAt (p : Bytes) (offset : ℕ) : SegmentFrameInfo where
  flags := readU32Le p
  storedLen := readU32Le (p.drop 4)
  uncompressedLen := readU32Le (p.drop 8)
  fileOffset := offset
  frameLen := readU32Le (p.drop 12)

/-- The CRC check of a frame whose length fields are consistent.
SOURCE: segment.c:635-653 -/
def frameCrcMatches (encrypted : Bool) (p : Bytes) (storedLen : ℕ) : Bool :=
  let stored := (p.drop segmentFrameHeaderSize).take storedLen
  let tag := (p.drop (segmentFrameHeaderSize + storedLen)).take (tagLen encrypted)
  readU32Le (p.drop (segmentFrameHeaderSize + storedLen + tagLen encrypted)) ==
    frameCrc (p.take segmentFrameHeaderSize) stored tag

/-- One turn of the frame loop, up to the callback: `p` is the buffer from `offset` on.
SOURCE: segment.c:582-654 -/
def scanStep (encrypted : Bool) (p : Bytes) (offset : ℕ) : ScanStep :=
  match footerAt p with
  | some f => .footer f
  | none =>
    if p.length < segmentFrameHeaderSize + 4 + tagLen encrypted then .stop
    else
      let info := frameInfoAt p offset
      let expectedLen := segmentFrameHeaderSize + info.storedLen.toNat + tagLen encrypted + 4
      if expectedLen > uint32Max || info.frameLen.toNat != expectedLen then
        if encrypted then .corrupt else .stop
      else if info.frameLen.toNat > p.length then .stop
      else if !frameCrcMatches encrypted p info.storedLen.toNat then
        if encrypted then .corrupt else .stop
      else .frame info

/-- A frame callback: header, frame, decoded chunk and the caller's context; nonzero
stops the scan.
SOURCE: segment.h:95-98 -/
abbrev FrameCb (σ : Type) := SegmentHeader → SegmentFrameInfo → Bytes → σ → Int × σ

/-- `decompress_payload`; `none` is its negative result.
SOURCE: segment.c:369-417 -/
def decompressPayload (codec : CodecOps) (header : SegmentHeader) (dict : Bytes)
    (frame : SegmentFrameInfo) (payload : Bytes) : Option Bytes :=
  if frame.flags &&& frameFlagZstd == 0 then some (payload.take frame.storedLen.toNat)
  else
    let decoded :=
      if header.flags &&& flagHasStaticDict != 0 && header.dictLen != 0 then
        codec.zstdDecompress (some dict) payload frame.uncompressedLen.toNat
      else codec.zstdDecompress none payload frame.uncompressedLen.toNat
    decoded.filter fun chunk => chunk.length == frame.uncompressedLen.toNat

/-- What a scan knows before the frame loop starts. -/
structure ScanEnv (σ : Type) where
  evp : EvpOps
  codec : CodecOps
  header : SegmentHeader
  encryption : SegmentEncryptionInfo
  dek : Bytes
  dict : Bytes
  cb : Option (FrameCb σ)
  minFrameOffset : ℕ

/-- Whether the scanned segment is encrypted. -/
def ScanEnv.encrypted {σ : Type} (env : ScanEnv σ) : Bool :=
  env.header.flags &&& flagEncrypted != 0

/-- The state of the frame loop. -/
structure ScanState (σ : Type) where
  offset : ℕ
  committedEnd : ℕ
  footer : SegmentFooter
  frameIndex : UInt64
  frames : List SegmentFrameInfo
  ctx : σ

/-- How a scan ends: with the loop's final state, or with a nonzero result. -/
inductive ScanEnd (σ : Type)
  | done (st : ScanState σ)
  | failed (rv : Int) (errno : Option Errno) (ctx : σ)

/-- The outcome of handing one frame to the callback. -/
inductive Delivery (σ : Type)
  | ok (ctx : σ)
  /-- `break`: a plain frame that does not decode. -/
  | stop
  | failed (rv : Int) (errno : Option Errno) (ctx : σ)

/-- The stored payload of a frame as the writer was given it: decrypted where the
segment is encrypted.
SOURCE: segment.c:655-685 -/
def openPayload (evp : EvpOps) (encrypted : Bool) (dek noncePrefix : Bytes)
    (frameIndex : UInt64) (info : SegmentFrameInfo) (p : Bytes) : Option Bytes :=
  let stored := (p.drop segmentFrameHeaderSize).take info.storedLen.toNat
  if encrypted then
    recorderCryptoAesGcmDecrypt evp dek (frameNonce noncePrefix frameIndex)
      (p.take segmentFrameHeaderSize) stored
      ((p.drop (segmentFrameHeaderSize + info.storedLen.toNat)).take gcmTagSize)
  else some stored

/-- The callback part of the frame loop; `p` is the buffer from the frame on.
SOURCE: segment.c:655-717 -/
def deliverFrame {σ : Type} (env : ScanEnv σ) (p : Bytes) (info : SegmentFrameInfo)
    (frameIndex : UInt64) (ctx : σ) : Delivery σ :=
  match env.cb with
  | none => .ok ctx
  | some cb =>
    if info.fileOffset < env.minFrameOffset then .ok ctx
    else
      let bad : Delivery σ := if env.encrypted then .failed (-1) (some .eio) ctx else .stop
      match openPayload env.evp env.encrypted env.dek env.encryption.noncePrefix frameIndex
          info p with
      | none => .failed (-1) (some .eio) ctx
      | some payload =>
        match decompressPayload env.codec env.header env.dict info payload with
        | none => bad
        | some chunk =>
          if env.codec.verifyChunk (env.header.flags &&& flagCompactEntries != 0) chunk then
            match cb env.header info chunk ctx with
            | (rv, ctx') => if rv != 0 then .failed rv none ctx' else .ok ctx'
          else bad

/-- The frame loop of `segment_scan_impl`. Every turn that goes on advances the offset by
at least twenty bytes, so a fuel of the buffer's length is never used up.
SOURCE: segment.c:582-722 -/
def scanLoop {σ : Type} (env : ScanEnv σ) (buf : Bytes) : ℕ → ScanState σ → ScanEnd σ
  | 0, st => .done st
  | fuel + 1, st =>
    if st.offset < buf.length then
      match scanStep env.encrypted (buf.drop st.offset) st.offset with
      | .footer f =>
        .done { st with
          footer := f
          committedEnd := st.offset + segmentFooterSize
          offset := st.offset + segmentFooterSize }
      | .stop => .done st
      | .corrupt => .failed (-1) (some .eio) st.ctx
      | .frame info =>
        match deliverFrame env (buf.drop st.offset) info st.frameIndex st.ctx with
        | .stop => .done st
        | .failed rv errno ctx => .failed rv errno ctx
        | .ok ctx =>
          if env.encrypted && st.frameIndex == 0xffffffffffffffff then
            .failed (-1) (some .eoverflow) ctx
          else
            scanLoop env buf fuel { st with
              frameIndex := st.frameIndex + 1
              offset := st.offset + info.frameLen.toNat
              committedEnd := st.offset + info.frameLen.toNat
              frames := st.frames ++ [info]
              ctx := ctx }
    else .done st

/-- What a successful scan stores through its output pointers, and the frames it
passed. -/
structure ScanOut where
  header : SegmentHeader
  footer : SegmentFooter
  committedEnd : ℕ
  frames : List SegmentFrameInfo
  deriving DecidableEq, Repr

/-- The result of a scan: outputs on success, the return value and `errno` otherwise; the
callback's context in both cases. -/
structure ScanResult (σ : Type) where
  out : Except (Int × Option Errno) ScanOut
  ctx : σ

/-- The loop's state at the data offset. -/
def ScanState.start {σ : Type} (offset : ℕ) (ctx : σ) : ScanState σ :=
  ⟨offset, offset, {}, 0, [], ctx⟩

/-- The end of `segment_scan_impl`: the outputs are stored on success only.
SOURCE: segment.c:724-738 -/
def ScanEnd.result {σ : Type} (header : SegmentHeader) : ScanEnd σ → ScanResult σ
  | .done st => ⟨.ok ⟨header, st.footer, st.committedEnd, st.frames⟩, st.ctx⟩
  | .failed rv errno ctx => ⟨.error (rv, errno), ctx⟩

/-- `segment_scan_impl`. `decryptor` says whether a private key was given; the key itself
is fixed in `evp`.
SOURCE: segment.c:543-738 -/
def segmentScanImpl {σ : Type} (evp : EvpOps) (codec : CodecOps) (buf : Bytes)
    (decryptor : Bool) (cb : Option (FrameCb σ)) (ctx : σ) (minFrameOffset : ℕ) :
    ScanResult σ :=
  match segmentParseHeader buf with
  | none => ⟨.error (-1, none), ctx⟩
  | some (header, offset, encryption) =>
    let run (dek : Bytes) : ScanResult σ :=
      -- `buf + offset - dict_len`; only a nonempty dictionary is looked at
      let dict := (buf.drop (offset - header.dictLen.toNat)).take header.dictLen.toNat
      ScanEnd.result header (scanLoop ⟨evp, codec, header, encryption, dek, dict, cb,
        minFrameOffset⟩ buf (buf.length + 1) (ScanState.start offset ctx))
    if header.flags &&& flagEncrypted != 0 && cb.isSome then
      if !decryptor then ⟨.error (-1, some .eacces), ctx⟩
      else
        match evp.unwrapDek encryption.wrappedDek with
        | none => ⟨.error (-1, some .eacces), ctx⟩
        | some dek => run dek
    else run (List.replicate segmentDekSize 0)

/-- `segment_scan_path` on a file's content.
SOURCE: segment.c:751-790 -/
def segmentScanPath {σ : Type} (evp : EvpOps) (codec : CodecOps) (file : Bytes)
    (decryptor : Bool) (cb : Option (FrameCb σ)) (ctx : σ) : ScanResult σ :=
  if file.length = 0 then ⟨.error (-1, some .einval), ctx⟩
  else segmentScanImpl evp codec file decryptor cb ctx 0

/-- A metadata scan: no callback and no key, as recovery runs it. -/
def metadataScan (evp : EvpOps) (codec : CodecOps) (file : Bytes) :
    Except (Int × Option Errno) ScanOut :=
  (segmentScanPath (σ := Unit) evp codec file false none ()).out

end Recorder.Model
