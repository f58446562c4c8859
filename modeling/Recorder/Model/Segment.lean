import Recorder.Model.Helper

/-!
# `segment.c`: the segment format, its writers and its scanner

A segment file is a fixed header (with an extension when the segment is encrypted), the
dictionary bytes, the frames, and, once the segment is closed, a footer. The writers
below build each image as `segment.c` does and append it to the file through a
`WriteOutcome`, which says how much of it reached the file. The scanner is one function
for one turn of the loop of `segment_scan_impl` (`scanStep`, a function of the rest of
the buffer only) and the loop around it, which counts frames, delivers them to a
callback and keeps the committed end.

OpenSSL, zstd and the FlatBuffers verifier are parameters (`EvpOps`, `CodecOps`).
Offsets and sizes are `size_t` values and appear as naturals; the 32-bit words of the
format keep their width, so that a 32-bit sum wraps where it does in the source.
-/

set_option autoImplicit false

namespace Recorder.Model

/-! ## Constants and records -/

/-- The `errno` values the modelled functions set or test. -/
inductive Errno
  | einval | eacces | eio | eoverflow | enotsup | enoent | enospc | edquot | enomem
  deriving DecidableEq, Repr

/-- `RECORDER_SEGMENT_MAGIC`, "RECSEG01". -/
def segmentMagic : Bytes := [0x52, 0x45, 0x43, 0x53, 0x45, 0x47, 0x30, 0x31]

/-- `RECORDER_SEGMENT_FOOTER_MAGIC`, "RECEND01". -/
def segmentFooterMagic : Bytes := [0x52, 0x45, 0x43, 0x45, 0x4e, 0x44, 0x30, 0x31]

/-- `SEGMENT_ENCRYPTION_EXTENSION_MAGIC`, "RECENC01". -/
def encryptionExtensionMagic : Bytes := [0x52, 0x45, 0x43, 0x45, 0x4e, 0x43, 0x30, 0x31]

/-- `RECORDER_SEGMENT_VERSION`. -/
def segmentVersion : UInt32 := 1
/-- `SEGMENT_HEADER_FIXED_SIZE`, the header without an extension. -/
abbrev segmentHeaderFixedSize : ℕ := 152
/-- `SEGMENT_FRAME_HEADER_SIZE`. -/
abbrev segmentFrameHeaderSize : ℕ := 16
/-- `SEGMENT_ENCRYPTION_EXTENSION_FIXED_SIZE`. -/
abbrev encryptionExtensionFixedSize : ℕ := 32
/-- `SEGMENT_DEK_SIZE`. -/
abbrev segmentDekSize : ℕ := 32
/-- `SEGMENT_NONCE_PREFIX_SIZE`. -/
abbrev noncePrefixSize : ℕ := 4
/-- `SEGMENT_GCM_TAG_SIZE`. -/
abbrev gcmTagSize : ℕ := 16
/-- `SEGMENT_FOOTER_BODY_SIZE` and `SEGMENT_FOOTER_TRAILER_SIZE` together. -/
abbrev segmentFooterSize : ℕ := 48
/-- `RECORDER_BOOT_ID_SIZE`. -/
abbrev bootIdSize : ℕ := 32
/-- `RECORDER_SEGMENT_TZ_SIZE`. -/
abbrev timezoneSize : ℕ := 64
/-- `UINT32_MAX`. -/
abbrev uint32Max : ℕ := 4294967295
/-- `INT_MAX`. -/
abbrev intMax : ℕ := 2147483647
/-- `SIZE_MAX`, of 64 bits. -/
abbrev sizeMax : ℕ := 2 ^ 64 - 1

/-- `SEGMENT_FLAG_HAS_STATIC_DICT`. -/
def flagHasStaticDict : UInt32 := 1
/-- `SEGMENT_FLAG_COMPACT_ENTRIES`. -/
def flagCompactEntries : UInt32 := 4
/-- `SEGMENT_FLAG_ENCRYPTED`. -/
def flagEncrypted : UInt32 := 8
/-- `SEGMENT_FRAME_FLAG_ZSTD`. -/
def frameFlagZstd : UInt32 := 1
/-- `SEGMENT_FOOTER_FLAG_HAS_SIGNATURE`. -/
def footerFlagHasSignature : UInt32 := 1
/-- `SEGMENT_FOOTER_FLAG_REALTIME_NONMONOTONIC`. -/
def footerFlagRealtimeNonmonotonic : UInt32 := 2

/-- `SegmentHeader`. The two character arrays are kept as their bytes before the final
terminator, 32 of `boot_id` and 63 of `timezone`.
SOURCE: segment.h:62-71 -/
structure SegmentHeader where
  flags : UInt32
  segmentSeq : UInt64
  bootSeq : UInt32
  bootId : Bytes
  timezone : Bytes
  firstRealtimeTs : UInt64
  firstMonotonicTs : UInt64
  dictLen : UInt32
  deriving DecidableEq, Repr

/-- `SegmentFrameInfo`.
SOURCE: segment.h:73-79 -/
structure SegmentFrameInfo where
  flags : UInt32
  storedLen : UInt32
  uncompressedLen : UInt32
  fileOffset : ℕ
  frameLen : UInt32
  deriving DecidableEq, Repr

/-- `SegmentFooter`. The signature fields are reserved: no writer sets them and the
scanner leaves them zero.
SOURCE: segment.h:81-93 -/
structure SegmentFooter where
  footerFlags : UInt32 := 0
  rotationReason : UInt32 := 0
  entryCount : UInt64 := 0
  lastRealtimeTs : UInt64 := 0
  lastMonotonicTs : UInt64 := 0
  present : Bool := false
  deriving DecidableEq, Repr

/-- `SegmentEncryptor`, without the public key, which is fixed in `EvpOps`.
SOURCE: segment.c:44-50 -/
structure SegmentEncryptor where
  dek : Bytes
  noncePrefix : Bytes
  frameIndex : UInt64
  initialized : Bool
  deriving DecidableEq, Repr

/-- `SegmentEncryptionInfo`.
SOURCE: segment.c:56-60 -/
structure SegmentEncryptionInfo where
  wrappedDek : Bytes := []
  noncePrefix : Bytes := []
  deriving DecidableEq, Repr

/-! ## What OpenSSL, zstd and flatcc do -/

/-- The OpenSSL calls behind `recorder_crypto.c`, for one key pair. `none` is a failure
of the call. -/
structure EvpOps where
  /-- RSA-OAEP under the public key. -/
  wrapDek : Bytes → Option Bytes
  /-- RSA-OAEP under the private key, as `recorder_crypto_unwrap_dek` returns it. -/
  unwrapDek : Bytes → Option Bytes
  /-- AES-256-GCM: key, nonce, additional data, plaintext to ciphertext and tag. -/
  aesGcmSeal : Bytes → Bytes → Bytes → Bytes → Option (Bytes × Bytes)
  /-- AES-256-GCM: key, nonce, additional data, ciphertext, tag to plaintext. -/
  aesGcmOpen : Bytes → Bytes → Bytes → Bytes → Bytes → Option Bytes

/-- The zstd decoder and the generated FlatBuffers verifiers. -/
structure CodecOps where
  /-- `ZSTD_decompress` (`none`) or `ZSTD_decompress_usingDict`, into a buffer of the
  given capacity. -/
  zstdDecompress : Option Bytes → Bytes → ℕ → Option Bytes
  /-- `journal_DefaultChunk_verify_as_root` (`true`) or `journal_Chunk_verify_as_root`. -/
  verifyChunk : Bool → Bytes → Bool

/-- `lengths_fit_evp`.
SOURCE: recorder_crypto.c:237-240 -/
def lengthsFitEvp (aadLen inputLen : ℕ) : Bool := aadLen ≤ intMax && inputLen ≤ intMax

/-- `recorder_crypto_aes_gcm_encrypt`.
SOURCE: recorder_crypto.c:242-298 -/
def recorderCryptoAesGcmEncrypt (evp : EvpOps) (dek nonce aad plaintext : Bytes) :
    Option (Bytes × Bytes) :=
  if lengthsFitEvp aad.length plaintext.length then
    evp.aesGcmSeal dek nonce aad plaintext
  else none

/-- `recorder_crypto_aes_gcm_decrypt`.
SOURCE: recorder_crypto.c:300-355 -/
def recorderCryptoAesGcmDecrypt (evp : EvpOps) (dek nonce aad ciphertext tag : Bytes) :
    Option Bytes :=
  if lengthsFitEvp aad.length ciphertext.length then
    evp.aesGcmOpen dek nonce aad ciphertext tag
  else none

/-! ## Writing -/

/-- What became of a sequence of `fwrite`s and the flush that follows: everything
reached the file, or an error came after the given number of bytes. -/
inductive WriteOutcome
  | ok
  | fail (written : ℕ)
  deriving DecidableEq, Repr

/-- The bytes a write leaves in the file, and whether it reported success. -/
def WriteOutcome.append (o : WriteOutcome) (data : Bytes) : Bytes × Bool :=
  match o with
  | .ok => (data, true)
  | .fail written => (data.take written, false)

/-- A C string in a character array: the bytes up to the terminator, at most `n`. -/
def strnlenPrefix (n : ℕ) (a : Bytes) : Bytes := (a.take n).takeWhile (· ≠ 0)

/-- A copy into a zeroed array of `n` bytes. -/
def zeroPad (n : ℕ) (s : Bytes) : Bytes := s ++ List.replicate (n - s.length) 0

/-- The encryption extension of `segment_write_header`.
SOURCE: segment.c:209-228 -/
def encryptionExtension (noncePrefix wrappedDek : Bytes) : Bytes :=
  encryptionExtensionMagic ++ writeU32Le 1 ++
    writeU32Le (UInt32.ofNat (encryptionExtensionFixedSize + noncePrefixSize +
      wrappedDek.length)) ++
    writeU32Le 1 ++ writeU32Le 1 ++ writeU32Le (UInt32.ofNat wrappedDek.length) ++
    writeU32Le 4 ++ noncePrefix ++ wrappedDek

/-- The first 148 bytes of the fixed header.
SOURCE: segment.c:231-245 -/
def headerBody (header : SegmentHeader) (extensionLen dictLen : ℕ) : Bytes :=
  segmentMagic ++ writeU32Le segmentVersion ++
    writeU32Le (152 + UInt32.ofNat extensionLen) ++ writeU32Le header.flags ++
    writeU64Le header.segmentSeq ++ writeU32Le header.bootSeq ++
    zeroPad bootIdSize (strnlenPrefix bootIdSize header.bootId) ++
    zeroPad timezoneSize (strnlenPrefix (timezoneSize - 1) header.timezone) ++
    writeU64Le header.firstRealtimeTs ++ writeU64Le header.firstMonotonicTs ++
    writeU32Le (UInt32.ofNat dictLen)

/-- The header CRC: the fixed part, mixed with the extension when there is one.
SOURCE: segment.c:246-249, 491-494 -/
def headerCrc (body extension : Bytes) : UInt32 :=
  if extension.length ≠ 0 then recorderCrc32 body ^^^ recorderCrc32 extension
  else recorderCrc32 body

/-- The fixed header, extension and dictionary as `segment_write_header` writes them. -/
def headerImage (header : SegmentHeader) (extension dict : Bytes) : Bytes :=
  headerBody header extension.length dict.length ++
    writeU32Le (headerCrc (headerBody header extension.length dict.length) extension) ++
    extension ++ dict

/-- What two successful `recorder_crypto_random` calls leave in the key and nonce prefix
buffers. -/
structure FreshKey where
  dek : Bytes
  noncePrefix : Bytes
  dek_length : dek.length = segmentDekSize
  noncePrefix_length : noncePrefix.length = noncePrefixSize

/-- What the environment decides in one `segment_write_header` call: the random data key
and nonce prefix (or a failure of the generator), the allocation of the extension, and
the writes. -/
structure HeaderIo where
  random : Option FreshKey
  allocOk : Bool
  write : WriteOutcome

/-- The result of a writer: success, the bytes appended to the file, the encryptor
afterwards, and the `errno` it set. -/
structure WriteResult where
  ok : Bool
  written : Bytes
  encryptor : Option SegmentEncryptor
  errno : Option Errno
  deriving DecidableEq, Repr

/-- A writer that gave up before touching the file. -/
def WriteResult.refuse (encryptor : Option SegmentEncryptor) (errno : Option Errno) :
    WriteResult :=
  ⟨false, [], encryptor, errno⟩

/-- `segment_write_header`.
SOURCE: segment.c:166-268 -/
def segmentWriteHeader (evp : EvpOps) (io : HeaderIo) (header : SegmentHeader)
    (dict : Bytes) (encryptor : Option SegmentEncryptor) : WriteResult :=
  if dict.length > uint32Max then .refuse encryptor (some .eoverflow)
  else if (header.flags &&& flagEncrypted != 0) != encryptor.isSome then
    .refuse encryptor (some .einval)
  else
    match encryptor with
    | none =>
      let w := io.write.append (headerImage header [] dict)
      ⟨w.2, w.1, none, none⟩
    | some enc =>
      -- from here on the old key is gone, whatever happens next
      let cleared : SegmentEncryptor :=
        { enc with initialized := false, dek := List.replicate segmentDekSize 0 }
      match io.random with
      | none => .refuse (some cleared) none
      | some key =>
        match evp.wrapDek key.dek with
        | none => .refuse (some cleared) none
        | some wrappedDek =>
          if wrappedDek.length > uint32Max - segmentHeaderFixedSize -
              encryptionExtensionFixedSize - noncePrefixSize then
            .refuse (some cleared) (some .eoverflow)
          else if !io.allocOk then .refuse (some cleared) none
          else
            let w := io.write.append
              (headerImage header (encryptionExtension key.noncePrefix wrappedDek) dict)
            if w.2 then
              ⟨true, w.1, some ⟨key.dek, key.noncePrefix, 0, true⟩, none⟩
            else ⟨false, w.1, some cleared, none⟩

/-- The frame nonce: the prefix and the frame counter, most significant byte first.
SOURCE: segment.c:311-315, 652-656 -/
def frameNonce (noncePrefix : Bytes) (frameIndex : UInt64) : Bytes :=
  noncePrefix.take noncePrefixSize ++ (List.range 8).map fun i =>
    (frameIndex >>> UInt64.ofNat (56 - i * 8)).toUInt8

/-- The 16 header bytes of a frame.
SOURCE: segment.c:296-300 -/
def frameHeader (flags : UInt32) (storedLen uncompressedLen frameLen : UInt32) : Bytes :=
  writeU32Le flags ++ writeU32Le storedLen ++ writeU32Le uncompressedLen ++
    writeU32Le frameLen

/-- The frame CRC: header, stored payload and, when encrypted, tag.
SOURCE: segment.c:325-329 -/
def frameCrc (header stored tag : Bytes) : UInt32 :=
  if tag.length ≠ 0 then
    recorderCrc32 header ^^^ recorderCrc32 stored ^^^ recorderCrc32 tag
  else recorderCrc32 header ^^^ recorderCrc32 stored

/-- A frame as `segment_write_frame` writes it. -/
def frameImage (header stored tag : Bytes) : Bytes :=
  header ++ stored ++ tag ++ writeU32Le (frameCrc header stored tag)

/-- What the environment decides in one `segment_write_frame` call. -/
structure FrameIo where
  allocOk : Bool
  write : WriteOutcome

/-- `segment_write_frame`. The payload length is its `stored_len` argument.
SOURCE: segment.c:270-345 -/
def segmentWriteFrame (evp : EvpOps) (io : FrameIo) (encryptor : Option SegmentEncryptor)
    (flags : UInt32) (payload : Bytes) (uncompressedLen : UInt32) : WriteResult :=
  let trailerSize := if encryptor.isSome then 4 + gcmTagSize else 4
  let header := frameHeader flags (UInt32.ofNat payload.length) uncompressedLen
    (UInt32.ofNat (segmentFrameHeaderSize + payload.length + trailerSize))
  if (encryptor.map (·.initialized)) = some false then .refuse encryptor (some .einval)
  else if payload.length > uint32Max - segmentFrameHeaderSize - trailerSize then
    .refuse encryptor (some .eoverflow)
  else
    match encryptor with
    | none =>
      let w := io.write.append (frameImage header payload [])
      ⟨w.2, w.1, none, none⟩
    | some enc =>
      if enc.frameIndex = 0xffffffffffffffff then .refuse encryptor (some .eoverflow)
      else if !io.allocOk then .refuse encryptor none
      else
        -- the counter moves before the cipher runs, so a failed call still uses it up
        let next := { enc with frameIndex := enc.frameIndex + 1 }
        match recorderCryptoAesGcmEncrypt evp enc.dek
            (frameNonce enc.noncePrefix enc.frameIndex) header payload with
        | none => .refuse (some next) none
        | some (stored, tag) =>
          let w := io.write.append (frameImage header stored tag)
          ⟨w.2, w.1, some next, none⟩

/-- The first 32 bytes of a footer.
SOURCE: segment.c:356-360 -/
def footerBody (footer : SegmentFooter) : Bytes :=
  writeU32Le footer.footerFlags ++ writeU32Le footer.rotationReason ++
    writeU64Le footer.entryCount ++ writeU64Le footer.lastRealtimeTs ++
    writeU64Le footer.lastMonotonicTs

/-- The last 12 bytes of a footer.
SOURCE: segment.c:362-363 -/
def footerTrailer : Bytes := writeU32Le segmentVersion ++ segmentFooterMagic

/-- The 48 bytes of a footer, its CRC taken with the CRC field zero.
SOURCE: segment.c:356-366 -/
def footerImage (footer : SegmentFooter) : Bytes :=
  footerBody footer ++
    writeU32Le (recorderCrc32 (footerBody footer ++ writeU32Le 0 ++ footerTrailer)) ++
    footerTrailer

/-- `segment_write_footer`.
SOURCE: segment.c:347-367 -/
def segmentWriteFooter (write : WriteOutcome) (footer : SegmentFooter) : WriteResult :=
  if footer.footerFlags &&& footerFlagHasSignature != 0 then .refuse none (some .enotsup)
  else
    let w := write.append (footerImage footer)
    ⟨w.2, w.1, none, none⟩

end Recorder.Model
