import Recorder.Analysis.SegmentLoop

/-!
# The segment format round trip

`segment_write_header`, `segment_write_frame` and `segment_write_footer` on one side,
`segment_parse_header` and `segment_scan_impl` on the other. The header is read back field
by field (`segmentParseHeader_headerImage`), a written frame is a frame
(`isFrame_frameImage`), and the loop of `scanFrom_frames` does the rest.

One sum does not survive: the parser adds header size and dictionary length as two
`uint32_t`, so a dictionary that brings the data offset to `2^32` or beyond makes the
scan start inside the header. `segment_round_trip_iff` states the round trip and that
this is the only exception.
-/

set_option autoImplicit false

namespace Recorder.Analysis

open Recorder.Model

/-! ## Headers -/

/-- A character array of `n` bytes that holds a string and zeros behind it. -/
def ZeroPadded (n : ℕ) (a : Bytes) : Prop :=
  ∃ s : Bytes, (∀ b ∈ s, b ≠ 0) ∧ s.length ≤ n ∧ a = zeroPad n s

@[simp] theorem length_zeroPad (n : ℕ) (s : Bytes) (h : s.length ≤ n) :
    (zeroPad n s).length = n := by
  simp only [zeroPad, List.length_append, List.length_replicate]
  omega

/-- The string in a zero-padded array is what `strnlen` finds. -/
theorem strnlenPrefix_zeroPad (n : ℕ) (s : Bytes) (hs : ∀ b ∈ s, b ≠ 0) (hn : s.length ≤ n) :
    strnlenPrefix n (zeroPad n s) = s := by
  unfold strnlenPrefix
  rw [List.take_of_length_le (by rw [length_zeroPad n s hn])]
  unfold zeroPad
  rw [List.takeWhile_append_of_pos (by simpa using hs)]
  cases h : n - s.length with
  | zero => simp
  | succ k => simp [List.replicate_succ]

theorem length_strnlenPrefix_le (n : ℕ) (a : Bytes) : (strnlenPrefix n a).length ≤ n := by
  unfold strnlenPrefix
  calc ((a.take n).takeWhile (· ≠ 0)).length
      ≤ (a.take n).length := (List.takeWhile_sublist _).length_le
    _ ≤ n := by simp

@[simp] theorem length_segmentMagic : segmentMagic.length = 8 := rfl

@[simp] theorem length_headerBody (header : SegmentHeader) (e d : ℕ) :
    (headerBody header e d).length = 148 := by
  have h1 := length_zeroPad bootIdSize _ (length_strnlenPrefix_le bootIdSize header.bootId)
  have h2 := length_zeroPad timezoneSize (strnlenPrefix (timezoneSize - 1) header.timezone)
    (le_trans (length_strnlenPrefix_le _ _) (by decide))
  simp only [headerBody, List.length_append, length_writeU32Le, length_writeU64Le,
    length_segmentMagic, h1, h2, bootIdSize, timezoneSize]

/-- INTERNAL: skipping a field leads to the next one. -/
theorem drop_add_of_drop {p a b : Bytes} {n : ℕ} (m : ℕ) (h : p.drop n = a ++ b)
    (ha : a.length = m) : p.drop (n + m) = b := by
  rw [← List.drop_drop, h, List.drop_left' ha]

/-- **The fixed header is read back**: every field of a written header, whatever follows
it.
SOURCE: segment.c:231-245, 446-456 -/
theorem readHeaderFields_headerBody (header : SegmentHeader) (e d : ℕ) (rest : Bytes)
    (hboot : ZeroPadded bootIdSize header.bootId)
    (htz : ZeroPadded (timezoneSize - 1) header.timezone) :
    (headerBody header e d ++ rest).take 8 = segmentMagic ∧
    readU32Le ((headerBody header e d ++ rest).drop 8) = segmentVersion ∧
    readU32Le ((headerBody header e d ++ rest).drop 12) = 152 + UInt32.ofNat e ∧
    readHeaderFields (headerBody header e d ++ rest) =
      { header with dictLen := UInt32.ofNat d } := by
  obtain ⟨boot, hboot0, hbootn, hboot⟩ := hboot
  obtain ⟨tz, htz0, htzn, htz⟩ := htz
  have hb : strnlenPrefix bootIdSize header.bootId = boot := by
    rw [hboot, strnlenPrefix_zeroPad _ _ hboot0 hbootn]
  have ht : strnlenPrefix (timezoneSize - 1) header.timezone = tz := by
    rw [htz, strnlenPrefix_zeroPad _ _ htz0 htzn]
  have hbl : (zeroPad bootIdSize boot).length = 32 := length_zeroPad _ _ hbootn
  have htl : (zeroPad timezoneSize tz).length = 64 := length_zeroPad _ _ (by omega)
  set p := headerBody header e d ++ rest with hp
  -- the fields in file order, each found behind the one before it
  have h0 : p.drop 0 = segmentMagic ++ (writeU32Le segmentVersion ++
      (writeU32Le (152 + UInt32.ofNat e) ++ (writeU32Le header.flags ++
      (writeU64Le header.segmentSeq ++ (writeU32Le header.bootSeq ++
      (zeroPad bootIdSize boot ++ (zeroPad timezoneSize tz ++
      (writeU64Le header.firstRealtimeTs ++ (writeU64Le header.firstMonotonicTs ++
      (writeU32Le (UInt32.ofNat d) ++ rest)))))))))) := by
    rw [hp, List.drop_zero, headerBody, hb, ht]
    simp only [List.append_assoc]
  have h8 := drop_add_of_drop 8 h0 rfl
  have h12 := drop_add_of_drop 4 h8 rfl
  have h16 := drop_add_of_drop 4 h12 rfl
  have h20 := drop_add_of_drop 4 h16 rfl
  have h28 := drop_add_of_drop 8 h20 rfl
  have h32 := drop_add_of_drop 4 h28 rfl
  have h64 := drop_add_of_drop 32 h32 hbl
  have h128 := drop_add_of_drop 64 h64 htl
  have h136 := drop_add_of_drop 8 h128 rfl
  have h144 := drop_add_of_drop 8 h136 rfl
  simp only [Nat.zero_add, Nat.reduceAdd] at h8 h12 h16 h20 h28 h32 h64 h128 h136 h144
  have htz63 : (zeroPad timezoneSize tz).take 63 = header.timezone := by
    rw [htz]
    unfold zeroPad timezoneSize
    rw [List.take_append, List.take_of_length_le (by omega), List.take_replicate]
    congr 2
    omega
  refine ⟨?_, ?_, ?_, ?_⟩
  · rw [List.drop_zero] at h0
    rw [h0]
    rfl
  · rw [h8, readU32Le_write]
  · rw [h12, readU32Le_write]
  · unfold readHeaderFields
    rw [h16, h20, h28, h32, h64, h128, h136, h144]
    simp only [readU32Le_write, readU64Le_write]
    rw [List.take_left' hbl, List.take_append_of_le_length (by rw [htl]; decide)]
    rw [show timezoneSize - 1 = 63 from rfl, htz63, ← hboot]

/-- **A written header is accepted and read back**, with the data offset the parser
computes: the 32-bit sum of header size and dictionary length.
SOURCE: segment.c:166-268, 419-504 -/
theorem segmentParseHeader_headerImage (header : SegmentHeader) (extension dict rest : Bytes)
    (info : SegmentEncryptionInfo) (hboot : ZeroPadded bootIdSize header.bootId)
    (htz : ZeroPadded (timezoneSize - 1) header.timezone) (hdict : dict.length ≤ uint32Max)
    (hext : segmentHeaderFixedSize + extension.length ≤ uint32Max)
    (henc : parseEncryption header.flags extension = some info) :
    segmentParseHeader (headerImage header extension dict ++ rest) =
      some ({ header with dictLen := UInt32.ofNat dict.length },
        (segmentHeaderFixedSize + extension.length + dict.length) % 2 ^ 32, info) := by
  simp only [segmentHeaderFixedSize, uint32Max] at hext hdict ⊢
  set e := extension.length with he
  set d := dict.length with hd
  set body := headerBody header e d with hbody
  set crc := writeU32Le (headerCrc body extension) with hcrc
  have hbl : body.length = 148 := length_headerBody _ _ _
  have hcl : crc.length = 4 := rfl
  have himage : headerImage header extension dict ++ rest =
      body ++ (crc ++ (extension ++ (dict ++ rest))) := by
    simp only [headerImage, List.append_assoc, ← he, ← hd, ← hbody, ← hcrc]
  obtain ⟨hmagic, hversion, hsize, hfields⟩ :=
    readHeaderFields_headerBody header e d (crc ++ (extension ++ (dict ++ rest))) hboot htz
  rw [himage]
  set p := body ++ (crc ++ (extension ++ (dict ++ rest))) with hp
  have hlen : p.length = 152 + e + d + rest.length := by
    simp only [hp, List.length_append, hbl, hcl, ← he, ← hd]
    omega
  have h148 : p.drop 148 = crc ++ (extension ++ (dict ++ rest)) := List.drop_left' hbl
  have h152 : p.drop 152 = extension ++ (dict ++ rest) := drop_add_of_drop 4 h148 hcl
  have hhs : (152 + UInt32.ofNat e).toNat = 152 + e := by
    rw [UInt32.toNat_add, UInt32.toNat_ofNat']
    simp
    omega
  have hdl : (UInt32.ofNat d).toNat = d := by
    rw [UInt32.toNat_ofNat']
    omega
  have hextension : (p.drop 152).take (152 + e - 152) = extension := by
    rw [h152, List.take_left' (by omega)]
  have htake : p.take 148 = body := List.take_left' hbl
  have hcrcRead : readU32Le (p.drop 148) = headerCrc body extension := by
    rw [h148, hcrc, readU32Le_write]
  have hsum : (152 + UInt32.ofNat e + UInt32.ofNat d).toNat = (152 + e + d) % 2 ^ 32 := by
    rw [UInt32.toNat_add, hhs, hdl]
  have hflags : (readHeaderFields p).flags = header.flags := by rw [hfields]
  unfold segmentParseHeader
  simp only [segmentHeaderFixedSize, hmagic, hversion, hsize, hhs, hfields, hextension, henc,
    htake, hcrcRead, hdl, hsum]
  have hn1 : ¬ p.length < 152 := by omega
  have hn2 : ¬ 152 + e < 152 := by omega
  have hn3 : ¬ 152 + e > p.length := by omega
  have hn4 : ¬ d > p.length - (152 + e) := by omega
  simp [hn1, hn3, hn4]

@[simp] theorem length_encryptionExtension (noncePrefix wrappedDek : Bytes) :
    (encryptionExtension noncePrefix wrappedDek).length =
      32 + noncePrefix.length + wrappedDek.length := by
  simp only [encryptionExtension, List.length_append, length_writeU32Le]
  rfl

/-- **The encryption extension is read back**.
SOURCE: segment.c:209-228, 460-488 -/
theorem parseEncryption_encryptionExtension (flags : UInt32) (noncePrefix wrappedDek : Bytes)
    (hflags : flags &&& flagEncrypted ≠ 0) (hpre : noncePrefix.length = noncePrefixSize)
    (hwrapped : wrappedDek ≠ []) (hsmall : 36 + wrappedDek.length ≤ uint32Max) :
    parseEncryption flags (encryptionExtension noncePrefix wrappedDek) =
      some { wrappedDek := wrappedDek, noncePrefix := noncePrefix } := by
  set ext := encryptionExtension noncePrefix wrappedDek with hext
  have hpos : 0 < wrappedDek.length := List.length_pos_of_ne_nil hwrapped
  simp only [noncePrefixSize, uint32Max] at hpre hsmall
  have hlen : ext.length = 36 + wrappedDek.length := by
    rw [hext, length_encryptionExtension, hpre]
  have hmagic : ext.take 8 = encryptionExtensionMagic := rfl
  have h8 : ext.drop 8 = writeU32Le 1 ++ ext.drop 12 := rfl
  have h12 : ext.drop 12 = writeU32Le (UInt32.ofNat (36 + wrappedDek.length)) ++
    ext.drop 16 := rfl
  have h16 : ext.drop 16 = writeU32Le 1 ++ ext.drop 20 := rfl
  have h20 : ext.drop 20 = writeU32Le 1 ++ ext.drop 24 := rfl
  have h24 : ext.drop 24 = writeU32Le (UInt32.ofNat wrappedDek.length) ++ ext.drop 28 := rfl
  have h28 : ext.drop 28 = writeU32Le 4 ++ ext.drop 32 := rfl
  have h32 : ext.drop 32 = noncePrefix ++ wrappedDek := rfl
  have h36 : ext.drop 36 = wrappedDek := drop_add_of_drop 4 h32 hpre
  have hv : readU32Le (ext.drop 8) = 1 := by rw [h8, readU32Le_write]
  have hl : (readU32Le (ext.drop 12)).toNat = 36 + wrappedDek.length := by
    rw [h12, readU32Le_write, UInt32.toNat_ofNat']
    omega
  have hk : readU32Le (ext.drop 16) = 1 := by rw [h16, readU32Le_write]
  have hc : readU32Le (ext.drop 20) = 1 := by rw [h20, readU32Le_write]
  have hw : (readU32Le (ext.drop 24)).toNat = wrappedDek.length := by
    rw [h24, readU32Le_write, UInt32.toNat_ofNat']
    omega
  have hn : readU32Le (ext.drop 28) = 4 := by rw [h28, readU32Le_write]
  have hnlen : ¬ 36 + wrappedDek.length < 36 := by omega
  have hne : wrappedDek.length ≠ 0 := by omega
  unfold parseEncryption
  simp only [encryptionExtensionFixedSize, noncePrefixSize, hmagic, hv, hl, hk, hc, hw, hn,
    hlen, show (4 : UInt32).toNat = 4 from rfl, h32, h36]
  simp [hflags, hne, List.take_left' hpre]
  omega

/-! ## Frames -/

@[simp] theorem length_frameHeader (flags s u l : UInt32) :
    (frameHeader flags s u l).length = 16 := rfl

@[simp] theorem length_frameImage (header stored tag : Bytes) :
    (frameImage header stored tag).length = header.length + stored.length + tag.length + 4 := by
  simp only [frameImage, List.length_append, length_writeU32Le]

/-- The header fields of a written frame.
SOURCE: segment.c:297-300 -/
theorem frameInfoAt_frameImage (flags s u l : UInt32) (stored tag : Bytes) (offset : ℕ) :
    frameInfoAt (frameImage (frameHeader flags s u l) stored tag) offset =
      { flags := flags, storedLen := s, uncompressedLen := u, fileOffset := offset,
        frameLen := l } := by
  set p := frameImage (frameHeader flags s u l) stored tag with hp
  have h0 : p = writeU32Le flags ++ p.drop 4 := rfl
  have h4 : p.drop 4 = writeU32Le s ++ p.drop 8 := rfl
  have h8 : p.drop 8 = writeU32Le u ++ p.drop 12 := rfl
  have h12 : p.drop 12 = writeU32Le l ++ p.drop 16 := rfl
  have hflags : readU32Le p = flags := by rw [h0, readU32Le_write]
  have hs : readU32Le (p.drop 4) = s := by rw [h4, readU32Le_write]
  have hu : readU32Le (p.drop 8) = u := by rw [h8, readU32Le_write]
  have hl : readU32Le (p.drop 12) = l := by rw [h12, readU32Le_write]
  simp only [frameInfoAt, hflags, hs, hu, hl]

/-- The three regions of a written frame that the scanner looks at.
SOURCE: segment.c:330-336 -/
theorem frameImage_regions (header stored tag : Bytes) (hh : header.length = 16) :
    (frameImage header stored tag).take 16 = header ∧
    ((frameImage header stored tag).drop 16).take stored.length = stored ∧
    ((frameImage header stored tag).drop (16 + stored.length)).take tag.length = tag ∧
    readU32Le ((frameImage header stored tag).drop (16 + stored.length + tag.length)) =
      frameCrc header stored tag := by
  have himage : frameImage header stored tag =
      header ++ (stored ++ (tag ++ writeU32Le (frameCrc header stored tag))) := by
    simp only [frameImage, List.append_assoc]
  have h0 : (frameImage header stored tag).drop 0 =
      header ++ (stored ++ (tag ++ writeU32Le (frameCrc header stored tag))) := himage
  have h16 := drop_add_of_drop 16 h0 hh
  have hs := drop_add_of_drop stored.length h16 rfl
  have ht := drop_add_of_drop tag.length hs rfl
  simp only [Nat.zero_add] at h16 hs ht
  refine ⟨?_, ?_, ?_, ?_⟩
  · rw [himage, List.take_left' hh]
  · rw [h16, List.take_left' rfl]
  · rw [hs, List.take_left' rfl]
  · rw [ht, ← List.append_nil (writeU32Le _), readU32Le_write]

/-- **A written frame is a frame**.
SOURCE: segment.c:295-336, 612-654 -/
theorem isFrame_frameImage (encrypted : Bool) (flags u : UInt32) (stored tag : Bytes)
    (htag : tag.length = tagLen encrypted)
    (hsmall : 16 + stored.length + tag.length + 4 ≤ uint32Max) :
    IsFrame encrypted (frameImage (frameHeader flags (UInt32.ofNat stored.length) u
      (UInt32.ofNat (16 + stored.length + tag.length + 4))) stored tag) := by
  simp only [uint32Max] at hsmall
  set l := UInt32.ofNat (16 + stored.length + tag.length + 4) with hl
  set s := UInt32.ofNat stored.length with hs
  have hsn : s.toNat = stored.length := by rw [hs, UInt32.toNat_ofNat']; omega
  have hln : l.toNat = 16 + stored.length + tag.length + 4 := by
    rw [hl, UInt32.toNat_ofNat']; omega
  have hinfo := frameInfoAt_frameImage flags s u l stored tag 0
  simp only [frameInfoAt, SegmentFrameInfo.mk.injEq] at hinfo
  obtain ⟨-, h4, -, -, h12⟩ := hinfo
  obtain ⟨hr16, hrs, hrt, hrc⟩ := frameImage_regions (frameHeader flags s u l) stored tag rfl
  refine ⟨?_, ?_, ?_⟩
  · rw [length_frameImage, length_frameHeader, h4, hsn, htag]
  · rw [h12, hln, length_frameImage, length_frameHeader]
  · rw [h4, hsn]
    simp only [frameCrcMatches, segmentFrameHeaderSize, ← htag]
    rw [hr16, hrs, hrt, hrc, beq_self_eq_true]

/-- What the analysis uses of OpenSSL: wrapping yields a nonempty value that the matching
private key unwraps, and AES-GCM yields a ciphertext of the plaintext's length and a
16-byte tag that open again under equal key, nonce and additional data. -/
structure EvpLaws (evp : EvpOps) : Prop where
  wrapDek_ne_nil : ∀ dek wrapped, evp.wrapDek dek = some wrapped → wrapped ≠ []
  unwrap_wrap : ∀ dek wrapped, evp.wrapDek dek = some wrapped → evp.unwrapDek wrapped = some dek
  seal_length : ∀ dek nonce aad p c t, evp.aesGcmSeal dek nonce aad p = some (c, t) →
    c.length = p.length ∧ t.length = gcmTagSize
  open_seal : ∀ dek nonce aad p c t, evp.aesGcmSeal dek nonce aad p = some (c, t) →
    evp.aesGcmOpen dek nonce aad c t = some p

/-- One frame as its writer is given it. -/
structure StoredFrame where
  flags : UInt32
  payload : Bytes
  uncompressedLen : UInt32
  deriving DecidableEq, Repr

/-- The bytes a frame takes in the file. -/
def StoredFrame.size (f : StoredFrame) (encrypted : Bool) : ℕ :=
  16 + f.payload.length + tagLen encrypted + 4

/-- The frame header a scan should report for a frame. -/
def StoredFrame.info (f : StoredFrame) (encrypted : Bool) (offset : ℕ) : SegmentFrameInfo where
  flags := f.flags
  storedLen := UInt32.ofNat f.payload.length
  uncompressedLen := f.uncompressedLen
  fileOffset := offset
  frameLen := UInt32.ofNat (f.size encrypted)

/-- The 16 header bytes of a frame. -/
def StoredFrame.header (f : StoredFrame) (encrypted : Bool) : Bytes :=
  frameHeader f.flags (UInt32.ofNat f.payload.length) f.uncompressedLen
    (UInt32.ofNat (f.size encrypted))

/-- `segment_write_frame` on a stored frame, every operation succeeding. -/
def StoredFrame.write (evp : EvpOps) (encryptor : Option SegmentEncryptor)
    (f : StoredFrame) : WriteResult :=
  segmentWriteFrame evp ⟨true, .ok⟩ encryptor f.flags f.payload f.uncompressedLen

/-- `segment_write_frame` without an encryptor: the frame fits its length field and is
written, or nothing happens.
SOURCE: segment.c:270-345 -/
theorem StoredFrame.write_plain (evp : EvpOps) (f : StoredFrame) :
    f.write evp none = if f.size false ≤ uint32Max then
      ⟨true, frameImage (f.header false) f.payload [], none, none⟩
    else .refuse none (some .eoverflow) := by
  unfold StoredFrame.write segmentWriteFrame
  simp only [Option.isSome_none, Bool.false_eq_true, if_false, Option.map_none,
    segmentFrameHeaderSize, uint32Max, StoredFrame.size, tagLen]
  rw [if_neg (by simp)]
  split
  · rw [if_neg (by omega)]
  · rw [if_pos (by omega)]
    rfl

/-- What a successful `segment_write_frame` wrote, and the encryptor it leaves.
SOURCE: segment.c:270-345 -/
theorem StoredFrame.write_ok (evp : EvpOps) (laws : EvpLaws evp)
    (encryptor : Option SegmentEncryptor) (f : StoredFrame)
    (h : (f.write evp encryptor).ok = true) :
    ∃ stored tag, (f.write evp encryptor).written =
        frameImage (f.header encryptor.isSome) stored tag ∧
      stored.length = f.payload.length ∧ tag.length = tagLen encryptor.isSome ∧
      f.size encryptor.isSome ≤ uint32Max ∧
      (f.write evp encryptor).encryptor =
        encryptor.map (fun e => { e with frameIndex := e.frameIndex + 1 }) ∧
      (encryptor = none → stored = f.payload) ∧
      ∀ e, encryptor = some e → e.frameIndex ≠ 0xffffffffffffffff ∧
        recorderCryptoAesGcmDecrypt evp e.dek (frameNonce e.noncePrefix e.frameIndex)
          (f.header true) stored tag = some f.payload := by
  cases encryptor with
  | none =>
    rw [StoredFrame.write_plain] at h ⊢
    split at h
    · rename_i hsmall
      rw [if_pos hsmall]
      exact ⟨f.payload, [], rfl, rfl, rfl, hsmall, rfl, fun _ => rfl, by simp⟩
    · cases h
  | some e =>
    unfold StoredFrame.write segmentWriteFrame at h ⊢
    simp only [Option.isSome_some, if_true, Option.map_some, segmentFrameHeaderSize,
      uint32Max, gcmTagSize] at h ⊢
    split at h
    · cases h
    · rename_i hinit
      rw [if_neg hinit]
      split at h
      · cases h
      · rename_i hsmall
        rw [if_neg hsmall]
        split at h
        · cases h
        · rename_i hmax
          rw [if_neg hmax]
          simp only [Bool.not_true, Bool.false_eq_true, if_false] at h ⊢
          cases hc : recorderCryptoAesGcmEncrypt evp e.dek
              (frameNonce e.noncePrefix e.frameIndex) _ f.payload with
          | none => rw [hc] at h; cases h
          | some ct =>
            obtain ⟨stored, tag⟩ := ct
            have hc' := hc
            unfold recorderCryptoAesGcmEncrypt at hc'
            split at hc'
            · rename_i hfit
              obtain ⟨hsl, htl⟩ := laws.seal_length _ _ _ _ _ _ hc'
              refine ⟨stored, tag, ?_, hsl, ?_, ?_, rfl, by simp, ?_⟩
              · rfl
              · rw [htl]; rfl
              · simp only [StoredFrame.size, tagLen, if_true, gcmTagSize]
                omega
              · rintro e' ⟨⟩
                refine ⟨hmax, ?_⟩
                unfold recorderCryptoAesGcmDecrypt
                rw [hsl, if_pos (show lengthsFitEvp (f.header true).length f.payload.length = true
                  from hfit)]
                exact laws.open_seal _ _ _ _ _ _ hc'
            · cases hc'

end Recorder.Analysis
