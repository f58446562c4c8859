import Recorder.Analysis.SegmentRoundTrip

/-!
# Whole segment files

A segment file written by one `segment_write_header`, any number of `segment_write_frame`
calls and at most one `segment_write_footer`, and what a scan makes of it.

`segment_round_trip_iff` is the format's contract: the scan reproduces header, frames,
payloads, footer and length exactly when header size plus dictionary length stays below
`2^32`. `frame_scanned_iff_no_footer_image` is the other boundary of the format: a frame
is taken for what it is exactly when the 48 bytes at its start are not a footer image,
and payload bytes can make them one.
-/

set_option autoImplicit false

namespace Recorder.Analysis

open Recorder.Model

/-! ## Writing and expecting a list of frames -/

/-- `segment_write_frame` for each frame in turn: the bytes of each, or `none` when one is
refused. -/
def writeFrames (evp : EvpOps) : Option SegmentEncryptor → List StoredFrame → Option (List Bytes)
  | _, [] => some []
  | encryptor, f :: frames =>
    if (f.write evp encryptor).ok then
      (writeFrames evp (f.write evp encryptor).encryptor frames).map
        ((f.write evp encryptor).written :: ·)
    else none

/-- The frame headers a scan should report, from a file offset on. -/
def expectedInfos (encrypted : Bool) : ℕ → List StoredFrame → List SegmentFrameInfo
  | _, [] => []
  | offset, f :: frames =>
    f.info encrypted offset :: expectedInfos encrypted (offset + f.size encrypted) frames

@[simp] theorem length_expectedInfos (encrypted : Bool) (frames : List StoredFrame) :
    ∀ offset, (expectedInfos encrypted offset frames).length = frames.length := by
  induction frames with
  | nil => intro offset; rfl
  | cons f frames ih => intro offset; rw [expectedInfos, List.length_cons, ih, List.length_cons]

theorem expectedInfos_take (encrypted : Bool) (frames : List StoredFrame) (n offset : ℕ) :
    expectedInfos encrypted offset (frames.take n) =
      (expectedInfos encrypted offset frames).take n := by
  induction frames generalizing n offset with
  | nil => cases n <;> rfl
  | cons f frames ih =>
    cases n with
    | zero => rfl
    | succ n => rw [List.take_succ_cons, expectedInfos, expectedInfos, List.take_succ_cons, ih]

/-- The calls a scanning callback should receive: each frame with the chunk its stored
payload decodes to; `none` when a payload does not decode or the verifier rejects it. -/
def expectedDeliveries (codec : CodecOps) (header : SegmentHeader) (dict : Bytes)
    (encrypted : Bool) : ℕ → List StoredFrame → Option (List (SegmentFrameInfo × Bytes))
  | _, [] => some []
  | offset, f :: frames =>
    match decompressPayload codec header dict (f.info encrypted offset) f.payload with
    | none => none
    | some chunk =>
      if codec.verifyChunk (header.flags &&& flagCompactEntries != 0) chunk then
        (expectedDeliveries codec header dict encrypted (offset + f.size encrypted) frames).map
          ((f.info encrypted offset, chunk) :: ·)
      else none

/-- A callback that records its calls. -/
def recordCalls : FrameCb (List (SegmentFrameInfo × Bytes)) :=
  fun _ info chunk calls => (0, calls ++ [(info, chunk)])

/-- INTERNAL: the encryptor in front of the frame with a given number. -/
def frameEncryptor (key : Option FreshKey) (index : UInt64) : Option SegmentEncryptor :=
  key.map fun k => ⟨k.dek, k.noncePrefix, index, true⟩

theorem isSome_frameEncryptor (key : Option FreshKey) (index : UInt64) :
    (frameEncryptor key index).isSome = key.isSome := by
  cases key <;> rfl

/-- INTERNAL: the bytes of a written frame and its header, in the words of the expected
scan. -/
theorem StoredFrame.written_spec (evp : EvpOps) (laws : EvpLaws evp) (key : Option FreshKey)
    (index : UInt64) (f : StoredFrame) (offset : ℕ)
    (h : (f.write evp (frameEncryptor key index)).ok = true) :
    IsFrame key.isSome (f.write evp (frameEncryptor key index)).written ∧
    frameInfoAt (f.write evp (frameEncryptor key index)).written offset =
      f.info key.isSome offset ∧
    (f.write evp (frameEncryptor key index)).written.length = f.size key.isSome ∧
    (f.write evp (frameEncryptor key index)).encryptor = frameEncryptor key (index + 1) ∧
    (key.isSome = true → index ≠ 0xffffffffffffffff) ∧
    openPayload evp key.isSome (key.elim [] (·.dek)) (key.elim [] (·.noncePrefix)) index
      (f.info key.isSome offset) (f.write evp (frameEncryptor key index)).written =
      some f.payload := by
  obtain ⟨stored, tag, hw, hsl, htl, hsmall, henc, hplain, hdec⟩ :=
    StoredFrame.write_ok evp laws _ f h
  rw [isSome_frameEncryptor] at hw htl hsmall
  have hheader : f.header key.isSome = frameHeader f.flags (UInt32.ofNat stored.length)
      f.uncompressedLen (UInt32.ofNat (16 + stored.length + tag.length + 4)) := by
    rw [hsl, htl]
    rfl
  have hsn : (UInt32.ofNat f.payload.length).toNat = stored.length := by
    rw [UInt32.toNat_ofNat', hsl]
    simp only [StoredFrame.size, uint32Max] at hsmall
    omega
  obtain ⟨hr16, hrs, hrt, -⟩ := frameImage_regions (f.header key.isSome) stored tag rfl
  rw [hw]
  refine ⟨?_, ?_, ?_, ?_, ?_, ?_⟩
  · rw [hheader]
    refine isFrame_frameImage _ _ _ _ _ htl ?_
    simpa only [StoredFrame.size, hsl, htl] using hsmall
  · rw [StoredFrame.header, frameInfoAt_frameImage]
    rfl
  · rw [length_frameImage, hsl, htl]
    rfl
  · rw [henc]
    cases key <;> rfl
  · intro hsome
    cases key with
    | none => cases hsome
    | some k => exact (hdec _ rfl).1
  · unfold openPayload
    simp only [StoredFrame.info, segmentFrameHeaderSize, hsn]
    rw [hr16, hrs]
    cases key with
    | none => simpa using hplain rfl
    | some k =>
      have htag : tag.length = 16 := htl
      rw [htag] at hrt
      simp only [Option.isSome_some, if_true, gcmTagSize] at hrt ⊢
      rw [hrt]
      exact (hdec _ rfl).2

/-- INTERNAL: a scan with the key opens a written frame. -/
theorem openPayload_written {σ : Type} (env : ScanEnv σ) (laws : EvpLaws env.evp)
    (key : Option FreshKey) (hkey : key.isSome = env.encrypted)
    (hdek : env.dek = key.elim env.dek (·.dek))
    (hnonce : env.encryption.noncePrefix = key.elim env.encryption.noncePrefix (·.noncePrefix))
    (index : UInt64) (f : StoredFrame) (offset : ℕ)
    (h : (f.write env.evp (frameEncryptor key index)).ok = true) :
    openPayload env.evp env.encrypted env.dek env.encryption.noncePrefix index
      (f.info key.isSome offset) (f.write env.evp (frameEncryptor key index)).written =
      some f.payload := by
  obtain ⟨-, -, -, -, -, hopen⟩ := StoredFrame.written_spec env.evp laws key index f offset h
  rw [← hopen, ← hkey]
  cases key with
  | none => rfl
  | some k => rw [hdek, hnonce]; rfl

/-- INTERNAL: a written frame is delivered as the chunk its payload decodes to. -/
theorem deliverFrame_written (env : ScanEnv (List (SegmentFrameInfo × Bytes)))
    (laws : EvpLaws env.evp) (key : Option FreshKey) (hkey : key.isSome = env.encrypted)
    (hdek : env.dek = key.elim env.dek (·.dek))
    (hnonce : env.encryption.noncePrefix = key.elim env.encryption.noncePrefix (·.noncePrefix))
    (hcb : env.cb = some recordCalls) (hmin : env.minFrameOffset = 0) (index : UInt64)
    (f : StoredFrame) (offset : ℕ) (calls : List (SegmentFrameInfo × Bytes)) (chunk : Bytes)
    (h : (f.write env.evp (frameEncryptor key index)).ok = true)
    (hchunk : decompressPayload env.codec env.header env.dict (f.info key.isSome offset)
      f.payload = some chunk)
    (hverify : env.codec.verifyChunk (env.header.flags &&& flagCompactEntries != 0) chunk) :
    deliverFrame env (f.write env.evp (frameEncryptor key index)).written
      (f.info key.isSome offset) index calls =
      .ok (calls ++ [(f.info key.isSome offset, chunk)]) := by
  have hopen := openPayload_written env laws key hkey hdek hnonce index f offset h
  simp only [deliverFrame, hcb, hmin, Nat.not_lt_zero, if_false, hopen, hchunk, hverify,
    if_true, recordCalls]
  rfl

/-- INTERNAL: a written frame whose payload does not decode ends the scan. -/
theorem deliverFrame_undecoded (env : ScanEnv (List (SegmentFrameInfo × Bytes)))
    (laws : EvpLaws env.evp) (key : Option FreshKey) (hkey : key.isSome = env.encrypted)
    (hdek : env.dek = key.elim env.dek (·.dek))
    (hnonce : env.encryption.noncePrefix = key.elim env.encryption.noncePrefix (·.noncePrefix))
    (hcb : env.cb = some recordCalls) (hmin : env.minFrameOffset = 0) (index : UInt64)
    (f : StoredFrame) (offset : ℕ) (calls : List (SegmentFrameInfo × Bytes))
    (h : (f.write env.evp (frameEncryptor key index)).ok = true)
    (hchunk : decompressPayload env.codec env.header env.dict (f.info key.isSome offset)
      f.payload = none) :
    deliverFrame env (f.write env.evp (frameEncryptor key index)).written
      (f.info key.isSome offset) index calls =
      if env.encrypted then .failed (-1) (some .eio) calls else .stop := by
  have hopen := openPayload_written env laws key hkey hdek hnonce index f offset h
  simp only [deliverFrame, hcb, hmin, Nat.not_lt_zero, if_false, hopen, hchunk]

/-- **A written list of frames**: whole frames with the expected headers, delivered with
the expected chunks.
SOURCE: segment.c:270-345 -/
theorem writeFrames_spec (evp : EvpOps) (laws : EvpLaws evp) (key : Option FreshKey)
    (frames : List StoredFrame) :
    ∀ (index : UInt64) (offset : ℕ) (images : List Bytes),
      writeFrames evp (frameEncryptor key index) frames = some images →
      (∀ bs ∈ images, IsFrame key.isSome bs) ∧
      frameInfos offset images = expectedInfos key.isSome offset frames ∧
      (key.isSome = true → index.toNat + images.length < 2 ^ 64) ∧
      ∀ (env : ScanEnv (List (SegmentFrameInfo × Bytes))), env.evp = evp →
        key.isSome = env.encrypted → env.dek = key.elim env.dek (·.dek) →
        env.encryption.noncePrefix = key.elim env.encryption.noncePrefix (·.noncePrefix) →
        env.cb = some recordCalls → env.minFrameOffset = 0 →
        ∀ calls deliveries, expectedDeliveries env.codec env.header env.dict key.isSome offset
          frames = some deliveries →
        deliverAll env offset index images calls = some (calls ++ deliveries) := by
  induction frames with
  | nil =>
    intro index offset images h
    obtain rfl : images = [] := by simpa [writeFrames] using h.symm
    refine ⟨by simp, rfl, fun _ => index.toNat_lt, ?_⟩
    intro env _ _ _ _ _ _ calls deliveries hd
    obtain rfl : deliveries = [] := by simpa [expectedDeliveries] using hd.symm
    simp [deliverAll]
  | cons f frames ih =>
    intro index offset images h
    simp only [writeFrames] at h
    split at h
    · rename_i hok
      obtain ⟨hframe, hinfo, hlen, hnext, hmax, -⟩ :=
        StoredFrame.written_spec evp laws key index f offset hok
      rw [hnext] at h
      obtain ⟨images', himages', rfl⟩ := Option.map_eq_some_iff.mp h
      obtain ⟨hall, hinfos, hcount, hdel⟩ :=
        ih (index + 1) (offset + f.size key.isSome) images' himages'
      refine ⟨?_, ?_, ?_, ?_⟩
      · intro bs hbs
        rcases List.mem_cons.mp hbs with rfl | hbs
        · exact hframe
        · exact hall bs hbs
      · rw [frameInfos, hinfo, hlen, hinfos, expectedInfos]
      · intro hsome
        have hsucc : (index + 1).toNat = index.toNat + 1 :=
          frameIndex_add_one index (hmax hsome)
        have := hcount hsome
        rw [List.length_cons]
        omega
      · intro env hevp hkey hdek hnonce hcb hmin calls deliveries hd
        subst hevp
        simp only [expectedDeliveries] at hd
        cases hchunk : decompressPayload env.codec env.header env.dict
            (f.info key.isSome offset) f.payload with
        | none => rw [hchunk] at hd; cases hd
        | some chunk =>
          rw [hchunk] at hd
          simp only at hd
          split at hd
          · rename_i hverify
            obtain ⟨rest, hrest, rfl⟩ := Option.map_eq_some_iff.mp hd
            simp only [deliverAll, hinfo]
            rw [deliverFrame_written env laws key hkey hdek hnonce hcb hmin index f offset calls
              chunk hok hchunk hverify]
            simp only
            rw [hlen, hdel env rfl hkey hdek hnonce hcb hmin _ rest hrest, List.append_assoc]
            rfl
          · cases hd
    · cases h

/-! ## Whole files -/

/-- What one segment file is written from. -/
structure SegmentSource where
  header : SegmentHeader
  dict : Bytes
  frames : List StoredFrame
  footer : Option SegmentFooter

/-- The three parts of a written segment: header with dictionary, frames, footer. -/
structure WrittenSegment where
  head : Bytes
  images : List Bytes
  tail : Bytes

/-- The content of the segment file. -/
def WrittenSegment.file (w : WrittenSegment) : Bytes := w.head ++ (w.images.flatten ++ w.tail)

/-- The optional `segment_write_footer` at the end of a segment. -/
def writeFooterOpt : Option SegmentFooter → Option Bytes
  | none => some []
  | some f =>
    if (segmentWriteFooter .ok f).ok then some (segmentWriteFooter .ok f).written else none

/-- The writer calls for one segment, every operation succeeding; `none` when one of them
refuses its arguments. `key` is what the random generator returns. -/
def writeSegment (evp : EvpOps) (key : FreshKey) (encryptor : Option SegmentEncryptor)
    (s : SegmentSource) : Option WrittenSegment :=
  let h := segmentWriteHeader evp ⟨some key, true, .ok⟩ s.header s.dict encryptor
  if h.ok then
    match writeFrames evp h.encryptor s.frames, writeFooterOpt s.footer with
    | some images, some tail => some ⟨h.written, images, tail⟩
    | _, _ => none
  else none

/-- The header a scan should report. -/
def SegmentSource.storedHeader (s : SegmentSource) : SegmentHeader :=
  { s.header with dictLen := UInt32.ofNat s.dict.length }

/-- The footer a scan should report. -/
def SegmentSource.storedFooter (s : SegmentSource) : SegmentFooter :=
  s.footer.elim {} fun f => { f with present := true }

/-- The stored payloads a scan with the key recovers for given frames, before it decodes
them: each is decrypted under the key unwrapped from the header and its own nonce.
SOURCE: segment.c:568-576, 655-685 -/
def openPayloads (evp : EvpOps) (encrypted : Bool) (dek noncePrefix file : Bytes) :
    UInt64 → List SegmentFrameInfo → List (Option Bytes)
  | _, [] => []
  | index, info :: infos =>
    openPayload evp encrypted dek noncePrefix index info (file.drop info.fileOffset) ::
      openPayloads evp encrypted dek noncePrefix file (index + 1) infos

/-- **The round trip**: a metadata scan of the file reports the header, the footer, the
length and every frame; the stored payloads are recovered under the matching key; and a
scan with the key and a callback makes exactly the calls the stored payloads decode to. -/
structure RoundTrips (evp : EvpOps) (codec : CodecOps) (encrypted : Bool) (s : SegmentSource)
    (w : WrittenSegment) : Prop where
  metadata : metadataScan evp codec w.file =
    .ok ⟨s.storedHeader, s.storedFooter, w.file.length,
      expectedInfos encrypted w.head.length s.frames⟩
  payloads : ∃ header offset encryption dek,
    segmentParseHeader w.file = some (header, offset, encryption) ∧
    (encrypted = true → evp.unwrapDek encryption.wrappedDek = some dek) ∧
    openPayloads evp encrypted dek encryption.noncePrefix w.file 0
      (expectedInfos encrypted w.head.length s.frames) = s.frames.map (some ·.payload)
  deliveries : ∀ calls, expectedDeliveries codec s.storedHeader s.dict encrypted w.head.length
      s.frames = some calls →
    segmentScanPath evp codec w.file true (some recordCalls) [] =
      ⟨.ok ⟨s.storedHeader, s.storedFooter, w.file.length,
        expectedInfos encrypted w.head.length s.frames⟩, calls⟩

/-! ## The header of a written file -/

/-- The offset of the first frame: fixed header, extension and dictionary. -/
def dataOffset (evp : EvpOps) (key : FreshKey) (encrypted : Bool) (dict : Bytes) : ℕ :=
  152 + (if encrypted then 36 + ((evp.wrapDek key.dek).getD []).length else 0) + dict.length

/-- INTERNAL: a successful `segment_write_header` of a plain segment.
SOURCE: segment.c:166-268 -/
theorem segmentWriteHeader_plain (evp : EvpOps) (key : FreshKey) (header : SegmentHeader)
    (dict : Bytes)
    (h : (segmentWriteHeader evp ⟨some key, true, .ok⟩ header dict none).ok = true) :
    dict.length ≤ uint32Max ∧ (header.flags &&& flagEncrypted != 0) = false ∧
    segmentWriteHeader evp ⟨some key, true, .ok⟩ header dict none =
      ⟨true, headerImage header [] dict, none, none⟩ := by
  unfold segmentWriteHeader at h ⊢
  split at h
  · cases h
  · rename_i hdict
    split at h
    · cases h
    · rename_i hflags
      rw [if_neg hdict, if_neg hflags]
      exact ⟨not_lt.mp hdict, by simpa using hflags, rfl⟩

/-- INTERNAL: a successful `segment_write_header` of an encrypted segment.
SOURCE: segment.c:166-268 -/
theorem segmentWriteHeader_encrypted (evp : EvpOps) (key : FreshKey) (enc : SegmentEncryptor)
    (header : SegmentHeader) (dict : Bytes)
    (h : (segmentWriteHeader evp ⟨some key, true, .ok⟩ header dict (some enc)).ok = true) :
    dict.length ≤ uint32Max ∧ (header.flags &&& flagEncrypted != 0) = true ∧
    ∃ wrapped, evp.wrapDek key.dek = some wrapped ∧ 188 + wrapped.length ≤ uint32Max ∧
      segmentWriteHeader evp ⟨some key, true, .ok⟩ header dict (some enc) =
        ⟨true, headerImage header (encryptionExtension key.noncePrefix wrapped) dict,
          some ⟨key.dek, key.noncePrefix, 0, true⟩, none⟩ := by
  unfold segmentWriteHeader at h ⊢
  split at h
  · cases h
  · rename_i hdict
    split at h
    · cases h
    · rename_i hflags
      rw [if_neg hdict, if_neg hflags]
      refine ⟨not_lt.mp hdict, by simpa using hflags, ?_⟩
      simp only at h ⊢
      cases hw : evp.wrapDek key.dek with
      | none => rw [hw] at h; cases h
      | some wrapped =>
        rw [hw] at h
        simp only [segmentHeaderFixedSize, encryptionExtensionFixedSize, noncePrefixSize,
          uint32Max] at h ⊢
        split at h
        · cases h
        · rename_i hsmall
          refine ⟨wrapped, rfl, by omega, ?_⟩
          rw [if_neg hsmall]
          rfl

/-- What a successful `segment_write_header` leaves: an image whose extension the parser
accepts, and an encryptor that starts counting frames.
SOURCE: segment.c:166-268, 460-488 -/
theorem segmentWriteHeader_ok (evp : EvpOps) (laws : EvpLaws evp) (key : FreshKey)
    (encryptor : Option SegmentEncryptor) (header : SegmentHeader) (dict : Bytes)
    (h : (segmentWriteHeader evp ⟨some key, true, .ok⟩ header dict encryptor).ok = true) :
    dict.length ≤ uint32Max ∧ (header.flags &&& flagEncrypted != 0) = encryptor.isSome ∧
    (segmentWriteHeader evp ⟨some key, true, .ok⟩ header dict encryptor).encryptor =
      frameEncryptor (encryptor.map fun _ => key) 0 ∧
    ∃ extension info,
      (segmentWriteHeader evp ⟨some key, true, .ok⟩ header dict encryptor).written =
        headerImage header extension dict ∧
      152 + extension.length ≤ uint32Max ∧
      152 + extension.length + dict.length = dataOffset evp key encryptor.isSome dict ∧
      parseEncryption header.flags extension = some info ∧
      (encryptor.isSome = true → info.noncePrefix = key.noncePrefix ∧
        evp.unwrapDek info.wrappedDek = some key.dek) := by
  cases encryptor with
  | none =>
    obtain ⟨hdict, hflags, heq⟩ := segmentWriteHeader_plain evp key header dict h
    rw [heq]
    refine ⟨hdict, hflags, rfl, [], {}, rfl, by decide, by simp [dataOffset], ?_, by simp⟩
    simp [parseEncryption, hflags]
  | some enc =>
    obtain ⟨hdict, hflags, wrapped, hw, hsmall, heq⟩ :=
      segmentWriteHeader_encrypted evp key enc header dict h
    have hpre : key.noncePrefix.length = 4 := key.noncePrefix_length
    have hne : wrapped ≠ [] := laws.wrapDek_ne_nil _ _ hw
    have hlen : (encryptionExtension key.noncePrefix wrapped).length = 36 + wrapped.length := by
      rw [length_encryptionExtension, hpre]
    rw [heq]
    refine ⟨hdict, hflags, rfl, encryptionExtension key.noncePrefix wrapped,
      { wrappedDek := wrapped, noncePrefix := key.noncePrefix }, rfl, by rw [hlen]; omega, ?_, ?_,
      fun _ => ⟨rfl, laws.unwrap_wrap _ _ hw⟩⟩
    · simp [dataOffset, hw, hpre]
    · exact parseEncryption_encryptionExtension _ _ _ (by simpa using hflags) hpre hne
        (by omega)

/-! ## Scanning a written file -/

/-- INTERNAL: the dictionary bytes the scanner looks at. -/
def scanDict (file : Bytes) (header : SegmentHeader) (offset : ℕ) : Bytes :=
  (file.drop (offset - header.dictLen.toNat)).take header.dictLen.toNat

/-- INTERNAL: what a scan knows after the header, for a given key. -/
def scanEnv {σ : Type} (evp : EvpOps) (codec : CodecOps) (file : Bytes) (header : SegmentHeader)
    (offset : ℕ) (info : SegmentEncryptionInfo) (dek : Bytes) (cb : Option (FrameCb σ)) :
    ScanEnv σ :=
  ⟨evp, codec, header, info, dek, scanDict file header offset, cb, 0⟩

/-- A file whose header is accepted is not empty. -/
theorem length_ne_zero_of_parse {file : Bytes} {r : SegmentHeader × ℕ × SegmentEncryptionInfo}
    (h : segmentParseHeader file = some r) : file.length ≠ 0 := by
  intro h0
  simp [segmentParseHeader, segmentHeaderFixedSize, h0] at h

/-- A metadata scan is the frame loop from the data offset on.
SOURCE: segment.c:543-738 -/
theorem metadataScan_of_parse (evp : EvpOps) (codec : CodecOps) {file : Bytes}
    {header : SegmentHeader} {offset : ℕ} {info : SegmentEncryptionInfo}
    (h : segmentParseHeader file = some (header, offset, info)) :
    metadataScan evp codec file = (ScanEnd.result header (scanFrom
      (scanEnv (σ := Unit) evp codec file header offset info (List.replicate segmentDekSize 0)
        none) file (ScanState.start offset ()))).out := by
  simp only [metadataScan, segmentScanPath, length_ne_zero_of_parse h, if_false, segmentScanImpl,
    h, Option.isSome_none, Bool.and_false, Bool.false_eq_true]
  rfl

/-- INTERNAL: what a metadata scan knows after the header. -/
abbrev metadataEnv (evp : EvpOps) (codec : CodecOps) (file : Bytes) (header : SegmentHeader)
    (offset : ℕ) (info : SegmentEncryptionInfo) : ScanEnv Unit :=
  scanEnv evp codec file header offset info (List.replicate segmentDekSize 0) none

/-- A metadata scan succeeds when the header is accepted and the loop ends well.
SOURCE: segment.c:543-738 -/
theorem metadataScan_eq_ok_iff (evp : EvpOps) (codec : CodecOps) (file : Bytes) (out : ScanOut) :
    metadataScan evp codec file = .ok out ↔
      ∃ header offset info st', segmentParseHeader file = some (header, offset, info) ∧
        scanFrom (metadataEnv evp codec file header offset info) file
          (ScanState.start offset ()) = .done st' ∧
        out = ⟨header, st'.footer, st'.committedEnd, st'.frames⟩ := by
  constructor
  · intro h
    cases hp : segmentParseHeader file with
    | none =>
      simp only [metadataScan, segmentScanPath, segmentScanImpl, hp] at h
      split at h <;> cases h
    | some r =>
      obtain ⟨header, offset, info⟩ := r
      rw [metadataScan_of_parse evp codec hp] at h
      cases hscan : scanFrom (metadataEnv evp codec file header offset info) file
          (ScanState.start offset ()) with
      | failed rv errno ctx => rw [hscan] at h; cases h
      | done st' =>
        rw [hscan] at h
        exact ⟨header, offset, info, st', rfl, hscan, (Except.ok.inj h).symm⟩
  · rintro ⟨header, offset, info, st', hp, hscan, rfl⟩
    rw [metadataScan_of_parse evp codec hp, hscan]
    rfl

/-- A scan with a callback and the matching key is the frame loop from the data offset on.
SOURCE: segment.c:543-738 -/
theorem segmentScanPath_of_parse {σ : Type} (evp : EvpOps) (codec : CodecOps) {file : Bytes}
    {header : SegmentHeader} {offset : ℕ} {info : SegmentEncryptionInfo} (cb : FrameCb σ)
    (ctx : σ) (dek : Bytes) (h : segmentParseHeader file = some (header, offset, info))
    (hdek : if header.flags &&& flagEncrypted != 0 then
      evp.unwrapDek info.wrappedDek = some dek else dek = List.replicate segmentDekSize 0) :
    segmentScanPath evp codec file true (some cb) ctx = ScanEnd.result header (scanFrom
      (scanEnv evp codec file header offset info dek (some cb)) file
      (ScanState.start offset ctx)) := by
  simp only [segmentScanPath, length_ne_zero_of_parse h, if_false, segmentScanImpl, h,
    Option.isSome_some, Bool.and_true, Bool.not_true, Bool.false_eq_true]
  split at hdek
  · rename_i henc
    simp only [henc, if_true, hdek]
    rfl
  · rename_i henc
    simp only [henc, hdek]
    rfl

/-- INTERNAL: the bytes of an accepted footer. -/
theorem writeFooterOpt_some {f : SegmentFooter} {tail : Bytes}
    (h : writeFooterOpt (some f) = some tail) : tail = footerImage f := by
  simp only [writeFooterOpt, segmentWriteFooter] at h
  by_cases hflag : f.footerFlags &&& footerFlagHasSignature != 0
  · rw [if_pos hflag] at h
    cases h
  · rw [if_neg hflag] at h
    exact (Option.some.inj h).symm

/-- The end of a written file: its footer, if it has one, is read and the scan stops
behind it.
SOURCE: segment.c:347-367, 589-611 -/
theorem scanFrom_footerOpt {σ : Type} (env : ScanEnv σ) (buf tail : Bytes)
    (footer : Option SegmentFooter) (st : ScanState σ) (hw : writeFooterOpt footer = some tail)
    (hbuf : buf.drop st.offset = tail) (hle : st.offset ≤ buf.length)
    (hend : st.committedEnd = st.offset) (hfooter : st.footer = {}) :
    ∃ st', scanFrom env buf st = .done st' ∧ st'.committedEnd = buf.length ∧
      st'.footer = footer.elim {} (fun f => { f with present := true }) ∧
      st'.frames = st.frames ∧ st'.ctx = st.ctx := by
  have hlen := congrArg List.length hbuf
  rw [List.length_drop] at hlen
  cases footer with
  | none =>
    obtain rfl : tail = [] := by simpa [writeFooterOpt] using hw.symm
    simp only [List.length_nil] at hlen
    exact ⟨st, scanFrom_of_end env buf st (by omega), by omega, hfooter, rfl, rfl⟩
  | some f =>
    have htail := writeFooterOpt_some hw
    have hstep : scanStep env.encrypted (buf.drop st.offset) st.offset =
        .footer { f with present := true } := by
      have : footerAt (footerImage f) = some { f with present := true } :=
        (footerAt_eq_some_iff _ _).mpr ⟨rfl, rfl⟩
      simp only [hbuf, htail, scanStep, this]
    rw [htail, length_footerImage] at hlen
    refine ⟨_, scanFrom_of_footer env buf st _ (by omega) hstep, ?_, rfl, rfl, rfl⟩
    simp only [segmentFooterSize]
    omega

/-- **Scanning a written file** from its first frame: every frame is passed and the
footer read, provided the deliveries succeed. -/
theorem scanFrom_file {σ : Type} (env : ScanEnv σ) (w : WrittenSegment)
    (footer : Option SegmentFooter) (ctx ctx' : σ) (hw : writeFooterOpt footer = some w.tail)
    (hframes : ∀ bs ∈ w.images, IsFrame env.encrypted bs)
    (hno : NoFooterImages w.images w.tail)
    (hcount : env.encrypted = true → w.images.length < 2 ^ 64)
    (hd : deliverAll env w.head.length 0 w.images ctx = some ctx') :
    ∃ st', scanFrom env w.file (ScanState.start w.head.length ctx) = .done st' ∧
      st'.committedEnd = w.file.length ∧
      st'.footer = footer.elim {} (fun f => { f with present := true }) ∧
      st'.frames = frameInfos w.head.length w.images ∧ st'.ctx = ctx' := by
  have hdrop : w.file.drop w.head.length = w.images.flatten ++ w.tail := by
    simp only [WrittenSegment.file, List.drop_left]
  rw [scanFrom_frames env w.file w.tail w.images (ScanState.start w.head.length ctx) ctx' hdrop
    rfl hframes hno (by simpa [ScanState.start] using hcount) hd]
  obtain ⟨st', hst', hend, hfoot, hfr, hctx⟩ := scanFrom_footerOpt env w.file w.tail footer
    (ScanState.passAll (ScanState.start w.head.length ctx) w.images ctx') hw
    (by
      simp only [ScanState.passAll, ScanState.start]
      rw [← List.drop_drop, hdrop, List.drop_left])
    (by
      simp only [ScanState.passAll, ScanState.start, WrittenSegment.file, List.length_append]
      omega)
    rfl rfl
  exact ⟨st', hst', hend, hfoot, hfr, hctx⟩

/-- INTERNAL: a metadata scan from the wrong place cannot report frames at the right one:
its first frame, if any, lies where it started, and without frames it ends at most one
footer behind its start. -/
theorem scanFrom_start {σ : Type} (env : ScanEnv σ) (hcb : env.cb = none) (buf : Bytes)
    (offset : ℕ) (ctx : σ) (st' : ScanState σ)
    (h : scanFrom env buf (ScanState.start offset ctx) = .done st') :
    (∃ info rest, st'.frames = info :: rest ∧ info.fileOffset = offset) ∨
      (st'.frames = [] ∧ st'.committedEnd ≤ offset + 48) := by
  by_cases hlt : offset < buf.length
  · cases hs : scanStep env.encrypted (buf.drop offset) offset with
    | footer f =>
      rw [scanFrom_of_footer env buf _ f hlt hs] at h
      cases h
      exact .inr ⟨rfl, le_rfl⟩
    | stop =>
      rw [scanFrom_of_stop env buf _ hlt hs] at h
      cases h
      exact .inr ⟨rfl, Nat.le_add_right _ _⟩
    | corrupt => rw [scanFrom_of_corrupt env buf _ hlt hs] at h; cases h
    | frame info =>
      rw [scanFrom_of_frame env buf _ info hlt hs] at h
      simp only [deliverFrame, hcb] at h
      split at h
      · cases h
      · obtain ⟨rest, hrest⟩ := scanFrom_grows env hcb buf st' _ h
        refine .inl ⟨info, rest, by rw [hrest]; rfl, ?_⟩
        rw [((scanStep_eq_frame_iff _ _ _ _).mp hs).2.1]
        rfl
  · rw [scanFrom_of_end env buf _ (by simpa [ScanState.start] using hlt)] at h
    cases h
    exact .inr ⟨rfl, Nat.le_add_right _ _⟩

/-! ## The round trip -/

/-- INTERNAL: the writer calls behind a written segment. -/
theorem writeSegment_eq_some {evp : EvpOps} {key : FreshKey} {encryptor : Option SegmentEncryptor}
    {s : SegmentSource} {w : WrittenSegment} (h : writeSegment evp key encryptor s = some w) :
    (segmentWriteHeader evp ⟨some key, true, .ok⟩ s.header s.dict encryptor).ok = true ∧
    w.head = (segmentWriteHeader evp ⟨some key, true, .ok⟩ s.header s.dict encryptor).written ∧
    writeFrames evp (segmentWriteHeader evp ⟨some key, true, .ok⟩ s.header s.dict
      encryptor).encryptor s.frames = some w.images ∧
    writeFooterOpt s.footer = some w.tail := by
  unfold writeSegment at h
  simp only at h
  split at h
  · rename_i hok
    split at h
    · rename_i images tail himages htail
      cases h
      exact ⟨hok, rfl, himages, htail⟩
    · cases h
  · cases h

/-- Everything the scanner learns from the parts of a written segment. -/
structure WrittenSpec (evp : EvpOps) (key : FreshKey) (encrypted : Bool) (s : SegmentSource)
    (w : WrittenSegment) (info : SegmentEncryptionInfo) : Prop where
  flags_eq : (s.header.flags &&& flagEncrypted != 0) = encrypted
  dict_le : s.dict.length ≤ uint32Max
  head_eq : ∃ head, w.head = head ++ s.dict
  head_length : w.head.length = dataOffset evp key encrypted s.dict
  offset_lt : dataOffset evp key encrypted s.dict < 2 * 2 ^ 32
  parse : segmentParseHeader w.file = some (s.storedHeader, w.head.length % 2 ^ 32, info)
  unwrap : encrypted = true → info.noncePrefix = key.noncePrefix ∧
    evp.unwrapDek info.wrappedDek = some key.dek
  images : writeFrames evp (frameEncryptor (if encrypted then some key else none) 0) s.frames =
    some w.images
  tail : writeFooterOpt s.footer = some w.tail

/-- INTERNAL: a successfully written segment meets `WrittenSpec`. -/
theorem writeSegment_spec {evp : EvpOps} (laws : EvpLaws evp) {key : FreshKey}
    {encryptor : Option SegmentEncryptor} {s : SegmentSource} {w : WrittenSegment}
    (hboot : ZeroPadded bootIdSize s.header.bootId)
    (htz : ZeroPadded (timezoneSize - 1) s.header.timezone)
    (h : writeSegment evp key encryptor s = some w) :
    ∃ info, WrittenSpec evp key encryptor.isSome s w info := by
  obtain ⟨hok, hhead, himages, htail⟩ := writeSegment_eq_some h
  obtain ⟨hdict, hflags, henc, extension, info, hwritten, hext, hoff, hparse, hunwrap⟩ :=
    segmentWriteHeader_ok evp laws key encryptor s.header s.dict hok
  rw [henc] at himages
  rw [hwritten] at hhead
  have hlen : w.head.length = 152 + extension.length + s.dict.length := by
    simp only [hhead, headerImage, List.length_append, length_headerBody, length_writeU32Le]
  simp only [uint32Max] at hdict hext
  refine ⟨info, hflags, hdict, ⟨_, hhead⟩, hlen.trans hoff, by rw [← hoff]; omega, ?_, hunwrap, ?_,
    htail⟩
  · rw [WrittenSegment.file, hlen, hhead]
    exact segmentParseHeader_headerImage s.header extension s.dict _ info hboot htz hdict hext
      hparse
  · rw [← himages]
    cases encryptor <;> rfl

/-! ## Headers as the file holds them -/

/-- A header with its texts as a file holds them: cut at their ends and zero padded. -/
def paddedHeader (header : SegmentHeader) : SegmentHeader :=
  { header with
    bootId := zeroPad bootIdSize (strnlenPrefix bootIdSize header.bootId)
    timezone := zeroPad (timezoneSize - 1) (strnlenPrefix (timezoneSize - 1) header.timezone) }

theorem strnlenPrefix_ne_zero (n : ℕ) (a : Bytes) : ∀ b ∈ strnlenPrefix n a, b ≠ 0 := by
  intro b hb
  simpa using List.all_eq_true.mp List.all_takeWhile b hb

theorem zeroPadded_strnlenPrefix (n : ℕ) (a : Bytes) :
    ZeroPadded n (zeroPad n (strnlenPrefix n a)) :=
  ⟨strnlenPrefix n a, strnlenPrefix_ne_zero n a, length_strnlenPrefix_le n a, rfl⟩

theorem strnlenPrefix_padded (n : ℕ) (a : Bytes) :
    strnlenPrefix n (zeroPad n (strnlenPrefix n a)) = strnlenPrefix n a :=
  strnlenPrefix_zeroPad n _ (strnlenPrefix_ne_zero n a) (length_strnlenPrefix_le n a)

/-- The writer sees no more of a header's texts than what the file holds. -/
theorem segmentWriteHeader_padded (evp : EvpOps) (io : HeaderIo) (header : SegmentHeader)
    (dict : Bytes) (encryptor : Option SegmentEncryptor) :
    segmentWriteHeader evp io (paddedHeader header) dict encryptor =
      segmentWriteHeader evp io header dict encryptor := by
  have hbody : ∀ e d, headerBody (paddedHeader header) e d = headerBody header e d := by
    intro e d
    simp only [headerBody, paddedHeader, strnlenPrefix_padded]
  have himage : ∀ extension, headerImage (paddedHeader header) extension dict =
      headerImage header extension dict := by
    intro extension
    simp only [headerImage, hbody]
  simp only [segmentWriteHeader, himage]
  rfl

/-- What a segment is written from, with the texts of its header as the file holds them. -/
def SegmentSource.padded (s : SegmentSource) : SegmentSource :=
  { s with header := paddedHeader s.header }

/-- Everything the scanner learns from a written segment, whatever stands behind the ends of
its header's texts. -/
theorem writeSegment_padded_spec {evp : EvpOps} (laws : EvpLaws evp) {key : FreshKey}
    {encryptor : Option SegmentEncryptor} {s : SegmentSource} {w : WrittenSegment}
    (h : writeSegment evp key encryptor s = some w) :
    ∃ info, WrittenSpec evp key encryptor.isSome s.padded w info := by
  refine writeSegment_spec laws (zeroPadded_strnlenPrefix _ _) (zeroPadded_strnlenPrefix _ _) ?_
  rw [← h]
  simp only [writeSegment, SegmentSource.padded, segmentWriteHeader_padded]

/-- INTERNAL: the stored payloads of written frames are recovered under the writer's key.
SOURCE: segment.c:311-315, 652-685 -/
theorem openPayloads_written (evp : EvpOps) (laws : EvpLaws evp) (key : Option FreshKey)
    (dek noncePrefix file tail : Bytes) (hdek : ∀ k, key = some k → dek = k.dek)
    (hnonce : ∀ k, key = some k → noncePrefix = k.noncePrefix) (frames : List StoredFrame) :
    ∀ (index : UInt64) (offset : ℕ) (images : List Bytes),
      writeFrames evp (frameEncryptor key index) frames = some images →
      file.drop offset = images.flatten ++ tail →
      openPayloads evp key.isSome dek noncePrefix file index
        (expectedInfos key.isSome offset frames) = frames.map (some ·.payload) := by
  induction frames with
  | nil => intro index offset images _ _; rfl
  | cons f frames ih =>
    intro index offset images h hfile
    simp only [writeFrames] at h
    split at h
    · rename_i hok
      obtain ⟨hframe, hinfo, hlen, hnext, -, hopen⟩ :=
        StoredFrame.written_spec evp laws key index f offset hok
      rw [hnext] at h
      obtain ⟨images', himages', rfl⟩ := Option.map_eq_some_iff.mp h
      rw [List.flatten_cons, List.append_assoc] at hfile
      have hrest := ih (index + 1) (offset + f.size key.isSome) images' himages'
        (by rw [← List.drop_drop, hfile, List.drop_left' hlen])
      have hfirst : openPayload evp key.isSome dek noncePrefix index (f.info key.isSome offset)
          (file.drop offset) = some f.payload := by
        rw [hfile, ← hinfo, openPayload_append evp dek noncePrefix _ offset index hframe, hinfo,
          ← hopen]
        cases key with
        | none => rfl
        | some k => rw [hdek k rfl, hnonce k rfl]; rfl
      simp only [expectedInfos, openPayloads, List.map_cons, hrest]
      rw [show (f.info key.isSome offset).fileOffset = offset from rfl, hfirst]
    · cases h

section RoundTrip

variable {evp : EvpOps} {key : FreshKey} {encrypted : Bool} {s : SegmentSource}
  {w : WrittenSegment} {info : SegmentEncryptionInfo}

/-- INTERNAL: a scan sees the segment as the writer made it. -/
theorem WrittenSpec.encrypted_scanEnv (spec : WrittenSpec evp key encrypted s w info) {σ : Type}
    (codec : CodecOps) (offset : ℕ) (dek : Bytes) (cb : Option (FrameCb σ)) :
    (scanEnv evp codec w.file s.storedHeader offset info dek cb).encrypted = encrypted :=
  spec.flags_eq

/-- INTERNAL: the images of a written segment are whole frames with the expected headers,
and an encrypted segment has room for their counter. -/
theorem WrittenSpec.images_spec (spec : WrittenSpec evp key encrypted s w info)
    (laws : EvpLaws evp) :
    (∀ bs ∈ w.images, IsFrame encrypted bs) ∧
    frameInfos w.head.length w.images = expectedInfos encrypted w.head.length s.frames ∧
    (encrypted = true → w.images.length < 2 ^ 64) := by
  obtain ⟨hframes, hinfos, hcount, -⟩ := writeFrames_spec evp laws _ s.frames 0 w.head.length
    w.images spec.images
  cases encrypted with
  | false => exact ⟨hframes, hinfos, by simp⟩
  | true => exact ⟨hframes, hinfos, fun _ => by simpa using hcount rfl⟩

/-- INTERNAL: below `2^32` the parser finds the first frame. -/
theorem WrittenSpec.parse_small (spec : WrittenSpec evp key encrypted s w info)
    (hsmall : dataOffset evp key encrypted s.dict < 2 ^ 32) :
    segmentParseHeader w.file = some (s.storedHeader, w.head.length, info) := by
  rw [spec.parse, Nat.mod_eq_of_lt (by rw [spec.head_length]; exact hsmall)]

/-- INTERNAL: a scanner that starts at the first frame finds the dictionary in front of
it. -/
theorem WrittenSpec.scanDict_eq (spec : WrittenSpec evp key encrypted s w info) :
    scanDict w.file s.storedHeader w.head.length = s.dict := by
  obtain ⟨head, hhead⟩ := spec.head_eq
  have hle := spec.dict_le
  simp only [uint32Max] at hle
  have hlen : (UInt32.ofNat s.dict.length).toNat = s.dict.length := by
    rw [UInt32.toNat_ofNat']
    omega
  have hfile : w.file = head ++ (s.dict ++ (w.images.flatten ++ w.tail)) := by
    rw [WrittenSegment.file, hhead, List.append_assoc]
  simp only [scanDict, SegmentSource.storedHeader, hlen, hfile]
  rw [hhead, List.length_append, Nat.add_sub_cancel, List.drop_left, List.take_left]

/-- The payloads of a written segment come back under its key. -/
theorem WrittenSpec.payloads (spec : WrittenSpec evp key encrypted s w info)
    (laws : EvpLaws evp) :
    openPayloads evp encrypted key.dek info.noncePrefix w.file 0
      (expectedInfos encrypted w.head.length s.frames) = s.frames.map (some ·.payload) := by
  have hfile : w.file.drop w.head.length = w.images.flatten ++ w.tail := by
    rw [WrittenSegment.file, List.drop_left]
  have h := openPayloads_written evp laws (if encrypted then some key else none) key.dek
    info.noncePrefix w.file w.tail
    (by intro k hk; split at hk <;> cases hk; rfl)
    (by
      intro k hk
      split at hk
      · rename_i henc
        cases hk
        exact (spec.unwrap henc).1
      · cases hk)
    s.frames 0 w.head.length w.images spec.images hfile
  cases encrypted <;> exact h

/-- **Small headers round-trip**: the sufficient direction of `segment_round_trip_iff`.
SOURCE: segment.c:166-367, 419-504, 543-738 -/
theorem WrittenSpec.roundTrips (spec : WrittenSpec evp key encrypted s w info)
    (laws : EvpLaws evp) (codec : CodecOps)
    (hsmall : dataOffset evp key encrypted s.dict < 2 ^ 32)
    (hno : NoFooterImages w.images w.tail) : RoundTrips evp codec encrypted s w := by
  obtain ⟨hframes, hinfos, hcount⟩ := spec.images_spec laws
  have hparse := spec.parse_small hsmall
  refine ⟨?_, ⟨_, _, info, key.dek, hparse, fun henc => (spec.unwrap henc).2,
    spec.payloads laws⟩, ?_⟩
  · set env := scanEnv (σ := Unit) evp codec w.file s.storedHeader w.head.length info
      (List.replicate segmentDekSize 0) none with henv
    have hencv : env.encrypted = encrypted := spec.encrypted_scanEnv codec _ _ _
    obtain ⟨st', hst', hend, hfoot, hfr, -⟩ := scanFrom_file env w s.footer () () spec.tail
      (by rw [hencv]; exact hframes) hno (by rw [hencv]; exact hcount)
      (deliverAll_of_no_cb env rfl _ _ _ _)
    rw [metadataScan_of_parse evp codec hparse, ← henv, hst']
    simp only [ScanEnd.result, hend, hfoot, hfr, hinfos]
    rfl
  · intro calls hcalls
    -- the key a scan with a callback works with
    obtain ⟨dek, hdek, hkey⟩ : ∃ dek, (if s.storedHeader.flags &&& flagEncrypted != 0 then
        evp.unwrapDek info.wrappedDek = some dek else dek = List.replicate segmentDekSize 0) ∧
        (encrypted = true → dek = key.dek) := by
      have hflags : (s.storedHeader.flags &&& flagEncrypted != 0) = encrypted := spec.flags_eq
      rw [hflags]
      cases henc : encrypted with
      | false => exact ⟨_, rfl, by simp⟩
      | true => exact ⟨key.dek, (spec.unwrap henc).2, fun _ => rfl⟩
    set env := scanEnv evp codec w.file s.storedHeader w.head.length info dek
      (some recordCalls) with henv
    have hencv : env.encrypted = encrypted := spec.encrypted_scanEnv codec _ _ _
    obtain ⟨-, -, -, hdel⟩ := writeFrames_spec evp laws _ s.frames 0 w.head.length w.images
      spec.images
    have hdict : env.dict = s.dict := spec.scanDict_eq
    have hdeliver : deliverAll env w.head.length 0 w.images [] = some calls := by
      have := hdel env rfl (by rw [hencv]; cases encrypted <;> rfl)
        (by cases henc : encrypted with
          | false => rfl
          | true => exact hkey henc)
        (by cases henc : encrypted with
          | false => rfl
          | true => exact (spec.unwrap henc).1)
        rfl rfl [] calls
        (by rw [hdict]; cases encrypted <;> exact hcalls)
      simpa using this
    obtain ⟨st', hst', hend, hfoot, hfr, hctx⟩ := scanFrom_file env w s.footer [] calls spec.tail
      (by rw [hencv]; exact hframes) hno (by rw [hencv]; exact hcount) hdeliver
    rw [segmentScanPath_of_parse evp codec recordCalls [] dek hparse hdek, ← henv, hst']
    simp only [ScanEnd.result, hend, hfoot, hfr, hctx, hinfos]
    rfl

/-- INTERNAL: a scan that starts at a data offset the parser wrapped does not reproduce
the file: frames are reported where it started, and without frames it ends there. -/
theorem WrittenSpec.offset_lt_of_metadata (spec : WrittenSpec evp key encrypted s w info)
    (codec : CodecOps)
    (h : metadataScan evp codec w.file = .ok ⟨s.storedHeader, s.storedFooter, w.file.length,
      expectedInfos encrypted w.head.length s.frames⟩) :
    dataOffset evp key encrypted s.dict < 2 ^ 32 := by
  by_contra hbig
  have hlt := spec.offset_lt
  rw [← spec.head_length] at hbig hlt
  have hwrap : w.head.length % 2 ^ 32 + 2 ^ 32 = w.head.length := by omega
  have hfile : w.head.length ≤ w.file.length := by
    simp only [WrittenSegment.file, List.length_append]
    omega
  rw [metadataScan_of_parse evp codec spec.parse] at h
  cases hscan : scanFrom (scanEnv (σ := Unit) evp codec w.file s.storedHeader
      (w.head.length % 2 ^ 32) info (List.replicate segmentDekSize 0) none) w.file
      (ScanState.start (w.head.length % 2 ^ 32) ()) with
  | failed rv errno ctx => rw [hscan] at h; cases h
  | done st' =>
    rw [hscan] at h
    simp only [ScanEnd.result, Except.ok.injEq, ScanOut.mk.injEq, true_and] at h
    obtain ⟨-, hend, hfr⟩ := h
    rcases scanFrom_start _ rfl _ _ _ _ hscan with ⟨i, rest, hfirst, hoff⟩ | ⟨hnil, hle⟩
    · rw [hfirst] at hfr
      cases hs : s.frames with
      | nil => rw [hs] at hfr; cases hfr
      | cons f frames =>
        rw [hs, expectedInfos, List.cons.injEq] at hfr
        have : i.fileOffset = w.head.length := by rw [hfr.1]; rfl
        omega
    · omega

/-- INTERNAL: a scan that starts at the first frame and passes all of them met no footer
image on the way. -/
theorem WrittenSpec.noFooterImages_of_metadata (spec : WrittenSpec evp key encrypted s w info)
    (laws : EvpLaws evp) (codec : CodecOps)
    (hsmall : dataOffset evp key encrypted s.dict < 2 ^ 32)
    (h : metadataScan evp codec w.file = .ok ⟨s.storedHeader, s.storedFooter, w.file.length,
      expectedInfos encrypted w.head.length s.frames⟩) :
    NoFooterImages w.images w.tail := by
  by_contra hno
  obtain ⟨hframes, hinfos, hcount⟩ := spec.images_spec laws
  rw [metadataScan_of_parse evp codec (spec.parse_small hsmall)] at h
  set env := scanEnv (σ := Unit) evp codec w.file s.storedHeader w.head.length info
    (List.replicate segmentDekSize 0) none with henv
  have hencv : env.encrypted = encrypted := spec.encrypted_scanEnv codec _ _ _
  obtain ⟨st', hst', hlen⟩ := scanFrom_footerImage env rfl w.file w.tail w.images
    (ScanState.start w.head.length ()) (by simp [WrittenSegment.file, ScanState.start])
    (by rw [hencv]; exact hframes) hno
    (by rw [hencv]; simpa [ScanState.start] using hcount)
  rw [hst'] at h
  simp only [ScanEnd.result, Except.ok.injEq, ScanOut.mk.injEq, true_and] at h
  rw [h.2.2, ← hinfos, length_frameInfos] at hlen
  simp [ScanState.start] at hlen

end RoundTrip

/-- **The segment format round trip**, and the only way it fails: everything written is
scanned back exactly when the data offset fits 32 bits and no 48 bytes at the start of a
frame are a footer image.
SOURCE: segment.c:166-367, 419-504, 543-738 -/
theorem segment_round_trip_iff (evp : EvpOps) (laws : EvpLaws evp) (codec : CodecOps)
    (key : FreshKey) (encryptor : Option SegmentEncryptor) (s : SegmentSource)
    (w : WrittenSegment) (hboot : ZeroPadded bootIdSize s.header.bootId)
    (htz : ZeroPadded (timezoneSize - 1) s.header.timezone)
    (h : writeSegment evp key encryptor s = some w) :
    RoundTrips evp codec encryptor.isSome s w ↔
      dataOffset evp key encryptor.isSome s.dict < 2 ^ 32 ∧ NoFooterImages w.images w.tail := by
  obtain ⟨info, spec⟩ := writeSegment_spec laws hboot htz h
  constructor
  · intro hrt
    have hsmall := spec.offset_lt_of_metadata codec hrt.metadata
    exact ⟨hsmall, spec.noFooterImages_of_metadata laws codec hsmall hrt.metadata⟩
  · rintro ⟨hsmall, hno⟩
    exact spec.roundTrips laws codec hsmall hno

/-- OpenSSL when every call fails: enough for plain segments, which make none. -/
def noEvp : EvpOps :=
  ⟨fun _ => none, fun _ => none, fun _ _ _ _ => none, fun _ _ _ _ _ => none⟩

theorem noEvp_laws : EvpLaws noEvp := by
  constructor <;> intros <;> contradiction

/-- A decoder that refuses everything: enough for a metadata scan, which decodes nothing. -/
def noCodec : CodecOps := ⟨fun _ _ _ => none, fun _ _ => false⟩

/-- A key of zeros, for the fixed inputs below. -/
def zeroKey : FreshKey := ⟨List.replicate 32 0, List.replicate 4 0, rfl, rfl⟩

/-- A plain header with empty texts, for the fixed inputs below. -/
def plainHeader : SegmentHeader where
  flags := 0
  segmentSeq := 1
  bootSeq := 0
  bootId := List.replicate bootIdSize 0
  timezone := List.replicate (timezoneSize - 1) 0
  firstRealtimeTs := 5
  firstMonotonicTs := 7
  dictLen := 0

theorem plainHeader_padded : ZeroPadded bootIdSize plainHeader.bootId ∧
    ZeroPadded (timezoneSize - 1) plainHeader.timezone :=
  ⟨⟨[], by simp, by simp, rfl⟩, ⟨[], by simp, by simp, rfl⟩⟩

/-- A segment of one frame behind a dictionary of two bytes. -/
def oneFrameFile : Bytes :=
  headerImage plainHeader [] [9, 9] ++ frameImage (frameHeader 0 3 3 23) [1, 2, 3] []

theorem length_oneFrameFile : oneFrameFile.length = 177 := by decide +kernel

theorem parse_oneFrameFile : segmentParseHeader oneFrameFile =
    some ({ plainHeader with dictLen := 2 }, 154, {}) := by
  decide +kernel

/-- A closed segment of one frame comes back. -/
theorem segment_round_trip_one_frame :
    RoundTrips noEvp noCodec false
      ⟨plainHeader, [9, 9], [⟨0, [1, 2, 3], 3⟩], some { entryCount := 1 }⟩
      ⟨headerImage plainHeader [] [9, 9], [frameImage (frameHeader 0 3 3 23) [1, 2, 3] []],
        footerImage { entryCount := 1 }⟩ :=
  (segment_round_trip_iff noEvp noEvp_laws noCodec zeroKey none _ _ plainHeader_padded.1
    plainHeader_padded.2 rfl).mpr
    ⟨by decide, (footerAt_eq_none_iff _).mp (by decide +kernel), trivial⟩

/-- **The data offset wraps**: with a dictionary that brings it to `2^32`, the scan starts
inside the header, and a segment of that dictionary alone does not come back. -/
theorem segment_round_trip_wraps :
    ∃ (s : SegmentSource) (w : WrittenSegment),
      ZeroPadded bootIdSize s.header.bootId ∧ ZeroPadded (timezoneSize - 1) s.header.timezone ∧
      s.dict.length = 2 ^ 32 - 152 ∧ writeSegment noEvp zeroKey none s = some w ∧
      NoFooterImages w.images w.tail ∧ ¬ RoundTrips noEvp noCodec false s w := by
  obtain ⟨dict, hdict⟩ : ∃ dict : Bytes, dict.length = 2 ^ 32 - 152 :=
    ⟨List.replicate _ 0, List.length_replicate⟩
  set s : SegmentSource := ⟨plainHeader, dict, [], none⟩ with hs
  have hle : ¬ dict.length > uint32Max := by simp only [uint32Max]; omega
  have hw : writeSegment noEvp zeroKey none s =
      some ⟨headerImage plainHeader [] dict, [], []⟩ := by
    simp only [writeSegment, segmentWriteHeader, hs, hle, if_false]
    rfl
  refine ⟨s, _, plainHeader_padded.1, plainHeader_padded.2, hdict, hw, trivial, ?_⟩
  intro hrt
  obtain ⟨info, spec⟩ := writeSegment_spec noEvp_laws plainHeader_padded.1 plainHeader_padded.2 hw
  have hsmall := spec.offset_lt_of_metadata noCodec hrt.metadata
  simp only [dataOffset, hs, Option.isSome_none, Bool.false_eq_true, if_false] at hsmall
  omega

/-! ## Frames that look like footers -/

/-- **What keeps a plain frame from being scanned as a frame**: payload, frame CRC and
following bytes that complete the frame header to a footer, and nothing else.
SOURCE: segment.c:270-345, 582-622 -/
theorem frame_scanned_iff_no_footer_image (evp : EvpOps) (f : StoredFrame) (rest : Bytes)
    (offset : ℕ) (h : (f.write evp none).ok = true) :
    scanStep false ((f.write evp none).written ++ rest) offset = .frame (f.info false offset) ↔
      ¬ CompletesFooter (f.header false)
        (f.payload ++ (writeU32Le (frameCrc (f.header false) f.payload []) ++ rest)) := by
  rw [StoredFrame.write_plain] at h ⊢
  split at h
  · rename_i hsmall
    rw [if_pos hsmall]
    have himage : frameImage (f.header false) f.payload [] ++ rest = f.header false ++
        (f.payload ++ (writeU32Le (frameCrc (f.header false) f.payload []) ++ rest)) := by
      simp only [frameImage, List.append_assoc, List.nil_append]
    have hframe : IsFrame false (frameImage (f.header false) f.payload []) :=
      isFrame_frameImage false f.flags f.uncompressedLen f.payload [] rfl hsmall
    have hinfo : frameInfoAt (frameImage (f.header false) f.payload []) offset =
        f.info false offset := by
      rw [StoredFrame.header, frameInfoAt_frameImage]
      rfl
    rw [← footerImage_iff_completesFooter _ _ rfl, ← himage]
    constructor
    · intro hstep
      exact ((scanStep_eq_frame_iff _ _ _ _).mp hstep).1
    · intro hno
      rw [scanStep_of_isFrame rest offset hframe ((footerAt_eq_none_iff _).mpr hno), hinfo]
  · cases h

/-- A 32-byte payload that ends as a footer does: sixteen zeros, then a CRC, version and magic. -/
def payloadWithCrc (crc : Bytes) : Bytes :=
  List.replicate 16 0 ++ crc ++ [1, 0, 0, 0] ++ segmentFooterMagic

/-- With the magic in its place, but a CRC that is not that of a footer, it is scanned. -/
theorem frame_scanned_wrong_crc :
    scanStep false ((StoredFrame.write noEvp none
        ⟨0, payloadWithCrc [184, 36, 15, 68], 32⟩).written ++ [1, 2, 3]) 152 =
      .frame ⟨0, 32, 32, 152, 52⟩ :=
  (frame_scanned_iff_no_footer_image noEvp ⟨0, payloadWithCrc [184, 36, 15, 68], 32⟩ [1, 2, 3]
    152 (by decide +kernel)).mpr (by unfold CompletesFooter; decide +kernel)

/-- The payload whose CRC is that of a footer which starts with the header of the frame that
carries it. -/
def footerPayload : Bytes := payloadWithCrc [183, 36, 15, 68]

/-- **A payload is taken for a footer**: the writer accepts it, and the scan stops at the
frame and reports a footer with the frame's header fields in it. -/
theorem footerPayload_scanned_as_footer :
    (StoredFrame.write noEvp none ⟨0, footerPayload, 32⟩).ok = true ∧
    scanStep false (StoredFrame.write noEvp none ⟨0, footerPayload, 32⟩).written 152 =
      .footer ⟨0, 32, 0x3400000020, 0, 0, true⟩ := by
  decide +kernel

end Recorder.Analysis
