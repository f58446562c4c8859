import Recorder.Analysis.SegmentFile

/-!
# What a scan delivers of an unfinished segment

The frames of a segment that was written from a header and whole frames are delivered to
the callback of a scan whatever stands behind them: nothing, a footer, a part of one, or
any other bytes. The scan may fail on these, but only after the frames were delivered.

**Main result**: `HeadSpec.scan_delivers`.
-/

set_option autoImplicit false

namespace Recorder.Analysis

open Recorder.Model

/-! ## The calls of a scan -/

/-- The callback's context at the end of a scan, however it ended. -/
def scanCtx {σ : Type} : ScanEnd σ → σ
  | .done st => st.ctx
  | .failed _ _ ctx => ctx

theorem scanCtx_result {σ : Type} (header : SegmentHeader) (e : ScanEnd σ) :
    (ScanEnd.result header e).ctx = scanCtx e := by
  cases e <;> rfl

section Calls

variable {env : ScanEnv (List (SegmentFrameInfo × Bytes))}

/-- A delivery only ever adds a call. -/
theorem deliverFrame_calls (hcb : env.cb = some recordCalls) {p : Bytes}
    {info : SegmentFrameInfo} {index : UInt64} {calls : List (SegmentFrameInfo × Bytes)} :
    (∀ calls', deliverFrame env p info index calls = .ok calls' → calls <+: calls') ∧
      ∀ rv errno calls', deliverFrame env p info index calls = .failed rv errno calls' →
        calls <+: calls' := by
  unfold deliverFrame
  rw [hcb]
  simp only [recordCalls]
  constructor
  · intro calls' h
    split at h
    · cases h
      exact List.prefix_rfl
    · split at h
      · cases h
      · split at h
        · split at h <;> cases h
        · split at h
          · cases h
            exact List.prefix_append _ _
          · split at h <;> cases h
  · intro rv errno calls' h
    split at h
    · cases h
    · split at h
      · cases h
        exact List.prefix_rfl
      · split at h
        · split at h <;> cases h
          exact List.prefix_rfl
        · split at h
          · cases h
          · split at h <;> cases h
            exact List.prefix_rfl

/-- INTERNAL: what becomes of the first frame handed to a recording callback. -/
theorem deliverFrame_first (hcb : env.cb = some recordCalls) (hmin : env.minFrameOffset = 0)
    (p : Bytes) (info : SegmentFrameInfo) (index : UInt64) :
    (∃ chunk, deliverFrame env p info index [] = .ok [(info, chunk)]) ∨
      deliverFrame env p info index [] = .stop ∨
      ∃ rv errno, deliverFrame env p info index [] = .failed rv errno [] := by
  unfold deliverFrame
  simp only [hcb, hmin, Nat.not_lt_zero, if_false, recordCalls]
  cases openPayload env.evp env.encrypted env.dek env.encryption.noncePrefix index info p with
  | none => exact .inr (.inr ⟨_, _, rfl⟩)
  | some payload =>
    simp only
    cases decompressPayload env.codec env.header env.dict info payload with
    | none => cases env.encrypted <;> simp
    | some chunk =>
      simp only
      cases env.codec.verifyChunk (env.header.flags &&& flagCompactEntries != 0) chunk <;>
        cases env.encrypted <;> simp

/-- The frame loop only ever adds calls. -/
theorem scanFrom_calls (hcb : env.cb = some recordCalls) (buf : Bytes) :
    ∀ st, st.ctx <+: scanCtx (scanFrom env buf st) := by
  intro st
  refine scanFrom_induction env buf
    (motive := fun st => st.ctx <+: scanCtx (scanFrom env buf st)) ?_ st
  intro st ih
  by_cases hlt : st.offset < buf.length
  · cases hs : scanStep env.encrypted (buf.drop st.offset) st.offset with
    | footer f =>
      rw [scanFrom_of_footer env buf st f hlt hs]
      exact List.prefix_rfl
    | stop =>
      rw [scanFrom_of_stop env buf st hlt hs]
      exact List.prefix_rfl
    | corrupt =>
      rw [scanFrom_of_corrupt env buf st hlt hs]
      exact List.prefix_rfl
    | frame info =>
      rw [scanFrom_of_frame env buf st info hlt hs]
      obtain ⟨hok, hfailed⟩ := deliverFrame_calls (p := buf.drop st.offset) hcb
      cases hdel : deliverFrame env (buf.drop st.offset) info st.frameIndex st.ctx with
      | stop => exact List.prefix_rfl
      | failed rv errno calls => exact hfailed rv errno calls hdel
      | ok calls =>
        simp only
        split
        · exact hok calls hdel
        · exact (hok calls hdel).trans (ih info calls hlt hs)
  · rw [scanFrom_of_end env buf st (Nat.le_of_not_lt hlt)]
    exact List.prefix_rfl

end Calls

/-! ## Other callbacks -/

section Tracks

variable {σ : Type}

/-- A callback that never stops the scan, and whose context follows the calls made so far. -/
def TracksCalls (header : SegmentHeader) (cb : FrameCb σ)
    (R : σ → List (SegmentFrameInfo × Bytes) → Prop) : Prop :=
  ∀ info chunk ctx calls, R ctx calls → (cb header info chunk ctx).1 = 0 ∧
    R (cb header info chunk ctx).2 (calls ++ [(info, chunk)])

/-- The scan with a recording callback in place of another one. -/
def recordingEnv (env : ScanEnv σ) : ScanEnv (List (SegmentFrameInfo × Bytes)) :=
  ⟨env.evp, env.codec, env.header, env.encryption, env.dek, env.dict, some recordCalls,
    env.minFrameOffset⟩

/-- A loop state with the calls in place of the context. -/
def withCalls (st : ScanState σ) (calls : List (SegmentFrameInfo × Bytes)) :
    ScanState (List (SegmentFrameInfo × Bytes)) :=
  ⟨st.offset, st.committedEnd, st.footer, st.frameIndex, st.frames, calls⟩

/-- Two scans end alike: in the same state, or with the same failure, up to the contexts. -/
inductive EndsAlike (R : σ → List (SegmentFrameInfo × Bytes) → Prop) :
    ScanEnd σ → ScanEnd (List (SegmentFrameInfo × Bytes)) → Prop
  | done {st : ScanState σ} {calls : List (SegmentFrameInfo × Bytes)} (h : R st.ctx calls) :
    EndsAlike R (.done st) (.done (withCalls st calls))
  | failed {rv : Int} {errno : Option Errno} {ctx : σ} {calls : List (SegmentFrameInfo × Bytes)}
    (h : R ctx calls) : EndsAlike R (.failed rv errno ctx) (.failed rv errno calls)

variable {env : ScanEnv σ} {cb : FrameCb σ} {R : σ → List (SegmentFrameInfo × Bytes) → Prop}

/-- What handing over a frame does to the two contexts: the same, or both keep them. -/
theorem deliverFrame_tracks (hcb : env.cb = some cb) (h : TracksCalls env.header cb R) (p : Bytes)
    (info : SegmentFrameInfo) (index : UInt64) {ctx : σ}
    {calls : List (SegmentFrameInfo × Bytes)} (hctx : R ctx calls) :
    (∃ ctx' calls', deliverFrame env p info index ctx = .ok ctx' ∧
        deliverFrame (recordingEnv env) p info index calls = .ok calls' ∧ R ctx' calls') ∨
      (deliverFrame env p info index ctx = .stop ∧
        deliverFrame (recordingEnv env) p info index calls = .stop) ∨
      ∃ rv errno, deliverFrame env p info index ctx = .failed rv errno ctx ∧
        deliverFrame (recordingEnv env) p info index calls = .failed rv errno calls := by
  have henc : (recordingEnv env).encrypted = env.encrypted := rfl
  unfold deliverFrame
  rw [hcb, henc]
  simp only [recordingEnv, recordCalls]
  by_cases hmin : info.fileOffset < env.minFrameOffset
  · simp only [hmin, if_true]
    exact .inl ⟨ctx, calls, rfl, rfl, hctx⟩
  · simp only [hmin, if_false]
    cases openPayload env.evp env.encrypted env.dek env.encryption.noncePrefix index info p with
    | none => exact .inr (.inr ⟨_, _, rfl, rfl⟩)
    | some payload =>
      simp only
      cases decompressPayload env.codec env.header env.dict info payload with
      | none => cases env.encrypted <;> simp
      | some chunk =>
        simp only
        by_cases hverify : env.codec.verifyChunk (env.header.flags &&& flagCompactEntries != 0)
            chunk = true
        · obtain ⟨hrv, hctx'⟩ := h info chunk ctx calls hctx
          simp only [hverify, if_true]
          exact .inl ⟨_, _, by rw [hrv]; rfl, rfl, hctx'⟩
        · simp only [hverify]
          cases env.encrypted <;> simp

/-- **A callback that only keeps track** sees the calls a recording callback sees, and the
scan ends the same way. -/
theorem scanFrom_tracks (hcb : env.cb = some cb) (h : TracksCalls env.header cb R) (buf : Bytes) :
    ∀ (st : ScanState σ) (calls : List (SegmentFrameInfo × Bytes)), R st.ctx calls →
      EndsAlike R (scanFrom env buf st) (scanFrom (recordingEnv env) buf (withCalls st calls)) := by
  intro st
  refine scanFrom_induction env buf
    (motive := fun st => ∀ calls, R st.ctx calls →
      EndsAlike R (scanFrom env buf st)
        (scanFrom (recordingEnv env) buf (withCalls st calls))) ?_ st
  intro st ih calls hctx
  by_cases hlt : st.offset < buf.length
  · have hlt' : (withCalls st calls).offset < buf.length := hlt
    cases hs : scanStep env.encrypted (buf.drop st.offset) st.offset with
    | footer f =>
      rw [scanFrom_of_footer env buf st f hlt hs,
        scanFrom_of_footer (recordingEnv env) buf (withCalls st calls) f hlt' hs]
      exact .done hctx
    | stop =>
      rw [scanFrom_of_stop env buf st hlt hs,
        scanFrom_of_stop (recordingEnv env) buf (withCalls st calls) hlt' hs]
      exact .done hctx
    | corrupt =>
      rw [scanFrom_of_corrupt env buf st hlt hs,
        scanFrom_of_corrupt (recordingEnv env) buf (withCalls st calls) hlt' hs]
      exact .failed hctx
    | frame info =>
      rw [scanFrom_of_frame env buf st info hlt hs,
        scanFrom_of_frame (recordingEnv env) buf (withCalls st calls) info hlt' hs]
      rcases deliverFrame_tracks hcb h (buf.drop st.offset) info st.frameIndex hctx with
        ⟨ctx', calls', hok, hok', hctx'⟩ | ⟨hstop, hstop'⟩ | ⟨rv, errno, hfail, hfail'⟩
      · simp only [withCalls, hok, hok']
        rw [show (recordingEnv env).encrypted = env.encrypted from rfl]
        by_cases hmax : (env.encrypted && st.frameIndex == 0xffffffffffffffff) = true
        · simp only [hmax, if_true]
          exact .failed hctx'
        · simp only [hmax]
          exact ih info ctx' hlt hs calls' hctx'
      · simp only [withCalls, hstop, hstop']
        exact .done hctx
      · simp only [withCalls, hfail, hfail']
        exact .failed hctx
  · rw [scanFrom_of_end env buf st (Nat.le_of_not_lt hlt),
      scanFrom_of_end (recordingEnv env) buf (withCalls st calls) (Nat.le_of_not_lt hlt)]
    exact .done hctx

theorem EndsAlike.result {e : ScanEnd σ} {e' : ScanEnd (List (SegmentFrameInfo × Bytes))}
    (h : EndsAlike R e e') (header : SegmentHeader) :
    (ScanEnd.result header e).out = (ScanEnd.result header e').out ∧
      R (ScanEnd.result header e).ctx (ScanEnd.result header e').ctx := by
  cases h with
  | done h => exact ⟨rfl, h⟩
  | failed h => exact ⟨rfl, h⟩

/-- The whole scan with a callback that only keeps track.
SOURCE: segment.c:543-738 -/
theorem segmentScanPath_tracks (evp : EvpOps) (codec : CodecOps) {file : Bytes}
    (decryptor : Bool) {header : SegmentHeader} {offset : ℕ} {info : SegmentEncryptionInfo}
    {ctx : σ} (hparse : segmentParseHeader file = some (header, offset, info))
    (h : TracksCalls header cb R) (hctx : R ctx []) :
    (segmentScanPath evp codec file decryptor (some cb) ctx).out =
        (segmentScanPath evp codec file decryptor (some recordCalls) []).out ∧
      R (segmentScanPath evp codec file decryptor (some cb) ctx).ctx
        (segmentScanPath evp codec file decryptor (some recordCalls) []).ctx := by
  have hrun : ∀ dek, (ScanEnd.result header (scanFrom (scanEnv evp codec file header offset info
        dek (some cb)) file (ScanState.start offset ctx))).out =
      (ScanEnd.result header (scanFrom (scanEnv evp codec file header offset info dek
        (some recordCalls)) file (ScanState.start offset []))).out ∧
      R (ScanEnd.result header (scanFrom (scanEnv evp codec file header offset info
        dek (some cb)) file (ScanState.start offset ctx))).ctx
      (ScanEnd.result header (scanFrom (scanEnv evp codec file header offset info dek
        (some recordCalls)) file (ScanState.start offset []))).ctx := by
    intro dek
    have henv : (scanEnv evp codec file header offset info dek (some cb)).cb = some cb := rfl
    exact (scanFrom_tracks henv h file (ScanState.start offset ctx) [] hctx).result header
  simp only [segmentScanPath, length_ne_zero_of_parse hparse, if_false, segmentScanImpl, hparse,
    Option.isSome_some, Bool.and_true]
  by_cases henc : (header.flags &&& flagEncrypted != 0) = true
  · simp only [henc, if_true]
    cases decryptor with
    | false => exact ⟨rfl, hctx⟩
    | true =>
      simp only [Bool.not_true, Bool.false_eq_true, if_false]
      cases evp.unwrapDek info.wrappedDek with
      | none => exact ⟨rfl, hctx⟩
      | some dek => exact hrun dek
  · simp only [henc]
    exact hrun _

end Tracks

/-! ## A header and frames -/

/-- What a written header is to a scanner, whatever follows it. -/
structure HeadSpec (evp : EvpOps) (key : FreshKey) (encrypted : Bool) (header : SegmentHeader)
    (dict head : Bytes) (info : SegmentEncryptionInfo) : Prop where
  flags_eq : (header.flags &&& flagEncrypted != 0) = encrypted
  dict_le : dict.length ≤ uint32Max
  head_eq : ∃ first, head = first ++ dict
  head_length : head.length = dataOffset evp key encrypted dict
  parse : ∀ rest, segmentParseHeader (head ++ rest) =
    some ({ header with dictLen := UInt32.ofNat dict.length }, head.length % 2 ^ 32, info)
  unwrap : encrypted = true → info.noncePrefix = key.noncePrefix ∧
    evp.unwrapDek info.wrappedDek = some key.dek

theorem segmentWriteHeader_headSpec {evp : EvpOps} (laws : EvpLaws evp) {key : FreshKey}
    {encryptor : Option SegmentEncryptor} {header : SegmentHeader} {dict : Bytes}
    (hboot : ZeroPadded bootIdSize header.bootId)
    (htz : ZeroPadded (timezoneSize - 1) header.timezone)
    (h : (segmentWriteHeader evp ⟨some key, true, .ok⟩ header dict encryptor).ok = true) :
    ∃ info, HeadSpec evp key encryptor.isSome header dict
      (segmentWriteHeader evp ⟨some key, true, .ok⟩ header dict encryptor).written info := by
  obtain ⟨hdict, hflags, -, extension, info, hwritten, hext, hoff, hparse, hunwrap⟩ :=
    segmentWriteHeader_ok evp laws key encryptor header dict h
  rw [hwritten]
  have hlen : (headerImage header extension dict).length =
      152 + extension.length + dict.length := by
    simp only [headerImage, List.length_append, length_headerBody, length_writeU32Le]
  refine ⟨info, hflags, hdict, ⟨_, rfl⟩, hlen.trans hoff, ?_, hunwrap⟩
  intro rest
  rw [hlen]
  exact segmentParseHeader_headerImage header extension dict rest info hboot htz hdict hext hparse

section Delivers

variable {evp : EvpOps} {key : FreshKey} {encrypted : Bool} {header : SegmentHeader}
  {dict head : Bytes} {info : SegmentEncryptionInfo}

theorem HeadSpec.scanDict_eq (spec : HeadSpec evp key encrypted header dict head info)
    (rest : Bytes) :
    scanDict (head ++ rest) { header with dictLen := UInt32.ofNat dict.length } head.length =
      dict := by
  obtain ⟨first, hhead⟩ := spec.head_eq
  have hle := spec.dict_le
  have hlen : (UInt32.ofNat dict.length).toNat = dict.length := by
    rw [UInt32.toNat_ofNat']
    simp only [uint32Max] at hle
    omega
  simp only [scanDict, hlen]
  rw [hhead, List.length_append, Nat.add_sub_cancel, List.append_assoc, List.drop_left,
    List.take_left]

/-- **The frames of a segment are delivered** in front of whatever a scan makes of the bytes
behind them.
SOURCE: segment.c:543-738 -/
theorem HeadSpec.scan_delivers (spec : HeadSpec evp key encrypted header dict head info)
    (laws : EvpLaws evp) (codec : CodecOps)
    (hsmall : dataOffset evp key encrypted dict < 2 ^ 32) {frames : List StoredFrame}
    {images : List Bytes} (tail : Bytes)
    (himages : writeFrames evp (frameEncryptor (if encrypted then some key else none) 0) frames =
      some images)
    (hno : NoFooterImages images tail) {calls : List (SegmentFrameInfo × Bytes)}
    (hcalls : expectedDeliveries codec { header with dictLen := UInt32.ofNat dict.length } dict
      encrypted head.length frames = some calls) :
    calls <+: (segmentScanPath evp codec (head ++ (images.flatten ++ tail)) true
      (some recordCalls) []).ctx := by
  have hparse := spec.parse (images.flatten ++ tail)
  rw [Nat.mod_eq_of_lt (by rw [spec.head_length]; exact hsmall)] at hparse
  -- the key a scan with a callback works with
  obtain ⟨dek, hdek, hkey⟩ : ∃ dek, (if header.flags &&& flagEncrypted != 0 then
      evp.unwrapDek info.wrappedDek = some dek else dek = List.replicate segmentDekSize 0) ∧
      (encrypted = true → dek = key.dek) := by
    rw [spec.flags_eq]
    cases henc : encrypted with
    | false => exact ⟨_, rfl, by simp⟩
    | true => exact ⟨key.dek, (spec.unwrap henc).2, fun _ => rfl⟩
  obtain ⟨hframes, -, hcount, hdel⟩ := writeFrames_spec evp laws _ frames 0 head.length images
    himages
  rw [segmentScanPath_of_parse evp codec recordCalls [] dek hparse hdek, scanCtx_result]
  set env := scanEnv evp codec (head ++ (images.flatten ++ tail))
    { header with dictLen := UInt32.ofNat dict.length } head.length info dek (some recordCalls)
    with henv
  have hencv : env.encrypted = encrypted := spec.flags_eq
  have hdict : env.dict = dict := spec.scanDict_eq _
  have hkeySome : (if encrypted then some key else none).isSome = encrypted := by
    cases encrypted <;> rfl
  rw [hkeySome] at hframes hcount hdel
  have hdeliver : deliverAll env head.length 0 images [] = some calls := by
    have := hdel env rfl hencv.symm
      (by cases henc : encrypted with
        | false => rfl
        | true => exact hkey henc)
      (by cases henc : encrypted with
        | false => rfl
        | true => exact (spec.unwrap henc).1)
      rfl rfl [] calls (by rw [hdict]; exact hcalls)
    simpa using this
  rw [scanFrom_frames env _ tail images (ScanState.start head.length []) calls
    (by simp only [ScanState.start, List.drop_left]) rfl (by rw [hencv]; exact hframes) hno
    (by rw [hencv]; simpa [ScanState.start] using hcount) hdeliver]
  have hcb : env.cb = some recordCalls := rfl
  exact scanFrom_calls hcb _
    (ScanState.passAll (ScanState.start head.length []) images calls)

end Delivers

end Recorder.Analysis
