import Recorder.Model.Writer
import Recorder.Analysis.SegmentFile

/-!
# The nonces of one data key

A `SegmentEncryptor` is used through two calls: `segment_write_header`, which replaces its
key, and `segment_write_frame`, which spends one nonce of the key. `EncryptorCall` is one such
call with all that the environment decides in it, `runCalls` the calls of a run with the
encryptor each of them met, and `EncryptorStep.aesCall` the key and the nonce of the AES-GCM
encryption the step performs, if it comes to one (`segmentWriteFrame_of_aesCall`).

What holds between two calls is `KeyedBy`: an initialised encryptor has the key and the prefix
of the last `segment_write_header` that passed its argument checks, and every nonce spent
since is that of a smaller counter.

* **`nonce_used_once`**: the nonces of one header are distinct, a frame is encrypted only under
  the key stored by the last header call that passed its argument checks, and what a frame call
  writes is sealed with that key and its nonce (`WritesSealed`).
* **`refused_header_keeps_key`**: a header call whose arguments are refused leaves the old key
  in use, so the last header call of any kind need not have succeeded.
-/

set_option autoImplicit false

open Recorder.Model

namespace Recorder.Analysis

/-! ## Calls and runs -/

/-- One call on an encryptor. `present` says whether the pointers it needs are non-null. -/
inductive EncryptorCall
  | writeHeader (present : Bool) (io : HeaderIo) (header : SegmentHeader) (dict : Bytes)
  | writeFrame (present : Bool) (io : FrameIo) (flags : UInt32) (payload : Bytes)
      (uncompressedLen : UInt32)

/-- The call on an encryptor: a null pointer is `EINVAL` before anything else.
SOURCE: segment.c:181-184, 287-291 -/
def EncryptorCall.run (evp : EvpOps) (enc : SegmentEncryptor) : EncryptorCall → WriteResult
  | .writeHeader true io header dict => segmentWriteHeader evp io header dict (some enc)
  | .writeFrame true io flags payload uncompressedLen =>
    segmentWriteFrame evp io (some enc) flags payload uncompressedLen
  | _ => .refuse (some enc) (some .einval)

/-- A call of a run, with the encryptor it met. -/
structure EncryptorStep where
  before : SegmentEncryptor
  call : EncryptorCall

/-- What the call of a step returned. -/
def EncryptorStep.result (evp : EvpOps) (s : EncryptorStep) : WriteResult := s.call.run evp s.before

/-- The encryptor after a step. -/
def EncryptorStep.after (evp : EvpOps) (s : EncryptorStep) : SegmentEncryptor :=
  (s.result evp).encryptor.getD s.before

/-- The steps of a run of calls on one encryptor. -/
def runCalls (evp : EvpOps) (enc : SegmentEncryptor) : List EncryptorCall → List EncryptorStep
  | [] => []
  | call :: calls => ⟨enc, call⟩ :: runCalls evp (EncryptorStep.after evp ⟨enc, call⟩) calls

/-- A `segment_write_header` call that passes its argument checks.
SOURCE: segment.c:181-193 -/
def EncryptorStep.headerChecked (s : EncryptorStep) : Bool :=
  match s.call with
  | .writeHeader present _ header dict =>
    present && decide (dict.length ≤ uint32Max) && (header.flags &&& flagEncrypted != 0)
  | .writeFrame .. => false

/-- A `segment_write_header` call. -/
def EncryptorStep.isHeader (s : EncryptorStep) : Bool :=
  match s.call with
  | .writeHeader .. => true
  | .writeFrame .. => false

/-- A `segment_write_header` call that returned 0. -/
def EncryptorStep.headerStored (evp : EvpOps) (s : EncryptorStep) : Bool :=
  match s.call with
  | .writeHeader .. => (s.result evp).ok
  | .writeFrame .. => false

/-- The data key and the nonce `segment_write_frame` gives to
`recorder_crypto_aes_gcm_encrypt`, when it gets that far.
SOURCE: segment.c:287-321 -/
def EncryptorStep.aesCall (s : EncryptorStep) : Option (Bytes × Bytes) :=
  match s.call with
  | .writeFrame true io _ payload _ =>
    if s.before.initialized &&
        decide (payload.length ≤ uint32Max - segmentFrameHeaderSize - (4 + gcmTagSize)) &&
        (s.before.frameIndex != 0xffffffffffffffff) && io.allocOk then
      some (s.before.dek, frameNonce s.before.noncePrefix s.before.frameIndex)
    else none
  | _ => none

/-! ## What one call does -/

section Calls

variable (evp : EvpOps)

/-- The encryptors an AES-GCM call is made with.
SOURCE: segment.c:287-310 -/
theorem EncryptorStep.aesCall_eq_some_iff (enc : SegmentEncryptor) (io : FrameIo) (flags : UInt32)
    (payload : Bytes) (uncompressedLen : UInt32) (dek nonce : Bytes) :
    EncryptorStep.aesCall ⟨enc, .writeFrame true io flags payload uncompressedLen⟩ =
        some (dek, nonce) ↔
      (enc.initialized = true ∧
        payload.length ≤ uint32Max - segmentFrameHeaderSize - (4 + gcmTagSize) ∧
        enc.frameIndex ≠ 0xffffffffffffffff ∧ io.allocOk = true) ∧
      enc.dek = dek ∧ frameNonce enc.noncePrefix enc.frameIndex = nonce := by
  simp [EncryptorStep.aesCall, and_assoc]

/-- Without an AES-GCM call `segment_write_frame` refuses and changes nothing.
SOURCE: segment.c:287-310 -/
theorem segmentWriteFrame_of_aesCall_none (enc : SegmentEncryptor) (io : FrameIo)
    (flags : UInt32) (payload : Bytes) (uncompressedLen : UInt32)
    (h : EncryptorStep.aesCall ⟨enc, .writeFrame true io flags payload uncompressedLen⟩ = none) :
    ∃ errno, segmentWriteFrame evp io (some enc) flags payload uncompressedLen =
      .refuse (some enc) errno := by
  unfold segmentWriteFrame
  simp only [Option.isSome_some, if_true, Option.map_some]
  split
  · exact ⟨_, rfl⟩
  · rename_i hinit
    split
    · exact ⟨_, rfl⟩
    · rename_i hlen
      split
      · exact ⟨_, rfl⟩
      · rename_i hmax
        split
        · exact ⟨_, rfl⟩
        · rename_i halloc
          have hsome := (EncryptorStep.aesCall_eq_some_iff enc io flags payload uncompressedLen
            enc.dek (frameNonce enc.noncePrefix enc.frameIndex)).2
            ⟨⟨by simpa using hinit, Nat.not_lt.1 hlen, hmax, by simpa using halloc⟩, rfl, rfl⟩
          rw [h] at hsome
          cases hsome

/-- With one, the counter moves and the rest is what the cipher and the writes return.
SOURCE: segment.c:310-345 -/
theorem segmentWriteFrame_of_aesCall_some (enc : SegmentEncryptor) (io : FrameIo)
    (flags : UInt32) (payload : Bytes) (uncompressedLen : UInt32) {dek nonce : Bytes}
    (h : EncryptorStep.aesCall ⟨enc, .writeFrame true io flags payload uncompressedLen⟩ =
      some (dek, nonce)) :
    segmentWriteFrame evp io (some enc) flags payload uncompressedLen =
      let header := frameHeader flags (UInt32.ofNat payload.length) uncompressedLen
        (UInt32.ofNat (segmentFrameHeaderSize + payload.length + (4 + gcmTagSize)))
      let next := { enc with frameIndex := enc.frameIndex + 1 }
      match recorderCryptoAesGcmEncrypt evp dek nonce header payload with
      | none => .refuse (some next) none
      | some (stored, tag) =>
        let w := io.write.append (frameImage header stored tag)
        ⟨w.2, w.1, some next, none⟩ := by
  obtain ⟨⟨hinit, hlen, hmax, halloc⟩, rfl, rfl⟩ := (EncryptorStep.aesCall_eq_some_iff ..).1 h
  unfold segmentWriteFrame
  simp only [Option.isSome_some, if_true, Option.map_some]
  rw [if_neg (by simp [hinit]), if_neg (Nat.not_lt.2 hlen), if_neg hmax]
  exact if_neg (by simp [halloc])

/-- The encryptor after a `segment_write_frame` call.
SOURCE: segment.c:310 -/
theorem segmentWriteFrame_encryptor (enc : SegmentEncryptor) (io : FrameIo) (flags : UInt32)
    (payload : Bytes) (uncompressedLen : UInt32) :
    (segmentWriteFrame evp io (some enc) flags payload uncompressedLen).encryptor =
      if (EncryptorStep.aesCall ⟨enc, .writeFrame true io flags payload uncompressedLen⟩).isSome
      then some { enc with frameIndex := enc.frameIndex + 1 } else some enc := by
  cases h : EncryptorStep.aesCall ⟨enc, .writeFrame true io flags payload uncompressedLen⟩ with
  | none =>
    obtain ⟨errno, hr⟩ := segmentWriteFrame_of_aesCall_none evp enc io flags payload
      uncompressedLen h
    rw [hr]
    rfl
  | some use =>
    rw [segmentWriteFrame_of_aesCall_some evp enc io flags payload uncompressedLen h]
    simp only []
    split <;> rfl

/-- `segment_write_header` stores a fresh key and starts to count at 0, or it leaves the
encryptor unusable, unless an argument check refused the call and nothing changed.
SOURCE: segment.c:181-268 -/
theorem segmentWriteHeader_encryptor (enc : SegmentEncryptor) (io : HeaderIo)
    (header : SegmentHeader) (dict : Bytes) :
    let s : EncryptorStep := ⟨enc, .writeHeader true io header dict⟩
    (s.headerChecked = false ∧
        ∃ errno, segmentWriteHeader evp io header dict (some enc) = .refuse (some enc) errno) ∨
      (s.headerChecked = true ∧ ∃ key wrappedDek, io.random = some key ∧
        evp.wrapDek key.dek = some wrappedDek ∧
        segmentWriteHeader evp io header dict (some enc) =
          ⟨true, headerImage header (encryptionExtension key.noncePrefix wrappedDek) dict,
            some ⟨key.dek, key.noncePrefix, 0, true⟩, none⟩) ∨
      (s.headerChecked = true ∧ ∃ cleared,
        (segmentWriteHeader evp io header dict (some enc)).ok = false ∧
        (segmentWriteHeader evp io header dict (some enc)).encryptor = some cleared ∧
        cleared.initialized = false) := by
  intro s
  have hs : s.headerChecked =
      (decide (dict.length ≤ uint32Max) && (header.flags &&& flagEncrypted != 0)) := by
    simp [s, EncryptorStep.headerChecked]
  unfold segmentWriteHeader
  split
  · rename_i hdict
    exact .inl ⟨by simp [hs, Nat.not_le.2 hdict], _, rfl⟩
  · rename_i hdict
    split
    · rename_i hflags
      exact .inl ⟨by simpa [hs] using fun _ => hflags, _, rfl⟩
    · rename_i hflags
      have hchecked : s.headerChecked = true := by
        rw [hs, Bool.and_eq_true]
        exact ⟨decide_eq_true (Nat.not_lt.1 hdict), by simpa using hflags⟩
      refine .inr ?_
      cases hrandom : io.random with
      | none => exact .inr ⟨hchecked, _, rfl, rfl, rfl⟩
      | some key =>
        cases hwrap : evp.wrapDek key.dek with
        | none => exact .inr ⟨hchecked, _, by simp [hwrap, WriteResult.refuse],
            by simp [hwrap, WriteResult.refuse]; rfl, rfl⟩
        | some wrappedDek =>
          simp only [hwrap]
          split
          · exact .inr ⟨hchecked, _, rfl, rfl, rfl⟩
          · split
            · exact .inr ⟨hchecked, _, rfl, rfl, rfl⟩
            · cases hwrite : io.write with
              | ok => exact .inl ⟨hchecked, key, wrappedDek, rfl, hwrap, by
                  simp [WriteOutcome.append]⟩
              | fail n => exact .inr ⟨hchecked, _, by simp [WriteOutcome.append],
                  by simp [WriteOutcome.append]; rfl, rfl⟩

/-- The bytes a frame call writes are a first part of the frame that the cipher yields for a key
and a nonce, and the whole frame if the call succeeds. -/
def WritesSealed (s : EncryptorStep) (dek nonce : Bytes) : Prop :=
  ∃ io flags payload uncompressedLen header stored tag,
    s.call = .writeFrame true io flags payload uncompressedLen ∧
    header = frameHeader flags (UInt32.ofNat payload.length) uncompressedLen
      (UInt32.ofNat (segmentFrameHeaderSize + payload.length + (4 + gcmTagSize))) ∧
    recorderCryptoAesGcmEncrypt evp dek nonce header payload = some (stored, tag) ∧
    (s.result evp).written <+: frameImage header stored tag ∧
    ((s.result evp).ok = true → (s.result evp).written = frameImage header stored tag)

/-- **What a frame call writes is sealed** under the key and the nonce of its AES-GCM call.
SOURCE: segment.c:287-345 -/
theorem EncryptorStep.writesSealed {s : EncryptorStep} (hframe : s.isHeader = false)
    (hwritten : (s.result evp).written ≠ []) :
    ∃ dek nonce, s.aesCall = some (dek, nonce) ∧ WritesSealed evp s dek nonce := by
  obtain ⟨enc, call⟩ := s
  cases call with
  | writeHeader => cases hframe
  | writeFrame present io flags payload uncompressedLen =>
    cases present with
    | false => exact absurd rfl hwritten
    | true =>
      have hresult : EncryptorStep.result evp ⟨enc, .writeFrame true io flags payload
          uncompressedLen⟩ =
            segmentWriteFrame evp io (some enc) flags payload uncompressedLen := rfl
      cases huse : EncryptorStep.aesCall ⟨enc, .writeFrame true io flags payload
          uncompressedLen⟩ with
      | none =>
        obtain ⟨errno, hrefused⟩ := segmentWriteFrame_of_aesCall_none evp enc io flags payload
          uncompressedLen huse
        rw [hresult, hrefused] at hwritten
        exact absurd rfl hwritten
      | some use =>
        obtain ⟨dek, nonce⟩ := use
        have hwrite := segmentWriteFrame_of_aesCall_some evp enc io flags payload uncompressedLen
          huse
        simp only at hwrite
        refine ⟨dek, nonce, rfl, ?_⟩
        split at hwrite
        · rw [hresult, hwrite] at hwritten
          exact absurd rfl hwritten
        · rename_i stored tag hseal
          refine ⟨io, flags, payload, uncompressedLen, _, stored, tag, rfl, rfl, hseal, ?_⟩
          rw [hresult, hwrite]
          cases io.write with
          | ok => exact ⟨List.prefix_rfl, fun _ => rfl⟩
          | fail n => exact ⟨List.take_prefix _ _, fun hok => by cases hok⟩

end Calls

/-! ## The key in use -/

/-- The counter is written most significant byte first. -/
theorem frameNonce_eq (noncePrefix : Bytes) (frameIndex : UInt64) :
    frameNonce noncePrefix frameIndex =
      noncePrefix.take noncePrefixSize ++ (writeU64Le frameIndex).reverse := by
  simp [frameNonce, writeU64Le, List.range_succ]

/-- Under one prefix, two counters give two nonces. -/
theorem frameNonce_injective {noncePrefix : Bytes} {i j : UInt64}
    (h : frameNonce noncePrefix i = frameNonce noncePrefix j) : i = j := by
  rw [frameNonce_eq, frameNonce_eq, List.append_cancel_left_eq, List.reverse_inj] at h
  calc i = readU64Le (writeU64Le i ++ []) := (readU64Le_write i []).symm
    _ = readU64Le (writeU64Le j ++ []) := by rw [h]
    _ = j := readU64Le_write j []

/-- A step whose `segment_write_header` wrote a header with the given key in it, wrapped, and
the nonce prefix in the clear. -/
def StoresKey (evp : EvpOps) (s : EncryptorStep) (key : FreshKey) : Prop :=
  s.headerStored evp = true ∧ ∃ io header dict wrappedDek,
    s.call = .writeHeader true io header dict ∧ io.random = some key ∧
      evp.wrapDek key.dek = some wrappedDek ∧
      (s.result evp).written =
        headerImage header (encryptionExtension key.noncePrefix wrappedDek) dict

/-- **What the steps of a run say of the encryptor they leave**: if it can be used, its key
and prefix are those of the last header call that passed its argument checks, and the nonces
spent since then belong to smaller counters. -/
def KeyedBy (evp : EvpOps) (past : List EncryptorStep) (enc : SegmentEncryptor) : Prop :=
  enc.initialized = true → ∃ before h since key, past = before ++ h :: since ∧
    StoresKey evp h key ∧ enc.dek = key.dek ∧ enc.noncePrefix = key.noncePrefix ∧
    (∀ s ∈ since, s.headerChecked = false) ∧
    ∀ s ∈ since, ∀ dek nonce, s.aesCall = some (dek, nonce) →
      ∃ i < enc.frameIndex, nonce = frameNonce enc.noncePrefix i

section Keys

variable {evp : EvpOps} {past : List EncryptorStep} {enc : SegmentEncryptor}

/-- A step that keeps the key and spends at most the current counter.

INTERNAL: every call but one that passes the argument checks of `segment_write_header`. -/
theorem KeyedBy.extend (h : KeyedBy evp past enc) {s : EncryptorStep} {after : SegmentEncryptor}
    (hs : s.headerChecked = false) (hdek : after.dek = enc.dek)
    (hpre' : after.noncePrefix = enc.noncePrefix) (hinit : after.initialized = enc.initialized)
    (hle : enc.frameIndex ≤ after.frameIndex)
    (hspent : ∀ dek nonce, s.aesCall = some (dek, nonce) →
      enc.frameIndex < after.frameIndex ∧ nonce = frameNonce enc.noncePrefix enc.frameIndex) :
    KeyedBy evp (past ++ [s]) after := by
  intro hafter
  obtain ⟨before, hd, since, key, rfl, hstores, hkey, hpre, hsince, hspentSince⟩ :=
    h (hinit ▸ hafter)
  refine ⟨before, hd, since ++ [s], key, by simp, hstores, hdek.trans hkey,
    hpre'.trans hpre, ?_, ?_⟩
  · intro x hx
    rcases List.mem_append.1 hx with hx | hx
    · exact hsince x hx
    · rw [List.mem_singleton.1 hx]
      exact hs
  · intro x hx dek nonce huse
    rw [hpre']
    rcases List.mem_append.1 hx with hx | hx
    · obtain ⟨i, hi, hnonce⟩ := hspentSince x hx dek nonce huse
      exact ⟨i, UInt64.lt_of_lt_of_le hi hle, hnonce⟩
    · rw [List.mem_singleton.1 hx] at huse
      exact ⟨enc.frameIndex, hspent dek nonce huse⟩

/-- A call that is refused at once keeps the key. -/
theorem KeyedBy.refuse (h : KeyedBy evp past enc) {s : EncryptorStep}
    (hs : s.headerChecked = false) (huse : s.aesCall = none) :
    KeyedBy evp (past ++ [s]) enc :=
  h.extend hs rfl rfl rfl UInt64.le_rfl (by simp [huse])

/-- **One call keeps the relation**: by the kind of call and how far it gets. -/
theorem KeyedBy.step {s : EncryptorStep} (h : KeyedBy evp past s.before) :
    KeyedBy evp (past ++ [s]) (s.after evp) := by
  obtain ⟨enc, call⟩ := s
  cases call with
  | writeHeader present io header dict =>
    cases present with
    | false => exact h.refuse rfl rfl
    | true =>
      rcases segmentWriteHeader_encryptor evp enc io header dict with
        ⟨hchecked, errno, hr⟩ | ⟨hchecked, key, wrappedDek, hrandom, hwrap, hr⟩ |
        ⟨hchecked, cleared, hok, hcleared, hinit⟩
      · have hafter : EncryptorStep.after evp ⟨enc, .writeHeader true io header dict⟩ = enc := by
          simp [EncryptorStep.after, EncryptorStep.result, EncryptorCall.run, hr,
            WriteResult.refuse]
        rw [hafter]
        exact h.refuse hchecked rfl
      · intro _
        have hafter : EncryptorStep.after evp ⟨enc, .writeHeader true io header dict⟩ =
            ⟨key.dek, key.noncePrefix, 0, true⟩ := by
          simp [EncryptorStep.after, EncryptorStep.result, EncryptorCall.run, hr]
        have hstores : StoresKey evp ⟨enc, .writeHeader true io header dict⟩ key :=
          ⟨by simp [EncryptorStep.headerStored, EncryptorStep.result, EncryptorCall.run, hr],
            io, header, dict, wrappedDek, rfl, hrandom, hwrap,
            by simp [EncryptorStep.result, EncryptorCall.run, hr]⟩
        exact ⟨past, _, [], key, rfl, hstores, by rw [hafter], by rw [hafter], by simp,
          by simp⟩
      · intro hafter
        have hnot :
            (EncryptorStep.after evp ⟨enc, .writeHeader true io header dict⟩).initialized =
              false := by
          simp [EncryptorStep.after, EncryptorStep.result, EncryptorCall.run, hcleared, hinit]
        rw [hnot] at hafter
        cases hafter
  | writeFrame present io flags payload uncompressedLen =>
    cases present with
    | false => exact h.refuse rfl rfl
    | true =>
      have hafter : EncryptorStep.after evp ⟨enc, .writeFrame true io flags payload
          uncompressedLen⟩ = if (EncryptorStep.aesCall ⟨enc, .writeFrame true io flags payload
            uncompressedLen⟩).isSome then { enc with frameIndex := enc.frameIndex + 1 }
          else enc := by
        simp only [EncryptorStep.after, EncryptorStep.result, EncryptorCall.run,
          segmentWriteFrame_encryptor]
        split <;> rfl
      cases huse : EncryptorStep.aesCall ⟨enc, .writeFrame true io flags payload
          uncompressedLen⟩ with
      | none =>
        rw [hafter, huse]
        exact h.refuse rfl huse
      | some use =>
        obtain ⟨⟨-, -, hmax, -⟩, -, hnonce⟩ := (EncryptorStep.aesCall_eq_some_iff ..).1 huse
        have hlt : enc.frameIndex < enc.frameIndex + 1 := by
          have hne : enc.frameIndex.toNat ≠ 18446744073709551615 := fun he =>
            hmax (UInt64.toNat_inj.1 he)
          have hbound := enc.frameIndex.toNat_lt
          rw [UInt64.lt_iff_toNat_lt, UInt64.toNat_add, UInt64.toNat_one]
          omega
        rw [hafter, huse]
        refine h.extend rfl rfl rfl rfl (UInt64.le_of_lt hlt) ?_
        intro dek nonce hcall
        rw [huse, Option.some.injEq] at hcall
        rw [hcall] at hnonce
        exact ⟨hlt, hnonce.symm⟩

/-- **Every step of a run meets an encryptor keyed by the steps before it.** -/
theorem KeyedBy.run (calls : List EncryptorCall) (h : KeyedBy evp past enc)
    (mid : List EncryptorStep) {rest : List EncryptorStep} {s : EncryptorStep}
    (hrun : runCalls evp enc calls = mid ++ s :: rest) : KeyedBy evp (past ++ mid) s.before := by
  induction calls generalizing past enc mid with
  | nil => simp [runCalls] at hrun
  | cons call calls ih =>
    cases mid with
    | nil =>
      simp only [runCalls, List.nil_append, List.cons.injEq] at hrun
      rw [List.append_nil, ← hrun.1]
      exact h
    | cons first mid =>
      simp only [runCalls, List.cons_append, List.cons.injEq] at hrun
      obtain ⟨rfl, hrest⟩ := hrun
      have hstep := KeyedBy.step (s := ⟨enc, call⟩) h
      simpa using ih hstep mid hrest

end Keys

/-- An AES-GCM call is made with the key of the encryptor and the nonce of its counter. -/
theorem EncryptorStep.of_aesCall (evp : EvpOps) {s : EncryptorStep} {dek nonce : Bytes}
    (h : s.aesCall = some (dek, nonce)) :
    s.before.initialized = true ∧ s.before.dek = dek ∧
      frameNonce s.before.noncePrefix s.before.frameIndex = nonce ∧
      s.headerStored evp = false := by
  obtain ⟨enc, call⟩ := s
  cases call with
  | writeHeader => cases h
  | writeFrame present io flags payload uncompressedLen =>
    cases present with
    | false => cases h
    | true =>
      obtain ⟨⟨hinit, -, -, -⟩, hdek, hnonce⟩ := (EncryptorStep.aesCall_eq_some_iff ..).1 h
      exact ⟨hinit, hdek, hnonce, rfl⟩

/-- A new encryptor holds no key. -/
theorem keyedBy_create (evp : EvpOps) : KeyedBy evp [] segmentEncryptorCreate := by
  intro h
  cases h

/-- **Nonces under one data key.** Over every run of header and frame calls on an encryptor,
whatever fails in them: two AES-GCM calls with no successful header between them use
different nonces; an AES-GCM call uses the key of an earlier header call that succeeded,
stored that key, and is the last one that passed its argument checks; and whatever a frame call
writes is what the cipher makes of its payload in such a call.
SOURCE: segment.c:166-345 -/
theorem nonce_used_once (evp : EvpOps) (calls : List EncryptorCall) :
    (∀ (past mid rest : List EncryptorStep) (s t : EncryptorStep) (dek nonce dek' nonce' : Bytes),
      runCalls evp segmentEncryptorCreate calls = past ++ s :: (mid ++ t :: rest) →
      (∀ x ∈ mid, x.headerStored evp = false) →
      s.aesCall = some (dek, nonce) → t.aesCall = some (dek', nonce') → nonce ≠ nonce') ∧
    (∀ (past rest : List EncryptorStep) (s : EncryptorStep) (dek nonce : Bytes),
      runCalls evp segmentEncryptorCreate calls = past ++ s :: rest →
      s.aesCall = some (dek, nonce) →
      ∃ before h since key, past = before ++ h :: since ∧ StoresKey evp h key ∧
        dek = key.dek ∧ ∀ x ∈ since, x.headerChecked = false) ∧
    (∀ (past rest : List EncryptorStep) (s : EncryptorStep),
      runCalls evp segmentEncryptorCreate calls = past ++ s :: rest → s.isHeader = false →
      (s.result evp).written ≠ [] →
      ∃ dek nonce, s.aesCall = some (dek, nonce) ∧ WritesSealed evp s dek nonce) := by
  refine ⟨?_, ?_, fun _ _ _ _ hframe hwritten => EncryptorStep.writesSealed evp hframe hwritten⟩
  · intro past mid rest s t dek nonce dek' nonce' hrun hmid hs ht
    obtain ⟨hinit, -, hnonce', -⟩ := EncryptorStep.of_aesCall evp ht
    obtain ⟨before, h, since, key, hsplit, hstores, -, -, -, hspent⟩ :=
      (keyedBy_create evp).run calls (past ++ s :: mid) (by simpa using hrun) hinit
    have hne : h ≠ s := by
      rintro rfl
      have hstored := hstores.1
      rw [(EncryptorStep.of_aesCall evp hs).2.2.2] at hstored
      cases hstored
    have hsince : s ∈ since := by
      rw [List.nil_append] at hsplit
      rcases List.append_eq_append_iff.1 hsplit.symm with ⟨a, -, ha⟩ | ⟨a, -, ha⟩
      · cases a with
        | nil =>
          rw [List.nil_append, List.cons.injEq] at ha
          exact absurd ha.1 hne
        | cons x a =>
          rw [List.cons_append, List.cons.injEq] at ha
          rw [ha.2]
          simp
      · cases a with
        | nil =>
          rw [List.nil_append, List.cons.injEq] at ha
          exact absurd ha.1.symm hne
        | cons x a =>
          rw [List.cons_append, List.cons.injEq] at ha
          have hstored := hmid h (by rw [ha.2]; simp)
          rw [hstores.1] at hstored
          cases hstored
    obtain ⟨i, hi, hnonce⟩ := hspent s hsince dek nonce hs
    intro heq
    rw [hnonce, ← hnonce'] at heq
    rw [frameNonce_injective heq] at hi
    exact absurd hi (UInt64.lt_irrefl _)
  · intro past rest s dek nonce hrun hs
    obtain ⟨hinit, hdek, -, -⟩ := EncryptorStep.of_aesCall evp hs
    obtain ⟨before, h, since, key, hsplit, hstores, hkey, -, hsince, -⟩ :=
      (keyedBy_create evp).run calls past hrun hinit
    exact ⟨before, h, since, key, hsplit, hstores, hdek.symm.trans hkey, hsince⟩

/-- A cipher that encrypts nothing and a key wrap that hides nothing. -/
def openEvp : EvpOps :=
  ⟨some, some, fun _ _ _ p => some (p, List.replicate gcmTagSize 0), fun _ _ _ c _ => some c⟩

/-- A header and two frames under its key. -/
def twoFrameCalls : List EncryptorCall :=
  [.writeHeader true ⟨some zeroKey, true, .ok⟩ { plainHeader with flags := flagEncrypted } [],
    .writeFrame true ⟨true, .ok⟩ 0 [1] 1, .writeFrame true ⟨true, .fail 3⟩ 0 [2] 1]

/-- The two frames of that run, the second of which does not reach the file whole. -/
theorem nonce_used_once_two_frames :
    ∃ stored first second nonce nonce',
      runCalls openEvp segmentEncryptorCreate twoFrameCalls = [stored, first, second] ∧
      first.aesCall = some (zeroKey.dek, nonce) ∧ second.aesCall = some (zeroKey.dek, nonce') ∧
      nonce ≠ nonce' ∧ (second.result openEvp).written.length = 3 ∧
      ∃ dek used, second.aesCall = some (dek, used) ∧ WritesSealed openEvp second dek used :=
  ⟨_, _, _, _, _, rfl, rfl, rfl, (nonce_used_once openEvp twoFrameCalls).1 [_] [] [] _ _ _ _ _ _
    rfl (by simp) rfl rfl, rfl, (nonce_used_once openEvp twoFrameCalls).2.2 [_, _] [] _ rfl rfl
      (List.ne_nil_of_length_pos (by decide : 0 < 3))⟩

/-- A header, a second header that asks for a plain segment and is refused, and a frame. -/
def refusedHeaderCalls : List EncryptorCall :=
  [.writeHeader true ⟨some zeroKey, true, .ok⟩ { plainHeader with flags := flagEncrypted } [],
    .writeHeader true ⟨some zeroKey, true, .ok⟩ plainHeader [],
    .writeFrame true ⟨true, .ok⟩ 0 [1] 1]

/-- **A refused header leaves the key in use**: it returns `EINVAL` before the encryptor is
touched, and the frame after it is encrypted under the key of the header before. -/
theorem refused_header_keeps_key :
    ¬ ∀ (evp : EvpOps) (calls : List EncryptorCall) (past rest : List EncryptorStep)
      (s : EncryptorStep) (dek nonce : Bytes),
      runCalls evp segmentEncryptorCreate calls = past ++ s :: rest →
      s.aesCall = some (dek, nonce) →
      ∃ before h since, past = before ++ h :: since ∧ h.headerStored evp = true ∧
        ∀ x ∈ since, x.isHeader = false := by
  intro hall
  obtain ⟨first, refused, sealed, hrun⟩ :
      ∃ first refused sealed, runCalls openEvp segmentEncryptorCreate refusedHeaderCalls =
        [first, refused, sealed] := ⟨_, _, _, rfl⟩
  have hrefused : refused.headerStored openEvp = false ∧ refused.isHeader = true := by
    simp only [runCalls, refusedHeaderCalls, List.cons.injEq] at hrun
    rw [← hrun.2.1]
    exact ⟨rfl, rfl⟩
  have hsealed : sealed.aesCall = some (zeroKey.dek, frameNonce zeroKey.noncePrefix 0) := by
    simp only [runCalls, refusedHeaderCalls, List.cons.injEq] at hrun
    rw [← hrun.2.2.1]
    rfl
  obtain ⟨before, h, since, hpast, hstored, hsince⟩ :=
    hall openEvp refusedHeaderCalls [first, refused] [] sealed _ _ hrun hsealed
  -- the last step before the frame is the refused header
  rcases List.eq_nil_or_concat since with rfl | ⟨init, last, rfl⟩
  · have hlast := congrArg List.getLast? hpast
    simp at hlast
    rw [← hlast, hrefused.1] at hstored
    cases hstored
  · have hsplit : [first, refused] = (before ++ h :: init) ++ [last] := by simpa using hpast
    have hlast : refused = last := Option.some.inj
      ((congrArg List.getLast? hsplit).trans List.getLast?_concat)
    have hnot := hsince last (by simp)
    rw [← hlast, hrefused.2] at hnot
    cases hnot

end Recorder.Analysis
