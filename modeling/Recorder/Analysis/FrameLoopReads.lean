import Recorder.Analysis.SegmentAccess

/-!
# The reads of the frame loop

The frame loop over any bytes and from any start, with 64-bit sizes. Each turn reads inside the
frame it has measured (`frame_room`), and a turn that goes on leaves a frame of at least twenty
bytes behind (`scanTurn_advances`), so that the loop ends. One pointer is not derived from a
check: the dictionary, which is looked for in front of the start. The start of a header that was
accepted is a sum of `uint32_t`, and where it has wrapped the dictionary would begin before the
buffer (`dictionary_inside_iff`).

**Main result** (`frame_loop_safe_iff`): the loop is safe for every key, decoder and callback
exactly where the dictionary is in front of the start or no frame that can be reached is
decompressed with it; the reader of single frames is safe for every offset.
`dictionary_before_buffer` is a file for which the loop is not.
-/

set_option autoImplicit false

namespace Recorder.Analysis

open Recorder.Model

variable {σ : Type}

/-! ## The callback part -/

section Deliver

variable {encrypted : Bool} {buf : Bytes} {offset : ℕ} {info : SegmentFrameInfo}

/-- Payload and tag are read inside a frame that lies in the buffer. -/
theorem openPayloadAt_eq (evp : EvpOps) (dek noncePrefix : Bytes) (frameIndex : UInt64)
    (hroom : offset + lengthSum encrypted info ≤ buf.length) :
    openPayloadAt evp encrypted dek noncePrefix frameIndex info buf offset =
      some (openPayload evp encrypted dek noncePrefix frameIndex info (buf.drop offset)) := by
  simp only [lengthSum, segmentFrameHeaderSize] at hroom
  unfold openPayloadAt openPayload
  simp only [segmentFrameHeaderSize]
  rw [loadBytes_eq (by omega)]
  cases encrypted with
  | false =>
    simp only [Option.bind_eq_bind, Option.bind_some, List.drop_drop]
    rfl
  | true =>
    simp only [tagLen, if_true] at hroom
    rw [loadBytes_eq (by omega), loadBytes_eq (by omega)]
    simp only [Option.bind_eq_bind, Option.bind_some, List.drop_drop, ← Nat.add_assoc, if_true]
    rfl

/-- The decoder looks at a dictionary. -/
def UsesDictionary (header : SegmentHeader) (info : SegmentFrameInfo) : Prop :=
  info.flags &&& frameFlagZstd ≠ 0 ∧ header.flags &&& flagHasStaticDict ≠ 0 ∧ header.dictLen ≠ 0

theorem decompressPayloadAt_some (codec : CodecOps) (header : SegmentHeader)
    (dict payload : Bytes) :
    decompressPayloadAt codec header (some dict) info payload =
      some (decompressPayload codec header dict info payload) := by
  unfold decompressPayloadAt decompressPayload
  by_cases hzstd : (info.flags &&& frameFlagZstd == 0) = true
  · simp only [hzstd, if_true]
    rfl
  · rw [if_neg hzstd, if_neg hzstd]
    by_cases hdict : (header.flags &&& flagHasStaticDict != 0 && header.dictLen != 0) = true
    · simp only [hdict, if_true]
      rfl
    · simp only [if_neg hdict]
      rfl

/-- Where the decoder does not look at the dictionary it may be anything. -/
theorem decompressPayloadAt_unused (codec : CodecOps) {header : SegmentHeader}
    (dict : Option Bytes) (dict' payload : Bytes) (hunused : ¬ UsesDictionary header info) :
    decompressPayloadAt codec header dict info payload =
      some (decompressPayload codec header dict' info payload) := by
  unfold decompressPayloadAt decompressPayload
  by_cases hzstd : (info.flags &&& frameFlagZstd == 0) = true
  · simp only [hzstd, if_true]
    rfl
  · rw [if_neg hzstd, if_neg hzstd]
    have hdict : ¬ (header.flags &&& flagHasStaticDict != 0 && header.dictLen != 0) = true := by
      intro h
      rw [Bool.and_eq_true, bne_iff_ne, bne_iff_ne] at h
      exact hunused ⟨by simpa using hzstd, h⟩
    simp only [if_neg hdict]
    rfl

theorem decompressPayloadAt_none (codec : CodecOps) {header : SegmentHeader} (payload : Bytes)
    (huses : UsesDictionary header info) :
    decompressPayloadAt codec header none info payload = none := by
  obtain ⟨hzstd, hflag, hlen⟩ := huses
  unfold decompressPayloadAt
  have hdict : (header.flags &&& flagHasStaticDict != 0 && header.dictLen != 0) = true := by
    rw [Bool.and_eq_true, bne_iff_ne, bne_iff_ne]
    exact ⟨hflag, hlen⟩
  rw [if_neg (by simpa using hzstd)]
  simp only [hdict, if_true]
  rfl

theorem dictionaryAt_eq {header : SegmentHeader} {start : ℕ} (hstart : start ≤ buf.length)
    (hdict : header.dictLen.toNat ≤ start) :
    dictionaryAt header buf start =
      some ((buf.drop (start - header.dictLen.toNat)).take header.dictLen.toNat) := by
  unfold dictionaryAt load
  rw [if_pos ⟨by omega, by omega⟩]
  congr 3
  omega

theorem dictionaryAt_eq_none {header : SegmentHeader} {start : ℕ}
    (hdict : start < header.dictLen.toNat) : dictionaryAt header buf start = none := by
  unfold dictionaryAt load
  rw [if_neg]
  rintro ⟨hnonneg, -⟩
  omega

/-- **A frame is handed over inside the buffer**, unless the decoder is to look at a dictionary
that is not there. -/
theorem deliverFrameAt_eq (env : ScanEnv σ) {start : ℕ} (frameIndex : UInt64) (ctx : σ)
    (hroom : offset + lengthSum env.encrypted info ≤ buf.length)
    (hread : ¬ UsesDictionary env.header info ∨
      dictionaryAt env.header buf start = some env.dict) :
    deliverFrameAt env buf start offset info frameIndex ctx =
      some (deliverFrame env (buf.drop offset) info frameIndex ctx) := by
  unfold deliverFrameAt deliverFrame
  cases env.cb with
  | none => rfl
  | some cb =>
    by_cases hmin : info.fileOffset < env.minFrameOffset
    · simp only [if_pos hmin]
    · simp only [if_neg hmin]
      rw [openPayloadAt_eq _ _ _ _ hroom]
      simp only [Option.bind_eq_bind, Option.bind_some]
      cases openPayload env.evp env.encrypted env.dek env.encryption.noncePrefix frameIndex info
        (buf.drop offset) with
      | none => rfl
      | some payload =>
        have hdecode : decompressPayloadAt env.codec env.header (dictionaryAt env.header buf start)
            info payload = some (decompressPayload env.codec env.header env.dict info payload) := by
          cases hread with
          | inl hunused => exact decompressPayloadAt_unused _ _ _ _ hunused
          | inr hdict => rw [hdict, decompressPayloadAt_some]
        simp only [hdecode, Option.bind_some]
        cases decompressPayload env.codec env.header env.dict info payload with
        | none => rfl
        | some chunk =>
          simp only
          split <;> rfl

/-- The only read outside is one of the dictionary. -/
theorem deliverFrameAt_eq_none_iff (env : ScanEnv σ) {start : ℕ} (frameIndex : UInt64) (ctx : σ)
    (hroom : offset + lengthSum env.encrypted info ≤ buf.length) :
    deliverFrameAt env buf start offset info frameIndex ctx = none ↔
      env.cb.isSome ∧ env.minFrameOffset ≤ info.fileOffset ∧
        (openPayload env.evp env.encrypted env.dek env.encryption.noncePrefix frameIndex info
          (buf.drop offset)).isSome ∧
        UsesDictionary env.header info ∧ dictionaryAt env.header buf start = none := by
  unfold deliverFrameAt
  cases env.cb with
  | none => simp
  | some cb =>
    by_cases hmin : info.fileOffset < env.minFrameOffset
    · simp only [if_pos hmin]
      exact iff_of_false (by simp) fun h => absurd h.2.1 (Nat.not_le.mpr hmin)
    · simp only [if_neg hmin]
      rw [openPayloadAt_eq _ _ _ _ hroom]
      simp only [Option.bind_eq_bind, Option.bind_some]
      cases openPayload env.evp env.encrypted env.dek env.encryption.noncePrefix frameIndex info
        (buf.drop offset) with
      | none => exact iff_of_false (by simp) fun h => absurd h.2.2.1 (by simp)
      | some payload =>
        by_cases huses : UsesDictionary env.header info
        · cases hdict : dictionaryAt env.header buf start with
          | none =>
            simp only [decompressPayloadAt_none _ _ huses, Option.bind_none]
            exact iff_of_true trivial ⟨rfl, Nat.not_lt.mp hmin, rfl, huses, trivial⟩
          | some dict =>
            simp only [decompressPayloadAt_some, Option.bind_some]
            refine iff_of_false ?_ fun h => nomatch h.2.2.2.2
            cases decompressPayload env.codec env.header dict info payload with
            | none => simp
            | some chunk =>
              simp only
              split <;> simp
        · simp only [decompressPayloadAt_unused _ _ [] _ huses, Option.bind_some]
          refine iff_of_false ?_ fun h => huses h.2.2.2.1
          cases decompressPayload env.codec env.header [] info payload with
          | none => simp
          | some chunk =>
            simp only
            split <;> simp

end Deliver

/-! ## The loop -/

section Loop

variable {env : ScanEnv σ} {buf : Bytes} {start : ℕ} {ctx : σ}

/-- **One turn of the loop**: what `scanStep` finds, and then the callback part. -/
theorem scanTurn_eq (hbuf : buf.length < 2 ^ 64) {st : ScanState σ}
    (hoffset : st.offset < buf.length) :
    scanTurn env buf start st =
      match scanStep env.encrypted (buf.drop st.offset) st.offset with
      | .footer f => some (.error (.done { st with
          footer := f
          committedEnd := st.offset + segmentFooterSize
          offset := st.offset + segmentFooterSize }))
      | .stop => some (.error (.done st))
      | .corrupt => some (.error (.failed (-1) (some .eio) st.ctx))
      | .frame info =>
        match deliverFrameAt env buf start st.offset info st.frameIndex st.ctx with
        | none => none
        | some .stop => some (.error (.done st))
        | some (.failed rv errno ctx) => some (.error (.failed rv errno ctx))
        | some (.ok ctx) =>
          if env.encrypted && st.frameIndex == 0xffffffffffffffff then
            some (.error (.failed (-1) (some .eoverflow) ctx))
          else some (.ok (ScanState.pass st info ctx)) := by
  unfold scanTurn
  rw [if_pos hoffset, scanStepAt_eq (Nat.le_of_lt hoffset) hbuf]
  simp only [Option.bind_eq_bind, Option.bind_some]
  cases hstep : scanStep env.encrypted (buf.drop st.offset) st.offset with
  | footer f => rfl
  | stop => rfl
  | corrupt => rfl
  | frame info =>
    simp only
    cases deliverFrameAt env buf start st.offset info st.frameIndex st.ctx with
    | none => rfl
    | some delivery =>
      cases delivery with
      | stop => rfl
      | failed rv errno ctx => rfl
      | ok ctx =>
        simp only [Option.bind_some]
        have hlen := (frameLen_ge_of_scanStep hstep).2
        rw [List.length_drop] at hlen
        have hsum : sizeT 64 (st.offset + info.frameLen.toNat) =
            st.offset + info.frameLen.toNat := sizeT_eq (by omega)
        rw [hsum]
        split <;> rfl

theorem scanTurn_of_end {st : ScanState σ} (hoffset : buf.length ≤ st.offset) :
    scanTurn env buf start st = some (.error (.done st)) := by
  unfold scanTurn
  rw [if_neg (Nat.not_lt.mpr hoffset)]

/-- A frame the loop goes on with lies in the buffer with all its parts. -/
theorem frame_room {encrypted : Bool} {offset : ℕ} {info : SegmentFrameInfo}
    (hoffset : offset < buf.length) (hbuf : buf.length < 2 ^ 64)
    (hstep : scanStep encrypted (buf.drop offset) offset = .frame info) :
    offset + lengthSum encrypted info ≤ buf.length := by
  have hat : scanStepAt 64 encrypted buf offset = some (.frame info) := by
    rw [scanStepAt_eq (Nat.le_of_lt hoffset) hbuf, hstep]
  exact (frame_inside (Nat.le_of_lt hoffset) hbuf hat).2

/-- A turn is a turn of the loop of the model without reads, which has the dictionary at hand. -/
theorem scanFrom_of_turn (hbuf : buf.length < 2 ^ 64) {st : ScanState σ}
    (hdict : dictionaryAt env.header buf start = some env.dict)
    {r : Except (ScanEnd σ) (ScanState σ)} (h : scanTurn env buf start st = some r) :
    scanFrom env buf st =
      match r with
      | .error e => e
      | .ok st' => scanFrom env buf st' := by
  by_cases hoffset : st.offset < buf.length
  · rw [scanTurn_eq hbuf hoffset] at h
    cases hstep : scanStep env.encrypted (buf.drop st.offset) st.offset with
    | footer f =>
      simp only [hstep, Option.some.injEq] at h
      subst h
      exact scanFrom_of_footer env buf st f hoffset hstep
    | stop =>
      simp only [hstep, Option.some.injEq] at h
      subst h
      exact scanFrom_of_stop env buf st hoffset hstep
    | corrupt =>
      simp only [hstep, Option.some.injEq] at h
      subst h
      exact scanFrom_of_corrupt env buf st hoffset hstep
    | frame info =>
      simp only [hstep, deliverFrameAt_eq env st.frameIndex st.ctx
        (frame_room hoffset hbuf hstep) (.inr hdict)] at h
      rw [scanFrom_of_frame env buf st info hoffset hstep]
      cases hdeliver : deliverFrame env (buf.drop st.offset) info st.frameIndex st.ctx with
      | stop =>
        simp only [hdeliver, Option.some.injEq] at h
        subst h
        rfl
      | failed rv errno ctx =>
        simp only [hdeliver, Option.some.injEq] at h
        subst h
        rfl
      | ok ctx =>
        simp only [hdeliver] at h
        simp only
        split at h
        · rename_i hlast
          cases h
          rw [if_pos hlast]
        · rename_i hlast
          cases h
          rw [if_neg hlast]
  · rw [scanTurn_of_end (Nat.not_lt.mp hoffset)] at h
    cases h
    exact scanFrom_of_end env buf st (Nat.not_lt.mp hoffset)

/-- What a turn that goes on has done. -/
theorem scanTurn_ok (hbuf : buf.length < 2 ^ 64) {st st' : ScanState σ}
    (h : scanTurn env buf start st = some (.ok st')) :
    ∃ info ctx, st.offset < buf.length ∧
      scanStep env.encrypted (buf.drop st.offset) st.offset = .frame info ∧
      deliverFrameAt env buf start st.offset info st.frameIndex st.ctx = some (.ok ctx) ∧
      st' = ScanState.pass st info ctx := by
  by_cases hoffset : st.offset < buf.length
  · rw [scanTurn_eq hbuf hoffset] at h
    split at h
    · cases h
    · cases h
    · cases h
    · rename_i info hstep
      split at h
      · cases h
      · cases h
      · cases h
      · rename_i ctx hdeliver
        split at h
        · cases h
        · cases h
          exact ⟨info, ctx, hoffset, hstep, hdeliver, rfl⟩
  · rw [scanTurn_of_end (Nat.not_lt.mp hoffset)] at h
    cases h

/-- A turn that ends the loop well leaves the committed end alone, or behind a footer. -/
theorem scanTurn_done (hbuf : buf.length < 2 ^ 64) {st st' : ScanState σ}
    (h : scanTurn env buf start st = some (.error (.done st'))) :
    st' = st ∨ st'.committedEnd = st.offset + segmentFooterSize ∧
      st.offset + segmentFooterSize ≤ buf.length := by
  by_cases hoffset : st.offset < buf.length
  · rw [scanTurn_eq hbuf hoffset] at h
    split at h
    · rename_i f hstep
      cases h
      have hfooter := (footerAt_eq_some_iff _ _).mp ((scanStep_eq_footer_iff _ _ _ _).mp hstep)
      have hlen := congrArg List.length hfooter.1
      rw [List.length_take, length_footerImage, List.length_drop] at hlen
      refine .inr ⟨rfl, ?_⟩
      simp only [segmentFooterSize]
      omega
    · cases h
      exact .inl rfl
    · cases h
    · split at h
      · cases h
      · cases h
        exact .inl rfl
      · cases h
      · split at h <;> cases h
  · rw [scanTurn_of_end (Nat.not_lt.mp hoffset)] at h
    cases h
    exact .inl rfl

/-- The states the loop comes to. -/
inductive LoopReaches (env : ScanEnv σ) (buf : Bytes) (start : ℕ) (ctx : σ) :
    ScanState σ → Prop
  | first : LoopReaches env buf start ctx (ScanState.start start ctx)
  | next {st st' : ScanState σ} (reached : LoopReaches env buf start ctx st)
    (turn : scanTurn env buf start st = some (.ok st')) : LoopReaches env buf start ctx st'

/-- Where the loop stands: at its committed end, behind a frame of at least twenty bytes for
each turn. -/
structure LoopPlace (buf : Bytes) (start : ℕ) (st : ScanState σ) : Prop where
  committed : st.committedEnd = st.offset
  inside : st.offset ≤ buf.length
  counted : start + 20 * st.frameIndex.toNat ≤ st.offset

theorem LoopReaches.place (hbuf : buf.length < 2 ^ 64) (hstart : start ≤ buf.length)
    {st : ScanState σ} (h : LoopReaches env buf start ctx st) : LoopPlace buf start st := by
  induction h with
  | first => exact ⟨rfl, hstart, Nat.le_refl _⟩
  | @next st st' reached turn ih =>
    obtain ⟨info, ctx', hlt, hstep, -, rfl⟩ := scanTurn_ok hbuf turn
    obtain ⟨h20, hlen⟩ := frameLen_ge_of_scanStep hstep
    rw [List.length_drop] at hlen
    have hcounted := ih.counted
    refine ⟨rfl, ?_, ?_⟩
    · show st.offset + info.frameLen.toNat ≤ buf.length
      omega
    · show start + 20 * (st.frameIndex + 1).toNat ≤ st.offset + info.frameLen.toNat
      have hindex : (st.frameIndex + 1).toNat ≤ st.frameIndex.toNat + 1 := by
        rw [UInt64.toNat_add]
        exact Nat.mod_le _ _
      omega

/-! ## Safety -/

/-- The loop on a buffer, from a start offset on: no turn reads outside of the buffer, every
turn that goes on advances by at least twenty bytes, some turn ends the loop, and the committed
end lies between the start and the end of the buffer, at every turn and behind the loop. -/
structure LoopSafe (env : ScanEnv σ) (buf : Bytes) (start : ℕ) (ctx : σ) : Prop where
  reads : ∀ st, LoopReaches env buf start ctx st → scanTurn env buf start st ≠ none
  advances : ∀ st st', LoopReaches env buf start ctx st →
    scanTurn env buf start st = some (.ok st') → st.offset + 20 ≤ st'.offset
  ends : ∃ st e, LoopReaches env buf start ctx st ∧ scanTurn env buf start st = some (.error e)
  within : ∀ st, LoopReaches env buf start ctx st →
    start ≤ st.committedEnd ∧ st.committedEnd ≤ buf.length
  committed : ∀ st st', LoopReaches env buf start ctx st →
    scanTurn env buf start st = some (.error (.done st')) →
    start ≤ st'.committedEnd ∧ st'.committedEnd ≤ buf.length

theorem scanTurn_advances (hbuf : buf.length < 2 ^ 64) {st st' : ScanState σ}
    (h : scanTurn env buf start st = some (.ok st')) : st.offset + 20 ≤ st'.offset := by
  obtain ⟨info, ctx', -, hstep, -, rfl⟩ := scanTurn_ok hbuf h
  have h20 := (frameLen_ge_of_scanStep hstep).1
  show st.offset + 20 ≤ st.offset + info.frameLen.toNat
  omega

/-- **The loop ends**, if its reads are safe. The measure is what is left of the buffer. -/
theorem loop_ends (hbuf : buf.length < 2 ^ 64) (hstart : start ≤ buf.length)
    (hreads : ∀ st, LoopReaches env buf start ctx st → scanTurn env buf start st ≠ none) :
    ∃ st e, LoopReaches env buf start ctx st ∧ scanTurn env buf start st = some (.error e) := by
  have hfrom : ∀ (n : ℕ) (st : ScanState σ), LoopReaches env buf start ctx st →
      buf.length - st.offset ≤ n →
      ∃ st e, LoopReaches env buf start ctx st ∧ scanTurn env buf start st = some (.error e) := by
    intro n
    induction n with
    | zero =>
      intro st hst hn
      exact ⟨st, _, hst, scanTurn_of_end (by omega)⟩
    | succ n ih =>
      intro st hst hn
      cases hturn : scanTurn env buf start st with
      | none => exact absurd hturn (hreads st hst)
      | some r =>
        cases r with
        | error e => exact ⟨st, e, hst, hturn⟩
        | ok st' =>
          have hadvance := scanTurn_advances hbuf hturn
          have hinside := ((hst.next hturn).place hbuf hstart).inside
          exact ih st' (hst.next hturn) (by omega)
  exact hfrom _ _ .first (Nat.le_refl _)

/-- All but the reads is so in any case. -/
theorem loopSafe_iff (hbuf : buf.length < 2 ^ 64) (hstart : start ≤ buf.length) :
    LoopSafe env buf start ctx ↔
      ∀ st, LoopReaches env buf start ctx st → scanTurn env buf start st ≠ none := by
  constructor
  · intro h
    exact h.reads
  · intro hreads
    have hwithin : ∀ st, LoopReaches env buf start ctx st →
        start ≤ st.committedEnd ∧ st.committedEnd ≤ buf.length := by
      intro st hst
      obtain ⟨hcommitted, hinside, hcounted⟩ := hst.place hbuf hstart
      omega
    refine ⟨hreads, fun st st' _ => scanTurn_advances hbuf, loop_ends hbuf hstart hreads, hwithin,
      fun st st' hst hdone => ?_⟩
    obtain ⟨hcommitted, hinside, hcounted⟩ := hst.place hbuf hstart
    cases scanTurn_done hbuf hdone with
    | inl heq =>
      rw [heq]
      exact hwithin st hst
    | inr hfooter => omega

end Loop

/-! ## The dictionary -/

/-- A frame the loop can come to and decompress: the frames in front of it and itself are short
enough to be decrypted where they are handed over. -/
inductive CompressedAhead (encrypted : Bool) (minFrameOffset : ℕ) (buf : Bytes) : ℕ → Prop
  | here {offset : ℕ} {info : SegmentFrameInfo} (lt : offset < buf.length)
    (step : scanStep encrypted (buf.drop offset) offset = .frame info)
    (handed : minFrameOffset ≤ offset) (short : encrypted → info.storedLen.toNat ≤ intMax)
    (compressed : info.flags &&& frameFlagZstd ≠ 0) :
    CompressedAhead encrypted minFrameOffset buf offset
  | next {offset : ℕ} {info : SegmentFrameInfo} (lt : offset < buf.length)
    (step : scanStep encrypted (buf.drop offset) offset = .frame info)
    (short : minFrameOffset ≤ offset → encrypted → info.storedLen.toNat ≤ intMax)
    (rest : CompressedAhead encrypted minFrameOffset buf (offset + info.frameLen.toNat)) :
    CompressedAhead encrypted minFrameOffset buf offset

/-- The dictionary is in the buffer, or nothing is decompressed with it. -/
def DictionarySafe (header : SegmentHeader) (minFrameOffset : ℕ) (buf : Bytes) (start : ℕ) :
    Prop :=
  header.dictLen.toNat ≤ start ∨ header.flags &&& flagHasStaticDict = 0 ∨ header.dictLen = 0 ∨
    ¬ CompressedAhead (isSealed header) minFrameOffset buf start

/-- The loop is safe for every key, cipher, decoder and callback, and without one. -/
def SafeForAll (header : SegmentHeader) (minFrameOffset : ℕ) (buf : Bytes) (start : ℕ) : Prop :=
  ∀ (σ : Type) (evp : EvpOps) (codec : CodecOps) (encryption : SegmentEncryptionInfo)
    (dek dict : Bytes) (cb : Option (FrameCb σ)) (ctx : σ),
    LoopSafe ⟨evp, codec, header, encryption, dek, dict, cb, minFrameOffset⟩ buf start ctx

section Dictionary

variable {header : SegmentHeader} {minFrameOffset : ℕ} {buf : Bytes} {start : ℕ}

/-- What a frame that was opened says about its length. -/
theorem short_of_openPayload {evp : EvpOps} {encrypted : Bool} {dek noncePrefix : Bytes}
    {frameIndex : UInt64} {info : SegmentFrameInfo} {offset : ℕ}
    (hroom : offset + lengthSum encrypted info ≤ buf.length)
    (hopen : (openPayload evp encrypted dek noncePrefix frameIndex info
      (buf.drop offset)).isSome) : encrypted → info.storedLen.toNat ≤ intMax := by
  intro henc
  simp only [lengthSum, segmentFrameHeaderSize] at hroom
  have hlen : (((buf.drop offset).drop 16).take info.storedLen.toNat).length =
      info.storedLen.toNat := by
    rw [List.length_take, List.length_drop, List.length_drop]
    omega
  unfold openPayload recorderCryptoAesGcmDecrypt lengthsFitEvp at hopen
  simp only [henc, if_true, segmentFrameHeaderSize, hlen] at hopen
  split at hopen
  · rename_i hfit
    rw [Bool.and_eq_true, decide_eq_true_eq, decide_eq_true_eq] at hfit
    exact hfit.2
  · cases hopen

/-- **A safe dictionary makes the loop safe.** -/
theorem safeForAll_of_dictionarySafe (hbuf : buf.length < 2 ^ 64) (hstart : start ≤ buf.length)
    (hdict : DictionarySafe header minFrameOffset buf start) :
    SafeForAll header minFrameOffset buf start := by
  intro σ evp codec encryption dek dict cb ctx
  set env : ScanEnv σ := ⟨evp, codec, header, encryption, dek, dict, cb, minFrameOffset⟩ with henv
  rw [loopSafe_iff hbuf hstart]
  intro st hst hnone
  by_cases hoffset : st.offset < buf.length
  · rw [scanTurn_eq hbuf hoffset] at hnone
    split at hnone
    · cases hnone
    · cases hnone
    · cases hnone
    · rename_i info hstep
      split at hnone
      · rename_i hdeliver
        have hroom := frame_room hoffset hbuf hstep
        have hat := fileOffset_of_scanStep hstep
        obtain ⟨hcb, hmin, hopen, ⟨hzstd, hflag, hlen⟩, houtside⟩ :=
          (deliverFrameAt_eq_none_iff env st.frameIndex st.ctx hroom).mp hdeliver
        rw [hat] at hmin
        -- the frame at hand can be reached from the start, and is compressed
        have hahead : CompressedAhead env.encrypted minFrameOffset buf st.offset :=
          .here hoffset hstep hmin (short_of_openPayload hroom hopen) hzstd
        have hback : ∀ {st'}, LoopReaches env buf start ctx st' →
            CompressedAhead env.encrypted minFrameOffset buf st'.offset →
            CompressedAhead env.encrypted minFrameOffset buf start := by
          intro st' hst'
          induction hst' with
          | first => exact id
          | @next st₁ st₂ reached turn ih =>
            intro hrest
            obtain ⟨info', ctx', hlt, hstep', hdeliver', rfl⟩ := scanTurn_ok hbuf turn
            refine ih (.next hlt hstep' (fun hle => ?_) hrest)
            have hroom' := frame_room hlt hbuf hstep'
            have hat' := fileOffset_of_scanStep hstep'
            have hopen' : (openPayload env.evp env.encrypted env.dek env.encryption.noncePrefix
                st₁.frameIndex info' (buf.drop st₁.offset)).isSome := by
              rw [Option.isSome_iff_ne_none]
              intro hclosed
              unfold deliverFrameAt at hdeliver'
              obtain ⟨cb', hcb'⟩ := Option.isSome_iff_exists.mp hcb
              rw [hcb'] at hdeliver'
              simp only [if_neg (show ¬ info'.fileOffset < env.minFrameOffset by
                rw [hat']; exact Nat.not_lt.mpr hle)] at hdeliver'
              rw [openPayloadAt_eq _ _ _ _ hroom', hclosed] at hdeliver'
              cases hdeliver'
            exact short_of_openPayload hroom' hopen'
        obtain hle | hplain | hzero | hno := hdict
        · rw [dictionaryAt_eq hstart hle] at houtside
          cases houtside
        · exact hflag hplain
        · exact hlen hzero
        · exact hno (hback hst hahead)
      · cases hnone
      · cases hnone
      · split at hnone <;> cases hnone
  · rw [scanTurn_of_end (Nat.not_lt.mp hoffset)] at hnone
    cases hnone

/-- A cipher and a decoder that take everything. -/
def openingEvp : EvpOps :=
  ⟨fun _ => none, fun _ => none, fun _ _ _ _ => none, fun _ _ _ ct _ => some ct⟩

def inflatingCodec : CodecOps := ⟨fun _ _ n => some (List.replicate n 0), fun _ _ => true⟩

/-- The loop with them, and with a callback that goes on. -/
def openingEnv (header : SegmentHeader) (minFrameOffset : ℕ) : ScanEnv Unit :=
  ⟨openingEvp, inflatingCodec, header, {}, [], [], some fun _ _ _ ctx => (0, ctx), minFrameOffset⟩

theorem openPayload_opening {encrypted : Bool} (frameIndex : UInt64) {info : SegmentFrameInfo}
    (p : Bytes) (hshort : encrypted → info.storedLen.toNat ≤ intMax) :
    openPayload openingEvp encrypted [] [] frameIndex info p =
      some ((p.drop segmentFrameHeaderSize).take info.storedLen.toNat) := by
  unfold openPayload
  cases encrypted with
  | false => rfl
  | true =>
    have hlen : ((p.drop segmentFrameHeaderSize).take info.storedLen.toNat).length ≤ intMax := by
      rw [List.length_take]
      exact (Nat.min_le_left _ _).trans (hshort rfl)
    have haad : (p.take segmentFrameHeaderSize).length ≤ intMax := by
      rw [List.length_take]
      exact (Nat.min_le_left _ _).trans (by decide)
    simp only [if_true, recorderCryptoAesGcmDecrypt, lengthsFitEvp, decide_eq_true hlen,
      decide_eq_true haad, Bool.and_self]
    rfl

theorem decompressPayload_inflating (header : SegmentHeader) (info : SegmentFrameInfo)
    (payload : Bytes) :
    (decompressPayload inflatingCodec header [] info payload).isSome := by
  unfold decompressPayload
  split
  · rfl
  · have hlen : (List.replicate info.uncompressedLen.toNat (0 : UInt8)).length ==
        info.uncompressedLen.toNat := by
      rw [List.length_replicate]
      exact beq_self_eq_true _
    simp only [inflatingCodec, ite_self, Option.filter_some, hlen, if_true]
    rfl

/-- With them every frame is handed over and the loop goes on. -/
theorem deliverFrame_opening {info : SegmentFrameInfo} (frameIndex : UInt64) (p : Bytes)
    (hshort : minFrameOffset ≤ info.fileOffset → isSealed header →
      info.storedLen.toNat ≤ intMax) :
    deliverFrame (openingEnv header minFrameOffset) p info frameIndex () = .ok () := by
  unfold deliverFrame openingEnv
  by_cases hmin : info.fileOffset < minFrameOffset
  · simp only [if_pos hmin]
  · obtain ⟨chunk, hchunk⟩ := Option.isSome_iff_exists.mp (decompressPayload_inflating header info
      ((p.drop segmentFrameHeaderSize).take info.storedLen.toNat))
    have hopen := openPayload_opening frameIndex p (hshort (Nat.not_lt.mp hmin))
    rw [isSealed] at hopen
    simp only [if_neg hmin, ScanEnv.encrypted, hopen, hchunk]
    rfl

theorem openingEnv_encrypted (header : SegmentHeader) (minFrameOffset : ℕ) :
    (openingEnv header minFrameOffset).encrypted = isSealed header :=
  rfl

/-- With the dictionary outside of the buffer a frame is still handed over, or not read at all. -/
theorem deliverFrameAt_opening {offset : ℕ} {info : SegmentFrameInfo} (frameIndex : UInt64)
    (hroom : offset + lengthSum (openingEnv header minFrameOffset).encrypted info ≤ buf.length)
    (hdict : dictionaryAt header buf start = none)
    (hshort : minFrameOffset ≤ info.fileOffset → isSealed header →
      info.storedLen.toNat ≤ intMax) :
    deliverFrameAt (openingEnv header minFrameOffset) buf start offset info frameIndex () = none ∨
      deliverFrameAt (openingEnv header minFrameOffset) buf start offset info frameIndex () =
        some (.ok ()) := by
  have hno : deliverFrameAt (openingEnv header minFrameOffset) buf start offset info frameIndex () =
      none ↔ _ := deliverFrameAt_eq_none_iff _ frameIndex () hroom
  by_cases huses : UsesDictionary header info
  · by_cases hmin : info.fileOffset < minFrameOffset
    · right
      unfold deliverFrameAt openingEnv
      simp only [if_pos hmin]
    · left
      have hle := Nat.not_lt.mp hmin
      have hopen := openPayload_opening frameIndex (buf.drop offset) (hshort hle)
      refine hno.mpr ⟨rfl, hle, ?_, huses, hdict⟩
      rw [openingEnv_encrypted]
      show (openPayload openingEvp (isSealed header) [] [] frameIndex info
        (buf.drop offset)).isSome
      rw [hopen]
      rfl
  · right
    rw [deliverFrameAt_eq (openingEnv header minFrameOffset) frameIndex () hroom (.inl huses),
      deliverFrame_opening frameIndex _ hshort]

/-- **A dictionary in front of the buffer is read** where a compressed frame lies ahead. The
induction is over the frames in front of it. -/
theorem not_safeForAll (hbuf : buf.length < 2 ^ 64) (hstart : start ≤ buf.length)
    (hdict : start < header.dictLen.toNat) (hflag : header.flags &&& flagHasStaticDict ≠ 0)
    (hlen : header.dictLen ≠ 0)
    (hahead : CompressedAhead (isSealed header) minFrameOffset buf start) :
    ¬ SafeForAll header minFrameOffset buf start := by
  intro hsafe
  have hreads : ∀ st, LoopReaches (openingEnv header minFrameOffset) buf start () st →
      scanTurn (openingEnv header minFrameOffset) buf start st ≠ none :=
    (hsafe Unit openingEvp inflatingCodec {} [] [] (some fun _ _ _ ctx => (0, ctx)) ()).reads
  have hno : dictionaryAt header buf start = none := dictionaryAt_eq_none hdict
  rw [← openingEnv_encrypted header minFrameOffset] at hahead
  have hread : ∀ {offset},
      CompressedAhead (openingEnv header minFrameOffset).encrypted minFrameOffset buf offset →
      ∀ st, LoopReaches (openingEnv header minFrameOffset) buf start () st →
        st.offset = offset → False := by
    intro offset hoffset
    induction hoffset with
    | @here offset info lt step handed short compressed =>
      rintro st hst rfl
      have hat := fileOffset_of_scanStep step
      have hroom := frame_room lt hbuf step
      have hopen := openPayload_opening st.frameIndex (buf.drop st.offset) short
      have hunread : deliverFrameAt (openingEnv header minFrameOffset) buf start st.offset info
          st.frameIndex st.ctx = none := by
        refine (deliverFrameAt_eq_none_iff _ st.frameIndex st.ctx hroom).mpr
          ⟨rfl, ?_, ?_, ⟨compressed, hflag, hlen⟩, hno⟩
        · rw [hat]
          exact handed
        · show (openPayload openingEvp (openingEnv header minFrameOffset).encrypted [] []
            st.frameIndex info (buf.drop st.offset)).isSome
          rw [hopen]
          rfl
      apply hreads st hst
      rw [scanTurn_eq hbuf lt, step]
      simp only [hunread]
    | @next offset info lt step short rest ih =>
      rintro st hst rfl
      have hat := fileOffset_of_scanStep step
      have hroom := frame_room lt hbuf step
      rw [← hat] at short
      have hturn : scanTurn (openingEnv header minFrameOffset) buf start st = _ :=
        scanTurn_eq hbuf lt
      rw [step] at hturn
      simp only at hturn
      obtain hunread | hok := deliverFrameAt_opening st.frameIndex hroom hno short
      · rw [hunread] at hturn
        exact hreads st hst hturn
      · rw [hok] at hturn
        obtain ⟨-, hinside, hcounted⟩ := hst.place hbuf hstart
        have hindex : (st.frameIndex == 0xffffffffffffffff) = false := by
          rw [beq_eq_false_iff_ne]
          intro heq
          rw [heq] at hcounted
          have hmax : (0xffffffffffffffff : UInt64).toNat = 2 ^ 64 - 1 := rfl
          omega
        simp only [hindex, Bool.and_false, Bool.false_eq_true, if_false] at hturn
        exact ih _ (hst.next hturn) rfl
  exact hread hahead _ .first rfl

/-- The dictionary is where the loop looks for it, or not looked for. -/
theorem safeForAll_iff (hbuf : buf.length < 2 ^ 64) (hstart : start ≤ buf.length) :
    SafeForAll header minFrameOffset buf start ↔
      DictionarySafe header minFrameOffset buf start := by
  constructor
  · intro hsafe
    by_contra hno
    simp only [DictionarySafe, not_or, not_not, Nat.not_le] at hno
    obtain ⟨hdict, hflag, hlen, hahead⟩ := hno
    exact not_safeForAll hbuf hstart hdict hflag hlen hahead hsafe
  · exact safeForAll_of_dictionarySafe hbuf hstart

end Dictionary

/-! ## The reader of single frames -/

section Reader

/-- What an open reader knows about its lengths: the metadata holds the dictionary, since its
length was read as a word of 32 bits. -/
theorem frameReader_lengths {evp : EvpOps} {file : Bytes} {decryptor : Bool}
    {reader : SegmentFrameReader}
    (hopen : segmentFrameReaderOpen evp file decryptor = some reader) :
    reader.file = file ∧ 152 ≤ file.length ∧ reader.dataOffset ≤ reader.metadata.length ∧
      reader.header.dictLen.toNat ≤ reader.dataOffset := by
  unfold segmentFrameReaderOpen at hopen
  split at hopen
  · cases hopen
  · rename_i metadata hmeta
    split at hopen
    · cases hopen
    · rename_i header dataOffset encryption hparse
      obtain ⟨hlimit, hfile, hmetadata⟩ := (readMetadata_iff _ _ _).mp ⟨hmeta, hparse⟩
      have hsmall : framesStart file < 2 ^ 32 := lt_of_le_of_lt hlimit (by decide)
      obtain ⟨⟨h152, hle, -⟩, rfl, hoffset⟩ := (segmentParseHeader_eq_some_iff _ _ _ _).mp hfile
      rw [Nat.mod_eq_of_lt hsmall] at hoffset
      have hlength : metadata.length = framesStart file := by
        rw [hmetadata, List.length_take]
        omega
      have hstart : framesStart file =
          headerSize file + (readHeaderFields file).dictLen.toNat := rfl
      have hlong : 152 ≤ file.length := by omega
      have hcovers : dataOffset ≤ metadata.length := by omega
      have hholds : (readHeaderFields file).dictLen.toNat ≤ dataOffset := by omega
      split at hopen
      · split at hopen
        · cases hopen
        · split at hopen
          · cases hopen
          · cases hopen
            exact ⟨rfl, hlong, hcovers, hholds⟩
      · cases hopen
        exact ⟨rfl, hlong, hcovers, hholds⟩

theorem lengthCheck_pass_iff_fit {encrypted : Bool} {info : SegmentFrameInfo} {rest : ℕ} :
    lengthCheck 64 encrypted rest info.storedLen info.frameLen = .pass ↔
      frameLengthsFit encrypted info rest = true := by
  have hsum : segmentFrameHeaderSize + info.storedLen.toNat + tagLen encrypted + 4 < 2 ^ 33 :=
    lengthSum_lt info.storedLen
  rw [lengthCheck_eq_pass_iff, sizeT_eq (by omega)]
  simp only [frameLengthsFit, Bool.not_eq_true', Bool.or_eq_false_iff, decide_eq_false_iff_not,
    bne_eq_false_iff_eq, not_lt, and_assoc, gt_iff_lt]

variable {σ : Type}

/-- **The reader of single frames reads inside of the file**, of the frame and of the metadata,
for every offset, and does what the model without reads does. -/
theorem frameReaderScanAt_eq {evp : EvpOps} {file : Bytes} {decryptor : Bool}
    {reader : SegmentFrameReader} (hopen : segmentFrameReaderOpen evp file decryptor = some reader)
    (hfile : file.length < 2 ^ 64) (codec : CodecOps) (cb : FrameCb σ) (ctx : σ) (fileOffset : ℕ)
    (frameIndex : UInt64) :
    frameReaderScanAt evp codec reader cb ctx fileOffset frameIndex =
      some (segmentFrameReaderScan evp codec reader cb ctx fileOffset frameIndex) := by
  obtain ⟨rfl, h152, hdata, hdict⟩ := frameReader_lengths hopen
  have hsize : sizeSub 64 (sizeSub 64 reader.file.length segmentFrameHeaderSize) 4 =
      reader.file.length - segmentFrameHeaderSize - 4 := by
    simp only [segmentFrameHeaderSize]
    rw [sizeSub_eq (a := reader.file.length) (by omega) hfile, sizeSub_eq (by omega) (by omega)]
  unfold frameReaderScanAt segmentFrameReaderScan
  simp only [hsize, Bool.or_eq_true, decide_eq_true_eq]
  by_cases houtside : fileOffset < reader.dataOffset ∨
      fileOffset > reader.file.length - segmentFrameHeaderSize - 4
  · rw [if_pos houtside, if_pos houtside]
  · rw [if_neg houtside, if_neg houtside]
    simp only [segmentFrameHeaderSize, not_or, not_lt, gt_iff_lt] at houtside
    have hfits : fileOffset ≤ reader.file.length := by omega
    have hhead : ((reader.file.drop fileOffset).take segmentFrameHeaderSize).length = 16 := by
      rw [List.length_take, List.length_drop]
      simp only [segmentFrameHeaderSize]
      omega
    have hread : preadExact reader.file segmentFrameHeaderSize fileOffset =
        some ((reader.file.drop fileOffset).take segmentFrameHeaderSize) :=
      (preadExact_eq_some_iff _ _ _ _).mpr
        ⟨by decide, by simp only [segmentFrameHeaderSize]; omega, rfl⟩
    rw [hread]
    rw [loadBytes_eq (by simp only [segmentFrameHeaderSize]; omega), sizeSub_eq hfits hfile]
    simp only [Option.bind_eq_bind, Option.bind_some]
    generalize (reader.file.drop fileOffset).take segmentFrameHeaderSize = head at hhead
    rw [loadU32_eq (by omega), loadU32_eq (by omega), loadU32_eq (by omega),
      loadU32_eq (by omega)]
    simp only [Option.bind_some]
    have hinfo : (⟨readU32Le (head.drop 0), readU32Le (head.drop 4), readU32Le (head.drop 8),
        fileOffset, readU32Le (head.drop 12)⟩ : SegmentFrameInfo) =
          frameInfoAt head fileOffset := rfl
    have hstored : readU32Le (head.drop 4) = (frameInfoAt head fileOffset).storedLen := rfl
    have htotal : readU32Le (head.drop 12) = (frameInfoAt head fileOffset).frameLen := rfl
    rw [hinfo, hstored, htotal]
    generalize frameInfoAt head fileOffset = info
    by_cases hfit : frameLengthsFit reader.encrypted info (reader.file.length - fileOffset) = true
    · have hpass := lengthCheck_pass_iff_fit.mpr hfit
      rw [if_neg (not_not.mpr hpass), hfit, Bool.not_true, if_neg Bool.false_ne_true]
      have hsum : segmentFrameHeaderSize + info.storedLen.toNat + tagLen reader.encrypted + 4 <
          2 ^ 33 := lengthSum_lt info.storedLen
      rw [lengthCheck_eq_pass_iff, sizeT_eq (by omega)] at hpass
      obtain ⟨-, hlen, hrest⟩ := hpass
      have htaken : ((reader.file.drop fileOffset).take info.frameLen.toNat).length =
          info.frameLen.toNat := by
        rw [List.length_take, List.length_drop]
        omega
      by_cases hlong : info.frameLen.toNat > preadLimit
      · rw [if_pos hlong, preadExact_eq_none_of_long hlong]
        rfl
      have hframe : preadExact reader.file info.frameLen.toNat fileOffset =
          some ((reader.file.drop fileOffset).take info.frameLen.toNat) :=
        (preadExact_eq_some_iff _ _ _ _).mpr ⟨Nat.le_of_not_lt hlong, by omega, rfl⟩
      rw [if_neg hlong, hframe, loadBytes_eq (by omega), Option.bind_some]
      -- the frame is in a buffer of its own from here on
      generalize (reader.file.drop fileOffset).take info.frameLen.toNat = frameBytes at htaken ⊢
      have hroom : 0 + lengthSum reader.encrypted info ≤ frameBytes.length := by
        rw [lengthSum]
        omega
      rw [frameCrcAt_eq (by rwa [lengthSum] at hroom), openPayloadAt_eq _ _ _ _ hroom,
        dictionaryAt_eq hdata hdict]
      simp only [List.drop_zero, decompressPayloadAt_some, Option.bind_some]
      cases frameCrcMatches reader.encrypted frameBytes info.storedLen.toNat with
      | false =>
        simp only [Bool.not_false, if_true]
        cases reader.encrypted <;> rfl
      | true =>
        simp only [Bool.not_true, Bool.false_eq_true, if_false]
        cases openPayload evp reader.encrypted reader.dek reader.encryption.noncePrefix frameIndex
          info frameBytes with
        | none => rfl
        | some payload =>
          simp only
          cases decompressPayload codec reader.header _ info payload with
          | none => rfl
          | some chunk =>
            simp only
            split <;> rfl
    · have hfail : ¬ lengthCheck 64 reader.encrypted (reader.file.length - fileOffset)
          info.storedLen info.frameLen = .pass := fun h => hfit (lengthCheck_pass_iff_fit.mp h)
      rw [Bool.not_eq_true] at hfit
      rw [if_pos hfail, hfit, Bool.not_false, if_pos rfl]
      rfl

end Reader

/-! ## The result -/

/-- The dictionary of a header that was accepted lies in front of the frames, unless the two
lengths in the header add up to `2^32`. -/
theorem dictionary_inside_iff {buf : Bytes} {header : SegmentHeader} {start : ℕ}
    {encryption : SegmentEncryptionInfo}
    (hparse : segmentParseHeader buf = some (header, start, encryption)) :
    header.dictLen.toNat ≤ start ↔ framesStart buf < 2 ^ 32 := by
  obtain ⟨⟨h152, -⟩, rfl, rfl⟩ := (segmentParseHeader_eq_some_iff _ _ _ _).mp hparse
  have hsize : headerSize buf < 2 ^ 32 := (readU32Le (buf.drop 12)).toNat_lt
  have hdict := (readHeaderFields buf).dictLen.toNat_lt
  have hstart : framesStart buf = headerSize buf + (readHeaderFields buf).dictLen.toNat := rfl
  omega

/-- **The frame loop is safe**, for any buffer and start, exactly where the dictionary is in
front of the start or nothing is decompressed with it; the reader of single frames is in any
case.
SOURCE: segment.c:582-722, 867-910 -/
theorem frame_loop_safe_iff (header : SegmentHeader) (minFrameOffset : ℕ) {buf : Bytes} {start : ℕ}
    (hbuf : buf.length < 2 ^ 64) (hstart : start ≤ buf.length) :
    (SafeForAll header minFrameOffset buf start ↔
      DictionarySafe header minFrameOffset buf start) ∧
    ∀ (σ : Type) (evp : EvpOps) (codec : CodecOps) (decryptor : Bool)
      (reader : SegmentFrameReader) (cb : FrameCb σ) (ctx : σ) (fileOffset : ℕ)
      (frameIndex : UInt64), segmentFrameReaderOpen evp buf decryptor = some reader →
      frameReaderScanAt evp codec reader cb ctx fileOffset frameIndex =
        some (segmentFrameReaderScan evp codec reader cb ctx fileOffset frameIndex) :=
  ⟨safeForAll_iff hbuf hstart, fun _ _ codec _ _ cb ctx fileOffset frameIndex hopen =>
    frameReaderScanAt_eq hopen hbuf codec cb ctx fileOffset frameIndex⟩

/-- A segment of one frame, read with both: the reader of single frames hands its payload over. -/
theorem frame_loop_safe_iff_one_frame :
    SafeForAll { plainHeader with dictLen := 2 } 0 oneFrameFile 154 ∧
      ∃ reader, segmentFrameReaderOpen noEvp oneFrameFile false = some reader ∧
        frameReaderScanAt noEvp takingCodec reader (fun _ _ chunk _ => (0, chunk)) [] 154 0 =
          some (0, [1, 2, 3]) := by
  have hbuf : oneFrameFile.length < 2 ^ 64 := by
    rw [length_oneFrameFile]
    decide
  obtain ⟨hsafe, hreader⟩ := frame_loop_safe_iff { plainHeader with dictLen := 2 } 0
    hbuf (show 154 ≤ oneFrameFile.length by rw [length_oneFrameFile]; decide)
  obtain ⟨reader, hopen⟩ : ∃ reader, segmentFrameReaderOpen noEvp oneFrameFile false =
      some reader := Option.isSome_iff_exists.mp (by decide +kernel)
  refine ⟨hsafe.mpr (.inl (by decide)), reader, hopen, ?_⟩
  rw [hreader Bytes noEvp takingCodec false reader (fun _ _ chunk _ => (0, chunk)) [] 154 0 hopen]
  have hread : frameReaderRead noEvp takingCodec oneFrameFile false
      (fun _ _ chunk _ => (0, chunk)) [] 154 0 = (0, [1, 2, 3]) := by
    decide +kernel
  rw [frameReaderRead, hopen] at hread
  exact congrArg some hread

/-- **A dictionary in front of the buffer**: the data offset has wrapped, a frame lies behind
it, and the decoder is given the address of a dictionary that starts before the mapping. -/
theorem dictionary_before_buffer :
    ∃ (file : Bytes) (header : SegmentHeader), segmentParseHeader file = some (header, 64, {}) ∧
      file.length = 2 ^ 32 + 64 ∧ ¬ SafeForAll header 0 file 64 := by
  obtain ⟨file, header, hparse, hflags, hdict, hlength, -, hstep⟩ := zone_file true
  have hflag : header.flags &&& flagHasStaticDict ≠ 0 := by
    rw [hflags]
    decide
  have hplain : isSealed header = false := by
    rw [isSealed, hflags]
    decide
  have hlen : header.dictLen ≠ 0 := by
    intro hzero
    rw [hzero] at hdict
    exact absurd hdict (by decide)
  refine ⟨file, header, hparse, hlength, ?_⟩
  refine not_safeForAll (by omega) (by omega) (by omega) hflag hlen ?_
  rw [hplain]
  exact .here (by omega) hstep (Nat.zero_le _) (fun h => nomatch h) (by decide)

end Recorder.Analysis
