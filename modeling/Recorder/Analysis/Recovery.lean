import Recorder.Analysis.SegmentTruncate
import Recorder.Model.Recovery

/-!
# Startup recovery and committed frames

What recovery does to a segment file that holds committed frames and an arbitrary tail
(`CommittedFile`). A plain segment is truncated behind its last frame, whatever the tail
is. The loop over an encrypted segment has error exits instead, so recovery removes the
whole segment unless its tail is one of those the loop stops at quietly (`EncryptedTail`):
fewer than 36 bytes, a footer, or the beginning of a frame whose length fields are intact.
A file that cannot be mapped is removed too, and so is what lies behind a data offset the
parser wrapped. `recovery_preserves_iff` states all of this at once.
-/

set_option autoImplicit false

namespace Recorder.Analysis

open Recorder.Model

/-! ## Tails of encrypted segments -/

/-- Whether the header of a file marks an encrypted segment. -/
def isEncrypted (content : Bytes) : Bool :=
  (readHeaderFields content).flags &&& flagEncrypted != 0

/-- The beginning of a frame of an encrypted segment: its length fields agree and its end
is missing. -/
def CutFrame (p : Bytes) : Prop :=
  (readU32Le (p.drop 12)).toNat = 36 + (readU32Le (p.drop 4)).toNat ∧
    p.length < (readU32Le (p.drop 12)).toNat

/-- The tails of an encrypted segment that the frame loop gets through without an error. -/
inductive EncryptedTail : Bytes → Prop
  | short (p : Bytes) (h : p.length < 36) : EncryptedTail p
  | footer (p : Bytes) (h : FooterImage p) : EncryptedTail p
  | cut (p : Bytes) (h : CutFrame p) : EncryptedTail p
  | frame (bs rest : Bytes) (hframe : IsFrame true bs) (h : EncryptedTail rest) :
      EncryptedTail (bs ++ rest)

/-- INTERNAL: where the loop stops quietly in an encrypted segment.
SOURCE: segment.c:612-634 -/
theorem scanStep_encrypted_eq_stop_iff (p : Bytes) (offset : ℕ) :
    scanStep true p offset = .stop ↔ ¬ FooterImage p ∧ (p.length < 36 ∨ CutFrame p) := by
  unfold scanStep CutFrame
  rw [← footerAt_eq_none_iff]
  cases footerAt p with
  | some g => simp
  | none =>
    have h12 := (readU32Le (p.drop 12)).toNat_lt
    simp only [tagLen, if_true, frameInfoAt, segmentFrameHeaderSize, gcmTagSize, uint32Max,
      true_and]
    split
    · rename_i hshort
      simp only [true_iff]
      exact .inl (by omega)
    · rename_i hlong
      split
      · rename_i hlens
        simp only [Bool.or_eq_true, decide_eq_true_eq, bne_iff_ne] at hlens
        simp only [reduceCtorEq, false_iff]
        omega
      · rename_i hlens
        simp only [Bool.or_eq_true, decide_eq_true_eq, bne_iff_ne, not_or, not_not] at hlens
        split
        · rename_i hcut
          simp only [true_iff]
          exact .inr ⟨by omega, by omega⟩
        · rename_i hwhole
          have hno : ¬ (p.length < 36 ∨ (readU32Le (p.drop 12)).toNat =
              36 + (readU32Le (p.drop 4)).toNat ∧ p.length < (readU32Le (p.drop 12)).toNat) := by
            omega
          simp only [hno, iff_false]
          split <;> simp

variable {σ : Type}

/-- A metadata scan of a plain segment never fails.
SOURCE: segment.c:582-722 -/
theorem scanFrom_plain_done (env : ScanEnv σ) (hcb : env.cb = none) (buf : Bytes)
    (hplain : env.encrypted = false) : ∀ st, ∃ st', scanFrom env buf st = .done st' := by
  intro st
  refine scanFrom_induction env buf
    (motive := fun st => ∃ st', scanFrom env buf st = .done st') ?_ st
  intro st ih
  by_cases hlt : st.offset < buf.length
  · cases hs : scanStep env.encrypted (buf.drop st.offset) st.offset with
    | footer f => exact ⟨_, scanFrom_of_footer env buf st f hlt hs⟩
    | stop => exact ⟨_, scanFrom_of_stop env buf st hlt hs⟩
    | corrupt =>
      rw [hplain] at hs
      exact absurd hs (scanStep_plain_ne_corrupt _ _)
    | frame info =>
      rw [scanFrom_of_frame env buf st info hlt hs]
      simp only [deliverFrame, hcb, hplain, Bool.false_and, Bool.false_eq_true, if_false]
      exact ih info st.ctx hlt hs
  · exact ⟨st, scanFrom_of_end env buf st (by omega)⟩

/-- INTERNAL: the loop ends at once at a footer image, at a short rest and at a cut
frame. -/
theorem scanFrom_encrypted_quiet (env : ScanEnv σ) (henc : env.encrypted = true) (buf : Bytes)
    (st : ScanState σ) (h : FooterImage (buf.drop st.offset) ∨ (buf.drop st.offset).length < 36 ∨
      CutFrame (buf.drop st.offset)) : ∃ st', scanFrom env buf st = .done st' := by
  by_cases hlt : st.offset < buf.length
  · by_cases hf : FooterImage (buf.drop st.offset)
    · obtain ⟨f, hf⟩ := hf
      have hstep : scanStep env.encrypted (buf.drop st.offset) st.offset =
          .footer { f with present := true } := by
        rw [scanStep_eq_footer_iff]
        exact (footerAt_eq_some_iff _ _).mpr ⟨hf, rfl⟩
      exact ⟨_, scanFrom_of_footer env buf st _ hlt hstep⟩
    · have hstep : scanStep env.encrypted (buf.drop st.offset) st.offset = .stop := by
        rw [henc]
        exact (scanStep_encrypted_eq_stop_iff _ _).mpr ⟨hf, h.resolve_left hf⟩
      exact ⟨_, scanFrom_of_stop env buf st hlt hstep⟩
  · exact ⟨st, scanFrom_of_end env buf st (by omega)⟩

/-- A metadata scan of an encrypted segment gets through an `EncryptedTail`.
SOURCE: segment.c:582-722 -/
theorem scanFrom_encrypted_done (env : ScanEnv σ) (hcb : env.cb = none)
    (henc : env.encrypted = true) (buf : Bytes) {p : Bytes} (htail : EncryptedTail p) :
    ∀ st : ScanState σ, buf.drop st.offset = p →
      st.frameIndex.toNat + (buf.length - st.offset) < 2 ^ 64 →
      ∃ st', scanFrom env buf st = .done st' := by
  induction htail with
  | short p h =>
    rintro st rfl -
    exact scanFrom_encrypted_quiet env henc buf st (.inr (.inl h))
  | footer p h =>
    rintro st rfl -
    exact scanFrom_encrypted_quiet env henc buf st (.inl h)
  | cut p h =>
    rintro st rfl -
    exact scanFrom_encrypted_quiet env henc buf st (.inr (.inr h))
  | frame bs rest hframe _ ih =>
    intro st hp hroom
    by_cases hf : FooterImage (buf.drop st.offset)
    · exact scanFrom_encrypted_quiet env henc buf st (.inl hf)
    · have hle := hframe.le_length
      have hlen := congrArg List.length hp
      simp only [List.length_drop, List.length_append] at hlen
      have hstep : scanStep env.encrypted (buf.drop st.offset) st.offset =
          .frame (frameInfoAt bs st.offset) := by
        rw [henc, hp]
        exact scanStep_of_isFrame _ _ hframe ((footerAt_eq_none_iff _).mpr (hp ▸ hf))
      have hfl : (frameInfoAt bs st.offset).frameLen.toNat = bs.length := hframe.frameLen_eq
      have hidx : env.encrypted = true → st.frameIndex.toNat + (0 + 1) < 2 ^ 64 := fun _ => by
        omega
      have hcount := frameIndex_add_one _ (frameIndex_ne_max st.frameIndex 0 (hidx henc))
      rw [scanFrom_of_frame env buf st _ (by omega) hstep]
      simp only [deliverFrame, hcb, scanCounter_ok env st 0 hidx, Bool.false_eq_true, if_false]
      refine ih (ScanState.pass st (frameInfoAt bs st.offset) st.ctx) ?_ ?_
      · simp only [ScanState.pass, hfl]
        rw [← List.drop_drop, hp, List.drop_left]
      · simp only [ScanState.pass, hfl]
        omega

/-- A metadata scan gets through no other tail of an encrypted segment.
SOURCE: segment.c:582-722 -/
theorem encryptedTail_of_done (env : ScanEnv σ) (hcb : env.cb = none)
    (henc : env.encrypted = true) (buf : Bytes) (st' : ScanState σ) :
    ∀ st, scanFrom env buf st = .done st' → EncryptedTail (buf.drop st.offset) := by
  refine scanFrom_done_induction (motive := fun st => EncryptedTail (buf.drop st.offset))
    env hcb buf st' ?_ ?_ ?_ ?_
  · rintro st hle -
    exact .short _ (by rw [List.length_drop]; omega)
  · rintro st f - hs -
    have hf := (footerAt_eq_some_iff _ _).mp ((scanStep_eq_footer_iff _ _ _ _).mp hs)
    exact .footer _ ⟨f, hf.1⟩
  · rintro st - hs -
    rw [henc] at hs
    rcases ((scanStep_encrypted_eq_stop_iff _ _).mp hs).2 with h | h
    · exact .short _ h
    · exact .cut _ h
  · rintro st info - hs - - ih
    rw [henc] at hs
    obtain ⟨-, -, -, hframe⟩ := (scanStep_eq_frame_iff _ _ _ _).mp hs
    simp only [ScanState.pass, ← List.drop_drop] at ih
    have := EncryptedTail.frame _ _ hframe ih
    rwa [List.take_append_drop] at this

/-! ## Files with committed frames -/

/-- A segment file with committed frames: an accepted header, its dictionary, whole frames
of which none looks like a footer, and any tail. File sizes are `off_t` values. -/
structure CommittedFile (content : Bytes) (images : List Bytes) (tail : Bytes) : Prop where
  accepted : (segmentParseHeader content).isSome = true
  frames_eq : content.drop (framesStart content) = images.flatten ++ tail
  isFrame : ∀ bs ∈ images, IsFrame (isEncrypted content) bs
  noFooter : NoFooterImages images tail
  length_lt : content.length < 2 ^ 63

/-- INTERNAL: frames are not empty, so there are at most as many as bytes. -/
theorem length_le_length_flatten {encrypted : Bool} (images : List Bytes)
    (h : ∀ bs ∈ images, IsFrame encrypted bs) : images.length ≤ images.flatten.length := by
  induction images with
  | nil => simp
  | cons bs images ih =>
    have hbs := (h bs (by simp)).le_length
    have := ih fun b hb => h b (by simp [hb])
    simp only [List.length_cons, List.flatten_cons, List.length_append]
    omega

section Committed

variable {content : Bytes} {images : List Bytes} {tail : Bytes}

/-- INTERNAL: the header of a committed file. -/
theorem CommittedFile.parse (h : CommittedFile content images tail) :
    ∃ info, segmentParseHeader content =
      some (readHeaderFields content, framesStart content % 2 ^ 32, info) := by
  obtain ⟨⟨header, offset, info⟩, hp⟩ := Option.isSome_iff_exists.mp h.accepted
  obtain ⟨-, rfl, rfl⟩ := (segmentParseHeader_eq_some_iff _ _ _ _).mp hp
  exact ⟨info, hp⟩

/-- INTERNAL: the frames and the tail fill the file. -/
theorem CommittedFile.length_eq (h : CommittedFile content images tail) :
    content.length = framesStart content + images.flatten.length + tail.length := by
  obtain ⟨info, hp⟩ := h.parse
  obtain ⟨⟨-, hstart, -⟩, -⟩ := (segmentParseHeader_eq_some_iff _ _ _ _).mp hp
  have := congrArg List.length h.frames_eq
  simp only [List.length_drop, List.length_append] at this
  omega

/-- INTERNAL: a metadata scan from the first frame reaches the tail. -/
theorem CommittedFile.scanFrom_eq (h : CommittedFile content images tail) (evp : EvpOps)
    (codec : CodecOps) (info : SegmentEncryptionInfo) :
    let env := metadataEnv evp codec content (readHeaderFields content) (framesStart content) info
    scanFrom env content (ScanState.start (framesStart content) ()) =
      scanFrom env content
        (ScanState.passAll (ScanState.start (framesStart content) ()) images ()) := by
  have hcount := length_le_length_flatten images h.isFrame
  have hlen := h.length_eq
  have hlt := h.length_lt
  refine scanFrom_frames _ content tail images _ () h.frames_eq rfl h.isFrame h.noFooter ?_
    (deliverAll_of_no_cb _ rfl _ _ _ _)
  intro _
  simp only [ScanState.start, UInt64.toNat_zero]
  omega

/-- INTERNAL: behind the frames of a committed file comes its tail. -/
theorem CommittedFile.drop_passAll (h : CommittedFile content images tail) :
    content.drop (ScanState.passAll (ScanState.start (framesStart content) ()) images ()).offset =
      tail := by
  simp only [ScanState.passAll, ScanState.start]
  rw [← List.drop_drop, h.frames_eq, List.drop_left]

/-- **What a metadata scan makes of a committed file** whose data offset did not wrap: it
succeeds exactly when the segment is plain or the tail is an `EncryptedTail`, and then
reports every committed frame and an end behind them. -/
theorem CommittedFile.metadataScan_ok_iff (h : CommittedFile content images tail) (evp : EvpOps)
    (codec : CodecOps) (hsmall : framesStart content < 2 ^ 32) :
    (∃ out, metadataScan evp codec content = .ok out) ↔
      (isEncrypted content = true → EncryptedTail tail) := by
  obtain ⟨info, hp⟩ := h.parse
  rw [Nat.mod_eq_of_lt hsmall] at hp
  have heq := h.scanFrom_eq evp codec info
  set env := metadataEnv evp codec content (readHeaderFields content) (framesStart content) info
    with henv
  have henc : env.encrypted = isEncrypted content := rfl
  constructor
  · rintro ⟨out, hout⟩ hcrypt
    obtain ⟨_, _, _, st', hp', hscan, -⟩ := (metadataScan_eq_ok_iff _ _ _ _).mp hout
    rw [hp] at hp'
    obtain ⟨rfl, rfl, rfl⟩ := hp'
    have := encryptedTail_of_done env rfl (henc.trans hcrypt) content st' _
      (heq.symm.trans hscan)
    rwa [h.drop_passAll] at this
  · intro htail
    obtain ⟨st', hst'⟩ : ∃ st', scanFrom env content
        (ScanState.start (framesStart content) ()) = .done st' := by
      rw [heq]
      cases hcrypt : isEncrypted content with
      | false => exact scanFrom_plain_done env rfl content (henc.trans hcrypt) _
      | true =>
        refine scanFrom_encrypted_done env rfl (henc.trans hcrypt) content (htail hcrypt) _
          h.drop_passAll ?_
        have hcount := length_le_length_flatten images h.isFrame
        have hlen := h.length_eq
        have hlt := h.length_lt
        simp only [ScanState.passAll, ScanState.start, UInt64.zero_add, UInt64.toNat_ofNat']
        omega
    exact ⟨_, (metadataScan_eq_ok_iff _ _ _ _).mpr ⟨_, _, _, st', hp, hst', rfl⟩⟩

/-- The committed frames are among those the scan reports, and lie in front of the end it
reports. -/
theorem CommittedFile.frames_prefix (h : CommittedFile content images tail) (evp : EvpOps)
    (codec : CodecOps) (hsmall : framesStart content < 2 ^ 32) {out : ScanOut}
    (hout : metadataScan evp codec content = .ok out) :
    frameInfos (framesStart content) images <+: out.frames ∧
      framesStart content + images.flatten.length ≤ out.committedEnd := by
  obtain ⟨info, hp⟩ := h.parse
  rw [Nat.mod_eq_of_lt hsmall] at hp
  obtain ⟨_, _, _, st', hp', hscan, rfl⟩ := (metadataScan_eq_ok_iff _ _ _ _).mp hout
  rw [hp] at hp'
  obtain ⟨rfl, rfl, rfl⟩ := hp'
  have hpass := (h.scanFrom_eq evp codec info).symm.trans hscan
  obtain ⟨rest, hrest⟩ := scanFrom_grows _ rfl content st' _ hpass
  refine ⟨⟨rest, ?_⟩, ?_⟩
  · rw [hrest]
    simp [ScanState.passAll, ScanState.start]
  · exact scanFrom_committedEnd_ge _ rfl content st' _ hpass rfl

end Committed

/-! ## Recovery -/

/-- What startup recovery owes a file with committed frames: it stays in place, is cut at
most behind the last committed frame, and a metadata scan still reports every frame. -/
def Preserved (evp : EvpOps) (codec : CodecOps) (io : RecoveryIo) (indexOk : Bool)
    (content : Bytes) (images : List Bytes) : Prop :=
  ∃ c, (recoverSegmentFile evp codec io indexOk content).content = some c ∧ c <+: content ∧
    framesStart content + images.flatten.length ≤ c.length ∧
    ∃ out, metadataScan evp codec c = .ok out ∧
      frameInfos (framesStart content) images <+: out.frames

/-- When recovery keeps a file: the sum of header size and dictionary length fits 32 bits,
the tail of an encrypted segment is an `EncryptedTail`, and the file can be mapped (or at
least not be unlinked). -/
structure Recoverable (io : RecoveryIo) (content tail : Bytes) : Prop where
  start_lt : framesStart content < 2 ^ 32
  tail : isEncrypted content = true → EncryptedTail tail
  io : io.statOk = true → io.mapOk = false → io.unlinkOk = false

section Recovery

variable {content : Bytes} {images : List Bytes} {tail : Bytes}

/-- INTERNAL: a file recovery tried to remove is still there only if `unlink` failed. -/
theorem remove_content_eq_some {io : RecoveryIo} {c : Bytes}
    (h : (RecoveredFile.remove io content).content = some c) :
    c = content ∧ io.unlinkOk = false := by
  simp only [RecoveredFile.remove] at h
  split at h
  · cases h
  · rename_i hunlink
    exact ⟨(Option.some.inj h).symm, by simpa using hunlink⟩

/-- What recovery leaves in place of a file is the file itself, or the file cut at the
committed end a successful scan reported.
SOURCE: recorder.c:2222-2277 -/
theorem recoverSegmentFile_content {evp : EvpOps} {codec : CodecOps} {io : RecoveryIo}
    {indexOk : Bool} {c : Bytes}
    (h : (recoverSegmentFile evp codec io indexOk content).content = some c) :
    c = content ∧ (io.statOk = true → io.mapOk = false → io.unlinkOk = false) ∨
      ∃ out, metadataScan evp codec content = .ok out ∧ io.mapOk = true ∧
        c = content.take out.committedEnd ∧ out.committedEnd < content.length := by
  unfold recoverSegmentFile at h
  split at h
  · rename_i hstat
    exact .inl ⟨(Option.some.inj h).symm, by simp_all⟩
  · split at h
    · obtain ⟨hc, hunlink⟩ := remove_content_eq_some h
      exact .inl ⟨hc, fun _ _ => hunlink⟩
    · split at h
      · obtain ⟨hc, hunlink⟩ := remove_content_eq_some h
        exact .inl ⟨hc, fun _ _ => hunlink⟩
      · rename_i hmap
        cases hout : metadataScan evp codec content with
        | error e =>
          rw [hout] at h
          obtain ⟨hc, hunlink⟩ := remove_content_eq_some h
          exact .inl ⟨hc, fun _ _ => hunlink⟩
        | ok out =>
          rw [hout] at h
          simp only [Option.some.injEq] at h
          split at h
          · rename_i hcut
            simp only [Bool.and_eq_true, decide_eq_true_eq] at hcut
            exact .inr ⟨out, rfl, by simpa using hmap, h.symm, hcut.1⟩
          · exact .inl ⟨h.symm, by simp_all⟩

/-- A file the metadata scan accepts is kept as it is or cut at the committed end, unless
it cannot be mapped.
SOURCE: recorder.c:2222-2277 -/
theorem recoverSegmentFile_of_ok {evp : EvpOps} {codec : CodecOps} {io : RecoveryIo}
    (indexOk : Bool) {out : ScanOut} (hne : content.length ≠ 0)
    (hio : io.statOk = true → io.mapOk = false → io.unlinkOk = false)
    (hout : metadataScan evp codec content = .ok out) :
    (recoverSegmentFile evp codec io indexOk content).content = some content ∨
      (recoverSegmentFile evp codec io indexOk content).content =
        some (content.take out.committedEnd) ∧ out.committedEnd < content.length := by
  unfold recoverSegmentFile
  simp only [hne, if_false, hout]
  split
  · exact .inl rfl
  · rename_i hstat
    split
    · rename_i hmap
      have hunlink := hio (by simpa using hstat) (by simpa using hmap)
      exact .inl (by simp [RecoveredFile.remove, hunlink])
    · split
      · rename_i hcut
        simp only [Bool.and_eq_true, decide_eq_true_eq] at hcut
        exact .inr ⟨rfl, hcut.1⟩
      · exact .inl rfl

/-- INTERNAL: a recoverable file is preserved. -/
theorem CommittedFile.preserved (h : CommittedFile content images tail) (evp : EvpOps)
    (codec : CodecOps) (io : RecoveryIo) (indexOk : Bool) (hr : Recoverable io content tail) :
    Preserved evp codec io indexOk content images := by
  obtain ⟨out, hout⟩ := (h.metadataScan_ok_iff evp codec hr.start_lt).mpr hr.tail
  obtain ⟨hpre, hend⟩ := h.frames_prefix evp codec hr.start_lt hout
  have hlen := h.length_eq
  obtain ⟨info, hp⟩ := h.parse
  rcases recoverSegmentFile_of_ok indexOk (length_ne_zero_of_parse hp) hr.io hout with
    hkept | ⟨hkept, hlt⟩
  · exact ⟨content, hkept, List.prefix_rfl, by omega, out, hout, hpre⟩
  · refine ⟨_, hkept, List.take_prefix _ _, ?_, out, ?_, hpre⟩
    · rw [List.length_take]
      omega
    · exact (metadataScan_take evp codec hr.start_lt hout).1

/-- INTERNAL: a scan that reports the first committed frame where it is did not start at a
wrapped data offset. -/
theorem CommittedFile.start_lt_of_preserved (h : CommittedFile content images tail)
    (evp : EvpOps) (codec : CodecOps) {io : RecoveryIo} {indexOk : Bool} (hne : images ≠ [])
    (hp : Preserved evp codec io indexOk content images) : framesStart content < 2 ^ 32 := by
  obtain ⟨c, -, hpre, hlen, out, hout, hframes⟩ := hp
  obtain ⟨info, hparse⟩ := h.parse
  rw [List.prefix_iff_eq_take.mp hpre] at hout
  obtain ⟨hparse', -⟩ := segmentParseHeader_take hparse c.length (by omega)
  obtain ⟨_, _, _, st', hp', hscan, rfl⟩ := (metadataScan_eq_ok_iff _ _ _ _).mp hout
  rw [hparse'] at hp'
  obtain ⟨rfl, rfl, rfl⟩ := hp'
  cases himages : images with
  | nil => exact absurd himages hne
  | cons bs rest =>
    rw [himages] at hframes
    obtain ⟨more, hmore⟩ := hframes
    simp only [frameInfos, List.cons_append] at hmore
    rcases scanFrom_start _ rfl _ _ _ _ hscan with ⟨i, r, hfirst, hoff⟩ | ⟨hnil, -⟩
    · rw [hfirst, List.cons.injEq] at hmore
      rw [← hmore.1] at hoff
      have : framesStart content = framesStart content % 2 ^ 32 := hoff
      omega
    · rw [hnil] at hmore
      cases hmore

/-- **Recovery and committed data.** A recoverable file keeps its committed frames; and a
file that keeps them, with at least one frame or a data offset that did not wrap, is
recoverable.
SOURCE: recorder.c:2205-2282, segment.c:543-738 -/
theorem recovery_preserves_iff (evp : EvpOps) (codec : CodecOps) (io : RecoveryIo)
    (indexOk : Bool) (content : Bytes) (images : List Bytes) (tail : Bytes)
    (h : CommittedFile content images tail) :
    (Recoverable io content tail → Preserved evp codec io indexOk content images) ∧
    (images ≠ [] ∨ framesStart content < 2 ^ 32 →
      Preserved evp codec io indexOk content images → Recoverable io content tail) := by
  refine ⟨h.preserved evp codec io indexOk, ?_⟩
  intro hstart hp
  have hsmall : framesStart content < 2 ^ 32 :=
    hstart.elim (fun hne => h.start_lt_of_preserved evp codec hne hp) id
  obtain ⟨c, hc, -, -, out, hout, -⟩ := hp
  rcases recoverSegmentFile_content hc with ⟨rfl, hio⟩ | ⟨out', hout', hmap, -⟩
  · exact ⟨hsmall, (h.metadataScan_ok_iff evp codec hsmall).mp ⟨out, hout⟩, hio⟩
  · exact ⟨hsmall, (h.metadataScan_ok_iff evp codec hsmall).mp ⟨out', hout'⟩, by simp [hmap]⟩

end Recovery

/-- Everything recovery asks of the file system succeeds. -/
def allOk : RecoveryIo := ⟨true, true, true, true⟩

/-- A plain segment of one frame with forty zero bytes behind it. -/
def plainTorn : Bytes :=
  headerImage plainHeader [] [] ++
    (frameImage (frameHeader 0 3 3 23) [1, 2, 3] [] ++ List.replicate 40 0)

theorem plainTorn_committed :
    CommittedFile plainTorn [frameImage (frameHeader 0 3 3 23) [1, 2, 3] []]
      (List.replicate 40 0) where
  accepted := by decide +kernel
  frames_eq := by decide +kernel
  isFrame := by
    simp only [List.mem_singleton, forall_eq, show isEncrypted plainTorn = false by decide +kernel]
    exact isFrame_frameImage false 0 3 [1, 2, 3] [] rfl (by decide)
  noFooter := ⟨(footerAt_eq_none_iff _).mp (by decide +kernel), trivial⟩
  length_lt := by decide +kernel

/-- The torn tail of a plain segment is cut off and the frame stays. -/
theorem plainTorn_preserved : Preserved noEvp noCodec allOk true plainTorn
    [frameImage (frameHeader 0 3 3 23) [1, 2, 3] []] :=
  (recovery_preserves_iff noEvp noCodec allOk true plainTorn _ _ plainTorn_committed).1
    ⟨by decide +kernel, fun h => absurd h (by decide +kernel), by decide⟩

/-- An encrypted segment of one empty frame with 36 zero bytes behind it. -/
def encryptedTorn : Bytes :=
  headerImage { plainHeader with flags := flagEncrypted }
      (encryptionExtension (List.replicate 4 0) [1]) [] ++
    (frameImage (frameHeader 0 0 0 36) [] (List.replicate 16 0) ++ List.replicate 36 0)

/-- **Recovery removes committed frames**: the segment holds a whole frame, and because 36
zero bytes follow it, the file is unlinked. -/
theorem encryptedTorn_removed :
    CommittedFile encryptedTorn [frameImage (frameHeader 0 0 0 36) [] (List.replicate 16 0)]
        (List.replicate 36 0) ∧
      (recoverSegmentFile noEvp noCodec allOk true encryptedTorn).content = none := by
  refine ⟨⟨by decide +kernel, by decide +kernel, ?_,
    ⟨(footerAt_eq_none_iff _).mp (by decide +kernel), trivial⟩, by decide +kernel⟩,
    by decide +kernel⟩
  simp only [List.mem_singleton, forall_eq, show isEncrypted encryptedTorn = true by decide +kernel]
  exact isFrame_frameImage true 0 0 [] (List.replicate 16 0) rfl (by decide)

end Recorder.Analysis
