import Recorder.Analysis.SegmentFormat

/-!
# The frame loop over a sequence of frames

`scanFrom` is the loop with the fuel `segment_scan_impl` gives it. `scanLoop_fuel` says
that the fuel does not matter, so `scanFrom` satisfies the loop's own equations, one for
each outcome of a turn. `scanFrom_frames` then runs the loop over any list of whole
frames followed by any tail: the frames are passed in order, each is offered to the
callback, and the loop continues on the tail.
-/

set_option autoImplicit false

namespace Recorder.Analysis

open Recorder.Model

variable {σ : Type}

/-- A frame the loop passes is at least twenty bytes long. -/
theorem frameLen_ge_of_scanStep {encrypted : Bool} {p : Bytes} {offset : ℕ}
    {info : SegmentFrameInfo} (h : scanStep encrypted p offset = .frame info) :
    20 ≤ info.frameLen.toNat ∧ info.frameLen.toNat ≤ p.length := by
  obtain ⟨-, -, hle, hframe⟩ := (scanStep_eq_frame_iff _ _ _ _).mp h
  have := hframe.le_length
  rw [List.length_take] at this
  omega

/-- **Enough fuel is enough**: two runs of the loop whose fuel exceeds the bytes left
agree.
SOURCE: segment.c:582-722 -/
theorem scanLoop_fuel (env : ScanEnv σ) (buf : Bytes) (fuel : ℕ) :
    ∀ (fuel' : ℕ) (st : ScanState σ), buf.length < fuel + st.offset →
      buf.length < fuel' + st.offset →
      scanLoop env buf fuel st = scanLoop env buf fuel' st := by
  induction fuel with
  | zero =>
    intro fuel' st h h'
    cases fuel' with
    | zero => rfl
    | succ fuel' => simp only [scanLoop]; rw [if_neg (by omega)]
  | succ fuel ih =>
    intro fuel' st h h'
    cases fuel' with
    | zero => simp only [scanLoop]; rw [if_neg (by omega)]
    | succ fuel' =>
      simp only [scanLoop]
      split
      · cases hs : scanStep env.encrypted (buf.drop st.offset) st.offset with
        | footer f => rfl
        | stop => rfl
        | corrupt => rfl
        | frame info =>
          have hlen := frameLen_ge_of_scanStep hs
          rw [List.length_drop] at hlen
          simp only
          cases deliverFrame env (buf.drop st.offset) info st.frameIndex st.ctx with
          | stop => rfl
          | failed rv errno ctx => rfl
          | ok ctx =>
            simp only
            split
            · rfl
            · exact ih fuel' _ (by simp only; omega) (by simp only; omega)
      · rfl

/-- The frame loop as `segment_scan_impl` runs it. -/
def scanFrom (env : ScanEnv σ) (buf : Bytes) (st : ScanState σ) : ScanEnd σ :=
  scanLoop env buf (buf.length + 1) st

/-- The state after passing one frame. -/
def ScanState.pass (st : ScanState σ) (info : SegmentFrameInfo) (ctx : σ) : ScanState σ where
  offset := st.offset + info.frameLen.toNat
  committedEnd := st.offset + info.frameLen.toNat
  footer := st.footer
  frameIndex := st.frameIndex + 1
  frames := st.frames ++ [info]
  ctx := ctx

theorem scanFrom_of_end (env : ScanEnv σ) (buf : Bytes) (st : ScanState σ)
    (h : buf.length ≤ st.offset) : scanFrom env buf st = .done st := by
  simp only [scanFrom, scanLoop]
  rw [if_neg (by omega)]

theorem scanFrom_of_footer (env : ScanEnv σ) (buf : Bytes) (st : ScanState σ)
    (f : SegmentFooter) (h : st.offset < buf.length)
    (hs : scanStep env.encrypted (buf.drop st.offset) st.offset = .footer f) :
    scanFrom env buf st = .done { st with
      footer := f
      committedEnd := st.offset + segmentFooterSize
      offset := st.offset + segmentFooterSize } := by
  simp only [scanFrom, scanLoop, h, if_true, hs]

theorem scanFrom_of_stop (env : ScanEnv σ) (buf : Bytes) (st : ScanState σ)
    (h : st.offset < buf.length)
    (hs : scanStep env.encrypted (buf.drop st.offset) st.offset = .stop) :
    scanFrom env buf st = .done st := by
  simp only [scanFrom, scanLoop, h, if_true, hs]

theorem scanFrom_of_corrupt (env : ScanEnv σ) (buf : Bytes) (st : ScanState σ)
    (h : st.offset < buf.length)
    (hs : scanStep env.encrypted (buf.drop st.offset) st.offset = .corrupt) :
    scanFrom env buf st = .failed (-1) (some .eio) st.ctx := by
  simp only [scanFrom, scanLoop, h, if_true, hs]

/-- The loop's equation for a frame. -/
theorem scanFrom_of_frame (env : ScanEnv σ) (buf : Bytes) (st : ScanState σ)
    (info : SegmentFrameInfo) (h : st.offset < buf.length)
    (hs : scanStep env.encrypted (buf.drop st.offset) st.offset = .frame info) :
    scanFrom env buf st =
      match deliverFrame env (buf.drop st.offset) info st.frameIndex st.ctx with
      | .stop => .done st
      | .failed rv errno ctx => .failed rv errno ctx
      | .ok ctx =>
        if env.encrypted && st.frameIndex == 0xffffffffffffffff then
          .failed (-1) (some .eoverflow) ctx
        else scanFrom env buf (ScanState.pass st info ctx) := by
  have hlen := frameLen_ge_of_scanStep hs
  rw [List.length_drop] at hlen
  conv_lhs => rw [scanFrom, scanLoop]
  simp only [h, if_true, hs]
  cases deliverFrame env (buf.drop st.offset) info st.frameIndex st.ctx with
  | stop => rfl
  | failed rv errno ctx => rfl
  | ok ctx =>
    simp only
    split
    · rfl
    · exact scanLoop_fuel env buf _ _ _ (by simp only; omega)
        (by simp only; omega)

/-- Induction along the frame loop: a property of loop states holds if it follows for a
state from the state the loop goes on with. -/
theorem scanFrom_induction {motive : ScanState σ → Prop} (env : ScanEnv σ) (buf : Bytes)
    (step : ∀ st, (∀ info ctx, st.offset < buf.length →
      scanStep env.encrypted (buf.drop st.offset) st.offset = .frame info →
      motive (ScanState.pass st info ctx)) → motive st) (st : ScanState σ) : motive st := by
  induction h : buf.length - st.offset using Nat.strong_induction_on generalizing st with
  | _ n ih =>
    apply step
    intro info ctx hlt hs
    have hlen := frameLen_ge_of_scanStep hs
    exact ih _ (by simp only [ScanState.pass]; omega) _ rfl

/-- Induction along a metadata scan that ends well: it runs off the end, meets a footer,
stops, or passes a frame and goes on. -/
theorem scanFrom_done_induction {motive : ScanState σ → Prop} (env : ScanEnv σ)
    (hcb : env.cb = none) (buf : Bytes) (st' : ScanState σ)
    (atEnd : ∀ st, buf.length ≤ st.offset → st' = st → motive st)
    (atFooter : ∀ st f, st.offset < buf.length →
      scanStep env.encrypted (buf.drop st.offset) st.offset = .footer f →
      st' = { st with
        footer := f
        committedEnd := st.offset + segmentFooterSize
        offset := st.offset + segmentFooterSize } → motive st)
    (atStop : ∀ st, st.offset < buf.length →
      scanStep env.encrypted (buf.drop st.offset) st.offset = .stop → st' = st → motive st)
    (atFrame : ∀ st info, st.offset < buf.length →
      scanStep env.encrypted (buf.drop st.offset) st.offset = .frame info →
      (env.encrypted && st.frameIndex == 0xffffffffffffffff) = false →
      scanFrom env buf (ScanState.pass st info st.ctx) = .done st' →
      motive (ScanState.pass st info st.ctx) → motive st) :
    ∀ st, scanFrom env buf st = .done st' → motive st := by
  intro st
  refine scanFrom_induction env buf
    (motive := fun st => scanFrom env buf st = .done st' → motive st) ?_ st
  intro st ih hdone
  by_cases hlt : st.offset < buf.length
  · cases hs : scanStep env.encrypted (buf.drop st.offset) st.offset with
    | footer f =>
      rw [scanFrom_of_footer env buf st f hlt hs] at hdone
      exact atFooter st f hlt hs (ScanEnd.done.inj hdone).symm
    | stop =>
      rw [scanFrom_of_stop env buf st hlt hs] at hdone
      exact atStop st hlt hs (ScanEnd.done.inj hdone).symm
    | corrupt => rw [scanFrom_of_corrupt env buf st hlt hs] at hdone; cases hdone
    | frame info =>
      rw [scanFrom_of_frame env buf st info hlt hs] at hdone
      simp only [deliverFrame, hcb] at hdone
      split at hdone
      · cases hdone
      · rename_i hcounter
        exact atFrame st info hlt hs (by simpa using hcounter) hdone (ih info st.ctx hlt hs hdone)
  · rw [scanFrom_of_end env buf st (by omega)] at hdone
    exact atEnd st (by omega) (ScanEnd.done.inj hdone).symm

/-- A metadata scan only ever appends to the frames it has passed.
SOURCE: segment.c:582-722 -/
theorem scanFrom_grows (env : ScanEnv σ) (hcb : env.cb = none) (buf : Bytes) (st' : ScanState σ) :
    ∀ st, scanFrom env buf st = .done st' → ∃ rest, st'.frames = st.frames ++ rest := by
  refine scanFrom_done_induction (motive := fun st => ∃ rest, st'.frames = st.frames ++ rest)
    env hcb buf st' ?_ ?_ ?_ ?_
  · rintro st - rfl
    exact ⟨[], by simp⟩
  · rintro st f - - rfl
    exact ⟨[], by simp⟩
  · rintro st - - rfl
    exact ⟨[], by simp⟩
  · rintro st info - - - - ⟨rest, hrest⟩
    exact ⟨info :: rest, by rw [hrest]; simp [ScanState.pass]⟩

/-! ## A list of frames -/

/-- The frame headers of consecutive frames, from a file offset on. -/
def frameInfos : ℕ → List Bytes → List SegmentFrameInfo
  | _, [] => []
  | offset, bs :: frames => frameInfoAt bs offset :: frameInfos (offset + bs.length) frames

@[simp] theorem length_frameInfos (frames : List Bytes) :
    ∀ offset, (frameInfos offset frames).length = frames.length := by
  induction frames with
  | nil => intro offset; rfl
  | cons bs frames ih => intro offset; simp only [frameInfos, List.length_cons, ih]

theorem frameInfos_append (pre post : List Bytes) :
    ∀ offset, frameInfos offset (pre ++ post) =
      frameInfos offset pre ++ frameInfos (offset + pre.flatten.length) post := by
  induction pre with
  | nil => intro offset; rfl
  | cons bs pre ih =>
    intro offset
    rw [List.cons_append, frameInfos, frameInfos, ih, List.flatten_cons, List.length_append,
      Nat.add_assoc]
    rfl

theorem frameInfos_take (images : List Bytes) (n offset : ℕ) :
    frameInfos offset (images.take n) = (frameInfos offset images).take n := by
  induction images generalizing n offset with
  | nil => cases n <;> rfl
  | cons bs images ih =>
    cases n with
    | zero => rfl
    | succ n => rw [List.take_succ_cons, frameInfos, frameInfos, List.take_succ_cons, ih]

/-- At no frame boundary do 48 bytes of the file form a footer image. For a frame shorter
than 48 bytes these reach into what follows it. -/
def NoFooterImages : List Bytes → Bytes → Prop
  | [], _ => True
  | bs :: frames, tail =>
    ¬ FooterImage (bs ++ (frames.flatten ++ tail)) ∧ NoFooterImages frames tail

theorem noFooterImages_drop {tail : Bytes} {whole torn : List Bytes}
    (hno : NoFooterImages (whole ++ torn) tail) : NoFooterImages torn tail := by
  induction whole with
  | nil => exact hno
  | cons bs whole ih => exact ih hno.2

theorem noFooterImages_front {tail : Bytes} {whole torn : List Bytes}
    (hno : NoFooterImages (whole ++ torn) tail) : NoFooterImages whole (torn.flatten ++ tail) := by
  induction whole with
  | nil => trivial
  | cons bs whole ih =>
    refine ⟨?_, ih hno.2⟩
    simpa only [List.append_eq, List.flatten_append, List.append_assoc] using hno.1

/-- The callback run over consecutive frames, as long as every delivery succeeds. -/
def deliverAll (env : ScanEnv σ) : ℕ → UInt64 → List Bytes → σ → Option σ
  | _, _, [], ctx => some ctx
  | offset, index, bs :: frames, ctx =>
    match deliverFrame env bs (frameInfoAt bs offset) index ctx with
    | .ok ctx' => deliverAll env (offset + bs.length) (index + 1) frames ctx'
    | _ => none

/-- A metadata scan delivers nothing and never fails to. -/
theorem deliverAll_of_no_cb (env : ScanEnv σ) (hcb : env.cb = none) (frames : List Bytes) :
    ∀ (offset : ℕ) (index : UInt64) (ctx : σ),
      deliverAll env offset index frames ctx = some ctx := by
  induction frames with
  | nil => intro offset index ctx; rfl
  | cons bs frames ih =>
    intro offset index ctx
    simp only [deliverAll, deliverFrame, hcb]
    exact ih _ _ _

/-- Decryption looks at the frame's own bytes only. -/
theorem openPayload_append (evp : EvpOps) {encrypted : Bool} (dek noncePrefix : Bytes)
    {bs : Bytes} (rest : Bytes) (offset : ℕ) (index : UInt64) (hbs : IsFrame encrypted bs) :
    openPayload evp encrypted dek noncePrefix index (frameInfoAt bs offset) (bs ++ rest) =
      openPayload evp encrypted dek noncePrefix index (frameInfoAt bs offset) bs := by
  have hlen := hbs.length_eq
  simp only [openPayload, frameInfoAt, segmentFrameHeaderSize, gcmTagSize]
  rw [List.take_append_of_le_length (by omega), List.drop_append_of_le_length (by omega),
    List.drop_append_of_le_length (by omega), List.take_append_of_le_length (by simp; omega)]
  cases encrypted with
  | false => rfl
  | true =>
    simp only [tagLen, if_true, gcmTagSize] at hlen
    rw [List.take_append_of_le_length (by simp; omega)]

/-- Delivery looks at the frame's own bytes only. -/
theorem deliverFrame_append (env : ScanEnv σ) {bs : Bytes} (rest : Bytes) (offset : ℕ)
    (index : UInt64) (ctx : σ) (hbs : IsFrame env.encrypted bs) :
    deliverFrame env (bs ++ rest) (frameInfoAt bs offset) index ctx =
      deliverFrame env bs (frameInfoAt bs offset) index ctx := by
  simp only [deliverFrame, openPayload_append env.evp env.dek env.encryption.noncePrefix rest
    offset index hbs]

/-- INTERNAL: a frame counter below its last value counts up. -/
theorem frameIndex_add_one (i : UInt64) (h : i ≠ 0xffffffffffffffff) :
    (i + 1).toNat = i.toNat + 1 := by
  have hlt := i.toNat_lt
  have hne : i.toNat ≠ 2 ^ 64 - 1 := fun hi => h (UInt64.toNat_inj.mp hi)
  rw [UInt64.toNat_add, UInt64.toNat_one]
  omega

/-- INTERNAL: a frame counter that has room for one more frame is not at its end. -/
theorem frameIndex_ne_max (i : UInt64) (n : ℕ) (h : i.toNat + (n + 1) < 2 ^ 64) :
    i ≠ 0xffffffffffffffff := by
  rintro rfl
  simp at h
  omega

/-- INTERNAL: the counter check of the loop passes while the frames ahead fit. -/
theorem scanCounter_ok (env : ScanEnv σ) (st : ScanState σ) (n : ℕ)
    (h : env.encrypted = true → st.frameIndex.toNat + (n + 1) < 2 ^ 64) :
    (env.encrypted && st.frameIndex == 0xffffffffffffffff) = false := by
  cases henc : env.encrypted with
  | false => rfl
  | true => simpa using frameIndex_ne_max st.frameIndex n (h henc)

/-- INTERNAL: the room the counter has left after one more frame. -/
theorem scanCounter_pass (env : ScanEnv σ) (st : ScanState σ) (info : SegmentFrameInfo)
    (ctx : σ) {n : ℕ} (h : env.encrypted = true → st.frameIndex.toNat + (n + 1) < 2 ^ 64) :
    env.encrypted = true → (ScanState.pass st info ctx).frameIndex.toNat + n < 2 ^ 64 := by
  intro henc
  have hroom := h henc
  have := frameIndex_add_one _ (frameIndex_ne_max st.frameIndex n hroom)
  simp only [ScanState.pass]
  omega

/-- The state after passing a list of frames. -/
def ScanState.passAll (st : ScanState σ) (frames : List Bytes) (ctx : σ) : ScanState σ where
  offset := st.offset + frames.flatten.length
  committedEnd := st.offset + frames.flatten.length
  footer := st.footer
  frameIndex := st.frameIndex + UInt64.ofNat frames.length
  frames := st.frames ++ frameInfos st.offset frames
  ctx := ctx

/-- **The loop over whole frames**: followed by any tail, a list of frames is passed in
order and the loop goes on behind the last one.
SOURCE: segment.c:582-722 -/
theorem scanFrom_frames (env : ScanEnv σ) (buf tail : Bytes) (frames : List Bytes) :
    ∀ (st : ScanState σ) (ctx : σ), buf.drop st.offset = frames.flatten ++ tail →
      st.committedEnd = st.offset → (∀ bs ∈ frames, IsFrame env.encrypted bs) →
      NoFooterImages frames tail →
      (env.encrypted = true → st.frameIndex.toNat + frames.length < 2 ^ 64) →
      deliverAll env st.offset st.frameIndex frames st.ctx = some ctx →
      scanFrom env buf st = scanFrom env buf (ScanState.passAll st frames ctx) := by
  induction frames with
  | nil =>
    intro st ctx _ hend _ _ _ hd
    obtain rfl : st.ctx = ctx := by simpa [deliverAll] using hd
    congr 1
    cases st
    simp_all [ScanState.passAll, frameInfos]
  | cons bs frames ih =>
    intro st ctx hbuf hend hframes hno hidx hd
    have hbs : IsFrame env.encrypted bs := hframes bs (by simp)
    have hle := hbs.le_length
    simp only [List.flatten_cons, List.append_assoc] at hbuf
    have hlt : st.offset < buf.length := by
      have := congrArg List.length hbuf
      simp only [List.length_drop, List.length_append] at this
      omega
    have hstep : scanStep env.encrypted (buf.drop st.offset) st.offset =
        .frame (frameInfoAt bs st.offset) := by
      rw [hbuf]
      exact scanStep_of_isFrame _ _ hbs ((footerAt_eq_none_iff _).mpr hno.1)
    rw [scanFrom_of_frame env buf st _ hlt hstep, hbuf, deliverFrame_append _ _ _ _ _ hbs]
    simp only [deliverAll] at hd
    simp only [List.length_cons] at hidx
    have hcounter := scanCounter_ok env st frames.length hidx
    have hfl : (frameInfoAt bs st.offset).frameLen.toNat = bs.length := hbs.frameLen_eq
    cases hdel : deliverFrame env bs (frameInfoAt bs st.offset) st.frameIndex st.ctx with
    | stop => rw [hdel] at hd; cases hd
    | failed rv errno c => rw [hdel] at hd; cases hd
    | ok ctx' =>
      rw [hdel] at hd
      simp only [hcounter, Bool.false_eq_true, if_false]
      have hnext := ih (ScanState.pass st (frameInfoAt bs st.offset) ctx') ctx
        (by
          simp only [ScanState.pass, hfl]
          rw [← List.drop_drop, hbuf, List.drop_left])
        rfl (fun b hb => hframes b (by simp [hb])) hno.2
        (scanCounter_pass env st _ _ hidx)
        (by simpa only [ScanState.pass, hfl] using hd)
      rw [hnext]
      congr 1
      simp only [ScanState.passAll, ScanState.pass, hfl, frameInfos, List.flatten_cons,
        List.length_append, List.length_cons, List.append_assoc, List.singleton_append,
        Nat.add_assoc, ScanState.mk.injEq, true_and, and_true]
      rw [UInt64.add_assoc]
      congr 1
      rw [UInt64.ofNat_add, UInt64.add_comm]
      rfl

/-- A scan that meets a footer image at a frame boundary stops there: it passes fewer
frames than there are.
SOURCE: segment.c:589-611 -/
theorem scanFrom_footerImage (env : ScanEnv σ) (hcb : env.cb = none) (buf tail : Bytes)
    (frames : List Bytes) :
    ∀ st : ScanState σ, buf.drop st.offset = frames.flatten ++ tail →
      (∀ bs ∈ frames, IsFrame env.encrypted bs) → ¬ NoFooterImages frames tail →
      (env.encrypted = true → st.frameIndex.toNat + frames.length < 2 ^ 64) →
      ∃ st', scanFrom env buf st = .done st' ∧
        st'.frames.length < st.frames.length + frames.length := by
  induction frames with
  | nil => intro st _ _ hno _; exact absurd trivial hno
  | cons bs frames ih =>
    intro st hbuf hframes hno hidx
    have hbs : IsFrame env.encrypted bs := hframes bs (by simp)
    have hle := hbs.le_length
    simp only [List.flatten_cons, List.append_assoc] at hbuf
    have hlt : st.offset < buf.length := by
      have := congrArg List.length hbuf
      simp only [List.length_drop, List.length_append] at this
      omega
    cases hf : footerAt (bs ++ (frames.flatten ++ tail)) with
    | some f =>
      have hstep : scanStep env.encrypted (buf.drop st.offset) st.offset = .footer f := by
        simp only [hbuf, scanStep, hf]
      exact ⟨_, scanFrom_of_footer env buf st f hlt hstep, by simp⟩
    | none =>
      have himage := (footerAt_eq_none_iff _).mp hf
      have hrest : ¬ NoFooterImages frames tail := fun h => hno ⟨himage, h⟩
      have hfl : (frameInfoAt bs st.offset).frameLen.toNat = bs.length := hbs.frameLen_eq
      -- one frame is passed as in `scanFrom_frames`, the rest is the induction hypothesis
      have hpass : scanFrom env buf st =
          scanFrom env buf (ScanState.pass st (frameInfoAt bs st.offset) st.ctx) := by
        have hstep : scanStep env.encrypted (buf.drop st.offset) st.offset =
            .frame (frameInfoAt bs st.offset) := by
          rw [hbuf]
          exact scanStep_of_isFrame _ _ hbs hf
        rw [scanFrom_of_frame env buf st _ hlt hstep]
        simp only [deliverFrame, hcb]
        rw [scanCounter_ok env st frames.length hidx]
        rfl
      obtain ⟨st', hst', hcount⟩ := ih (ScanState.pass st (frameInfoAt bs st.offset) st.ctx)
        (by
          simp only [ScanState.pass, hfl]
          rw [← List.drop_drop, hbuf, List.drop_left])
        (fun b hb => hframes b (by simp [hb])) hrest (scanCounter_pass env st _ _ hidx)
      refine ⟨st', hpass.trans hst', ?_⟩
      simp only [ScanState.pass, List.length_append, List.length_singleton] at hcount
      simp only [List.length_cons]
      omega

end Recorder.Analysis
