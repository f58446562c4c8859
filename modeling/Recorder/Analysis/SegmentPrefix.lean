import Recorder.Analysis.SegmentDelivery
import Recorder.Analysis.SegmentTruncate

/-!
# Reading a segment that a crash cut short

A plain segment may end anywhere behind its data offset: inside a frame, inside the footer,
or between them. A metadata scan of what is left reports the frames that are whole
(`metadataScan_cut`). A torn frame claims more bytes than there are, and the first bytes of
a footer, read as the header of a frame, give it the length zero.

**Main result**: `crash_prefix_consistent_iff`.
-/

set_option autoImplicit false

namespace Recorder.Analysis

open Recorder.Model

/-! ## Frames in front of a cut -/

/-- Where a frame ends in the file. -/
def frameEnd (info : SegmentFrameInfo) : ℕ := info.fileOffset + info.frameLen.toNat

/-- Where the last of the given frames ends, or the given place when there is none. -/
def lastEnd (start : ℕ) (infos : List SegmentFrameInfo) : ℕ :=
  (infos.getLast?.map frameEnd).getD start

theorem lastEnd_cons (start : ℕ) (info : SegmentFrameInfo) (infos : List SegmentFrameInfo) :
    lastEnd start (info :: infos) = lastEnd (frameEnd info) infos := by
  rw [lastEnd, lastEnd, List.getLast?_cons]
  cases infos.getLast? <;> rfl

theorem frameEnd_frameInfoAt {encrypted : Bool} {bs : Bytes} (hbs : IsFrame encrypted bs)
    (offset : ℕ) : frameEnd (frameInfoAt bs offset) = offset + bs.length := by
  rw [frameEnd, ← hbs.frameLen_eq]
  rfl

theorem le_fileOffset_of_mem {info : SegmentFrameInfo} {frames : List Bytes} :
    ∀ {offset : ℕ}, info ∈ frameInfos offset frames → offset ≤ info.fileOffset := by
  induction frames with
  | nil => intro offset h; cases h
  | cons bs frames ih =>
    intro offset h
    rcases List.mem_cons.mp h with rfl | h
    · exact le_rfl
    · exact (Nat.le_add_right _ _).trans (ih h)

section Frames

variable {encrypted : Bool}

theorem frameEnd_le_of_mem {info : SegmentFrameInfo} {frames : List Bytes}
    (hframes : ∀ bs ∈ frames, IsFrame encrypted bs) :
    ∀ {offset : ℕ}, info ∈ frameInfos offset frames →
      frameEnd info ≤ offset + frames.flatten.length := by
  induction frames with
  | nil => intro offset h; cases h
  | cons bs frames ih =>
    intro offset h
    rw [List.flatten_cons, List.length_append]
    rcases List.mem_cons.mp h with rfl | h
    · rw [frameEnd_frameInfoAt (hframes bs List.mem_cons_self)]
      omega
    · have := ih (fun b hb => hframes b (List.mem_cons_of_mem _ hb)) h
      omega

theorem lastEnd_frameInfos (frames : List Bytes) :
    ∀ offset, (∀ bs ∈ frames, IsFrame encrypted bs) →
      lastEnd offset (frameInfos offset frames) = offset + frames.flatten.length := by
  induction frames with
  | nil => intro offset _; rfl
  | cons bs frames ih =>
    intro offset hframes
    rw [frameInfos, lastEnd_cons, frameEnd_frameInfoAt (hframes bs List.mem_cons_self),
      ih _ fun b hb => hframes b (List.mem_cons_of_mem _ hb), List.flatten_cons,
      List.length_append, Nat.add_assoc]

/-- A cut parts the frames: those in front of it are whole, and the next one reaches beyond
it. -/
theorem exists_whole_frames (n : ℕ) (frames : List Bytes) :
    ∀ offset ≤ n, ∃ whole torn, frames = whole ++ torn ∧ offset + whole.flatten.length ≤ n ∧
      ∀ bs rest, torn = bs :: rest → n < offset + whole.flatten.length + bs.length := by
  induction frames with
  | nil =>
    intro offset hle
    exact ⟨[], [], rfl, hle, fun bs rest h => by cases h⟩
  | cons bs frames ih =>
    intro offset hle
    by_cases hfits : offset + bs.length ≤ n
    · obtain ⟨whole, torn, rfl, hwhole, htorn⟩ := ih (offset + bs.length) hfits
      refine ⟨bs :: whole, torn, rfl, ?_, ?_⟩
      · rw [List.flatten_cons, List.length_append]
        omega
      · intro b rest h
        have := htorn b rest h
        rw [List.flatten_cons, List.length_append]
        omega
    · refine ⟨[], bs :: frames, rfl, hle, ?_⟩
      intro b rest h
      obtain ⟨rfl, -⟩ := List.cons.inj h
      rw [List.flatten_nil, List.length_nil]
      omega

/-- The frames that end in front of the cut are the whole ones. -/
theorem frameInfos_filter_whole {n offset : ℕ} {whole torn : List Bytes}
    (hframes : ∀ bs ∈ whole ++ torn, IsFrame encrypted bs)
    (hwhole : offset + whole.flatten.length ≤ n)
    (htorn : ∀ bs rest, torn = bs :: rest → n < offset + whole.flatten.length + bs.length) :
    (frameInfos offset (whole ++ torn)).filter (fun info => decide (frameEnd info ≤ n)) =
      frameInfos offset whole := by
  have hkept : (frameInfos offset whole).filter (fun info => decide (frameEnd info ≤ n)) =
      frameInfos offset whole := by
    apply List.filter_eq_self.mpr
    intro info hinfo
    have hle := frameEnd_le_of_mem (fun b hb => hframes b (List.mem_append_left _ hb)) hinfo
    exact decide_eq_true (hle.trans hwhole)
  have hgone : (frameInfos (offset + whole.flatten.length) torn).filter
      (fun info => decide (frameEnd info ≤ n)) = [] := by
    apply List.filter_eq_nil_iff.mpr
    intro info hinfo
    rw [decide_eq_true_eq, not_le]
    cases htornc : torn with
    | nil =>
      rw [htornc] at hinfo
      cases hinfo
    | cons bs rest =>
      have hlt := htorn bs rest htornc
      rw [htornc] at hinfo
      rcases List.mem_cons.mp hinfo with rfl | hinfo
      · have hbs : IsFrame encrypted bs := hframes bs (by simp [htornc])
        rw [frameEnd_frameInfoAt hbs]
        exact hlt
      · have hle := le_fileOffset_of_mem hinfo
        exact (hlt.trans_le hle).trans_le (Nat.le_add_right _ _)
  rw [frameInfos_append, List.filter_append, hkept, hgone, List.append_nil]

/-- Cutting the bytes behind frames makes no footer image of them. -/
theorem noFooterImages_take {tail : Bytes} (m : ℕ) (torn whole : List Bytes)
    (hno : NoFooterImages (whole ++ torn) tail) :
    NoFooterImages whole ((torn.flatten ++ tail).take m) := by
  induction whole with
  | nil => trivial
  | cons bs whole ih =>
    refine ⟨?_, ih hno.2⟩
    have himage : footerAt (bs ++ ((whole ++ torn).flatten ++ tail)) = none :=
      (footerAt_eq_none_iff _).mpr hno.1
    rw [← footerAt_eq_none_iff]
    have htake : bs ++ (whole.flatten ++ (torn.flatten ++ tail).take m) =
        (bs ++ ((whole ++ torn).flatten ++ tail)).take
          (bs.length + (whole.flatten.length + m)) := by
      rw [List.flatten_append, List.append_assoc, List.take_length_add_append,
        List.take_length_add_append]
    rw [htake, footerAt_take, himage, ite_self]

/-! ## What stands at the cut -/

/-- **A torn frame** ends the scan: its header, if it is there at all, claims more bytes than
there are.
SOURCE: segment.c:612-636 -/
theorem scanStep_torn_frame {bs more : Bytes} (hbs : IsFrame encrypted bs)
    (hno : ¬ FooterImage (bs ++ more)) {m : ℕ} (hm : m < bs.length) (offset : ℕ) :
    scanStep encrypted ((bs ++ more).take m) offset = .stop := by
  have hfooter : footerAt ((bs ++ more).take m) = none := by
    rw [footerAt_take, (footerAt_eq_none_iff _).mpr hno, ite_self]
  have htake : (bs ++ more).take m = bs.take m := List.take_append_of_le_length hm.le
  rw [htake] at hfooter ⊢
  have hlen : (bs.take m).length = m := by
    rw [List.length_take]
    omega
  unfold scanStep
  rw [hfooter]
  simp only [hlen, segmentFrameHeaderSize, uint32Max]
  by_cases hshort : m < 16 + 4 + tagLen encrypted
  · rw [if_pos hshort]
  · have hstored : (frameInfoAt (bs.take m) offset).storedLen = readU32Le (bs.drop 4) :=
      readU32Le_drop_take bs m 4 (by omega)
    have hframeLen : (frameInfoAt (bs.take m) offset).frameLen = readU32Le (bs.drop 12) :=
      readU32Le_drop_take bs m 12 (by omega)
    have hexpected := hbs.length_eq
    have hsize := hbs.frameLen_eq
    have hlt := (readU32Le (bs.drop 12)).toNat_lt
    rw [if_neg hshort, hstored, hframeLen, hsize, ← hexpected, if_neg (by simp; omega),
      if_pos hm]

end Frames

/-- The upper half of a small double word is zero. -/
theorem readU32Le_writeU64Le_high {value : UInt64} (h : value.toNat < 2 ^ 32) (rest : Bytes) :
    readU32Le ((writeU64Le value ++ rest).drop 4) = 0 := by
  have hzero : ∀ k : UInt64, 32 ≤ k.toNat → k.toNat < 64 → (value >>> k).toUInt8 = 0 := by
    intro k hk hk'
    apply UInt8.toNat_inj.mp
    have hlt : value.toNat < 2 ^ k.toNat := h.trans_le (Nat.pow_le_pow_right (by omega) hk)
    rw [UInt64.toNat_toUInt8, UInt64.toNat_shiftRight, Nat.mod_eq_of_lt hk',
      Nat.shiftRight_eq_div_pow, Nat.div_eq_of_lt hlt]
    rfl
  have h32 := hzero 32 (by decide) (by decide)
  have h40 := hzero 40 (by decide) (by decide)
  have h48 := hzero 48 (by decide) (by decide)
  have h56 := hzero 56 (by decide) (by decide)
  simp [writeU64Le, h32, h40, h48, h56, readU32Le, byteAt]

/-- **A torn footer** ends the scan of a plain segment: read as the header of a frame, it
gives the frame the upper half of its entry count for a length.
SOURCE: segment.c:356-360, 612-633 -/
theorem scanStep_torn_footer {f : SegmentFooter} (hcount : f.entryCount.toNat < 2 ^ 32) {m : ℕ}
    (hm : m < 48) (offset : ℕ) : scanStep false ((footerImage f).take m) offset = .stop := by
  have hfooter : footerAt ((footerImage f).take m) = none := by
    rw [footerAt_take, if_neg (by omega)]
  have hlen : ((footerImage f).take m).length = m := by
    rw [List.length_take, length_footerImage]
    omega
  unfold scanStep
  rw [hfooter]
  simp only [hlen, segmentFrameHeaderSize, uint32Max]
  by_cases hshort : m < 16 + 4 + tagLen false
  · rw [if_pos hshort]
  · have hframeLen : (frameInfoAt ((footerImage f).take m) offset).frameLen = 0 := by
      have hcut : readU32Le (((footerImage f).take m).drop 12) =
          readU32Le ((footerImage f).drop 12) :=
        readU32Le_drop_take _ m 12 (by simp only [tagLen] at hshort; omega)
      have himage : (footerImage f).drop 12 =
          (writeU64Le f.entryCount ++ (footerImage f).drop 16).drop 4 := rfl
      exact hcut.trans (himage ▸ readU32Le_writeU64Le_high hcount _)
    rw [if_neg hshort, hframeLen]
    simp

/-! ## Scanning what is left -/

section Cut

variable {env : ScanEnv Unit} {buf tail : Bytes} {footer : Option SegmentFooter} {n : ℕ}

/-- The loop ends where there is nothing more, or no whole frame. -/
theorem scanFrom_of_rest {st : ScanState Unit}
    (hrest : st.offset < buf.length →
      scanStep env.encrypted (buf.drop st.offset) st.offset = .stop) :
    scanFrom env buf st = .done st := by
  by_cases hlt : st.offset < buf.length
  · exact scanFrom_of_stop env buf st hlt (hrest hlt)
  · exact scanFrom_of_end env buf st (Nat.le_of_not_lt hlt)

/-- **The loop over what is left** passes the whole frames in front of the cut and stops, or
reads the footer when it is complete.
SOURCE: segment.c:582-722 -/
theorem scanFrom_cut (hplain : env.encrypted = false) (hcb : env.cb = none)
    {whole torn : List Bytes} (hframes : ∀ bs ∈ whole ++ torn, IsFrame false bs)
    (hno : NoFooterImages (whole ++ torn) tail) (htail : writeFooterOpt footer = some tail)
    (hcount : ∀ f, footer = some f → f.entryCount.toNat < 2 ^ 32) {offset : ℕ}
    (hbuf : buf.drop offset = (whole ++ torn).flatten ++ tail)
    (hwhole : offset + whole.flatten.length ≤ n) (hn : n ≤ buf.length)
    (htorn : ∀ bs rest, torn = bs :: rest → n < offset + whole.flatten.length + bs.length) :
    ∃ st', scanFrom env (buf.take n) (ScanState.start offset ()) = .done st' ∧
      st'.frames = frameInfos offset whole ∧
      st'.footer = (if buf.length ≤ n then footer.elim {} fun f => { f with present := true }
        else {}) ∧
      st'.committedEnd = if st'.footer.present then buf.length else
        offset + whole.flatten.length := by
  have hlength := congrArg List.length hbuf
  rw [List.length_drop, List.flatten_append, List.append_assoc, List.length_append,
    List.length_append] at hlength
  set rest := n - (offset + whole.flatten.length) with hrest
  have hcut : (buf.take n).drop offset =
      whole.flatten ++ (torn.flatten ++ tail).take rest := by
    have hsplit : n - offset = whole.flatten.length + rest := by omega
    rw [List.drop_take, hbuf, List.flatten_append, List.append_assoc, hsplit,
      List.take_length_add_append]
  have hpassed := scanFrom_frames env (buf.take n) _ whole (ScanState.start offset ()) () hcut rfl
    (fun bs hbs => hplain ▸ hframes bs (List.mem_append_left _ hbs))
    (noFooterImages_take rest torn whole hno) (fun h => by rw [hplain] at h; cases h)
    (deliverAll_of_no_cb env hcb whole _ _ ())
  set st := ScanState.passAll (ScanState.start offset ()) whole () with hst
  have hbehind : (buf.take n).drop st.offset = (torn.flatten ++ tail).take rest := by
    simp only [hst, ScanState.passAll, ScanState.start]
    rw [← List.drop_drop, hcut, List.drop_left]
  have hoffset : st.offset = offset + whole.flatten.length := rfl
  -- the loop ends right behind the whole frames
  have hstops : (st.offset < n → scanStep false ((torn.flatten ++ tail).take rest) st.offset =
      .stop) → scanFrom env (buf.take n) (ScanState.start offset ()) = .done st := by
    intro hstop
    rw [hpassed]
    apply scanFrom_of_rest
    intro hlt
    rw [List.length_take] at hlt
    rw [hplain, hbehind]
    exact hstop (by omega)
  cases htornc : torn with
  | cons bs more =>
    have hlt := htorn bs more htornc
    have hshort : ¬ buf.length ≤ n := by
      rw [htornc, List.flatten_cons, List.length_append] at hlength
      omega
    refine ⟨st, hstops fun _ => ?_, rfl, ?_, rfl⟩
    · have hbs : IsFrame false bs := hframes bs (by simp [htornc])
      have himage : ¬ FooterImage (bs ++ (more.flatten ++ tail)) := by
        rw [htornc] at hno
        exact (noFooterImages_drop hno).1
      rw [htornc, List.flatten_cons, List.append_assoc]
      exact scanStep_torn_frame hbs himage (by omega) _
    · rw [if_neg hshort]
      rfl
  | nil =>
    rw [htornc, List.flatten_nil, List.length_nil, Nat.zero_add] at hlength
    rw [htornc, List.flatten_nil, List.nil_append] at hbehind hstops
    cases footer with
    | none =>
      obtain rfl : tail = [] := (Option.some.inj htail).symm
      rw [List.length_nil] at hlength
      refine ⟨st, hstops fun hlt => absurd hlt (by omega), rfl, ?_, rfl⟩
      rw [Option.elim_none, ite_self]
      rfl
    | some f =>
      obtain rfl := writeFooterOpt_some htail
      rw [length_footerImage] at hlength
      by_cases hall : buf.length ≤ n
      · have htake : buf.take n = buf := List.take_of_length_le hall
        rw [htake] at hpassed hbehind ⊢
        obtain ⟨st', hst', hend, hfooter, hfr, -⟩ := scanFrom_footerOpt env buf _ (some f) st htail
          (by rw [hbehind, List.take_of_length_le (by rw [length_footerImage]; omega)])
          (by omega) rfl rfl
        refine ⟨st', hpassed.trans hst', hfr, ?_, ?_⟩
        · rw [hfooter, if_pos hall]
        · rw [hend, hfooter]
          rfl
      · refine ⟨st, hstops fun _ => ?_, rfl, ?_, rfl⟩
        · exact scanStep_torn_footer (hcount f rfl) (by omega) _
        · rw [if_neg hall]
          rfl

end Cut

/-- A cut of a list of frames at the place `n`, for frames from `offset` on. -/
structure CutAt (n offset : ℕ) (images whole torn : List Bytes) : Prop where
  split : images = whole ++ torn
  whole_le : offset + whole.flatten.length ≤ n
  lt_torn : ∀ bs rest, torn = bs :: rest → n < offset + whole.flatten.length + bs.length

/-- A later cut leaves more frames whole. -/
theorem CutAt.prefix {m n offset : ℕ} {images whole torn whole' torn' : List Bytes}
    (h : CutAt m offset images whole torn) (h' : CutAt n offset images whole' torn')
    (hle : m ≤ n) : whole <+: whole' := by
  have hp : whole <+: images := h.split ▸ List.prefix_append _ _
  have hp' : whole' <+: images := h'.split ▸ List.prefix_append _ _
  rcases List.prefix_or_prefix_of_prefix hp hp' with hpre | ⟨more, hmore⟩
  · exact hpre
  · cases more with
    | nil => exact (List.append_nil whole' ▸ hmore) ▸ List.prefix_rfl
    | cons bs more =>
      -- the next frame of the later cut would be whole in the earlier one
      have htorn : torn' = bs :: (more ++ torn) := by
        have hsplit := h.split.symm.trans h'.split
        rw [← hmore, List.append_assoc] at hsplit
        exact (List.append_cancel_left hsplit).symm
      have hlt := h'.lt_torn bs _ htorn
      have hwhole := h.whole_le
      rw [← hmore, List.flatten_append, List.flatten_cons, List.length_append,
        List.length_append] at hwhole
      omega

/-- What a metadata scan of the first `n` bytes of a segment reports: the frames that lie
wholly in these bytes, the footer only when it is complete, and the end of the last of
these. -/
structure ReportsPrefix (s : SegmentSource) (w : WrittenSegment) (n : ℕ) (out : ScanOut) :
    Prop where
  frames : out.frames = (expectedInfos false w.head.length s.frames).filter
    fun info => decide (frameEnd info ≤ n)
  footer : out.footer = if w.file.length ≤ n then s.storedFooter else {}
  committedEnd : out.committedEnd =
    if out.footer.present then w.file.length else lastEnd w.head.length out.frames

/-- **Crash-prefix consistency**: every cut behind the data offset is scanned to its prefix,
and a later cut reports no less. -/
structure CrashConsistent (evp : EvpOps) (codec : CodecOps) (s : SegmentSource)
    (w : WrittenSegment) : Prop where
  reports : ∀ n, w.head.length ≤ n → n ≤ w.file.length →
    ∃ out, metadataScan evp codec (w.file.take n) = .ok out ∧ ReportsPrefix s w n out
  grows : ∀ m n, w.head.length ≤ m → m ≤ n → n ≤ w.file.length → ∀ out out',
    metadataScan evp codec (w.file.take m) = .ok out →
    metadataScan evp codec (w.file.take n) = .ok out' →
    out.frames <+: out'.frames ∧ out.committedEnd ≤ out'.committedEnd

section Consistent

variable {evp : EvpOps} {key : FreshKey} {s : SegmentSource} {w : WrittenSegment}

/-- The header of a written segment is read whatever follows it. -/
theorem writeSegment_headSpec (laws : EvpLaws evp) {encryptor : Option SegmentEncryptor}
    (h : writeSegment evp key encryptor s = some w) :
    ∃ info, HeadSpec evp key encryptor.isSome s.padded.header s.dict w.head info := by
  obtain ⟨hok, hhead, -, -⟩ := writeSegment_eq_some h
  rw [← segmentWriteHeader_padded] at hok hhead
  rw [hhead]
  exact segmentWriteHeader_headSpec laws (zeroPadded_strnlenPrefix _ _)
    (zeroPadded_strnlenPrefix _ _) hok

/-- **A metadata scan of a cut segment**.
SOURCE: segment.c:543-738 -/
theorem metadataScan_cut (laws : EvpLaws evp) (codec : CodecOps)
    (h : writeSegment evp key none s = some w)
    (hsmall : dataOffset evp key false s.dict < 2 ^ 32) (hno : NoFooterImages w.images w.tail)
    (hcount : ∀ f, s.footer = some f → f.entryCount.toNat < 2 ^ 32) {n : ℕ}
    (hle : w.head.length ≤ n) (hn : n ≤ w.file.length) :
    ∃ whole torn out, CutAt n w.head.length w.images whole torn ∧
      metadataScan evp codec (w.file.take n) = .ok out ∧
      out.frames = frameInfos w.head.length whole ∧
      out.footer = (if w.file.length ≤ n then s.storedFooter else {}) ∧
      out.committedEnd = if out.footer.present then w.file.length else
        w.head.length + whole.flatten.length := by
  obtain ⟨info, head⟩ := writeSegment_headSpec laws h
  obtain ⟨info', spec⟩ := writeSegment_padded_spec laws h
  obtain ⟨hframes, -, -⟩ := spec.images_spec laws
  obtain ⟨whole, torn, hsplit, hwhole, htorn⟩ := exists_whole_frames n w.images _ hle
  rw [hsplit] at hframes hno
  have htake : w.file.take n =
      w.head ++ (w.images.flatten ++ w.tail).take (n - w.head.length) := by
    rw [WrittenSegment.file, ← List.take_length_add_append, Nat.add_sub_cancel' hle]
  have hparse := head.parse ((w.images.flatten ++ w.tail).take (n - w.head.length))
  rw [← htake, Nat.mod_eq_of_lt (by rw [head.head_length]; exact hsmall)] at hparse
  have hplain : (metadataEnv evp codec (w.file.take n)
      { s.padded.header with dictLen := UInt32.ofNat s.dict.length } w.head.length info).encrypted =
        false := head.flags_eq
  obtain ⟨st', hscan, hfr, hfooter, hend⟩ := scanFrom_cut hplain rfl hframes hno spec.tail hcount
    (by rw [WrittenSegment.file, List.drop_left, hsplit]) hwhole hn htorn
  exact ⟨whole, torn, _, ⟨hsplit, hwhole, htorn⟩,
    (metadataScan_eq_ok_iff _ _ _ _).mpr ⟨_, _, _, st', hparse, hscan, rfl⟩, hfr, hfooter, hend⟩

/-- Below `2^32` every cut is scanned to its prefix. -/
theorem crashConsistent_of_small (laws : EvpLaws evp) (codec : CodecOps)
    (h : writeSegment evp key none s = some w)
    (hsmall : dataOffset evp key false s.dict < 2 ^ 32) (hno : NoFooterImages w.images w.tail)
    (hcount : ∀ f, s.footer = some f → f.entryCount.toNat < 2 ^ 32) :
    CrashConsistent evp codec s w := by
  obtain ⟨info, spec⟩ := writeSegment_padded_spec laws h
  obtain ⟨hframes, hinfos, -⟩ := spec.images_spec laws
  constructor
  · intro n hle hn
    obtain ⟨whole, torn, out, hcut, hscan, hfr, hfooter, hend⟩ :=
      metadataScan_cut laws codec h hsmall hno hcount hle hn
    rw [hcut.split] at hframes hinfos
    refine ⟨out, hscan, ?_, hfooter, ?_⟩
    · rw [hfr, ← frameInfos_filter_whole hframes hcut.whole_le hcut.lt_torn, hinfos]
      rfl
    · rw [hend, hfr, lastEnd_frameInfos _ _ fun b hb => hframes b (List.mem_append_left _ hb)]
  · intro m n hlem hmn hn out out' hscan hscan'
    obtain ⟨whole, torn, out1, hcut, hscan1, hfr, hfooter, hend⟩ :=
      metadataScan_cut laws codec h hsmall hno hcount hlem (hmn.trans hn)
    obtain ⟨whole', torn', out2, hcut', hscan2, hfr', hfooter', hend'⟩ :=
      metadataScan_cut laws codec h hsmall hno hcount (hlem.trans hmn) hn
    obtain rfl := Except.ok.inj (hscan.symm.trans hscan1)
    obtain rfl := Except.ok.inj (hscan'.symm.trans hscan2)
    obtain ⟨more, hmore⟩ := hcut.prefix hcut' hmn
    have hlen : whole.flatten.length ≤ whole'.flatten.length := by
      rw [← hmore, List.flatten_append, List.length_append]
      exact Nat.le_add_right _ _
    constructor
    · rw [hfr, hfr', ← hmore, frameInfos_append]
      exact List.prefix_append _ _
    · have hwhole' := hcut'.whole_le
      have hwhole := hcut.whole_le
      rw [hend, hend']
      split
      · rename_i hpresent
        have hall : w.file.length ≤ m := by
          by_contra hshort
          rw [hfooter, if_neg hshort] at hpresent
          cases hpresent
        rw [hfooter', if_pos (hall.trans hmn)]
        rw [hfooter, if_pos hall] at hpresent
        rw [if_pos hpresent]
      · split
        · omega
        · omega

/-- A segment whose data offset wraps is not scanned to its prefix when it is cut there. -/
theorem dataOffset_lt_of_crashConsistent (laws : EvpLaws evp) (codec : CodecOps)
    (h : writeSegment evp key none s = some w) (hconsistent : CrashConsistent evp codec s w) :
    dataOffset evp key false s.dict < 2 ^ 32 := by
  by_contra hbig
  obtain ⟨info, spec⟩ := writeSegment_padded_spec laws h
  obtain ⟨hframes, hinfos, -⟩ := spec.images_spec laws
  -- cut at the data offset, the scan starts somewhere in the header
  have hfile : w.head.length ≤ w.file.length := by
    rw [WrittenSegment.file, List.length_append]
    exact Nat.le_add_right _ _
  obtain ⟨out, hscan, hreport⟩ := hconsistent.reports w.head.length le_rfl hfile
  have hnil : out.frames = [] := by
    have hcut : ∀ bs rest, w.images = bs :: rest →
        w.head.length < w.head.length + ([] : List Bytes).flatten.length + bs.length := by
      intro bs rest hsplit
      have hlen := (hframes bs (by simp [hsplit])).le_length
      rw [List.flatten_nil, List.length_nil]
      omega
    have hfilter := @frameInfos_filter_whole false w.head.length w.head.length [] w.images hframes
      le_rfl hcut
    rw [hreport.frames]
    rw [List.nil_append, hinfos] at hfilter
    exact hfilter
  have hend : w.head.length ≤ out.committedEnd := by
    rw [hreport.committedEnd, hnil]
    split
    · exact hfile
    · exact le_rfl
  obtain ⟨header, offset, info', st', hparse, hdone, rfl⟩ :=
    (metadataScan_eq_ok_iff _ _ _ _).mp hscan
  obtain ⟨info'', head⟩ := writeSegment_headSpec laws h
  have hhead := head.parse []
  rw [WrittenSegment.file, List.take_left] at hparse
  rw [List.append_nil, hparse, Option.some_inj] at hhead
  obtain ⟨rfl, rfl, rfl⟩ := hhead
  have hlt := spec.offset_lt
  have hlength := head.head_length
  change w.head.length = dataOffset evp key false s.dict at hlength
  change dataOffset evp key false s.dict < 2 * 2 ^ 32 at hlt
  rcases scanFrom_start _ rfl _ _ _ _ hdone with ⟨i, rest, hfirst, -⟩ | ⟨-, hle⟩
  · rw [hfirst] at hnil
    cases hnil
  · change w.head.length ≤ st'.committedEnd at hend
    omega

/-- **Crash-prefix consistency of plain segments**, and the only way it fails: every cut
behind the data offset is scanned to its prefix exactly when the data offset fits 32 bits.
SOURCE: segment.c:270-367, 419-504, 543-738 -/
theorem crash_prefix_consistent_iff (evp : EvpOps) (laws : EvpLaws evp) (codec : CodecOps)
    (key : FreshKey) (s : SegmentSource) (w : WrittenSegment)
    (h : writeSegment evp key none s = some w) (hno : NoFooterImages w.images w.tail)
    (hcount : ∀ f, s.footer = some f → f.entryCount.toNat < 2 ^ 32) :
    CrashConsistent evp codec s w ↔ dataOffset evp key false s.dict < 2 ^ 32 :=
  ⟨dataOffset_lt_of_crashConsistent laws codec h,
    fun hsmall => crashConsistent_of_small laws codec h hsmall hno hcount⟩

end Consistent

/-- A closed segment of one frame, cut anywhere. -/
theorem crash_prefix_consistent_one_frame :
    CrashConsistent noEvp noCodec
      ⟨plainHeader, [9, 9], [⟨0, [1, 2, 3], 3⟩], some { entryCount := 1 }⟩
      ⟨headerImage plainHeader [] [9, 9], [frameImage (frameHeader 0 3 3 23) [1, 2, 3] []],
        footerImage { entryCount := 1 }⟩ :=
  (crash_prefix_consistent_iff noEvp noEvp_laws noCodec zeroKey
    ⟨plainHeader, [9, 9], [⟨0, [1, 2, 3], 3⟩], some { entryCount := 1 }⟩
    ⟨headerImage plainHeader [] [9, 9], [frameImage (frameHeader 0 3 3 23) [1, 2, 3] []],
      footerImage { entryCount := 1 }⟩ rfl
    ⟨by rw [← footerAt_eq_none_iff]; decide +kernel, trivial⟩
    (by
      intro f hf
      obtain rfl := Option.some.inj hf
      decide)).mpr (by decide)

/-- **The data offset wraps**: a segment of a dictionary that brings it to `2^32` is not
scanned to its prefix. -/
theorem crash_prefix_wraps :
    ∃ (s : SegmentSource) (w : WrittenSegment),
      s.dict.length = 2 ^ 32 - 152 ∧ s.footer = none ∧
      writeSegment noEvp zeroKey none s = some w ∧ NoFooterImages w.images w.tail ∧
      ¬ CrashConsistent noEvp noCodec s w := by
  obtain ⟨dict, hdict⟩ : ∃ dict : Bytes, dict.length = 2 ^ 32 - 152 :=
    ⟨List.replicate _ 0, List.length_replicate⟩
  set s : SegmentSource := ⟨plainHeader, dict, [], none⟩ with hs
  have hle : ¬ dict.length > uint32Max := by simp only [uint32Max]; omega
  have hw : writeSegment noEvp zeroKey none s =
      some ⟨headerImage plainHeader [] dict, [], []⟩ := by
    simp only [writeSegment, segmentWriteHeader, hs, hle, if_false]
    rfl
  refine ⟨s, _, hdict, rfl, hw, trivial, ?_⟩
  intro hconsistent
  have hsmall := dataOffset_lt_of_crashConsistent noEvp_laws noCodec hw hconsistent
  simp only [dataOffset, hs, Bool.false_eq_true, if_false] at hsmall
  omega

end Recorder.Analysis
