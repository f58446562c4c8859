import Recorder.Analysis.RecorderRule
import Recorder.Analysis.Checkpoint

/-!
# The metadata of closed segments

The header of a segment is written with its first entry at hand, the footer from counters
that the writer updates with each entry it takes. While a segment is open the entries in its
frames and those in the chunk together are what the counters speak of (`WriterSound`), and
in a run in which no call fails every closed segment has a header and a footer that describe
its entries (`segment_metadata_sound`).
-/

set_option autoImplicit false

namespace Recorder.Analysis

open Recorder.Model

/-! ## What the metadata says -/

/-- The entries in the frames of a segment, in file order. -/
def segmentEntries (f : SegmentOnDisk) : List LogEntry := f.frames.flatMap (·.entries)

/-- Some entry is older than the one in front of it. -/
def SomeOlder (es : List LogEntry) : Prop :=
  ∃ before a b after, es = before ++ a :: b :: after ∧ b.realtimeTs < a.realtimeTs

/-- **Sound metadata**: what header and footer of a closed segment say of its entries. At
most `limit` entries are counted. -/
structure SegmentSound (limit : ℕ) (f : SegmentOnDisk) (footer : SegmentFooter) : Prop where
  boot : ∀ e ∈ segmentEntries f, strnlenPrefix bootIdSize f.header.bootId = e.bootId
  first : ((segmentEntries f).head?.map (·.realtimeTs)) = some f.header.firstRealtimeTs
  lower : ∀ e ∈ segmentEntries f, f.header.firstRealtimeTs.toNat - 1000 ≤ e.realtimeTs.toNat
  upper : ∀ e ∈ segmentEntries f, e.realtimeTs ≤ footer.lastRealtimeTs
  reached : ∃ e ∈ segmentEntries f, e.realtimeTs = footer.lastRealtimeTs
  count : footer.entryCount = UInt64.ofNat (segmentEntries f).length
  count_le : (segmentEntries f).length ≤ limit
  nonmonotonic : footer.footerFlags &&& footerFlagRealtimeNonmonotonic ≠ 0 ↔
    SomeOlder (segmentEntries f)

/-- One more entry steps back if it is older than the last one. -/
theorem someOlder_append {es : List LogEntry} {e : LogEntry} :
    SomeOlder (es ++ [e]) ↔ SomeOlder es ∨ ∃ a ∈ es.getLast?, e.realtimeTs < a.realtimeTs := by
  constructor
  · rintro ⟨before, a, b, after, heq, hlt⟩
    rcases List.eq_nil_or_concat after with rfl | ⟨after, last, rfl⟩
    · right
      have hsplit : es ++ [e] = (before ++ [a]) ++ [b] := by simpa using heq
      obtain ⟨rfl, hb⟩ := List.append_inj' hsplit rfl
      rw [List.singleton_inj] at hb
      exact ⟨a, by simp, by rw [hb]; exact hlt⟩
    · left
      have hsplit : es ++ [e] = (before ++ a :: b :: after) ++ [last] := by simpa using heq
      exact ⟨before, a, b, after, (List.append_inj' hsplit rfl).1, hlt⟩
  · rintro (⟨before, a, b, after, rfl, hlt⟩ | ⟨a, ha, hlt⟩)
    · exact ⟨before, a, b, after ++ [e], by simp, hlt⟩
    · rw [Option.mem_def, List.getLast?_eq_some_iff] at ha
      obtain ⟨before, rfl⟩ := ha
      exact ⟨before, a, e, [], by simp, hlt⟩

/-- No entry steps back. -/
theorem not_someOlder_nil : ¬ SomeOlder [] := by
  rintro ⟨before, a, b, after, heq, -⟩
  simp at heq

/-! ## Open segments -/

/-- The entries a writer has taken for its segment. -/
def writerEntries (w : PriorityWriter) (f : SegmentOnDisk) : List LogEntry :=
  segmentEntries f ++ w.chunk

/-- The counters of a writer with an open segment. -/
structure WriterSound (w : PriorityWriter) (f : SegmentOnDisk) : Prop where
  bootId : strnlenPrefix bootIdSize f.header.bootId = w.bootId
  bootId_ne : w.bootId ≠ []
  boot : ∀ e ∈ writerEntries w f, e.bootId = w.bootId
  header : f.header.firstRealtimeTs = w.firstRealtimeTs
  first : ∀ e ∈ (writerEntries w f).head?, e.realtimeTs = w.firstRealtimeTs
  lower : ∀ e ∈ writerEntries w f, w.firstRealtimeTs.toNat - 1000 ≤ e.realtimeTs.toNat
  previous : ∀ e ∈ (writerEntries w f).getLast?, e.realtimeTs = w.previousRealtimeTs
  upper : ∀ e ∈ writerEntries w f, e.realtimeTs ≤ w.maxRealtimeTs
  reached : writerEntries w f ≠ [] → ∃ e ∈ writerEntries w f, e.realtimeTs = w.maxRealtimeTs
  count : w.entryCount = UInt64.ofNat (writerEntries w f).length
  nonmonotonic : w.realtimeNonmonotonic = true ↔ SomeOlder (writerEntries w f)

/-- An entry that the open segment of a writer takes. The first one is the entry the segment
was opened for. -/
structure WriterTakes (w : PriorityWriter) (f : SegmentOnDisk) (e : LogEntry) : Prop where
  bootId : e.bootId = w.bootId
  lower : w.firstRealtimeTs.toNat - 1000 ≤ e.realtimeTs.toNat
  first : writerEntries w f = [] → e.realtimeTs = w.firstRealtimeTs ∧
    e.realtimeTs = w.previousRealtimeTs ∧ e.realtimeTs = w.maxRealtimeTs

/-- The counters two writers share. -/
structure SameCounters (w w' : PriorityWriter) : Prop where
  bootId : w'.bootId = w.bootId
  firstRealtimeTs : w'.firstRealtimeTs = w.firstRealtimeTs
  previousRealtimeTs : w'.previousRealtimeTs = w.previousRealtimeTs
  maxRealtimeTs : w'.maxRealtimeTs = w.maxRealtimeTs
  entryCount : w'.entryCount = w.entryCount
  realtimeNonmonotonic : w'.realtimeNonmonotonic = w.realtimeNonmonotonic

section Writers

variable {w w' : PriorityWriter} {f f' : SegmentOnDisk} {e : LogEntry}

/-- The counters are sound for the same entries and header. -/
theorem WriterSound.of_eq (h : WriterSound w f) (hsame : SameCounters w w')
    (hheader : f'.header = f.header) (hentries : writerEntries w' f' = writerEntries w f) :
    WriterSound w' f' := by
  obtain ⟨h1, h2, h3, h4, h5, h6⟩ := hsame
  constructor
  · rw [hheader, h1]
    exact h.bootId
  · rw [h1]
    exact h.bootId_ne
  · rw [hentries, h1]
    exact h.boot
  · rw [hheader, h2]
    exact h.header
  · rw [hentries, h2]
    exact h.first
  · rw [hentries, h2]
    exact h.lower
  · rw [hentries, h3]
    exact h.previous
  · rw [hentries, h4]
    exact h.upper
  · rw [hentries, h4]
    exact h.reached
  · rw [hentries, h5]
    exact h.count
  · rw [hentries, h6]
    exact h.nonmonotonic

/-- `recorder_submit_entry` keeps the counters up to date. -/
theorem WriterSound.add (h : WriterSound w f) (htakes : WriterTakes w f e) :
    WriterSound (writerAddEntry w e) f := by
  have hentries : writerEntries (writerAddEntry w e) f = writerEntries w f ++ [e] := by
    simp [writerEntries, writerAddEntry]
  -- the new maximum is the entry's time or the old maximum, whichever is later
  have hmax : (e.realtimeTs ≤ w.maxRealtimeTs ∧
      (writerAddEntry w e).maxRealtimeTs = w.maxRealtimeTs) ∨
      (w.maxRealtimeTs ≤ e.realtimeTs ∧
        (writerAddEntry w e).maxRealtimeTs = e.realtimeTs) := by
    simp only [writerAddEntry]
    split
    · rename_i hgt
      exact .inr ⟨UInt64.le_of_lt hgt, rfl⟩
    · rename_i hle
      exact .inl ⟨UInt64.not_lt.mp hle, rfl⟩
  constructor
  · exact h.bootId
  · exact h.bootId_ne
  · intro x hx
    rw [hentries, List.mem_append, List.mem_singleton] at hx
    rcases hx with hx | rfl
    · exact h.boot x hx
    · exact htakes.bootId
  · exact h.header
  · intro x hx
    rw [hentries, List.head?_append] at hx
    cases hempty : (writerEntries w f).head? with
    | none =>
      rw [hempty] at hx
      have hxe : e = x := by simpa using hx
      rw [← hxe]
      exact (htakes.first (List.head?_eq_none_iff.mp hempty)).1
    | some y =>
      rw [hempty] at hx
      have hxy : y = x := by simpa using hx
      rw [← hxy]
      exact h.first y hempty
  · intro x hx
    rw [hentries, List.mem_append, List.mem_singleton] at hx
    rcases hx with hx | rfl
    · exact h.lower x hx
    · exact htakes.lower
  · intro x hx
    rw [hentries, List.getLast?_concat] at hx
    cases hx
    rfl
  · intro x hx
    rw [hentries, List.mem_append, List.mem_singleton] at hx
    rcases hx with hx | rfl
    · have hold := h.upper x hx
      rcases hmax with ⟨-, hnew⟩ | ⟨hle, hnew⟩
      · rw [hnew]
        exact hold
      · rw [hnew]
        exact UInt64.le_trans hold hle
    · rcases hmax with ⟨hle, hnew⟩ | ⟨-, hnew⟩
      · rw [hnew]
        exact hle
      · rw [hnew]
        exact UInt64.le_refl _
  · intro _
    rw [hentries]
    rcases hmax with ⟨hle, hnew⟩ | ⟨-, hnew⟩
    · rw [hnew]
      by_cases hempty : writerEntries w f = []
      · exact ⟨e, by simp, (htakes.first hempty).2.2⟩
      · obtain ⟨x, hx, hxmax⟩ := h.reached hempty
        exact ⟨x, by simp [hx], hxmax⟩
    · exact ⟨e, by simp, hnew.symm⟩
  · rw [hentries, List.length_append, List.length_singleton, UInt64.ofNat_add, ← h.count]
    rfl
  · rw [hentries, someOlder_append, ← h.nonmonotonic]
    simp only [writerAddEntry, Bool.or_eq_true, decide_eq_true_eq]
    constructor
    · rintro (hflag | hlt)
      · exact .inl hflag
      · right
        cases hlast : (writerEntries w f).getLast? with
        | none =>
          have hprevious := (htakes.first (List.getLast?_eq_none_iff.mp hlast)).2.1
          rw [hprevious] at hlt
          exact absurd hlt (UInt64.lt_irrefl _)
        | some y =>
          refine ⟨y, rfl, ?_⟩
          rw [h.previous y hlast]
          exact hlt
    · rintro (hflag | ⟨y, hy, hlt⟩)
      · exact .inl hflag
      · right
        rw [← h.previous y hy]
        exact hlt

/-- A segment is closed when its chunk is in the file. -/
theorem WriterSound.finish (h : WriterSound w f) (hchunk : w.chunk = [])
    (hne : writerEntries w f ≠ []) {limit : ℕ} (hle : (writerEntries w f).length ≤ limit)
    (reason : RotateReason) (content : Bytes) :
    SegmentSound limit { f with content := content, footer := some (writerFooter w reason) }
      (writerFooter w reason) := by
  have hentries : writerEntries w f = segmentEntries f := by simp [writerEntries, hchunk]
  rw [hentries] at hne hle
  have hboot := h.boot
  have hfirst := h.first
  have hlower := h.lower
  have hupper := h.upper
  have hreached := h.reached
  have hcount := h.count
  have hflag := h.nonmonotonic
  rw [hentries] at hboot hfirst hlower hupper hreached hcount hflag
  constructor
  · intro e he
    rw [hboot e he]
    exact h.bootId
  · obtain ⟨e, es, hes⟩ := List.exists_cons_of_ne_nil hne
    have heq := hfirst e (by rw [hes]; rfl)
    rw [← h.header] at heq
    change (segmentEntries f).head?.map _ = _
    rw [hes]
    simpa using heq
  · rw [h.header]
    exact hlower
  · exact hupper
  · exact hreached hne
  · exact hcount
  · exact hle
  · change _ ↔ SomeOlder (segmentEntries f)
    rw [← hflag]
    simp only [writerFooter]
    cases w.realtimeNonmonotonic <;> simp [footerFlagRealtimeNonmonotonic]

end Writers

/-! ## Calls of the writers -/

section Calls

variable {env : RecorderEnv} {config : RecorderConfig} {t gi limit : ℕ} {w : PriorityWriter}

/-- A frame that was written leaves the counters. -/
theorem finishFrame_counters (env : RecorderEnv) (config : RecorderConfig) (t gi length : ℕ)
    (w : PriorityWriter) : SameCounters w (finishFrame env config t gi length w).2 := by
  unfold finishFrame
  split
  · exact ⟨rfl, rfl, rfl, rfl, rfl, rfl⟩
  · simp only
    split
    · split <;> exact ⟨rfl, rfl, rfl, rfl, rfl, rfl⟩
    · exact ⟨rfl, rfl, rfl, rfl, rfl, rfl⟩

/-- **What a flush can do**: nothing, lose the chunk, or append a frame with it. -/
theorem writerFlushChunk_cases (env : RecorderEnv) (config : RecorderConfig) (t gi : ℕ)
    (w : PriorityWriter) :
    writerFlushChunk env config t gi w = (none, w) ∨
    (∃ err w', writerFlushChunk env config t gi w = (some err, w') ∧ SameCounters w w' ∧
      (w'.file = w.file ∨
        ∃ f content, w.file = some f ∧ w'.file = some { f with content := content })) ∨
    ∃ f content encryptor, w.file = some f ∧ writerFlushChunk env config t gi w =
      finishFrame env config t gi content.length
        { w with
          chunk := []
          file := some
            { f with
              content := content
              frames := f.frames ++ [⟨f.content.length, w.chunk⟩] }
          encryptor := encryptor } := by
  by_cases hchunk : w.chunk = []
  · left
    exact writerFlushChunk_of_nil gi hchunk
  · right
    unfold writerFlushChunk
    rw [if_neg hchunk]
    simp only
    cases hfile : w.file with
    | none => exact .inl ⟨_, _, rfl, ⟨rfl, rfl, rfl, rfl, rfl, rfl⟩, .inl rfl⟩
    | some f =>
      simp only
      split
      · exact .inl ⟨_, _, rfl, ⟨rfl, rfl, rfl, rfl, rfl, rfl⟩, .inl rfl⟩
      · split
        · exact .inl ⟨_, _, rfl, ⟨rfl, rfl, rfl, rfl, rfl, rfl⟩, .inl rfl⟩
        · split
          · exact .inl ⟨_, _, rfl, ⟨rfl, rfl, rfl, rfl, rfl, rfl⟩, .inr ⟨f, _, rfl, rfl⟩⟩
          · exact .inr ⟨f, _, _, rfl, rfl⟩

/-- The counters of an open writer and of one without a segment, with at most `limit` entries
taken. -/
structure GroupSound (limit : ℕ) (w : PriorityWriter) : Prop where
  closed : w.file = none → w.chunk = []
  opened : ∀ f, w.file = some f →
    WriterSound w f ∧ writerEntries w f ≠ [] ∧ (writerEntries w f).length ≤ limit

/-- A larger limit. -/
theorem GroupSound.mono (h : GroupSound limit w) {limit' : ℕ} (hle : limit ≤ limit') :
    GroupSound limit' w where
  closed := h.closed
  opened f hf := ⟨(h.opened f hf).1, (h.opened f hf).2.1, le_trans (h.opened f hf).2.2 hle⟩

/-- A flush that does not fail moves the chunk into the frames of the segment. -/
theorem GroupSound.flush (h : GroupSound limit w)
    (hok : (writerFlushChunk env config t gi w).1 = none) :
    GroupSound limit (writerFlushChunk env config t gi w).2 := by
  rcases writerFlushChunk_cases env config t gi w with
    hres | ⟨err, w', hres, -⟩ | ⟨f, content, encryptor, hfile, hres⟩
  · rw [hres]
    exact h
  · rw [hres] at hok
    cases hok
  · have hcounters := finishFrame_counters env config t gi content.length
      { w with
        chunk := []
        file := some
          { f with
            content := content
            frames := f.frames ++ [⟨f.content.length, w.chunk⟩] }
        encryptor := encryptor }
    obtain ⟨hkeepFile, hkeepChunk, -⟩ := finishFrame_keeps env config t gi content.length
      { w with
        chunk := []
        file := some
          { f with
            content := content
            frames := f.frames ++ [⟨f.content.length, w.chunk⟩] }
        encryptor := encryptor }
    rw [← hres] at hcounters hkeepFile hkeepChunk
    constructor
    · intro _
      exact hkeepChunk
    · intro f' hf'
      rw [hkeepFile, Option.some.injEq] at hf'
      have hentries : writerEntries (writerFlushChunk env config t gi w).2 f' =
          writerEntries w f := by
        rw [← hf']
        simp [writerEntries, segmentEntries, hkeepChunk]
      rw [hentries]
      obtain ⟨hsound, hne, hle⟩ := h.opened f hfile
      refine ⟨hsound.of_eq ?_ ?_ hentries, hne, hle⟩
      · exact ⟨hcounters.1, hcounters.2, hcounters.3, hcounters.4, hcounters.5, hcounters.6⟩
      · rw [← hf']

/-- A sync leaves the counters sound. -/
theorem GroupSound.sync (h : GroupSound limit w) :
    GroupSound limit (writerSyncIfDue env config t gi w).2 := by
  have hmoved : GroupSound limit (w.synced (env.monotonicSec t)) := by
    refine ⟨h.closed, fun f hf => ⟨(h.opened f hf).1.of_eq ?_ rfl rfl, (h.opened f hf).2⟩⟩
    exact ⟨rfl, rfl, rfl, rfl, rfl, rfl⟩
  unfold writerSyncIfDue
  simp only
  split
  · exact h
  · split
    · split
      · exact h
      · exact hmoved
    · exact h

/-- The segment of a writer that is closed without a failure. -/
theorem GroupSound.finish (h : GroupSound limit w) {f : SegmentOnDisk} (hfile : w.file = some f)
    (hchunk : w.chunk = []) {reason : RotateReason}
    (hok : (writerFinishSegment env t w f reason).1 = none) :
    (∀ limit', GroupSound limit' (writerFinishSegment env t w f reason).2.1) ∧
      ∃ footer, (writerFinishSegment env t w f reason).2.2.footer = some footer ∧
        SegmentSound limit (writerFinishSegment env t w f reason).2.2 footer := by
  obtain ⟨hsound, hne, hle⟩ := h.opened f hfile
  unfold writerFinishSegment at hok ⊢
  simp only at hok ⊢
  split at hok
  · rename_i hwritten
    rw [if_pos hwritten]
    split at hok
    · cases hok
    · split at hok
      · cases hok
      · refine ⟨fun limit' => ⟨fun _ => hchunk, fun f hf => ?_⟩, writerFooter w reason, rfl, ?_⟩
        · cases hf
        · exact hsound.finish hchunk hne hle reason _
  · cases hok

/-- **What opening a segment without a failure does.** -/
theorem writerOpenSegment_ok {seq clockJumpSeq : UInt64} {e : LogEntry}
    (h : (writerOpenSegment env config t gi seq clockJumpSeq w e).errno = none) :
    (writerOpenSegment env config t gi seq clockJumpSeq w e).orphan = none ∧
    ∃ f, (writerOpenSegment env config t gi seq clockJumpSeq w e).writer.file = some f ∧
      f.header = newSegmentHeader env config t gi seq e ∧ f.frames = [] ∧
      (writerOpenSegment env config t gi seq clockJumpSeq w e).writer.chunk = w.chunk ∧
      SameCounters
        { w with
          bootId := e.bootId
          firstRealtimeTs := e.realtimeTs
          previousRealtimeTs := e.realtimeTs
          maxRealtimeTs := e.realtimeTs
          entryCount := 0
          realtimeNonmonotonic := false }
        (writerOpenSegment env config t gi seq clockJumpSeq w e).writer := by
  unfold writerOpenSegment at h ⊢
  split at h
  · cases h
  · simp only at h ⊢
    split at h
    · cases h
    · split at h
      · cases h
      · exact ⟨rfl, _, rfl, rfl, rfl, rfl, ⟨rfl, rfl, rfl, rfl, rfl, rfl⟩⟩

/-- A new segment takes the entry it was opened for. -/
theorem GroupSound.open (h : GroupSound limit w) (hclosed : w.file = none)
    {seq clockJumpSeq : UInt64} {e : LogEntry} (hboot : e.bootId ≠ [])
    (hok : (writerOpenSegment env config t gi seq clockJumpSeq w e).errno = none) :
    ∃ f, (writerOpenSegment env config t gi seq clockJumpSeq w e).writer.file = some f ∧
      WriterSound (writerOpenSegment env config t gi seq clockJumpSeq w e).writer f ∧
      WriterTakes (writerOpenSegment env config t gi seq clockJumpSeq w e).writer f e ∧
      writerEntries (writerOpenSegment env config t gi seq clockJumpSeq w e).writer f = [] := by
  obtain ⟨-, f, hfile, hheader, hframes, hchunk, h1, h2, h3, h4, h5, h6⟩ :=
    writerOpenSegment_ok hok
  simp only at h1 h2 h3 h4 h5 h6
  have hempty : writerEntries (writerOpenSegment env config t gi seq clockJumpSeq w e).writer f =
      [] := by
    simp [writerEntries, segmentEntries, hframes, hchunk, h.closed hclosed]
  refine ⟨f, hfile, ?_, ?_, hempty⟩
  · constructor
    · rw [hheader, h1]
      exact strnlenPrefix_zeroPad _ _ e.bootId_chars e.bootId_length
    · rw [h1]
      exact hboot
    · rw [hempty]
      nofun
    · rw [hheader, h2]
      rfl
    · rw [hempty]
      nofun
    · rw [hempty]
      nofun
    · rw [hempty]
      nofun
    · rw [hempty]
      nofun
    · intro hne
      exact absurd hempty hne
    · rw [hempty, h5]
      rfl
    · rw [hempty, h6]
      simp [not_someOlder_nil]
  · constructor
    · exact h1.symm
    · rw [h2]
      omega
    · intro _
      rw [h2, h3, h4]
      exact ⟨rfl, rfl, rfl⟩

/-- A writer that does not rotate takes the entry. -/
theorem GroupSound.stays (h : GroupSound limit w) {f : SegmentOnDisk} (hfile : w.file = some f)
    {e : LogEntry} (hboot : e.bootId ≠ []) {clockJumpSeq : UInt64} {clockJumpUsec : ℤ}
    (hstays : writerShouldRotate env config t clockJumpSeq clockJumpUsec w e = .none) :
    WriterTakes w f e := by
  obtain ⟨hsound, hne, -⟩ := h.opened f hfile
  unfold writerShouldRotate at hstays
  rw [if_neg (by simp [PriorityWriter.isOpen, hfile])] at hstays
  split at hstays
  · split at hstays <;> cases hstays
  · split at hstays
    · cases hstays
    · rename_i hback
      split at hstays
      · cases hstays
      · rename_i hsame
        constructor
        · by_contra hdiff
          exact hsame ⟨hsound.bootId_ne, hboot, Ne.symm hdiff⟩
        · by_contra hold
          apply hback
          have hlt : e.realtimeTs < w.firstRealtimeTs := by
            rw [UInt64.lt_iff_toNat_lt]
            omega
          refine ⟨hlt, ?_⟩
          rw [gt_iff_lt, UInt64.lt_iff_toNat_lt, UInt64.toNat_sub_of_le _ _ (UInt64.le_of_lt hlt)]
          have hthreshold : clockBackwardJumpThreshold.toNat = 1000 := rfl
          omega
        · intro hempty
          exact absurd hempty hne

end Calls

/-! ## Runs -/

/-- How many entries a segment can have at a stage: each journal entry is stored once. -/
def entryLimit (journal : List LogEntry) (x : Stage) (r : RecorderState) : ℕ :=
  match x with
  | .holding _ => min r.position journal.length - 1
  | _ => min r.position journal.length

/-- The invariant of a run without failures that started with the segments `old`. -/
structure MetadataInv (journal : List LogEntry) (old : List SegmentOnDisk) (x : Stage)
    (r : RecorderState) : Prop where
  writers : ∀ gi, GroupSound (entryLimit journal x r) (r.writers gi)
  closed : ∃ closed, r.closed = old ++ closed ∧
    ∀ f ∈ closed, ∃ footer, f.footer = some footer ∧ SegmentSound journal.length f footer
  pending : r.currentEntryPending = false
  held : ∀ e, x = .holding e → e.bootId ≠ [] ∧ 0 < r.position ∧ r.position ≤ journal.length

section Runs

variable {env : RecorderEnv} {config : RecorderConfig} {journal : List LogEntry}
  {old : List SegmentOnDisk} {r r' : RecorderState} {x : Stage} {e : LogEntry} {gi : ℕ}

/-- No more entries are handled than the journal has. -/
theorem entryLimit_le : entryLimit journal x r ≤ journal.length := by
  unfold entryLimit
  split <;> omega

/-- What leaves the segments alone keeps the invariant. -/
theorem MetadataInv.same (h : MetadataInv journal old x r) (hsame : SameStored r r') :
    MetadataInv journal old x r' := by
  have hlimit : entryLimit journal x r' = entryLimit journal x r := by
    unfold entryLimit
    rw [hsame.position]
  constructor
  · rw [hlimit, hsame.writers]
    exact h.writers
  · rw [hsame.closed]
    exact h.closed
  · rw [hsame.currentEntryPending]
    exact h.pending
  · rw [hsame.position]
    exact h.held

/-- Another writer of one group. -/
theorem MetadataInv.update (h : MetadataInv journal old x r) (gi : ℕ) {w : PriorityWriter}
    (hw : GroupSound (entryLimit journal x r) w) (flushes : List (ℕ × PriorityWriter)) :
    MetadataInv journal old x
      { r with
        writers := Function.update r.writers gi w
        history := { r.history with flushes := flushes } } := by
  refine ⟨fun gj => ?_, h.closed, h.pending, h.held⟩
  by_cases hgj : gj = gi
  · rw [hgj]
    simp only [Function.update_self]
    exact hw
  · simp only [Function.update_of_ne hgj]
    exact h.writers gj

/-- Nothing failed, and neither did the call. -/
theorem after_failed_eq {errno : Option Errno} (h : (r.after errno).history.failed = false) :
    r.history.failed = false ∧ errno = none := by
  simp only [RecorderState.after, Bool.or_eq_false_iff, Option.isSome_eq_false_iff,
    Option.isNone_iff_eq_none] at h
  exact h

/-- A recorder without failures whose writer of a group takes an entry. -/
structure MetadataAdmits (journal : List LogEntry) (old : List SegmentOnDisk) (gi : ℕ)
    (e : LogEntry) (r : RecorderState) : Prop where
  others : ∀ gj, gj ≠ gi → GroupSound (entryLimit journal (.holding e) r) (r.writers gj)
  writer : ∃ f, (r.writers gi).file = some f ∧ WriterSound (r.writers gi) f ∧
    WriterTakes (r.writers gi) f e ∧
    (writerEntries (r.writers gi) f).length ≤ entryLimit journal (.holding e) r
  closed : ∃ closed, r.closed = old ++ closed ∧
    ∀ f ∈ closed, ∃ footer, f.footer = some footer ∧ SegmentSound journal.length f footer
  pending : r.currentEntryPending = false
  held : e.bootId ≠ [] ∧ 0 < r.position ∧ r.position ≤ journal.length

/-- A flush that succeeds keeps the invariant. -/
theorem MetadataInv.flush (h : MetadataInv journal old x r)
    (hok : (r.flushChunk env config gi).2.history.failed = false) :
    MetadataInv journal old x (r.flushChunk env config gi).2 := by
  unfold RecorderState.flushChunk at hok ⊢
  have hnone := (after_failed_eq hok).2
  exact (h.update gi ((h.writers gi).flush hnone) _).same (RecorderRule.after_same _ _)

/-- Closing a segment keeps the invariant: its footer has the counters. -/
theorem MetadataInv.finish (h : MetadataInv journal old x r) {f : SegmentOnDisk}
    {reason : RotateReason} (hfile : (r.writers gi).file = some f)
    (hchunk : (r.writers gi).chunk = [])
    (hok : (finishedSegment env r gi f reason).history.failed = false) :
    MetadataInv journal old x (finishedSegment env r gi f reason) := by
  have hres : finishedSegment env r gi f reason =
      { r with
        writers := Function.update r.writers gi
          (writerFinishSegment env r.tick (r.writers gi) f reason).2.1
        closed := r.closed ++ [(writerFinishSegment env r.tick (r.writers gi) f reason).2.2] }.after
          (writerFinishSegment env r.tick (r.writers gi) f reason).1 := rfl
  rw [hres] at hok ⊢
  have hnone := (after_failed_eq hok).2
  obtain ⟨hwriter, footer, hfooter, hsound⟩ :=
    ((h.writers gi).mono entryLimit_le).finish hfile hchunk hnone
  have hupdate := h.update gi (hwriter (entryLimit journal x r)) r.history.flushes
  apply MetadataInv.same _ (RecorderRule.after_same _ _)
  refine ⟨hupdate.writers, ?_, h.pending, h.held⟩
  obtain ⟨closed, hclosed, hall⟩ := h.closed
  refine ⟨closed ++ [(writerFinishSegment env r.tick (r.writers gi) f reason).2.2], ?_, ?_⟩
  · simp only [hclosed, List.append_assoc]
  · intro g hg
    rw [List.mem_append, List.mem_singleton] at hg
    rcases hg with hg | rfl
    · exact hall g hg
    · exact ⟨footer, hfooter, hsound⟩

/-- A retention pass keeps the invariant. -/
theorem MetadataInv.retention (h : MetadataInv journal old x r) :
    MetadataInv journal old x (r.retention env config).2 := by
  unfold RecorderState.retention
  split
  · exact ⟨h.writers, h.closed, h.pending, h.held⟩
  · exact ⟨h.writers, h.closed, h.pending, h.held⟩

/-- A segment that was opened takes the entry at hand. -/
theorem MetadataInv.open (h : MetadataInv journal old (.holding e) r)
    (hfile : (r.writers gi).file = none)
    (hok : (r.openSegment env config gi e).2.history.failed = false) :
    MetadataAdmits journal old gi e (r.openSegment env config gi e).2 := by
  unfold RecorderState.openSegment at hok ⊢
  have hnone := (after_failed_eq hok).2
  have hheld := h.held e rfl
  obtain ⟨f, hopened, hsound, htakes, hempty⟩ :=
    GroupSound.open (h.writers gi) hfile hheld.1 hnone
  obtain ⟨horphan, -⟩ := writerOpenSegment_ok hnone
  constructor
  · intro gj hgj
    simp only [RecorderState.after, Function.update_of_ne hgj]
    exact h.writers gj
  · simp only [RecorderState.after, Function.update_self]
    exact ⟨f, hopened, hsound, htakes, by rw [hempty]; exact Nat.zero_le _⟩
  · simp only [RecorderState.after, horphan, Option.toList_none, List.append_nil]
    exact h.closed
  · exact h.pending
  · exact hheld

/-- A segment that is not rotated takes the entry at hand. -/
theorem MetadataInv.stays (h : MetadataInv journal old (.holding e) r)
    (hopen : (r.writers gi).isOpen = true) {t : ℕ}
    (hstays : writerShouldRotate env config t r.clockJumpSeq r.clockJumpUsec (r.writers gi) e =
      .none) : MetadataAdmits journal old gi e r := by
  obtain ⟨f, hfile⟩ := Option.isSome_iff_exists.mp hopen
  have hheld := h.held e rfl
  obtain ⟨hsound, -, hle⟩ := (h.writers gi).opened f hfile
  exact ⟨fun gj _ => h.writers gj, ⟨f, hfile, hsound, (h.writers gi).stays hfile hheld.1 hstays,
    hle⟩, h.closed, h.pending, hheld⟩

/-- The entry is counted. -/
theorem MetadataAdmits.add (h : MetadataAdmits journal old gi e r) :
    MetadataInv journal old (.stored e) (addedEntry r gi e) := by
  unfold addedEntry
  apply MetadataInv.same _ (RecorderRule.after_same _ _)
  have hroom : entryLimit journal (.holding e) r + 1 = entryLimit journal (.stored e) r := by
    have hpos := h.held.2
    simp only [entryLimit]
    omega
  refine ⟨fun gj => ?_, h.closed, h.pending, fun e' he' => by cases he'⟩
  by_cases hgj : gj = gi
  · rw [hgj]
    simp only [Function.update_self]
    obtain ⟨f, hfile, hsound, htakes, hle⟩ := h.writer
    have hentries : writerEntries (writerAddEntry (r.writers gi) e) f =
        writerEntries (r.writers gi) f ++ [e] := by
      simp [writerEntries, writerAddEntry]
    constructor
    · intro hnone
      rw [show (writerAddEntry (r.writers gi) e).file = (r.writers gi).file from rfl, hfile]
        at hnone
      cases hnone
    · intro f' hf'
      rw [show (writerAddEntry (r.writers gi) e).file = (r.writers gi).file from rfl, hfile,
        Option.some.injEq] at hf'
      rw [← hf', hentries]
      refine ⟨hsound.add htakes, by simp, ?_⟩
      rw [List.length_append, List.length_singleton]
      change _ ≤ entryLimit journal (.stored e) r
      omega
  · simp only [Function.update_of_ne hgj]
    exact (h.others gj hgj).mono (le_trans (Nat.le_succ _) (le_of_eq hroom))

/-- The next entry of the journal is at hand. -/
theorem MetadataInv.next (h : MetadataInv journal old .idle r)
    (he : journal[(atNextEntry r).position - 1]? = some e) (hboot : e.bootId ≠ []) :
    MetadataInv journal old (.holding e) (atNextEntry r) ∧
      MetadataInv journal old .idle (atNextEntry r) := by
  obtain ⟨hlt, -⟩ := List.getElem?_eq_some_iff.mp he
  have hposition : (atNextEntry r).position = r.position + 1 := by
    simp only [atNextEntry, h.pending, Bool.false_eq_true, if_false]
  have hheld : entryLimit journal .idle r ≤ entryLimit journal (.holding e) (atNextEntry r) := by
    simp only [entryLimit]
    omega
  have hidle : entryLimit journal .idle r ≤ entryLimit journal .idle (atNextEntry r) := by
    simp only [entryLimit]
    omega
  refine ⟨⟨fun gi => (h.writers gi).mono hheld, h.closed, rfl, ?_⟩,
    ⟨fun gi => (h.writers gi).mono hidle, h.closed, rfl, fun e' he' => by cases he'⟩⟩
  rintro e' ⟨⟩
  exact ⟨hboot, by omega, by omega⟩

/-- Receiving an entry changes the table of boots and its tie order only. -/
theorem received_same (r : RecorderState) (e : LogEntry) :
    (received r e).1.writers = r.writers ∧ (received r e).1.closed = r.closed ∧
      (received r e).1.position = r.position ∧
      (received r e).1.currentEntryPending = r.currentEntryPending ∧
      (received r e).1.history = r.history ∧ (received r e).2.bootId = e.bootId := by
  unfold received recorderAssignMonotonicTieOrder
  simp only
  split <;> exact ⟨rfl, rfl, rfl, rfl, rfl, rfl⟩

/-- No call breaks the invariant. -/
theorem metadata_rule (env : RecorderEnv) (config : RecorderConfig) (old : List SegmentOnDisk)
    (hboot : ∀ e ∈ journal, e.bootId ≠ []) :
    RecorderRule env config journal
      (fun x r => r.history.failed = false → MetadataInv journal old x r)
      (fun gi e r => r.history.failed = false → MetadataAdmits journal old gi e r) where
  same hsame h hok := (h (hsame.failed hok)).same hsame
  receive := by
    intro r e he h hok
    obtain ⟨hwriters, hclosed, hposition, hpending, hhistory, hid⟩ :=
      received_same (atNextEntry r) e
    rw [hhistory] at hok
    have hnext := ((h hok).next he (hboot e (List.mem_of_getElem? he))).1
    refine ⟨?_, by rw [hclosed]; exact hnext.closed, by rw [hpending]; exact hnext.pending, ?_⟩
    · have hlimit : entryLimit journal (.holding (received (atNextEntry r) e).2)
          (received (atNextEntry r) e).1 = entryLimit journal (.holding e) (atNextEntry r) := by
        simp only [entryLimit, hposition]
      rw [hwriters, hlimit]
      exact hnext.writers
    · rintro e' ⟨⟩
      rw [hid, hposition]
      exact hnext.held e rfl
  numbered := by
    intro r e he h hok
    have hnext := ((h hok).next he (hboot e (List.mem_of_getElem? he))).2
    exact ⟨hnext.writers, hnext.closed, hnext.pending, hnext.held⟩
  modified := by
    intro r e priority texts h hok
    refine ⟨(h hok).writers, (h hok).closed, (h hok).pending, ?_⟩
    rintro e' ⟨⟩
    exact (h hok).held e rfl
  dropped := by
    intro r e h hok
    have hle : entryLimit journal (.holding e) r ≤ entryLimit journal .idle r := Nat.sub_le _ _
    exact ⟨fun gi => ((h hok).writers gi).mono hle, (h hok).closed, (h hok).pending,
      fun e' he' => by cases he'⟩
  pending := by
    intro r e hfailed h hok
    rw [hfailed] at hok
    cases hok
  accepted position h hok := ⟨(h hok).writers, (h hok).closed, (h hok).pending,
    fun e' he' => by cases he'⟩
  again := by
    intro r e hfailed h hok
    rw [hfailed] at hok
    cases hok
  flush gi h hok := (h (after_failed_eq hok).1).flush hok
  sync := by
    intro x r gi h hok
    unfold RecorderState.syncIfDue at hok ⊢
    have hr := h (after_failed_eq hok).1
    exact (hr.update gi (hr.writers gi).sync r.history.flushes).same (RecorderRule.after_same _ _)
  finish reason hfile hchunk h hok := (h (after_failed_eq hok).1).finish hfile hchunk hok
  retention h hok := (h (by rw [retention_failed] at hok; exact hok)).retention
  stays hopen hgi hstays h hok := (h hok).stays hopen hstays.choose_spec
  opened hfile hgi hnone h hok := (h (after_failed_eq hok).1).open hfile hok
  notOpened := by
    intro r e gi hfile hnone h hok
    exact absurd (after_failed_eq hok).2 hnone
  added h hok := (h (after_failed_eq hok).1).add
  notAdded := by
    intro r e gi err h hok
    cases (after_failed_eq hok).2

/-- A run in which nothing fails keeps the invariant. -/
theorem metadataInv_run (env : RecorderEnv) (config : RecorderConfig)
    (hboot : ∀ e ∈ journal, e.bootId ≠ []) (calls : List RecorderCall) {start : RecorderState}
    (hstart : RecorderStarted start) (hpending : start.currentEntryPending = false)
    (hok : (recorderRun env config journal calls start).history.failed = false) :
    MetadataInv journal start.closed .idle (recorderRun env config journal calls start) := by
  have hinit : MetadataInv journal start.closed .idle start := by
    refine ⟨fun gi => ⟨fun _ => hstart.chunks gi, fun f hf => ?_⟩, ⟨[], by simp, nofun⟩,
      hpending, fun e he => by cases he⟩
    rw [hstart.files gi] at hf
    cases hf
  exact (metadata_rule env config start.closed hboot).run calls (fun _ => hinit) hok

end Runs

/-- **Segment metadata is sound**: in every run in which no call fails, over entries that
have a boot id, each segment that is closed has a footer, and header and footer describe its
entries.
SOURCE: recorder.c:568-616, 3515-3558, 3679-3747, 3954-4005 -/
theorem segment_metadata_sound (env : RecorderEnv) (config : RecorderConfig)
    (journal : List LogEntry) (hboot : ∀ e ∈ journal, e.bootId ≠ [])
    (calls : List RecorderCall) (start : RecorderState) (hstart : RecorderStarted start)
    (hpending : start.currentEntryPending = false)
    (hok : (recorderRun env config journal calls start).history.failed = false) :
    ∃ closed, (recorderRun env config journal calls start).closed = start.closed ++ closed ∧
      ∀ f ∈ closed, ∃ footer, f.footer = some footer ∧ SegmentSound journal.length f footer :=
  (metadataInv_run env config hboot calls hstart hpending hok).closed

/-- The entry of another boot, with a time stamp below that of `messageEntry`. -/
def rebootEntry : LogEntry :=
  { messageEntry with
    realtimeTs := 3
    monotonicTs := 1
    texts := {}
    bootId := [99]
    bootId_length := by decide
    bootId_chars := by simp }

/-- Three entries of two boots: the second boot rotates the segment, and the shutdown closes
its own. -/
theorem segment_metadata_sound_two_boots :
    ∃ closed, (recorderRun (plainEnv fun _ _ => .ok) oneGroup
        [messageEntry, messageEntry, rebootEntry] [.step, .shutdown] {}).closed = [] ++ closed ∧
      closed.length = 2 ∧
      ∀ f ∈ closed, ∃ footer, f.footer = some footer ∧ SegmentSound 3 f footer := by
  obtain ⟨closed, hclosed, hall⟩ := segment_metadata_sound (plainEnv fun _ _ => .ok) oneGroup
    [messageEntry, messageEntry, rebootEntry] (by decide) [.step, .shutdown] {} started_default
    rfl (by decide +kernel)
  have hlength : (recorderRun (plainEnv fun _ _ => .ok) oneGroup
      [messageEntry, messageEntry, rebootEntry] [.step, .shutdown] {}).closed.length = 2 := by
    decide +kernel
  refine ⟨closed, hclosed, ?_, hall⟩
  rw [hclosed] at hlength
  exact hlength

end Recorder.Analysis
