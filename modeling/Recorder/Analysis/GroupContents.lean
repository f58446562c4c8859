import Mathlib.Data.Finset.Card
import Mathlib.Data.Finset.Range
import Recorder.Analysis.ReceiptKeys

/-!
# What the segments of a group contain

While nothing fails, the frames of a group's segments and the chunk of its writer are the
entries the recorder accepted for the group, in their order (`GroupHolds`): a flush moves the
chunk into a frame, closing a segment puts it behind the closed ones, a new segment has the
largest number so far. All entries of a segment have the boot number of its header, because a
writer rotates when the boot changes and a boot keeps its number while no segment is removed.

**Main result**: `group_contents`, for a recorder whose segments are closed.
-/

set_option autoImplicit false

namespace Recorder.Analysis

open Recorder.Model Recorder.Lib

/-! ## One group -/

/-- The segments of a group: the closed ones, and the one its writer has open. -/
def groupFiles (name : Bytes) (closed : List SegmentOnDisk) (w : PriorityWriter) :
    List SegmentOnDisk :=
  closed.filter (·.group = name) ++ w.file.toList

/-- All entries of a segment have the boot number of its header, which has the number in its
name. -/
structure HeaderNumbers (f : SegmentOnDisk) : Prop where
  seq : f.header.segmentSeq = f.nameSeq
  boot : ∀ e ∈ segmentEntries f, e.bootSeq = f.header.bootSeq

/-- **The segments and the chunk of a group hold** the entries `es`. Numbers of segments are
below `next`. -/
structure GroupHolds (name : Bytes) (next : UInt64) (closed : List SegmentOnDisk)
    (w : PriorityWriter) (es : List LogEntry) : Prop where
  idle : w.file = none → w.chunk = []
  named : ∀ f, w.file = some f → f.group = name
  boot : ∀ f, w.file = some f → fileBoot f = w.bootId ∧ w.bootId ≠ []
  chunk : ∀ f, w.file = some f → ∀ e ∈ w.chunk, e.bootSeq = f.header.bootSeq
  entries : (groupFiles name closed w).flatMap segmentEntries ++ w.chunk = es
  increasing : (groupFiles name closed w).Pairwise fun f g => f.nameSeq < g.nameSeq
  below : ∀ f ∈ groupFiles name closed w, f.nameSeq < next
  headers : ∀ f ∈ groupFiles name closed w, HeaderNumbers f

section Group

variable {env : RecorderEnv} {config : RecorderConfig} {t gi : ℕ} {name : Bytes}
  {next : UInt64} {closed : List SegmentOnDisk} {w w' : PriorityWriter} {f c : SegmentOnDisk}
  {es : List LogEntry} {e : LogEntry}

/-- The files of a group whose writer has one open. -/
theorem groupFiles_of_open (h : w.file = some f) :
    groupFiles name closed w = closed.filter (·.group = name) ++ [f] := by
  rw [groupFiles, h, Option.toList_some]

/-- The contents of a group look at the file, the chunk and the boot of its writer. -/
theorem GroupHolds.of_eq (h : GroupHolds name next closed w es) (hfile : w'.file = w.file)
    (hchunk : w'.chunk = w.chunk) (hboot : w'.bootId = w.bootId) :
    GroupHolds name next closed w' es := by
  have hfiles : groupFiles name closed w' = groupFiles name closed w := by
    rw [groupFiles, groupFiles, hfile]
  constructor
  · rw [hfile, hchunk]
    exact h.idle
  · rw [hfile]
    exact h.named
  · rw [hfile, hboot]
    exact h.boot
  · rw [hfile, hchunk]
    exact h.chunk
  · rw [hfiles, hchunk]
    exact h.entries
  · rw [hfiles]
    exact h.increasing
  · rw [hfiles]
    exact h.below
  · rw [hfiles]
    exact h.headers

/-- A segment of another group is closed, and the numbers go on. -/
theorem GroupHolds.others (h : GroupHolds name next closed w es) {next' : UInt64}
    (hnext : next ≤ next') {new : List SegmentOnDisk} (hnew : ∀ f ∈ new, f.group ≠ name) :
    GroupHolds name next' (closed ++ new) w es := by
  have hfiles : groupFiles name (closed ++ new) w = groupFiles name closed w := by
    have hnone : new.filter (·.group = name) = [] := by
      rw [List.filter_eq_nil_iff]
      intro f hf
      simpa using hnew f hf
    rw [groupFiles, groupFiles, List.filter_append, hnone, List.append_nil]
  refine ⟨h.idle, h.named, h.boot, h.chunk, ?_, ?_, ?_, ?_⟩
  · rw [hfiles]
    exact h.entries
  · rw [hfiles]
    exact h.increasing
  · rw [hfiles]
    exact fun f hf => UInt64.lt_of_lt_of_le (h.below f hf) hnext
  · rw [hfiles]
    exact h.headers

/-- The open segment with more frames, or closed. -/
theorem GroupHolds.replace (h : GroupHolds name next closed w es) (hfile : w.file = some f)
    (hname : c.nameSeq = f.nameSeq) (hheader : c.header = f.header)
    (hentries : segmentEntries c = segmentEntries f ++ w.chunk) :
    (closed.filter (·.group = name) ++ [c]).flatMap segmentEntries = es ∧
      (closed.filter (·.group = name) ++ [c]).Pairwise (fun f g => f.nameSeq < g.nameSeq) ∧
      (∀ g ∈ closed.filter (·.group = name) ++ [c], g.nameSeq < next) ∧
      ∀ g ∈ closed.filter (·.group = name) ++ [c], HeaderNumbers g := by
  have hes := h.entries
  have hincreasing := h.increasing
  have hbelow := h.below
  have hheaders := h.headers
  rw [groupFiles_of_open hfile] at hes hincreasing hbelow hheaders
  refine ⟨?_, ?_, ?_, ?_⟩
  · rw [← hes]
    simp [hentries]
  · rw [List.pairwise_append] at hincreasing ⊢
    refine ⟨hincreasing.1, List.pairwise_singleton _ _, ?_⟩
    intro g hg k hk
    rw [List.mem_singleton.mp hk, hname]
    exact hincreasing.2.2 g hg f (by simp)
  · intro g hg
    rcases List.mem_append.mp hg with hg | hg
    · exact hbelow g (List.mem_append_left _ hg)
    · rw [List.mem_singleton.mp hg, hname]
      exact hbelow f (by simp)
  · intro g hg
    rcases List.mem_append.mp hg with hg | hg
    · exact hheaders g (List.mem_append_left _ hg)
    · rw [List.mem_singleton.mp hg]
      have hf := hheaders f (by simp)
      constructor
      · rw [hheader, hname]
        exact hf.seq
      · intro e he
        rw [hheader]
        rw [hentries] at he
        rcases List.mem_append.mp he with he | he
        · exact hf.boot e he
        · exact h.chunk f hfile e he

/-- A flush that does not fail moves the chunk into a frame. -/
theorem GroupHolds.flush (h : GroupHolds name next closed w es)
    (hok : (writerFlushChunk env config t gi w).1 = none) :
    GroupHolds name next closed (writerFlushChunk env config t gi w).2 es := by
  rcases writerFlushChunk_cases env config t gi w with
    hres | ⟨err, w', hres, -⟩ | ⟨f, content, encryptor, hfile, hres⟩
  · rw [hres]
    exact h
  · rw [hres] at hok
    cases hok
  · set flushed : PriorityWriter :=
      { w with
        chunk := []
        file := some
          { f with
            content := content
            frames := f.frames ++ [⟨f.content.length, w.chunk⟩] }
        encryptor := encryptor } with hflushed
    obtain ⟨hkeepFile, hkeepChunk, -⟩ :=
      finishFrame_keeps env config t gi content.length flushed
    have hkeepBoot := (finishFrame_counters env config t gi content.length flushed).bootId
    rw [hres]
    refine GroupHolds.of_eq (w := flushed) ?_ hkeepFile hkeepChunk hkeepBoot
    obtain ⟨hes, hincreasing, hbelow, hheaders⟩ := h.replace
      (c := { f with
        content := content
        frames := f.frames ++ [⟨f.content.length, w.chunk⟩] }) hfile rfl rfl
      (by simp [segmentEntries])
    have hfiles : groupFiles name closed flushed = closed.filter (·.group = name) ++
        [{ f with
          content := content
          frames := f.frames ++ [⟨f.content.length, w.chunk⟩] }] := groupFiles_of_open rfl
    refine ⟨fun _ => rfl, ?_, ?_, ?_, ?_, ?_, ?_, ?_⟩
    · rintro _ ⟨⟩
      exact h.named f hfile
    · rintro _ ⟨⟩
      exact h.boot f hfile
    · rintro _ ⟨⟩ e he
      cases he
    · rw [hfiles, hes]
      exact List.append_nil _
    · rw [hfiles]
      exact hincreasing
    · rw [hfiles]
      exact hbelow
    · rw [hfiles]
      exact hheaders

/-- A sync leaves the boot of the writer. -/
theorem writerSyncIfDue_bootId (env : RecorderEnv) (config : RecorderConfig) (t gi : ℕ)
    (w : PriorityWriter) : (writerSyncIfDue env config t gi w).2.bootId = w.bootId := by
  unfold writerSyncIfDue
  simp only
  split
  · rfl
  · split
    · split <;> rfl
    · rfl

/-- Closing writes the footer and lets go of the file. -/
theorem writerFinishSegment_keeps (env : RecorderEnv) (t : ℕ) (w : PriorityWriter)
    (f : SegmentOnDisk) (reason : RotateReason) :
    (writerFinishSegment env t w f reason).2.1.chunk = w.chunk ∧
      ∃ content footer, (writerFinishSegment env t w f reason).2.2 =
        { f with content := content, footer := footer } := by
  unfold writerFinishSegment
  simp only
  split
  · split
    · exact ⟨rfl, _, f.footer, rfl⟩
    · split
      · exact ⟨rfl, _, _, rfl⟩
      · exact ⟨rfl, _, _, rfl⟩
  · exact ⟨rfl, _, f.footer, rfl⟩

/-- A segment is closed when its chunk is in a frame. -/
theorem GroupHolds.finish (h : GroupHolds name next closed w es) (hfile : w.file = some f)
    (hchunk : w.chunk = []) (reason : RotateReason) :
    GroupHolds name next (closed ++ [(writerFinishSegment env t w f reason).2.2])
      (writerFinishSegment env t w f reason).2.1 es := by
  have hreleased := writerFinishSegment_file env t w f reason
  obtain ⟨hkeepChunk, content, footer, hclosed⟩ := writerFinishSegment_keeps env t w f reason
  rw [hchunk] at hkeepChunk
  rw [hclosed]
  generalize (writerFinishSegment env t w f reason).2.1 = w' at hreleased hkeepChunk
  obtain ⟨hes, hincreasing, hbelow, hheaders⟩ := h.replace
    (c := { f with content := content, footer := footer }) hfile rfl rfl
    (by rw [hchunk, List.append_nil]; rfl)
  have hfiles : groupFiles name (closed ++ [{ f with content := content, footer := footer }]) w' =
      closed.filter (·.group = name) ++ [{ f with content := content, footer := footer }] := by
    have hnamed := h.named f hfile
    rw [groupFiles, hreleased, Option.toList_none, List.append_nil, List.filter_append]
    simp [hnamed]
  refine ⟨fun _ => hkeepChunk, ?_, ?_, ?_, ?_, ?_, ?_, ?_⟩
  · rw [hreleased]
    nofun
  · rw [hreleased]
    nofun
  · rw [hreleased]
    nofun
  · rw [hfiles, hes, hkeepChunk]
    exact List.append_nil _
  · rw [hfiles]
    exact hincreasing
  · rw [hfiles]
    exact hbelow
  · rw [hfiles]
    exact hheaders

/-- **What opening a segment without a failure leaves.** -/
theorem writerOpenSegment_file {seq clockJumpSeq : UInt64}
    (h : (writerOpenSegment env config t gi seq clockJumpSeq w e).errno = none) :
    ∃ f, (writerOpenSegment env config t gi seq clockJumpSeq w e).writer.file = some f ∧
      f.group = (config.group gi).name ∧ f.nameSeq = seq ∧
      f.header = newSegmentHeader env config t gi seq e ∧ f.frames = [] ∧
      (writerOpenSegment env config t gi seq clockJumpSeq w e).writer.chunk = w.chunk ∧
      (writerOpenSegment env config t gi seq clockJumpSeq w e).writer.bootId = e.bootId ∧
      (writerOpenSegment env config t gi seq clockJumpSeq w e).nextSegmentSeq = seq + 1 ∧
      (writerOpenSegment env config t gi seq clockJumpSeq w e).orphan = none := by
  unfold writerOpenSegment at h ⊢
  split at h
  · cases h
  · simp only at h ⊢
    split at h
    · cases h
    · split at h
      · cases h
      · exact ⟨_, rfl, rfl, rfl, rfl, rfl, rfl, rfl, rfl, rfl⟩

/-- A new segment has the largest number and no entries yet. -/
theorem GroupHolds.open (h : GroupHolds (config.group gi).name next closed w es)
    (hclosed : w.file = none) {clockJumpSeq : UInt64} (hboot : e.bootId ≠ [])
    (hnext : next < next + 1)
    (hok : (writerOpenSegment env config t gi next clockJumpSeq w e).errno = none) :
    GroupHolds (config.group gi).name (next + 1) closed
      (writerOpenSegment env config t gi next clockJumpSeq w e).writer es ∧
      ∃ f, (writerOpenSegment env config t gi next clockJumpSeq w e).writer.file = some f ∧
        e.bootSeq = f.header.bootSeq := by
  obtain ⟨f, hfile, hgroup, hname, hheader, hframes, hchunk, hbootId, -, -⟩ :=
    writerOpenSegment_file hok
  generalize (writerOpenSegment env config t gi next clockJumpSeq w e).writer = w'
    at hfile hchunk hbootId ⊢
  have hempty : segmentEntries f = [] := by simp [segmentEntries, hframes]
  have hold : groupFiles (config.group gi).name closed w =
      closed.filter (·.group = (config.group gi).name) := by
    rw [groupFiles, hclosed, Option.toList_none, List.append_nil]
  have hes := h.entries
  have hincreasing := h.increasing
  have hbelow := h.below
  have hheaders := h.headers
  rw [hold] at hes hincreasing hbelow hheaders
  rw [h.idle hclosed] at hchunk
  have hfiles : groupFiles (config.group gi).name closed w' =
      closed.filter (·.group = (config.group gi).name) ++ [f] := groupFiles_of_open hfile
  refine ⟨⟨fun _ => hchunk, ?_, ?_, ?_, ?_, ?_, ?_, ?_⟩, f, hfile, by rw [hheader]; rfl⟩
  · intro f' hf'
    rw [hfile, Option.some.injEq] at hf'
    rw [← hf']
    exact hgroup
  · intro f' hf'
    rw [hfile, Option.some.injEq] at hf'
    rw [← hf', hbootId]
    refine ⟨?_, hboot⟩
    rw [fileBoot, hheader]
    exact strnlenPrefix_zeroPad _ _ e.bootId_chars e.bootId_length
  · rw [hchunk]
    intro f' _ e' he'
    cases he'
  · rw [hfiles, ← hes, h.idle hclosed, hchunk]
    simp [hempty]
  · rw [hfiles, List.pairwise_append]
    refine ⟨hincreasing, List.pairwise_singleton _ _, ?_⟩
    intro g hg k hk
    rw [List.mem_singleton.mp hk, hname]
    exact hbelow g hg
  · rw [hfiles]
    intro g hg
    rcases List.mem_append.mp hg with hg | hg
    · exact UInt64.lt_trans (hbelow g hg) hnext
    · rw [List.mem_singleton.mp hg, hname]
      exact hnext
  · rw [hfiles]
    intro g hg
    rcases List.mem_append.mp hg with hg | hg
    · exact hheaders g hg
    · rw [List.mem_singleton.mp hg]
      refine ⟨by rw [hheader, hname]; rfl, ?_⟩
      rw [hempty]
      intro e' he'
      cases he'

/-- The writer takes an entry of the boot of its segment. -/
theorem GroupHolds.add (h : GroupHolds name next closed w es) (hfile : w.file = some f)
    (hboot : e.bootSeq = f.header.bootSeq) :
    GroupHolds name next closed (writerAddEntry w e) (es ++ [e]) := by
  refine ⟨?_, h.named, h.boot, ?_, ?_, h.increasing, h.below, h.headers⟩
  · intro hnone
    cases hfile.symm.trans hnone
  · intro f' hf' e' he'
    cases hfile.symm.trans hf'
    rcases List.mem_append.mp he' with he' | he'
    · exact h.chunk f hfile e' he'
    · rw [List.mem_singleton.mp he']
      exact hboot
  · rw [← h.entries, List.append_assoc]
    rfl

/-- A writer that does not rotate has a segment of the boot of the entry. -/
theorem bootId_eq_of_stays (hopen : w.isOpen = true) (hw : w.bootId ≠ []) (he : e.bootId ≠ [])
    {clockJumpSeq : UInt64} {clockJumpUsec : ℤ}
    (hstays : writerShouldRotate env config t clockJumpSeq clockJumpUsec w e = .none) :
    w.bootId = e.bootId := by
  unfold writerShouldRotate at hstays
  rw [if_neg (by simp [hopen])] at hstays
  split at hstays
  · split at hstays <;> cases hstays
  · split at hstays
    · cases hstays
    · split at hstays
      · cases hstays
      · rename_i hsame
        by_contra hne
        exact hsame ⟨hw, he, hne⟩

end Group

/-! ## All groups -/

/-- How many writers have a segment open. -/
def openCount (config : RecorderConfig) (writers : ℕ → PriorityWriter) : ℕ :=
  (List.range config.groups.length).countP fun gi => (writers gi).isOpen

/-- The number of segments, closed or open. -/
def segmentCount (config : RecorderConfig) (r : RecorderState) : ℕ :=
  r.closed.length + openCount config r.writers

/-- The entries that go to a group. -/
def routedTo (config : RecorderConfig) (gi : ℕ) (es : List LogEntry) : List LogEntry :=
  es.filter fun e => config.priorityToGroup e.priority = gi

/-- The entry at hand once it is stored. -/
def storedEntries : Stage → List LogEntry
  | .stored e => [e]
  | _ => []

/-- The entries the writers have taken. -/
def takenEntries (x : Stage) (r : RecorderState) : List LogEntry :=
  acceptedEntries r ++ storedEntries x

/-- **What the segments of a recorder contain**: those of each group its entries. The numbers
of segments are counted on, and the table of boots has the numbers of the open segments and of
the entry at hand. -/
structure ContentsInv (config : RecorderConfig) (x : Stage) (r : RecorderState) : Prop where
  groups : ∀ gi < config.groups.length, GroupHolds (config.group gi).name r.nextSegmentSeq
    r.closed (r.writers gi) (routedTo config gi (takenEntries x r))
  unused : ∀ gi, config.groups.length ≤ gi → (r.writers gi).file = none
  named : ∀ f ∈ r.closed, ∃ gi < config.groups.length, f.group = (config.group gi).name
  next : r.nextSegmentSeq = UInt64.ofNat (1 + segmentCount config r)
  rows : ∀ gi f, (r.writers gi).file = some f →
    (fileBoot f, f.header.bootSeq) ∈ tableRows r.boots
  held : ∀ e, x = .holding e ∨ x = .stored e →
    e.bootId ≠ [] ∧ (e.bootId, e.bootSeq) ∈ tableRows r.boots

/-- Two states with the same contents. -/
structure SameContents (r r' : RecorderState) : Prop where
  writers : r'.writers = r.writers
  closed : r'.closed = r.closed
  boots : r'.boots = r.boots
  nextSegmentSeq : r'.nextSegmentSeq = r.nextSegmentSeq
  accepted : r'.history.accepted = r.history.accepted

/-- A writer keeps its file open, or it had none. -/
def KeepsFile (w w' : PriorityWriter) : Prop :=
  w.file = none ∧ w'.file = none ∨
    ∃ f f', w.file = some f ∧ w'.file = some f' ∧ f'.header = f.header

section Groups

variable {env : RecorderEnv} {config : RecorderConfig} {x y : Stage} {r r' : RecorderState}
  {gi : ℕ} {w w' : PriorityWriter} {e : LogEntry}

/-- A writer with the same file. -/
theorem KeepsFile.of_eq (h : w'.file = w.file) : KeepsFile w w' := by
  cases hfile : w.file with
  | none => exact .inl ⟨hfile, h.trans hfile⟩
  | some f => exact .inr ⟨f, f, hfile, h.trans hfile, rfl⟩

/-- A writer that keeps its file is open as before. -/
theorem KeepsFile.isOpen (h : KeepsFile w w') : w'.isOpen = w.isOpen := by
  rcases h with ⟨hfile, hfile'⟩ | ⟨f, f', hfile, hfile', -⟩
  · rw [PriorityWriter.isOpen, PriorityWriter.isOpen, hfile, hfile']
  · rw [PriorityWriter.isOpen, PriorityWriter.isOpen, hfile, hfile']
    rfl

/-- A flush that succeeds keeps the file open. -/
theorem writerFlushChunk_keepsFile {t : ℕ} (hok : (writerFlushChunk env config t gi w).1 = none) :
    KeepsFile w (writerFlushChunk env config t gi w).2 := by
  rcases writerFlushChunk_cases env config t gi w with
    hres | ⟨err, w', hres, -⟩ | ⟨f, content, encryptor, hfile, hres⟩
  · rw [hres]
    exact .of_eq rfl
  · rw [hres] at hok
    cases hok
  · rw [hres]
    exact .inr ⟨f, _, hfile, (finishFrame_keeps env config t gi _ _).1, rfl⟩

/-! ### Counting -/

/-- A writer of another group does not count. -/
theorem countP_update_of_notMem (writers : ℕ → PriorityWriter) (w : PriorityWriter)
    {l : List ℕ} (h : gi ∉ l) :
    l.countP (fun gj => (Function.update writers gi w gj).isOpen) =
      l.countP fun gj => (writers gj).isOpen := by
  apply List.countP_congr
  intro gj hgj
  have hne : gj ≠ gi := fun heq => h (heq ▸ hgj)
  rw [Function.update_of_ne hne]

/-- The open writers, with one exchanged. -/
theorem countP_update (writers : ℕ → PriorityWriter) (w : PriorityWriter) :
    ∀ l : List ℕ, l.Nodup → gi ∈ l →
      l.countP (fun gj => (Function.update writers gi w gj).isOpen) + (writers gi).isOpen.toNat =
        l.countP (fun gj => (writers gj).isOpen) + w.isOpen.toNat := by
  intro l
  induction l with
  | nil =>
    intro _ hmem
    cases hmem
  | cons gj l ih =>
    intro hnodup hmem
    obtain ⟨hnot, hnodup⟩ := List.nodup_cons.mp hnodup
    rw [List.countP_cons, List.countP_cons]
    by_cases heq : gj = gi
    · rw [heq] at hnot ⊢
      rw [countP_update_of_notMem writers w hnot, Function.update_self]
      cases (writers gi).isOpen <;> cases w.isOpen <;> simp
    · have hmem' := (List.mem_cons.mp hmem).resolve_left (Ne.symm heq)
      rw [Function.update_of_ne heq]
      have := ih hnodup hmem'
      omega

/-- The open writers of all groups, with one exchanged. -/
theorem openCount_update (writers : ℕ → PriorityWriter) (w : PriorityWriter)
    (hgi : gi < config.groups.length) :
    openCount config (Function.update writers gi w) + (writers gi).isOpen.toNat =
      openCount config writers + w.isOpen.toNat :=
  countP_update writers w _ List.nodup_range (List.mem_range.mpr hgi)

/-- A writer that keeps its file leaves the count. -/
theorem KeepsFile.openCount {writers : ℕ → PriorityWriter} (h : KeepsFile (writers gi) w) :
    openCount config (Function.update writers gi w) = openCount config writers := by
  apply List.countP_congr
  intro gj _
  by_cases heq : gj = gi
  · rw [heq, Function.update_self, h.isOpen]
  · rw [Function.update_of_ne heq]

/-! ### The steps of the recorder -/

/-- The entries taken are the accepted ones and the one stored. -/
theorem takenEntries_of_accepted (h : r'.history.accepted = r.history.accepted) :
    takenEntries x r' = takenEntries x r := by
  have haccepted : acceptedEntries r' = acceptedEntries r := by
    rw [acceptedEntries, h]
    rfl
  rw [takenEntries, takenEntries, haccepted]

/-- The invariant looks at the contents only. -/
theorem ContentsInv.same (h : ContentsInv config x r) (hsame : SameContents r r') :
    ContentsInv config x r' := by
  constructor
  · rw [hsame.nextSegmentSeq, hsame.closed, hsame.writers, takenEntries_of_accepted hsame.accepted]
    exact h.groups
  · rw [hsame.writers]
    exact h.unused
  · rw [hsame.closed]
    exact h.named
  · rw [hsame.nextSegmentSeq, segmentCount, hsame.closed, hsame.writers]
    exact h.next
  · rw [hsame.writers, hsame.boots]
    exact h.rows
  · rw [hsame.boots]
    exact h.held

/-- Another stage, with the same entries taken. -/
theorem ContentsInv.stage (h : ContentsInv config x r)
    (htaken : takenEntries y r = takenEntries x r)
    (hheld : ∀ e, y = .holding e ∨ y = .stored e →
      e.bootId ≠ [] ∧ (e.bootId, e.bootSeq) ∈ tableRows r.boots) : ContentsInv config y r := by
  refine ⟨?_, h.unused, h.named, h.next, h.rows, hheld⟩
  rw [htaken]
  exact h.groups

/-- A larger table of boots. -/
theorem ContentsInv.boots (h : ContentsInv config x r) {boots : BootRegistry}
    (hrows : ∀ row ∈ tableRows r.boots, row ∈ tableRows boots) :
    ContentsInv config x { r with boots := boots } where
  groups := h.groups
  unused := h.unused
  named := h.named
  next := h.next
  rows gi f hf := hrows _ (h.rows gi f hf)
  held e he := ⟨(h.held e he).1, hrows _ (h.held e he).2⟩

/-- A step of one writer on the file it has, to another stage. -/
theorem ContentsInv.replace (h : ContentsInv config x r) (hkeeps : KeepsFile (r.writers gi) w)
    (hgroups : ∀ gj < config.groups.length, GroupHolds (config.group gj).name r.nextSegmentSeq
      r.closed (Function.update r.writers gi w gj) (routedTo config gj (takenEntries y r)))
    (hheld : ∀ e, y = .holding e ∨ y = .stored e →
      e.bootId ≠ [] ∧ (e.bootId, e.bootSeq) ∈ tableRows r.boots) :
    ContentsInv config y { r with writers := Function.update r.writers gi w } := by
  refine ⟨hgroups, ?_, h.named, ?_, ?_, hheld⟩
  · intro gj hgj
    by_cases heq : gj = gi
    · rw [heq] at hgj ⊢
      simp only [Function.update_self]
      rcases hkeeps with ⟨-, hfile⟩ | ⟨f, f', hfile, -⟩
      · exact hfile
      · cases (h.unused gi hgj).symm.trans hfile
    · simp only [Function.update_of_ne heq]
      exact h.unused gj hgj
  · rw [segmentCount]
    simp only [hkeeps.openCount]
    exact h.next
  · intro gj f hf
    by_cases heq : gj = gi
    · rw [heq] at hf
      simp only [Function.update_self] at hf
      rcases hkeeps with ⟨-, hfile⟩ | ⟨f0, f', hfile, hfile', hheader⟩
      · cases hfile.symm.trans hf
      · cases hfile'.symm.trans hf
        rw [fileBoot, hheader]
        exact h.rows gi f0 hfile
    · simp only [Function.update_of_ne heq] at hf
      exact h.rows gj f hf

/-- A step that takes no entry. -/
theorem ContentsInv.update (h : ContentsInv config x r) (hkeeps : KeepsFile (r.writers gi) w)
    (hholds : gi < config.groups.length → GroupHolds (config.group gi).name r.nextSegmentSeq
      r.closed w (routedTo config gi (takenEntries x r))) :
    ContentsInv config x { r with writers := Function.update r.writers gi w } := by
  apply h.replace hkeeps _ h.held
  intro gj hgj
  by_cases heq : gj = gi
  · rw [heq] at hgj ⊢
    rw [Function.update_self]
    exact hholds hgj
  · rw [Function.update_of_ne heq]
    exact h.groups gj hgj

/-- A flush that succeeds keeps the contents. -/
theorem ContentsInv.flush (h : ContentsInv config x r)
    (hok : (r.flushChunk env config gi).2.history.failed = false) :
    ContentsInv config x (r.flushChunk env config gi).2 := by
  unfold RecorderState.flushChunk at hok ⊢
  have hnone := (after_failed_eq hok).2
  exact (h.update (writerFlushChunk_keepsFile hnone)
    fun hgi => (h.groups gi hgi).flush hnone).same ⟨rfl, rfl, rfl, rfl, rfl⟩

/-- A sync keeps the contents. -/
theorem ContentsInv.sync (h : ContentsInv config x r) :
    ContentsInv config x (r.syncIfDue env config gi).2 := by
  obtain ⟨hfile, -, hchunk⟩ := writerSyncIfDue_keeps env config r.tick gi (r.writers gi)
  have hboot := writerSyncIfDue_bootId env config r.tick gi (r.writers gi)
  exact (h.update (.of_eq hfile)
    fun hgi => (h.groups gi hgi).of_eq hfile hchunk hboot).same ⟨rfl, rfl, rfl, rfl, rfl⟩

/-- Only groups have files. -/
theorem ContentsInv.lt_of_file (h : ContentsInv config x r) {f : SegmentOnDisk}
    (hfile : (r.writers gi).file = some f) : gi < config.groups.length := by
  by_contra hnot
  cases (h.unused gi (Nat.le_of_not_lt hnot)).symm.trans hfile

/-- A segment is closed. -/
theorem ContentsInv.finish (h : ContentsInv config x r) {f : SegmentOnDisk}
    (hfile : (r.writers gi).file = some f) (hchunk : (r.writers gi).chunk = [])
    (reason : RotateReason) : ContentsInv config x (finishedSegment env r gi f reason) := by
  have hgi := h.lt_of_file hfile
  obtain ⟨-, content, footer, hclosed⟩ :=
    writerFinishSegment_keeps env r.tick (r.writers gi) f reason
  have hreleased := writerFinishSegment_file env r.tick (r.writers gi) f reason
  have hholds : GroupHolds _ r.nextSegmentSeq
      (r.closed ++ [(writerFinishSegment env r.tick (r.writers gi) f reason).2.2])
      (writerFinishSegment env r.tick (r.writers gi) f reason).2.1 _ :=
    (h.groups gi hgi).finish hfile hchunk reason
  have hgroup := (h.groups gi hgi).named f hfile
  unfold finishedSegment
  generalize writerFinishSegment env r.tick (r.writers gi) f reason = res
    at hclosed hreleased hholds
  obtain ⟨errno, w, c⟩ := res
  simp only at hclosed hreleased hholds ⊢
  refine ContentsInv.same (r := { r with
    writers := Function.update r.writers gi w
    closed := r.closed ++ [c] }) ?_ ⟨rfl, rfl, rfl, rfl, rfl⟩
  have hname : c.group = (config.group gi).name := by
    rw [hclosed]
    exact hgroup
  refine ⟨?_, ?_, ?_, ?_, ?_, h.held⟩
  · intro gj hgj
    by_cases heq : gj = gi
    · rw [heq]
      simp only [Function.update_self]
      exact hholds
    · simp only [Function.update_of_ne heq]
      refine (h.groups gj hgj).others (UInt64.le_refl _) ?_
      intro c' hc' hname'
      rw [List.mem_singleton.mp hc', hname] at hname'
      exact heq (group_name_inj hgi hgj hname').symm
  · intro gj hgj
    by_cases heq : gj = gi
    · rw [heq]
      simp only [Function.update_self]
      exact hreleased
    · simp only [Function.update_of_ne heq]
      exact h.unused gj hgj
  · intro c' hc'
    rcases List.mem_append.mp hc' with hc' | hc'
    · exact h.named c' hc'
    · rw [List.mem_singleton.mp hc']
      exact ⟨gi, hgi, hname⟩
  · have hcount := openCount_update r.writers w hgi
    rw [h.next, segmentCount, segmentCount]
    simp only [PriorityWriter.isOpen, hfile, hreleased, Option.isSome_some, Option.isSome_none,
      Bool.toNat_true, Bool.toNat_false] at hcount
    simp only [List.length_append, List.length_singleton]
    congr 1
    omega
  · intro gj g hg
    by_cases heq : gj = gi
    · rw [heq] at hg
      simp only [Function.update_self] at hg
      cases hreleased.symm.trans hg
    · simp only [Function.update_of_ne heq] at hg
      exact h.rows gj g hg

/-- A recorder whose writer of a group has a segment of the boot of the entry at hand. -/
structure ContentsAdmits (config : RecorderConfig) (gi : ℕ) (e : LogEntry) (r : RecorderState) :
    Prop where
  contents : ContentsInv config (.holding e) r
  route : gi = config.priorityToGroup e.priority
  file : ∃ f, (r.writers gi).file = some f ∧ e.bootSeq = f.header.bootSeq

/-- A writer that keeps its file leaves the number of segments. -/
theorem segmentCount_of_keepsFile (hkeeps : KeepsFile (r.writers gi) w)
    (hwriters : r'.writers = Function.update r.writers gi w) (hclosed : r'.closed = r.closed) :
    segmentCount config r' = segmentCount config r := by
  rw [segmentCount, segmentCount, hwriters, hclosed, hkeeps.openCount]

/-- A segment that is opened counts. -/
theorem segmentCount_open (hgi : gi < config.groups.length) (hfile : (r.writers gi).file = none)
    (hok : (r.openSegment env config gi e).2.history.failed = false) :
    segmentCount config (r.openSegment env config gi e).2 = segmentCount config r + 1 := by
  unfold RecorderState.openSegment at hok ⊢
  have hnone := (after_failed_eq hok).2
  obtain ⟨f, hopened, -, -, -, -, -, -, -, horphan⟩ := writerOpenSegment_file hnone
  have hcount := openCount_update r.writers (writerOpenSegment env config r.tick gi
    r.nextSegmentSeq r.clockJumpSeq (r.writers gi) e).writer hgi
  simp only [PriorityWriter.isOpen, hfile, hopened, Option.isSome_some, Option.isSome_none,
    Bool.toNat_true, Bool.toNat_false] at hcount
  simp only [segmentCount, RecorderState.after, horphan, Option.toList_none, List.append_nil]
  omega

/-- A segment is opened. -/
theorem ContentsInv.open (h : ContentsInv config (.holding e) r)
    (hfile : (r.writers gi).file = none) (hgi : gi = config.priorityToGroup e.priority)
    (hok : (r.openSegment env config gi e).2.history.failed = false)
    (hroom : 1 + segmentCount config (r.openSegment env config gi e).2 < 2 ^ 64) :
    ContentsAdmits config gi e (r.openSegment env config gi e).2 := by
  have hlt : gi < config.groups.length := by
    rw [hgi]
    exact config.priorityToGroup_lt _
  obtain ⟨hboot, hrow⟩ := h.held e (.inl rfl)
  have hcount := segmentCount_open hlt hfile hok
  have hnext : r.nextSegmentSeq < r.nextSegmentSeq + 1 := by
    rw [UInt64.lt_iff_toNat_lt, UInt64.toNat_add, h.next, UInt64.toNat_ofNat', UInt64.toNat_one]
    omega
  unfold RecorderState.openSegment at hok hcount ⊢
  have hnone := (after_failed_eq hok).2
  obtain ⟨f, hopened, hgroup, -, hheader, -, -, -, hseq, horphan⟩ := writerOpenSegment_file hnone
  obtain ⟨hholds, f', hopened', hbootSeq⟩ :=
    (h.groups gi hlt).open hfile hboot hnext hnone
  cases hopened.symm.trans hopened'
  generalize writerOpenSegment env config r.tick gi r.nextSegmentSeq r.clockJumpSeq (r.writers gi)
    e = res at hopened hseq horphan hholds hcount
  obtain ⟨errno, w, seq, orphan⟩ := res
  simp only at hopened hseq horphan hholds hcount ⊢
  rw [horphan, Option.toList_none, List.append_nil, hseq] at hcount ⊢
  refine ⟨?_, hgi, f, ?_, hbootSeq⟩
  · refine ContentsInv.same (r := { r with
      writers := Function.update r.writers gi w
      nextSegmentSeq := r.nextSegmentSeq + 1 }) ?_ ⟨rfl, rfl, rfl, rfl, rfl⟩
    refine ⟨?_, ?_, h.named, ?_, ?_, h.held⟩
    · intro gj hgj
      by_cases heq : gj = gi
      · rw [heq]
        simp only [Function.update_self]
        exact hholds
      · simp only [Function.update_of_ne heq]
        have hothers : GroupHolds _ (r.nextSegmentSeq + 1) (r.closed ++ []) (r.writers gj) _ :=
          (h.groups gj hgj).others (UInt64.le_of_lt hnext) (by simp)
        rw [List.append_nil] at hothers
        exact hothers
    · intro gj hgj
      have heq : gj ≠ gi := by omega
      simp only [Function.update_of_ne heq]
      exact h.unused gj hgj
    · have hsum : 1 + segmentCount config { r with
          writers := Function.update r.writers gi w
          nextSegmentSeq := r.nextSegmentSeq + 1 } = 1 + segmentCount config r + 1 := by
        rw [Nat.add_assoc]
        exact congrArg (1 + ·) hcount
      rw [hsum, UInt64.ofNat_add, ← h.next]
      rfl
    · intro gj g hg
      by_cases heq : gj = gi
      · rw [heq] at hg
        simp only [Function.update_self] at hg
        cases hopened.symm.trans hg
        rw [fileBoot, hheader]
        have hid : strnlenPrefix bootIdSize (newSegmentHeader env config r.tick gi
            r.nextSegmentSeq e).bootId = e.bootId :=
          strnlenPrefix_zeroPad _ _ e.bootId_chars e.bootId_length
        rw [hid]
        exact hrow
      · simp only [Function.update_of_ne heq] at hg
        exact h.rows gj g hg
  · simp only [RecorderState.after, Function.update_self]
    exact hopened

/-- The open segment is of the boot of the entry, because the writer does not rotate. -/
theorem ContentsInv.stays (h : ContentsInv config (.holding e) r)
    (hnodup : ((tableRows r.boots).map (·.1)).Nodup) (hopen : (r.writers gi).isOpen = true)
    (hgi : gi = config.priorityToGroup e.priority) {t : ℕ}
    (hstays : writerShouldRotate env config t r.clockJumpSeq r.clockJumpUsec (r.writers gi) e =
      .none) : ContentsAdmits config gi e r := by
  obtain ⟨f, hfile⟩ := Option.isSome_iff_exists.mp hopen
  obtain ⟨hboot, hrow⟩ := h.held e (.inl rfl)
  obtain ⟨hid, hne⟩ := (h.groups gi (h.lt_of_file hfile)).boot f hfile
  have hsame := bootId_eq_of_stays hopen hne hboot hstays
  have hrows := List.inj_on_of_nodup_map hnodup hrow (h.rows gi f hfile)
    (hsame.symm.trans hid.symm)
  exact ⟨h, hgi, f, hfile, (Prod.mk.inj hrows).2⟩

/-- The writer takes the entry. -/
theorem ContentsAdmits.add (h : ContentsAdmits config gi e r) :
    ContentsInv config (.stored e) (addedEntry r gi e) := by
  obtain ⟨f, hfile, hboot⟩ := h.file
  have hc := h.contents
  have htaken : takenEntries (.holding e) r = acceptedEntries r := List.append_nil _
  refine ContentsInv.same (hc.replace (w := writerAddEntry (r.writers gi) e) (.of_eq rfl) ?_ ?_)
    ⟨rfl, rfl, rfl, rfl, rfl⟩
  · intro gj hgj
    have hgroup := hc.groups gj hgj
    rw [htaken] at hgroup
    change GroupHolds _ _ _ _ (routedTo config gj (acceptedEntries r ++ [e]))
    by_cases heq : gj = gi
    · have hroute : routedTo config gj (acceptedEntries r ++ [e]) =
          routedTo config gj (acceptedEntries r) ++ [e] := by
        simp [routedTo, ← h.route, heq]
      rw [hroute, heq, Function.update_self]
      rw [heq] at hgroup
      exact hgroup.add hfile hboot
    · have hroute : routedTo config gj (acceptedEntries r ++ [e]) =
          routedTo config gj (acceptedEntries r) := by
        simp [routedTo, ← h.route, Ne.symm heq]
      rw [hroute, Function.update_of_ne heq]
      exact hgroup
  · rintro e' (⟨⟨⟩⟩ | ⟨⟨⟩⟩)
    exact hc.held e (.inl rfl)

end Groups

/-! ## Along a run -/

/-- The invariant, as long as nothing fails, nothing is removed and the numbers of segments
last. -/
def ContentsRunInv (config : RecorderConfig) (x : Stage) (r : RecorderState) : Prop :=
  r.history.failed = false → r.history.passes = [] → 1 + segmentCount config r < 2 ^ 64 →
    ContentsInv config x r

section Runs

variable {env : RecorderEnv} {config : RecorderConfig} {journal : List LogEntry} {x : Stage}
  {r r' : RecorderState} {gi : ℕ} {e : LogEntry}

/-- What leaves the segments alone leaves the contents. -/
theorem SameStored.sameContents (h : SameStored r r') : SameContents r r' :=
  ⟨h.writers, h.closed, h.boots, h.nextSegmentSeq, h.accepted⟩

/-- The same contents are as many segments. -/
theorem SameContents.segmentCount_eq (h : SameContents r r') :
    segmentCount config r' = segmentCount config r := by
  rw [segmentCount, segmentCount, h.writers, h.closed]

/-- A flush leaves the number of segments. -/
theorem segmentCount_flush (hok : (r.flushChunk env config gi).2.history.failed = false) :
    segmentCount config (r.flushChunk env config gi).2 = segmentCount config r := by
  unfold RecorderState.flushChunk at hok ⊢
  exact segmentCount_of_keepsFile (writerFlushChunk_keepsFile (after_failed_eq hok).2) rfl rfl

/-- Closing a segment loses none. -/
theorem segmentCount_le_finish {f : SegmentOnDisk} (hfile : (r.writers gi).file = some f)
    (reason : RotateReason) :
    segmentCount config r ≤ segmentCount config (finishedSegment env r gi f reason) := by
  set w := (writerFinishSegment env r.tick (r.writers gi) f reason).2.1 with hw
  have hreleased : w.file = none := writerFinishSegment_file env r.tick (r.writers gi) f reason
  have hfinished : segmentCount config (finishedSegment env r gi f reason) =
      r.closed.length + 1 + openCount config (Function.update r.writers gi w) := by
    rw [segmentCount]
    exact congrArg (· + _) List.length_append
  rw [hfinished, segmentCount]
  by_cases hgi : gi < config.groups.length
  · have hcount := openCount_update r.writers w hgi
    simp only [PriorityWriter.isOpen, hfile, hreleased, Option.isSome_some, Option.isSome_none,
      Bool.toNat_true, Bool.toNat_false] at hcount
    omega
  · have hunused : openCount config (Function.update r.writers gi w) =
        openCount config r.writers :=
      countP_update_of_notMem r.writers w (by simpa using hgi)
    omega

/-- Receiving an entry takes no number of a segment. -/
theorem received_nextSegmentSeq (r : RecorderState) (e : LogEntry) :
    (received r e).1.nextSegmentSeq = r.nextSegmentSeq := by
  unfold received recorderAssignMonotonicTieOrder
  simp only
  split <;> rfl

/-- The next entry of the journal is at hand. -/
theorem ContentsInv.receive (h : ContentsInv config .idle r)
    (hrows : (∀ row ∈ tableRows r.boots, row ∈ tableRows (extractBoot r.boots e).1) ∧
      (e.bootId, (extractBoot r.boots e).2.bootSeq) ∈ tableRows (extractBoot r.boots e).1)
    (hboot : e.bootId ≠ []) :
    ContentsInv config (.holding (received (atNextEntry r) e).2)
      (received (atNextEntry r) e).1 := by
  obtain ⟨hwriters, hclosed, -, -, hhistory, hid⟩ := received_same (atNextEntry r) e
  obtain ⟨hboots, hseq⟩ := received_boots (atNextEntry r) e
  have hstage : ContentsInv config (.holding (received (atNextEntry r) e).2)
      { r with boots := (extractBoot r.boots e).1 } := by
    refine (h.boots hrows.1).stage ?_ ?_
    · rfl
    rintro e' (⟨⟨⟩⟩ | ⟨⟨⟩⟩)
    rw [hid, hseq]
    exact ⟨hboot, hrows.2⟩
  exact hstage.same ⟨hwriters, hclosed, hboots, received_nextSegmentSeq _ _, by rw [hhistory]; rfl⟩

/-- What leaves the segments alone keeps the invariant. -/
theorem ContentsRunInv.same (h : ContentsRunInv config x r) (hsame : SameStored r r') :
    ContentsRunInv config x r' := by
  intro hok hnone hcount
  rw [hsame.passes] at hnone
  rw [hsame.sameContents.segmentCount_eq] at hcount
  exact (h (hsame.failed hok) hnone hcount).same hsame.sameContents

/-- The rows behind the next entry hold those in front of it, and its own. -/
theorem KeyRunInv.rows (h : KeyRunInv journal .idle r) (hroom : RoomForBoots journal)
    (he : journal[(atNextEntry r).position - 1]? = some e) (hok : r.history.failed = false)
    (hnone : r.history.passes = []) :
    (∀ row ∈ tableRows r.boots, row ∈ tableRows (extractBoot r.boots e).1) ∧
      (e.bootId, (extractBoot r.boots e).2.bootSeq) ∈ tableRows (extractBoot r.boots e).1 :=
  (h hok hnone).table.rows hroom (fun _ hd => List.mem_of_mem_take hd) (List.mem_of_getElem? he)

/-- Taking up the next entry keeps the invariant. -/
theorem ContentsRunInv.receive (h : ContentsRunInv config .idle r)
    (hkeys : KeyRunInv journal .idle r) (hroom : RoomForBoots journal)
    (he : journal[(atNextEntry r).position - 1]? = some e) :
    ContentsRunInv config (.holding (received (atNextEntry r) e).2)
      (received (atNextEntry r) e).1 := by
  intro hok hnone hcount
  obtain ⟨hwriters, hclosed, -, -, hhistory, -⟩ := received_same (atNextEntry r) e
  rw [hhistory] at hok hnone
  rw [segmentCount, hwriters, hclosed] at hcount
  exact (h hok hnone hcount).receive (hkeys.rows hroom he hok hnone)
    (hroom.ids e (List.mem_of_getElem? he))

/-- Leaving out an entry whose boot was numbered keeps the invariant. -/
theorem ContentsRunInv.numbered (h : ContentsRunInv config .idle r)
    (hkeys : KeyRunInv journal .idle r) (hroom : RoomForBoots journal)
    (he : journal[(atNextEntry r).position - 1]? = some e) :
    ContentsRunInv config .idle { atNextEntry r with boots := (extractBoot r.boots e).1 } := by
  intro hok hnone hcount
  have hrows := hkeys.rows hroom he hok hnone
  exact ((h hok hnone hcount).boots hrows.1).same ⟨rfl, rfl, rfl, rfl, rfl⟩

/-- What the modifiers change of an entry does not count. -/
theorem ContentsRunInv.modified (h : ContentsRunInv config (.holding e) r) (priority : Fin 8)
    (texts : EntryTexts) :
    ContentsRunInv config (.holding { e with priority := priority, texts := texts }) r := by
  intro hok hnone hcount
  have hinv := h hok hnone hcount
  refine hinv.stage ?_ ?_
  · rfl
  · rintro e' (⟨⟨⟩⟩ | ⟨⟨⟩⟩)
    exact hinv.held e (.inl rfl)

/-- Dropping the entry at hand keeps the invariant. -/
theorem ContentsRunInv.dropped (h : ContentsRunInv config (.holding e) r) :
    ContentsRunInv config .idle r := by
  intro hok hnone hcount
  refine (h hok hnone hcount).stage ?_ (by rintro e (⟨⟨⟩⟩ | ⟨⟨⟩⟩))
  rfl

/-- The entry stored becomes the last one accepted. -/
theorem ContentsRunInv.noteAccepted (h : ContentsRunInv config (.stored e) r) (position : ℕ) :
    ContentsRunInv config .idle { r with history := { r.history with
      accepted := r.history.accepted ++ [(position, e)] } } := by
  intro hok hnone hcount
  have hinv := h hok hnone hcount
  refine ⟨?_, hinv.unused, hinv.named, hinv.next, hinv.rows, by rintro e (⟨⟨⟩⟩ | ⟨⟨⟩⟩)⟩
  have htaken : takenEntries .idle { r with history := { r.history with
      accepted := r.history.accepted ++ [(position, e)] } } = takenEntries (.stored e) r := by
    simp [takenEntries, storedEntries, acceptedEntries]
  rw [htaken]
  exact hinv.groups

/-- A flush keeps the invariant. -/
theorem ContentsRunInv.flush (h : ContentsRunInv config x r) (gi : ℕ) :
    ContentsRunInv config x (r.flushChunk env config gi).2 := by
  intro hok hnone hcount
  rw [segmentCount_flush hok] at hcount
  exact (h (after_failed_eq hok).1 hnone hcount).flush hok

/-- A sync keeps the invariant. -/
theorem ContentsRunInv.sync (h : ContentsRunInv config x r) (gi : ℕ) :
    ContentsRunInv config x (r.syncIfDue env config gi).2 := by
  intro hok hnone hcount
  have hkeeps : KeepsFile (r.writers gi) (writerSyncIfDue env config r.tick gi (r.writers gi)).2 :=
    .of_eq (writerSyncIfDue_keeps env config r.tick gi (r.writers gi)).1
  have hsame : segmentCount config (r.syncIfDue env config gi).2 = segmentCount config r :=
    segmentCount_of_keepsFile hkeeps rfl rfl
  rw [hsame] at hcount
  exact (h (after_failed_eq hok).1 hnone hcount).sync

/-- Closing a segment keeps the invariant. -/
theorem ContentsRunInv.finish {f : SegmentOnDisk} (h : ContentsRunInv config x r)
    (hfile : (r.writers gi).file = some f) (hchunk : (r.writers gi).chunk = [])
    (reason : RotateReason) : ContentsRunInv config x (finishedSegment env r gi f reason) := by
  intro hok hnone hcount
  have hbefore := Nat.lt_of_le_of_lt
    (Nat.add_le_add_left (segmentCount_le_finish hfile reason) 1) hcount
  exact (h (after_failed_eq hok).1 hnone hbefore).finish hfile hchunk reason

/-- A retention pass that removes nothing keeps the invariant. -/
theorem ContentsRunInv.retention (h : ContentsRunInv config x r) :
    ContentsRunInv config x (r.retention env config).2 := by
  intro hok hnone hcount
  rw [retention_failed] at hok
  obtain ⟨hsame, hpasses⟩ := retention_of_passes_nil hnone
  rw [hsame.sameContents.segmentCount_eq] at hcount
  exact (h hok hpasses hcount).same hsame.sameContents

/-- A segment opened without an error takes the entry. -/
theorem ContentsRunInv.open (h : ContentsRunInv config (.holding e) r)
    (hfile : (r.writers gi).file = none) (hgi : gi = config.priorityToGroup e.priority)
    (hok : (r.openSegment env config gi e).2.history.failed = false)
    (hnone : r.history.passes = [])
    (hcount : 1 + segmentCount config (r.openSegment env config gi e).2 < 2 ^ 64) :
    ContentsAdmits config gi e (r.openSegment env config gi e).2 := by
  have hlt : gi < config.groups.length := by
    rw [hgi]
    exact config.priorityToGroup_lt _
  have hbefore : 1 + segmentCount config r < 2 ^ 64 := by
    rw [segmentCount_open hlt hfile hok] at hcount
    omega
  exact (h (after_failed_eq hok).1 hnone hbefore).open hfile hgi hok hcount

/-- The entry at hand, and a writer that takes it as long as nothing fails. -/
def ContentsRunAdmits (config : RecorderConfig) (gi : ℕ) (e : LogEntry) (r : RecorderState) :
    Prop :=
  r.history.failed = false → r.history.passes = [] → 1 + segmentCount config r < 2 ^ 64 →
    ContentsAdmits config gi e r

/-- A writer that takes the entry has it behind `writer_add_entry`. -/
theorem ContentsRunAdmits.add (h : ContentsRunAdmits config gi e r) :
    ContentsRunInv config (.stored e) (addedEntry r gi e) := by
  intro hok hnone hcount
  have hkeeps : KeepsFile (r.writers gi) (writerAddEntry (r.writers gi) e) := .of_eq rfl
  have hsame : segmentCount config (addedEntry r gi e) = segmentCount config r :=
    segmentCount_of_keepsFile hkeeps rfl rfl
  rw [hsame] at hcount
  exact (h (after_failed_eq hok).1 hnone hcount).add

/-- Behind an error nothing is said. -/
theorem ContentsRunInv.of_failed (hfailed : r.history.failed = true) :
    ContentsRunInv config x r := by
  intro hok
  rw [hfailed] at hok
  cases hok

/-- No call breaks the invariant, nor that of the keys. -/
theorem contents_rule (env : RecorderEnv) (config : RecorderConfig) (hroom : RoomForBoots journal)
    (horder : JournalInOrder journal) :
    RecorderRule env config journal
      (fun x r => KeyRunInv journal x r ∧ ContentsRunInv config x r)
      (fun gi e r => KeyRunInv journal (.holding e) r ∧ ContentsRunAdmits config gi e r) where
  same hsame h := ⟨(key_rule env config hroom horder).same hsame h.1, h.2.same hsame⟩
  receive he h :=
    ⟨(key_rule env config hroom horder).receive he h.1, h.2.receive h.1 hroom he⟩
  numbered he h :=
    ⟨(key_rule env config hroom horder).numbered he h.1, h.2.numbered h.1 hroom he⟩
  modified priority texts h :=
    ⟨(key_rule env config hroom horder).modified priority texts h.1, h.2.modified priority texts⟩
  dropped h := ⟨(key_rule env config hroom horder).dropped h.1, h.2.dropped⟩
  pending hfailed h :=
    ⟨(key_rule env config hroom horder).pending hfailed h.1, .of_failed hfailed⟩
  accepted position h :=
    ⟨(key_rule env config hroom horder).accepted position h.1, h.2.noteAccepted position⟩
  again hfailed h := ⟨(key_rule env config hroom horder).again hfailed h.1, .of_failed hfailed⟩
  flush gi h := ⟨(key_rule env config hroom horder).flush gi h.1, h.2.flush gi⟩
  sync gi h := ⟨(key_rule env config hroom horder).sync gi h.1, h.2.sync gi⟩
  finish reason hfile hchunk h :=
    ⟨(key_rule env config hroom horder).finish reason hfile hchunk h.1,
      h.2.finish hfile hchunk reason⟩
  retention h := ⟨(key_rule env config hroom horder).retention h.1, h.2.retention⟩
  stays := by
    intro r e gi hopen hgi hstays h
    refine ⟨h.1, fun hok hnone hcount => ?_⟩
    exact (h.2 hok hnone hcount).stays (h.1 hok hnone).table.nodup hopen hgi hstays.choose_spec
  opened hfile hgi hopened h :=
    ⟨(key_rule env config hroom horder).opened hfile hgi hopened h.1, h.2.open hfile hgi⟩
  notOpened := by
    intro r e gi hfile hfail h
    refine ⟨(key_rule env config hroom horder).notOpened hfile hfail h.1, fun hok => ?_⟩
    exact absurd (after_failed_eq hok).2 hfail
  added h := ⟨(key_rule env config hroom horder).added h.1, h.2.add⟩
  notAdded := by
    intro r e gi err h
    have hkeys := key_rule env config hroom horder
    refine ⟨@RecorderRule.notAdded _ _ _ _ _ hkeys r e gi err h.1, fun hok => ?_⟩
    cases (after_failed_eq hok).2

/-- A fresh recorder has no segments. -/
theorem FreshRecorder.contentsInv (h : FreshRecorder r) : ContentsInv config .idle r := by
  have htaken : takenEntries .idle r = [] := by
    rw [takenEntries, acceptedEntries, h.accepted]
    rfl
  have hopen : openCount config r.writers = 0 := by
    rw [openCount, List.countP_eq_zero]
    intro gi _
    rw [PriorityWriter.isOpen, h.files gi]
    exact Bool.false_ne_true
  refine ⟨?_, fun gi _ => h.files gi, ?_, ?_, ?_, by rintro e (⟨⟨⟩⟩ | ⟨⟨⟩⟩)⟩
  · intro gi _
    have hfiles : groupFiles (config.group gi).name r.closed (r.writers gi) = [] := by
      rw [groupFiles, h.closed, h.files gi]
      rfl
    refine ⟨fun _ => h.chunks gi, ?_, ?_, ?_, ?_, ?_, ?_, ?_⟩
    · intro f hf
      cases (h.files gi).symm.trans hf
    · intro f hf
      cases (h.files gi).symm.trans hf
    · intro f hf
      cases (h.files gi).symm.trans hf
    · rw [hfiles, h.chunks gi, htaken]
      rfl
    · rw [hfiles]
      exact List.Pairwise.nil
    · rw [hfiles]
      exact fun f hf => absurd hf List.not_mem_nil
    · rw [hfiles]
      exact fun f hf => absurd hf List.not_mem_nil
  · rw [h.closed]
    exact fun f hf => absurd hf List.not_mem_nil
  · rw [h.nextSegmentSeq, segmentCount, h.closed, hopen]
    rfl
  · intro gi f hf
    cases (h.files gi).symm.trans hf

end Runs

/-- **The closed segments of a group**: they hold the entries `es`, their numbers increase, and
their headers have the numbers of all their entries. -/
structure GroupSegments (name : Bytes) (closed : List SegmentOnDisk) (es : List LogEntry) :
    Prop where
  entries : (closed.filter (·.group = name)).flatMap segmentEntries = es
  increasing : (closed.filter (·.group = name)).Pairwise fun f g => f.nameSeq < g.nameSeq
  headers : ∀ f ∈ closed.filter (·.group = name), HeaderNumbers f

/-- A group without an open file has its entries in closed segments. -/
theorem GroupHolds.segments {name : Bytes} {next : UInt64} {closed : List SegmentOnDisk}
    {w : PriorityWriter} {es : List LogEntry} (h : GroupHolds name next closed w es)
    (hfile : w.file = none) : GroupSegments name closed es := by
  have hfiles : groupFiles name closed w = closed.filter (·.group = name) := by
    rw [groupFiles, hfile, Option.toList_none, List.append_nil]
  obtain ⟨hidle, -, -, -, hentries, hincreasing, -, hheaders⟩ := h
  rw [hfiles] at hentries hincreasing hheaders
  rw [hidle hfile, List.append_nil] at hentries
  exact ⟨hentries, hincreasing, hheaders⟩

/-- Every segment belongs to a group, and the segments of each group hold the entries `es` that
go to it. -/
structure SegmentsHold (config : RecorderConfig) (closed : List SegmentOnDisk)
    (es : List LogEntry) : Prop where
  groups : ∀ gi < config.groups.length,
    GroupSegments (config.group gi).name closed (routedTo config gi es)
  named : ∀ f ∈ closed, ∃ gi < config.groups.length, f.group = (config.group gi).name

/-- **What a recorder leaves**: when all segments are closed, those of each group hold the
entries it accepted for the group, in every run in which nothing fails and nothing is
removed. -/
theorem group_contents (env : RecorderEnv) (config : RecorderConfig) {journal : List LogEntry}
    (hroom : RoomForBoots journal) (horder : JournalInOrder journal) (calls : List RecorderCall)
    {start : RecorderState} (hstart : FreshRecorder start)
    (hok : (recorderRun env config journal calls start).history.failed = false)
    (hkeeps : (recorderRun env config journal calls start).history.passes = [])
    (hclosed : ∀ gi < config.groups.length,
      ((recorderRun env config journal calls start).writers gi).file = none)
    (hcount : 1 + (recorderRun env config journal calls start).closed.length < 2 ^ 64) :
    SegmentsHold config (recorderRun env config journal calls start).closed
      (acceptedEntries (recorderRun env config journal calls start)) := by
  have hrun := ((contents_rule env config hroom horder).run calls
    ⟨fun _ _ => hstart.keyInv, fun _ _ _ => hstart.contentsInv⟩).2
  have hopen : openCount config (recorderRun env config journal calls start).writers = 0 := by
    rw [openCount, List.countP_eq_zero]
    intro gi hgi
    rw [PriorityWriter.isOpen, hclosed gi (List.mem_range.mp hgi)]
    exact Bool.false_ne_true
  have hinv := hrun hok hkeeps (by rw [segmentCount, hopen, Nat.add_zero]; exact hcount)
  refine ⟨fun gi hgi => ?_, hinv.named⟩
  have hsegments := (hinv.groups gi hgi).segments (hclosed gi hgi)
  have htaken : takenEntries .idle (recorderRun env config journal calls start) =
      acceptedEntries (recorderRun env config journal calls start) := List.append_nil _
  rw [htaken] at hsegments
  exact hsegments

end Recorder.Analysis
