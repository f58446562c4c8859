import Recorder.Analysis.FollowRun

/-!
# A follow scan that fails

`rec_player_scan_follow` scans the segments one after the other and moves the mark of a group
as soon as its segment was scanned. When a later segment cannot be read the scan fails, and
`append_pending_entries` throws away what it collected; the marks it moved stay where they are
(`followLoop_fails`). The entries of the segments in front of the one that failed are then in
front of their marks (`PastEnd`), and no later scan looks at them again.

* `scannedBefore`: the segments in front of the first one that cannot be read.
* `marksAfter`: the marks after a list of segments was scanned.
* **`followLoop_ok`**, **`followLoop_fails`**: what the loop delivers and where it leaves the
  marks, with and without a segment that fails.
-/

set_option autoImplicit false

namespace Recorder.Analysis

open Recorder.Model Recorder.Lib

/-! ## What is committed behind the marks -/

/-- The entries of a segment that are committed behind the mark of its group: all of them
without a mark, none in front of it. -/
def behindMark (marks : List FollowSegment) (p : SegmentPath) : List StoredEntry :=
  match followStart marks p with
  | none => []
  | some start => p.file.entriesFrom start

/-- The mark of the group of a segment stands at the end of the segment, or in a later one. -/
def PastEnd (marks : List FollowSegment) (p : SegmentPath) : Prop :=
  ∃ m, findFollowSegment marks p.file.group = some m ∧
    (p.segmentSeq < m.segmentSeq ∨
      p.segmentSeq = m.segmentSeq ∧ m.committedEnd = p.file.file.committedEnd)

/-- The mark after one segment of the loop. -/
def markAfter (marks : List FollowSegment) (p : SegmentPath) : List FollowSegment :=
  if (followStart marks p).isSome then
    rememberFollowSegment marks p p.file.file.committedEnd
  else marks

/-- The marks after the loop has gone through a list of segments. -/
def marksAfter (marks : List FollowSegment) (paths : List SegmentPath) : List FollowSegment :=
  paths.foldl markAfter marks

/-- A segment that the loop scans and that cannot be read. -/
def scanFails (fault : ScanFault) (marks : List FollowSegment) (p : SegmentPath) : Bool :=
  (followStart marks p).isSome && (fault p.file).isSome

/-- The segments in front of the first one that cannot be read. -/
def scannedBefore (fault : ScanFault) (marks : List FollowSegment) (paths : List SegmentPath) :
    List SegmentPath :=
  paths.takeWhile fun p => !scanFails fault marks p

section Marks

variable {marks : List FollowSegment} {p q : SegmentPath}

/-- A segment that is scanned is not in front of its mark. -/
theorem le_of_followStart (h : (followStart marks p).isSome = true) :
    ∀ m, findFollowSegment marks p.file.group = some m → m.segmentSeq ≤ p.segmentSeq := by
  intro m hm
  unfold followStart at h
  simp only [hm] at h
  split at h
  · cases h
  · rename_i hnot
    exact UInt64.not_lt.mp hnot

theorem findFollowSegment_markAfter (h : (followStart marks p).isSome = true) :
    findFollowSegment (markAfter marks p) p.file.group =
      some ⟨p.file.group, p.segmentSeq, p.file.file.committedEnd⟩ := by
  rw [markAfter, if_pos h]
  exact findFollowSegment_remember_self _ (le_of_followStart h)

theorem findFollowSegment_markAfter_ne {group : Bytes} (h : p.file.group ≠ group) :
    findFollowSegment (markAfter marks p) group = findFollowSegment marks group := by
  unfold markAfter
  split
  · exact findFollowSegment_remember_ne h
  · rfl

/-- A scanned segment changes nothing for the segments behind it. -/
theorem followStart_markAfter (horder : p.file.group = q.file.group → p.segmentSeq < q.segmentSeq) :
    followStart (markAfter marks p) q = followStart marks q := by
  by_cases hsome : (followStart marks p).isSome = true
  · by_cases hsame : p.file.group = q.file.group
    · have hlt := horder hsame
      have hself := findFollowSegment_markAfter hsome
      rw [hsame] at hself
      have hleft : followStart (markAfter marks p) q = some 0 := by
        simp only [followStart, hself]
        rw [if_neg (UInt64.not_lt.mpr (UInt64.le_of_lt hlt)),
          if_neg fun heq => UInt64.lt_irrefl _ (heq ▸ hlt)]
      rw [hleft]
      cases hfind : findFollowSegment marks q.file.group with
      | none => simp [followStart, hfind]
      | some m =>
        have hm : m.segmentSeq < q.segmentSeq :=
          UInt64.lt_of_le_of_lt (le_of_followStart hsome m (hsame ▸ hfind)) hlt
        simp only [followStart, hfind]
        rw [if_neg (UInt64.not_lt.mpr (UInt64.le_of_lt hm)),
          if_neg fun heq => UInt64.lt_irrefl _ (heq ▸ hm)]
    · simp only [followStart, findFollowSegment_markAfter_ne hsame]
  · rw [markAfter, if_neg hsome]

theorem behindMark_markAfter
    (horder : p.file.group = q.file.group → p.segmentSeq < q.segmentSeq) :
    behindMark (markAfter marks p) q = behindMark marks q := by
  rw [behindMark, behindMark, followStart_markAfter horder]

theorem scanFails_markAfter (fault : ScanFault)
    (horder : p.file.group = q.file.group → p.segmentSeq < q.segmentSeq) :
    scanFails fault (markAfter marks p) q = scanFails fault marks q := by
  rw [scanFails, scanFails, followStart_markAfter horder]

theorem followStart_marksAfter (ps : List SegmentPath) :
    ∀ marks : List FollowSegment,
      (∀ p ∈ ps, p.file.group = q.file.group → p.segmentSeq < q.segmentSeq) →
      followStart (marksAfter marks ps) q = followStart marks q := by
  induction ps with
  | nil => exact fun _ _ => rfl
  | cons p ps ih =>
    intro marks horder
    exact (ih (markAfter marks p) fun x hx => horder x (by simp [hx])).trans
      (followStart_markAfter (horder p (by simp)))

/-- Nothing is committed behind a mark at the end. -/
theorem PastEnd.behindMark_eq_nil (h : PastEnd marks p) : behindMark marks p = [] := by
  obtain ⟨m, hfind, hlt | ⟨heq, hend⟩⟩ := h
  · simp [behindMark, followStart, hfind, hlt]
  · have hnot : ¬ p.segmentSeq < m.segmentSeq := by
      rw [heq]
      exact UInt64.lt_irrefl _
    simp [behindMark, followStart, hfind, heq, hend, entriesFrom_committedEnd]

/-- The loop leaves the mark at the end of a segment it goes through, or finds it behind. -/
theorem pastEnd_markAfter (marks : List FollowSegment) (p : SegmentPath) :
    PastEnd (markAfter marks p) p := by
  by_cases hsome : (followStart marks p).isSome = true
  · exact ⟨_, findFollowSegment_markAfter hsome, .inr ⟨rfl, rfl⟩⟩
  · have hnone : followStart marks p = none := by simpa using hsome
    rw [markAfter, if_neg hsome]
    unfold followStart at hnone
    cases hfind : findFollowSegment marks p.file.group with
    | none => simp [hfind] at hnone
    | some m =>
      refine ⟨m, hfind, .inl ?_⟩
      by_contra hnot
      simp only [hfind, hnot, if_false] at hnone
      split at hnone <;> cases hnone

/-- A mark at the end of a segment stays there, or moves on, when another segment is scanned
or the same one again. -/
theorem PastEnd.markAfter (h : PastEnd marks p)
    (hends : q.file.group = p.file.group → q.segmentSeq = p.segmentSeq →
      q.file.file.committedEnd = p.file.file.committedEnd) : PastEnd (markAfter marks q) p := by
  by_cases hsome : (followStart marks q).isSome = true
  · by_cases hsame : q.file.group = p.file.group
    · obtain ⟨m, hfind, hm⟩ := h
      have hle := le_of_followStart hsome m (hsame ▸ hfind)
      have hself := findFollowSegment_markAfter hsome
      rw [hsame] at hself
      refine ⟨_, hself, ?_⟩
      have hpq : p.segmentSeq ≤ q.segmentSeq := by
        rcases hm with hlt | ⟨heq, -⟩
        · exact UInt64.le_trans (UInt64.le_of_lt hlt) hle
        · rw [heq]
          exact hle
      by_cases heq : q.segmentSeq = p.segmentSeq
      · exact .inr ⟨heq.symm, hends hsame heq⟩
      · exact .inl (UInt64.lt_of_le_of_ne hpq (Ne.symm heq))
    · obtain ⟨m, hfind, hm⟩ := h
      exact ⟨m, by rw [findFollowSegment_markAfter_ne hsame, hfind], hm⟩
  · rw [Analysis.markAfter, if_neg hsome]
    exact h

end Marks

/-- Two segments of one group and number have one end. -/
def SameEnds (paths : List SegmentPath) : Prop :=
  ∀ p ∈ paths, ∀ q ∈ paths, q.file.group = p.file.group → q.segmentSeq = p.segmentSeq →
    q.file.file.committedEnd = p.file.file.committedEnd

theorem PastEnd.marksAfter {p : SegmentPath} (ps : List SegmentPath) :
    ∀ {marks : List FollowSegment}, PastEnd marks p →
      (∀ q ∈ ps, q.file.group = p.file.group → q.segmentSeq = p.segmentSeq →
        q.file.file.committedEnd = p.file.file.committedEnd) →
      PastEnd (marksAfter marks ps) p := by
  induction ps with
  | nil => exact fun h _ => h
  | cons q ps ih =>
    intro marks h hends
    exact ih (h.markAfter (hends q (by simp))) fun x hx => hends x (by simp [hx])

/-- Every segment the loop has gone through has its mark at its end or behind it. -/
theorem pastEnd_marksAfter (ps : List SegmentPath) (hends : SameEnds ps) :
    ∀ marks : List FollowSegment, ∀ p ∈ ps, PastEnd (marksAfter marks ps) p := by
  induction ps with
  | nil => exact fun _ p hp => by cases hp
  | cons q ps ih =>
    intro marks p hp
    rcases List.mem_cons.mp hp with rfl | hp'
    · exact (pastEnd_markAfter marks p).marksAfter ps fun x hx =>
        hends p (by simp) x (by simp [hx])
    · exact ih (fun x hx y hy => hends x (by simp [hx]) y (by simp [hy])) _ p hp'

/-! ## The loop -/

section Loop

variable {fault : ScanFault}

theorem scanPathWithContext_ok {f : StoreFile} (h : fault f = none) (start : UInt64) :
    scanPathWithContext fault f start = (true, f.entriesFrom start) := by
  simp [scanPathWithContext, h]

/-- **The loop of a scan in which every segment can be read** delivers what is committed
behind the marks.
SOURCE: librecorder.c:1396-1409 -/
theorem followLoop_ok (paths : List SegmentPath) :
    ∀ marks : List FollowSegment, PathsInOrder paths →
      (∀ p ∈ paths, scanFails fault marks p = false) →
      followLoop fault paths marks =
        (true, paths.flatMap (behindMark marks), marksAfter marks paths) := by
  induction paths with
  | nil => exact fun _ _ _ => rfl
  | cons p paths ih =>
    intro marks horder hread
    obtain ⟨hfirst, hrest⟩ := List.pairwise_cons.mp horder
    have hbehind : paths.flatMap (behindMark (markAfter marks p)) =
        paths.flatMap (behindMark marks) :=
      List.flatMap_congr fun q hq => behindMark_markAfter (hfirst q hq)
    have htail := ih (markAfter marks p) hrest fun q hq => by
      rw [scanFails_markAfter fault (hfirst q hq)]
      exact hread q (by simp [hq])
    cases hstart : followStart marks p with
    | none =>
      have hmark : markAfter marks p = marks := by simp [markAfter, hstart]
      rw [hmark] at htail
      rw [followLoop, hstart]
      simp only [htail, List.flatMap_cons, marksAfter, List.foldl_cons, hmark]
      rw [show behindMark marks p = [] by rw [behindMark, hstart], List.nil_append]
    | some start =>
      have hfault : fault p.file = none := by
        have h := hread p (by simp)
        simpa [scanFails, hstart] using h
      have hmark : markAfter marks p =
          rememberFollowSegment marks p p.file.file.committedEnd := by simp [markAfter, hstart]
      rw [followLoop, hstart]
      simp only [scanPathWithContext_ok hfault]
      rw [← hmark, htail, hbehind]
      simp only [List.flatMap_cons, behindMark, hstart, marksAfter, List.foldl_cons]

theorem scannedBefore_congr {marks marks' : List FollowSegment} {paths : List SegmentPath}
    (h : ∀ q ∈ paths, scanFails fault marks' q = scanFails fault marks q) :
    scannedBefore fault marks' paths = scannedBefore fault marks paths := by
  unfold scannedBefore
  induction paths with
  | nil => rfl
  | cons a paths ih =>
    rw [List.takeWhile_cons, List.takeWhile_cons, h a (by simp), ih fun q hq => h q (by simp [hq])]

/-- **The loop of a scan in which a segment cannot be read** fails there, with the marks moved
over the segments in front of it.
SOURCE: librecorder.c:1396-1409 -/
theorem followLoop_fails (paths : List SegmentPath) :
    ∀ marks : List FollowSegment, PathsInOrder paths →
      (∃ p ∈ paths, scanFails fault marks p = true) →
      ∃ entries, followLoop fault paths marks =
        (false, entries, marksAfter marks (scannedBefore fault marks paths)) := by
  induction paths with
  | nil =>
    rintro marks - ⟨p, hp, -⟩
    cases hp
  | cons p paths ih =>
    intro marks horder hfails
    obtain ⟨hfirst, hrest⟩ := List.pairwise_cons.mp horder
    by_cases hp : scanFails fault marks p = true
    · have hbefore : scannedBefore fault marks (p :: paths) = [] := by simp [scannedBefore, hp]
      rw [hbefore]
      rw [scanFails, Bool.and_eq_true] at hp
      obtain ⟨start, hstart⟩ := Option.isSome_iff_exists.mp hp.1
      obtain ⟨n, hfault⟩ := Option.isSome_iff_exists.mp hp.2
      rw [followLoop, hstart]
      simp only [scanPathWithContext, hfault]
      exact ⟨_, rfl⟩
    · have hcongr : ∀ q ∈ paths, scanFails fault (markAfter marks p) q = scanFails fault marks q :=
        fun q hq => scanFails_markAfter fault (hfirst q hq)
      have hbefore : scannedBefore fault marks (p :: paths) =
          p :: scannedBefore fault (markAfter marks p) paths := by
        rw [scannedBefore_congr hcongr, scannedBefore, scannedBefore, List.takeWhile_cons,
          if_pos (by simpa using hp)]
      obtain ⟨q, hq, hqfails⟩ := hfails
      have hq' : q ∈ paths := by
        rcases List.mem_cons.mp hq with rfl | hq'
        · exact absurd hqfails hp
        · exact hq'
      obtain ⟨entries, htail⟩ :=
        ih (markAfter marks p) hrest ⟨q, hq', by rw [hcongr q hq', hqfails]⟩
      have hfold : marksAfter (markAfter marks p) (scannedBefore fault (markAfter marks p) paths) =
          marksAfter marks (scannedBefore fault marks (p :: paths)) := by
        rw [hbefore]
        rfl
      rw [hfold] at htail
      cases hstart : followStart marks p with
      | none =>
        have hmark : markAfter marks p = marks := by simp [markAfter, hstart]
        rw [followLoop, hstart]
        rw [hmark] at htail
        exact ⟨entries, htail⟩
      | some start =>
        have hfault : fault p.file = none := by simpa [scanFails, hstart] using hp
        have hmark : markAfter marks p =
            rememberFollowSegment marks p p.file.file.committedEnd := by simp [markAfter, hstart]
        rw [followLoop, hstart]
        simp only [scanPathWithContext_ok hfault]
        rw [← hmark, htail]
        exact ⟨_, rfl⟩

end Loop

end Recorder.Analysis
