import Recorder.Analysis.IndexFile
import Recorder.Analysis.Recovery
import Recorder.Model.RecoveryIndex

/-!
# Recovery run twice

What a metadata scan has accepted of a file below 4 GiB it accepts again when the file ends at
the committed end, with the same outputs. A second recovery therefore finds nothing to cut; and
the index it finds is one it accepts, or the one it would write itself, since a rebuild depends
on the segment alone.

**Main result** (`recovery_is_idempotent`): the scan of the first `committed_end` bytes, and the
second of two recoveries of a file, whose first did not fail. `recoverSegmentDir_twice` says the
same of the segments of a directory.
-/

set_option autoImplicit false

namespace Recorder.Analysis

open Recorder.Model

/-! ## The scan of what is kept -/

section Scan

variable {evp : EvpOps} {codec : CodecOps} {buf : Bytes} {out : ScanOut}

/-- Below 4 GiB the data offset of a file that is scanned has not wrapped. -/
theorem framesStart_lt_of_metadataScan (hsize : buf.length < 2 ^ 32)
    (h : metadataScan evp codec buf = .ok out) : framesStart buf < 2 ^ 32 := by
  obtain ⟨header, offset, info, st, hparse, -⟩ := (metadataScan_eq_ok_iff _ _ _ _).mp h
  obtain ⟨⟨-, hle, -⟩, -⟩ := (segmentParseHeader_eq_some_iff _ _ _ _).mp hparse
  exact lt_of_le_of_lt hle hsize

theorem length_ne_zero_of_metadataScan (h : metadataScan evp codec buf = .ok out) :
    buf.length ≠ 0 := by
  obtain ⟨header, offset, info, st, hparse, -⟩ := (metadataScan_eq_ok_iff _ _ _ _).mp h
  exact length_ne_zero_of_parse hparse

/-- Without a callback a scan depends on the flag for encryption alone. -/
theorem scanLoop_of_no_cb {σ : Type} (env env' : ScanEnv σ) (hcb : env.cb = none)
    (hcb' : env'.cb = none) (henc : env'.encrypted = env.encrypted) (buf : Bytes) (fuel : ℕ) :
    ∀ st, scanLoop env buf fuel st = scanLoop env' buf fuel st := by
  induction fuel with
  | zero => exact fun _ => rfl
  | succ fuel ih =>
    intro st
    simp only [scanLoop, deliverFrame, hcb, hcb', henc, ih]

/-- Without a callback the key and the first offset play no part. -/
theorem segmentScanImpl_metadata (decryptor : Bool) (minFrameOffset : ℕ) :
    (segmentScanImpl (σ := Unit) evp codec buf decryptor none () minFrameOffset).out = .ok out ↔
      metadataScan evp codec buf = .ok out := by
  cases hparse : segmentParseHeader buf with
  | none =>
    refine iff_of_false ?_ fun h => ?_
    · simp only [segmentScanImpl, hparse]
      intro h
      cases h
    · obtain ⟨header, offset, info, st, hsome, -⟩ := (metadataScan_eq_ok_iff _ _ _ _).mp h
      rw [hparse] at hsome
      cases hsome
  | some r =>
    obtain ⟨header, offset, info⟩ := r
    rw [metadataScan_of_parse evp codec hparse]
    simp only [segmentScanImpl, hparse, Option.isSome_none, Bool.and_false, Bool.false_eq_true,
      if_false]
    refine Eq.to_iff (congrArg (fun e => (ScanEnd.result header e).out = .ok out) ?_)
    exact scanLoop_of_no_cb ⟨evp, codec, header, info, _, _, none, minFrameOffset⟩
      (metadataEnv evp codec buf header offset info) rfl rfl rfl buf (buf.length + 1)
      (ScanState.start offset ())

/-- **The kept bytes are accepted again**, with the outputs of the first scan. -/
theorem scan_of_kept (hsize : buf.length < 2 ^ 32) (h : metadataScan evp codec buf = .ok out) :
    metadataScan evp codec (buf.take out.committedEnd) = .ok out :=
  (metadataScan_take evp codec (framesStart_lt_of_metadataScan hsize h) h).1

end Scan

/-! ## The index -/

section Index

variable {evp : EvpOps} {codec : CodecOps} {getters : ChunkGetters} {pathOk : Bool}
  {out : ScanOut} {segment : Bytes}

/-- The second time the index is accepted, or comes out of the same scan. -/
theorem recoverIndex_twice {indexIo indexIo' : IndexIo} (hrebuild : indexIo.rebuildOk = true)
    (hread : indexIo'.readOk = true) (index : Option Bytes) :
    recoverIndex evp codec getters indexIo' pathOk out segment
        (recoverIndex evp codec getters indexIo pathOk out segment index) =
      recoverIndex evp codec getters indexIo pathOk out segment index := by
  have hagain : ∀ file, indexRebuildForSegment evp codec getters segment false = some file →
      recoverIndex evp codec getters indexIo' pathOk out segment (some file) = some file := by
    intro file hfile
    unfold recoverIndex
    simp only [hfile, ite_self]
  cases hrebuilt : indexRebuildForSegment evp codec getters segment false with
  | none =>
    -- no index can be written, neither now nor then
    have hkept : ∀ io, recoverIndex evp codec getters io pathOk out segment index = index := by
      intro io
      unfold recoverIndex
      simp only [hrebuilt, ite_self]
    rw [hkept, hkept]
  | some file =>
    by_cases hcase : (out.footer.present && pathOk && out.header.flags &&& flagEncrypted == 0 &&
        !indexAccepted indexIo segment index) = true
    · have hnew : recoverIndex evp codec getters indexIo pathOk out segment index =
          some file := by
        unfold recoverIndex
        rw [if_pos hcase, if_pos hrebuild, hrebuilt]
      rw [hnew, hagain file hrebuilt]
    · have hkept : recoverIndex evp codec getters indexIo pathOk out segment index = index := by
        unfold recoverIndex
        rw [if_neg hcase]
      rw [hkept]
      unfold recoverIndex
      rw [if_neg]
      -- an index that was accepted is accepted if it can be read
      have haccepted : indexAccepted indexIo segment index = true →
          indexAccepted indexIo' segment index = true := by
        unfold indexAccepted
        cases index with
        | none => exact fun h => h
        | some f =>
          simp only [hread, Bool.true_and, Bool.and_eq_true]
          exact fun h => h.2
      simp only [Bool.and_eq_true, Bool.not_eq_true', not_and, Bool.not_eq_false] at hcase ⊢
      exact fun h => haccepted (hcase h)

end Index

/-! ## Recovery -/

/-- No system call of a recovery fails. -/
structure CallsSucceed (io : RecoveryIo) (indexIo : IndexIo) : Prop where
  stat : io.statOk = true
  map : io.mapOk = true
  truncate : io.truncateOk = true
  rebuild : indexIo.rebuildOk = true

section Recovery

variable {evp : EvpOps} {codec : CodecOps} {getters : ChunkGetters} {io : RecoveryIo}
  {indexIo : IndexIo} {content : Bytes} {out : ScanOut}

/-- The segment's side of a recovery is `recoverSegmentFile`. -/
theorem recoverSegment_file (indexOk : Bool) (pathOk : Bool) (seq : UInt64)
    (indexes : UInt64 → Option Bytes) :
    (recoverSegment evp codec getters io indexIo pathOk seq content indexes).content =
        (recoverSegmentFile evp codec io indexOk content).content ∧
      (recoverSegment evp codec getters io indexIo pathOk seq content indexes).changed =
        (recoverSegmentFile evp codec io indexOk content).changed := by
  unfold recoverSegment recoverSegmentFile
  by_cases hstat : io.statOk = true
  · by_cases hempty : content.length = 0
    · simp [hstat, hempty, RecoveredFile.remove]
    · by_cases hmap : io.mapOk = true
      · cases metadataScan evp codec content with
        | error e => simp [hstat, hempty, hmap, RecoveredFile.remove]
        | ok out => simp [hstat, hempty, hmap]
      · simp [hstat, hempty, hmap, RecoveredFile.remove]
  · simp [hstat]

/-- What a recovery that does not fail leaves of a file the scan accepts. -/
theorem recoverSegment_of_ok (hcalls : CallsSucceed io indexIo)
    (hout : metadataScan evp codec content = .ok out) (pathOk : Bool) (seq : UInt64)
    (indexes : UInt64 → Option Bytes) :
    recoverSegment evp codec getters io indexIo pathOk seq content indexes =
      { content := some (content.take out.committedEnd)
        indexes := Function.update indexes out.header.segmentSeq
          (recoverIndex evp codec getters indexIo pathOk out (content.take out.committedEnd)
            (indexes out.header.segmentSeq))
        changed := decide (out.committedEnd < content.length) } := by
  have hne := length_ne_zero_of_metadataScan hout
  obtain ⟨hstat, hmap, htruncate, hrebuild⟩ := hcalls
  unfold recoverSegment
  simp only [hstat, hmap, htruncate, Bool.not_true, Bool.false_eq_true, if_false, hne, hout,
    Bool.and_true, decide_eq_true_eq]
  by_cases hcut : out.committedEnd < content.length
  · simp only [if_pos hcut]
  · simp only [if_neg hcut, List.take_of_length_le (Nat.not_lt.mp hcut)]

/-- **A second recovery changes nothing**, if the first did not fail and the second can read. -/
theorem recoverSegment_twice (hsize : content.length < 2 ^ 32)
    (hout : metadataScan evp codec content = .ok out) (hcalls : CallsSucceed io indexIo)
    {io' : RecoveryIo} {indexIo' : IndexIo} (hmap : io'.mapOk = true)
    (hread : indexIo'.readOk = true) (pathOk : Bool) (seq : UInt64)
    (indexes : UInt64 → Option Bytes) :
    let first := recoverSegment evp codec getters io indexIo pathOk seq content indexes
    first.content = some (content.take out.committedEnd) ∧
      recoverSegment evp codec getters io' indexIo' pathOk seq (content.take out.committedEnd)
          first.indexes =
        { content := first.content, indexes := first.indexes, changed := false } := by
  intro first
  have hfirst : first = _ := recoverSegment_of_ok hcalls hout pathOk seq indexes
  have hkept := scan_of_kept hsize hout
  have hne := length_ne_zero_of_metadataScan hkept
  have hcut : ¬ out.committedEnd < (content.take out.committedEnd).length := by
    rw [List.length_take]
    exact Nat.not_lt.mpr (Nat.min_le_left _ _)
  rw [hfirst]
  refine ⟨rfl, ?_⟩
  unfold recoverSegment
  by_cases hstat : io'.statOk = true
  · simp only [hstat, hmap, Bool.not_true, Bool.false_eq_true, if_false, hne, hkept,
      decide_eq_false hcut, Bool.false_and, Function.update_self,
      recoverIndex_twice hcalls.rebuild hread, Function.update_idem]
  · simp only [hstat, Bool.not_false, if_true]

/-- What the segment's side of a recovery does to a file, if no system call fails. -/
theorem recoverSegmentFile_content_ok (indexOk : Bool) :
    (recoverSegmentFile evp codec ⟨true, true, true, true⟩ indexOk content).content =
      match metadataScan evp codec content with
      | .error _ => none
      | .ok out => some (content.take out.committedEnd) := by
  unfold recoverSegmentFile
  by_cases hempty : content.length = 0
  · have hscan : metadataScan evp codec content = .error (-1, some .einval) := by
      unfold metadataScan segmentScanPath
      rw [if_pos hempty]
    simp only [hscan, if_pos hempty, Bool.not_true, Bool.false_eq_true, if_false]
    rfl
  · simp only [if_neg hempty, Bool.not_true, Bool.false_eq_true, if_false, Bool.and_true,
      decide_eq_true_eq]
    cases metadataScan evp codec content with
    | error e => rfl
    | ok out =>
      simp only
      by_cases hcut : out.committedEnd < content.length
      · rw [if_pos hcut]
      · rw [if_neg hcut, List.take_of_length_le (Nat.not_lt.mp hcut)]

/-- The segments of a directory after a second recovery are those after the first, whatever the
directory held. -/
theorem recoverSegmentDir_twice {io io' : String → RecoveryIo} {entries : List DirEntry}
    (hsize : ∀ e ∈ entries, e.content.length < 2 ^ 32)
    (hcalls : ∀ name, io name = ⟨true, true, true, true⟩)
    (hmap : ∀ name, (io' name).mapOk = true) (indexOk indexOk' : String → Bool) :
    recoverSegmentDir evp codec io' indexOk' (recoverSegmentDir evp codec io indexOk entries) =
      recoverSegmentDir evp codec io indexOk entries := by
  unfold recoverSegmentDir
  rw [List.filterMap_filterMap]
  refine List.filterMap_congr fun e he => ?_
  by_cases hname : isSegmentName e.name = true
  · simp only [if_pos hname, hcalls, recoverSegmentFile_content_ok]
    cases hout : metadataScan evp codec e.content with
    | error err => rfl
    | ok out =>
      simp only [Option.map_some, Option.bind_some, if_pos hname]
      have hkept := scan_of_kept (hsize e he) hout
      have hio : (io' e.name).statOk = true → (io' e.name).mapOk = false →
          (io' e.name).unlinkOk = false := by
        intro _ hfail
        rw [hmap] at hfail
        cases hfail
      obtain hsame | ⟨-, hcut⟩ := recoverSegmentFile_of_ok (indexOk' e.name)
        (length_ne_zero_of_metadataScan hkept) hio hkept
      · rw [hsame, Option.map_some]
      · rw [List.length_take] at hcut
        exact absurd hcut (Nat.not_lt.mpr (Nat.min_le_left _ _))
  · simp only [if_neg hname, Option.bind_some]

end Recovery

/-- **Recovery is idempotent on what it accepts**: the bytes up to the committed end give the
scan the same result, and a second recovery of the file changes nothing.
SOURCE: segment.c:543-738, recorder.c:2205-2282 -/
theorem recovery_is_idempotent (evp : EvpOps) (codec : CodecOps) (getters : ChunkGetters)
    (decryptor : Bool) (minFrameOffset : ℕ) {buf : Bytes} {out : ScanOut}
    (hsize : buf.length < 2 ^ 32)
    (hout : (segmentScanImpl (σ := Unit) evp codec buf decryptor none () minFrameOffset).out =
      .ok out) :
    (segmentScanImpl (σ := Unit) evp codec (buf.take out.committedEnd) decryptor none ()
        minFrameOffset).out = .ok out ∧
      ∀ (io io' : RecoveryIo) (indexIo indexIo' : IndexIo) (pathOk : Bool) (seq : UInt64)
        (indexes : UInt64 → Option Bytes), CallsSucceed io indexIo → io'.mapOk = true →
        indexIo'.readOk = true →
        let first := recoverSegment evp codec getters io indexIo pathOk seq buf indexes
        first.content = some (buf.take out.committedEnd) ∧
          recoverSegment evp codec getters io' indexIo' pathOk seq (buf.take out.committedEnd)
              first.indexes =
            { content := first.content, indexes := first.indexes, changed := false } := by
  rw [segmentScanImpl_metadata] at hout
  refine ⟨(segmentScanImpl_metadata _ _).mpr (scan_of_kept hsize hout), ?_⟩
  intro io io' indexIo indexIo' pathOk seq indexes hcalls hmap hread
  exact recoverSegment_twice hsize hout hcalls hmap hread pathOk seq indexes

/-- A segment with a whole frame and a torn one. -/
def tornSecondFrame : Bytes :=
  oneFrameFile ++ (frameImage (frameHeader 0 3 3 23) [4, 5, 6] []).take 20

/-- A closed segment with a frame, and three bytes behind its footer. -/
def closedTorn : Bytes := oneFrameFile ++ (footerImage { entryCount := 1 } ++ [1, 2, 3])

/-- A recovery of the file of segment 1, in which every call succeeds. -/
def recovered (file : Bytes) (indexes : UInt64 → Option Bytes) : RecoveredSegment :=
  recoverSegment noEvp noCodec noGetters allOk ⟨true, true⟩ true 1 file indexes

/-- The torn frame is cut off, and so are the bytes behind the footer, where the index is built
too. -/
theorem recovery_is_idempotent_torn :
    ((recovered tornSecondFrame fun _ => none).content = some (tornSecondFrame.take 177) ∧
      (recovered tornSecondFrame fun _ => none).changed = true ∧
      recovered (tornSecondFrame.take 177) (recovered tornSecondFrame fun _ => none).indexes =
        { (recovered tornSecondFrame fun _ => none) with changed := false }) ∧
    (recovered closedTorn fun _ => none).content = some (closedTorn.take 225) ∧
      ((recovered closedTorn fun _ => none).indexes 1).isSome = true ∧
      recovered (closedTorn.take 225) (recovered closedTorn fun _ => none).indexes =
        { (recovered closedTorn fun _ => none) with changed := false } := by
  have hframe : (segmentScanImpl (σ := Unit) noEvp noCodec tornSecondFrame false none () 0).out =
      .ok ⟨{ plainHeader with dictLen := 2 }, {}, 177, [⟨0, 3, 3, 154, 23⟩]⟩ := by
    decide +kernel
  have hclosed : (segmentScanImpl (σ := Unit) noEvp noCodec closedTorn false none () 0).out =
      .ok ⟨{ plainHeader with dictLen := 2 }, { entryCount := 1, present := true }, 225,
        [⟨0, 3, 3, 154, 23⟩]⟩ := by
    decide +kernel
  constructor
  · obtain ⟨-, htwice⟩ := recovery_is_idempotent noEvp noCodec noGetters false 0
      (by decide +kernel) hframe
    obtain ⟨hcontent, hsame⟩ := htwice allOk allOk ⟨true, true⟩ ⟨true, true⟩ true 1
      (fun _ => none) ⟨rfl, rfl, rfl, rfl⟩ rfl rfl
    refine ⟨hcontent, ?_, hsame⟩
    decide +kernel
  · obtain ⟨-, htwice⟩ := recovery_is_idempotent noEvp noCodec noGetters false 0
      (by decide +kernel) hclosed
    obtain ⟨hcontent, hsame⟩ := htwice allOk allOk ⟨true, true⟩ ⟨true, true⟩ true 1
      (fun _ => none) ⟨rfl, rfl, rfl, rfl⟩ rfl rfl
    refine ⟨hcontent, ?_, hsame⟩
    decide +kernel

end Recorder.Analysis
