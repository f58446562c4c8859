import Recorder.Model.Reader
import Recorder.Analysis.FollowFailure

/-!
# A reader in follow mode

`rec_player_seek_tail` puts a reader into follow mode: it has marks, and a position in a list
of followed entries to which every follow scan appends. The other calls either leave this part
of the reader alone (`followPart`) or end the mode. `Following` are the readers that any calls
lead to from there, while the recorder goes on writing.

Their followed entries are in front of the marks and the marks do not point behind the ends of
their segments (`FollowHolds`); both are kept by every call, a failing one included.
-/

set_option autoImplicit false

namespace Recorder.Analysis

open Recorder.Model Recorder.Lib

/-! ## The part of a reader that follows -/

/-- The marks, the followed entries and the position among them, with the group filter. -/
def followPart (r : Reader) : FollowState × List StoredEntry × Option ℕ × List Bytes :=
  (r.follow, r.entries, r.current, r.groupFilter)

section Calls

variable (store : Store) (r : Reader)

/-- Collecting the sources leaves the part that follows alone. -/
theorem iteratorInitialize_followPart (dir : Direction) :
    followPart (iteratorInitialize store dir r).2 = followPart r := by
  simp only [iteratorInitialize]
  split <;> rfl

/-- So does a seek to a time. -/
theorem iteratorSeekRealtime_followPart (usec : UInt64) :
    followPart (iteratorSeekRealtime store usec r).2 = followPart r := by
  have hinit := iteratorInitialize_followPart store r .forward
  unfold iteratorSeekRealtime
  cases h : iteratorInitialize store .forward r with
  | mk rc r1 =>
    rw [h] at hinit
    simp only
    split
    · exact hinit
    · split <;> exact hinit

/-- So does a source that is put at a cursor. -/
theorem iteratorPositionAtCursor_followPart (i : ℕ) :
    followPart (iteratorPositionAtCursor r i).2 = followPart r := by
  unfold iteratorPositionAtCursor
  split
  · rfl
  · split
    · rfl
    · split <;> rfl

/-- So do all sources that are put beside a cursor. -/
theorem iteratorMaterializeCursorSources_followPart :
    followPart (iteratorMaterializeCursorSources store r).2 = followPart r := by
  unfold iteratorMaterializeCursorSources
  split
  · rfl
  · simp only
    split
    · rfl
    · split
      · rfl
      · split
        · rfl
        · split
          · split
            · rfl
            · split <;> rfl
          · split
            · rfl
            · split <;> exact iteratorPositionAtCursor_followPart _ _

/-- So does a turn at the current entry. -/
theorem iteratorRepositionAfterCurrent_followPart (dir : Direction) :
    followPart (iteratorRepositionAfterCurrent store dir r).2 = followPart r := by
  unfold iteratorRepositionAfterCurrent
  split
  · rfl
  · rename_i key _
    cases horder : r.order with
    | recorded =>
      simp only
      split
      · rfl
      · split <;> rfl
    | wallclock =>
      have hseek := iteratorSeekRealtime_followPart store r key.data.realtimeTs
      cases h : iteratorSeekRealtime store key.data.realtimeTs r with
      | mk rc r1 =>
        rw [h] at hseek
        simp only
        split
        · exact hseek
        · split <;> exact hseek

/-- So does the source of the current entry when it moves on. -/
theorem advanceCurrentSource_followPart (dir : Direction) :
    followPart (advanceCurrentSource dir r).2 = followPart r := by
  unfold advanceCurrentSource
  split <;> rfl

/-- A seek to the head ends follow mode. -/
theorem recPlayerSeekHead_ends : (recPlayerSeekHead store r).2.follow.initialized = false := by
  have hinit := congrArg Prod.fst (iteratorInitialize_followPart store (clearEntries r) .forward)
  unfold recPlayerSeekHead
  cases h : iteratorInitialize store .forward (clearEntries r) with
  | mk rc r1 =>
    rw [h] at hinit
    simp only
    split <;> exact congrArg FollowState.initialized hinit

/-- A call that leaves the follow part alone, or ends follow mode. -/
def LeavesFollow (r r' : Reader) : Prop :=
  followPart r' = followPart r ∨ r'.follow.initialized = false

/-- A seek to the cursor of a group that is left out keeps the marks. -/
theorem seekExcludedCursor_follow (key : StoredEntry) :
    (seekExcludedCursor store key r).2.follow = r.follow := by
  have hseek := congrArg Prod.fst
    (iteratorSeekRealtime_followPart store r key.data.realtimeTs)
  unfold seekExcludedCursor
  split
  · simp only
    split <;> rfl
  · cases h : iteratorSeekRealtime store key.data.realtimeTs r with
    | mk rc r1 =>
      rw [h] at hseek
      simp only
      split
      · exact hseek
      · split <;> exact hseek

/-- **A seek to a cursor** leaves the part alone, or ends the following. -/
theorem recPlayerSeekCursor_leaves (c : Cursor) :
    LeavesFollow r (recPlayerSeekCursor store c r).2 := by
  have honce : (recPlayerSeekCursorOnce store c r).2.follow.initialized = false := by
    simp only [recPlayerSeekCursorOnce]
    split
    · rfl
    · split
      · rfl
      · split
        · split
          · rfl
          · rw [seekExcludedCursor_follow]
        · rfl
  unfold recPlayerSeekCursor
  split
  · exact .inl rfl
  · split
    · exact .inl rfl
    · cases h : recPlayerSeekCursorOnce store c r with
      | mk rc r1 =>
        rw [h] at honce
        simp only
        split <;> exact .inr honce

/-- The positioning part of `rec_player_next`. -/
theorem nextPosition_leaves : LeavesFollow r (nextPosition store r).2 := by
  unfold nextPosition
  split
  · exact .inl rfl
  · split
    · have hmat := iteratorMaterializeCursorSources_followPart store r
      cases h : iteratorMaterializeCursorSources store r with
      | mk rc r1 =>
        rw [h] at hmat
        simp only
        split
        · exact .inl hmat
        · have hrep := iteratorRepositionAfterCurrent_followPart store r1 .forward
          cases h' : iteratorRepositionAfterCurrent store .forward r1 with
          | mk rc' r2 =>
            rw [h'] at hrep
            simp only
            split <;> exact .inl (hrep.trans hmat)
    · split
      · have hmat := iteratorMaterializeCursorSources_followPart store r
        cases h : iteratorMaterializeCursorSources store r with
        | mk rc r1 =>
          rw [h] at hmat
          simp only
          split
          · exact .inl hmat
          · split
            · exact .inl ((advanceCurrentSource_followPart r1 .forward).trans hmat)
            · exact .inl hmat
      · split
        · exact .inl (iteratorRepositionAfterCurrent_followPart store r .forward)
        · split
          · have hhead := recPlayerSeekHead_ends store r
            cases h : recPlayerSeekHead store r with
            | mk rc r1 =>
              rw [h] at hhead
              simp only
              split <;> exact .inr hhead
          · split
            · exact .inl (advanceCurrentSource_followPart r .forward)
            · exact .inl rfl

/-- A step back from a cursor leaves the part alone. -/
theorem previousFromCursor_followPart :
    followPart (previousFromCursor store r).2 = followPart r := by
  have hmat := iteratorMaterializeCursorSources_followPart store r
  unfold previousFromCursor
  split
  · rfl
  · cases h : iteratorMaterializeCursorSources store r with
    | mk rc r1 =>
      rw [h] at hmat
      simp only
      split
      · exact hmat
      · split <;> exact hmat

/-- `rec_player_seek_tail` enters follow mode, or ends it when it fails. -/
theorem recPlayerSeekTail_ends (h : (recPlayerSeekTail store r).1 ≠ 0) :
    (recPlayerSeekTail store r).2.follow.initialized = false := by
  simp only [recPlayerSeekTail] at h ⊢
  split
  · rfl
  · rename_i hrc
    rw [if_neg hrc] at h
    exact absurd rfl h

/-- The follow part behind a seek to the tail. -/
theorem recPlayerSeekTail_followPart {r' : Reader} (h : recPlayerSeekTail store r = (0, r')) :
    followPart r' = (initializeTailFollow store r.groupFilter {}, [], some 0, r.groupFilter) := by
  have hinit := iteratorInitialize_followPart store { clearEntries r with
    follow := initializeTailFollow store (clearEntries r).groupFilter (clearEntries r).follow }
    .reverse
  simp only [recPlayerSeekTail] at h
  split at h
  · cases h
  · rw [Prod.mk.injEq] at h
    rw [← h.2]
    exact congrArg (fun t => (t.1, t.2.1, some 0, t.2.2.2)) hinit

/-- `rec_player_previous` leaves the follow part alone, ends follow mode, or enters it anew. -/
theorem recPlayerPrevious_follow :
    LeavesFollow r (recPlayerPrevious store r).2 ∨ ∃ r0, recPlayerSeekTail store r = (0, r0) ∧
      followPart (recPlayerPrevious store r).2 = followPart r0 := by
  have hposition : LeavesFollow r (previousPosition store r).2 ∨
      ∃ r0, recPlayerSeekTail store r = (0, r0) ∧
        followPart (previousPosition store r).2 = followPart r0 := by
    unfold previousPosition
    split
    · exact .inl (.inl (previousFromCursor_followPart store r))
    · split
      · have hmat := iteratorMaterializeCursorSources_followPart store r
        cases h : iteratorMaterializeCursorSources store r with
        | mk rc r1 =>
          rw [h] at hmat
          simp only
          split
          · exact .inl (.inl hmat)
          · have hrep := iteratorRepositionAfterCurrent_followPart store r1 .reverse
            cases h' : iteratorRepositionAfterCurrent store .reverse r1 with
            | mk rc' r2 =>
              rw [h'] at hrep
              simp only
              split <;> exact .inl (.inl (hrep.trans hmat))
      · split
        · exact .inl (.inl (iteratorRepositionAfterCurrent_followPart store r .reverse))
        · split
          · simp only
            by_cases hfresh : (!r.currentValid || r.sources.isEmpty) = true
            · rw [if_pos hfresh]
              cases h : recPlayerSeekTail store r with
              | mk rc r0 =>
                simp only
                by_cases hrc : rc = 0
                · subst hrc
                  exact .inr ⟨r0, rfl, rfl⟩
                · have hends := recPlayerSeekTail_ends store r (by rw [h]; exact hrc)
                  rw [h] at hends
                  rw [if_pos hrc]
                  exact .inl (.inr hends)
            · rw [if_neg hfresh]
              exact .inl (.inl rfl)
          · split
            · exact .inl (.inl (advanceCurrentSource_followPart r .reverse))
            · exact .inl (.inl rfl)
  have hrest : followPart (recPlayerPrevious store r).2 =
      followPart (previousPosition store r).2 := by
    unfold recPlayerPrevious
    cases previousPosition store r with
    | mk rc r1 =>
      simp only
      split
      · rfl
      · split <;> rfl
  rcases hposition with (hsame | hends) | ⟨r0, hseek, hpart⟩
  · exact .inl (.inl (hrest.trans hsame))
  · refine .inl (.inr ?_)
    rw [show (recPlayerPrevious store r).2.follow = (previousPosition store r).2.follow from
      congrArg Prod.fst hrest]
    exact hends
  · exact .inr ⟨r0, hseek, hrest.trans hpart⟩

/-- Whether `rec_player_next` turns to the followed entries at once.
SOURCE: librecorder.c:2779-2783 -/
def followsDirectly (r : Reader) : Bool :=
  r.follow.initialized && r.current.any fun i =>
    decide (i < r.entries.length) || !r.currentValid || r.currentSource.isNone

/-- The reader with which `rec_player_next` comes to `iterator_next_follow_entry`, when it
does. -/
def followRead (store : Store) (r : Reader) : Option Reader :=
  if followsDirectly r then some r
  else
    match nextPosition store r with
    | (rc, r) =>
      if rc ≠ 0 then none
      else
        match iteratorPick r .forward with
        | none =>
          let r := { r with currentEntry := none, currentValid := false }
          if r.follow.initialized then some r else none
        | some _ => none

/-- `rec_player_next` is its follow read, or a call in which nothing can fail to be read.
SOURCE: librecorder.c:2775-2824 -/
theorem recPlayerNext_eq :
    (∃ r₁, followRead store r = some r₁ ∧
        ∀ fault, recPlayerNext store fault r = iteratorNextFollowEntry store fault r₁) ∨
      ∃ result, (∀ fault, recPlayerNext store fault r = result) ∧ followRead store r = none ∧
        LeavesFollow r result.2 := by
  unfold followRead recPlayerNext
  by_cases hdirect : followsDirectly r = true
  · exact .inl ⟨r, if_pos hdirect, fun _ => if_pos hdirect⟩
  · have hleaves := nextPosition_leaves store r
    rw [if_neg hdirect]
    cases h : nextPosition store r with
    | mk rc r1 =>
      rw [h] at hleaves
      simp only
      by_cases hrc : rc = 0
      · cases hpick : iteratorPick r1 .forward with
        | none =>
          by_cases hinit : r1.follow.initialized = true
          · refine .inl ⟨{ r1 with currentEntry := none, currentValid := false }, ?_, ?_⟩
            · simp [hrc, hinit]
            · intro fault
              refine (if_neg hdirect).trans ?_
              simp [hrc, hinit]
          · refine .inr ⟨(0, { r1 with currentEntry := none, currentValid := false }), ?_, ?_, ?_⟩
            · intro fault
              refine (if_neg hdirect).trans ?_
              simp [hrc, hinit]
            · simp [hinit]
            · exact hleaves
        | some picked =>
          refine .inr ⟨(1, setCurrent r1 .forward picked.1 picked.2), ?_, ?_, hleaves⟩
          · intro fault
            refine (if_neg hdirect).trans ?_
            simp [hrc]
          · simp [hrc]
      · refine .inr ⟨(-1, r1), ?_, ?_, hleaves⟩
        · intro fault
          refine (if_neg hdirect).trans ?_
          simp [hrc]
        · simp [hrc]

/-- The reader of a follow read has the follow part it had before the call, and comes back to
the followed entries at once if it is asked again. -/
theorem followRead_spec {r₁ : Reader} (h : followRead store r = some r₁) :
    followPart r₁ = followPart r ∧ r₁.follow.initialized = true ∧
      ∀ i, r₁.current = some i → followsDirectly r₁ = true := by
  unfold followRead at h
  split at h
  · rename_i hdirect
    rw [Option.some.injEq] at h
    subst h
    have hinit := hdirect
    rw [followsDirectly, Bool.and_eq_true] at hinit
    exact ⟨rfl, hinit.1, fun _ _ => hdirect⟩
  · have hleaves := nextPosition_leaves store r
    cases hpos : nextPosition store r with
    | mk rc r1 =>
      rw [hpos] at h hleaves
      simp only at h
      split at h
      · cases h
      · split at h
        · split at h
          · rename_i hinit
            rw [Option.some.injEq] at h
            subst h
            rcases hleaves with hsame | hends
            · refine ⟨hsame, hinit, ?_⟩
              intro i hi
              have hinit' : r1.follow.initialized = true := hinit
              have hi' : r1.current = some i := hi
              simp [followsDirectly, hinit', hi']
            · have hinit' : r1.follow.initialized = true := hinit
              rw [hinit'] at hends
              cases hends
          · cases h
        · cases h

end Calls

/-! ## Marks and entries -/

/-- No mark points behind the end of the segment it is in. -/
def MarksWithin (store : Store) (marks : List FollowSegment) : Prop :=
  ∀ group m, findFollowSegment marks group = some m →
    ∀ f ∈ store.files, f.group = group → f.nameSeq = m.segmentSeq →
      m.committedEnd ≤ f.file.committedEnd

/-- The path of a segment in a log directory. -/
structure StorePath (store : Store) (p : SegmentPath) : Prop where
  mem : p.file ∈ store.files
  seq : p.segmentSeq = p.file.nameSeq

section Marks

variable {store : Store} {marks : List FollowSegment} {p : SegmentPath}

/-- The header of a segment has the number in its name. -/
theorem StorePath.headerSeq (hwf : StoreWf store) (h : StorePath store p) : HeaderSeq p := by
  rw [HeaderSeq, hwf.headers _ h.mem, h.seq]

/-- The mark of a group after a segment of it was remembered: that segment, or a later one that
was there before. -/
theorem findFollowSegment_remember_cases {committedEnd : UInt64} {m : FollowSegment}
    (h : findFollowSegment (rememberFollowSegment marks p committedEnd) p.file.group = some m) :
    m = ⟨p.file.group, p.segmentSeq, committedEnd⟩ ∨
      findFollowSegment marks p.file.group = some m := by
  by_cases hle : ∀ m', findFollowSegment marks p.file.group = some m' →
      m'.segmentSeq ≤ p.segmentSeq
  · rw [findFollowSegment_remember_self _ hle, Option.some.injEq] at h
    exact .inl h.symm
  · right
    rw [← h]
    clear h
    unfold findFollowSegment at *
    induction marks with
    | nil => exact absurd (fun m' hm' => by cases hm') hle
    | cons item rest ih =>
      rw [rememberFollowSegment]
      by_cases hitem : item.group = p.file.group
      · have hlt : p.segmentSeq < item.segmentSeq := by
          by_contra hnot
          apply hle
          intro m' hm'
          simp only [hitem, List.find?_cons, beq_self_eq_true, Option.some.injEq] at hm'
          rw [← hm']
          exact UInt64.not_lt.mp hnot
        simp [hitem, hlt]
      · simp only [beq_iff_eq, hitem, if_false, List.find?_cons]
        rw [show (item.group == p.file.group) = false by simpa using hitem]
        apply ih
        simpa [hitem] using hle

/-- A remembered end lies in its segment. -/
theorem MarksWithin.remember (h : MarksWithin store marks) (hwf : StoreWf store)
    (hp : StorePath store p) :
    MarksWithin store (rememberFollowSegment marks p p.file.file.committedEnd) := by
  intro group m hm f hf hgroup hseq
  by_cases hsame : p.file.group = group
  · subst hsame
    rcases findFollowSegment_remember_cases hm with rfl | hold
    · rw [file_eq_of_name hwf hf hp.mem hgroup (hseq.trans hp.seq)]
      exact UInt64.le_refl _
    · exact h _ m hold f hf hgroup hseq
  · rw [findFollowSegment_remember_ne hsame] at hm
    exact h group m hm f hf hgroup hseq

/-- So does the mark behind one scanned segment. -/
theorem MarksWithin.markAfter (h : MarksWithin store marks) (hwf : StoreWf store)
    (hp : StorePath store p) : MarksWithin store (markAfter marks p) := by
  unfold Analysis.markAfter
  split
  · exact h.remember hwf hp
  · exact h

/-- So do the marks behind all of them. -/
theorem MarksWithin.marksAfter (hwf : StoreWf store) (ps : List SegmentPath) :
    ∀ {marks : List FollowSegment}, MarksWithin store marks → (∀ p ∈ ps, StorePath store p) →
      MarksWithin store (marksAfter marks ps) := by
  induction ps with
  | nil => exact fun h _ => h
  | cons p ps ih =>
    intro marks h hps
    exact ih (h.markAfter hwf (hps p (by simp))) fun q hq => hps q (by simp [hq])

/-- A mark only moves forward. -/
theorem afterMark_of_markAfter (h : MarksWithin store marks) (hp : StorePath store p)
    {e : StoredEntry} (he : afterMark (markAfter marks p) e = true) : afterMark marks e = true := by
  by_cases hsome : (followStart marks p).isSome = true
  · by_cases hsame : p.file.group = e.group
    · have hself := findFollowSegment_markAfter hsome
      rw [hsame] at hself
      unfold afterMark at he ⊢
      rw [hself] at he
      cases hfind : findFollowSegment marks e.group with
      | none => rfl
      | some m =>
        have hle := le_of_followStart hsome m (hsame ▸ hfind)
        simp only [Bool.or_eq_true, Bool.and_eq_true, decide_eq_true_eq] at he ⊢
        rcases he with hlt | ⟨heq, hoff⟩
        · exact .inl (UInt64.lt_of_le_of_lt hle hlt)
        · by_cases hm : m.segmentSeq = p.segmentSeq
          · refine .inr ⟨hm.trans heq, UInt64.le_trans ?_ hoff⟩
            exact h _ m hfind p.file hp.mem hsame (hp.seq.symm.trans hm.symm)
          · left
            rw [← heq]
            exact UInt64.lt_of_le_of_ne hle hm
    · rw [afterMark_congr (findFollowSegment_markAfter_ne hsame)] at he
      exact he
  · rw [markAfter, if_neg hsome] at he
    exact he

/-- What lies behind the new marks lay behind the old ones. -/
theorem afterMark_of_marksAfter (hwf : StoreWf store) (ps : List SegmentPath) :
    ∀ {marks : List FollowSegment}, MarksWithin store marks → (∀ p ∈ ps, StorePath store p) →
      ∀ {e : StoredEntry}, afterMark (marksAfter marks ps) e = true →
        afterMark marks e = true := by
  induction ps with
  | nil => exact fun _ _ _ he => he
  | cons p ps ih =>
    intro marks h hps e he
    have hp := hps p (by simp)
    exact afterMark_of_markAfter h hp
      (ih (h.markAfter hwf hp) (fun q hq => hps q (by simp [hq])) he)

/-- What is committed behind a mark is what lies behind it. -/
theorem behindMark_eq (hseq : HeaderSeq p) :
    behindMark marks p = p.file.fileEntries.filter (afterMark marks) := by
  unfold behindMark
  cases h : followStart marks p with
  | none => exact (filter_afterMark_of_skipped hseq h).symm
  | some start => exact (entriesFrom_followStart hseq h).1

/-- An entry of a segment with its mark at the end is in front of the mark. -/
theorem afterMark_of_pastEnd (hseq : HeaderSeq p) (h : PastEnd marks p) {e : StoredEntry}
    (he : e ∈ p.file.fileEntries) : afterMark marks e = false := by
  have hnil := h.behindMark_eq_nil
  rw [behindMark_eq hseq, List.filter_eq_nil_iff] at hnil
  simpa using hnil e he

end Marks

/-! ## The scan of a reader in follow mode -/

/-- The segments a follow scan of an initialised reader goes through, in its order.
SOURCE: librecorder.c:1387-1395 -/
def followPaths (store : Store) (filter : List Bytes) (st : FollowState) : List SegmentPath :=
  sortPaths (if store.directory && st.topologyPending then collectSegmentPaths store filter
    else collectLatestSegmentPaths store filter)

section Scan

variable {store : Store} {filter : List Bytes} {st : FollowState}

/-- A scan reads segments of the directory only. -/
theorem storePath_of_mem_followPaths (hwf : StoreWf store) (hdir : store.directory = true)
    {p : SegmentPath} (hp : p ∈ followPaths store filter st) : StorePath store p := by
  unfold followPaths at hp
  split at hp
  · obtain ⟨hmem, -, hseq⟩ := (mem_sortPaths_all hdir).mp hp
    exact ⟨hmem, hseq⟩
  · obtain ⟨hnewest, -, hseq⟩ := (mem_collectLatest hwf hdir).mp ((sortPaths_perm _).mem_iff.mp hp)
    exact ⟨hnewest.mem, hseq⟩

/-- A reader of a single file scans that file. -/
theorem followPaths_single (hdir : store.directory = false) :
    followPaths store filter st = sortPaths (collectSegmentPaths store filter) := by
  simp [followPaths, collectLatestSegmentPaths, collectSegmentPaths, hdir]

/-- A reader of a single file has at most one segment. -/
theorem length_collect_single (filter : List Bytes) (hwf : StoreWf store)
    (hdir : store.directory = false) :
    (collectSegmentPaths store filter).length ≤ 1 := by
  simp only [collectSegmentPaths, hdir, addReaderFilePath, Bool.false_eq_true, if_false,
    List.length_map]
  exact (List.length_filter_le _ _).trans (hwf.single hdir)

/-- A scan reads segments of the selected groups only. -/
theorem mem_collect_of_mem_followPaths (hwf : StoreWf store) {p : SegmentPath}
    (hp : p ∈ followPaths store filter st) : p ∈ collectSegmentPaths store filter := by
  cases hdir : store.directory with
  | false =>
    rw [followPaths_single hdir] at hp
    exact (sortPaths_perm _).mem_iff.mp hp
  | true =>
    rw [← (sortPaths_perm _).mem_iff, mem_sortPaths_all hdir]
    unfold followPaths at hp
    split at hp
    · exact (mem_sortPaths_all hdir).mp hp
    · obtain ⟨hnewest, hallowed, hseq⟩ :=
        (mem_collectLatest hwf hdir).mp ((sortPaths_perm _).mem_iff.mp hp)
      exact ⟨hnewest.mem, hallowed, hseq⟩

/-- **The segments of a scan come in their order.** -/
theorem followPaths_inOrder (hwf : StoreWf store) : PathsInOrder (followPaths store filter st) := by
  cases hdir : store.directory with
  | false =>
    rw [followPaths_single hdir]
    apply pairwise_of_length_le_one
    rw [(sortPaths_perm _).length_eq]
    exact length_collect_single filter hwf hdir
  | true =>
    unfold followPaths
    split
    · exact sortPaths_all_inOrder hwf hdir
    · exact sortPaths_latest_inOrder hdir

/-- The paths of a store with one group and number are the same. -/
theorem collect_path_unique (hwf : StoreWf store) {p q : SegmentPath}
    (hp : p ∈ collectSegmentPaths store filter) (hq : q ∈ collectSegmentPaths store filter)
    (hgroup : q.file.group = p.file.group) (hseq : q.segmentSeq = p.segmentSeq) : q = p := by
  cases hdir : store.directory with
  | false =>
    have hlen := length_collect_single filter hwf hdir
    match hc : collectSegmentPaths store filter, hlen with
    | [], _ =>
      rw [hc] at hp
      cases hp
    | [a], _ =>
      rw [hc] at hp hq
      rw [List.mem_singleton.mp hp, List.mem_singleton.mp hq]
  | true =>
    have hp' := (mem_sortPaths_all hdir).mp ((sortPaths_perm _).mem_iff.mpr hp)
    have hq' := (mem_sortPaths_all hdir).mp ((sortPaths_perm _).mem_iff.mpr hq)
    have hfile := file_eq_of_name hwf hq'.1 hp'.1 hgroup (by rw [← hq'.2.2, ← hp'.2.2, hseq])
    obtain ⟨pf, ps⟩ := p
    obtain ⟨qf, qs⟩ := q
    simp only at hfile hseq
    rw [hfile, hseq]

/-- `rec_player_scan_follow` on an initialised reader, whatever number of entries it is asked
for.
SOURCE: librecorder.c:1376-1438 -/
theorem scanFollow_eq (fault : ScanFault) (n : ℕ) (hinit : st.initialized = true) :
    scanFollow store filter fault n st =
      match followLoop fault (followPaths store filter st) st.segments with
      | (false, entries, marks) => (-1, entries, { st with segments := marks })
      | (true, entries, marks) =>
        (0, entries, { st with segments := marks, topologyPending := false }) := by
  simp only [scanFollow, followPaths, hinit, Bool.and_true, Bool.not_true, Bool.false_and,
    Bool.false_eq_true, if_false]
  generalize followLoop fault _ st.segments = result
  obtain ⟨ok, entries, marks⟩ := result
  cases ok with
  | false => rfl
  | true => simp

/-- **A follow scan in which every segment can be read.** -/
theorem scanFollow_ok {fault : ScanFault} (n : ℕ) (hwf : StoreWf store)
    (hinit : st.initialized = true)
    (hread : ∀ p ∈ followPaths store filter st, scanFails fault st.segments p = false) :
    scanFollow store filter fault n st =
      (0, (followPaths store filter st).flatMap (behindMark st.segments),
        { st with
          segments := marksAfter st.segments (followPaths store filter st)
          topologyPending := false }) := by
  rw [scanFollow_eq fault n hinit, followLoop_ok _ _ (followPaths_inOrder hwf) hread]

/-- **A follow scan in which a segment cannot be read** fails and keeps the marks it moved. -/
theorem scanFollow_fails {fault : ScanFault} (n : ℕ) (hwf : StoreWf store)
    (hinit : st.initialized = true)
    (hfails : ∃ p ∈ followPaths store filter st, scanFails fault st.segments p = true) :
    ∃ entries, scanFollow store filter fault n st =
      (-1, entries, { st with
        segments := marksAfter st.segments
          (scannedBefore fault st.segments (followPaths store filter st)) }) := by
  obtain ⟨entries, hloop⟩ := followLoop_fails _ st.segments (followPaths_inOrder hwf) hfails
  exact ⟨entries, by rw [scanFollow_eq fault n hinit, hloop]⟩

end Scan

/-! ## The readers of follow mode -/

/-- The readers that calls lead to from a seek to the tail, with the store they read. The
recorder may write at any time: a segment of the store grows, goes away, or is new, and a new
one has a number larger than any mark of its group. -/
inductive Following : Store → Reader → Prop
  | seekTail (store : Store) (r r' : Reader) (hwf : StoreWf store)
      (h : recPlayerSeekTail store r = (0, r')) : Following store r'
  | next (store : Store) (r : Reader) (fault : ScanFault) (h : Following store r) :
      Following store (recPlayerNext store fault r).2
  | previous (store : Store) (r : Reader) (h : Following store r) :
      Following store (recPlayerPrevious store r).2
  | seekCursor (store : Store) (r : Reader) (c : Cursor) (h : Following store r) :
      Following store (recPlayerSeekCursor store c r).2
  | setOrder (store : Store) (r : Reader) (order : Order) (h : Following store r)
      (hne : order ≠ r.order) : Following store { r with order := order, orderChanged := true }
  | scan (store : Store) (r : Reader) (fault : ScanFault) (n : ℕ) (h : Following store r)
      (hinit : r.follow.initialized = true) :
      Following store { r with follow := (scanFollow store r.groupFilter fault n r.follow).2.2 }
  | process (store : Store) (r : Reader) (watching : Bool) (events : List FollowEvent)
      (h : Following store r) :
      Following store { r with follow := (recPlayerProcess watching events r.follow).2 }
  | written (store store' : Store) (r : Reader) (h : Following store r) (hwf : StoreWf store')
      (hdir : store'.directory = store.directory)
      (hfiles : ∀ f' ∈ store'.files, (∃ f ∈ store.files, Grown f f') ∨
        ∀ m, findFollowSegment r.follow.segments f'.group = some m → m.segmentSeq < f'.nameSeq) :
      Following store' r

/-- **What holds of every reader in follow mode**: it has a position among its followed
entries, these are in front of the marks, and the marks are within their segments. -/
structure FollowHolds (store : Store) (r : Reader) : Prop where
  wf : StoreWf store
  position : r.follow.initialized = true → ∃ i, r.current = some i ∧ i ≤ r.entries.length
  past : r.follow.initialized = true → store.directory = true →
    ∀ e ∈ r.entries, afterMark r.follow.segments e = false
  within : r.follow.initialized = true → store.directory = true →
    MarksWithin store r.follow.segments

section Holds

variable {store : Store} {r r' : Reader}

/-- Nothing has to hold of a reader that does not follow. -/
theorem FollowHolds.ends (h : FollowHolds store r) (hends : r'.follow.initialized = false) :
    FollowHolds store r' := by
  have hnot : r'.follow.initialized ≠ true := by simp [hends]
  exact ⟨h.wf, fun hi => absurd hi hnot, fun hi => absurd hi hnot, fun hi => absurd hi hnot⟩

/-- A call that leaves the part that follows alone keeps what holds. -/
theorem FollowHolds.same (h : FollowHolds store r) (hsame : followPart r' = followPart r) :
    FollowHolds store r' := by
  have hfollow : r'.follow = r.follow := congrArg Prod.fst hsame
  have hentries : r'.entries = r.entries := congrArg (fun t => t.2.1) hsame
  have hcurrent : r'.current = r.current := congrArg (fun t => t.2.2.1) hsame
  refine ⟨h.wf, ?_, ?_, ?_⟩
  · rw [hfollow, hcurrent, hentries]
    exact h.position
  · rw [hfollow, hentries]
    exact h.past
  · rw [hfollow]
    exact h.within

/-- So does a call that may end the following. -/
theorem FollowHolds.leaves (h : FollowHolds store r) (hleaves : LeavesFollow r r') :
    FollowHolds store r' := by
  rcases hleaves with hsame | hends
  · exact h.same hsame
  · exact h.ends hends

/-- A seek to the tail: no followed entries, and marks at the ends of the newest segments. -/
theorem followHolds_seekTail (hwf : StoreWf store) (h : recPlayerSeekTail store r = (0, r')) :
    FollowHolds store r' := by
  have hpart := recPlayerSeekTail_followPart store r h
  have hfollow : r'.follow = initializeTailFollow store r.groupFilter {} := congrArg Prod.fst hpart
  have hentries : r'.entries = [] := congrArg (fun t => t.2.1) hpart
  have hcurrent : r'.current = some 0 := congrArg (fun t => t.2.2.1) hpart
  refine ⟨hwf, fun _ => ⟨0, hcurrent, Nat.zero_le _⟩, ?_, ?_⟩
  · intro _ _ e he
    rw [hentries] at he
    cases he
  · intro _ hdir
    have hfold : ∀ (paths : List SegmentPath) (marks : List FollowSegment),
        (∀ p ∈ paths, StorePath store p) → MarksWithin store marks →
        MarksWithin store (paths.foldl (fun marks path =>
          rememberFollowSegment marks path path.file.file.committedEnd) marks) := by
      intro paths
      induction paths with
      | nil => exact fun _ _ h => h
      | cons p rest ih =>
        intro marks hpaths hwithin
        exact ih _ (fun q hq => hpaths q (by simp [hq]))
          (hwithin.remember hwf (hpaths p (by simp)))
    rw [hfollow]
    apply hfold
    · intro p hp
      obtain ⟨hnewest, -, hseq⟩ :=
        (mem_collectLatest hwf hdir).mp ((sortPaths_perm _).mem_iff.mp hp)
      exact ⟨hnewest.mem, hseq⟩
    · intro group m hm
      cases hm

/-- The marks of a reader move over segments of its store. -/
theorem FollowHolds.moveMarks (h : FollowHolds store r) (hinit : r.follow.initialized = true)
    (hdir : store.directory = true) (ps : List SegmentPath)
    (hps : ∀ p ∈ ps, StorePath store p) :
    MarksWithin store (marksAfter r.follow.segments ps) ∧
      ∀ e ∈ r.entries, afterMark (marksAfter r.follow.segments ps) e = false := by
  have hwithin := h.within hinit hdir
  refine ⟨hwithin.marksAfter h.wf ps hps, ?_⟩
  intro e he
  by_contra hafter
  have hbefore := afterMark_of_marksAfter h.wf ps hwithin hps (Bool.not_eq_false _ ▸ hafter)
  rw [h.past hinit hdir e he] at hbefore
  cases hbefore

end Holds

/-! ## One follow read -/

/-- Whether `iterator_next_follow_entry` scans before it returns an entry. -/
def needsScan (r : Reader) : Bool := r.follow.pending || r.current.all (r.entries.length ≤ ·)

/-- What the next follow scan of a reader appends, when every segment can be read. -/
def scanned (store : Store) (r : Reader) : List StoredEntry :=
  (followPaths store r.groupFilter r.follow).flatMap (behindMark r.follow.segments)

/-- The reader behind a scan that succeeded. -/
def afterScan (store : Store) (r : Reader) : Reader :=
  { r with
    follow := { r.follow with
      segments := marksAfter r.follow.segments (followPaths store r.groupFilter r.follow)
      pending := false
      topologyPending := false }
    entries := r.entries ++ (scanned store r).insertionSort fun a b =>
      (compareIteratorEntries r.order a b).isLE }

/-- The reader behind a scan that failed: the marks were moved over the segments in front of
the one that could not be read. -/
def afterFailure (store : Store) (fault : ScanFault) (r : Reader) : Reader :=
  { r with
    follow := { r.follow with
      segments := marksAfter r.follow.segments (scannedBefore fault r.follow.segments
        (followPaths store r.groupFilter r.follow)) } }

/-- The end of `iterator_next_follow_entry`: the entry at the position, if there is one. -/
def takeEntry (r : Reader) : Int × Reader :=
  match r.current.bind fun i => r.entries[i]?.map (i, ·) with
  | none => (0, r)
  | some (i, e) =>
    (1, { r with
      current := some (i + 1)
      currentEntry := some e
      currentValid := true
      currentSource := none
      lastDirection := some .forward })

section Read

variable {store : Store} {fault : ScanFault} {r : Reader}

/-- Whether the next scan of a reader comes to a segment that cannot be read. -/
def ScanFailure (store : Store) (fault : ScanFault) (r : Reader) : Prop :=
  ∃ p ∈ followPaths store r.groupFilter r.follow, scanFails fault r.follow.segments p = true

/-- Without a failure every segment of the scan is read. -/
theorem not_scanFailure (h : ¬ ScanFailure store fault r) :
    ∀ p ∈ followPaths store r.groupFilter r.follow,
      scanFails fault r.follow.segments p = false := by
  intro p hp
  by_contra hnot
  exact h ⟨p, hp, by simpa using hnot⟩

/-- There is no failure where every segment can be read. -/
theorem no_scanFailure : ¬ ScanFailure store (fun _ => none) r := by
  rintro ⟨p, -, hp⟩
  simp [scanFails] at hp

/-- Without a scan the next followed entry is taken. -/
theorem iteratorNextFollowEntry_of_no_scan (h : needsScan r = false) :
    iteratorNextFollowEntry store fault r = takeEntry r := by
  unfold needsScan at h
  simp only [iteratorNextFollowEntry, h, Bool.false_eq_true, if_false, takeEntry]
  rfl

/-- **A scan that succeeds** appends what lies behind the marks and moves them. -/
theorem iteratorNextFollowEntry_of_scan (hwf : StoreWf store)
    (hinit : r.follow.initialized = true) (h : needsScan r = true)
    (hread : ¬ ScanFailure store fault r) :
    iteratorNextFollowEntry store fault r = takeEntry (afterScan store r) := by
  unfold needsScan at h
  have happend : appendPendingEntries store fault r = (0, { r with
      follow := { r.follow with
        segments := marksAfter r.follow.segments (followPaths store r.groupFilter r.follow)
        topologyPending := false }
      entries := (afterScan store r).entries }) := by
    rw [appendPendingEntries, scanFollow_ok 0 hwf hinit (not_scanFailure hread)]
    rfl
  simp only [iteratorNextFollowEntry, h, if_true, happend, takeEntry]
  rfl

/-- **A scan that fails** keeps the marks of the segments in front of the failure. -/
theorem iteratorNextFollowEntry_of_failure (hwf : StoreWf store)
    (hinit : r.follow.initialized = true) (h : needsScan r = true)
    (hfails : ScanFailure store fault r) :
    iteratorNextFollowEntry store fault r = (-1, afterFailure store fault r) := by
  unfold needsScan at h
  have happend : appendPendingEntries store fault r = (-1, afterFailure store fault r) := by
    obtain ⟨entries, hscan⟩ := scanFollow_fails 0 hwf hinit hfails
    rw [appendPendingEntries, hscan]
    rfl
  simp only [iteratorNextFollowEntry, h, if_true, happend]
  rfl

/-- The entries of a scan lie in front of the marks it leaves. -/
theorem FollowHolds.afterScan (h : FollowHolds store r) (hinit : r.follow.initialized = true) :
    FollowHolds store (afterScan store r) := by
  refine ⟨h.wf, ?_, ?_, ?_⟩
  · intro _
    obtain ⟨i, hi, hle⟩ := h.position hinit
    refine ⟨i, hi, hle.trans ?_⟩
    simp [Analysis.afterScan]
  · intro _ hdir e he
    have hpaths : ∀ p ∈ followPaths store r.groupFilter r.follow, StorePath store p :=
      fun p hp => storePath_of_mem_followPaths h.wf hdir hp
    rcases List.mem_append.mp he with hold | hnew
    · exact (h.moveMarks hinit hdir _ hpaths).2 e hold
    · rw [List.mem_insertionSort, scanned, List.mem_flatMap] at hnew
      obtain ⟨p, hp, hep⟩ := hnew
      have hseq := (hpaths p hp).headerSeq h.wf
      rw [behindMark_eq hseq] at hep
      refine afterMark_of_pastEnd hseq (pastEnd_marksAfter _ ?_ _ p hp) (List.mem_filter.mp hep).1
      intro a ha b hb hgroup hsame
      rw [collect_path_unique h.wf (mem_collect_of_mem_followPaths h.wf ha)
        (mem_collect_of_mem_followPaths h.wf hb) hgroup hsame]
  · intro _ hdir
    exact (h.moveMarks hinit hdir _ fun p hp => storePath_of_mem_followPaths h.wf hdir hp).1

/-- A scan that fails has moved marks, and appended nothing. -/
theorem FollowHolds.afterFailure (h : FollowHolds store r) (hinit : r.follow.initialized = true) :
    FollowHolds store (afterFailure store fault r) := by
  have hpaths : store.directory = true → ∀ p ∈ scannedBefore fault r.follow.segments
      (followPaths store r.groupFilter r.follow), StorePath store p := fun hdir p hp =>
    storePath_of_mem_followPaths h.wf hdir (List.takeWhile_subset _ hp)
  exact ⟨h.wf, fun _ => h.position hinit,
    fun _ hdir => (h.moveMarks hinit hdir _ (hpaths hdir)).2,
    fun _ hdir => (h.moveMarks hinit hdir _ (hpaths hdir)).1⟩

/-- An entry is taken from those that are there. -/
theorem FollowHolds.takeEntry (h : FollowHolds store r) : FollowHolds store (takeEntry r).2 := by
  unfold Analysis.takeEntry
  split
  · exact h
  · rename_i i e hentry
    obtain ⟨j, hj, hmap⟩ := Option.bind_eq_some_iff.mp hentry
    obtain ⟨e', he', heq⟩ := Option.map_eq_some_iff.mp hmap
    obtain ⟨rfl, rfl⟩ := Prod.mk.inj heq
    obtain ⟨hlt, -⟩ := List.getElem?_eq_some_iff.mp he'
    exact ⟨h.wf, fun _ => ⟨_, rfl, hlt⟩, h.past, h.within⟩

/-- What holds is kept when a reader that follows reads. -/
theorem FollowHolds.read (h : FollowHolds store r) (hinit : r.follow.initialized = true)
    (fault : ScanFault) : FollowHolds store (iteratorNextFollowEntry store fault r).2 := by
  by_cases hscan : needsScan r = true
  · by_cases hfails : ScanFailure store fault r
    · rw [iteratorNextFollowEntry_of_failure h.wf hinit hscan hfails]
      exact h.afterFailure hinit
    · rw [iteratorNextFollowEntry_of_scan h.wf hinit hscan hfails]
      exact (h.afterScan hinit).takeEntry
  · rw [iteratorNextFollowEntry_of_no_scan (by simpa using hscan)]
    exact h.takeEntry

/-- **It is kept by `rec_player_next`.** -/
theorem FollowHolds.next (h : FollowHolds store r) (fault : ScanFault) :
    FollowHolds store (recPlayerNext store fault r).2 := by
  rcases recPlayerNext_eq store r with ⟨r₁, hread, heq⟩ | ⟨result, heq, -, hleaves⟩
  · obtain ⟨hpart, hinit, -⟩ := followRead_spec store r hread
    rw [heq]
    exact (h.same hpart).read hinit fault
  · rw [heq]
    exact h.leaves hleaves

/-- **It is kept by `rec_player_previous`.** -/
theorem FollowHolds.previous (h : FollowHolds store r) :
    FollowHolds store (recPlayerPrevious store r).2 := by
  rcases recPlayerPrevious_follow store r with hleaves | ⟨r0, hseek, hpart⟩
  · exact h.leaves hleaves
  · exact (followHolds_seekTail h.wf hseek).same hpart

end Read

/-- **Every reader in follow mode** has the invariant, by induction on the calls. -/
theorem Following.holds {store : Store} {r : Reader} (h : Following store r) :
    FollowHolds store r := by
  induction h with
  | seekTail store r r' hwf h => exact followHolds_seekTail hwf h
  | next store r fault _ ih => exact ih.next fault
  | previous store r _ ih => exact ih.previous
  | seekCursor store r c _ ih => exact ih.leaves (recPlayerSeekCursor_leaves store r c)
  | setOrder store r order _ _ ih => exact ih.same rfl
  | scan store r fault n _ hinit ih =>
    obtain ⟨ps, hps, hmarks⟩ : ∃ ps, (∀ p ∈ ps, p ∈ followPaths store r.groupFilter r.follow) ∧
        (scanFollow store r.groupFilter fault n r.follow).2.2.segments =
          marksAfter r.follow.segments ps := by
      by_cases hfails : ScanFailure store fault r
      · obtain ⟨entries, hscan⟩ := scanFollow_fails n ih.wf hinit hfails
        exact ⟨scannedBefore fault r.follow.segments (followPaths store r.groupFilter r.follow),
          List.takeWhile_subset _, by rw [hscan]⟩
      · exact ⟨followPaths store r.groupFilter r.follow, fun _ hp => hp, by
          rw [scanFollow_ok n ih.wf hinit (not_scanFailure hfails)]⟩
    have hmove : store.directory = true → _ := fun hdir => ih.moveMarks hinit hdir ps fun p hp =>
      storePath_of_mem_followPaths ih.wf hdir (hps p hp)
    refine ⟨ih.wf, fun _ => ih.position hinit, ?_, ?_⟩
    · intro _ hdir
      rw [hmarks]
      exact (hmove hdir).2
    · intro _ hdir
      rw [hmarks]
      exact (hmove hdir).1
  | process store r watching events _ ih =>
    have hsame : ∀ st : FollowState,
        (recPlayerProcess watching events st).2.segments = st.segments ∧
          (recPlayerProcess watching events st).2.initialized = st.initialized := by
      intro st
      unfold recPlayerProcess
      split <;> exact ⟨rfl, rfl⟩
    obtain ⟨hsegments, hinit⟩ := hsame r.follow
    refine ⟨ih.wf, ?_, ?_, ?_⟩
    · rw [hinit]
      exact ih.position
    · rw [hinit, hsegments]
      exact ih.past
    · rw [hinit, hsegments]
      exact ih.within
  | written store store' r _ hwf hdir hfiles ih =>
    refine ⟨hwf, ih.position, ?_, ?_⟩
    · rw [hdir]
      exact ih.past
    · intro hinit hdir' group m hm f' hf' hgroup hseq
      rcases hfiles f' hf' with ⟨f, hf, hfgroup, hname, -, hle⟩ | hnew
      · refine UInt64.le_trans (ih.within hinit (hdir ▸ hdir') group m hm f hf ?_ ?_) hle
        · rw [← hfgroup, hgroup]
        · rw [← hname, hseq]
      · have hlt := hnew m (by rw [hgroup, hm])
        rw [hseq] at hlt
        exact absurd hlt (UInt64.lt_irrefl _)

end Recorder.Analysis
