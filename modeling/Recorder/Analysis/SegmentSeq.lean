import Recorder.Model.SegmentSeq
import Recorder.Model.Writer

/-!
# Sequence numbers over crashes and restarts

A segment file is made only behind a successful `persist_next_segment_seq`, so the state
file is always ahead of every number in use (`SeqInv`). A new process that gets to use the
state file therefore goes on above all of them, whatever was removed in between. One that
does not has the names only, and goes on above all numbers just where a file with the
largest one is still there.
-/

set_option autoImplicit false

namespace Recorder.Analysis

open Recorder.Model Recorder.Lib

/-! ## Names and texts are read back -/

theorem segmentSeqFromName_segmentName (seq : UInt64) :
    segmentSeqFromName (segmentName seq) = some seq := by
  have hread := strtoull_decimal_append seq.toNat_lt segSuffix (by simp [segSuffix, isDigit])
  unfold segmentSeqFromName segmentName
  rw [hread]
  simp

theorem strtoull_seqText (value : UInt64) : (strtoull (seqText value)).1 = some value.toNat := by
  unfold seqText
  rw [strtoull_decimal_append value.toNat_lt [10] (by simp [isDigit])]

theorem readPersistedNextSegmentSeq_seqText (value : UInt64) (freed : UInt8) :
    readPersistedNextSegmentSeq (some (seqText value)) freed =
      if freed ≠ 0 ∧ freed ≠ 10 then none else some value := by
  unfold readPersistedNextSegmentSeq
  simp [strtoull_seqText]

/-! ## The scan -/

/-- The numbers of the files `scan_existing_segment_seq_max` looks at. -/
def scannedSeqs (files : SegmentNames) : List UInt64 :=
  (files.filter fun f => isSegmentDirName f.1).filterMap fun f => segmentSeqFromName f.2

/-- One file of the scan. -/
def scanStep (found : Option UInt64) (f : Bytes × Bytes) : Option UInt64 :=
  match segmentSeqFromName f.2, found with
  | none, _ => found
  | some seq, none => some seq
  | some seq, some m => if seq > m then some seq else some m

/-- The scan holds one of the numbers it saw, and none of them is larger. -/
theorem scanStep_foldl (files : SegmentNames) (found : Option UInt64) :
    (∀ m ∈ files.foldl scanStep found,
      m ∈ found ∨ m ∈ files.filterMap fun f => segmentSeqFromName f.2) ∧
    (∀ n, n ∈ found ∨ n ∈ (files.filterMap fun f => segmentSeqFromName f.2) →
      ∃ m ∈ files.foldl scanStep found, n ≤ m) := by
  induction files generalizing found with
  | nil => exact ⟨fun m h => .inl h, fun n h => ⟨n, by simpa using h, UInt64.le_refl n⟩⟩
  | cons f files ih =>
    obtain ⟨hsome, hle⟩ := ih (scanStep found f)
    rw [List.foldl_cons]
    cases hf : segmentSeqFromName f.2 with
    | none =>
      have hstep : scanStep found f = found := by simp [scanStep, hf]
      rw [hstep] at hsome hle ⊢
      rw [List.filterMap_cons, hf]
      exact ⟨hsome, hle⟩
    | some seq =>
      rw [List.filterMap_cons, hf]
      -- the number of the file takes part from here on, as what was found so far does
      have hstep : ∃ m, scanStep found f = some m ∧ (m ∈ found ∨ m = seq) ∧ seq ≤ m ∧
          ∀ n ∈ found, n ≤ m := by
        cases found with
        | none => exact ⟨seq, by simp [scanStep, hf], .inr rfl, UInt64.le_refl seq, by simp⟩
        | some m =>
          by_cases hlt : seq > m
          · refine ⟨seq, by simp [scanStep, hf, hlt], .inr rfl, UInt64.le_refl seq, ?_⟩
            rintro n ⟨⟩
            exact UInt64.le_of_lt hlt
          · refine ⟨m, by simp [scanStep, hf, hlt], .inl rfl, UInt64.not_lt.mp hlt, ?_⟩
            rintro n ⟨⟩
            exact UInt64.le_refl _
      obtain ⟨m, hm, hfrom, hseq, hfound⟩ := hstep
      constructor
      · intro k hk
        rcases hsome k hk with h | h
        · rw [hm] at h
          cases h
          rcases hfrom with h | rfl
          · exact .inl h
          · exact .inr (List.mem_cons_self ..)
        · exact .inr (List.mem_cons_of_mem _ h)
      · intro n hn
        have hcase : n ≤ m ∨ n ∈ files.filterMap fun f => segmentSeqFromName f.2 := by
          rcases hn with h | h
          · exact .inl (hfound n h)
          · rcases List.mem_cons.mp h with rfl | h
            · exact .inl hseq
            · exact .inr h
        rcases hcase with h | h
        · obtain ⟨k, hk, hmk⟩ := hle m (.inl hm)
          exact ⟨k, hk, UInt64.le_trans h hmk⟩
        · exact hle n (.inr h)

theorem scanExistingSegmentSeqMax_eq (files : SegmentNames) :
    scanExistingSegmentSeqMax files =
      ((files.filter fun f => isSegmentDirName f.1).foldl scanStep none).getD 0 := rfl

/-- No scanned number is above the result. -/
theorem le_scanExistingSegmentSeqMax {files : SegmentNames} {n : UInt64}
    (h : n ∈ scannedSeqs files) : n ≤ scanExistingSegmentSeqMax files := by
  obtain ⟨m, hm, hle⟩ := (scanStep_foldl _ none).2 n (.inr h)
  rw [scanExistingSegmentSeqMax_eq, Option.mem_def.mp hm]
  exact hle

/-- The result is one of the scanned numbers, or nothing was scanned. -/
theorem scanExistingSegmentSeqMax_mem (files : SegmentNames) :
    scanExistingSegmentSeqMax files = 0 ∨
      scanExistingSegmentSeqMax files ∈ scannedSeqs files := by
  rw [scanExistingSegmentSeqMax_eq]
  cases h : (files.filter fun f => isSegmentDirName f.1).foldl scanStep none with
  | none => exact .inl rfl
  | some m =>
    rcases (scanStep_foldl _ none).1 m h with h | h
    · exact absurd h (by simp)
    · exact .inr h

/-! ## The invariant -/

/-- What holds of a process at its place: its next number and the one it is about to use are
above all numbers in use, and it makes a file only with the state file ahead of it. -/
def PlaceInv (s : SeqStore) (p : SeqProcess) : Prop :=
  match p.place with
  | .starting | .idle => ∀ c ∈ s.created, c < p.nextSegmentSeq
  | .persisting _ seq =>
    (∀ c ∈ s.created, c < seq) ∧ seq < p.nextSegmentSeq
  | .creating _ seq =>
    (∀ c ∈ s.created, c < seq) ∧ seq < p.nextSegmentSeq ∧
      s.stateFile = some (seqText p.nextSegmentSeq)

/-- **The invariant of a store and the process on it.** -/
structure SeqInv (s : SeqStore) : Prop where
  /-- Numbers increase in creation order. -/
  increasing : s.created.Pairwise (· < ·)
  /-- Every file was made with its number. -/
  named : ∀ f ∈ s.files, ∃ c ∈ s.created, f.2 = segmentName c
  /-- The state file is ahead of every number in use. -/
  ahead : ∀ c ∈ s.created, ∃ P, s.stateFile = some (seqText P) ∧ c < P
  /-- No number is skipped in the state file or in memory. -/
  stateBound : ∀ text, s.stateFile = some text →
    ∃ P, text = seqText P ∧ P.toNat ≤ s.allocated + 1
  nextBound : ∀ p, s.process = some p → p.nextSegmentSeq.toNat ≤ s.allocated + 1
  place : ∀ p, s.process = some p → PlaceInv s p

theorem seqInv_empty : SeqInv {} where
  increasing := List.Pairwise.nil
  named := by simp
  ahead := by simp
  stateBound := by simp
  nextBound := by simp
  place := by simp

/-- What a start needs to go on above all numbers in use: the character behind the number
reads as the end of the text, or a file at least as new as any that was ever made is left. -/
def StartSeesSeq (s : SeqStore) : SeqAction → Prop
  | .start freed =>
    freed = 0 ∨ freed = 10 ∨ ∀ c ∈ s.created, ∃ n ∈ scannedSeqs s.files, c ≤ n
  | _ => True

/-- Above every number in use, and no number skipped: the number a new process begins with. -/
theorem recorderInitNextSeq_spec {s : SeqStore} {freed : UInt8} (hinv : SeqInv s)
    (hsees : StartSeesSeq s (.start freed)) (hbound : s.allocated < 2 ^ 64 - 1) :
    (∀ c ∈ s.created, c < recorderInitNextSeq s.files s.stateFile freed) ∧
      (recorderInitNextSeq s.files s.stateFile freed).toNat ≤ s.allocated + 1 := by
  -- what was scanned is in use, so the number behind it does not wrap around
  have hscan : (scanExistingSegmentSeqMax s.files).toNat ≤ s.allocated := by
    rcases scanExistingSegmentSeqMax_mem s.files with h | h
    · rw [h]
      exact Nat.zero_le _
    · obtain ⟨f, hf, hseq⟩ := List.mem_filterMap.mp h
      obtain ⟨c, hc, hname⟩ := hinv.named f (List.mem_of_mem_filter hf)
      rw [hname, segmentSeqFromName_segmentName] at hseq
      obtain ⟨P, hP, hlt⟩ := hinv.ahead c hc
      obtain ⟨Q, hQ, hle⟩ := hinv.stateBound _ hP
      have hPQ : P = Q := by
        have := congrArg (fun t => (strtoull t).1) hQ
        simpa [strtoull_seqText, UInt64.toNat_inj] using this
      rw [← Option.some_inj.mp hseq]
      rw [UInt64.lt_iff_toNat_lt, hPQ] at hlt
      omega
  have hnext : (scanExistingSegmentSeqMax s.files + 1).toNat =
      (scanExistingSegmentSeqMax s.files).toNat + 1 := by
    rw [UInt64.toNat_add, UInt64.toNat_one]
    omega
  have hscanned : ∀ n ∈ scannedSeqs s.files, n < scanExistingSegmentSeqMax s.files + 1 := by
    intro n hn
    have hle := UInt64.le_iff_toNat_le.mp (le_scanExistingSegmentSeqMax hn)
    rw [UInt64.lt_iff_toNat_lt, hnext]
    omega
  unfold recorderInitNextSeq
  cases hfile : s.stateFile with
  | none =>
    -- without a state file no segment was ever made
    simp only [readPersistedNextSegmentSeq]
    refine ⟨fun c hc => ?_, by omega⟩
    obtain ⟨P, hP, -⟩ := hinv.ahead c hc
    rw [hfile] at hP
    cases hP
  | some text =>
    obtain ⟨P, rfl, hP⟩ := hinv.stateBound text hfile
    have hahead : ∀ c ∈ s.created, c < P := by
      intro c hc
      obtain ⟨Q, hQ, hlt⟩ := hinv.ahead c hc
      rw [hfile, Option.some_inj] at hQ
      have := congrArg (fun t => (strtoull t).1) hQ
      have hPQ : P = Q := by simpa [strtoull_seqText, UInt64.toNat_inj] using this
      rw [hPQ]
      exact hlt
    rw [readPersistedNextSegmentSeq_seqText]
    by_cases hfreed : freed ≠ 0 ∧ freed ≠ 10
    · rw [if_pos hfreed]
      refine ⟨fun c hc => ?_, by simp only [hnext]; omega⟩
      rcases hsees with h | h | h
      · exact absurd h hfreed.1
      · exact absurd h hfreed.2
      · obtain ⟨n, hn, hle⟩ := h c hc
        exact UInt64.lt_of_le_of_lt hle (hscanned n hn)
    · rw [if_neg hfreed]
      by_cases hgt : P > scanExistingSegmentSeqMax s.files + 1
      · simp only [if_pos hgt]
        exact ⟨hahead, hP⟩
      · simp only [if_neg hgt]
        refine ⟨fun c hc => ?_, by omega⟩
        exact UInt64.lt_of_lt_of_le (hahead c hc) (UInt64.not_lt.mp hgt)

/-! ## Steps and runs -/

/-- The state file behind `persist_next_segment_seq` keeps ahead of the numbers in use. -/
theorem persistOutcome_file_spec {s : SeqStore} (hinv : SeqInv s) (outcome : PersistOutcome)
    {value : UInt64} (hvalue : value.toNat ≤ s.allocated + 1)
    (habove : ∀ c ∈ s.created, c < value) :
    (∀ c ∈ s.created, ∃ P, outcome.file value s.stateFile = some (seqText P) ∧ c < P) ∧
      ∀ text, outcome.file value s.stateFile = some text →
        ∃ P, text = seqText P ∧ P.toNat ≤ s.allocated + 1 := by
  cases outcome with
  | failed => exact ⟨hinv.ahead, hinv.stateBound⟩
  | written | unsynced =>
    refine ⟨fun c hc => ⟨value, rfl, habove c hc⟩, fun text h => ⟨value, ?_, hvalue⟩⟩
    exact (Option.some_inj.mp h).symm

/-- No step forgets a number that was taken. -/
theorem seqStep_allocated {s s' : SeqStore} {a : SeqAction} (h : seqStep s a = some s') :
    s.allocated ≤ s'.allocated := by
  unfold seqStep at h
  split at h <;> (try split at h) <;> (try split at h) <;> cases h <;> simp

section Step

variable {s s' : SeqStore}

/-- A new process begins above all numbers in use. -/
theorem SeqInv.start {freed : UInt8} (hinv : SeqInv s) (hsees : StartSeesSeq s (.start freed))
    (hstep : seqStep s (.start freed) = some s') (hbound : s'.allocated < 2 ^ 64 - 1) :
    SeqInv s' := by
  cases hp : s.process with
  | some p => simp [seqStep, hp] at hstep
  | none =>
    simp only [seqStep, hp, Option.some_inj] at hstep
    subst hstep
    obtain ⟨habove, hnext⟩ := recorderInitNextSeq_spec hinv hsees hbound
    exact { hinv with
      nextBound := by rintro p ⟨⟩; exact hnext
      place := by rintro p ⟨⟩; exact habove }

/-- The state file goes ahead before a segment file is made. -/
theorem SeqInv.persist {outcome : PersistOutcome} (hinv : SeqInv s)
    (hstep : seqStep s (.persist outcome) = some s') : SeqInv s' := by
  rcases hp : s.process with _ | ⟨next, place⟩
  · simp [seqStep, hp] at hstep
  have hnext := hinv.nextBound _ hp
  have hplace := hinv.place _ hp
  cases place with
  | starting =>
    simp only [seqStep, hp, Option.some_inj] at hstep
    subst hstep
    obtain ⟨hahead, hstate⟩ := persistOutcome_file_spec hinv outcome hnext hplace
    exact { hinv with
      ahead := hahead
      stateBound := hstate
      nextBound := by rintro p ⟨⟩; exact hnext
      place := by rintro p ⟨⟩; exact hplace }
  | persisting group seq =>
    simp only [seqStep, hp, Option.some_inj] at hstep
    subst hstep
    obtain ⟨hseq, hlt⟩ := hplace
    have habove : ∀ c ∈ s.created, c < next := fun c hc => UInt64.lt_trans (hseq c hc) hlt
    obtain ⟨hahead, hstate⟩ := persistOutcome_file_spec hinv outcome hnext habove
    refine { hinv with
      ahead := hahead
      stateBound := hstate
      nextBound := by rintro p ⟨⟩; exact hnext
      place := ?_ }
    rintro p ⟨⟩
    cases outcome with
    | written => exact ⟨hseq, hlt, rfl⟩
    | failed | unsynced => exact habove
  | idle => simp [seqStep, hp] at hstep
  | creating group seq => simp [seqStep, hp] at hstep

/-- A number is taken, and the next one does not wrap. -/
theorem SeqInv.openSegment {group : Bytes} (hinv : SeqInv s)
    (hstep : seqStep s (.openSegment group) = some s') (hbound : s'.allocated < 2 ^ 64 - 1) :
    SeqInv s' := by
  rcases hp : s.process with _ | ⟨next, place⟩
  · simp [seqStep, hp] at hstep
  have hnext := hinv.nextBound _ hp
  have hplace := hinv.place _ hp
  cases place with
  | idle =>
    simp only [seqStep, hp, Option.some_inj] at hstep
    subst hstep
    simp only at hbound hnext
    have hsucc : (next + 1).toNat = next.toNat + 1 := by
      rw [UInt64.toNat_add, UInt64.toNat_one]
      omega
    refine { hinv with
      stateBound := ?_
      nextBound := ?_
      place := ?_ }
    · intro text htext
      obtain ⟨P, hP, hle⟩ := hinv.stateBound text htext
      exact ⟨P, hP, Nat.le_succ_of_le hle⟩
    · rintro p ⟨⟩
      simp only
      omega
    · rintro p ⟨⟩
      refine ⟨hplace, ?_⟩
      rw [UInt64.lt_iff_toNat_lt, hsucc]
      exact Nat.lt_succ_self _
  | starting => simp [seqStep, hp] at hstep
  | persisting group seq => simp [seqStep, hp] at hstep
  | creating group seq => simp [seqStep, hp] at hstep

/-- A segment file is made under the number that was taken for it, or it is not made. -/
theorem SeqInv.create {ok : Bool} (hinv : SeqInv s)
    (hstep : seqStep s (.create ok) = some s') : SeqInv s' := by
  rcases hp : s.process with _ | ⟨next, place⟩
  · simp [seqStep, hp] at hstep
  have hnext := hinv.nextBound _ hp
  have hplace := hinv.place _ hp
  cases place with
  | creating group seq =>
    obtain ⟨hseq, hlt, hfile⟩ := hplace
    cases ok with
    | true =>
      simp only [seqStep, hp, if_true, Option.some_inj] at hstep
      subst hstep
      have hcreated : ∀ c ∈ s.created ++ [seq], c < next := by
        intro c hc
        rcases List.mem_append.mp hc with hc | hc
        · exact UInt64.lt_trans (hseq c hc) hlt
        · rw [List.mem_singleton.mp hc]
          exact hlt
      constructor
      · rw [List.pairwise_append]
        refine ⟨hinv.increasing, List.pairwise_singleton _ _, fun c hc d hd => ?_⟩
        rw [List.mem_singleton.mp hd]
        exact hseq c hc
      · intro f hf
        rcases List.mem_append.mp hf with hf | hf
        · obtain ⟨c, hc, hname⟩ := hinv.named f hf
          exact ⟨c, List.mem_append_left _ hc, hname⟩
        · rw [List.mem_singleton.mp hf]
          exact ⟨seq, by simp, rfl⟩
      · exact fun c hc => ⟨next, hfile, hcreated c hc⟩
      · exact hinv.stateBound
      · rintro p ⟨⟩
        exact hnext
      · rintro p ⟨⟩
        exact hcreated
    | false =>
      simp only [seqStep, hp, Bool.false_eq_true, if_false, Option.some_inj] at hstep
      subst hstep
      exact { hinv with
        nextBound := by rintro p ⟨⟩; exact hnext
        place := by rintro p ⟨⟩; exact fun c hc => UInt64.lt_trans (hseq c hc) hlt }
  | starting => simp [seqStep, hp] at hstep
  | idle => simp [seqStep, hp] at hstep
  | persisting group seq => simp [seqStep, hp] at hstep

/-- A removed file takes its number with it. -/
theorem SeqInv.remove {file : Bytes × Bytes} (hinv : SeqInv s)
    (hstep : seqStep s (.remove file) = some s') : SeqInv s' := by
  simp only [seqStep, Option.some_inj] at hstep
  subst hstep
  exact { hinv with named := fun f hf => hinv.named f (List.mem_of_mem_filter hf) }

/-- Behind a crash there is no process. -/
theorem SeqInv.crash (hinv : SeqInv s) (hstep : seqStep s .crash = some s') : SeqInv s' := by
  simp only [seqStep, Option.some_inj] at hstep
  subst hstep
  exact { hinv with nextBound := by simp, place := by simp }

/-- **A step keeps the invariant**, where a start sees the numbers in use. -/
theorem seqStep_inv {a : SeqAction} (hinv : SeqInv s) (hsees : StartSeesSeq s a)
    (hstep : seqStep s a = some s') (hbound : s'.allocated < 2 ^ 64 - 1) : SeqInv s' := by
  cases a with
  | start freed => exact hinv.start hsees hstep hbound
  | persist outcome => exact hinv.persist hstep
  | openSegment group => exact hinv.openSegment hstep hbound
  | create ok => exact hinv.create hstep
  | remove file => exact hinv.remove hstep
  | crash => exact hinv.crash hstep

end Step

/-- Every start of a sequence of actions sees the numbers in use. -/
def StartsSeeSeq : SeqStore → List SeqAction → Prop
  | _, [] => True
  | s, a :: rest =>
    StartSeesSeq s a ∧
      match seqStep s a with
      | some s' => StartsSeeSeq s' rest
      | none => True

theorem seqRun_allocated {s s' : SeqStore} {actions : List SeqAction}
    (h : seqRun s actions = some s') : s.allocated ≤ s'.allocated := by
  induction actions generalizing s with
  | nil =>
    rw [seqRun, Option.some_inj] at h
    rw [h]
  | cons a rest ih =>
    obtain ⟨s₁, hs₁, hrest⟩ := Option.bind_eq_some_iff.mp h
    exact le_trans (seqStep_allocated hs₁) (ih hrest)

/-- A whole run keeps the invariant. -/
theorem seqRun_inv {s s' : SeqStore} {actions : List SeqAction} (hinv : SeqInv s)
    (hsees : StartsSeeSeq s actions) (hrun : seqRun s actions = some s')
    (hbound : s'.allocated < 2 ^ 64 - 1) : SeqInv s' := by
  induction actions generalizing s with
  | nil =>
    rw [seqRun, Option.some_inj] at hrun
    rw [← hrun]
    exact hinv
  | cons a rest ih =>
    obtain ⟨s₁, hs₁, hrest⟩ := Option.bind_eq_some_iff.mp hrun
    obtain ⟨hstart, hrestSees⟩ := hsees
    simp only [hs₁] at hrestSees
    have hle := seqRun_allocated hrest
    exact ih (seqStep_inv hinv hstart hs₁ (by omega)) hrestSees hrest

/-- **Numbers are never reused.** Along every history of processes on one store, with any
creations, removals, failures and crashes, the numbers of the segment files increase in
creation order, where every start sees the numbers in use. -/
theorem created_seqs_increase {s : SeqStore} {actions : List SeqAction}
    (hsees : StartsSeeSeq {} actions) (hrun : seqRun {} actions = some s)
    (hbound : s.allocated < 2 ^ 64 - 1) : s.created.Pairwise (· < ·) :=
  (seqRun_inv seqInv_empty hsees hrun hbound).increasing

/-- A segment in group `a`, a crash, and a segment of the next process. -/
def crashAndGoOn (freed : UInt8) (between : List SeqAction) : List SeqAction :=
  [.start 0, .persist .written, .openSegment [97], .persist .written, .create true] ++
    between ++
    [.crash, .start freed, .persist .written, .openSegment [97], .persist .written, .create true]

/-- The store behind `crashAndGoOn` with the first segment removed. -/
def goneOnStore : SeqStore where
  stateFile := some (seqText 3)
  files := [([97], segmentName 2)]
  process := some ⟨3, .idle⟩
  created := [1, 2]
  allocated := 2

theorem created_seqs_increase_removed :
    seqRun {} (crashAndGoOn 10 [.remove ([97], segmentName 1)]) = some goneOnStore ∧
      goneOnStore.created.Pairwise (· < ·) := by
  have hrun : seqRun {} (crashAndGoOn 10 [.remove ([97], segmentName 1)]) =
      some goneOnStore := by decide +kernel
  refine ⟨hrun, created_seqs_increase ?_ hrun (by decide)⟩
  exact ⟨.inl rfl, trivial, trivial, trivial, trivial, trivial, trivial, .inr (.inl rfl),
    trivial, trivial, trivial, trivial, trivial⟩

/-- With its only segment removed and another character behind the freed text, the next
process begins with 1 again. -/
theorem crashAndGoOn_seq_reused :
    (seqRun {} (crashAndGoOn 85 [.remove ([97], segmentName 1)])).map (·.created) =
      some [1, 1] := by
  decide +kernel

/-! ## The writers take their numbers this way -/

/-- The segment file a call of `writer_open_segment` makes, if it gets that far. -/
def segmentsMade (res : OpenResult) : List SegmentOnDisk :=
  (if res.errno.isNone then res.writer.file.toList else []) ++ res.orphan.toList

/-- **`writer_open_segment` is a run of actions** of an idle process, with its next number
and the files it makes. -/
theorem writerOpenSegment_seqRun (env : RecorderEnv) (config : RecorderConfig) (t gi : ℕ)
    (seq clockJumpSeq : UInt64) (w : PriorityWriter) (e : LogEntry) {s : SeqStore}
    (hidle : s.process = some ⟨seq, .idle⟩) :
    ∃ actions s', seqRun s actions = some s' ∧
      s'.process = some
        ⟨(writerOpenSegment env config t gi seq clockJumpSeq w e).nextSegmentSeq, .idle⟩ ∧
      s'.created = s.created ++
        (segmentsMade (writerOpenSegment env config t gi seq clockJumpSeq w e)).map (·.nameSeq) ∧
      s'.files = s.files ++
        (segmentsMade (writerOpenSegment env config t gi seq clockJumpSeq w e)).map
          fun f => (f.group, segmentName f.nameSeq) := by
  unfold writerOpenSegment
  cases (env.io t .mkdir).errno with
  | some err => exact ⟨[], s, rfl, hidle, by simp [segmentsMade], by simp [segmentsMade]⟩
  | none =>
    simp only
    cases openFailure env config t gi seq e with
    | some err =>
      have hrun : seqRun s [.openSegment (config.group gi).name, .persist .failed] =
          some { s with process := some ⟨seq + 1, .idle⟩, allocated := s.allocated + 1 } := by
        simp only [seqRun, seqStep, hidle, Option.bind_some]
        rfl
      exact ⟨_, _, hrun, rfl, by simp [segmentsMade], by simp [segmentsMade]⟩
    | none =>
      have hrun : seqRun s [.openSegment (config.group gi).name, .persist .written,
          .create true] = some
          { s with
            stateFile := some (seqText (seq + 1))
            files := s.files ++ [((config.group gi).name, segmentName seq)]
            created := s.created ++ [seq]
            process := some ⟨seq + 1, .idle⟩
            allocated := s.allocated + 1 } := by
        simp only [seqRun, seqStep, hidle, Option.bind_some, if_true]
        rfl
      -- the file is there from the `rename` on, also where the call fails behind it
      cases env.firstFailure t [.syncDir, .tellHeader] with
      | some err => exact ⟨_, _, hrun, rfl, by simp [segmentsMade], by simp [segmentsMade]⟩
      | none => exact ⟨_, _, hrun, rfl, by simp [segmentsMade], by simp [segmentsMade]⟩

end Recorder.Analysis
