import Recorder.Lib.Bisect
import Recorder.Analysis.IndexFile

/-!
# The search for a time in an index file

`index_find_realtime_frame` and `index_find_monotonic_frame` halve the rows of an index that
`index_open_read` accepts. Nothing orders the rows by their times: a clock that is set back
leaves a row with smaller times behind one with larger times. The search then finds the first
row that reaches the time only where no midpoint behind that row misleads it
(`MidpointsReach`), and this is exactly when it does (`index_find_first_row`).
-/

set_option autoImplicit false

namespace Recorder.Analysis

open Recorder.Model Recorder.Lib

variable {file segment : Bytes} {count : ℕ} {below : IndexRecord → Bool}

/-! ## The rows of an accepted index -/

/-- Every row the chain goes through can be read. -/
theorem validateChain_rows {segmentSize : ℕ} (count : ℕ) : ∀ index expectedEnd last,
    validateChain file segmentSize count index expectedEnd = some last →
      ∀ i, index ≤ i → i < index + count → (indexPreadFrame file i).isSome = true := by
  induction count with
  | zero => intro index expectedEnd last _ i hle hlt; omega
  | succ count ih =>
    intro index expectedEnd last h i hle hlt
    unfold validateChain at h
    cases hread : indexPreadFrame file index with
    | none => simp [hread] at h
    | some frame =>
      simp only [hread] at h
      split at h
      · cases h
      · rcases Nat.lt_or_eq_of_le hle with hlt' | rfl
        · exact ih _ _ _ h i (by omega) (by omega)
        · rw [hread]
          rfl

theorem indexValidateSegment_rows {seq : UInt64} {flags : UInt32} {footerEnd : Option UInt64}
    (h : indexValidateSegment file count seq flags footerEnd segment = true) (i : ℕ)
    (hi : i < count) : (indexPreadFrame file i).isSome = true := by
  unfold indexValidateSegment at h
  split at h
  · cases h
  · split at h
    · cases h
    · split at h
      · cases h
      · next last hchain =>
        exact validateChain_rows count 0 _ _ hchain i (Nat.zero_le i) (by omega)

/-- **Every row of an accepted index can be read.** -/
theorem indexOpenRead_rows (h : indexOpenRead file segment = some count) (i : ℕ)
    (hi : i < count) : (indexPreadFrame file i).isSome = true := by
  obtain ⟨-, -, -, hclosed, hopen⟩ := (indexOpenRead_eq_some_iff file segment count).mp h
  by_cases hf : HasIndexFooter file
  · exact indexValidateSegment_rows (hclosed hf).segment_ok i hi
  · exact indexValidateSegment_rows (hopen hf).segment_ok i hi

/-! ## The search -/

/-- Whether row `i` is below the target of a search. -/
def rowBelow (below : IndexRecord → Bool) (file : Bytes) (i : ℕ) : Bool :=
  (indexPreadFrame file i).any below

/-- Where rows can be read, the loop is the search of an interval. -/
theorem indexFindLoop_eq_bisect (hrows : ∀ i < count, (indexPreadFrame file i).isSome = true)
    (fuel : ℕ) : ∀ lo hi : ℕ, hi ≤ count →
      indexFindLoop below file fuel lo hi = some (bisect (rowBelow below file) fuel lo hi) := by
  induction fuel with
  | zero => intro lo hi _; rfl
  | succ fuel ih =>
    intro lo hi hle
    unfold indexFindLoop bisect
    by_cases hlt : lo < hi
    · obtain ⟨row, hrow⟩ := Option.isSome_iff_exists.mp
        (hrows (lo + (hi - lo) / 2) (by omega))
      have hbelow : rowBelow below file (lo + (hi - lo) / 2) = below row := by
        rw [rowBelow, hrow, Option.any_some]
      simp only [if_pos hlt, hrow, hbelow]
      rw [ih _ _ hle, ih _ _ (by omega)]
      split <;> rfl
    · rw [if_neg hlt, if_neg hlt]

variable (below) in
/-- What a search of an accepted index returns: the row at which the interval search ends, or
the result 1 when that is the end of the index. -/
theorem indexFindFrame_eq (h : indexOpenRead file segment = some count) :
    (bisect (rowBelow below file) (count + 1) 0 count < count ∧
        ∃ row, indexPreadFrame file (bisect (rowBelow below file) (count + 1) 0 count) = some row ∧
          indexFindFrame below file segment =
            (0, some (row, bisect (rowBelow below file) (count + 1) 0 count))) ∨
      (bisect (rowBelow below file) (count + 1) 0 count = count ∧
        indexFindFrame below file segment = (1, none)) := by
  have hrows := indexOpenRead_rows h
  have hloop : indexFindLoop below file (count + 1) 0 count = _ :=
    indexFindLoop_eq_bisect hrows (count + 1) 0 count (Nat.le_refl _)
  rcases Nat.lt_or_eq_of_le (bisect_le (rowBelow below file) (count + 1) 0 count
    (Nat.zero_le _)).2 with hlt | heq
  · obtain ⟨row, hrow⟩ := Option.isSome_iff_exists.mp (hrows _ hlt)
    refine .inl ⟨hlt, row, hrow, ?_⟩
    simp only [indexFindFrame, h, hloop, if_pos hlt, hrow]
  · refine .inr ⟨heq, ?_⟩
    simp only [indexFindFrame, h, hloop, heq, Nat.lt_irrefl, if_false]

/-! ## The first row that reaches a time -/

/-- Row `k` is the first whose time reaches the one looked for. -/
structure FirstRow (time : IndexRecord → UInt64) (file : Bytes) (count : ℕ) (usec : UInt64)
    (k : ℕ) (row : IndexRecord) : Prop where
  lt_count : k < count
  row_eq : indexPreadFrame file k = some row
  reaches : usec ≤ time row
  before : ∀ i < k, ∀ r, indexPreadFrame file i = some r → time r < usec

/-- A search result is the first row that reaches the time, or 1 just when there is none. -/
def FindsFirstRow (time : IndexRecord → UInt64) (file : Bytes) (count : ℕ) (usec : UInt64)
    (out : Int × Option (IndexRecord × ℕ)) : Prop :=
  (∀ k row, FirstRow time file count usec k row → out = (0, some (row, k))) ∧
    (out.1 = 1 ↔ ∀ i < count, ∀ r, indexPreadFrame file i = some r → time r < usec)

/-- Halving the index towards the first row that reaches the time meets no row behind it that
does not reach it. -/
def MidpointsReach (time : IndexRecord → UInt64) (file : Bytes) (count : ℕ) (usec : UInt64) :
    Prop :=
  ∀ k row, FirstRow time file count usec k row →
    ∀ m ∈ bisectPath k (count + 1) 0 count, k < m →
      ∀ r, indexPreadFrame file m = some r → usec ≤ time r

section First

variable {time : IndexRecord → UInt64} {usec : UInt64} {k : ℕ} {row : IndexRecord}

theorem FirstRow.rowBelow_before (hk : FirstRow time file count usec k row)
    (h : indexOpenRead file segment = some count) (i : ℕ) (hi : i < k) :
    rowBelow (fun r => time r < usec) file i = true := by
  obtain ⟨r, hr⟩ := Option.isSome_iff_exists.mp
    (indexOpenRead_rows h i (Nat.lt_trans hi hk.lt_count))
  rw [rowBelow, hr, Option.any_some, decide_eq_true_eq]
  exact hk.before i hi r hr

theorem rowBelow_eq_false_iff :
    rowBelow (fun r => time r < usec) file k = false ↔
      ∀ r, indexPreadFrame file k = some r → usec ≤ time r := by
  unfold rowBelow
  cases indexPreadFrame file k with
  | none => simp
  | some r => simp [UInt64.not_lt]

/-- An index in which some row reaches the time has a first such row. -/
theorem exists_firstRow
    (hreach : ¬ ∀ i < count, ∀ r, indexPreadFrame file i = some r → time r < usec) :
    ∃ k row, FirstRow time file count usec k row := by
  have hex : ∃ i, i < count ∧ ∃ r, indexPreadFrame file i = some r ∧ usec ≤ time r := by
    simpa only [not_forall, exists_prop, UInt64.not_lt] using hreach
  classical
  obtain ⟨hlt, r, hr, hle⟩ := Nat.find_spec hex
  refine ⟨Nat.find hex, r, hlt, hr, hle, ?_⟩
  intro i hi r' hr'
  have hmin := Nat.find_min hex hi
  exact UInt64.not_le.mp fun hle' => hmin ⟨Nat.lt_trans hi hlt, r', hr', hle'⟩

/-- **The search finds the first row that reaches the time** exactly when the midpoints behind
it reach the time too.
SOURCE: index.c:508-559 -/
theorem indexFindFrame_findsFirstRow_iff (h : indexOpenRead file segment = some count) :
    FindsFirstRow time file count usec
        (indexFindFrame (fun r => time r < usec) file segment) ↔
      MidpointsReach time file count usec := by
  have hend : ∀ k row, FirstRow time file count usec k row →
      (bisect (rowBelow (fun r => time r < usec) file) (count + 1) 0 count = k ↔
        ∀ m ∈ bisectPath k (count + 1) 0 count, k < m →
          ∀ r, indexPreadFrame file m = some r → usec ≤ time r) := by
    intro k row hk
    rw [bisect_eq_iff _ (count + 1) 0 count (by omega) (Nat.zero_le k) (Nat.le_of_lt hk.lt_count)
      (fun i _ hi => hk.rowBelow_before h i hi)
      (fun _ => rowBelow_eq_false_iff.mpr fun r hr => by
        rw [hk.row_eq, Option.some.injEq] at hr
        exact hr ▸ hk.reaches)]
    simp only [rowBelow_eq_false_iff]
  have hout := indexFindFrame_eq (fun r => time r < usec) h
  constructor
  · intro hfinds k row hk
    rw [← hend k row hk]
    have hrow := hfinds.1 k row hk
    rcases hout with ⟨-, row', -, heq⟩ | ⟨-, heq⟩
    · rw [heq, Prod.mk.injEq, Option.some.injEq, Prod.mk.injEq] at hrow
      exact hrow.2.2
    · rw [heq, Prod.mk.injEq] at hrow
      exact absurd hrow.2 (by simp)
  · intro hreach
    constructor
    · intro k row hk
      have hk' := (hend k row hk).mpr (hreach k row hk)
      rcases hout with ⟨-, row', hrow', heq⟩ | ⟨hcount, -⟩
      · rw [hk', hk.row_eq, Option.some.injEq] at hrow'
        rw [heq, hk', hrow']
      · have := hk.lt_count
        omega
    · rcases hout with ⟨hlt, row', hrow', heq⟩ | ⟨hcount, heq⟩
      · -- the row that is found reaches the time
        rw [heq]
        constructor
        · intro h1
          cases h1
        · intro hall
          have hfalse := bisect_lt (rowBelow (fun r => time r < usec) file)
            (count + 1) 0 count (Nat.zero_le _) (by omega) hlt
          have hle := rowBelow_eq_false_iff.mp hfalse row' hrow'
          exact absurd (hall _ hlt row' hrow') (UInt64.not_lt.mpr hle)
      · rw [heq]
        refine ⟨fun _ => ?_, fun _ => rfl⟩
        by_contra hnot
        obtain ⟨k, row, hk⟩ := exists_firstRow hnot
        have hk' := (hend k row hk).mpr (hreach k row hk)
        have := hk.lt_count
        omega

end First

/-- **The two searches of an index find the first row that reaches a time** exactly when no
midpoint behind that row misleads them.
SOURCE: index.c:508-559, index.h:49-58 -/
theorem index_find_first_row (file segment : Bytes) (count : ℕ) (usec : UInt64)
    (h : indexOpenRead file segment = some count) :
    (FindsFirstRow (·.maxRealtimeTs) file count usec
        (indexFileFindRealtimeFrame file segment usec) ↔
      MidpointsReach (·.maxRealtimeTs) file count usec) ∧
    (FindsFirstRow (·.maxMonotonicTs) file count usec
        (indexFileFindMonotonicFrame file segment usec) ↔
      MidpointsReach (·.maxMonotonicTs) file count usec) :=
  ⟨indexFindFrame_findsFirstRow_iff h, indexFindFrame_findsFirstRow_iff h⟩

/-- A row at an offset whose four times are the same. -/
def oneTimeRow (offset usec : UInt64) : Bytes :=
  writeU64Le offset ++ writeU32Le 20 ++ writeU64Le usec ++ writeU64Le usec ++
    writeU64Le usec ++ writeU64Le usec ++ List.replicate 39 0

/-- A segment of two frames of 20 bytes. -/
def setBackSegment : Bytes := headerImage plainHeader [] [9, 9] ++ List.replicate 40 0

/-- Its index: the clock was set back between the frames, from 5 to 3. -/
def setBackIndex : Bytes :=
  indexHeaderImage plainHeader.segmentSeq plainHeader.flags ++ oneTimeRow 154 5 ++ oneTimeRow 174 3

/-- The midpoints of this index reach the smaller of its times. -/
theorem setBackIndex_midpoints :
    MidpointsReach (·.maxRealtimeTs) setBackIndex 2 3 ∧
      MidpointsReach (·.maxMonotonicTs) setBackIndex 2 3 := by
  have hall : ∀ k < 2, ∀ m ∈ bisectPath k 3 0 2, ∀ r ∈ indexPreadFrame setBackIndex m,
      3 ≤ r.maxRealtimeTs ∧ 3 ≤ r.maxMonotonicTs := by decide +kernel
  constructor
  · intro k row hk m hm _ r hr
    exact (hall k hk.lt_count m hm r hr).1
  · intro k row hk m hm _ r hr
    exact (hall k hk.lt_count m hm r hr).2

/-- The theorem above at this index, whose rows are not in order: for a time between the two
rows, and for one that both reach, where the searches are right. -/
theorem index_find_first_row_set_back :
    ((FindsFirstRow (·.maxRealtimeTs) setBackIndex 2 4
        (indexFileFindRealtimeFrame setBackIndex setBackSegment 4) ↔
      MidpointsReach (·.maxRealtimeTs) setBackIndex 2 4) ∧
    (FindsFirstRow (·.maxMonotonicTs) setBackIndex 2 4
        (indexFileFindMonotonicFrame setBackIndex setBackSegment 4) ↔
      MidpointsReach (·.maxMonotonicTs) setBackIndex 2 4)) ∧
    FindsFirstRow (·.maxRealtimeTs) setBackIndex 2 3
      (indexFileFindRealtimeFrame setBackIndex setBackSegment 3) ∧
    FindsFirstRow (·.maxMonotonicTs) setBackIndex 2 3
      (indexFileFindMonotonicFrame setBackIndex setBackSegment 3) := by
  have hopen : indexOpenRead setBackIndex setBackSegment = some 2 := by decide +kernel
  obtain ⟨hrealtime, hmonotonic⟩ := index_find_first_row setBackIndex setBackSegment 2 3 hopen
  exact ⟨index_find_first_row setBackIndex setBackSegment 2 4 hopen,
    hrealtime.mpr setBackIndex_midpoints.1, hmonotonic.mpr setBackIndex_midpoints.2⟩

/-- The first row of this index reaches the time 4, but the search says that none does. -/
theorem index_find_misses_set_back :
    indexOpenRead setBackIndex setBackSegment = some 2 ∧
      ¬ FindsFirstRow (·.maxRealtimeTs) setBackIndex 2 4
        (indexFileFindRealtimeFrame setBackIndex setBackSegment 4) := by
  refine ⟨by decide +kernel, ?_⟩
  intro h
  have hrow : indexPreadFrame setBackIndex 0 =
      some (decodeIndexFrame (oneTimeRow 154 5)) := by decide +kernel
  have hfirst : FirstRow (·.maxRealtimeTs) setBackIndex 2 4 0
      (decodeIndexFrame (oneTimeRow 154 5)) :=
    ⟨by decide, hrow, by decide, fun i hi => absurd hi (Nat.not_lt_zero i)⟩
  have hout : indexFileFindRealtimeFrame setBackIndex setBackSegment 4 = (1, none) := by
    decide +kernel
  have hfound := h.1 0 _ hfirst
  rw [hout] at hfound
  cases hfound

end Recorder.Analysis
