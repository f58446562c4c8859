import Mathlib.Data.List.TakeWhile
import Recorder.Analysis.FollowReader

/-!
# Reading on after a failed follow read

A call of `rec_player_next` fails because a segment cannot be read, the cause goes away, and
the caller goes on (`nextReads`). What is returned then is what is committed behind the marks
the failure left, so the entries of segments scanned in front of the failure are gone
(`never_read_of_passed`). Nothing is lost only if there were none (`LosesNothing`).

**Main result**: `failed_read_loses_nothing_iff`.
-/

set_option autoImplicit false

namespace Recorder.Analysis

open Recorder.Model Recorder.Lib

/-- The entries that up to `n` further calls of `rec_player_next` return, every segment being
readable. -/
def nextReads (store : Store) : ℕ → Reader → List StoredEntry
  | 0, _ => []
  | n + 1, r =>
    match recPlayerNext store (fun _ => none) r with
    | (rc, r') => if rc = 1 then r'.currentEntry.toList ++ nextReads store n r' else []

/-- What is committed behind the marks of a reader, in all segments of the selected groups. -/
def uncollected (store : Store) (r : Reader) : List StoredEntry :=
  (collectSegmentPaths store r.groupFilter).flatMap (behindMark r.follow.segments)

/-- **A failed read loses nothing** if there is nothing behind the marks of the segments the
scan goes through before it fails, and nothing in segments it does not look at. -/
structure LosesNothing (store : Store) (fault : ScanFault) (r : Reader) : Prop where
  before : ∀ p ∈ scannedBefore fault r.follow.segments
      (followPaths store r.groupFilter r.follow), behindMark r.follow.segments p = []
  elsewhere : ∀ p ∈ collectSegmentPaths store r.groupFilter,
    p ∉ followPaths store r.groupFilter r.follow → behindMark r.follow.segments p = []

section Reads

variable {store : Store} {fault : ScanFault} {r : Reader}

/-- Between two followed entries `rec_player_next` only takes the next one. -/
theorem recPlayerNext_direct (h : followsDirectly r = true) :
    recPlayerNext store fault r = iteratorNextFollowEntry store fault r :=
  if_pos h

/-- The reader an entry is taken from: a scan has been made if one was needed. -/
def refreshed (store : Store) (r : Reader) : Reader :=
  if needsScan r then afterScan store r else r

/-- With every segment readable it takes the entry behind a possible scan. -/
theorem recPlayerNext_takes (hwf : StoreWf store) (h : followsDirectly r = true) :
    recPlayerNext store (fun _ => none) r = takeEntry (refreshed store r) := by
  have hinit := h
  rw [followsDirectly, Bool.and_eq_true] at hinit
  rw [recPlayerNext_direct h, refreshed]
  by_cases hscan : needsScan r = true
  · rw [if_pos hscan, iteratorNextFollowEntry_of_scan hwf hinit.1 hscan no_scanFailure]
  · rw [if_neg hscan, iteratorNextFollowEntry_of_no_scan (by simpa using hscan)]

/-- The followed entries behind a possible scan begin with those in front of it. -/
theorem refreshed_entries (store : Store) (r : Reader) :
    ∃ more, (refreshed store r).entries = r.entries ++ more ∧
      ∀ e ∈ more, e ∈ scanned store r := by
  unfold refreshed
  split
  · exact ⟨_, rfl, fun e he => (List.mem_insertionSort _).mp he⟩
  · exact ⟨[], (List.append_nil _).symm, fun e he => by cases he⟩

/-- A scan leaves the position. -/
theorem refreshed_current : (refreshed store r).current = r.current := by
  unfold refreshed
  split <;> rfl

/-- A scan does not end following. -/
theorem refreshed_initialized :
    (refreshed store r).follow.initialized = r.follow.initialized := by
  unfold refreshed
  split <;> rfl

/-- The entry at the position is taken. -/
theorem takeEntry_some {i : ℕ} {e : StoredEntry} (hi : r.current = some i)
    (he : r.entries[i]? = some e) :
    takeEntry r = (1, { r with
      current := some (i + 1)
      currentEntry := some e
      currentValid := true
      currentSource := none
      lastDirection := some .forward }) := by
  simp [takeEntry, hi, he]

/-- An entry is taken, or nothing happens. -/
theorem takeEntry_cases (r : Reader) : takeEntry r = (0, r) ∨ ∃ i e, r.entries[i]? = some e ∧
    takeEntry r = (1, { r with
      current := some (i + 1)
      currentEntry := some e
      currentValid := true
      currentSource := none
      lastDirection := some .forward }) := by
  cases hi : r.current with
  | none => exact .inl (by simp [takeEntry, hi])
  | some i =>
    cases he : r.entries[i]? with
    | none => exact .inl (by simp [takeEntry, hi, he])
    | some e => exact .inr ⟨i, e, he, takeEntry_some hi he⟩

/-- **The entries at and behind the position are returned in their order.** -/
theorem mem_nextReads (hwf : StoreWf store) (k : ℕ) : ∀ (r : Reader) (i : ℕ) (e : StoredEntry),
    followsDirectly r = true → r.current = some i → r.entries[i + k]? = some e →
    e ∈ nextReads store (k + 1) r := by
  induction k with
  | zero =>
    intro r i e hdirect hi he
    obtain ⟨more, hentries, -⟩ := refreshed_entries store r
    have he' : (refreshed store r).entries[i]? = some e := by
      rw [hentries]
      exact List.getElem?_append_left (List.getElem?_eq_some_iff.mp he).1 ▸ he
    rw [nextReads, recPlayerNext_takes hwf hdirect,
      takeEntry_some (refreshed_current.trans hi) he']
    simp
  | succ k ih =>
    intro r i e hdirect hi he
    obtain ⟨more, hentries, -⟩ := refreshed_entries store r
    have hlt := (List.getElem?_eq_some_iff.mp he).1
    have he' : (refreshed store r).entries[i + (k + 1)]? = some e := by
      rw [hentries, List.getElem?_append_left hlt]
      exact he
    obtain ⟨first, hfirst⟩ : ∃ first, (refreshed store r).entries[i]? = some first := by
      rw [hentries, List.getElem?_append_left (by omega)]
      exact ⟨_, List.getElem?_eq_getElem (by omega)⟩
    have hinit : r.follow.initialized = true := by
      rw [followsDirectly, Bool.and_eq_true] at hdirect
      exact hdirect.1
    rw [nextReads, recPlayerNext_takes hwf hdirect,
      takeEntry_some (refreshed_current.trans hi) hfirst]
    simp only [if_true]
    refine List.mem_append_right _ (ih _ (i + 1) e ?_ rfl ?_)
    · simp [followsDirectly, refreshed_initialized, hinit]
    · rw [← he']
      congr 1
      omega

/-- A segment that no scan to come delivers anything of. -/
def PassedOver (store : Store) (r : Reader) (p : SegmentPath) : Prop :=
  PastEnd r.follow.segments p ∨
    r.follow.topologyPending = false ∧ p ∉ followPaths store r.groupFilter r.follow

/-- What is passed over stays so behind a scan. -/
theorem refreshed_passedOver (hwf : StoreWf store) {p : SegmentPath}
    (hp : p ∈ collectSegmentPaths store r.groupFilter) (h : PassedOver store r p) :
    PassedOver store (refreshed store r) p := by
  unfold refreshed
  split
  · rcases h with hpast | ⟨htopology, hnot⟩
    · refine .inl (hpast.marksAfter _ ?_)
      intro q hq hgroup hseq
      rw [collect_path_unique hwf hp (mem_collect_of_mem_followPaths hwf hq) hgroup hseq]
    · right
      have hsame : followPaths store (afterScan store r).groupFilter (afterScan store r).follow =
          followPaths store r.groupFilter r.follow := by
        unfold followPaths
        rw [htopology]
        rfl
      exact ⟨rfl, by rw [hsame]; exact hnot⟩
  · exact h

/-- An entry of a segment that is passed over is not among those a scan appends. -/
theorem not_mem_scanned (hwf : StoreWf store) (hdir : store.directory = true) {p : SegmentPath}
    (hp : p ∈ collectSegmentPaths store r.groupFilter) (h : PassedOver store r p)
    {e : StoredEntry} (he : e ∈ p.file.fileEntries) : e ∉ scanned store r := by
  intro hmem
  obtain ⟨q, hq, heq⟩ := List.mem_flatMap.mp hmem
  have hqPath := storePath_of_mem_followPaths hwf hdir hq
  have hpAll := (mem_sortPaths_all hdir).mp ((sortPaths_perm _).mem_iff.mpr hp)
  have heq' : e ∈ q.file.fileEntries := by
    rw [behindMark_eq (hqPath.headerSeq hwf)] at heq
    exact (List.mem_filter.mp heq).1
  -- group and number of the entry are those of both segments
  obtain ⟨hgp, hsp, -, -⟩ := mem_fileEntries he
  obtain ⟨hgq, hsq, -, -⟩ := mem_fileEntries heq'
  have hpq : q = p := by
    refine collect_path_unique hwf hp (mem_collect_of_mem_followPaths hwf hq)
      (hgq.symm.trans hgp) ?_
    rw [hqPath.seq, hpAll.2.2, ← hwf.headers _ hqPath.mem, ← hwf.headers _ hpAll.1, ← hsq, ← hsp]
  rw [hpq] at heq hq
  rcases h with hpast | ⟨-, hnot⟩
  · rw [hpast.behindMark_eq_nil] at heq
    cases heq
  · exact hnot hq

/-- **What is passed over is never read**: by induction on the calls, each of which returns a
followed entry or one of a scan. -/
theorem never_read_of_passed (hwf : StoreWf store) (hdir : store.directory = true)
    {p : SegmentPath} {e : StoredEntry} (he : e ∈ p.file.fileEntries) (n : ℕ) :
    ∀ r : Reader, followsDirectly r = true → p ∈ collectSegmentPaths store r.groupFilter →
      PassedOver store r p → e ∉ r.entries → e ∉ nextReads store n r := by
  induction n with
  | zero => exact fun _ _ _ _ _ h => by cases h
  | succ n ih =>
    intro r hdirect hp hpassed hnot
    obtain ⟨more, hentries, hmore⟩ := refreshed_entries store r
    have hnot' : e ∉ (refreshed store r).entries := by
      rw [hentries, List.mem_append, not_or]
      exact ⟨hnot, fun h => not_mem_scanned hwf hdir hp hpassed he (hmore e h)⟩
    have hinit : r.follow.initialized = true := by
      rw [followsDirectly, Bool.and_eq_true] at hdirect
      exact hdirect.1
    rw [nextReads, recPlayerNext_takes hwf hdirect]
    rcases takeEntry_cases (refreshed store r) with hnone | ⟨i, first, hget, hfirst⟩
    · rw [hnone]
      simp
    · rw [hfirst]
      simp only [if_true]
      rw [List.mem_append, not_or]
      constructor
      · intro h
        rw [Option.mem_toList, Option.some.injEq] at h
        exact hnot' (h ▸ List.mem_of_getElem? hget)
      · refine ih _ ?_ ?_ (refreshed_passedOver hwf hp hpassed) hnot'
        · simp [followsDirectly, refreshed_initialized, hinit]
        · have hfilter : (refreshed store r).groupFilter = r.groupFilter := by
            unfold refreshed
            split <;> rfl
          change p ∈ collectSegmentPaths store (refreshed store r).groupFilter
          rw [hfilter]
          exact hp

/-- **What the next scan appends is returned by the calls to come.** -/
theorem read_of_scanned (h : FollowHolds store r) (hdirect : followsDirectly r = true)
    (hscan : needsScan r = true) {e : StoredEntry} (he : e ∈ scanned store r) :
    ∃ n, e ∈ nextReads store n r := by
  have hinit : r.follow.initialized = true := by
    rw [followsDirectly, Bool.and_eq_true] at hdirect
    exact hdirect.1
  obtain ⟨i, hi, hle⟩ := h.position hinit
  have hmem : e ∈ (scanned store r).insertionSort fun a b =>
      (compareIteratorEntries r.order a b).isLE := (List.mem_insertionSort _).mpr he
  obtain ⟨j, hj⟩ := List.mem_iff_getElem?.mp hmem
  have hj' : (afterScan store r).entries[i + (r.entries.length - i + j)]? = some e := by
    have hidx : i + (r.entries.length - i + j) = r.entries.length + j := by omega
    rw [hidx, afterScan, List.getElem?_append_right (by omega), Nat.add_sub_cancel_left]
    exact hj
  have hlt := (List.getElem?_eq_some_iff.mp hj').1
  -- behind the scan nothing is pending, and the same entry comes first
  have hdirect' : followsDirectly (afterScan store r) = true := by
    have hi' : (afterScan store r).current = some i := hi
    have hinit' : (afterScan store r).follow.initialized = true := hinit
    simp only [followsDirectly, hi', hinit', Option.any_some, Bool.true_and]
    rw [decide_eq_true (by omega), Bool.true_or, Bool.true_or]
  have hnoscan : needsScan (afterScan store r) = false := by
    have hi' : (afterScan store r).current = some i := hi
    simp only [needsScan, hi', Option.all_some]
    rw [decide_eq_false (by omega)]
    rfl
  have hfirst : recPlayerNext store (fun _ => none) r =
      recPlayerNext store (fun _ => none) (afterScan store r) := by
    rw [recPlayerNext_takes h.wf hdirect, recPlayerNext_takes h.wf hdirect', refreshed, refreshed,
      if_pos hscan, if_neg (by simp [hnoscan])]
  refine ⟨r.entries.length - i + j + 1, ?_⟩
  have hread :=
    mem_nextReads h.wf (r.entries.length - i + j) (afterScan store r) i e hdirect' hi hj'
  rw [nextReads] at hread ⊢
  rw [hfirst]
  exact hread

/-- A failing call of `rec_player_next` that would not have failed with every segment readable:
its scan came to a segment that cannot be read, and the reader has the marks of that scan.
SOURCE: librecorder.c:2759-2824 -/
theorem failedRead_spec (h : FollowHolds store r) {rc : Int} {r' : Reader}
    (hfail : recPlayerNext store fault r = (rc, r')) (hrc : rc < 0)
    (hcause : 0 ≤ (recPlayerNext store (fun _ => none) r).1) :
    ∃ r₁, followPart r₁ = followPart r ∧ r₁.follow.initialized = true ∧
      followsDirectly r₁ = true ∧ needsScan r₁ = true ∧ ScanFailure store fault r₁ ∧
      r' = afterFailure store fault r₁ := by
  have htake : ∀ x : Reader, 0 ≤ (takeEntry x).1 := by
    intro x
    rcases takeEntry_cases x with h0 | ⟨i, e, -, h1⟩
    · rw [h0]
    · rw [h1]
      exact Int.zero_le_ofNat 1
  rcases recPlayerNext_eq store r with ⟨r₁, hread, heq⟩ | ⟨result, heq, -, -⟩
  · obtain ⟨hpart, hinit, hdirect⟩ := followRead_spec store r hread
    obtain ⟨i, hi, -⟩ := (h.same hpart).position hinit
    rw [heq] at hfail
    by_cases hscan : needsScan r₁ = true
    · by_cases hfails : ScanFailure store fault r₁
      · rw [iteratorNextFollowEntry_of_failure h.wf hinit hscan hfails] at hfail
        exact ⟨r₁, hpart, hinit, hdirect i hi, hscan, hfails, (congrArg Prod.snd hfail).symm⟩
      · rw [iteratorNextFollowEntry_of_scan h.wf hinit hscan hfails] at hfail
        have h0 := htake (afterScan store r₁)
        rw [hfail] at h0
        exact absurd hrc (Int.not_lt.mpr h0)
    · rw [iteratorNextFollowEntry_of_no_scan (by simpa using hscan)] at hfail
      have h0 := htake r₁
      rw [hfail] at h0
      exact absurd hrc (Int.not_lt.mpr h0)
  · rw [heq] at hcause hfail
    rw [hfail] at hcause
    exact absurd hrc (Int.not_lt.mpr hcause)

/-- A failure leaves the segments to scan. -/
theorem followPaths_afterFailure : followPaths store (afterFailure store fault r).groupFilter
    (afterFailure store fault r).follow = followPaths store r.groupFilter r.follow :=
  rfl

/-- A failure moves the marks of the segments scanned in front of it. -/
theorem marks_afterFailure : (afterFailure store fault r).follow.segments =
    marksAfter r.follow.segments
      (scannedBefore fault r.follow.segments (followPaths store r.groupFilter r.follow)) :=
  rfl

/-- What is scanned in front of a failure is among the segments of the selected groups. -/
theorem mem_collect_of_scannedBefore (hwf : StoreWf store) {p : SegmentPath}
    (hp : p ∈ scannedBefore fault r.follow.segments (followPaths store r.groupFilter r.follow)) :
    p ∈ collectSegmentPaths store r.groupFilter :=
  mem_collect_of_mem_followPaths hwf (List.takeWhile_subset _ hp)

/-- In a single file nothing is in front of the failure, and nothing elsewhere. -/
theorem LosesNothing.of_file (hwf : StoreWf store) (hdir : store.directory = false)
    (hfails : ScanFailure store fault r) : LosesNothing store fault r := by
  have hlen := length_collect_single r.groupFilter hwf hdir
  obtain ⟨q, hq, hqfails⟩ := hfails
  have hone : ∀ p ∈ collectSegmentPaths store r.groupFilter, p = q := by
    intro p hp
    match hc : collectSegmentPaths store r.groupFilter, hlen with
    | [], _ =>
      rw [hc] at hp
      cases hp
    | [a], _ =>
      have hq' := mem_collect_of_mem_followPaths hwf hq
      rw [hc] at hp hq'
      rw [List.mem_singleton.mp hp, List.mem_singleton.mp hq']
  constructor
  · intro p hp
    have hread := List.mem_takeWhile_imp hp
    rw [hone p (mem_collect_of_scannedBefore hwf hp), hqfails] at hread
    cases hread
  · intro p hp hnot
    rw [hone p hp] at hnot
    exact absurd hq hnot

/-- Where everything is read in the end, a segment passed over has nothing behind its mark. -/
theorem behindMark_nil_of_read (h : FollowHolds store r)
    (hinit : r.follow.initialized = true) (hdirect : followsDirectly r = true)
    (hdir : store.directory = true)
    (hall : ∀ e ∈ uncollected store r, ∃ n, e ∈ nextReads store n (afterFailure store fault r))
    {p : SegmentPath} (hp : p ∈ collectSegmentPaths store r.groupFilter)
    (hpassed : PassedOver store (afterFailure store fault r) p) :
    behindMark r.follow.segments p = [] := by
  have hpAll := (mem_sortPaths_all hdir).mp ((sortPaths_perm _).mem_iff.mpr hp)
  have hseq : HeaderSeq p := StorePath.headerSeq h.wf ⟨hpAll.1, hpAll.2.2⟩
  rw [List.eq_nil_iff_forall_not_mem]
  intro e he
  obtain ⟨n, hn⟩ := hall e (List.mem_flatMap.mpr ⟨p, hp, he⟩)
  rw [behindMark_eq hseq] at he
  obtain ⟨hefile, hafter⟩ := List.mem_filter.mp he
  have hold : e ∉ r.entries := by
    intro hold
    rw [h.past hinit hdir e hold] at hafter
    cases hafter
  exact never_read_of_passed h.wf hdir hefile n (afterFailure store fault r) hdirect hp hpassed
    hold hn

/-- **Where everything is read in the end, the failure lost nothing**: what was scanned in
front of it is behind its marks now, and other segments are not looked at. -/
theorem LosesNothing.of_read (h : FollowHolds store r)
    (hinit : r.follow.initialized = true) (hdirect : followsDirectly r = true)
    (hdir : store.directory = true)
    (hall : ∀ e ∈ uncollected store r, ∃ n, e ∈ nextReads store n (afterFailure store fault r)) :
    LosesNothing store fault r := by
  constructor
  · intro p hp
    refine behindMark_nil_of_read h hinit hdirect hdir hall
      (mem_collect_of_scannedBefore h.wf hp) (.inl ?_)
    rw [marks_afterFailure]
    refine pastEnd_marksAfter _ ?_ _ p hp
    intro a ha b hb hgroup hseq
    rw [collect_path_unique h.wf (mem_collect_of_scannedBefore h.wf ha)
      (mem_collect_of_scannedBefore h.wf hb) hgroup hseq]
  · intro p hp hnot
    have htopology : r.follow.topologyPending = false := by
      by_contra hpending
      apply hnot
      rw [followPaths, if_pos (by simp [hdir, Bool.not_eq_false _ ▸ hpending])]
      exact (sortPaths_perm _).mem_iff.mpr hp
    refine behindMark_nil_of_read h hinit hdirect hdir hall hp (.inr ⟨htopology, ?_⟩)
    rw [followPaths_afterFailure]
    exact hnot

/-- **Where nothing is lost, everything is read**: the segment of an entry is scanned behind
those in front of the failure, from the mark it had. -/
theorem LosesNothing.read (hnothing : LosesNothing store fault r) (h : FollowHolds store r)
    (hinit : r.follow.initialized = true) (hdirect : followsDirectly r = true)
    (hscan : needsScan r = true) {e : StoredEntry} (he : e ∈ uncollected store r) :
    ∃ n, e ∈ nextReads store n (afterFailure store fault r) := by
  obtain ⟨p, hp, hep⟩ := List.mem_flatMap.mp he
  have hpaths : p ∈ followPaths store r.groupFilter r.follow := by
    by_contra hnot
    rw [hnothing.elsewhere p hp hnot] at hep
    cases hep
  refine read_of_scanned (h.afterFailure hinit) hdirect hscan ?_
  rw [scanned, followPaths_afterFailure, marks_afterFailure, List.mem_flatMap]
  refine ⟨p, hpaths, ?_⟩
  have hsplit := List.takeWhile_append_dropWhile (p := fun p =>
    !scanFails fault r.follow.segments p) (l := followPaths store r.groupFilter r.follow)
  have hrest : p ∈ (followPaths store r.groupFilter r.follow).dropWhile fun p =>
      !scanFails fault r.follow.segments p := by
    rw [← hsplit, List.mem_append] at hpaths
    rcases hpaths with hfront | hrest
    · rw [hnothing.before p hfront] at hep
      cases hep
    · exact hrest
  have horder : PathsInOrder (followPaths store r.groupFilter r.follow) :=
    followPaths_inOrder h.wf
  rw [PathsInOrder, ← hsplit, List.pairwise_append] at horder
  have hstart := followStart_marksAfter _ r.follow.segments fun q hq => horder.2.2 q hq p hrest
  rw [behindMark, scannedBefore, hstart]
  exact hep

end Reads

/-- **When a failed follow read loses nothing.** A call of `rec_player_next` on a reader in
follow mode fails because of a segment that cannot be read. With every segment readable again,
the calls that follow return all that was committed behind the marks the reader had, if and
only if nothing was behind the marks of the segments scanned before the failure, and nothing is
in segments that follow scans do not look at.
SOURCE: librecorder.c:600-660, 1376-1438, 2759-2824 -/
theorem failed_read_loses_nothing_iff (store : Store) (fault : ScanFault) (r r' : Reader)
    (rc : Int) (hfollowing : Following store r)
    (hfail : recPlayerNext store fault r = (rc, r')) (hrc : rc < 0)
    (hcause : 0 ≤ (recPlayerNext store (fun _ => none) r).1) :
    (∀ e ∈ uncollected store r, ∃ n, e ∈ nextReads store n r') ↔ LosesNothing store fault r := by
  obtain ⟨r₁, hpart, hinit, hdirect, hscan, hfails, rfl⟩ :=
    failedRead_spec hfollowing.holds hfail hrc hcause
  have hholds := hfollowing.holds.same hpart
  have hfollow : r₁.follow = r.follow := congrArg Prod.fst hpart
  have hfilter : r₁.groupFilter = r.groupFilter := congrArg (fun t => t.2.2.2) hpart
  -- the reader in front of the failing scan has the marks of the one that made the call
  have huncollected : uncollected store r₁ = uncollected store r := by
    rw [uncollected, hfilter, hfollow]
    rfl
  have hloses : LosesNothing store fault r₁ ↔ LosesNothing store fault r := by
    constructor <;> rintro ⟨hbefore, helsewhere⟩
    · rw [hfollow, hfilter] at hbefore helsewhere
      exact ⟨hbefore, helsewhere⟩
    · rw [← hfollow, ← hfilter] at hbefore helsewhere
      exact ⟨hbefore, helsewhere⟩
  rw [← huncollected, ← hloses]
  constructor
  · intro hall
    cases hdir : store.directory with
    | false => exact .of_file hholds.wf hdir hfails
    | true => exact .of_read hholds hinit hdirect hdir hall
  · exact fun hnothing e he => hnothing.read hholds hinit hdirect hscan he

/-! ## Two groups, one of which cannot be read -/

/-- A log directory with a segment of group `a`, with or without a frame, and an empty one of
group `b`. -/
def twoGroups (filled : Bool) : Store where
  directory := true
  files := [growingSegment 1 filled false, { growingSegment 2 false false with group := [98] }]
  length_lt := length_pair_lt _ _ _

/-- The store is well formed. -/
theorem twoGroups_wf (filled : Bool) : StoreWf (twoGroups filled) := by
  refine ⟨?_, ?_, ?_⟩
  · refine List.pairwise_pair.mpr ?_
    intro h
    exact absurd h (by simp [growingSegment])
  · intro f hf
    rcases List.mem_pair.mp hf with rfl | rfl <;> rfl
  · intro h
    cases h

/-- A reader at the tail of the empty groups. -/
def tailReader : Reader := (recPlayerSeekTail (twoGroups false) {}).2

/-- The frame is appended behind the seek. -/
theorem tailReader_following : Following (twoGroups true) tailReader := by
  have hstart : Following (twoGroups false) tailReader := by
    refine .seekTail _ {} _ (twoGroups_wf false) ?_
    rw [← show (recPlayerSeekTail (twoGroups false) {}).1 = 0 by decide]
    rfl
  refine .written _ _ _ hstart (twoGroups_wf true) rfl ?_
  intro f' hf'
  left
  rcases List.mem_pair.mp hf' with rfl | rfl
  · exact ⟨growingSegment 1 false false, by simp [twoGroups], rfl, rfl, rfl, by decide⟩
  · exact ⟨_, List.mem_pair.mpr (.inr rfl), Grown.rfl⟩

/-- The segments of one group cannot be opened. -/
def groupFault (group : Bytes) : ScanFault := fun f => if f.group = group then some 0 else none

/-- **The entry of group `a` is lost when the segment of group `b` cannot be read**: the mark
of `a` was moved, its entry was collected, and what was collected is thrown away. -/
theorem failed_read_loses_entry :
    ¬ ∀ (store : Store) (fault : ScanFault) (r r' : Reader) (rc : Int), Following store r →
      recPlayerNext store fault r = (rc, r') → rc < 0 →
      0 ≤ (recPlayerNext store (fun _ => none) r).1 →
      ∀ e ∈ uncollected store r, ∃ n, e ∈ nextReads store n r' := by
  intro hall
  have hlost := hall (twoGroups true) (groupFault [98]) tailReader
    (recPlayerNext (twoGroups true) (groupFault [98]) tailReader).2 _ tailReader_following rfl
    (by decide) (by decide)
  set r' := (recPlayerNext (twoGroups true) (groupFault [98]) tailReader).2 with hr'
  have hend : (recPlayerNext (twoGroups true) (fun _ => none) r').1 = 0 := by
    rw [hr']
    decide
  have hnothing : ∀ n, nextReads (twoGroups true) n r' = [] := by
    intro n
    cases n with
    | zero => rfl
    | succ n =>
      rw [nextReads]
      cases h : recPlayerNext (twoGroups true) (fun _ => none) r' with
      | mk rc r'' =>
        rw [h] at hend
        simp only at hend
        simp [hend]
  have hlen : (uncollected (twoGroups true) tailReader).length = 1 := by decide
  obtain ⟨e, he⟩ := List.exists_mem_of_length_pos (by omega :
    0 < (uncollected (twoGroups true) tailReader).length)
  obtain ⟨n, hn⟩ := hlost e he
  rw [hnothing n] at hn
  cases hn

/-- When it is the segment of group `a` itself that cannot be read, nothing is lost. -/
theorem failed_read_loses_nothing_first :
    (uncollected (twoGroups true) tailReader).length = 1 ∧
      ∀ e ∈ uncollected (twoGroups true) tailReader, ∃ n, e ∈ nextReads (twoGroups true) n
        (recPlayerNext (twoGroups true) (groupFault [97]) tailReader).2 := by
  refine ⟨by decide, (failed_read_loses_nothing_iff (twoGroups true) (groupFault [97]) tailReader _
    _ tailReader_following rfl (by decide) (by decide)).mpr ⟨?_, ?_⟩⟩
  · have hfront : (scannedBefore (groupFault [97]) tailReader.follow.segments
        (followPaths (twoGroups true) tailReader.groupFilter tailReader.follow)).length = 0 := by
      decide
    intro p hp
    rw [List.length_eq_zero_iff.mp hfront] at hp
    cases hp
  · intro p hp hnot
    have hsame : followPaths (twoGroups true) tailReader.groupFilter tailReader.follow =
        collectSegmentPaths (twoGroups true) tailReader.groupFilter := rfl
    rw [hsame] at hnot
    exact absurd hp hnot

end Recorder.Analysis
