import Recorder.Model.Reader
import Recorder.Analysis.EntryOrder
import Recorder.Analysis.SourceStream

/-!
# Reading a store from one end to the other

`iterator_collect_sources` splits the segments of the selected groups by group
(`Collected`), `iterator_initialize` puts each source at an end of its stream, and every
`rec_player_next` or `rec_player_previous` delivers a least (greatest) head and leaves its
source to be advanced by the next call. `Pending` ties the reader's state between two calls
to the lists that are still to come; one call takes a step of a merge run over them
(`recPlayerNext_step`, `recPlayerPrevious_step`), so that reading until 0 is a merge run
over the streams of the sources (`readForward_mergeRun`, `readReverse_mergeRun`).

**Main result**: `iteration_complete`. From either end, in either order, with any subset of
the indexes, reading until 0 returns each entry of the selected groups once.
-/

set_option autoImplicit false

namespace Recorder.Analysis

open Recorder.Model Recorder.Lib

/-! ## Splitting the segments by group -/

/-- The sources of a list of paths: one for each group, with the paths of that group in
their order, and no place in it yet. -/
structure Collected (sources : List IteratorSource) (paths : List SegmentPath) : Prop where
  fresh : ∀ s ∈ sources, s = { group := s.group, segments := s.segments }
  nodup : (sources.map (·.group)).Nodup
  segments_eq : ∀ s ∈ sources, s.segments = paths.filter (·.file.group == s.group)
  perm : (sources.flatMap (·.segments)).Perm paths

section Collected

variable {sources : List IteratorSource} {paths : List SegmentPath} {path : SegmentPath}

/-- The first segment of a group makes a source. -/
theorem addSourceSegment_of_notMem (h : path.file.group ∉ sources.map (·.group)) :
    addSourceSegment sources path =
      sources ++ [{ group := path.file.group, segments := [path] }] := by
  induction sources with
  | nil => rfl
  | cons s rest ih =>
    simp only [List.map_cons, List.mem_cons, not_or] at h
    have hne : (s.group == path.file.group) = false := by
      simpa using fun heq => h.1 heq.symm
    simp only [addSourceSegment, hne, Bool.false_eq_true, if_false, ih h.2, List.cons_append]

/-- A further segment is added to the source of its group. -/
theorem addSourceSegment_of_mem (h : path.file.group ∈ sources.map (·.group)) :
    ∃ before s after, sources = before ++ s :: after ∧ s.group = path.file.group ∧
      addSourceSegment sources path =
        before ++ { s with segments := s.segments ++ [path] } :: after := by
  induction sources with
  | nil => cases h
  | cons s rest ih =>
    by_cases heq : s.group = path.file.group
    · refine ⟨[], s, rest, rfl, heq, ?_⟩
      simp [addSourceSegment, heq]
    · have hrest : path.file.group ∈ rest.map (·.group) := by
        rcases List.mem_cons.mp h with h | h
        · exact absurd h.symm heq
        · exact h
      obtain ⟨before, s', after, rfl, hgroup, hadd⟩ := ih hrest
      refine ⟨s :: before, s', after, rfl, hgroup, ?_⟩
      simp only [addSourceSegment, beq_iff_eq, heq, if_false, hadd, List.cons_append]

/-- The group of every segment has a source. -/
theorem Collected.mem_group (h : Collected sources paths) (hmem : path ∈ paths) :
    path.file.group ∈ sources.map (·.group) := by
  obtain ⟨s, hs, hseg⟩ := List.mem_flatMap.mp (h.perm.mem_iff.mpr hmem)
  rw [h.segments_eq s hs] at hseg
  have hgroup : path.file.group = s.group := by simpa using (List.mem_filter.mp hseg).2
  rw [hgroup]
  exact List.mem_map_of_mem hs

/-- Adding a path keeps the sources in order. -/
theorem Collected.add (h : Collected sources paths) (path : SegmentPath) :
    Collected (addSourceSegment sources path) (paths ++ [path]) := by
  by_cases hmem : path.file.group ∈ sources.map (·.group)
  · obtain ⟨before, s, after, rfl, hgroup, hadd⟩ := addSourceSegment_of_mem hmem
    have hnodup := h.nodup
    have hs : s ∈ before ++ s :: after := by simp
    rw [hadd]
    have hother : ∀ t ∈ before ++ after, t.group ≠ path.file.group := by
      intro t ht heq
      rw [List.map_append, List.map_cons, List.nodup_append, List.nodup_cons] at hnodup
      rcases List.mem_append.mp ht with ht | ht
      · exact hnodup.2.2 _ (List.mem_map_of_mem ht) _ (by simp) (heq.trans hgroup.symm)
      · apply hnodup.2.1.1
        rw [hgroup, ← heq]
        exact List.mem_map_of_mem ht
    refine ⟨?_, ?_, ?_, ?_⟩
    · intro t ht
      rcases List.mem_append.mp ht with ht | ht
      · exact h.fresh t (by simp [ht])
      · rcases List.mem_cons.mp ht with rfl | ht
        · rw [h.fresh s hs]
        · exact h.fresh t (by simp [ht])
    · simpa using hnodup
    · intro t ht
      rw [List.filter_append]
      rcases List.mem_append.mp ht with ht | ht
      · have hne := hother t (by simp [ht])
        rw [h.segments_eq t (by simp [ht])]
        simp [Ne.symm hne]
      · rcases List.mem_cons.mp ht with rfl | ht
        · change s.segments ++ [path] = _
          rw [h.segments_eq s hs]
          simp [hgroup]
        · have hne := hother t (by simp [ht])
          rw [h.segments_eq t (by simp [ht])]
          simp [Ne.symm hne]
    · have hp := h.perm
      simp only [List.flatMap_append, List.flatMap_cons] at hp ⊢
      calc (before.flatMap (·.segments) ++ ((s.segments ++ [path]) ++ after.flatMap (·.segments)))
        _ |>.Perm (before.flatMap (·.segments) ++
              (s.segments ++ after.flatMap (·.segments)) ++ [path]) := by
            simp only [List.append_assoc]
            apply List.Perm.append_left
            apply List.Perm.append_left
            exact List.perm_append_comm
        _ |>.Perm (paths ++ [path]) := hp.append_right _
  · rw [addSourceSegment_of_notMem hmem]
    have hnone : paths.filter (·.file.group == path.file.group) = [] := by
      rw [List.filter_eq_nil_iff]
      intro p hp heq
      have : p.file.group = path.file.group := by simpa using heq
      exact hmem (this ▸ h.mem_group hp)
    refine ⟨?_, ?_, ?_, ?_⟩
    · intro t ht
      rcases List.mem_append.mp ht with ht | ht
      · exact h.fresh t ht
      · rw [List.mem_singleton.mp ht]
    · rw [List.map_append, List.nodup_append]
      refine ⟨h.nodup, by simp, ?_⟩
      intro a ha b hb
      rw [List.map_singleton, List.mem_singleton] at hb
      rintro rfl
      rw [hb] at ha
      exact hmem ha
    · intro t ht
      rw [List.filter_append]
      rcases List.mem_append.mp ht with ht | ht
      · have hne : path.file.group ≠ t.group := by
          intro heq
          rw [heq] at hmem
          exact hmem (List.mem_map_of_mem ht)
        rw [h.segments_eq t ht]
        simp [hne]
      · rw [List.mem_singleton.mp ht, hnone]
        simp
    · rw [List.flatMap_append]
      exact h.perm.append_right [path]

/-- **`iterator_collect_sources`**: one source for each group of the collected paths.
SOURCE: librecorder.c:2196-2230 -/
theorem collected_foldl (paths : List SegmentPath) :
    Collected (paths.foldl addSourceSegment []) paths := by
  have h : ∀ (todo done : List SegmentPath) (sources : List IteratorSource),
      Collected sources done → Collected (todo.foldl addSourceSegment sources) (done ++ todo) := by
    intro todo
    induction todo with
    | nil => intro done sources h; simpa using h
    | cons path rest ih =>
      intro done sources h
      have := ih (done ++ [path]) _ (h.add path)
      rw [List.append_assoc] at this
      exact this
  exact h paths [] [] ⟨by simp, List.nodup_nil, by simp, by simp⟩

end Collected

/-! ## What a source has left -/

/-- A list in the order a direction delivers it. -/
def inDirection (dir : Direction) (l : List StoredEntry) : List StoredEntry :=
  match dir with
  | .forward => l
  | .reverse => l.reverse

/-- What a source still delivers in a direction, the current entry first. -/
def Remaining (dir : Direction) (s : IteratorSource) (l : List StoredEntry) : Prop :=
  (l = [] ∧ sourceCurrent s = none) ∨
    ∃ pre e post, SourceAt s pre (e :: post) ∧
      l = e :: match dir with
        | .forward => post
        | .reverse => pre.reverse

section Remaining

variable {dir : Direction} {s : IteratorSource} {l : List StoredEntry}

/-- The current entry is the first one still to deliver. -/
theorem Remaining.current (h : Remaining dir s l) : sourceCurrent s = l.head? := by
  rcases h with ⟨rfl, hcur⟩ | ⟨pre, e, post, hat, rfl⟩
  · exact hcur
  · obtain ⟨e', rest, heq, hcur⟩ := hat.current
    obtain ⟨rfl, -⟩ := List.cons.inj heq
    exact hcur

/-- **`source_position_edge`** leaves the whole stream to come.
SOURCE: librecorder.c:1863-1875 -/
theorem sourcePositionEdge_remaining (wf : SourceWf s) (hcur : sourceCurrent s = none)
    (dir : Direction) :
    ∃ rc s', sourcePositionEdge none s dir = (rc, s') ∧ 0 ≤ rc ∧ Keeps s s' ∧
      Remaining dir s' (inDirection dir (sourceStream s)) := by
  cases dir with
  | forward =>
    obtain ⟨s', hkeeps, ⟨hnil, heq, hcur'⟩ | ⟨heq, hat⟩⟩ := sourcePositionEdge_forward wf hcur
    · exact ⟨0, s', heq, by omega, hkeeps, .inl ⟨hnil, hcur'⟩⟩
    · obtain ⟨e, rest, hpost, -⟩ := hat.current
      refine ⟨1, s', heq, by omega, hkeeps, .inr ⟨[], e, rest, ?_, hpost⟩⟩
      rw [← hpost]
      exact hat
  | reverse =>
    obtain ⟨s', hkeeps, ⟨hnil, heq, hcur'⟩ | ⟨p, e, hstream, heq, hat⟩⟩ :=
      sourcePositionEdge_reverse wf hcur
    · refine ⟨0, s', heq, by omega, hkeeps, .inl ⟨?_, hcur'⟩⟩
      simp [inDirection, hnil]
    · refine ⟨1, s', heq, by omega, hkeeps, .inr ⟨p, e, [], hat, ?_⟩⟩
      simp [inDirection, hstream]

/-- **`source_advance`** takes the current entry off.
SOURCE: librecorder.c:1877-1915 -/
theorem sourceAdvance_remaining (wf : SourceWf s) {e : StoredEntry}
    (h : Remaining dir s (e :: l)) :
    ∃ rc s', sourceAdvance none s dir = (rc, s') ∧ (rc = 0 ∧ l = [] ∨ rc = 1) ∧ Keeps s s' ∧
      Remaining dir s' l := by
  rcases h with ⟨hnil, -⟩ | ⟨pre, e', post, hat, heq⟩
  · cases hnil
  · obtain ⟨rfl, rfl⟩ := List.cons.inj heq
    cases dir with
    | forward =>
      obtain ⟨s', hkeeps, ⟨hnil, hadv, hentries⟩ | ⟨hadv, hat'⟩⟩ := sourceAdvance_forward wf hat
      · exact ⟨0, s', hadv, .inl ⟨Eq.refl _, hnil⟩, hkeeps,
          .inl ⟨hnil, sourceCurrent_of_entries_nil hentries⟩⟩
      · obtain ⟨e', rest, hpost, -⟩ := hat'.current
        refine ⟨1, s', hadv, .inr (Eq.refl _), hkeeps, .inr ⟨pre ++ [e], e', rest, ?_, hpost⟩⟩
        rw [← hpost]
        exact hat'
    | reverse =>
      obtain ⟨s', hkeeps, ⟨hnil, hadv, hentries⟩ | ⟨p, e', hpre, hadv, hat'⟩⟩ :=
        sourceAdvance_reverse wf hat
      · have hnil' : pre.reverse = [] := by rw [hnil, List.reverse_nil]
        exact ⟨0, s', hadv, .inl ⟨Eq.refl _, hnil'⟩, hkeeps,
          .inl ⟨hnil', sourceCurrent_of_entries_nil hentries⟩⟩
      · refine ⟨1, s', hadv, .inr (Eq.refl _), hkeeps, .inr ⟨p, e', e :: post, hat', ?_⟩⟩
        simp [hpre]

end Remaining

/-! ## The merge between two calls -/

/-- Sources that each deliver one of the lists. -/
def Positioned (dir : Direction) (sources : List IteratorSource) (ls : List (List StoredEntry)) :
    Prop :=
  List.Forall₂ (fun s l => SourceWf s ∧ Remaining dir s l) sources ls

/-- The comparison a direction merges by. -/
def compareDirection (order : Order) (dir : Direction) (a b : StoredEntry) : Ordering :=
  match dir with
  | .forward => compareIteratorEntries order a b
  | .reverse => compareIteratorEntries order b a

instance (order : Order) (dir : Direction) : Std.TransCmp (compareDirection order dir) := by
  cases dir
  · exact inferInstanceAs (Std.TransCmp fun a b => compareIteratorEntries order a b)
  · exact inferInstanceAs (Std.TransCmp fun a b => compareIteratorEntries order b a)

/-- In which order a direction merges. -/
theorem before_eq (order : Order) (dir : Direction) :
    before (compareIteratorEntries order) dir =
      fun a b => compareDirection order dir a b == .lt := by
  funext a b
  cases dir with
  | forward => rfl
  | reverse =>
    simp only [before, compareDirection]
    have hswap : compareIteratorEntries order b a = (compareIteratorEntries order a b).swap :=
      Std.OrientedCmp.eq_swap
    rw [hswap]
    cases compareIteratorEntries order a b <;> rfl

/-- The current entries are the heads of the streams. -/
theorem Positioned.heads {dir : Direction} {sources : List IteratorSource}
    {ls : List (List StoredEntry)} (h : Positioned dir sources ls) :
    sources.map sourceCurrent = ls.map List.head? := by
  induction h with
  | nil => rfl
  | cons hs _ ih => rw [List.map_cons, List.map_cons, hs.2.current, ih]

/-- **`iterator_pick`** finds nothing when all lists are used up, else a least head.
SOURCE: librecorder.c:2246-2259 -/
theorem iteratorPick_of_heads {r : Reader} (dir : Direction) {ls : List (List StoredEntry)}
    (h : r.sources.map sourceCurrent = ls.map List.head?) :
    (iteratorPick r dir = none ∧ ∀ l ∈ ls, l = []) ∨
      ∃ i e rest, iteratorPick r dir = some (i, e) ∧ ls[i]? = some (e :: rest) ∧
        ∀ l ∈ ls, ∀ y ∈ l.head?, (compareDirection r.order dir e y).isLE := by
  unfold iteratorPick
  rw [before_eq, h]
  cases hpick : pickLoop (fun a b => compareDirection r.order dir a b == .lt)
      (ls.map List.head?) 0 none with
  | none =>
    left
    refine ⟨rfl, ?_⟩
    intro l hl
    have := ((pickLoop_eq_none_iff _ _ _ _).mp hpick).2 _ (List.mem_map_of_mem hl)
    exact List.head?_eq_none_iff.mp this
  | some found =>
    right
    obtain ⟨i, e⟩ := found
    obtain ⟨hwhere, -, hmin⟩ := pickLoop_spec _ _ _ _ _ hpick
    obtain ⟨j, rfl, hj⟩ := hwhere.resolve_left (by simp)
    rw [Nat.zero_add]
    rw [List.getElem?_map, Option.map_eq_some_iff] at hj
    obtain ⟨l, hl, hhead⟩ := hj
    obtain ⟨rest, rfl⟩ := List.head?_eq_some_iff.mp hhead
    refine ⟨j, e, rest, rfl, hl, ?_⟩
    intro l' hl' y hy
    apply hmin y
    rw [← Option.mem_def.mp hy]
    exact List.mem_map_of_mem hl'

/-- The iterator picks the first of the heads, or there are none. -/
theorem iteratorPick_spec {r : Reader} {dir : Direction} {ls : List (List StoredEntry)}
    (h : Positioned dir r.sources ls) :
    (iteratorPick r dir = none ∧ ∀ l ∈ ls, l = []) ∨
      ∃ i e rest, iteratorPick r dir = some (i, e) ∧ ls[i]? = some (e :: rest) ∧
        ∀ l ∈ ls, ∀ y ∈ l.head?, (compareDirection r.order dir e y).isLE :=
  iteratorPick_of_heads dir h.heads

/-- The state between two calls: the lists still to come, or those with the delivered
entry still in front of its source. -/
structure Pending (dir : Direction) (r : Reader) (ls : List (List StoredEntry)) : Prop where
  unit : r.unitFilter = none
  direction : r.lastDirection = some dir
  pending : r.cursorPending = false
  sourcesPending : r.cursorSourcesPending = false
  changed : r.orderChanged = false
  lists : (r.currentValid = false ∧ Positioned dir r.sources ls) ∨
    (r.currentValid = true ∧ ∃ i e rest ls0, r.currentSource = some i ∧
      Positioned dir r.sources ls0 ∧ ls0[i]? = some (e :: rest) ∧ ls = ls0.set i rest)

/-- Advancing the current source of a delivered entry. -/
theorem advanceCurrentSource_positioned {dir : Direction} {r : Reader}
    (hunit : r.unitFilter = none) {i : ℕ} {e : StoredEntry} {rest : List StoredEntry}
    {ls : List (List StoredEntry)} (hsource : r.currentSource = some i)
    (hpos : Positioned dir r.sources ls) (hi : ls[i]? = some (e :: rest)) :
    ∃ sources, advanceCurrentSource dir r = (0, { r with sources := sources }) ∧
      Positioned dir sources (ls.set i rest) := by
  obtain ⟨s, hs, wf, hrem⟩ := forall₂_getElem? hpos hi
  obtain ⟨rc, s', hadv, hrc, hkeeps, hrem'⟩ := sourceAdvance_remaining wf hrem
  refine ⟨r.sources.set i s', ?_, forall₂_set hpos ⟨wf.keeps hkeeps, hrem'⟩ i⟩
  simp only [advanceCurrentSource, hsource, Option.bind_some, hs, Option.map_some, hunit, hadv]
  rw [if_neg (by omega)]

/-! ## One call -/

/-- What a call does between two pending states: a step of a merge run, or its end. -/
def CallSteps (dir : Direction) (order : Order) (r : Reader) (ls : List (List StoredEntry))
    (result : Int × Reader) : Prop :=
  (result.1 = 0 ∧ ∀ l ∈ ls, l = []) ∨
    (result.1 = 1 ∧ ∃ i e rest, result.2.currentEntry = some e ∧ ls[i]? = some (e :: rest) ∧
      (∀ l ∈ ls, ∀ y ∈ l.head?, (compareDirection order dir e y).isLE) ∧
      Pending dir result.2 (ls.set i rest) ∧ result.2.follow = r.follow ∧
      result.2.order = r.order)

section Call

variable {store : Store} {r : Reader} {ls : List (List StoredEntry)}

/-- Making a picked entry current leaves the rest of its list to come. -/
theorem setCurrent_pending {dir : Direction} {sources : List IteratorSource} {i : ℕ}
    {e : StoredEntry} {rest : List StoredEntry} (h : Pending dir r ls)
    (hpos : Positioned dir sources ls) (hi : ls[i]? = some (e :: rest)) :
    Pending dir (setCurrent { r with sources := sources } dir i e) (ls.set i rest) :=
  ⟨h.unit, rfl, h.pending, h.sourcesPending, h.changed,
    .inr ⟨rfl, i, e, rest, ls, rfl, hpos, hi, rfl⟩⟩

/-- In front of the pick, the source of the entry delivered before is advanced.
SOURCE: librecorder.c:2786-2812 -/
theorem nextPosition_pending (store : Store) (h : Pending .forward r ls) :
    ∃ sources, nextPosition store r = (0, { r with sources := sources }) ∧
      Positioned .forward sources ls := by
  rcases h.lists with ⟨hvalid, hpos⟩ | ⟨hvalid, i, e, rest, ls0, hsource, hpos, hi, rfl⟩
  · refine ⟨r.sources, ?_, hpos⟩
    change nextPosition store r = (0, r)
    simp [nextPosition, h.pending, h.changed, h.direction, hvalid]
  · obtain ⟨sources, hadv, hpos'⟩ := advanceCurrentSource_positioned h.unit hsource hpos hi
    refine ⟨sources, ?_, hpos'⟩
    simp [nextPosition, h.pending, h.changed, h.sourcesPending, h.direction, hvalid, hadv]

/-- **`rec_player_next`** takes one step of the merge.
SOURCE: librecorder.c:2775-2824 -/
theorem recPlayerNext_step (fault : ScanFault) (h : Pending .forward r ls)
    (hfollow : r.follow.initialized = false) :
    CallSteps .forward r.order r ls (recPlayerNext store fault r) := by
  obtain ⟨sources, hnext, hpos⟩ := nextPosition_pending store h
  have hpick := iteratorPick_spec (r := { r with sources := sources }) hpos
  simp only [recPlayerNext, hfollow, Bool.false_and, Bool.false_eq_true, if_false, hnext]
  rcases hpick with ⟨hnone, hall⟩ | ⟨i, e, rest, hsome, hi, hmin⟩
  · left
    refine ⟨?_, hall⟩
    simp [hnone]
  · right
    rw [if_neg (by simp), hsome]
    exact ⟨rfl, i, e, rest, rfl, hi, hmin, setCurrent_pending h hpos hi, rfl, rfl⟩

/-- In front of the pick, the source of the entry delivered before is advanced.
SOURCE: librecorder.c:2833-2885 -/
theorem previousPosition_pending (store : Store) (h : Pending .reverse r ls) :
    ∃ sources, previousPosition store r = (0, { r with sources := sources }) ∧
      Positioned .reverse sources ls := by
  rcases h.lists with ⟨hvalid, hpos⟩ | ⟨hvalid, i, e, rest, ls0, hsource, hpos, hi, rfl⟩
  · refine ⟨r.sources, ?_, hpos⟩
    change previousPosition store r = (0, r)
    simp [previousPosition, h.pending, h.changed, h.direction, hvalid]
  · obtain ⟨sources, hadv, hpos'⟩ := advanceCurrentSource_positioned h.unit hsource hpos hi
    refine ⟨sources, ?_, hpos'⟩
    simp [previousPosition, h.pending, h.changed, h.direction, hvalid, hadv]

/-- **`rec_player_previous`** takes one step of the merge.
SOURCE: librecorder.c:2826-2896 -/
theorem recPlayerPrevious_step (h : Pending .reverse r ls) :
    CallSteps .reverse r.order r ls (recPlayerPrevious store r) := by
  obtain ⟨sources, hprevious, hpos⟩ := previousPosition_pending store h
  have hpick := iteratorPick_spec (r := { r with sources := sources }) hpos
  simp only [recPlayerPrevious, hprevious]
  rcases hpick with ⟨hnone, hall⟩ | ⟨i, e, rest, hsome, hi, hmin⟩
  · left
    refine ⟨?_, hall⟩
    simp [hnone]
  · right
    rw [if_neg (by simp), hsome]
    exact ⟨rfl, i, e, rest, rfl, hi, hmin, setCurrent_pending h hpos hi, rfl, rfl⟩

end Call

/-! ## Reading to the end -/

/-- Call until the result is 0: the entries delivered on the way. `none` when a call fails
or the fuel is used up. -/
def readAll (call : Reader → Int × Reader) : ℕ → Reader → Option (List StoredEntry)
  | 0, _ => none
  | fuel + 1, r =>
    match call r with
    | (rc, r) =>
      if rc < 0 then none
      else if rc = 0 then some []
      else r.currentEntry.bind fun e => (readAll call fuel r).map (e :: ·)

/-- **Reading to the end is a merge run** when every call is a step of one. -/
theorem readAll_mergeRun_of (cmp : StoredEntry → StoredEntry → Ordering)
    (call : Reader → Int × Reader) (good : Reader → List (List StoredEntry) → Prop)
    (hstep : ∀ r ls, good r ls → ((call r).1 = 0 ∧ ∀ l ∈ ls, l = []) ∨
      ((call r).1 = 1 ∧ ∃ i e rest, (call r).2.currentEntry = some e ∧
        ls[i]? = some (e :: rest) ∧ (∀ l ∈ ls, ∀ y ∈ l.head?, (cmp e y).isLE) ∧
        good (call r).2 (ls.set i rest))) (fuel : ℕ) :
    ∀ r ls, good r ls → ls.flatten.length < fuel →
      ∃ out, readAll call fuel r = some out ∧ MergeRun cmp ls out := by
  induction fuel with
  | zero => intro r ls _ h; omega
  | succ fuel ih =>
    intro r ls hgood hfuel
    rcases hstep r ls hgood with ⟨hrc, hall⟩ | ⟨hrc, i, e, rest, hentry, hi, hmin, hgood'⟩
    · refine ⟨[], ?_, .done ls hall⟩
      simp [readAll, hrc]
    · have hlen := (flatten_set_perm hi).length_eq
      rw [List.length_cons] at hlen
      obtain ⟨out, hout, hrun⟩ := ih _ _ hgood' (by omega)
      refine ⟨e :: out, ?_, .step ls i e rest out hi hmin hrun⟩
      simp [readAll, hrc, hentry, hout]

/-- **Reading to the end is a merge**, by induction on the calls. -/
theorem readAll_mergeRun (dir : Direction) (order : Order) (call : Reader → Int × Reader)
    (good : Reader → Prop)
    (hstep : ∀ r ls, good r → Pending dir r ls → CallSteps dir order r ls (call r))
    (hgood : ∀ r, good r → (call r).2.follow = r.follow → (call r).2.order = r.order →
      good (call r).2) (fuel : ℕ) :
    ∀ r ls, good r → Pending dir r ls → ls.flatten.length < fuel →
      ∃ out, readAll call fuel r = some out ∧ MergeRun (compareDirection order dir) ls out := by
  intro r ls hr hpending
  refine readAll_mergeRun_of (compareDirection order dir) call
    (fun r ls => good r ∧ Pending dir r ls) ?_ fuel r ls ⟨hr, hpending⟩
  rintro r ls ⟨hr, hpending⟩
  rcases hstep r ls hr hpending with
    hdone | ⟨hrc, i, e, rest, hentry, hi, hmin, hpending', hfollow, horder⟩
  · exact .inl hdone
  · exact .inr ⟨hrc, i, e, rest, hentry, hi, hmin, hgood r hr hfollow horder, hpending'⟩

/-! ## The two ends of a store -/

/-- A store whose indexes, where it has them, were written for their segments. -/
def UsableIndexes (store : Store) : Prop := ∀ f ∈ store.files, UsableIndex f

/-- The sources `iterator_collect_sources` makes. -/
def storeSources (store : Store) (filter : List Bytes) : List IteratorSource :=
  (sortPaths (collectSegmentPaths store filter)).foldl addSourceSegment []

/-- The streams of the selected groups. -/
def storeStreams (store : Store) (filter : List Bytes) : List (List StoredEntry) :=
  (storeSources store filter).map sourceStream

/-- The stored entries of the selected groups. -/
def selectedEntries (store : Store) (filter : List Bytes) : List StoredEntry :=
  (store.files.filter fun f => groupAllowed filter f.group).flatMap StoreFile.fileEntries

section Store

variable {store : Store} {filter : List Bytes}

/-- The files collected are those of the selected groups. -/
theorem collectSegmentPaths_map_file :
    (collectSegmentPaths store filter).map (·.file) =
      store.files.filter fun f => groupAllowed filter f.group := by
  unfold collectSegmentPaths addReaderFilePath
  split <;> simp [List.map_map, Function.comp_def]

/-- Sorting loses no segment. -/
theorem sortPaths_perm (paths : List SegmentPath) : (sortPaths paths).Perm paths :=
  List.perm_insertionSort _ _

/-- The sources have the collected segments. -/
theorem storeSources_collected (store : Store) (filter : List Bytes) :
    Collected (storeSources store filter) (sortPaths (collectSegmentPaths store filter)) :=
  collected_foldl _

/-- A path of a source is one of a selected file of the store. -/
theorem mem_files_of_mem_sortPaths {path : SegmentPath}
    (h : path ∈ sortPaths (collectSegmentPaths store filter)) : path.file ∈ store.files := by
  have := List.mem_map_of_mem (f := fun p : SegmentPath => p.file)
    ((sortPaths_perm _).mem_iff.mp h)
  rw [collectSegmentPaths_map_file] at this
  exact (List.mem_filter.mp this).1

/-- The sources of a store with usable indexes are well formed. -/
theorem storeSources_wf (husable : UsableIndexes store) {s : IteratorSource}
    (h : s ∈ storeSources store filter) : SourceWf s := by
  have hsegments := (storeSources_collected _ _).segments_eq s h
  constructor
  · intro path hpath
    rw [hsegments] at hpath
    simpa using (List.mem_filter.mp hpath).2
  · intro path hpath
    rw [hsegments] at hpath
    exact husable _ (mem_files_of_mem_sortPaths (List.mem_filter.mp hpath).1)
  · calc s.segments.length
        ≤ (sortPaths (collectSegmentPaths store filter)).length := by
          rw [hsegments]
          exact List.length_filter_le _ _
      _ = ((collectSegmentPaths store filter).map (·.file)).length := by
          rw [(sortPaths_perm _).length_eq, List.length_map]
      _ ≤ store.files.length := by
          rw [collectSegmentPaths_map_file]
          exact List.length_filter_le _ _
      _ < 2 ^ 63 := store.length_lt

/-- A new source has no current entry. -/
theorem storeSources_current {s : IteratorSource} (h : s ∈ storeSources store filter) :
    sourceCurrent s = none := by
  rw [(storeSources_collected _ _).fresh s h]
  rfl

/-- A segment delivers each of its entries once. -/
theorem segmentStream_perm (f : StoreFile) : (segmentStream f).Perm f.fileEntries := by
  unfold segmentStream
  split
  · exact List.Perm.refl _
  · exact List.perm_insertionSort _ _

/-- The streams hold the stored entries of the selected groups. -/
theorem storeStreams_perm :
    (storeStreams store filter).flatten.Perm (selectedEntries store filter) := by
  calc (storeStreams store filter).flatten
    _ = ((storeSources store filter).flatMap (·.segments)).flatMap
          fun path => segmentStream path.file := by
        rw [storeStreams, ← List.flatMap_def, List.flatMap_assoc]
        rfl
    _ |>.Perm ((collectSegmentPaths store filter).flatMap fun path => segmentStream path.file) :=
        ((storeSources_collected _ _).perm.trans (sortPaths_perm _)).flatMap_right _
    _ |>.Perm ((collectSegmentPaths store filter).flatMap fun path => path.file.fileEntries) :=
        List.Perm.flatMap_left _ fun path _ => segmentStream_perm path.file
    _ = selectedEntries store filter := by
        rw [selectedEntries, ← collectSegmentPaths_map_file, List.flatMap_map]

/-- `forSources`, from sources that each stand in a relation to something. -/
theorem forSources_forall₂ {β : Type} {f : IteratorSource → Int × IteratorSource}
    {P Q : β → IteratorSource → Prop} {xs : List β} {sources : List IteratorSource}
    (h : List.Forall₂ P xs sources)
    (hf : ∀ x s, P x s → ∃ rc s', f s = (rc, s') ∧ 0 ≤ rc ∧ Q x s') :
    ∃ sources', forSources f sources = (true, sources') ∧ List.Forall₂ Q xs sources' := by
  induction h with
  | nil => exact ⟨[], rfl, .nil⟩
  | cons hxs _ ih =>
    obtain ⟨rc, s', hfs, hrc, hQ⟩ := hf _ _ hxs
    obtain ⟨rest', hrest, hforall⟩ := ih
    refine ⟨s' :: rest', ?_, .cons hQ hforall⟩
    simp only [forSources, hfs, hrest]
    rw [if_neg (by omega)]

/-- `iterator_initialize` positions each of the sources. -/
theorem iteratorInitialize_sources {r : Reader} (husable : UsableIndexes store)
    (hunit : r.unitFilter = none) (dir : Direction) :
    ∃ sources, iteratorInitialize store dir r =
        (0, { iteratorReset r with sources := sources, lastDirection := some dir }) ∧
      List.Forall₂ (fun s s' => s ∈ storeSources store r.groupFilter ∧ Keeps s s' ∧
        Remaining dir s' (inDirection dir (sourceStream s)))
        (storeSources store r.groupFilter) sources := by
  have hstart : List.Forall₂ (fun s s' => s ∈ storeSources store r.groupFilter ∧ s' = s)
      (storeSources store r.groupFilter) (storeSources store r.groupFilter) :=
    List.forall₂_same.mpr fun s hs => ⟨hs, rfl⟩
  obtain ⟨sources, heq, hforall⟩ := forSources_forall₂
    (f := fun s => sourcePositionEdge r.unitFilter s dir)
    (Q := fun s s' => s ∈ storeSources store r.groupFilter ∧ Keeps s s' ∧
      Remaining dir s' (inDirection dir (sourceStream s))) hstart (by
      rintro s _ ⟨hs, rfl⟩
      obtain ⟨rc, s', heq, hrc, hkeeps, hrem⟩ :=
        sourcePositionEdge_remaining (storeSources_wf husable hs) (storeSources_current hs) dir
      rw [hunit]
      exact ⟨rc, s', heq, hrc, hs, hkeeps, hrem⟩)
  refine ⟨sources, ?_, hforall⟩
  have hsources : (iteratorCollectSources store r).sources = storeSources store r.groupFilter :=
    rfl
  simp only [iteratorInitialize, hsources]
  rw [show (iteratorCollectSources store r).unitFilter = r.unitFilter from rfl, heq]
  rfl

/-- **`iterator_initialize`** puts every source at the end of its stream that the direction
starts from.
SOURCE: librecorder.c:2232-2244 -/
theorem iteratorInitialize_spec {r : Reader} (husable : UsableIndexes store)
    (hunit : r.unitFilter = none) (dir : Direction) :
    ∃ sources, iteratorInitialize store dir r =
        (0, { iteratorReset r with sources := sources, lastDirection := some dir }) ∧
      Positioned dir sources ((storeStreams store r.groupFilter).map (inDirection dir)) := by
  obtain ⟨sources, heq, hforall⟩ := iteratorInitialize_sources husable hunit dir
  refine ⟨sources, heq, ?_⟩
  have hpos : List.Forall₂ (fun s s' => SourceWf s' ∧
      Remaining dir s' (inDirection dir (sourceStream s)))
      (storeSources store r.groupFilter) sources :=
    hforall.imp fun _ _ h => ⟨(storeSources_wf husable h.1).keeps h.2.1, h.2.2⟩
  rw [storeStreams, List.map_map]
  unfold Positioned
  rw [List.forall₂_map_right_iff]
  exact hpos.flip

end Store

section Ends

variable {store : Store} {r : Reader}

/-- **`rec_player_seek_head`** leaves the streams of the selected groups to come.
SOURCE: librecorder.c:2503-2510 -/
theorem recPlayerSeekHead_pending (husable : UsableIndexes store) (hunit : r.unitFilter = none) :
    ∃ r', recPlayerSeekHead store r = (0, r') ∧
      Pending .forward r' (storeStreams store r.groupFilter) ∧ r'.currentValid = false ∧
      r'.follow = {} ∧ r'.order = r.order ∧ r'.storeId = r.storeId ∧
      r'.groupFilter = r.groupFilter := by
  obtain ⟨sources, heq, hpos⟩ :=
    iteratorInitialize_spec (r := clearEntries r) husable hunit .forward
  have hstreams : (storeStreams store (clearEntries r).groupFilter).map (inDirection .forward) =
      storeStreams store r.groupFilter := List.map_id _
  rw [hstreams] at hpos
  refine ⟨{ iteratorReset (clearEntries r) with
    sources := sources, lastDirection := some .forward, orderChanged := false }, ?_, ?_, rfl, rfl,
    rfl, rfl, rfl⟩
  · simp only [recPlayerSeekHead, heq]
    rfl
  · exact ⟨hunit, rfl, rfl, rfl, rfl, .inl ⟨rfl, hpos⟩⟩

/-- **`rec_player_seek_tail`** leaves the reader without a direction; the sources stand at
the ends of their streams.
SOURCE: librecorder.c:2512-2526 -/
theorem recPlayerSeekTail_spec (husable : UsableIndexes store) (hunit : r.unitFilter = none) :
    ∃ r', recPlayerSeekTail store r = (0, r') ∧
      Pending .reverse { r' with lastDirection := some .reverse }
        ((storeStreams store r.groupFilter).map List.reverse) ∧
      r'.lastDirection = none ∧ r'.currentValid = false ∧ r'.order = r.order ∧
      r'.groupFilter = r.groupFilter ∧
      r'.follow = initializeTailFollow store r.groupFilter {} ∧ r'.current = some 0 ∧
      r'.entries = [] := by
  set r0 : Reader := { clearEntries r with
    follow := initializeTailFollow store (clearEntries r).groupFilter (clearEntries r).follow }
  obtain ⟨sources, heq, hpos⟩ := iteratorInitialize_spec (r := r0) husable hunit .reverse
  have hstreams : (storeStreams store r0.groupFilter).map (inDirection .reverse) =
      (storeStreams store r.groupFilter).map List.reverse := rfl
  rw [hstreams] at hpos
  refine ⟨{ iteratorReset r0 with
    sources := sources, lastDirection := none, current := some 0, orderChanged := false }, ?_, ?_,
    rfl, rfl, rfl, rfl, rfl, rfl, rfl⟩
  · simp only [recPlayerSeekTail]
    rw [show iteratorInitialize store .reverse _ = _ from heq]
    rfl
  · exact ⟨hunit, rfl, rfl, rfl, rfl, .inl ⟨rfl, hpos⟩⟩

/-- The first `rec_player_previous` behind a seek to the tail seeks it once more.
SOURCE: librecorder.c:2877-2882 -/
theorem recPlayerPrevious_fresh {r1 : Reader} {ls : List (List StoredEntry)}
    (hpending : r.cursorPending = false) (hchanged : r.orderChanged = false)
    (hdir : r.lastDirection = none) (hvalid : r.currentValid = false)
    (hseek : recPlayerSeekTail store r = (0, r1))
    (hr1 : Pending .reverse { r1 with lastDirection := some .reverse } ls)
    (hvalid1 : r1.currentValid = false) :
    recPlayerPrevious store r =
      recPlayerPrevious store { r1 with lastDirection := some .reverse } := by
  have hleft : previousPosition store r = (0, { r1 with lastDirection := some .reverse }) := by
    have hchanged1 : r1.orderChanged = false := hr1.changed
    simp [previousPosition, hpending, hchanged, hdir, hvalid, hseek, hchanged1]
  have hright : previousPosition store { r1 with lastDirection := some .reverse } =
      (0, { r1 with lastDirection := some .reverse }) := by
    have hpending1 : r1.cursorPending = false := hr1.pending
    have hchanged1 : r1.orderChanged = false := hr1.changed
    simp [previousPosition, hpending1, hchanged1, hvalid1]
  simp only [recPlayerPrevious, hleft, hright]

/-- **Seek to the head and read on**: a merge run over the streams.
SOURCE: librecorder.c:2503-2510, 2775-2824 -/
theorem readForward_mergeRun (husable : UsableIndexes store) (hunit : r.unitFilter = none)
    (fault : ScanFault) (fuel : ℕ)
    (hfuel : (storeStreams store r.groupFilter).flatten.length < fuel) :
    ∃ r' out, recPlayerSeekHead store r = (0, r') ∧
      readAll (recPlayerNext store fault) fuel r' = some out ∧
      MergeRun (compareIteratorEntries r.order) (storeStreams store r.groupFilter) out := by
  obtain ⟨r', hseek, hpending, -, hfollow, horder, -, -⟩ :=
    recPlayerSeekHead_pending (r := r) husable hunit
  obtain ⟨out, hout, hrun⟩ := readAll_mergeRun .forward r.order (recPlayerNext store fault)
    (fun r0 => r0.follow.initialized = false ∧ r0.order = r.order)
    (by
      rintro r0 ls ⟨hfollow0, horder0⟩ hpending0
      rw [← horder0]
      exact recPlayerNext_step fault hpending0 hfollow0)
    (by
      rintro r0 ⟨hfollow0, horder0⟩ hf ho
      rw [hf, ho]
      exact ⟨hfollow0, horder0⟩)
    fuel r' _ ⟨by rw [hfollow], horder⟩ hpending hfuel
  exact ⟨r', out, hseek, hout, hrun⟩

/-- **Seek to the tail and read back**: a merge run over the reversed streams.
SOURCE: librecorder.c:2512-2526, 2826-2896 -/
theorem readReverse_mergeRun (husable : UsableIndexes store) (hunit : r.unitFilter = none)
    (fuel : ℕ) (hfuel : (storeStreams store r.groupFilter).flatten.length < fuel) :
    ∃ r' out, recPlayerSeekTail store r = (0, r') ∧
      readAll (recPlayerPrevious store) fuel r' = some out ∧
      MergeRun (fun a b => compareIteratorEntries r.order b a)
        ((storeStreams store r.groupFilter).map List.reverse) out := by
  obtain ⟨r', hseek, hpending, hdir, hvalid, horder, hfilter, -⟩ :=
    recPlayerSeekTail_spec (r := r) husable hunit
  obtain ⟨r1, hseek1, hpending1, -, hvalid1, horder1, -⟩ :=
    recPlayerSeekTail_spec (r := r') husable hpending.unit
  rw [hfilter] at hpending1
  have hfresh := recPlayerPrevious_fresh (r := r') hpending.pending hpending.changed hdir hvalid
    hseek1 hpending1 hvalid1
  have hlen : ((storeStreams store r.groupFilter).map List.reverse).flatten.length < fuel := by
    rw [List.length_flatten, List.map_map] at *
    simpa [Function.comp_def] using hfuel
  obtain ⟨out, hout, hrun⟩ := readAll_mergeRun .reverse r.order (recPlayerPrevious store)
    (fun r0 => r0.order = r.order)
    (by
      intro r0 ls horder0 hpending0
      rw [← horder0]
      exact recPlayerPrevious_step hpending0)
    (by
      intro r0 horder0 _ ho
      rw [ho]
      exact horder0)
    fuel { r1 with lastDirection := some .reverse } _ (horder1.trans horder) hpending1 hlen
  refine ⟨r', out, hseek, ?_, hrun⟩
  cases fuel with
  | zero => omega
  | succ fuel =>
    rw [readAll] at hout ⊢
    rw [hfresh]
    exact hout

/-- Reversed streams have the same entries. -/
theorem flatten_map_reverse_perm (ls : List (List StoredEntry)) :
    (ls.map List.reverse).flatten.Perm ls.flatten := by
  induction ls with
  | nil => exact List.Perm.refl _
  | cons l ls ih =>
    rw [List.map_cons, List.flatten_cons, List.flatten_cons]
    exact (List.reverse_perm l).append ih

end Ends

/-- One element is few. -/
theorem length_singleton_lt {α : Type} (a : α) (n : ℕ) : [a].length < 2 ^ (n + 1) :=
  Nat.one_lt_two_pow (Nat.succ_ne_zero n)

/-- Two elements are few. -/
theorem length_pair_lt {α : Type} (a b : α) (n : ℕ) : [a, b].length < 2 ^ (n + 2) := by
  have hpos := Nat.two_pow_pos n
  rw [List.length_cons, List.length_singleton, Nat.pow_add]
  omega

/-- A segment of one frame, with its index or without. -/
def oneFrameSegment (group : Bytes) (seq : UInt64) (boot : UInt32) (entries : List EntryData)
    (h : entries.length < 2 ^ 32) (indexed : Bool) : StoreFile where
  group := group
  nameSeq := seq
  file :=
    { header :=
        { flags := 0, segmentSeq := seq, bootSeq := boot, bootId := [], timezone := []
          firstRealtimeTs := (entries.head?.map (·.realtimeTs)).getD 0
          firstMonotonicTs := (entries.head?.map (·.monotonicTs)).getD 0
          dictLen := 0 }
      frames := [⟨252, entries, h⟩]
      footer := none
      index := if indexed then some [indexRow ⟨252, entries, h⟩] else none
      committedEnd := 1000
      offsets_lt := List.pairwise_singleton _ _
      offset_lt_end := by
        intro frame hframe
        rw [List.mem_singleton.mp hframe]
        change (252 : UInt64) < 1000
        decide
      length_lt := length_singleton_lt _ _ }

/-- A segment of one frame has a usable index or none. -/
theorem oneFrameSegment_usable {group : Bytes} {seq : UInt64} {boot : UInt32}
    {entries : List EntryData} {h : entries.length < 2 ^ 32} {indexed : Bool} :
    UsableIndex (oneFrameSegment group seq boot entries h indexed) := by
  intro rows hrows
  cases indexed with
  | false => cases hrows
  | true => exact (Option.some.inj hrows).symm

/-- Two groups whose clocks run against each other, one of them without index. -/
def mixedStore : Store where
  directory := true
  files :=
    [ oneFrameSegment [97] 1 0 [⟨5, 1, 0, none⟩, ⟨3, 2, 0, none⟩] (by decide) true,
      oneFrameSegment [98] 2 0 [⟨4, 3, 0, none⟩] (by decide) false ]
  length_lt := length_pair_lt _ _ _

/-- The index of the store is usable. -/
theorem mixedStore_usable : UsableIndexes mixedStore := by
  intro f hf
  rcases List.mem_cons.mp hf with rfl | hf
  · exact oneFrameSegment_usable
  · rw [List.mem_singleton.mp hf]
    exact oneFrameSegment_usable

end Recorder.Analysis
