import Recorder.Analysis.UnitStream
import Recorder.Model.Wallclock

/-!
# The wallclock scan is a merge run

The heap of `rec_player_scan_wallclock` holds exactly the sources that have an entry left
and keeps one with a least current entry in front (`HeapState`). Preparing the sources
establishes this (`wallclockPrepare_spec`), one turn of the last loop delivers that entry
and restores it (`HeapState.advance`), so the callback sees a merge run over what the
sources deliver (`wallclockLoop_mergeRun`).
-/

set_option autoImplicit false

namespace Recorder.Analysis

open Recorder.Model Recorder.Lib

variable {unit : Option Bytes}

/-! ## The heap of sources -/

/-- The current entry of a source by its number. -/
def currentOf (sources : List IteratorSource) (i : ℕ) : Option StoredEntry :=
  (sources[i]?).bind sourceCurrent

/-- The comparison of the heap is that of the current entries. -/
theorem wallclockHeapLess_eq {sources : List IteratorSource} {i j : ℕ} {a b : StoredEntry}
    (hi : currentOf sources i = some a) (hj : currentOf sources j = some b) :
    wallclockHeapLess sources i j = (compareStoredEntries a b == .lt) := by
  unfold currentOf at hi hj
  simp only [wallclockHeapLess, hi, hj]

/-- It looks at the current entries of the two sources only. -/
theorem wallclockHeapLess_congr {sources sources' : List IteratorSource} {i j : ℕ}
    (hi : currentOf sources' i = currentOf sources i)
    (hj : currentOf sources' j = currentOf sources j) :
    wallclockHeapLess sources' i j = wallclockHeapLess sources i j := by
  unfold currentOf at hi hj
  simp only [wallclockHeapLess, hi, hj]

/-- What is not smaller is at least as large. -/
theorem not_lt_iff_isLE {a b : StoredEntry} :
    (compareStoredEntries a b == .lt) = false ↔ (compareStoredEntries b a).isLE := by
  have hswap : compareStoredEntries b a = (compareStoredEntries a b).swap :=
    Std.OrientedCmp.eq_swap
  rw [hswap]
  cases compareStoredEntries a b <;> simp

/-- Sources with a current entry are ordered by it. -/
theorem wallclockHeapLess_weakOrder (sources : List IteratorSource) :
    WeakOrder (wallclockHeapLess sources) fun i => ∃ e, currentOf sources i = some e := by
  constructor
  · rintro i j ⟨a, ha⟩ ⟨b, hb⟩ h
    rw [wallclockHeapLess_eq ha hb, beq_iff_eq] at h
    rw [wallclockHeapLess_eq hb ha, not_lt_iff_isLE, h]
    rfl
  · rintro i j k ⟨a, ha⟩ ⟨b, hb⟩ ⟨c, hc⟩ h h'
    rw [wallclockHeapLess_eq hb ha, not_lt_iff_isLE] at h
    rw [wallclockHeapLess_eq hc hb, not_lt_iff_isLE] at h'
    rw [wallclockHeapLess_eq hc ha, not_lt_iff_isLE]
    exact Std.TransCmp.isLE_trans h h'

/-- The state of the scan: what each source has left, and a heap of the sources that have
something left. -/
structure HeapState (unit : Option Bytes) (sources : List IteratorSource)
    (ls : List (List StoredEntry))
    (heap : List ℕ) : Prop where
  delivers : List.Forall₂ (Delivers unit) sources ls
  nodup : heap.Nodup
  mem_iff : ∀ i, i ∈ heap ↔ ∃ x rest, ls[i]? = some (x :: rest)
  isHeap : IsHeap (wallclockHeapLess sources) heap

/-- The current entry of a source is the first one it is still to deliver. -/
theorem currentOf_eq {sources : List IteratorSource} {ls : List (List StoredEntry)}
    (h : List.Forall₂ (Delivers unit) sources ls) (i : ℕ) :
    currentOf sources i = (ls[i]?).bind List.head? := by
  unfold currentOf
  induction h generalizing i with
  | nil => rfl
  | cons hs _ ih =>
    cases i with
    | zero => exact hs.current
    | succ i => exact ih i

/-- Every source in the heap has a current entry. -/
theorem HeapState.valid {sources : List IteratorSource} {ls : List (List StoredEntry)}
    {heap : List ℕ} (h : HeapState unit sources ls heap) :
    ∀ i ∈ heap, ∃ e, currentOf sources i = some e := by
  intro i hi
  obtain ⟨x, rest, hl⟩ := (h.mem_iff i).mp hi
  refine ⟨x, ?_⟩
  rw [currentOf_eq h.delivers, hl]
  rfl

/-- Moving one source leaves the current entries of the others. -/
theorem currentOf_set_ne {sources : List IteratorSource} {i j : ℕ} (s : IteratorSource)
    (h : j ≠ i) : currentOf (sources.set i s) j = currentOf sources j := by
  unfold currentOf
  rw [List.getElem?_set_ne (Ne.symm h)]

/-- Nothing precedes the current entry of the root. -/
theorem HeapState.root_least {sources : List IteratorSource} {ls : List (List StoredEntry)}
    {i : ℕ} {hs : List ℕ} (h : HeapState unit sources ls (i :: hs)) {x : StoredEntry}
    {rest : List StoredEntry} (hi : ls[i]? = some (x :: rest)) :
    ∀ l ∈ ls, ∀ y ∈ l.head?, (compareStoredEntries x y).isLE := by
  intro l hl y hy
  obtain ⟨rest', rfl⟩ := List.head?_eq_some_iff.mp (Option.mem_def.mp hy)
  obtain ⟨j, hj⟩ := List.getElem?_of_mem hl
  obtain ⟨k, hk⟩ := List.getElem?_of_mem ((h.mem_iff j).mpr ⟨y, rest', hj⟩)
  have hless := h.isHeap.root_le (wallclockHeapLess_weakOrder sources) h.valid rfl k j hk
  have hci : currentOf sources i = some x := by
    rw [currentOf_eq h.delivers, hi]
    rfl
  have hcj : currentOf sources j = some y := by
    rw [currentOf_eq h.delivers, hj]
    rfl
  rw [wallclockHeapLess_eq hcj hci, not_lt_iff_isLE] at hless
  exact hless

/-- A heap of one source is empty without it. -/
theorem dropRoot_singleton (i : ℕ) : dropRoot [i] = [] := rfl

/-- The last source takes the place of the root. -/
theorem dropRoot_append (i last : ℕ) (hs : List ℕ) :
    dropRoot (i :: (hs ++ [last])) = last :: hs := by
  have hlast : (i :: (hs ++ [last])).getLast? = some last := by
    rw [← List.cons_append, List.getLast?_append]
    rfl
  have hdrop : (i :: (hs ++ [last])).dropLast = i :: hs := by
    rw [← List.cons_append, List.dropLast_concat]
  simp only [dropRoot, hlast, hdrop, List.set_cons_zero]

/-- The heap after the root's source was advanced, before it is sifted.
SOURCE: librecorder.c:1355-1357 -/
def heapAfter (i : ℕ) (hs : List ℕ) (rest : List StoredEntry) : List ℕ :=
  if rest = [] then dropRoot (i :: hs) else i :: hs

section After

variable {i : ℕ} {hs : List ℕ} {rest : List StoredEntry}

/-- Behind an entry the heap has its source again, unless that is exhausted. -/
theorem heapAfter_perm : (heapAfter i hs rest).Perm (if rest = [] then hs else i :: hs) := by
  unfold heapAfter
  split
  · rcases List.eq_nil_or_concat hs with rfl | ⟨hs', last, rfl⟩
    · exact List.Perm.refl _
    · rw [List.concat_eq_append, dropRoot_append]
      exact (List.perm_append_singleton last hs').symm
  · exact List.Perm.refl _

/-- Behind the root nothing has moved. -/
theorem heapAfter_getElem? {k x : ℕ} (hk : 0 < k) (h : (heapAfter i hs rest)[k]? = some x) :
    (i :: hs)[k]? = some x := by
  unfold heapAfter at h
  split at h
  · rcases List.eq_nil_or_concat hs with rfl | ⟨hs', last, rfl⟩
    · rw [dropRoot_singleton] at h
      simp at h
    · rw [List.concat_eq_append, dropRoot_append] at h
      rw [List.concat_eq_append]
      cases k with
      | zero => omega
      | succ k =>
        rw [List.getElem?_cons_succ] at h ⊢
        rw [List.getElem?_append_left (List.getElem?_eq_some_iff.mp h).1]
        exact h
  · exact h

end After

/-- **One turn of the heap loop**: the source of the root is advanced, leaves the heap if
it has nothing left, and the root is sifted down.
SOURCE: librecorder.c:1352-1360 -/
theorem HeapState.advance {sources : List IteratorSource} {ls : List (List StoredEntry)} {i : ℕ}
    {hs : List ℕ} (h : HeapState unit sources ls (i :: hs)) {x : StoredEntry}
    {rest : List StoredEntry}
    (hi : ls[i]? = some (x :: rest)) {s' : IteratorSource} (hs' : Delivers unit s' rest) :
    HeapState unit (sources.set i s') (ls.set i rest)
      (if heapAfter i hs rest ≠ [] then
        wallclockHeapSiftDown (sources.set i s') (heapAfter i hs rest) 0
      else heapAfter i hs rest) := by
  set heap := heapAfter i hs rest with hheap
  have hilt : i < ls.length := (List.getElem?_eq_some_iff.mp hi).1
  obtain ⟨hinot, hnodup⟩ := List.nodup_cons.mp h.nodup
  have hdelivers : List.Forall₂ (Delivers unit) (sources.set i s') (ls.set i rest) :=
    forall₂_set h.delivers hs' i
  have hperm : heap.Perm (if rest = [] then hs else i :: hs) := heapAfter_perm
  have hmem : ∀ j, j ∈ heap ↔ ∃ y tail, (ls.set i rest)[j]? = some (y :: tail) := by
    intro j
    rw [hperm.mem_iff]
    by_cases hji : j = i
    · subst hji
      rw [List.getElem?_set_self hilt]
      by_cases hrest : rest = []
      · simp [hrest, hinot]
      · simp only [hrest, if_false, List.mem_cons, true_or, true_iff, Option.some.injEq]
        exact List.exists_cons_of_ne_nil hrest
    · rw [List.getElem?_set_ne (Ne.symm hji), ← h.mem_iff j]
      by_cases hrest : rest = [] <;> simp [hrest, hji]
  have hnodup' : heap.Nodup := by
    rw [hperm.nodup_iff]
    by_cases hrest : rest = []
    · rw [if_pos hrest]
      exact hnodup
    · rw [if_neg hrest]
      exact h.nodup
  have hvalid : ∀ j ∈ heap, ∃ e, currentOf (sources.set i s') j = some e := by
    intro j hj
    obtain ⟨y, tail, hl⟩ := (hmem j).mp hj
    refine ⟨y, ?_⟩
    rw [currentOf_eq hdelivers, hl]
    rfl
  -- pairs below the root are pairs of the old heap, and of sources that did not move
  have hoff : ∀ j x y, 0 < (j - 1) / 2 → heap[(j - 1) / 2]? = some x → heap[j]? = some y →
      wallclockHeapLess (sources.set i s') y x = false := by
    intro j a b hpos ha hb
    have ha' := heapAfter_getElem? hpos ha
    have hb' := heapAfter_getElem? (by omega) hb
    have hne : ∀ k c, 0 < k → (i :: hs)[k]? = some c → c ≠ i := by
      intro k c hk hc
      cases k with
      | zero => omega
      | succ k =>
        rw [List.getElem?_cons_succ] at hc
        rintro rfl
        exact hinot (List.mem_of_getElem? hc)
    rw [wallclockHeapLess_congr (currentOf_set_ne s' (hne j b (by omega) hb'))
      (currentOf_set_ne s' (hne _ a hpos ha'))]
    exact h.isHeap j a b (by omega) ha' hb'
  by_cases hnil : heap = []
  · rw [if_neg (by simpa using hnil)]
    refine ⟨hdelivers, hnodup', hmem, ?_⟩
    rw [hnil]
    intro j x y _ hx
    simp at hx
  · rw [if_pos hnil]
    unfold wallclockHeapSiftDown
    have hsift := siftDown_perm (wallclockHeapLess (sources.set i s')) heap.length heap 0
    refine ⟨hdelivers, hsift.nodup_iff.mpr hnodup', ?_, ?_⟩
    · intro j
      rw [hsift.mem_iff]
      exact hmem j
    · exact siftDown_root_isHeap (wallclockHeapLess_weakOrder _) hvalid hnil hoff

/-- **The wallclock scan is a merge run.**
SOURCE: librecorder.c:1351-1361 -/
theorem wallclockLoop_mergeRun (fuel : ℕ) :
    ∀ (sources : List IteratorSource) (ls : List (List StoredEntry)) (heap : List ℕ),
      HeapState unit sources ls heap → ls.flatten.length < fuel →
      ∃ out, wallclockLoop unit fuel sources heap = (0, out) ∧
        MergeRun compareStoredEntries ls out := by
  induction fuel with
  | zero => intro sources ls heap _ hfuel; omega
  | succ fuel ih =>
    intro sources ls heap h hfuel
    cases heap with
    | nil =>
      refine ⟨[], rfl, .done ls ?_⟩
      intro l hl
      obtain ⟨i, hi⟩ := List.getElem?_of_mem hl
      cases l with
      | nil => rfl
      | cons x rest =>
        have := (h.mem_iff i).mpr ⟨x, rest, hi⟩
        cases this
    | cons i hs =>
      obtain ⟨x, rest, hi⟩ := (h.mem_iff i).mp (by simp)
      obtain ⟨s, hsource, hcur, rc, s', hadv, hrc, hs'⟩ := forall₂_getElem? h.delivers hi
      have hlen := (flatten_set_perm hi).length_eq
      rw [List.length_cons] at hlen
      obtain ⟨out, hout, hrun⟩ := ih _ _ _ (h.advance hi hs') (by omega)
      refine ⟨x :: out, ?_, .step ls i x rest out hi (h.root_least hi) hrun⟩
      have hafter : (if (sourceCurrent s').isNone then dropRoot (i :: hs) else i :: hs) =
          heapAfter i hs rest := by
        rw [hs'.current, heapAfter]
        cases rest <;> rfl
      simp only [wallclockLoop, hsource, Option.bind_some, hcur, hadv, hafter]
      rw [if_neg (by omega), hout]

end Recorder.Analysis
