import Mathlib.Data.List.Pairwise
import Mathlib.Data.List.Sort
import Mathlib.Data.List.Perm.Basic
import Mathlib.Tactic.Common

/-!
# Merging sorted and unsorted lists by repeated choice of a least head

A merge run takes the lists it is given apart from their fronts: as long as a list has
elements left, some head that no other head precedes is delivered next (`MergeRun`). What
is delivered does not depend on how the choice is made as long as it is a least head, so
the same results serve a linear search over the heads (`pickLoop`) and a heap.

Whatever the lists look like, a run delivers every element once and keeps the order inside
each list (`MergeRun.perm`, `MergeRun.filter_eq`). It delivers a sorted list when all its
lists are sorted (`MergeRun.sorted`). When elements of different lists do not tie it is
determined by its lists (`MergeRun.unique`).
-/

set_option autoImplicit false

namespace Recorder.Lib

variable {α : Type}

/-! ## Sorted lists -/

/-- Sorted under a comparison. -/
def SortedBy (cmp : α → α → Ordering) (l : List α) : Prop :=
  l.Pairwise fun a b => (cmp a b).isLE

/-- A comparison that tells the elements of a list apart. -/
def Distinguishes (cmp : α → α → Ordering) (l : List α) : Prop :=
  ∀ a ∈ l, ∀ b ∈ l, cmp a b = .eq → a = b

section Sorted

variable {cmp : α → α → Ordering}

theorem isLE_total [Std.OrientedCmp cmp] (a b : α) :
    (cmp a b).isLE = true ∨ (cmp b a).isLE = true := by
  have hswap : cmp b a = (cmp a b).swap := Std.OrientedCmp.eq_swap
  rw [hswap]
  cases cmp a b <;> simp

theorem eq_of_isLE_isLE [Std.OrientedCmp cmp] {l : List α} (h : Distinguishes cmp l) {a b : α}
    (ha : a ∈ l) (hb : b ∈ l) (hab : (cmp a b).isLE) (hba : (cmp b a).isLE) : a = b := by
  apply h a ha b hb
  have hswap : cmp b a = (cmp a b).swap := Std.OrientedCmp.eq_swap
  rw [hswap] at hba
  cases hc : cmp a b <;> simp_all

/-- There is one sorted arrangement of elements the comparison tells apart. -/
theorem SortedBy.eq_of_perm [Std.OrientedCmp cmp] {l₁ l₂ : List α} (h₁ : SortedBy cmp l₁)
    (h₂ : SortedBy cmp l₂) (hd : Distinguishes cmp l₁) (hp : l₁.Perm l₂) : l₁ = l₂ := by
  refine hp.eq_of_pairwise ?_ h₁ h₂
  intro a b ha hb hab hba
  exact eq_of_isLE_isLE hd ha (hp.mem_iff.mpr hb) hab hba

theorem sortedBy_of_strict {l : List α} (h : l.Pairwise fun a b => cmp a b = .lt) :
    SortedBy cmp l :=
  h.imp fun hlt => by rw [hlt]; rfl

/-- A comparison tells the elements of a strictly sorted list apart. -/
theorem distinguishes_of_strict [Std.OrientedCmp cmp] {l : List α}
    (h : l.Pairwise fun a b => cmp a b = .lt) : Distinguishes cmp l := by
  have hne : l.Pairwise fun a b => cmp a b ≠ .eq := by
    refine h.imp ?_
    intro a b hlt heq
    rw [hlt] at heq
    cases heq
  have : Std.Symm fun a b => cmp a b ≠ .eq :=
    ⟨fun _ _ hab hba => hab (Std.OrientedCmp.eq_comm.mp hba)⟩
  intro a ha b hb heq
  by_contra hab
  exact hne.forall ha hb hab heq

/-- Sorting under a comparison. -/
theorem sortedBy_insertionSort [Std.TransCmp cmp] (l : List α) :
    SortedBy cmp (l.insertionSort fun a b => (cmp a b).isLE) := by
  have htotal : Std.Total fun a b : α => ((cmp a b).isLE : Prop) :=
    ⟨fun a b => isLE_total a b⟩
  have htrans : IsTrans α fun a b : α => ((cmp a b).isLE : Prop) :=
    ⟨fun a b c => Std.TransCmp.isLE_trans⟩
  exact List.pairwise_insertionSort (fun a b : α => ((cmp a b).isLE : Prop)) l

/-- A sorted list is left alone by sorting. -/
theorem insertionSort_eq_self [Std.TransCmp cmp] {l : List α} (h : SortedBy cmp l) :
    (l.insertionSort fun a b => (cmp a b).isLE) = l :=
  List.Pairwise.insertionSort_eq h

end Sorted

/-! ## Choosing a least head -/

/-- A linear search for the first least element: `best` is the choice among the elements in
front of position `i`. -/
def pickLoop (less : α → α → Bool) :
    List (Option α) → ℕ → Option (ℕ × α) → Option (ℕ × α)
  | [], _, best => best
  | none :: rest, i, best => pickLoop less rest (i + 1) best
  | some e :: rest, i, best =>
    if best.all (fun b => less e b.2) then pickLoop less rest (i + 1) (some (i, e))
    else pickLoop less rest (i + 1) best

/-- The search finds nothing exactly when there is nothing. -/
theorem pickLoop_eq_none_iff (less : α → α → Bool) (xs : List (Option α)) :
    ∀ i best, pickLoop less xs i best = none ↔ best = none ∧ ∀ x ∈ xs, x = none := by
  induction xs with
  | nil => intro i best; simp [pickLoop]
  | cons x rest ih =>
    intro i best
    cases x with
    | none => simp [pickLoop, ih]
    | some e =>
      simp only [pickLoop]
      split
      · simp [ih]
      · rename_i hbest
        cases best with
        | none => simp at hbest
        | some b => simp [ih]

/-- **What the search finds**: an element at its position that nothing else precedes. -/
theorem pickLoop_spec {cmp : α → α → Ordering} [Std.TransCmp cmp] (xs : List (Option α)) :
    ∀ i best k e, pickLoop (fun a b => cmp a b == .lt) xs i best = some (k, e) →
      (best = some (k, e) ∨ ∃ j, k = i + j ∧ xs[j]? = some (some e)) ∧
      (∀ b, best = some b → (cmp e b.2).isLE) ∧ ∀ x, some x ∈ xs → (cmp e x).isLE := by
  induction xs with
  | nil =>
    intro i best k e h
    obtain rfl : best = some (k, e) := h
    refine ⟨.inl rfl, ?_, by simp⟩
    rintro b hb
    obtain rfl := Option.some.inj hb
    simp [Std.ReflCmp.compare_self]
  | cons x rest ih =>
    intro i best k e h
    cases x with
    | none =>
      obtain ⟨hwhere, hbest, hrest⟩ := ih (i + 1) best k e h
      refine ⟨?_, hbest, by simpa using hrest⟩
      rcases hwhere with hb | ⟨j, rfl, hj⟩
      · exact .inl hb
      · exact .inr ⟨j + 1, by omega, hj⟩
    | some y =>
      simp only [pickLoop] at h
      split at h
      · -- the element replaces the choice so far, which it precedes
        rename_i hless
        obtain ⟨hwhere, hbest, hrest⟩ := ih (i + 1) (some (i, y)) k e h
        have hy : (cmp e y).isLE := hbest (i, y) rfl
        refine ⟨.inr ?_, ?_, ?_⟩
        · rcases hwhere with hb | ⟨j, rfl, hj⟩
          · cases hb
            exact ⟨0, rfl, rfl⟩
          · exact ⟨j + 1, by omega, hj⟩
        · rintro b rfl
          have hyb : cmp y b.2 = .lt := by simpa using hless
          exact Std.TransCmp.isLE_trans hy (by simp [hyb])
        · intro z hz
          rcases List.mem_cons.mp hz with hz | hz
          · cases hz
            exact hy
          · exact hrest z hz
      · rename_i hless
        obtain ⟨hwhere, hbest, hrest⟩ := ih (i + 1) best k e h
        refine ⟨?_, hbest, ?_⟩
        · rcases hwhere with hb | ⟨j, rfl, hj⟩
          · exact .inl hb
          · exact .inr ⟨j + 1, by omega, hj⟩
        · intro z hz
          rcases List.mem_cons.mp hz with hz | hz
          · cases hz
            -- the choice so far stays because the element does not precede it
            cases best with
            | none => simp at hless
            | some b =>
              have hnot : cmp y b.2 ≠ .lt := by simpa using hless
              have hle : (cmp b.2 y).isLE := by
                have hswap : cmp b.2 y = (cmp y b.2).swap := Std.OrientedCmp.eq_swap
                rw [hswap]
                cases hc : cmp y b.2 <;> simp_all
              exact Std.TransCmp.isLE_trans (hbest b rfl) hle
          · exact hrest z hz

/-! ## Lists side by side -/

section Forall₂

variable {β γ : Type} {R : β → γ → Prop} {bs : List β} {cs : List γ}

theorem forall₂_set (h : List.Forall₂ R bs cs) {b : β} {c : γ} (hbc : R b c) (i : ℕ) :
    List.Forall₂ R (bs.set i b) (cs.set i c) := by
  induction h generalizing i with
  | nil => exact .nil
  | cons h0 hrest ih =>
    cases i with
    | zero => exact .cons hbc hrest
    | succ i => exact .cons h0 (ih i)

theorem forall₂_trans {δ : Type} {S : γ → δ → Prop} {T : β → δ → Prop} {ds : List δ}
    (h : List.Forall₂ R bs cs) (h' : List.Forall₂ S cs ds)
    (htrans : ∀ b c d, R b c → S c d → T b d) : List.Forall₂ T bs ds := by
  induction h generalizing ds with
  | nil =>
    cases h'
    exact .nil
  | cons hbc _ ih =>
    cases h' with
    | cons hcd hrest => exact .cons (htrans _ _ _ hbc hcd) (ih hrest)

theorem forall₂_getElem? (h : List.Forall₂ R bs cs) {i : ℕ} {c : γ} (hc : cs[i]? = some c) :
    ∃ b, bs[i]? = some b ∧ R b c := by
  induction h generalizing i with
  | nil => simp at hc
  | cons h0 _ ih =>
    cases i with
    | zero =>
      obtain rfl := Option.some.inj hc
      exact ⟨_, rfl, h0⟩
    | succ i => exact ih hc

end Forall₂

/-! ## Merge runs -/

/-- A run of a merge over lists: what it delivers until every list is used up. -/
inductive MergeRun (cmp : α → α → Ordering) : List (List α) → List α → Prop
  | done (ls : List (List α)) (h : ∀ l ∈ ls, l = []) : MergeRun cmp ls []
  | step (ls : List (List α)) (i : ℕ) (x : α) (rest out : List α)
      (hi : ls[i]? = some (x :: rest)) (hmin : ∀ l ∈ ls, ∀ y ∈ l.head?, (cmp x y).isLE)
      (hrun : MergeRun cmp (ls.set i rest) out) : MergeRun cmp ls (x :: out)

variable {cmp : α → α → Ordering}

theorem flatten_set_perm {ls : List (List α)} {i : ℕ} {x : α} {rest : List α}
    (h : ls[i]? = some (x :: rest)) : ls.flatten.Perm (x :: (ls.set i rest).flatten) := by
  induction ls generalizing i with
  | nil => simp at h
  | cons l ls ih =>
    cases i with
    | zero =>
      obtain rfl : l = x :: rest := by simpa using h
      simp
    | succ i =>
      simp only [List.getElem?_cons_succ] at h
      simp only [List.set_cons_succ, List.flatten_cons]
      calc (l ++ ls.flatten).Perm (l ++ x :: (ls.set i rest).flatten) := (ih h).append_left l
        _ |>.Perm (x :: (l ++ (ls.set i rest).flatten)) := List.perm_middle

/-- **Complete and free of duplicates**: a run delivers each element of its lists once. -/
theorem MergeRun.perm {ls : List (List α)} {out : List α} (h : MergeRun cmp ls out) :
    out.Perm ls.flatten := by
  induction h with
  | done ls h => rw [List.flatten_eq_nil_iff.mpr h]
  | step ls i x rest out hi _ _ ih =>
    exact (ih.cons x).trans (flatten_set_perm hi).symm

/-- **The order inside a list is kept**: picking the elements of one list out of a run
yields the list. -/
theorem MergeRun.filter_eq {ls : List (List α)} {out : List α} (h : MergeRun cmp ls out)
    (p : α → Bool) (k : ℕ) :
    ∀ l, ls[k]? = some l → (∀ a ∈ l, p a) →
      (∀ j l', j ≠ k → ls[j]? = some l' → ∀ a ∈ l', p a = false) → out.filter p = l := by
  induction h with
  | done ls h =>
    intro l hl _ _
    rw [h l (List.mem_of_getElem? hl)]
    rfl
  | step ls i x rest out hi _ _ ih =>
    intro l hl hp hother
    by_cases hik : i = k
    · subst hik
      obtain rfl : l = x :: rest := by rw [hi] at hl; exact (Option.some.inj hl).symm
      have hlt : i < ls.length := by
        by_contra hge
        rw [List.getElem?_eq_none (by omega)] at hi
        cases hi
      rw [List.filter_cons_of_pos (hp x (by simp))]
      congr 1
      refine ih rest (List.getElem?_set_self hlt) (fun a ha => hp a (by simp [ha])) ?_
      intro j l' hj hl' a ha
      rw [List.getElem?_set_ne (Ne.symm hj)] at hl'
      exact hother j l' hj hl' a ha
    · have hx : p x = false := hother i _ hik hi x (by simp)
      rw [List.filter_cons_of_neg (by simp [hx])]
      refine ih l (by rw [List.getElem?_set_ne hik]; exact hl) hp ?_
      intro j l' hj hl' a ha
      by_cases hji : j = i
      · subst hji
        by_cases hlt : j < ls.length
        · rw [List.getElem?_set_self hlt] at hl'
          obtain rfl := Option.some.inj hl'
          exact hother j _ hj hi a (by simp [ha])
        · rw [List.getElem?_eq_none (by simp; omega)] at hl'
          cases hl'
      · rw [List.getElem?_set_ne (Ne.symm hji)] at hl'
        exact hother j l' hj hl' a ha

/-- **A merge of sorted lists is sorted.** -/
theorem MergeRun.sorted [Std.TransCmp cmp] {ls : List (List α)} {out : List α}
    (h : MergeRun cmp ls out) : (∀ l ∈ ls, SortedBy cmp l) → SortedBy cmp out := by
  induction h with
  | done ls h => intro _; exact List.Pairwise.nil
  | step ls i x rest out hi hmin hrun ih =>
    intro hs
    have hmem : x :: rest ∈ ls := List.mem_of_getElem? hi
    have hrest : SortedBy cmp rest := (List.pairwise_cons.mp (hs _ hmem)).2
    have hset : ∀ l ∈ ls.set i rest, SortedBy cmp l := by
      intro l hl
      rcases List.mem_or_eq_of_mem_set hl with hl | rfl
      · exact hs l hl
      · exact hrest
    refine List.pairwise_cons.mpr ⟨?_, ih hset⟩
    intro y hy
    -- everything still to come stands behind a head that `x` does not exceed
    obtain ⟨l, hl, hyl⟩ := List.mem_flatten.mp (hrun.perm.mem_iff.mp hy)
    rcases List.mem_or_eq_of_mem_set hl with hl | rfl
    · cases hc : l with
      | nil => rw [hc] at hyl; cases hyl
      | cons z tail =>
        have hz : (cmp x z).isLE := hmin l hl z (by simp [hc])
        rw [hc] at hyl
        rcases List.mem_cons.mp hyl with rfl | hyt
        · exact hz
        · have hsorted := hs l hl
          rw [hc] at hsorted
          exact Std.TransCmp.isLE_trans hz ((List.pairwise_cons.mp hsorted).1 y hyt)
    · exact (List.pairwise_cons.mp (hs _ hmem)).1 y hyl

/-- Lists whose elements do not tie with elements of another list. -/
def Separated (cmp : α → α → Ordering) (ls : List (List α)) : Prop :=
  ls.Pairwise fun l l' => ∀ a ∈ l, ∀ b ∈ l', cmp a b ≠ .eq

theorem Separated.set {ls : List (List α)} (h : Separated cmp ls) {i : ℕ} {x : α}
    {rest : List α} (hi : ls[i]? = some (x :: rest)) : Separated cmp (ls.set i rest) := by
  unfold Separated at *
  induction ls generalizing i with
  | nil => exact h
  | cons l ls ih =>
    obtain ⟨hl, hls⟩ := List.pairwise_cons.mp h
    cases i with
    | zero =>
      obtain rfl : l = x :: rest := by simpa using hi
      refine List.pairwise_cons.mpr ⟨?_, hls⟩
      intro l' hl' a ha
      exact hl l' hl' a (List.mem_cons_of_mem x ha)
    | succ i =>
      simp only [List.getElem?_cons_succ] at hi
      refine List.pairwise_cons.mpr ⟨?_, ih hls hi⟩
      intro l' hl' a ha b hb
      rcases List.mem_or_eq_of_mem_set hl' with hl' | rfl
      · exact hl l' hl' a ha b hb
      · exact hl _ (List.mem_of_getElem? hi) a ha b (List.mem_cons_of_mem x hb)

/-- Elements that tie stand in the same list. -/
theorem Separated.index_eq [Std.OrientedCmp cmp] {ls : List (List α)} (h : Separated cmp ls)
    {i j : ℕ} {x y : α} {r r' : List α} (hi : ls[i]? = some (x :: r))
    (hj : ls[j]? = some (y :: r')) (hxy : cmp x y = .eq) : i = j := by
  obtain ⟨hilt, hi⟩ := List.getElem?_eq_some_iff.mp hi
  obtain ⟨hjlt, hj⟩ := List.getElem?_eq_some_iff.mp hj
  have hsep := List.pairwise_iff_getElem.mp h
  rcases Nat.lt_trichotomy i j with hlt | heq | hgt
  · have := hsep i j hilt hjlt hlt
    rw [hi, hj] at this
    exact absurd hxy (this x (by simp) y (by simp))
  · exact heq
  · have := hsep j i hjlt hilt hgt
    rw [hi, hj] at this
    exact absurd (Std.OrientedCmp.eq_comm.mp hxy) (this y (by simp) x (by simp))

/-- **A run is determined by its lists** when elements of different lists do not tie. -/
theorem MergeRun.unique [Std.OrientedCmp cmp] {ls : List (List α)} {out₁ out₂ : List α}
    (h₁ : MergeRun cmp ls out₁) :
    MergeRun cmp ls out₂ → Separated cmp ls → out₁ = out₂ := by
  induction h₁ generalizing out₂ with
  | done ls h =>
    intro h₂ _
    have hp := h₂.perm
    rw [List.flatten_eq_nil_iff.mpr h] at hp
    exact hp.eq_nil.symm
  | step ls i x rest out hi hmin _ ih =>
    intro h₂ hsep
    cases h₂ with
    | done _ h => cases h _ (List.mem_of_getElem? hi)
    | step _ j y rest' out' hj hmin' hrun' =>
      -- neither head precedes the other, so they tie
      have hxy := hmin _ (List.mem_of_getElem? hj) y (by simp)
      have hyx := hmin' _ (List.mem_of_getElem? hi) x (by simp)
      have htie : cmp x y = .eq := by
        have hswap : cmp y x = (cmp x y).swap := Std.OrientedCmp.eq_swap
        rw [hswap] at hyx
        cases hc : cmp x y <;> simp_all
      obtain rfl : i = j := hsep.index_eq hi hj htie
      rw [hi, Option.some.injEq, List.cons.injEq] at hj
      obtain ⟨rfl, rfl⟩ := hj
      rw [ih hrun' (hsep.set hi)]

end Recorder.Lib
