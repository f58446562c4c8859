import Recorder.Lib.Merge
import Mathlib.Data.List.TakeWhile

/-!
# A cursor over a sorted list

A cursor stands on an element of a list or in a gap between two of them. It is kept as a
zipper: what lies behind it, nearest first, the element it stands on, and what lies ahead
(`ListCursor`). The moves never change the list (`entries_next`, `entries_previous`).

In a strictly sorted list the part ahead of an element is what compares greater and the part
behind it is what compares less (`ListCursor.filter_gt`, `ListCursor.filter_lt`), so a
cursor can be set up again anywhere from its element alone. Lists that together hold the
part ahead deliver it by repeated choice of a least head (`eq_cons_of_least`).
-/

set_option autoImplicit false

namespace Recorder.Lib

variable {α : Type}

/-! ## Strictly sorted lists -/

/-- Strictly sorted under a comparison. -/
def StrictBy (cmp : α → α → Ordering) (l : List α) : Prop :=
  l.Pairwise fun a b => cmp a b = .lt

section Strict

variable {cmp : α → α → Ordering}

theorem StrictBy.sortedBy {l : List α} (h : StrictBy cmp l) : SortedBy cmp l :=
  h.imp fun hlt => by rw [hlt]; rfl

/-- A sorted list without ties is strictly sorted. -/
theorem SortedBy.strictBy {l : List α} (h : SortedBy cmp l)
    (hne : l.Pairwise fun a b => cmp a b ≠ .eq) : StrictBy cmp l := by
  refine (h.and hne).imp ?_
  rintro a b ⟨hle, htie⟩
  cases hc : cmp a b with
  | lt => rfl
  | eq => exact absurd hc htie
  | gt => rw [hc] at hle; cases hle

/-- Turned round, a strictly sorted list is strictly sorted the other way. -/
theorem StrictBy.reverse {l : List α} (h : StrictBy cmp l) :
    StrictBy (fun a b => cmp b a) l.reverse :=
  List.pairwise_reverse.mpr h

/-- A property that holds in front of wherever it holds is cut off by `dropWhile`. -/
theorem dropWhile_eq_filter {p : α → Bool} {l : List α}
    (h : l.Pairwise fun a b => p b = true → p a = true) :
    l.dropWhile p = l.filter fun a => !p a := by
  induction l with
  | nil => rfl
  | cons a l ih =>
    obtain ⟨ha, hl⟩ := List.pairwise_cons.mp h
    cases hp : p a with
    | true =>
      rw [List.dropWhile_cons_of_pos hp, List.filter_cons_of_neg (by simp [hp]), ih hl]
    | false =>
      rw [List.dropWhile_cons_of_neg (by simp [hp]), List.filter_cons_of_pos (by simp [hp])]
      congr 1
      refine (List.filter_eq_self.mpr ?_).symm
      intro b hb
      cases hpb : p b with
      | true => rw [ha b hb hpb] at hp; cases hp
      | false => rfl

/-- A property that holds in front of wherever it holds is kept by `takeWhile`. -/
theorem takeWhile_eq_filter {p : α → Bool} {l : List α}
    (h : l.Pairwise fun a b => p b = true → p a = true) :
    l.takeWhile p = l.filter p := by
  have hdrop := dropWhile_eq_filter h
  have hsplit := List.takeWhile_append_dropWhile (p := p) (l := l)
  have htake : (l.takeWhile p).filter p = l.takeWhile p :=
    List.filter_eq_self.mpr fun a ha => List.mem_takeWhile_imp ha
  have hrest : (l.dropWhile p).filter p = [] := by
    rw [hdrop, List.filter_filter]
    simp
  calc l.takeWhile p = (l.takeWhile p).filter p ++ (l.dropWhile p).filter p := by
        rw [htake, hrest, List.append_nil]
    _ = l.filter p := by rw [← List.filter_append, hsplit]

section Bounds

variable [Std.TransCmp cmp] {l : List α}

/-- Behind what does not exceed a key lies what exceeds it. -/
theorem SortedBy.dropWhile_le (h : SortedBy cmp l) (key : α) :
    l.dropWhile (fun a => (cmp a key).isLE) = l.filter fun a => cmp a key == .gt := by
  rw [dropWhile_eq_filter (h.imp fun hab hb => Std.TransCmp.isLE_trans hab hb)]
  congr 1
  funext a
  cases cmp a key <;> rfl

/-- In front of a key lies what is less. -/
theorem SortedBy.takeWhile_lt (h : SortedBy cmp l) (key : α) :
    l.takeWhile (fun a => cmp a key == .lt) = l.filter fun a => cmp a key == .lt := by
  apply takeWhile_eq_filter
  refine h.imp ?_
  intro a b hab hb
  rw [beq_iff_eq] at hb ⊢
  exact Std.TransCmp.lt_of_isLE_of_lt hab hb

end Bounds

/-- **A least head of lists that hold a strictly sorted list** is its first element.
What the lists hold then is the rest of it. -/
theorem eq_cons_of_least [Std.TransCmp cmp] {ls : List (List α)} {out : List α} {i : ℕ} {x : α}
    {rest : List α} (hsorted : ∀ l ∈ ls, SortedBy cmp l) (hperm : ls.flatten.Perm out)
    (hout : StrictBy cmp out) (hi : ls[i]? = some (x :: rest))
    (hmin : ∀ l ∈ ls, ∀ y ∈ l.head?, (cmp x y).isLE) :
    ∃ out', out = x :: out' ∧ (ls.set i rest).flatten.Perm out' := by
  have hset := flatten_set_perm hi
  have hx : x ∈ out := hperm.mem_iff.mp (hset.mem_iff.mpr (by simp))
  cases out with
  | nil => cases hx
  | cons y out' =>
    obtain ⟨hy, -⟩ := List.pairwise_cons.mp hout
    -- the first element stands behind some head, and no head precedes `x`
    have hxy : (cmp x y).isLE := by
      obtain ⟨l, hl, hyl⟩ := List.mem_flatten.mp (hperm.mem_iff.mpr (List.mem_cons_self : y ∈ _))
      cases hc : l with
      | nil => rw [hc] at hyl; cases hyl
      | cons z tail =>
        have hz : (cmp x z).isLE := hmin l hl z (by simp [hc])
        rw [hc] at hyl
        rcases List.mem_cons.mp hyl with rfl | hyt
        · exact hz
        · have hzs := hsorted l hl
          rw [hc] at hzs
          exact Std.TransCmp.isLE_trans hz ((List.pairwise_cons.mp hzs).1 y hyt)
    obtain rfl : x = y := by
      rcases List.mem_cons.mp hx with heq | hmem
      · exact heq
      · have hlt := hy x hmem
        rw [← Std.OrientedCmp.gt_iff_lt] at hlt
        rw [hlt] at hxy
        cases hxy
    exact ⟨out', rfl, (hset.symm.trans hperm).cons_inv⟩

end Strict

/-! ## The cursor -/

/-- A cursor over a list: what lies behind it, nearest first, the element it stands on, if it
stands on one, and what lies ahead. -/
structure ListCursor (α : Type) where
  behind : List α
  here : Option α
  ahead : List α

namespace ListCursor

variable {c : ListCursor α} {l : List α}

/-- The list a cursor is over. -/
def entries (c : ListCursor α) : List α := c.behind.reverse ++ (c.here.toList ++ c.ahead)

/-- Before the first element. -/
def atHead (l : List α) : ListCursor α := ⟨[], none, l⟩

/-- After the last element. -/
def atTail (l : List α) : ListCursor α := ⟨l.reverse, none, []⟩

/-- Before the first element without a property. -/
def past (p : α → Bool) (l : List α) : ListCursor α :=
  ⟨(l.takeWhile p).reverse, none, l.dropWhile p⟩

/-- One element forward, or off the end. -/
def next (c : ListCursor α) : ListCursor α :=
  ⟨c.here.toList ++ c.behind, c.ahead.head?, c.ahead.tail⟩

/-- One element back, or off the front. -/
def previous (c : ListCursor α) : ListCursor α :=
  ⟨c.behind.tail, c.behind.head?, c.here.toList ++ c.ahead⟩

@[simp] theorem entries_atHead : (atHead l).entries = l := rfl

@[simp] theorem entries_atTail : (atTail l).entries = l := by simp [entries, atTail]

@[simp] theorem entries_past (p : α → Bool) : (past p l).entries = l := by simp [entries, past]

theorem toList_head?_append_tail (l : List α) : l.head?.toList ++ l.tail = l := by
  cases l <;> rfl

@[simp] theorem entries_next : c.next.entries = c.entries := by
  simp only [entries, next, toList_head?_append_tail]
  cases c.here <;> simp

@[simp] theorem entries_previous : c.previous.entries = c.entries := by
  simp only [entries, previous]
  cases c.behind <;> simp

section Sorted

variable {cmp : α → α → Ordering}

theorem strictBy_ahead (h : StrictBy cmp c.entries) : StrictBy cmp c.ahead :=
  (List.pairwise_append.mp (List.pairwise_append.mp h).2.1).2.1

theorem strictBy_behind (h : StrictBy cmp c.entries) :
    StrictBy (fun a b => cmp b a) c.behind := by
  have := StrictBy.reverse (List.pairwise_append.mp h).1
  rwa [List.reverse_reverse] at this

variable [Std.TransCmp cmp] {x : α}

/-- **Ahead of an element** lies what compares greater. -/
theorem filter_gt (h : StrictBy cmp c.entries) (hx : c.here = some x) :
    c.entries.filter (fun a => cmp a x == .gt) = c.ahead := by
  unfold StrictBy entries at h
  rw [hx, Option.toList_some, List.pairwise_append] at h
  obtain ⟨-, hrest, hcross⟩ := h
  obtain ⟨hahead, -⟩ := List.pairwise_cons.mp hrest
  have hbehind : c.behind.reverse.filter (fun a => cmp a x == .gt) = [] := by
    rw [List.filter_eq_nil_iff]
    intro a ha
    rw [hcross a ha x (by simp)]
    decide
  have hself : c.ahead.filter (fun a => cmp a x == .gt) = c.ahead := by
    rw [List.filter_eq_self]
    intro a ha
    rw [beq_iff_eq, Std.OrientedCmp.gt_iff_lt]
    exact hahead a ha
  rw [entries, hx, List.filter_append, hbehind, Option.toList_some, List.nil_append,
    List.cons_append, List.nil_append, List.filter_cons_of_neg, hself]
  simp [Std.ReflCmp.compare_self]

/-- **Behind an element** lies what compares less. -/
theorem filter_lt (h : StrictBy cmp c.entries) (hx : c.here = some x) :
    c.entries.filter (fun a => cmp a x == .lt) = c.behind.reverse := by
  unfold StrictBy entries at h
  rw [hx, Option.toList_some, List.pairwise_append] at h
  obtain ⟨-, hrest, hcross⟩ := h
  obtain ⟨hahead, -⟩ := List.pairwise_cons.mp hrest
  have hself : c.behind.reverse.filter (fun a => cmp a x == .lt) = c.behind.reverse := by
    rw [List.filter_eq_self]
    intro a ha
    rw [hcross a ha x (by simp)]
    rfl
  have hahead : c.ahead.filter (fun a => cmp a x == .lt) = [] := by
    rw [List.filter_eq_nil_iff]
    intro a ha
    rw [Std.OrientedCmp.gt_iff_lt.mpr (hahead a ha)]
    decide
  rw [entries, hx, List.filter_append, hself, Option.toList_some, List.cons_append,
    List.nil_append, List.filter_cons_of_neg, hahead, List.append_nil]
  simp [Std.ReflCmp.compare_self]

end Sorted

end ListCursor

end Recorder.Lib
