import Mathlib.Data.List.Infix
import Mathlib.Data.List.Nodup
import Mathlib.Data.List.Perm.Basic
import Mathlib.Tactic.Common

/-!
# Lists in blocks

A list is contiguous in a key when the elements with one key stand side by side
(`Contiguous`). The elements with a given key are then a block of the list
(`Contiguous.filter_isInfix`), and a key that is left behind does not come back
(`Contiguous.ne_of_mem`). A refinement of the key by a value that does not decrease inside
the blocks is contiguous too (`Contiguous.refine`).

Where the order does not matter, a list is the blocks of a list of keys one behind another
(`perm_flatMap_filter`).
-/

set_option autoImplicit false

namespace Recorder.Lib

variable {α κ : Type}

/-- Between two elements with one key there are only elements with this key. -/
def Contiguous (key : α → κ) (l : List α) : Prop :=
  ∀ a between b, (a :: (between ++ [b])) <:+: l → key a = key b → ∀ c ∈ between, key c = key a

section Contiguous

variable {key : α → κ} {l l' : List α}

theorem Contiguous.ofBlock (h : Contiguous key l) (hblock : l' <:+: l) : Contiguous key l' :=
  fun a between b hab => h a between b (hab.trans hblock)

/-- The key of the last element is the only one that may come again. -/
theorem Contiguous.ne_of_mem {before : List α} {last e d : α}
    (h : Contiguous key (before ++ [last] ++ [e])) (hne : key e ≠ key last)
    (hd : d ∈ before ++ [last]) : key d ≠ key e := by
  intro hde
  rcases List.mem_append.mp hd with hd | hd
  · obtain ⟨front, back, rfl⟩ := List.append_of_mem hd
    have hblock : (d :: ((back ++ [last]) ++ [e])) <:+: front ++ d :: back ++ [last] ++ [e] :=
      ⟨front, [], by simp⟩
    exact hne (hde.symm.trans (h d _ e hblock hde last (by simp)).symm)
  · rw [List.mem_singleton.mp hd] at hde
    exact hne hde.symm

variable [DecidableEq κ]

/-- Behind an element with the key the others with the key come first. -/
theorem Contiguous.filter_eq_takeWhile {a : α} (h : Contiguous key (a :: l)) :
    l.filter (key · = key a) = l.takeWhile (key · = key a) := by
  have hsplit := List.takeWhile_append_dropWhile (p := fun x => decide (key x = key a)) (l := l)
  have hfront : (l.takeWhile (key · = key a)).filter (key · = key a) =
      l.takeWhile (key · = key a) := by
    rw [List.filter_eq_self]
    intro x hx
    exact List.all_eq_true.mp List.all_takeWhile x hx
  have hback : (l.dropWhile (key · = key a)).filter (key · = key a) = [] := by
    cases hrest : l.dropWhile (key · = key a) with
    | nil => rfl
    | cons y rest =>
      have hy : key y ≠ key a := by
        have hhead := List.head?_dropWhile_not (fun x => decide (key x = key a)) l
        rw [hrest] at hhead
        simpa using hhead
      rw [List.filter_eq_nil_iff]
      intro b hb hkey
      rw [decide_eq_true_eq] at hkey
      rcases List.mem_cons.mp hb with rfl | hb
      · exact hy hkey
      · -- an element of the block behind `y` would have `y` in the block
        obtain ⟨front, back, rfl⟩ := List.append_of_mem hb
        refine hy (h a (l.takeWhile (key · = key a) ++ y :: front) b ?_ hkey.symm y (by simp))
        refine ⟨[], back, ?_⟩
        rw [hrest] at hsplit
        conv_rhs => rw [← hsplit]
        simp
  conv_lhs => rw [← hsplit]
  rw [List.filter_append, hfront, hback, List.append_nil]

/-- **The elements with one key are a block of the list.** -/
theorem Contiguous.filter_isInfix (h : Contiguous key l) (k : κ) :
    l.filter (key · = k) <:+: l := by
  induction l with
  | nil => exact List.infix_rfl
  | cons a l ih =>
    have htail : l <:+: a :: l := (List.suffix_cons a l).isInfix
    by_cases hak : key a = k
    · subst hak
      rw [List.filter_cons_of_pos (by simp), h.filter_eq_takeWhile]
      exact (List.cons_prefix_cons.mpr ⟨rfl, List.takeWhile_prefix _⟩).isInfix
    · rw [List.filter_cons_of_neg (by simpa using hak)]
      exact (ih (h.ofBlock htail)).trans htail

end Contiguous

/-- A key together with a value that does not decrease from one element to a later one with
the same key. -/
theorem Contiguous.refine {ν : Type} [LE ν] [Std.IsPartialOrder ν] {key : α → κ} {value : α → ν}
    {l : List α} (h : Contiguous key l)
    (hle : l.Pairwise fun a b => key a = key b → value a ≤ value b) :
    Contiguous (fun a => (key a, value a)) l := by
  intro a between b hblock hab c hc
  obtain ⟨hkey, hvalue⟩ := Prod.mk.inj hab
  have hck := h a between b hblock hkey c hc
  have hpair := hle.sublist hblock.sublist
  obtain ⟨hfirst, hrest⟩ := List.pairwise_cons.mp hpair
  have hac : value a ≤ value c := hfirst c (by simp [hc]) hck.symm
  have hcb : value c ≤ value b :=
    (List.pairwise_append.mp hrest).2.2 c hc b (by simp) (hck.trans hkey)
  rw [← hvalue] at hcb
  exact Prod.ext hck (Std.le_antisymm hcb hac)

/-- **A list is its blocks**, in another order. -/
theorem perm_flatMap_filter [DecidableEq κ] (key : α → κ) (ks : List κ) (hks : ks.Nodup) :
    ∀ l : List α, (∀ a ∈ l, key a ∈ ks) → l.Perm (ks.flatMap fun k => l.filter (key · = k)) := by
  induction ks with
  | nil =>
    intro l hl
    rw [List.eq_nil_iff_forall_not_mem.mpr fun a ha => List.not_mem_nil (hl a ha)]
    exact List.Perm.refl _
  | cons k ks ih =>
    intro l hl
    obtain ⟨hk, hks'⟩ := List.nodup_cons.mp hks
    have hrest := ih hks' (l.filter fun a => !decide (key a = k)) (by
      intro a ha
      obtain ⟨ha, hne⟩ := List.mem_filter.mp ha
      exact (List.mem_cons.mp (hl a ha)).resolve_left (by simpa using hne))
    have hblocks : (ks.flatMap fun k' => (l.filter fun a => !decide (key a = k)).filter
        (key · = k')) = ks.flatMap fun k' => l.filter (key · = k') := by
      apply List.flatMap_congr
      intro k' hk'
      rw [List.filter_filter]
      apply List.filter_congr
      intro a _
      by_cases hak : key a = k'
      · have hne : k' ≠ k := fun heq => hk (heq ▸ hk')
        simp [hak, hne]
      · simp [hak]
    rw [hblocks] at hrest
    rw [List.flatMap_cons]
    exact (List.filter_append_perm _ l).symm.trans (hrest.append_left _)

end Recorder.Lib
