import Mathlib.Data.List.Perm.Basic
import Mathlib.Tactic.Common

/-!
# Suffixes of a sorted list

A selection from a sorted list is one of its suffixes, up to order, exactly when everything
behind a selected element is selected (`exists_suffix_perm_iff`). The remaining lemmas are
about where the elements of a list in blocks end up when its front is cut off.
-/

set_option autoImplicit false

namespace Recorder.Lib

variable {α : Type}

section Sorted

variable {r : α → α → Prop} {l P : List α}

/-- What is selected up to the end is a suffix. -/
theorem exists_suffix_mem_iff (hl : l.Pairwise r)
    (hup : ∀ a ∈ P, ∀ b ∈ l, r a b → b ∈ P) :
    ∃ S, S <:+ l ∧ ∀ a, a ∈ S ↔ a ∈ l ∧ a ∈ P := by
  induction l with
  | nil => exact ⟨[], List.suffix_rfl, by simp⟩
  | cons x rest ih =>
    obtain ⟨hx, hrest⟩ := List.pairwise_cons.mp hl
    by_cases hmem : x ∈ P
    · -- everything behind `x` is selected as well
      refine ⟨x :: rest, List.suffix_rfl, ?_⟩
      intro a
      refine ⟨fun ha => ⟨ha, ?_⟩, fun h => h.1⟩
      rcases List.mem_cons.mp ha with rfl | ha'
      · exact hmem
      · exact hup x hmem a ha (hx a ha')
    · obtain ⟨S, hS, hiff⟩ := ih hrest fun a ha b hb => hup a ha b (List.mem_cons_of_mem _ hb)
      refine ⟨S, hS.trans (List.suffix_cons _ _), ?_⟩
      intro a
      rw [hiff a, List.mem_cons]
      constructor
      · exact fun h => ⟨.inr h.1, h.2⟩
      · rintro ⟨rfl | ha, hP⟩
        · exact absurd hP hmem
        · exact ⟨ha, hP⟩

/-- **A selection from a sorted list is a suffix of it**, up to order, exactly when
everything behind a selected element is selected. -/
theorem exists_suffix_perm_iff (hasymm : ∀ a b, r a b → ¬ r b a) (hl : l.Pairwise r)
    (hnodup : P.Nodup) (hsub : ∀ a ∈ P, a ∈ l) :
    (∃ S, S <:+ l ∧ P.Perm S) ↔ ∀ a ∈ P, ∀ b ∈ l, r a b → b ∈ P := by
  constructor
  · rintro ⟨S, ⟨front, rfl⟩, hperm⟩ a ha b hb hab
    obtain ⟨-, -, hcross⟩ := List.pairwise_append.mp hl
    rcases List.mem_append.mp hb with hfront | hS
    · exact absurd (hcross b hfront a (hperm.mem_iff.mp ha)) (hasymm a b hab)
    · exact hperm.mem_iff.mpr hS
  · intro hup
    obtain ⟨S, hS, hiff⟩ := exists_suffix_mem_iff hl hup
    have hirrefl : ∀ a b, r a b → a ≠ b := by
      rintro a b hab rfl
      exact hasymm a a hab hab
    refine ⟨S, hS, (List.perm_ext_iff_of_nodup hnodup ?_).mpr ?_⟩
    · exact (hl.imp (hirrefl _ _)).sublist hS.sublist
    · intro a
      rw [hiff a]
      exact ⟨fun ha => ⟨hsub a ha, ha⟩, fun h => h.2⟩

end Sorted

/-! ## Cutting off the front -/

/-- Two elements of a list, one in front of the other. -/
theorem exists_append_of_mem_pair {l : List α} {x y : α} (hx : x ∈ l) (hy : y ∈ l)
    (hne : x ≠ y) :
    (∃ before between after, l = before ++ x :: between ++ y :: after) ∨
      ∃ before between after, l = before ++ y :: between ++ x :: after := by
  obtain ⟨front, back, rfl⟩ := List.append_of_mem hx
  rcases List.mem_append.mp hy with hfront | hback
  · obtain ⟨before, between, rfl⟩ := List.append_of_mem hfront
    exact .inr ⟨before, between, back, by simp⟩
  · rcases List.mem_cons.mp hback with rfl | hback
    · exact absurd rfl hne
    · obtain ⟨between, after, rfl⟩ := List.append_of_mem hback
      exact .inl ⟨front, between, after, by simp⟩

section Blocks

variable {β : Type} {block : β → List α} {blocks before after : List β} {x : β} {cut : ℕ}
  (hsplit : blocks = before ++ x :: after)

include hsplit

/-- A block is kept whole if the cut is in front of it. -/
theorem mem_drop_of_cut_le (hcut : cut ≤ (before.flatMap block).length) {a : α}
    (ha : a ∈ block x) : a ∈ (blocks.flatMap block).drop cut := by
  rw [hsplit, List.flatMap_append, List.flatMap_cons, List.drop_append_of_le_length hcut]
  exact List.mem_append_right _ (List.mem_append_left _ ha)

/-- Nothing of a block is kept if the cut is behind it. -/
theorem notMem_drop_of_le_cut (hnodup : (blocks.flatMap block).Nodup)
    (hcut : ((before ++ [x]).flatMap block).length ≤ cut) {a : α} (ha : a ∈ block x) :
    a ∉ (blocks.flatMap block).drop cut := by
  have hblocks : blocks.flatMap block = (before ++ [x]).flatMap block ++ after.flatMap block := by
    simp [hsplit]
  rw [hblocks] at hnodup ⊢
  rw [List.drop_append, List.drop_eq_nil_of_le hcut, List.nil_append]
  intro hmem
  exact (List.nodup_append.mp hnodup).2.2 a (by simp [ha]) a (List.mem_of_mem_drop hmem) rfl

/-- A cut behind the start of a block takes its first element. -/
theorem exists_notMem_drop (hnodup : (blocks.flatMap block).Nodup) (hne : block x ≠ [])
    (hcut : (before.flatMap block).length < cut) :
    ∃ a ∈ block x, a ∉ (blocks.flatMap block).drop cut := by
  obtain ⟨a, rest, hx⟩ := List.exists_cons_of_ne_nil hne
  have hblocks : blocks.flatMap block =
      (before.flatMap block ++ [a]) ++ (rest ++ after.flatMap block) := by simp [hsplit, hx]
  have hlen : (before.flatMap block ++ [a]).length ≤ cut := by
    rw [List.length_append, List.length_singleton]
    exact hcut
  refine ⟨a, by simp [hx], ?_⟩
  rw [hblocks] at hnodup ⊢
  rw [List.drop_append, List.drop_eq_nil_of_le hlen, List.nil_append]
  intro hmem
  exact (List.nodup_append.mp hnodup).2.2 a (by simp) a (List.mem_of_mem_drop hmem) rfl

/-- A cut in front of the end of a block leaves its last element. -/
theorem exists_mem_drop (hne : block x ≠ [])
    (hcut : cut < ((before ++ [x]).flatMap block).length) :
    ∃ a ∈ block x, a ∈ (blocks.flatMap block).drop cut := by
  obtain ⟨init, a, hx⟩ := (List.eq_nil_or_concat (block x)).resolve_left hne
  have hblocks : blocks.flatMap block =
      (before.flatMap block ++ init) ++ (a :: after.flatMap block) := by simp [hsplit, hx]
  have hlen : cut ≤ (before.flatMap block ++ init).length := by
    simp only [List.flatMap_append, List.flatMap_cons, List.flatMap_nil, List.append_nil, hx,
      List.length_append, List.length_singleton, List.concat_eq_append] at hcut
    rw [List.length_append]
    omega
  refine ⟨a, by simp [hx], ?_⟩
  rw [hblocks, List.drop_append_of_le_length hlen]
  exact List.mem_append_right _ List.mem_cons_self

end Blocks

end Recorder.Lib
