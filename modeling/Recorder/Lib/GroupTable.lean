import Mathlib.Data.List.Induction
import Mathlib.Data.List.Nodup
import Mathlib.Data.List.Perm.Basic

/-!
# Tables of groups

A table is built from a list of elements: an element is merged into the first row that takes
it, or gets a row of its own behind the others (`enter`). Where keys decide which row takes
which element (`GroupRule`), a table of all elements has one row for each key, made of the
elements with that key in their order (`GroupRule.enterAll`), so that elements in another order
give the same keys.
-/

set_option autoImplicit false

namespace Recorder.Lib

variable {α β κ : Type}

/-- Enter an element into a table. -/
def enter (takes : β → α → Bool) (merge : β → α → β) (row : α → β) (rows : List β) (a : α) :
    List β :=
  match rows.findIdx? (takes · a) with
  | some i => rows.modify i (merge · a)
  | none => rows ++ [row a]

/-- Rows with a property and elements have keys, and a row takes the elements with its key. -/
structure GroupRule (takes : β → α → Bool) (merge : β → α → β) (row : α → β) (key : α → κ)
    (rowKey : β → κ) (among : α → Prop) (holds : β → Prop) : Prop where
  takes_iff : ∀ b a, holds b → among a → (takes b a = true ↔ rowKey b = key a)
  row : ∀ a, among a → holds (row a) ∧ rowKey (row a) = key a
  merge : ∀ b a, holds b → among a → holds (merge b a) ∧ rowKey (merge b a) = rowKey b

/-- **One row for each key** of some elements, made of the elements with the key. -/
structure GroupTable [DecidableEq κ] (merge : β → α → β) (row : α → β) (key : α → κ)
    (rowKey : β → κ) (elements : List α) (rows : List β) : Prop where
  nodup : (rows.map rowKey).Nodup
  keys : ∀ k, k ∈ rows.map rowKey ↔ ∃ a ∈ elements, key a = k
  gathers : ∀ b ∈ rows, ∃ a rest, (elements.filter fun x => key x = rowKey b) = a :: rest ∧
    b = rest.foldl merge (row a)

variable {takes : β → α → Bool} {merge : β → α → β} {row : α → β} {key : α → κ} {rowKey : β → κ}
  {among : α → Prop} {holds : β → Prop}

theorem groupTable_nil [DecidableEq κ] : GroupTable merge row key rowKey [] ([] : List β) where
  nodup := List.nodup_nil
  keys k := by simp
  gathers b hb := by cases hb

/-- Entering finds the row of the key, or appends one. -/
theorem GroupRule.enter_cases (rule : GroupRule takes merge row key rowKey among holds)
    {rows : List β} {a : α} (hrows : ∀ b ∈ rows, holds b) (ha : among a) :
    (∃ before b behind, rows = before ++ b :: behind ∧ rowKey b = key a ∧
      enter takes merge row rows a = before ++ merge b a :: behind) ∨
    ((∀ b ∈ rows, rowKey b ≠ key a) ∧ enter takes merge row rows a = rows ++ [row a]) := by
  unfold enter
  cases hfind : rows.findIdx? (takes · a) with
  | none =>
    right
    refine ⟨fun b hb hkey => ?_, rfl⟩
    have hnot := List.findIdx?_eq_none_iff.mp hfind b hb
    rw [(rule.takes_iff b a (hrows b hb) ha).mpr hkey] at hnot
    cases hnot
  | some i =>
    left
    obtain ⟨hlt, htakes, -⟩ := List.findIdx?_eq_some_iff_getElem.mp hfind
    refine ⟨rows.take i, rows[i], rows.drop (i + 1), ?_, ?_, ?_⟩
    · rw [← List.drop_eq_getElem_cons hlt, List.take_append_drop]
    · exact (rule.takes_iff _ a (hrows _ (List.getElem_mem hlt)) ha).mp htakes
    · exact List.modify_eq_take_cons_drop hlt

variable [DecidableEq κ]

/-- **Entering an element** adds it to the row of its key. -/
theorem GroupRule.enter (rule : GroupRule takes merge row key rowKey among holds)
    {elements : List α} {rows : List β} {a : α} (hrows : ∀ b ∈ rows, holds b) (ha : among a)
    (h : GroupTable merge row key rowKey elements rows) :
    (∀ b ∈ enter takes merge row rows a, holds b) ∧
      GroupTable merge row key rowKey (elements ++ [a]) (enter takes merge row rows a) := by
  have hother : ∀ b : β, rowKey b ≠ key a →
      ((elements ++ [a]).filter fun x => key x = rowKey b) =
        elements.filter fun x => key x = rowKey b := by
    intro b hb
    rw [List.filter_append, List.filter_cons_of_neg (by simpa using Ne.symm hb), List.filter_nil,
      List.append_nil]
  rcases rule.enter_cases hrows ha with ⟨before, b, behind, rfl, hkey, henter⟩ | ⟨hnew, henter⟩
  · have hb : holds b := hrows b (by simp)
    obtain ⟨hmerged, hmergedKey⟩ := rule.merge b a hb ha
    have hkeys : (before ++ merge b a :: behind).map rowKey =
        (before ++ b :: behind).map rowKey := by
      simp [hmergedKey]
    have hnodup := h.nodup
    rw [henter]
    refine ⟨?_, ?_, ?_, ?_⟩
    · intro c hc
      rcases List.mem_append.mp hc with hc | hc
      · exact hrows c (List.mem_append_left _ hc)
      · rcases List.mem_cons.mp hc with rfl | hc
        · exact hmerged
        · exact hrows c (by simp [hc])
    · rw [hkeys]
      exact hnodup
    · intro k
      rw [hkeys, h.keys k]
      constructor
      · rintro ⟨x, hx, hxk⟩
        exact ⟨x, List.mem_append_left _ hx, hxk⟩
      · rintro ⟨x, hx, hxk⟩
        rcases List.mem_append.mp hx with hx | hx
        · exact ⟨x, hx, hxk⟩
        · -- the key of the new element was there
          rw [List.mem_singleton.mp hx] at hxk
          exact (h.keys k).mp (List.mem_map.mpr ⟨b, by simp, hkey.trans hxk⟩)
    · intro c hc
      -- no other row has the key
      have hapart : c ∈ before ∨ c ∈ behind → rowKey c ≠ key a := by
        intro hc heq
        rw [List.map_append, List.map_cons, List.nodup_append, List.nodup_cons] at hnodup
        rw [← hkey] at heq
        rcases hc with hc | hc
        · exact hnodup.2.2 _ (List.mem_map_of_mem hc) _ List.mem_cons_self heq
        · exact hnodup.2.1.1 (heq ▸ List.mem_map_of_mem hc)
      rcases List.mem_append.mp hc with hc | hc
      · rw [hother c (hapart (.inl hc))]
        exact h.gathers c (List.mem_append_left _ hc)
      · rcases List.mem_cons.mp hc with rfl | hc
        · obtain ⟨x, rest, hfilter, hfold⟩ := h.gathers b (by simp)
          refine ⟨x, rest ++ [a], ?_, ?_⟩
          · rw [hmergedKey, List.filter_append, hfilter,
              List.filter_cons_of_pos (by simpa using hkey.symm), List.filter_nil]
            rfl
          · rw [List.foldl_append, ← hfold]
            rfl
        · rw [hother c (hapart (.inr hc))]
          exact h.gathers c (by simp [hc])
  · obtain ⟨hrow, hrowKey⟩ := rule.row a ha
    rw [henter]
    refine ⟨?_, ?_, ?_, ?_⟩
    · intro c hc
      rcases List.mem_append.mp hc with hc | hc
      · exact hrows c hc
      · rw [List.mem_singleton.mp hc]
        exact hrow
    · rw [List.map_append, List.map_singleton, hrowKey, List.nodup_append]
      refine ⟨h.nodup, List.nodup_singleton _, ?_⟩
      rintro k hk k' hk' rfl
      obtain ⟨c, hc, hck⟩ := List.mem_map.mp hk
      exact hnew c hc (hck.trans (List.mem_singleton.mp hk'))
    · intro k
      simp only [List.map_append, List.map_singleton, List.mem_append, List.mem_singleton, h.keys k,
        hrowKey]
      constructor
      · rintro (⟨x, hx, hxk⟩ | rfl)
        · exact ⟨x, .inl hx, hxk⟩
        · exact ⟨a, .inr rfl, rfl⟩
      · rintro ⟨x, hx | rfl, hxk⟩
        · exact .inl ⟨x, hx, hxk⟩
        · exact .inr hxk.symm
    · intro c hc
      rcases List.mem_append.mp hc with hc | hc
      · rw [hother c (hnew c hc)]
        exact h.gathers c hc
      · -- the first element with its key
        rw [List.mem_singleton.mp hc]
        have hnone : (elements.filter fun x => key x = rowKey (row a)) = [] := by
          rw [List.filter_eq_nil_iff]
          intro x hx hxk
          rw [decide_eq_true_eq, hrowKey] at hxk
          obtain ⟨c, hc, hck⟩ := List.mem_map.mp ((h.keys (key a)).mpr ⟨x, hx, hxk⟩)
          exact hnew c hc hck
        refine ⟨a, [], ?_, rfl⟩
        rw [List.filter_append, hnone, List.filter_cons_of_pos (by simpa using hrowKey.symm)]
        rfl

/-- **A table of all elements.** -/
theorem GroupRule.enterAll (rule : GroupRule takes merge row key rowKey among holds)
    {elements : List α} (hamong : ∀ a ∈ elements, among a) :
    (∀ b ∈ elements.foldl (Recorder.Lib.enter takes merge row) [], holds b) ∧
      GroupTable merge row key rowKey elements
        (elements.foldl (Recorder.Lib.enter takes merge row) []) := by
  induction elements using List.reverseRecOn with
  | nil => exact ⟨fun _ hb => (List.not_mem_nil hb).elim, groupTable_nil⟩
  | append_singleton elements a ih =>
    obtain ⟨hholds, htable⟩ := ih fun x hx => hamong x (List.mem_append_left _ hx)
    rw [List.foldl_append]
    exact rule.enter hholds (hamong a (by simp)) htable

end Recorder.Lib
