import Recorder.Lib.Heap

/-!
# The best value of a list

`IsBest` is the least value of a list, or the greatest, whatever order `less` is. A value that
is kept while the list is read is the best one (`isBest_concat`): it is replaced where nothing
was read before, or where the next value precedes it. Two lists are put together by comparing
their best values (`IsBest.append`), so lists can be read one by one or in parts.
-/

set_option autoImplicit false

namespace Recorder.Lib

variable {β : Type} {less : β → β → Bool}

/-- A value of the list which none of the others precedes. -/
def IsBest (less : β → β → Bool) (vs : List β) (b : β) : Prop :=
  b ∈ vs ∧ ∀ v ∈ vs, less v b = false

theorem IsBest.ne_nil {vs : List β} {b : β} (h : IsBest less vs b) : vs ≠ [] :=
  List.ne_nil_of_mem h.1

theorem isBest_singleton (w : WeakOrder less fun _ => True) (b : β) : IsBest less [b] b := by
  refine ⟨List.mem_singleton_self b, fun v hv => ?_⟩
  rw [List.mem_singleton.mp hv]
  exact w.irrefl trivial

/-- **The best of two lists** is the better one of theirs. -/
theorem IsBest.append (w : WeakOrder less fun _ => True) {vs ws : List β} {b c : β}
    (h : IsBest less vs b) (h' : IsBest less ws c) :
    IsBest less (vs ++ ws) (if less c b then c else b) := by
  by_cases hcb : less c b = true
  · rw [if_pos hcb]
    have hbc : less b c = false := w.asymm trivial trivial hcb
    refine ⟨List.mem_append_right _ h'.1, fun v hv => ?_⟩
    rcases List.mem_append.mp hv with hv | hv
    · exact w.trans trivial trivial trivial hbc (h.2 v hv)
    · exact h'.2 v hv
  · rw [if_neg hcb]
    have hcb : less c b = false := by simpa using hcb
    refine ⟨List.mem_append_left _ h.1, fun v hv => ?_⟩
    rcases List.mem_append.mp hv with hv | hv
    · exact h.2 v hv
    · exact w.trans trivial trivial trivial hcb (h'.2 v hv)

/-- The same where nothing may have been read before. -/
theorem isBest_append (w : WeakOrder less fun _ => True) {vs ws : List β} {b c : β}
    (h : vs ≠ [] → IsBest less vs b) (h' : IsBest less ws c) :
    IsBest less (vs ++ ws) (if vs.length = 0 ∨ less c b then c else b) := by
  by_cases hvs : vs = []
  · rw [if_pos (.inl (List.length_eq_zero_iff.mpr hvs)), hvs, List.nil_append]
    exact h'
  · have hlen : ¬ vs.length = 0 := fun hlen => hvs (List.length_eq_zero_iff.mp hlen)
    simp only [hlen, false_or]
    exact (h hvs).append w h'

/-- **One more value** is read. -/
theorem isBest_concat (w : WeakOrder less fun _ => True) {vs : List β} {b : β} (v : β)
    (h : vs ≠ [] → IsBest less vs b) :
    IsBest less (vs ++ [v]) (if vs.length = 0 ∨ less v b then v else b) :=
  isBest_append w h (isBest_singleton w v)

/-- Values that tell each other apart have one best. -/
theorem IsBest.unique {vs : List β} {b c : β} (h : IsBest less vs b) (h' : IsBest less vs c)
    (hanti : less b c = false → less c b = false → b = c) : b = c :=
  hanti (h'.2 b h.1) (h.2 c h'.1)

end Recorder.Lib
