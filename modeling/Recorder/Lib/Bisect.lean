import Mathlib.Algebra.GroupWithZero.Nat

/-!
# Halving an interval

The binary search for the first place that is not `below`, over any interval and without an
order on the places. It ends at the end of the interval or at a place that is not below
(`bisect_lt`), never in front of the first such place (`le_bisect`), and exactly there when
the midpoints on the way to it do not mislead the search (`bisect_eq_iff`).
-/

set_option autoImplicit false

namespace Recorder.Lib

/-- The search in `[lo, hi)`, in at most `fuel` steps. -/
def bisect (below : ℕ → Bool) : ℕ → ℕ → ℕ → ℕ
  | 0, lo, _ => lo
  | fuel + 1, lo, hi =>
    if lo < hi then
      let mid := lo + (hi - lo) / 2
      if below mid then bisect below fuel (mid + 1) hi else bisect below fuel lo mid
    else lo

/-- The midpoints of halving `[lo, hi)` towards the place `k`. -/
def bisectPath (k : ℕ) : ℕ → ℕ → ℕ → List ℕ
  | 0, _, _ => []
  | fuel + 1, lo, hi =>
    if lo < hi then
      let mid := lo + (hi - lo) / 2
      mid :: (if mid < k then bisectPath k fuel (mid + 1) hi else bisectPath k fuel lo mid)
    else []

variable (below : ℕ → Bool)

/-- The search stays in its interval. -/
theorem bisect_le (fuel : ℕ) : ∀ lo hi : ℕ, lo ≤ hi →
    lo ≤ bisect below fuel lo hi ∧ bisect below fuel lo hi ≤ hi := by
  induction fuel with
  | zero => intro lo hi h; exact ⟨Nat.le_refl _, h⟩
  | succ fuel ih =>
    intro lo hi h
    unfold bisect
    by_cases hlt : lo < hi
    · rw [if_pos hlt]
      cases hmid : below (lo + (hi - lo) / 2) with
      | true =>
        have := ih (lo + (hi - lo) / 2 + 1) hi (by omega)
        simp only [hmid, if_true]
        omega
      | false =>
        have := ih lo (lo + (hi - lo) / 2) (by omega)
        simp only [hmid, Bool.false_eq_true, if_false]
        omega
    · rw [if_neg hlt]
      omega

/-- A place inside the interval at which the search ends is not below. -/
theorem bisect_lt (fuel : ℕ) : ∀ lo hi : ℕ, lo ≤ hi → hi ≤ fuel + lo →
    bisect below fuel lo hi < hi → below (bisect below fuel lo hi) = false := by
  induction fuel with
  | zero =>
    intro lo hi _ hfuel hend
    unfold bisect at hend
    omega
  | succ fuel ih =>
    intro lo hi hle hfuel hend
    unfold bisect at hend ⊢
    by_cases hlt : lo < hi
    · rw [if_pos hlt] at hend ⊢
      cases hmid : below (lo + (hi - lo) / 2) with
      | true =>
        simp only [hmid, if_true] at hend ⊢
        exact ih _ _ (by omega) (by omega) hend
      | false =>
        simp only [hmid, Bool.false_eq_true, if_false] at hend ⊢
        rcases Nat.lt_or_eq_of_le (bisect_le below fuel lo (lo + (hi - lo) / 2)
          (by omega)).2 with h | h
        · exact ih _ _ (by omega) (by omega) h
        · -- the search ended at the midpoint, which it has seen
          rw [h]
          exact hmid
    · rw [if_neg hlt] at hend
      omega

/-- The search never ends in front of the first place that is not below. -/
theorem le_bisect {k : ℕ} (fuel : ℕ) : ∀ lo hi : ℕ, lo ≤ hi → hi ≤ fuel + lo → k ≤ hi →
    (∀ i, lo ≤ i → i < k → below i = true) → k ≤ bisect below fuel lo hi := by
  intro lo hi hle hfuel hk hbelow
  rcases Nat.lt_or_eq_of_le (bisect_le below fuel lo hi hle).2 with h | h
  · rcases Nat.lt_or_ge (bisect below fuel lo hi) k with hlt | hge
    · have hend := bisect_lt below fuel lo hi hle hfuel h
      rw [hbelow _ (bisect_le below fuel lo hi hle).1 hlt] at hend
      cases hend
    · exact hge
  · omega

/-- **When the search finds the first place that is not below**: every midpoint behind it on
the way to it must not be below either. -/
theorem bisect_eq_iff {k : ℕ} (fuel : ℕ) : ∀ lo hi : ℕ, hi ≤ fuel + lo → lo ≤ k → k ≤ hi →
    (∀ i, lo ≤ i → i < k → below i = true) → (k < hi → below k = false) →
    (bisect below fuel lo hi = k ↔ ∀ m ∈ bisectPath k fuel lo hi, k < m → below m = false) := by
  induction fuel with
  | zero =>
    intro lo hi hfuel hlo hhi _ _
    simp only [bisect, bisectPath, List.not_mem_nil, false_implies, implies_true, iff_true]
    omega
  | succ fuel ih =>
    intro lo hi hfuel hlo hhi hbefore hat
    unfold bisect bisectPath
    by_cases hlt : lo < hi
    · rw [if_pos hlt, if_pos hlt]
      rw [List.forall_mem_cons]
      by_cases hmid : lo + (hi - lo) / 2 < k
      · -- a midpoint in front of the place is below, and the search goes towards the place
        have hbelow := hbefore (lo + (hi - lo) / 2) (by omega) hmid
        simp only [hbelow, if_true, if_pos hmid]
        rw [ih _ _ (by omega) (by omega) hhi (fun i hi' => hbefore i (by omega)) hat]
        exact ⟨fun h => ⟨fun hlt' => absurd hlt' (by omega), h⟩, fun h => h.2⟩
      · rw [if_neg hmid]
        have hstep := ih lo (lo + (hi - lo) / 2) (by omega) hlo (by omega) hbefore
          (fun h => hat (by omega))
        cases hval : below (lo + (hi - lo) / 2) with
        | false =>
          simp only [hval, Bool.false_eq_true, if_false, hstep]
          exact ⟨fun h => ⟨fun _ => trivial, h⟩, fun h => h.2⟩
        | true =>
          -- a midpoint behind the place that is below leads away from it
          have hne : k < lo + (hi - lo) / 2 := by
            rcases Nat.lt_or_eq_of_le (Nat.not_lt.mp hmid) with h | h
            · exact h
            · rw [← h, hat (by omega)] at hval
              cases hval
          have hend := (bisect_le below fuel (lo + (hi - lo) / 2 + 1) hi (by omega)).1
          simp only [hval, if_true]
          constructor
          · intro h
            omega
          · intro h
            exact absurd (h.1 hne) (by simp)
    · rw [if_neg hlt, if_neg hlt]
      simp only [List.not_mem_nil, false_implies, implies_true, iff_true]
      omega

/-- An interval that is below throughout is searched to its end. -/
theorem bisect_eq_end (fuel lo hi : ℕ) (hle : lo ≤ hi) (hfuel : hi ≤ fuel + lo)
    (hbelow : ∀ i, lo ≤ i → i < hi → below i = true) : bisect below fuel lo hi = hi :=
  Nat.le_antisymm (bisect_le below fuel lo hi hle).2
    (le_bisect below fuel lo hi hle hfuel (Nat.le_refl _) hbelow)

end Recorder.Lib
