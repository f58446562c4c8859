import Mathlib.Algebra.GroupWithZero.Nat
import Mathlib.Data.List.Forall2

/-!
# Computations that reject

What a computation over `Except` says when it went through: every step did. A fold keeps what
each of its steps keeps, and the error of a fold or of a map is the error of one of its steps.
-/

set_option autoImplicit false

namespace Recorder.Lib

section Except

variable {ε α β σ : Type}

/-- A bind succeeds where both of its parts do. -/
theorem bind_eq_ok_iff {x : Except ε α} {f : α → Except ε β} {b : β} :
    x >>= f = .ok b ↔ ∃ a, x = .ok a ∧ f a = .ok b := by
  cases x with
  | error e => exact ⟨fun h => (nomatch h), fun ⟨_, h, _⟩ => (nomatch h)⟩
  | ok a => exact ⟨fun h => ⟨a, rfl, h⟩, fun ⟨_, ha, h⟩ => Except.ok.inj ha ▸ h⟩

/-- A bind fails where its first part does, or the second one does on its result. -/
theorem bind_eq_error_iff {x : Except ε α} {f : α → Except ε β} {e : ε} :
    x >>= f = .error e ↔ x = .error e ∨ ∃ a, x = .ok a ∧ f a = .error e := by
  cases x with
  | error d =>
    have hbind : ((.error d : Except ε α) >>= f) = .error d := rfl
    rw [hbind]
    constructor
    · intro h
      exact .inl (congrArg Except.error (Except.error.inj h))
    · rintro (h | ⟨_, h, _⟩)
      · exact congrArg Except.error (Except.error.inj h)
      · cases h
  | ok a =>
    constructor
    · intro h
      exact .inr ⟨a, rfl, h⟩
    · rintro (h | ⟨_, ha, h⟩)
      · cases h
      · exact Except.ok.inj ha ▸ h

/-- A fold that succeeds: what every successful step keeps of the elements done holds in the end. -/
theorem foldlM_ok_append {f : σ → α → Except ε σ} {P : List α → σ → Prop}
    (hstep : ∀ done x s s', P done s → f s x = .ok s' → P (done ++ [x]) s') (xs : List α) :
    ∀ (done : List α) {s t : σ}, P done s → xs.foldlM f s = .ok t → P (done ++ xs) t := by
  induction xs with
  | nil =>
    intro done s t hs h
    rw [List.foldlM_nil] at h
    cases h
    rwa [List.append_nil]
  | cons x xs ih =>
    intro done s t hs h
    rw [List.foldlM_cons, bind_eq_ok_iff] at h
    obtain ⟨s', hx, h⟩ := h
    have hdone := ih (done ++ [x]) (hstep done x s s' hs hx) h
    rwa [List.append_assoc, List.singleton_append] at hdone

/-- The invariant speaks of the steps that are done. -/
theorem foldlM_ok_induction {f : σ → α → Except ε σ} {P : List α → σ → Prop}
    (hstep : ∀ done x s s', P done s → f s x = .ok s' → P (done ++ [x]) s') {xs : List α}
    {s t : σ} (hs : P [] s) (h : xs.foldlM f s = .ok t) : P xs t :=
  foldlM_ok_append hstep xs [] hs h

/-- Every step of a fold that succeeds did. -/
theorem foldlM_ok_step {f : σ → α → Except ε σ} {xs : List α} {s t : σ}
    (h : xs.foldlM f s = .ok t) {x : α} (hx : x ∈ xs) : ∃ s₁ s₂, f s₁ x = .ok s₂ := by
  refine foldlM_ok_induction (P := fun done _ => ∀ x ∈ done, ∃ s₁ s₂, f s₁ x = .ok s₂) ?_
    (by simp) h x hx
  intro done x s s' hdone hstep y hy
  rcases List.mem_append.1 hy with hy | hy
  · exact hdone y hy
  · exact ⟨s, s', List.mem_singleton.1 hy ▸ hstep⟩

/-- A fold that fails does so with the error of one of its steps. -/
theorem foldlM_error_step {f : σ → α → Except ε σ} {e : ε} {xs : List α} {s : σ}
    (h : xs.foldlM f s = .error e) : ∃ x ∈ xs, ∃ s', f s' x = .error e := by
  induction xs generalizing s with
  | nil => cases h
  | cons x xs ih =>
    rw [List.foldlM_cons, bind_eq_error_iff] at h
    rcases h with h | ⟨s', -, h⟩
    · exact ⟨x, List.mem_cons_self, s, h⟩
    · obtain ⟨y, hy, herr⟩ := ih h
      exact ⟨y, List.mem_cons_of_mem x hy, herr⟩

/-- A map that succeeds has the results element by element. -/
theorem mapM_ok_forall₂ {f : α → Except ε β} {xs : List α} {ys : List β}
    (h : xs.mapM f = .ok ys) : List.Forall₂ (fun x y => f x = .ok y) xs ys := by
  induction xs generalizing ys with
  | nil =>
    cases h
    exact .nil
  | cons x xs ih =>
    rw [List.mapM_cons, bind_eq_ok_iff] at h
    obtain ⟨y, hx, h⟩ := h
    rw [bind_eq_ok_iff] at h
    obtain ⟨ys', hxs, h⟩ := h
    cases h
    exact .cons hx (ih hxs)

/-- A map that fails does so with the error of one of its elements. -/
theorem mapM_error_step {f : α → Except ε β} {e : ε} {xs : List α}
    (h : xs.mapM f = .error e) : ∃ x ∈ xs, f x = .error e := by
  induction xs with
  | nil => cases h
  | cons x xs ih =>
    rw [List.mapM_cons, bind_eq_error_iff] at h
    rcases h with h | ⟨y, -, h⟩
    · exact ⟨x, List.mem_cons_self, h⟩
    · rw [bind_eq_error_iff] at h
      rcases h with h | ⟨ys, -, h⟩
      · obtain ⟨z, hz, herr⟩ := ih h
        exact ⟨z, List.mem_cons_of_mem x hz, herr⟩
      · cases h

end Except

end Recorder.Lib
