import Mathlib.Data.List.Basic
import Mathlib.Logic.Function.Basic

/-!
# Checksums that are folds

A checksum that mixes one symbol after another into a state is a fold of a step. Where a
step loses nothing, neither of the state nor of the symbol (`StepInjective`), the fold over
given symbols loses nothing of the state it started from, and lists that differ in one
symbol have different checksums (`foldl_set_ne`).
-/

set_option autoImplicit false

namespace Recorder.Lib

variable {σ α : Type}

/-- A step of a checksum that can be undone: the state from the symbol, and the symbol from
the state. -/
structure StepInjective (step : σ → α → σ) : Prop where
  state : ∀ a, Function.Injective fun s => step s a
  symbol : ∀ s, Function.Injective (step s)

variable {step : σ → α → σ}

/-- Equal symbols keep different states apart. -/
theorem StepInjective.foldl (h : StepInjective step) (l : List α) :
    Function.Injective fun s => l.foldl step s := by
  induction l with
  | nil => exact fun _ _ hs => hs
  | cons a l ih => exact ih.comp (h.state a)

/-- **A single changed symbol is seen**: the checksum of a list is not that of the list with
one symbol changed. -/
theorem StepInjective.foldl_set_ne (h : StepInjective step) {l : List α} {i : ℕ} {a : α}
    (hi : i < l.length) (ha : a ≠ l[i]) (s : σ) :
    (l.set i a).foldl step s ≠ l.foldl step s := by
  induction l generalizing i s with
  | nil => exact absurd hi (Nat.not_lt_zero i)
  | cons b l ih =>
    cases i with
    | zero =>
      intro heq
      exact ha (h.symbol s (h.foldl l heq))
    | succ i =>
      exact ih (Nat.lt_of_succ_lt_succ hi) ha (step s b)

end Recorder.Lib
