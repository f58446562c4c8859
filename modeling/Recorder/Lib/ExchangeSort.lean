import Mathlib.Data.List.Sort
import Recorder.Lib.Heap

/-!
# Exchange sort

The sort of two nested loops that swaps the element at the outer index with every later one
that comes before it. `comesBefore b a` asks for the swap. Where that is a weak order, no
later element of the result comes before an earlier one (`exchangeSort_pairwise`), and where
it has no ties, the result depends on the elements only, not on their order
(`exchangeSort_eq_of_perm`).
-/

set_option autoImplicit false

namespace Recorder.Lib

variable {α : Type} (comesBefore : α → α → Bool)

/-- The inner loop: the element that ends up at the outer index, and those behind it. -/
def exchangePass (x : α) : List α → α × List α
  | [] => (x, [])
  | y :: rest =>
    if comesBefore y x then
      match exchangePass y rest with
      | (first, behind) => (first, x :: behind)
    else
      match exchangePass x rest with
      | (first, behind) => (first, y :: behind)

/-- The outer loop, `count` turns of it. -/
def exchangeTurns : ℕ → List α → List α
  | 0, l => l
  | _ + 1, [] => []
  | count + 1, x :: rest =>
    match exchangePass comesBefore x rest with
    | (first, behind) => first :: exchangeTurns count behind

/-- As many passes as there are elements. -/
def exchangeSort (l : List α) : List α := exchangeTurns comesBefore l.length l

/-- A pass loses nothing. -/
theorem exchangePass_perm (x : α) (l : List α) :
    ((exchangePass comesBefore x l).1 :: (exchangePass comesBefore x l).2).Perm (x :: l) := by
  induction l generalizing x with
  | nil => exact List.Perm.refl _
  | cons y rest ih =>
    unfold exchangePass
    by_cases h : comesBefore y x = true
    · simp only [if_pos h]
      exact (List.Perm.swap _ _ _).trans ((ih y).cons x)
    · simp only [if_neg h]
      apply (List.Perm.swap _ _ _).trans
      exact ((ih x).cons y).trans (List.Perm.swap _ _ _)

/-- The passes lose nothing. -/
theorem exchangeTurns_perm (count : ℕ) (l : List α) :
    (exchangeTurns comesBefore count l).Perm l := by
  induction count generalizing l with
  | zero => exact List.Perm.refl _
  | succ count ih =>
    cases l with
    | nil => exact List.Perm.refl _
    | cons x rest =>
      have hpass := exchangePass_perm comesBefore x rest
      exact ((ih _).cons _).trans hpass

/-- Sorting keeps the elements. -/
theorem exchangeSort_perm (l : List α) : (exchangeSort comesBefore l).Perm l :=
  exchangeTurns_perm comesBefore l.length l

variable {comesBefore}

/-- Nothing behind the outer index comes before the element there. -/
theorem exchangePass_first (w : WeakOrder comesBefore fun _ => True) (x : α) (l : List α) :
    ∀ y ∈ x :: l, comesBefore y (exchangePass comesBefore x l).1 = false := by
  induction l generalizing x with
  | nil =>
    intro y hy
    rw [List.mem_singleton.mp hy]
    exact w.irrefl trivial
  | cons z rest ih =>
    intro y hy
    unfold exchangePass
    by_cases h : comesBefore z x = true
    · simp only [if_pos h]
      rcases List.mem_cons.mp hy with rfl | hy
      · exact w.trans trivial trivial trivial (ih z z (List.mem_cons_self ..))
          (w.asymm trivial trivial h)
      · exact ih z y hy
    · simp only [if_neg h]
      rcases List.mem_cons.mp hy with rfl | hy
      · exact ih y y (List.mem_cons_self ..)
      · rcases List.mem_cons.mp hy with rfl | hy
        · exact w.trans trivial trivial trivial (ih x x (List.mem_cons_self ..))
            (Bool.not_eq_true _ ▸ h)
        · exact ih x y (List.mem_cons_of_mem _ hy)

/-- **The passes sort**, by induction on their number. -/
theorem exchangeTurns_pairwise (w : WeakOrder comesBefore fun _ => True) (count : ℕ)
    (l : List α) (hcount : l.length ≤ count) :
    (exchangeTurns comesBefore count l).Pairwise fun a b => comesBefore b a = false := by
  induction count generalizing l with
  | zero =>
    rw [List.length_eq_zero_iff.mp (Nat.le_zero.mp hcount)]
    exact List.Pairwise.nil
  | succ count ih =>
    cases l with
    | nil => exact List.Pairwise.nil
    | cons x rest =>
      have hperm := exchangePass_perm comesBefore x rest
      have hlength : (exchangePass comesBefore x rest).2.length ≤ count := by
        have := hperm.length_eq
        simp only [List.length_cons] at this hcount
        omega
      refine List.Pairwise.cons (fun y hy => ?_) (ih _ hlength)
      have hmem := (exchangeTurns_perm comesBefore _ _).subset hy
      exact exchangePass_first w x rest y
        (hperm.subset (List.mem_cons_of_mem _ hmem))

/-- **The result is in order.** -/
theorem exchangeSort_pairwise (w : WeakOrder comesBefore fun _ => True) (l : List α) :
    (exchangeSort comesBefore l).Pairwise fun a b => comesBefore b a = false :=
  exchangeTurns_pairwise w l.length l (Nat.le_refl _)

/-- **Without ties the order of the input does not matter.** -/
theorem exchangeSort_eq_of_perm (w : WeakOrder comesBefore fun _ => True) {l l' : List α}
    (hperm : l.Perm l')
    (hties : ∀ a ∈ l, ∀ b ∈ l, comesBefore a b = false → comesBefore b a = false → a = b) :
    exchangeSort comesBefore l = exchangeSort comesBefore l' := by
  have hsorted := exchangeSort_perm comesBefore l
  have hsorted' := (exchangeSort_perm comesBefore l').trans hperm.symm
  refine List.Perm.eq_of_pairwise ?_ (exchangeSort_pairwise w l)
    (exchangeSort_pairwise w l') (hsorted.trans hsorted'.symm)
  intro a b ha hb hab hba
  exact hties a (hsorted.subset ha) b (hsorted'.subset hb) hba hab

end Recorder.Lib
