import Mathlib.Data.List.Perm.Basic
import Mathlib.Tactic.Common

/-!
# A binary heap in a list

The heap of the textbooks: the parent of position `j` is position `(j - 1) / 2`, and no
element precedes its parent (`IsHeap`). `siftUp` moves a new last element up and `siftDown`
moves a changed root down; both keep the elements (`siftUp_perm`, `siftDown_perm`) and end
in a heap (`siftUp_isHeap`, `siftDown_isHeap`), in which nothing precedes the first element
(`IsHeap.root_le`).

The elements may be handles whose order is looked up elsewhere, so `less` only has to be a
strict weak order on the elements that occur (`WeakOrder`).
-/

set_option autoImplicit false

namespace Recorder.Lib

variable {ι : Type}

/-- A strict weak order on the elements with a property. -/
structure WeakOrder (less : ι → ι → Bool) (S : ι → Prop) : Prop where
  asymm : ∀ {x y}, S x → S y → less x y = true → less y x = false
  trans : ∀ {x y z}, S x → S y → S z → less y x = false → less z y = false → less z x = false

/-- Nothing is less than itself. -/
theorem WeakOrder.irrefl {less : ι → ι → Bool} {S : ι → Prop} (w : WeakOrder less S) {x : ι}
    (hx : S x) : less x x = false := by
  cases hxx : less x x with
  | false => rfl
  | true => exact hxx.symm.trans (w.asymm hx hx hxx)

/-- No element precedes its parent. -/
def IsHeap (less : ι → ι → Bool) (h : List ι) : Prop :=
  ∀ j x y, 0 < j → h[(j - 1) / 2]? = some x → h[j]? = some y → less y x = false

/-- Move the element at position `i` up as long as it precedes its parent. -/
def siftUp (less : ι → ι → Bool) : ℕ → List ι → ℕ → List ι
  | 0, h, _ => h
  | fuel + 1, h, i =>
    if i = 0 then h
    else
      match h[i]?, h[(i - 1) / 2]? with
      | some x, some p =>
        if less x p then siftUp less fuel ((h.set i p).set ((i - 1) / 2) x) ((i - 1) / 2) else h
      | _, _ => h

/-- Position `j` if its element precedes the one at `best`. -/
def smaller (less : ι → ι → Bool) (h : List ι) (j best : ℕ) : ℕ :=
  match h[j]?, h[best]? with
  | some x, some y => if less x y then j else best
  | _, _ => best

/-- The position of the least element among `i` and its children. -/
def smallest (less : ι → ι → Bool) (h : List ι) (i : ℕ) : ℕ :=
  smaller less h (2 * i + 2) (smaller less h (2 * i + 1) i)

/-- Move the element at position `i` down as long as a child precedes it. -/
def siftDown (less : ι → ι → Bool) : ℕ → List ι → ℕ → List ι
  | 0, h, _ => h
  | fuel + 1, h, i =>
    if smallest less h i = i then h
    else
      match h[i]?, h[smallest less h i]? with
      | some x, some y =>
        siftDown less fuel ((h.set i y).set (smallest less h i) x) (smallest less h i)
      | _, _ => h

section Swap

variable {h : List ι} {i j : ℕ} {x y : ι}

/-- The elements of a list with two exchanged. -/
theorem getElem?_swap (hi : h[i]? = some x) (hj : h[j]? = some y) (k : ℕ) :
    ((h.set i y).set j x)[k]? = if k = j then some x else if k = i then some y else h[k]? := by
  have hilt := (List.getElem?_eq_some_iff.mp hi).1
  have hjlt := (List.getElem?_eq_some_iff.mp hj).1
  rw [List.getElem?_set, List.getElem?_set]
  by_cases hkj : k = j
  · subst hkj
    simp [hjlt]
  · by_cases hki : k = i
    · subst hki
      simp [hkj, Ne.symm hkj, hilt]
    · simp [hkj, hki, Ne.symm hkj, Ne.symm hki]

/-- An exchange loses nothing. -/
theorem swap_perm (hi : h[i]? = some x) (hj : h[j]? = some y) :
    ((h.set i y).set j x).Perm h := by
  obtain ⟨hilt, rfl⟩ := List.getElem?_eq_some_iff.mp hi
  obtain ⟨hjlt, rfl⟩ := List.getElem?_eq_some_iff.mp hj
  exact List.set_set_perm hilt hjlt

end Swap

/-- Sifting up loses nothing. -/
theorem siftUp_perm (less : ι → ι → Bool) (fuel : ℕ) :
    ∀ (h : List ι) (i : ℕ), (siftUp less fuel h i).Perm h := by
  induction fuel with
  | zero => intro h i; exact List.Perm.refl _
  | succ fuel ih =>
    intro h i
    rw [siftUp]
    split
    · exact List.Perm.refl _
    · split
      · next x p hi hp =>
        split
        · exact (ih _ _).trans (swap_perm hi hp)
        · exact List.Perm.refl _
      · exact List.Perm.refl _

/-- Sifting down loses nothing. -/
theorem siftDown_perm (less : ι → ι → Bool) (fuel : ℕ) :
    ∀ (h : List ι) (i : ℕ), (siftDown less fuel h i).Perm h := by
  induction fuel with
  | zero => intro h i; exact List.Perm.refl _
  | succ fuel ih =>
    intro h i
    rw [siftDown]
    split
    · exact List.Perm.refl _
    · split
      · next x y hi hs => exact (ih _ _).trans (swap_perm hi hs)
      · exact List.Perm.refl _

/-! ## Up -/

section Up

variable {less : ι → ι → Bool} {S : ι → Prop}

/-- A heap up to the element at position `i`, which may precede its parent: the children of
`i` do not precede the parent of `i`. -/
structure UpHeap (less : ι → ι → Bool) (h : List ι) (i : ℕ) : Prop where
  off : ∀ j x y, 0 < j → j ≠ i → h[(j - 1) / 2]? = some x → h[j]? = some y → less y x = false
  grand : ∀ j x y, 0 < i → 0 < j → (j - 1) / 2 = i → h[(i - 1) / 2]? = some x → h[j]? = some y →
    less y x = false

/-- An exchange with the parent moves the place that is out of order up. -/
theorem UpHeap.swap {h : List ι} {i : ℕ} {x p : ι} (w : WeakOrder less S) (hS : ∀ z ∈ h, S z)
    (hup : UpHeap less h i) (hpos : 0 < i) (hx : h[i]? = some x)
    (hp : h[(i - 1) / 2]? = some p) (hless : less x p = true) :
    UpHeap less ((h.set i p).set ((i - 1) / 2) x) ((i - 1) / 2) := by
  have hSx := hS x (List.mem_of_getElem? hx)
  have hSp := hS p (List.mem_of_getElem? hp)
  constructor
  · intro j a b hj hne ha hb
    rw [getElem?_swap hx hp] at ha hb
    rw [if_neg hne] at hb
    by_cases hji : j = i
    · subst hji
      rw [if_pos rfl, Option.some.injEq] at ha hb
      subst ha hb
      exact w.asymm hSx hSp hless
    · rw [if_neg hji] at hb
      have hSb := hS b (List.mem_of_getElem? hb)
      by_cases hpar : (j - 1) / 2 = (i - 1) / 2
      · -- the other child of the old parent
        rw [if_pos hpar, Option.some.injEq] at ha
        subst ha
        have hpb := hup.off j p b hj hji (by rw [hpar]; exact hp) hb
        exact w.trans hSx hSp hSb (w.asymm hSx hSp hless) hpb
      · rw [if_neg hpar] at ha
        by_cases hpi : (j - 1) / 2 = i
        · rw [if_pos hpi, Option.some.injEq] at ha
          subst ha
          exact hup.grand j _ b hpos hj hpi hp hb
        · rw [if_neg hpi] at ha
          exact hup.off j a b hj hji ha hb
  · intro j a b hq hj hpar ha hb
    rw [getElem?_swap hx hp, if_neg (by omega), if_neg (by omega)] at ha
    have hSa := hS a (List.mem_of_getElem? ha)
    have hap := hup.off ((i - 1) / 2) a p hq (by omega) ha hp
    rw [getElem?_swap hx hp, if_neg (by omega)] at hb
    by_cases hji : j = i
    · rw [if_pos hji, Option.some.injEq] at hb
      subst hb
      exact hap
    · rw [if_neg hji] at hb
      have hSb := hS b (List.mem_of_getElem? hb)
      exact w.trans hSa hSp hSb hap (hup.off j p b hj hji (by rw [hpar]; exact hp) hb)

/-- **Sifting up ends in a heap.** -/
theorem siftUp_isHeap (w : WeakOrder less S) (fuel : ℕ) :
    ∀ (h : List ι) (i : ℕ), (∀ z ∈ h, S z) → UpHeap less h i → i < h.length → i ≤ fuel →
      IsHeap less (siftUp less fuel h i) := by
  have htop : ∀ (h : List ι) (i : ℕ), UpHeap less h i →
      (∀ x p, 0 < i → h[i]? = some x → h[(i - 1) / 2]? = some p → less x p = false) →
      IsHeap less h := by
    intro h i hup hi j x y hj hx hy
    by_cases hji : j = i
    · subst hji
      exact hi y x hj hy hx
    · exact hup.off j x y hj hji hx hy
  induction fuel with
  | zero =>
    intro h i _ hup _ hfuel
    exact htop h i hup fun _ _ hpos => absurd hpos (by omega)
  | succ fuel ih =>
    intro h i hS hup hlt hfuel
    rw [siftUp]
    split
    · next hzero => exact htop h i hup fun _ _ hpos => absurd hpos (by omega)
    · next hne =>
      have hx := List.getElem?_eq_getElem hlt
      have hp := List.getElem?_eq_getElem (show (i - 1) / 2 < h.length by omega)
      rw [hx, hp]
      dsimp only
      split
      · next hless =>
        have hperm := swap_perm hx hp
        apply ih
        · intro z hz
          exact hS z (hperm.mem_iff.mp hz)
        · exact hup.swap w hS (by omega) hx hp hless
        · rw [hperm.length_eq]
          omega
        · omega
      · next hless =>
        apply htop h i hup
        intro x p _ hx' hp'
        rw [hx, Option.some.injEq] at hx'
        rw [hp, Option.some.injEq] at hp'
        subst hx' hp'
        simpa using hless

/-- Appending an element to a heap and sifting it up. -/
theorem siftUp_append_isHeap (w : WeakOrder less S) {h : List ι} {x : ι} (hS : ∀ z ∈ h, S z)
    (hx : S x) (hheap : IsHeap less h) :
    IsHeap less (siftUp less h.length (h ++ [x]) h.length) := by
  apply siftUp_isHeap w h.length (h ++ [x]) h.length
  · intro z hz
    rcases List.mem_append.mp hz with hz | hz
    · exact hS z hz
    · rw [List.mem_singleton.mp hz]
      exact hx
  · constructor
    · intro j a b hj hne ha hb
      have hjlt := (List.getElem?_eq_some_iff.mp hb).1
      rw [List.length_append, List.length_singleton] at hjlt
      rw [List.getElem?_append_left (by omega)] at ha hb
      exact hheap j a b hj ha hb
    · intro j a b hpos hj hpar ha hb
      have hjlt := (List.getElem?_eq_some_iff.mp hb).1
      rw [List.length_append, List.length_singleton] at hjlt
      omega
  · simp
  · exact Nat.le_refl _

end Up

/-! ## Down -/

section Down

variable {less : ι → ι → Bool} {S : ι → Prop}

/-- A heap up to the element at position `i`, which may follow its children: the children of
`i` do not precede the parent of `i`. -/
structure DownHeap (less : ι → ι → Bool) (h : List ι) (i : ℕ) : Prop where
  off : ∀ j x y, 0 < j → (j - 1) / 2 ≠ i → h[(j - 1) / 2]? = some x → h[j]? = some y →
    less y x = false
  grand : ∀ j x y, 0 < i → 0 < j → (j - 1) / 2 = i → h[(i - 1) / 2]? = some x → h[j]? = some y →
    less y x = false

/-- The smaller of a child and the best place so far. -/
theorem smaller_spec (w : WeakOrder less S) {h : List ι} (hS : ∀ z ∈ h, S z) {j best : ℕ} {y : ι}
    (hbest : h[best]? = some y) :
    ∃ z, h[smaller less h j best]? = some z ∧ less y z = false ∧
      (∀ x, h[j]? = some x → less x z = false) ∧
      (smaller less h j best = best ∨
        smaller less h j best = j ∧ ∃ x, h[j]? = some x ∧ less x y = true) := by
  have hSy := hS y (List.mem_of_getElem? hbest)
  have hrefl := w.irrefl hSy
  cases hj : h[j]? with
  | none =>
    have hs : smaller less h j best = best := by simp [smaller, hj]
    rw [hs]
    exact ⟨y, hbest, hrefl, by simp, .inl rfl⟩
  | some x =>
    have hSx := hS x (List.mem_of_getElem? hj)
    have hs : smaller less h j best = if less x y then j else best := by
      simp [smaller, hj, hbest]
    cases hxy : less x y with
    | true =>
      rw [hxy, if_pos rfl] at hs
      rw [hs]
      refine ⟨x, hj, w.asymm hSx hSy hxy, ?_, .inr ⟨rfl, x, rfl, hxy⟩⟩
      intro x' hx'
      rw [Option.some.injEq] at hx'
      subst hx'
      exact w.irrefl hSx
    | false =>
      rw [hxy, if_neg (by simp)] at hs
      rw [hs]
      refine ⟨y, hbest, hrefl, ?_, .inl rfl⟩
      intro x' hx'
      rw [Option.some.injEq] at hx'
      subst hx'
      exact hxy

/-- The least of an element and its children is none of them but in its place, or a child
that precedes the element. -/
theorem smallest_spec (w : WeakOrder less S) {h : List ι} (hS : ∀ z ∈ h, S z) {i : ℕ} {x : ι}
    (hi : h[i]? = some x) :
    ∃ z, h[smallest less h i]? = some z ∧
      (∀ j y, 0 < j → (j - 1) / 2 = i → h[j]? = some y → less y z = false) ∧
      (smallest less h i = i ∨
        (smallest less h i - 1) / 2 = i ∧ i < smallest less h i ∧ less x z = false) := by
  obtain ⟨u, hu, hxu, hleft, hwhere⟩ := smaller_spec w hS (j := 2 * i + 1) hi
  obtain ⟨z, hz, huz, hright, hwhere'⟩ := smaller_spec w hS (j := 2 * i + 2) hu
  have hSx := hS x (List.mem_of_getElem? hi)
  have hSu := hS u (List.mem_of_getElem? hu)
  have hSz := hS z (List.mem_of_getElem? hz)
  refine ⟨z, hz, ?_, ?_⟩
  · intro j y hj hpar hy
    rcases (by omega : j = 2 * i + 1 ∨ j = 2 * i + 2) with rfl | rfl
    · exact w.trans hSz hSu (hS y (List.mem_of_getElem? hy)) huz (hleft y hy)
    · exact hright y hy
  · have hxz : less x z = false := w.trans hSz hSu hSx huz hxu
    unfold smallest
    rcases hwhere' with heq | ⟨heq, -⟩
    · rw [heq]
      rcases hwhere with heq' | ⟨heq', -⟩
      · exact .inl heq'
      · rw [heq']
        exact .inr ⟨by omega, by omega, hxz⟩
    · rw [heq]
      exact .inr ⟨by omega, by omega, hxz⟩

/-- An exchange with the smaller child moves the place that is out of order down. -/
theorem DownHeap.swap {h : List ι} {i s : ℕ} {x z : ι} (hdown : DownHeap less h i)
    (hx : h[i]? = some x) (hz : h[s]? = some z) (hpar : (s - 1) / 2 = i) (hlt : i < s)
    (hxz : less x z = false)
    (hmin : ∀ j y, 0 < j → (j - 1) / 2 = i → h[j]? = some y → less y z = false) :
    DownHeap less ((h.set i z).set s x) s := by
  constructor
  · intro j a b hj hne ha hb
    rw [getElem?_swap hx hz] at ha hb
    rw [if_neg hne] at ha
    by_cases hpi : (j - 1) / 2 = i
    · rw [if_pos hpi, Option.some.injEq] at ha
      subst ha
      by_cases hjs : j = s
      · rw [if_pos hjs, Option.some.injEq] at hb
        subst hb
        exact hxz
      · rw [if_neg hjs, if_neg (by omega)] at hb
        exact hmin j b hj hpi hb
    · rw [if_neg hpi] at ha
      rw [if_neg (by intro hjs; rw [hjs] at hpi; exact hpi hpar)] at hb
      by_cases hji : j = i
      · rw [if_pos hji, Option.some.injEq] at hb
        subst hb hji
        exact hdown.grand s a _ hj (by omega) hpar ha hz
      · rw [if_neg hji] at hb
        exact hdown.off j a b hj hpi ha hb
  · intro j a b _ hj hpar' ha hb
    rw [getElem?_swap hx hz, if_neg (by omega), if_pos hpar, Option.some.injEq] at ha
    subst ha
    rw [getElem?_swap hx hz, if_neg (by omega), if_neg (by omega)] at hb
    exact hdown.off j _ b hj (by omega) (by rw [hpar']; exact hz) hb

/-- **Sifting down ends in a heap.** -/
theorem siftDown_isHeap (w : WeakOrder less S) (fuel : ℕ) :
    ∀ (h : List ι) (i : ℕ), (∀ z ∈ h, S z) → DownHeap less h i → i < h.length →
      h.length ≤ fuel + i → IsHeap less (siftDown less fuel h i) := by
  induction fuel with
  | zero => intro h i _ _ hlt hfuel; omega
  | succ fuel ih =>
    intro h i hS hdown hlt hfuel
    have hx := List.getElem?_eq_getElem hlt
    obtain ⟨z, hz, hmin, hwhere⟩ := smallest_spec w hS hx
    rw [siftDown]
    split
    · next heq =>
      -- nothing precedes the element, so the last pairs are in order too
      intro j a b hj ha hb
      by_cases hpar : (j - 1) / 2 = i
      · rw [heq] at hz
        rw [hpar, hz, Option.some.injEq] at ha
        subst ha
        exact hmin j b hj hpar hb
      · exact hdown.off j a b hj hpar ha hb
    · next hne =>
      obtain ⟨hpar, hgt, hxz⟩ := hwhere.resolve_left hne
      rw [hx, hz]
      dsimp only
      have hperm := swap_perm hx hz
      have hslt := (List.getElem?_eq_some_iff.mp hz).1
      apply ih
      · intro y hy
        exact hS y (hperm.mem_iff.mp hy)
      · exact hdown.swap hx hz hpar hgt hxz hmin
      · rw [hperm.length_eq]
        exact hslt
      · rw [hperm.length_eq]
        omega

/-- A heap whose root was replaced. -/
theorem siftDown_root_isHeap (w : WeakOrder less S) {h : List ι} (hS : ∀ z ∈ h, S z)
    (hne : h ≠ [])
    (hoff : ∀ j x y, 0 < (j - 1) / 2 → h[(j - 1) / 2]? = some x → h[j]? = some y →
      less y x = false) :
    IsHeap less (siftDown less h.length h 0) := by
  apply siftDown_isHeap w h.length h 0 hS
  · constructor
    · intro j x y _ hpar hx hy
      exact hoff j x y (by omega) hx hy
    · intro j x y hpos
      exact absurd hpos (Nat.lt_irrefl 0)
  · exact List.length_pos_of_ne_nil hne
  · omega

/-- **Nothing precedes the root of a heap.** -/
theorem IsHeap.root_le (w : WeakOrder less S) {h : List ι} (hS : ∀ z ∈ h, S z)
    (hheap : IsHeap less h) {x : ι} (hx : h[0]? = some x) :
    ∀ (j : ℕ) (y : ι), h[j]? = some y → less y x = false := by
  intro j
  have hSx := hS x (List.mem_of_getElem? hx)
  induction j using Nat.strongRecOn with
  | ind j ih =>
    intro y hy
    have hSy := hS y (List.mem_of_getElem? hy)
    by_cases hj : j = 0
    · subst hj
      rw [hx, Option.some.injEq] at hy
      subst hy
      exact w.irrefl hSx
    · have hjlt := (List.getElem?_eq_some_iff.mp hy).1
      have hp := List.getElem?_eq_getElem (show (j - 1) / 2 < h.length by omega)
      have hxp := ih ((j - 1) / 2) (by omega) _ hp
      exact w.trans hSx (hS _ (List.mem_of_getElem? hp)) hSy hxp
        (hheap j _ y (by omega) hp hy)

end Down

end Recorder.Lib
