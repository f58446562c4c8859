import Recorder.Lib.Merge

/-!
# Merging lists that were thinned out

A list is thinned out when elements that nobody asks for are left out of it, each of them one
that does not come after anything behind it (`Thinned`). A merge of thinned lists delivers the
elements that were asked for in the order in which the merge of the full lists delivers them
(`MergeRun.filter_eq_of_thinned`), though the lists need not be sorted.

Ends of lists hold the elements of the lists with a property just if each of them does
(`flatten_perm_filter_iff`). A merge run by a comparison is one by any coarser comparison
(`MergeRun.coarsen`).
-/

set_option autoImplicit false

namespace Recorder.Lib

variable {α : Type} {cmp : α → α → Ordering} {keep : α → Bool}

/-- A list without some of the elements that are not kept. -/
inductive Thinned (cmp : α → α → Ordering) (keep : α → Bool) : List α → List α → Prop
  | nil : Thinned cmp keep [] []
  | cons (x : α) {l l' : List α} (h : Thinned cmp keep l l') : Thinned cmp keep (x :: l) (x :: l')
  | drop (x : α) {l l' : List α} (hkeep : keep x = false) (hfirst : ∀ y ∈ l, (cmp x y).isLE)
      (h : Thinned cmp keep l l') : Thinned cmp keep (x :: l) l'

section Thinned

variable {l l' : List α}

theorem Thinned.refl (l : List α) : Thinned cmp keep l l := by
  induction l with
  | nil => exact .nil
  | cons x l ih => exact .cons x ih

theorem Thinned.sublist (h : Thinned cmp keep l l') : l'.Sublist l := by
  induction h with
  | nil => exact List.Sublist.refl _
  | cons x _ ih => exact ih.cons_cons x
  | drop x _ _ _ ih => exact ih.cons x

/-- Nothing that is kept was left out. -/
theorem Thinned.filter_eq (h : Thinned cmp keep l l') : l'.filter keep = l.filter keep := by
  induction h with
  | nil => rfl
  | cons x _ ih => rw [List.filter_cons, List.filter_cons, ih]
  | drop x hkeep _ _ ih => rw [List.filter_cons_of_neg (by simp [hkeep]), ih]

/-- A sorted list can be left out as a whole. -/
theorem thinned_nil (hsorted : SortedBy cmp l) (hkeep : ∀ x ∈ l, keep x = false) :
    Thinned cmp keep l [] := by
  induction l with
  | nil => exact .nil
  | cons x l ih =>
    obtain ⟨hfirst, hrest⟩ := List.pairwise_cons.mp hsorted
    exact .drop x (hkeep x (by simp)) hfirst (ih hrest fun y hy => hkeep y (by simp [hy]))

/-- What was left out in front must not come after anything behind it. -/
theorem Thinned.append {m m' : List α} (h : Thinned cmp keep l l') (hm : Thinned cmp keep m m')
    (hfirst : ∀ x ∈ l, ∀ y ∈ m, (cmp x y).isLE) : Thinned cmp keep (l ++ m) (l' ++ m') := by
  induction h with
  | nil => exact hm
  | cons x _ ih => exact .cons x (ih fun y hy => hfirst y (by simp [hy]))
  | drop x hkeep hle _ ih =>
    refine .drop x hkeep ?_ (ih fun y hy => hfirst y (by simp [hy]))
    intro y hy
    rcases List.mem_append.mp hy with hy | hy
    · exact hle y hy
    · exact hfirst x (by simp) y hy

/-- The blocks of a sorted list that hold nothing to be kept can be left out. -/
theorem thinned_flatMap {β : Type} (pass : β → Bool) (block : β → List α) {bs : List β}
    (hsorted : SortedBy cmp (bs.flatMap block))
    (hkeep : ∀ b ∈ bs, pass b = false → ∀ x ∈ block b, keep x = false) :
    Thinned cmp keep (bs.flatMap block) ((bs.filter pass).flatMap block) := by
  induction bs with
  | nil => exact .nil
  | cons b bs ih =>
    rw [List.flatMap_cons] at hsorted ⊢
    obtain ⟨hblock, hrest, hfirst⟩ := List.pairwise_append.mp hsorted
    have htail := ih hrest fun c hc => hkeep c (by simp [hc])
    cases hpass : pass b with
    | true =>
      rw [List.filter_cons_of_pos hpass, List.flatMap_cons]
      exact (Thinned.refl _).append htail hfirst
    | false =>
      rw [List.filter_cons_of_neg (by simp [hpass])]
      have hnone : Thinned cmp keep (block b) [] :=
        thinned_nil hblock (hkeep b (by simp) hpass)
      exact hnone.append htail hfirst

/-- The head of a list does not come after the head of what is left of it. -/
theorem Thinned.head_isLE [Std.ReflCmp cmp] (h : Thinned cmp keep l l') {y : α} {rest : List α}
    (hl' : l' = y :: rest) : ∃ x, x ∈ l.head? ∧ (cmp x y).isLE := by
  cases h with
  | nil => cases hl'
  | cons x _ =>
    obtain ⟨rfl, -⟩ := List.cons.inj hl'
    exact ⟨x, rfl, by simp [Std.ReflCmp.compare_self]⟩
  | drop x _ hfirst h =>
    refine ⟨x, rfl, hfirst y (h.sublist.subset ?_)⟩
    rw [hl']
    exact List.mem_cons_self

end Thinned

/-- **A merge of thinned lists keeps the order.** The induction is on the run over the full
lists: a step that takes an element that was left out has no counterpart, any other is the
only one the thinned lists allow. -/
theorem MergeRun.filter_eq_of_thinned [Std.TransCmp cmp] {ls : List (List α)} {out : List α}
    (h : MergeRun cmp ls out) : ∀ {ls' : List (List α)} {out' : List α},
      List.Forall₂ (Thinned cmp keep) ls ls' → Separated cmp ls' → MergeRun cmp ls' out' →
      out'.filter keep = out.filter keep := by
  induction h with
  | done ls h =>
    intro ls' out' hthin _ hrun'
    have hnil : ∀ l' ∈ ls', l' = [] := by
      intro l' hl'
      obtain ⟨j, hj⟩ := List.getElem?_of_mem hl'
      obtain ⟨l, hl, hll'⟩ := forall₂_getElem? hthin hj
      have hsub := hll'.sublist
      rw [h l (List.mem_of_getElem? hl)] at hsub
      exact List.sublist_nil.mp hsub
    have hperm := hrun'.perm
    rw [List.flatten_eq_nil_iff.mpr hnil] at hperm
    rw [hperm.eq_nil]
  | step ls i x rest out hi hmin hrun ih =>
    intro ls' out' hthin hsep hrun'
    obtain ⟨l', hi', hthinned⟩ : ∃ l', ls'[i]? = some l' ∧ Thinned cmp keep (x :: rest) l' :=
      forall₂_getElem? (List.Forall₂.flip hthin) hi
    cases hthinned with
    | drop _ hkeep _ hrest =>
      -- the run over the thinned lists does not see this step
      have hset := forall₂_set hthin hrest i
      obtain ⟨hlt, heq⟩ := List.getElem?_eq_some_iff.mp hi'
      rw [← heq, List.set_getElem_self] at hset
      rw [List.filter_cons_of_neg (by simp [hkeep])]
      exact ih hset hsep hrun'
    | @cons _ _ rest' hrest =>
      cases hrun' with
      | done _ hnil => cases hnil _ (List.mem_of_getElem? hi')
      | step _ j y rest'' out'' hj hmin' hrun'' =>
        have hyx : (cmp y x).isLE := hmin' _ (List.mem_of_getElem? hi') x rfl
        have hxy : (cmp x y).isLE := by
          obtain ⟨l, hl, hlthin⟩ := forall₂_getElem? hthin hj
          obtain ⟨z, hz, hzy⟩ := hlthin.head_isLE rfl
          exact Std.TransCmp.isLE_trans (hmin l (List.mem_of_getElem? hl) z hz) hzy
        obtain rfl : i = j := hsep.index_eq hi' hj (Std.OrientedCmp.isLE_antisymm hxy hyx)
        rw [hi', Option.some.injEq, List.cons.injEq] at hj
        obtain ⟨rfl, rfl⟩ := hj
        have hnext := ih (forall₂_set hthin hrest i) (hsep.set hi') hrun''
        rw [List.filter_cons, List.filter_cons, hnext]

/-- A merge run by a comparison is one by a coarser comparison. -/
theorem MergeRun.coarsen {cmp' : α → α → Ordering} {ls : List (List α)} {out : List α}
    (h : MergeRun cmp ls out) (hcoarse : ∀ a b, (cmp a b).isLE → (cmp' a b).isLE) :
    MergeRun cmp' ls out := by
  induction h with
  | done ls h => exact .done ls h
  | step ls i x rest out hi hmin _ ih =>
    exact .step ls i x rest out hi (fun l hl y hy => hcoarse x y (hmin l hl y hy)) ih

/-! ## Ends of lists -/

section Ends

variable {p : α → Bool} {ls posts : List (List α)}

/-- Ends of lists with elements of a property only hold no more of them than the lists. -/
theorem length_flatten_le_filter (h : List.Forall₂ (fun l post => ∃ pre, l = pre ++ post) ls posts)
    (hall : ∀ post ∈ posts, ∀ x ∈ post, p x = true) :
    posts.flatten.length ≤ (ls.flatten.filter p).length := by
  induction h with
  | nil => exact Nat.le_refl _
  | @cons l post ls posts hl _ ih =>
    obtain ⟨pre, rfl⟩ := hl
    have hpost : post.filter p = post := List.filter_eq_self.mpr (hall post (by simp))
    have hrest := ih fun post' hpost' => hall post' (by simp [hpost'])
    rw [List.flatten_cons, List.flatten_cons, List.filter_append, List.filter_append, hpost]
    simp only [List.length_append]
    omega

/-- **Ends of lists hold the elements with a property** just if each end holds those of its
list. -/
theorem flatten_perm_filter_iff
    (h : List.Forall₂ (fun l post => ∃ pre, l = pre ++ post) ls posts) :
    posts.flatten.Perm (ls.flatten.filter p) ↔
      List.Forall₂ (fun l post => post = l.filter p) ls posts := by
  constructor
  · intro hperm
    have hall : ∀ post ∈ posts, ∀ x ∈ post, p x = true := by
      intro post hpost x hx
      have := hperm.mem_iff.mp (List.mem_flatten.mpr ⟨post, hpost, hx⟩)
      exact (List.mem_filter.mp this).2
    have hlen := hperm.length_eq
    clear hperm
    induction h with
    | nil => exact .nil
    | @cons l post ls posts hl hrest ih =>
      obtain ⟨pre, rfl⟩ := hl
      have hpost : post.filter p = post := List.filter_eq_self.mpr (hall post (by simp))
      have hall' : ∀ post' ∈ posts, ∀ x ∈ post', p x = true :=
        fun post' hpost' => hall post' (by simp [hpost'])
      have hle := length_flatten_le_filter hrest hall'
      rw [List.flatten_cons, List.flatten_cons, List.filter_append, List.filter_append, hpost]
        at hlen
      simp only [List.length_append] at hlen
      have hnil : pre.filter p = [] := List.length_eq_zero_iff.mp (by omega)
      refine .cons ?_ (ih hall' (by omega))
      rw [List.filter_append, hpost, hnil, List.nil_append]
  · intro heach
    have heq : posts.flatten = ls.flatten.filter p := by
      clear h
      induction heach with
      | nil => rfl
      | cons hl _ ih => rw [List.flatten_cons, List.flatten_cons, List.filter_append, ih, hl]
    rw [heq]

end Ends

/-- What each pair of two lists is related through makes up a list of its own. -/
theorem forall₂_exists {β γ δ : Type} {R : β → γ → δ → Prop} {bs : List β} {cs : List γ}
    (h : List.Forall₂ (fun b c => ∃ d, R b c d) bs cs) :
    ∃ ds, List.Forall₂ (fun b d => ∃ c, R b c d) bs ds ∧
      List.Forall₂ (fun c d => ∃ b, R b c d) cs ds := by
  induction h with
  | nil => exact ⟨[], .nil, .nil⟩
  | @cons b c bs cs hbc _ ih =>
    obtain ⟨d, hd⟩ := hbc
    obtain ⟨ds, hleft, hright⟩ := ih
    exact ⟨d :: ds, .cons ⟨c, hd⟩ hleft, .cons ⟨b, hd⟩ hright⟩

/-- Two relations that agree on the pairs of two lists. -/
theorem forall₂_congr_of {β γ : Type} {R S T : β → γ → Prop} {bs : List β} {cs : List γ}
    (h : List.Forall₂ T bs cs) (hiff : ∀ b c, T b c → (R b c ↔ S b c)) :
    List.Forall₂ R bs cs ↔ List.Forall₂ S bs cs := by
  induction h with
  | nil => exact ⟨fun _ => .nil, fun _ => .nil⟩
  | cons hbc _ ih => rw [List.forall₂_cons, List.forall₂_cons, hiff _ _ hbc, ih]

/-- A pair put back where it was left out. -/
theorem forall₂_insertIdx {β γ : Type} {R : β → γ → Prop} {bs : List β} {cs : List γ} {b : β}
    {c : γ} {i : ℕ} (h : List.Forall₂ R (bs.eraseIdx i) cs) (hb : bs[i]? = some b)
    (hbc : R b c) : List.Forall₂ R bs (cs.insertIdx i c) := by
  induction bs generalizing cs i with
  | nil => cases hb
  | cons b0 bs ih =>
    cases i with
    | zero =>
      obtain rfl : b0 = b := Option.some.inj hb
      exact .cons hbc h
    | succ i =>
      rw [List.eraseIdx_cons_succ] at h
      cases h with
      | cons h0 hrest => exact .cons h0 (ih hrest hb)

/-- A relation of the left elements only. -/
theorem forall₂_left_iff {β γ : Type} {R : β → Prop} {bs : List β} {cs : List γ}
    (h : bs.length = cs.length) : List.Forall₂ (fun b _ => R b) bs cs ↔ ∀ b ∈ bs, R b := by
  induction bs generalizing cs with
  | nil =>
    obtain rfl := List.length_eq_zero_iff.mp h.symm
    simp
  | cons b bs ih =>
    cases cs with
    | nil => cases h
    | cons c cs =>
      rw [List.forall₂_cons, ih (by simpa using h), List.forall_mem_cons]

end Recorder.Lib
