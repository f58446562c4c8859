import Mathlib.Data.List.Basic
import Mathlib.Data.List.Induction
import Mathlib.Data.List.Nodup
import Mathlib.Logic.Function.Basic

/-!
# A queue of linked nodes

A heap maps addresses to nodes, a node holds a value and the address of the next one. A queue
is a head and a tail pointer into such a heap. `IsQueue` says which nodes it consists of: those
met from the head on, with the tail pointer at the last of them. Nodes are put behind the tail
(`IsQueue.push`) and taken from the head (`IsQueue.pop`); a heap that agrees on the nodes of
the queue holds the same queue (`IsQueue.congr`).
-/

set_option autoImplicit false

namespace Recorder.Lib

/-- A value, and the node behind it. -/
structure Node (α : Type) where
  value : α
  next : Option ℕ

/-- The nodes that are allocated. -/
abbrev NodeHeap (α : Type) := ℕ → Option (Node α)

variable {α : Type}

namespace NodeHeap

/-- A new node at `a`. -/
def alloc (h : NodeHeap α) (a : ℕ) (x : α) : NodeHeap α :=
  Function.update h a (some ⟨x, none⟩)

/-- The node at `a` is given back. -/
def free (h : NodeHeap α) (a : ℕ) : NodeHeap α := Function.update h a none

/-- The `next` of the node at `a` is assigned. -/
def setNext (h : NodeHeap α) (a : ℕ) (next : Option ℕ) : NodeHeap α :=
  Function.update h a ((h a).map fun node => { node with next })

/-- A new node holds its value and has no successor. -/
@[simp]
theorem alloc_same (h : NodeHeap α) (a : ℕ) (x : α) : h.alloc a x a = some ⟨x, none⟩ :=
  Function.update_self a _ h

/-- A new node leaves the others alone. -/
theorem alloc_of_ne (h : NodeHeap α) {a b : ℕ} (x : α) (hab : b ≠ a) : h.alloc a x b = h b :=
  Function.update_of_ne hab _ h

/-- Freeing a node leaves the others alone. -/
theorem free_of_ne (h : NodeHeap α) {a b : ℕ} (hab : b ≠ a) : h.free a b = h b :=
  Function.update_of_ne hab _ h

/-- Linking a node changes its successor only. -/
@[simp]
theorem setNext_same (h : NodeHeap α) (a : ℕ) (next : Option ℕ) :
    h.setNext a next a = (h a).map fun node => { node with next } :=
  Function.update_self a _ h

/-- Linking a node leaves the others alone. -/
theorem setNext_of_ne (h : NodeHeap α) {a b : ℕ} (next : Option ℕ) (hab : b ≠ a) :
    h.setNext a next b = h b :=
  Function.update_of_ne hab _ h

end NodeHeap

/-- The nodes met from `p` on, up to the pointer `q`. -/
def ListSeg (h : NodeHeap α) : Option ℕ → List (ℕ × α) → Option ℕ → Prop
  | p, [], q => p = q
  | p, (a, x) :: items, q =>
    p = some a ∧ ∃ next, h a = some ⟨x, next⟩ ∧ ListSeg h next items q

/-- A segment is still one in a heap with the same nodes. -/
theorem ListSeg.congr {h h' : NodeHeap α} {p q : Option ℕ} {items : List (ℕ × α)}
    (hseg : ListSeg h p items q) (hsame : ∀ item ∈ items, h' item.1 = h item.1) :
    ListSeg h' p items q := by
  induction items generalizing p with
  | nil => exact hseg
  | cons item items ih =>
    obtain ⟨hp, next, hnode, hrest⟩ := hseg
    refine ⟨hp, next, ?_, ih hrest fun item hitem => ?_⟩
    · rw [hsame item List.mem_cons_self]
      exact hnode
    · exact hsame item (List.mem_cons_of_mem _ hitem)

/-- A segment that is not empty ends at its last node. -/
theorem listSeg_concat_iff {h : NodeHeap α} {p q : Option ℕ} {items : List (ℕ × α)} {a : ℕ}
    {x : α} :
    ListSeg h p (items ++ [(a, x)]) q ↔
      ListSeg h p items (some a) ∧ h a = some ⟨x, q⟩ := by
  induction items generalizing p with
  | nil =>
    constructor
    · rintro ⟨hp, next, hnode, hnext⟩
      have hnext : next = q := hnext
      exact ⟨hp, hnext ▸ hnode⟩
    · rintro ⟨hp, hnode⟩
      exact ⟨hp, q, hnode, rfl⟩
  | cons item items ih =>
    constructor
    · rintro ⟨hp, next, hnode, hrest⟩
      obtain ⟨hrest, hlast⟩ := ih.mp hrest
      exact ⟨⟨hp, next, hnode, hrest⟩, hlast⟩
    · rintro ⟨⟨hp, next, hnode, hrest⟩, hlast⟩
      exact ⟨hp, next, hnode, ih.mpr ⟨hrest, hlast⟩⟩

/-- Every node of a segment is allocated and holds its item. -/
theorem ListSeg.live {h : NodeHeap α} {p q : Option ℕ} {items : List (ℕ × α)}
    (hseg : ListSeg h p items q) : ∀ item ∈ items, ∃ next, h item.1 = some ⟨item.2, next⟩ := by
  induction items generalizing p with
  | nil => exact fun item hitem => absurd hitem List.not_mem_nil
  | cons item items ih =>
    obtain ⟨hp, next, hnode, hrest⟩ := hseg
    intro other hother
    cases List.mem_cons.mp hother with
    | inl heq => exact heq ▸ ⟨next, hnode⟩
    | inr hmem => exact ih hrest other hmem

/-- The queue with these nodes, first to last. -/
structure IsQueue (h : NodeHeap α) (head tail : Option ℕ) (items : List (ℕ × α)) : Prop where
  seg : ListSeg h head items none
  nodup : (items.map Prod.fst).Nodup
  tail_eq : tail = items.getLast?.map Prod.fst

namespace IsQueue

variable {h h' : NodeHeap α} {head tail : Option ℕ} {items : List (ℕ × α)}

/-- Two null pointers are the empty queue. -/
theorem empty (h : NodeHeap α) : IsQueue h none none [] where
  seg := rfl
  nodup := List.nodup_nil
  tail_eq := rfl

/-- A queue is still one in a heap with the same nodes. -/
theorem congr (hq : IsQueue h head tail items) (hsame : ∀ item ∈ items, h' item.1 = h item.1) :
    IsQueue h' head tail items where
  seg := hq.seg.congr hsame
  nodup := hq.nodup
  tail_eq := hq.tail_eq

/-- The head is null in the empty queue only. -/
theorem head_eq_none_iff (hq : IsQueue h head tail items) : head = none ↔ items = [] := by
  cases items with
  | nil =>
    constructor
    · intro _
      rfl
    · intro _
      exact hq.seg
  | cons item items =>
    have hhead : head = some item.1 := hq.seg.1
    rw [hhead]
    constructor
    · intro heq
      cases heq
    · intro heq
      cases heq

/-- The tail is null in the empty queue only. -/
theorem tail_eq_none_iff (hq : IsQueue h head tail items) : tail = none ↔ items = [] := by
  rw [hq.tail_eq, Option.map_eq_none_iff, List.getLast?_eq_none_iff]

/-- **Putting a node behind the tail.** It is a node of its own without a next one; the tail
is redirected to it, and the head too where the queue was empty. -/
theorem push (hq : IsQueue h head tail items) {a : ℕ} {x : α} (hnew : ∀ item ∈ items, item.1 ≠ a)
    (hnode : h a = some ⟨x, none⟩) :
    IsQueue (tail.elim h fun t => h.setNext t (some a)) (tail.elim (some a) fun _ => head)
      (some a) (items ++ [(a, x)]) := by
  have hnodup : ((items ++ [(a, x)]).map Prod.fst).Nodup := by
    rw [List.map_append, List.nodup_append]
    refine ⟨hq.nodup, List.nodup_singleton a, ?_⟩
    intro b hb c hc
    obtain ⟨item, hitem, rfl⟩ := List.mem_map.mp hb
    rw [List.mem_singleton.mp hc]
    exact hnew item hitem
  have hlast : some a = (items ++ [(a, x)]).getLast?.map Prod.fst := by
    rw [List.getLast?_concat]
    rfl
  refine ⟨?_, hnodup, hlast⟩
  rw [listSeg_concat_iff]
  cases items using List.reverseRecOn with
  | nil =>
    have htail : tail = none := hq.tail_eq
    subst htail
    exact ⟨rfl, hnode⟩
  | append_singleton items last =>
    have htail : tail = some last.1 := by
      rw [hq.tail_eq, List.getLast?_concat]
      rfl
    subst htail
    show ListSeg (h.setNext last.1 (some a)) head (items ++ [last]) (some a) ∧
      h.setNext last.1 (some a) a = some ⟨x, none⟩
    have hseg := listSeg_concat_iff.mp hq.seg
    have hne : last.1 ≠ a := hnew last (List.mem_append_right _ (List.mem_singleton_self last))
    have hother : ∀ item ∈ items, item.1 ≠ last.1 := by
      have hnd := hq.nodup
      rw [List.map_append, List.nodup_append] at hnd
      intro item hitem
      exact hnd.2.2 item.1 (List.mem_map_of_mem hitem) last.1 (List.mem_singleton_self _)
    constructor
    · rw [listSeg_concat_iff]
      constructor
      · exact hseg.1.congr fun item hitem => NodeHeap.setNext_of_ne h _ (hother item hitem)
      · rw [NodeHeap.setNext_same, hseg.2]
        rfl
    · rw [NodeHeap.setNext_of_ne h _ hne.symm]
      exact hnode

/-- **Taking the node at the head.** -/
theorem pop {a : ℕ} (hq : IsQueue h (some a) tail items) :
    ∃ x next rest, items = (a, x) :: rest ∧ h a = some ⟨x, next⟩ ∧
      IsQueue h next (if next.isNone then none else tail) rest := by
  cases items with
  | nil => exact nomatch hq.seg
  | cons item rest =>
    obtain ⟨b, x⟩ := item
    obtain ⟨hhead, next, hnode, hrest⟩ := hq.seg
    cases hhead
    refine ⟨x, next, rest, rfl, hnode, hrest, (List.nodup_cons.mp hq.nodup).2, ?_⟩
    cases rest with
    | nil =>
      have hnext : next = none := hrest
      rw [hnext]
      rfl
    | cons second rest =>
      have hnext : next = some second.1 := hrest.1
      rw [hnext, hq.tail_eq, List.getLast?_cons_cons]
      rfl

end IsQueue

end Recorder.Lib
