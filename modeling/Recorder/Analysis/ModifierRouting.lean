import Recorder.Model.Modifiers
import Mathlib.Data.Fintype.Card
import Mathlib.Data.Nat.Bitwise

/-!
# Where the modifiers route an entry

The reroute loop goes from one state to the next while the list of a group moves the entry to
a priority it has not had (`Moved`). The priorities of such a state are all different, so it
is reached with a turn of the loop left (`Moved.length_le`), the limit never ends the loop
(`applyEntryModifiers_eq`), and what the list of the last state does decides.

**Main result**: `entry_modifiers_settle_or_drop`.
-/

set_option autoImplicit false

namespace Recorder.Analysis

open Recorder.Model

/-! ## One list -/

section Lists

variable (ops : ModifierOps) (journal : Bytes → Option Bytes)

/-- A modifier matches an entry. -/
def ModifierMatches (m : EntryModifier) (e : ModifiedEntry) : Prop :=
  ∃ matched captures,
    modifierMatch ops m (modifierSubject journal m e) = some (matched, captures) ∧
      matched ≠ m.negate

/-- A list has a matching modifier with `drop` set; the modifiers in front of it are applied
before it is matched. -/
def DropMatches (list : List EntryModifier) (e : ModifiedEntry) : Prop :=
  ∃ before m after e', list = before ++ m :: after ∧
    applyModifierList ops journal before e = .keep e' ∧ ModifierMatches ops journal m e' ∧
    m.drop = true

/-- No matcher of a list fails. -/
def NeverFails (list : List EntryModifier) : Prop :=
  ∀ m ∈ list, ∀ e, applyModifier ops journal m e ≠ .error

variable {ops journal} {m : EntryModifier} {list : List EntryModifier} {e e' : ModifiedEntry}

theorem applyModifier_drop_iff (h : applyModifier ops journal m e ≠ .error) :
    applyModifier ops journal m e = .drop ↔ ModifierMatches ops journal m e ∧ m.drop = true := by
  unfold applyModifier ModifierMatches at *
  cases hmatch : modifierMatch ops m (modifierSubject journal m e) with
  | none => simp [hmatch] at h
  | some r =>
    obtain ⟨matched, captures⟩ := r
    simp only [hmatch, Option.some.injEq, Prod.mk.injEq] at h ⊢
    by_cases hneg : matched = m.negate
    · simp [hneg]
    · have hbeq : (matched == m.negate) = false := by simpa using hneg
      simp only [hbeq, Bool.false_eq_true, if_false] at h ⊢
      cases hrewrite : modifierRewrite ops m captures e.texts with
      | none => simp [hrewrite] at h
      | some texts =>
        by_cases hdrop : m.drop = true
        · simp [hdrop, hneg]
        · simp [hdrop]

/-- **A list that does not fail drops an entry** just if one of its modifiers matches and has
`drop` set. -/
theorem applyModifierList_drop_iff (h : applyModifierList ops journal list e ≠ .error) :
    applyModifierList ops journal list e = .drop ↔ DropMatches ops journal list e := by
  induction list generalizing e with
  | nil =>
    simp only [applyModifierList, reduceCtorEq, false_iff]
    rintro ⟨before, m, after, e', heq, -⟩
    simp at heq
  | cons m rest ih =>
    unfold applyModifierList at h ⊢
    cases hstep : applyModifier ops journal m e with
    | error =>
      simp only [hstep] at h
      exact absurd rfl h
    | drop =>
      obtain ⟨hmatches, hdrop⟩ := (applyModifier_drop_iff (by simp [hstep])).mp hstep
      exact iff_of_true rfl ⟨[], m, rest, e, rfl, rfl, hmatches, hdrop⟩
    | keep e1 =>
      have hiff := applyModifier_drop_iff (show applyModifier ops journal m e ≠ .error by
        rw [hstep]
        simp)
      simp only [hstep] at h hiff
      rw [ih h]
      constructor
      · rintro ⟨before, m', after, e', rfl, happly, hmatches, hdrop⟩
        refine ⟨m :: before, m', after, e', rfl, ?_, hmatches, hdrop⟩
        rw [applyModifierList, hstep]
        exact happly
      · rintro ⟨before, m', after, e', heq, happly, hmatches, hdrop⟩
        cases before with
        | nil =>
          obtain ⟨rfl, rfl⟩ := List.cons.inj heq
          obtain rfl : e = e' := ModifierStep.keep.inj happly
          exact absurd (hiff.mpr ⟨hmatches, hdrop⟩) (by simp)
        | cons m0 before =>
          obtain ⟨rfl, rfl⟩ := List.cons.inj heq
          rw [applyModifierList, hstep] at happly
          exact ⟨before, m', after, e', rfl, happly, hmatches, hdrop⟩

/-- Modifiers without expressions and rewrites never fail. -/
theorem neverFails_of_plain
    (h : ∀ m ∈ list, m.rewrite = none ∧ ∀ pattern, m.matchKind ≠ .regex pattern) :
    NeverFails ops journal list := by
  intro m hm e
  obtain ⟨hrewrite, hkind⟩ := h m hm
  cases hmatch : m.matchKind with
  | regex pattern => exact absurd hmatch (hkind pattern)
  | exact text =>
    simp only [applyModifier, modifierMatch, hmatch, modifierRewrite, hrewrite]
    split
    · simp
    · split <;> simp
  | present value =>
    simp only [applyModifier, modifierMatch, hmatch, modifierRewrite, hrewrite]
    split
    · simp
    · split <;> simp

theorem applyModifierList_ne_error (h : NeverFails ops journal list) :
    applyModifierList ops journal list e ≠ .error := by
  induction list generalizing e with
  | nil => simp [applyModifierList]
  | cons m rest ih =>
    unfold applyModifierList
    cases hstep : applyModifier ops journal m e with
    | error => exact absurd hstep (h m List.mem_cons_self e)
    | drop => simp
    | keep e1 => exact ih fun m' hm' => h m' (List.mem_cons_of_mem _ hm')

end Lists

/-! ## Priorities -/

theorem priorityIndex_eq_some {p : UInt8} {i : Fin 8} :
    priorityIndex p = some i ↔ p = UInt8.ofNat i.val := by
  unfold priorityIndex
  split
  · next h =>
    rw [Option.some.injEq]
    constructor
    · rintro rfl
      exact (UInt8.ofNat_toNat).symm
    · rintro rfl
      apply Fin.ext
      have := i.isLt
      change (UInt8.ofNat i.val).toNat = i.val
      rw [UInt8.toNat_ofNat']
      omega
  · next h =>
    constructor
    · intro hnone
      cases hnone
    · rintro rfl
      exfalso
      apply h
      rw [UInt8.toNat_ofNat']
      have := i.isLt
      omega

theorem exists_priorityIndex {p : UInt8} (h : p ≤ 7) : ∃ i, priorityIndex p = some i := by
  have hlt : p.toNat < 8 := by
    have : p.toNat ≤ 7 := h
    omega
  exact ⟨_, dif_pos hlt⟩

theorem priorityIndex_le {p : UInt8} {i : Fin 8} (h : priorityIndex p = some i) : p ≤ 7 := by
  rw [priorityIndex_eq_some] at h
  subst h
  have := i.isLt
  have hval : (UInt8.ofNat i.val).toNat = i.val := by
    rw [UInt8.toNat_ofNat']
    omega
  rw [UInt8.le_iff_toNat_le, hval]
  exact Nat.le_of_lt_succ i.isLt

section Priorities

variable {ops : ModifierOps} {journal : Bytes → Option Bytes} {m : EntryModifier}
  {list : List EntryModifier} {e e' : ModifiedEntry}

/-- A modifier leaves the priority or sets one of the eight. -/
theorem applyModifier_priority (h : applyModifier ops journal m e = .keep e') :
    e'.priority = e.priority ∨ ∃ i, priorityIndex e'.priority = some i := by
  unfold applyModifier at h
  split at h
  · cases h
  · split at h
    · obtain rfl := ModifierStep.keep.inj h
      exact .inl rfl
    · split at h
      · cases h
      · split at h
        · cases h
        · obtain rfl := ModifierStep.keep.inj h
          cases hset : m.setPriority with
          | none => exact .inl (by simp)
          | some i => exact .inr ⟨i, priorityIndex_eq_some.mpr (by simp)⟩

theorem applyModifierList_priority (h : applyModifierList ops journal list e = .keep e') :
    e'.priority = e.priority ∨ ∃ i, priorityIndex e'.priority = some i := by
  induction list generalizing e with
  | nil =>
    obtain rfl := ModifierStep.keep.inj h
    exact .inl rfl
  | cons m rest ih =>
    unfold applyModifierList at h
    split at h
    · next e1 hstep =>
      rcases ih h with heq | hset
      · rw [heq]
        exact applyModifier_priority hstep
      · exact .inr hset
    · cases h
    · cases h

end Priorities

/-! ## The loop -/

/-- Every priority has a group, as in a configuration that was loaded. -/
def GroupsInRange (config : ModifierConfig) : Prop :=
  ∀ p, 0 ≤ config.priorityToGroup p ∧ config.priorityToGroup p < config.groups.length

/-- The list of the group of a priority. -/
def groupModifiers (config : ModifierConfig) (p : Fin 8) : List EntryModifier :=
  config.groups.getD (config.priorityToGroup p).toNat []

/-- The entry was moved by the lists of groups, each time to a priority it had not had: the
priorities it has had, the last one first, and the entry. -/
inductive Moved (ops : ModifierOps) (journal : Bytes → Option Bytes) (config : ModifierConfig)
    (start : ModifiedEntry) : List (Fin 8) → ModifiedEntry → Prop
  | start (p : Fin 8) (h : priorityIndex start.priority = some p) :
    Moved ops journal config start [p] start
  | move (p q : Fin 8) (visited : List (Fin 8)) (e e' : ModifiedEntry)
    (h : Moved ops journal config start (p :: visited) e)
    (hlist : applyModifierList ops journal (groupModifiers config p) e = .keep e')
    (hq : priorityIndex e'.priority = some q) (hnew : q ∉ p :: visited) :
    Moved ops journal config start (q :: p :: visited) e'

/-- The visited mask of a list of priorities. -/
def visitedMask (visited : List (Fin 8)) : ℕ := visited.foldr (fun p mask => mask ||| 1 <<< p.val) 0

section Loop

variable {ops : ModifierOps} {journal : Bytes → Option Bytes} {config : ModifierConfig}
  {start e f : ModifiedEntry} {visited : List (Fin 8)} {p : Fin 8}

theorem testBit_visitedMask (visited : List (Fin 8)) (q : Fin 8) :
    (visitedMask visited).testBit q = decide (q ∈ visited) := by
  induction visited with
  | nil => simp [visitedMask]
  | cons p visited ih =>
    change (visitedMask visited ||| 1 <<< p.val).testBit q.val = _
    rw [Nat.testBit_or, ih, Nat.shiftLeft_eq, Nat.one_mul, Nat.testBit_two_pow]
    simp only [List.mem_cons, Bool.decide_or]
    rw [Bool.or_comm]
    congr 1
    exact decide_eq_decide.mpr ⟨fun h => Fin.ext h.symm, fun h => h ▸ rfl⟩

theorem Moved.head (h : Moved ops journal config start (p :: visited) e) :
    priorityIndex e.priority = some p := by
  cases h with
  | start _ h => exact h
  | move _ _ _ _ _ _ _ hq _ => exact hq

theorem Moved.nodup (h : Moved ops journal config start visited e) : visited.Nodup := by
  induction h with
  | start p _ => exact List.nodup_singleton p
  | move p q visited e e' _ _ _ hnew ih => exact List.nodup_cons.mpr ⟨hnew, ih⟩

/-- There are eight priorities to move to. -/
theorem Moved.length_le (h : Moved ops journal config start visited e) : visited.length ≤ 8 := by
  have hcard := List.Nodup.length_le_card h.nodup
  rwa [Fintype.card_fin] at hcard

/-- What a turn of the loop does with a state of the run. -/
theorem rerouteLoop_succ (hgroups : GroupsInRange config) (n : ℕ)
    (h : Moved ops journal config start (p :: visited) e) :
    e.rerouteLoop ops journal config (n + 1) (visitedMask (p :: visited)) =
      match applyModifierList ops journal (groupModifiers config p) e with
      | .drop => .dropped .rule
      | .error => .failed
      | .keep e' =>
        if e'.priority = e.priority then .kept e'
        else
          match priorityIndex e'.priority with
          | none => .outOfRange e'.priority
          | some q =>
            if q ∈ p :: visited then .dropped .rerouteLoop
            else e'.rerouteLoop ops journal config n (visitedMask (q :: p :: visited)) := by
  have hrange : ¬ (config.priorityToGroup p < 0 ∨
      config.priorityToGroup p ≥ config.groups.length) := by
    have := hgroups p
    omega
  rw [ModifiedEntry.rerouteLoop]
  simp only [h.head, hrange, if_false, testBit_visitedMask, decide_eq_true_eq]
  rfl

/-- **The loop goes through every state of the run**, and has a turn left in it. -/
theorem Moved.rerouteLoop_eq (hgroups : GroupsInRange config)
    (h : Moved ops journal config start visited e) (p0 : Fin 8)
    (hp0 : priorityIndex start.priority = some p0) :
    start.rerouteLoop ops journal config 8 (1 <<< p0.val) =
      e.rerouteLoop ops journal config (9 - visited.length) (visitedMask visited) := by
  induction h with
  | start p h =>
    obtain rfl : p = p0 := Option.some.inj (h.symm.trans hp0)
    have hmask : visitedMask [p] = 1 <<< p.val := Nat.zero_or _
    rw [hmask]
    rfl
  | move p q visited e e' h hlist hq hnew ih =>
    have hlen := (Moved.move p q visited e e' h hlist hq hnew).length_le
    rw [List.length_cons] at hlen
    have hturn : 9 - (p :: visited).length = (9 - (q :: p :: visited).length) + 1 := by
      simp only [List.length_cons] at hlen ⊢
      omega
    have hne : e'.priority ≠ e.priority := by
      intro heq
      rw [heq, h.head] at hq
      exact hnew (Option.some.inj hq ▸ List.mem_cons_self)
    rw [ih, hturn, rerouteLoop_succ hgroups _ h, hlist]
    simp only [if_neg hne, hq, if_neg hnew]

/-- The list of the group of a state ends the run: it does not move the entry on. -/
def EndsRun (ops : ModifierOps) (journal : Bytes → Option Bytes) (config : ModifierConfig)
    (p : Fin 8) (visited : List (Fin 8)) (e : ModifiedEntry) : Prop :=
  ∀ f q, applyModifierList ops journal (groupModifiers config p) e = .keep f →
    f.priority ≠ e.priority → priorityIndex f.priority = some q → q ∈ p :: visited

/-- Every run ends. -/
theorem exists_endsRun (n : ℕ) : ∀ (p : Fin 8) (visited : List (Fin 8)) (e : ModifiedEntry),
    8 ≤ n + visited.length → Moved ops journal config start (p :: visited) e →
      ∃ p' visited' e', Moved ops journal config start (p' :: visited') e' ∧
        EndsRun ops journal config p' visited' e' := by
  induction n with
  | zero =>
    intro p visited e hlen h
    have := h.length_le
    rw [List.length_cons] at this
    omega
  | succ n ih =>
    intro p visited e hlen h
    by_cases hends : EndsRun ops journal config p visited e
    · exact ⟨p, visited, e, h, hends⟩
    · obtain ⟨f, q, hlist, hne, hq, hnew⟩ : ∃ f q,
          applyModifierList ops journal (groupModifiers config p) e = .keep f ∧
            f.priority ≠ e.priority ∧ priorityIndex f.priority = some q ∧ q ∉ p :: visited := by
        simpa only [EndsRun, not_forall, exists_prop] using hends
      exact ih q (p :: visited) f (by rw [List.length_cons]; omega)
        (.move p q visited e f h hlist hq hnew)

/-- A state that ends the run gives the result. -/
theorem rerouteLoop_of_ends (hgroups : GroupsInRange config) (p0 : Fin 8)
    (hp0 : priorityIndex start.priority = some p0)
    (h : Moved ops journal config start (p :: visited) e)
    (hends : EndsRun ops journal config p visited e) :
    start.rerouteLoop ops journal config 8 (1 <<< p0.val) =
      match applyModifierList ops journal (groupModifiers config p) e with
      | .drop => .dropped .rule
      | .error => .failed
      | .keep f => if f.priority = e.priority then .kept f else .dropped .rerouteLoop := by
  have hlen := h.length_le
  have hturn : 9 - (p :: visited).length = (8 - (p :: visited).length) + 1 := by omega
  rw [h.rerouteLoop_eq hgroups p0 hp0, hturn, rerouteLoop_succ hgroups _ h]
  cases hlist : applyModifierList ops journal (groupModifiers config p) e with
  | drop => rfl
  | error => rfl
  | keep f =>
    by_cases hsame : f.priority = e.priority
    · simp only [if_pos hsame]
    · obtain ⟨q, hq⟩ : ∃ q, priorityIndex f.priority = some q :=
        (applyModifierList_priority hlist).resolve_left hsame
      have hseen := hends f q hlist hsame hq
      simp only [if_neg hsame, hq, if_pos hseen]

end Loop

/-! ## The result -/

/-- The list of the group of the final priority was applied last and left the priority as it
was. -/
def SettlesAt (ops : ModifierOps) (journal : Bytes → Option Bytes) (config : ModifierConfig)
    (e f : ModifiedEntry) : Prop :=
  ∃ e0 p visited e1, applyModifierList ops journal config.modifiers e = .keep e0 ∧
    Moved ops journal config e0 (p :: visited) e1 ∧
    applyModifierList ops journal (groupModifiers config p) e1 = .keep f ∧
    f.priority = e1.priority ∧ priorityIndex f.priority = some p

/-- A list that is applied has a matching modifier with `drop` set, or it is the list of a group
and moves the entry to a priority it has had. -/
def DropsByRule (ops : ModifierOps) (journal : Bytes → Option Bytes) (config : ModifierConfig)
    (e : ModifiedEntry) : Prop :=
  DropMatches ops journal config.modifiers e ∨
    ∃ e0 p visited e1, applyModifierList ops journal config.modifiers e = .keep e0 ∧
      Moved ops journal config e0 (p :: visited) e1 ∧
      (DropMatches ops journal (groupModifiers config p) e1 ∨
        ∃ f q, applyModifierList ops journal (groupModifiers config p) e1 = .keep f ∧
          f.priority ≠ e1.priority ∧ priorityIndex f.priority = some q ∧ q ∈ p :: visited)

section Result

variable {ops : ModifierOps} {journal : Bytes → Option Bytes} {config : ModifierConfig}
  {e e0 e1 f : ModifiedEntry}

/-- The result with the lists of the state that ends the run. -/
theorem applyEntryModifiers_of_ends (hgroups : GroupsInRange config) {p : Fin 8}
    {visited : List (Fin 8)}
    (hglobal : applyModifierList ops journal config.modifiers e = .keep e0)
    (h : Moved ops journal config e0 (p :: visited) e1)
    (hends : EndsRun ops journal config p visited e1) :
    e.applyEntryModifiers ops journal config =
      match applyModifierList ops journal (groupModifiers config p) e1 with
      | .drop => .dropped .rule
      | .error => .failed
      | .keep f => if f.priority = e1.priority then .kept f else .dropped .rerouteLoop := by
  obtain ⟨p0, hp0⟩ : ∃ p0, priorityIndex e0.priority = some p0 := by
    clear hends
    generalize hv : p :: visited = v at h
    induction h generalizing p visited with
    | start p' h => exact ⟨p', h⟩
    | move p' q visited' e' e'' h _ _ _ ih => exact ih rfl
  unfold ModifiedEntry.applyEntryModifiers
  simp only [hglobal, hp0]
  exact rerouteLoop_of_ends hgroups p0 hp0 h hends

theorem SettlesAt.result (hgroups : GroupsInRange config)
    (h : SettlesAt ops journal config e f) :
    e.applyEntryModifiers ops journal config = .kept f := by
  obtain ⟨e0, p, visited, e1, hglobal, hmoved, hlist, hsame, -⟩ := h
  have hends : EndsRun ops journal config p visited e1 := by
    intro f' q hlist' hne _
    rw [hlist, ModifierStep.keep.injEq] at hlist'
    exact absurd (hlist' ▸ hsame) hne
  rw [applyEntryModifiers_of_ends hgroups hglobal hmoved hends, hlist]
  exact if_pos hsame

/-- Where the list of the state that ends the run fails, the call fails. -/
theorem list_ne_error_of_ends (hgroups : GroupsInRange config) {p : Fin 8}
    {visited : List (Fin 8)} (hok : e.applyEntryModifiers ops journal config ≠ .failed)
    (hglobal : applyModifierList ops journal config.modifiers e = .keep e0)
    (h : Moved ops journal config e0 (p :: visited) e1)
    (hends : EndsRun ops journal config p visited e1) :
    applyModifierList ops journal (groupModifiers config p) e1 ≠ .error := by
  intro hlist
  rw [applyEntryModifiers_of_ends hgroups hglobal h hends, hlist] at hok
  exact hok rfl

/-- Where the global list fails, the call fails. -/
theorem global_ne_error (hok : e.applyEntryModifiers ops journal config ≠ .failed) :
    applyModifierList ops journal config.modifiers e ≠ .error := by
  intro hglobal
  unfold ModifiedEntry.applyEntryModifiers at hok
  simp only [hglobal] at hok
  exact hok rfl

/-- A list with a matching modifier that has `drop` set moves the entry nowhere. -/
theorem DropMatches.endsRun {p : Fin 8} {visited : List (Fin 8)}
    (h : DropMatches ops journal (groupModifiers config p) e1) :
    EndsRun ops journal config p visited e1 := by
  intro f q hlist
  rw [(applyModifierList_drop_iff (by rw [hlist]; simp)).mpr h] at hlist
  cases hlist

theorem DropsByRule.result (hgroups : GroupsInRange config)
    (hok : e.applyEntryModifiers ops journal config ≠ .failed)
    (h : DropsByRule ops journal config e) :
    ∃ reason, e.applyEntryModifiers ops journal config = .dropped reason ∧
      reason ≠ .tooManyReroutes := by
  rcases h with hdrop | ⟨e0, p, visited, e1, hkeep, hmoved, hdrop | ⟨f, q, hlist, hne, hq, hseen⟩⟩
  · refine ⟨.rule, ?_, by simp⟩
    have hglobal := (applyModifierList_drop_iff (global_ne_error hok)).mpr hdrop
    unfold ModifiedEntry.applyEntryModifiers
    simp only [hglobal]
  · have hends : EndsRun ops journal config p visited e1 := hdrop.endsRun
    have hlist := (applyModifierList_drop_iff
      (list_ne_error_of_ends hgroups hok hkeep hmoved hends)).mpr hdrop
    refine ⟨.rule, ?_, by simp⟩
    rw [applyEntryModifiers_of_ends hgroups hkeep hmoved hends, hlist]
  · have hends : EndsRun ops journal config p visited e1 := by
      intro f' q' hlist' _ hq'
      rw [hlist, ModifierStep.keep.injEq] at hlist'
      subst hlist'
      rw [hq, Option.some.injEq] at hq'
      exact hq' ▸ hseen
    refine ⟨.rerouteLoop, ?_, by simp⟩
    rw [applyEntryModifiers_of_ends hgroups hkeep hmoved hends, hlist]
    exact if_neg hne

/-- An entry that the global list keeps is moved to a state that ends the run. -/
theorem exists_lastState (he : e.priority ≤ 7)
    (hglobal : applyModifierList ops journal config.modifiers e = .keep e0) :
    ∃ p visited e1, Moved ops journal config e0 (p :: visited) e1 ∧
      EndsRun ops journal config p visited e1 := by
  obtain ⟨p0, hp0⟩ : ∃ p0, priorityIndex e0.priority = some p0 := by
    rcases applyModifierList_priority hglobal with heq | hset
    · rw [heq]
      exact exists_priorityIndex he
    · exact hset
  exact exists_endsRun 8 p0 [] e0 (by simp) (Moved.start p0 hp0)

/-- **One of the two happens.** -/
theorem settles_or_drops (hgroups : GroupsInRange config) (he : e.priority ≤ 7)
    (hok : e.applyEntryModifiers ops journal config ≠ .failed) :
    (∃ f, SettlesAt ops journal config e f) ∨ DropsByRule ops journal config e := by
  cases hstart : applyModifierList ops journal config.modifiers e with
  | error => exact absurd hstart (global_ne_error hok)
  | drop => exact .inr (.inl ((applyModifierList_drop_iff (by rw [hstart]; simp)).mp hstart))
  | keep e0 =>
    obtain ⟨p, visited, e1, hmoved, hends⟩ := exists_lastState he hstart
    have hlists := list_ne_error_of_ends hgroups hok hstart hmoved hends
    cases hlist : applyModifierList ops journal (groupModifiers config p) e1 with
    | error => exact absurd hlist hlists
    | drop =>
      exact .inr (.inr ⟨e0, p, visited, e1, hstart, hmoved,
        .inl ((applyModifierList_drop_iff hlists).mp hlist)⟩)
    | keep f =>
      by_cases hsame : f.priority = e1.priority
      · exact .inl ⟨f, e0, p, visited, e1, hstart, hmoved, hlist, hsame, hsame ▸ hmoved.head⟩
      · obtain ⟨q, hq⟩ := (applyModifierList_priority hlist).resolve_left hsame
        exact .inr (.inr ⟨e0, p, visited, e1, hstart, hmoved,
          .inr ⟨f, q, hlist, hsame, hq, hends f q hlist hsame hq⟩⟩)

/-- Where no matcher fails, the call does not. -/
theorem applyEntryModifiers_ne_failed (hgroups : GroupsInRange config) (he : e.priority ≤ 7)
    (hmatch : ∀ list ∈ config.modifiers :: config.groups, NeverFails ops journal list) :
    e.applyEntryModifiers ops journal config ≠ .failed := by
  obtain ⟨hglobal, hlists⟩ := List.forall_mem_cons.mp hmatch
  cases hstart : applyModifierList ops journal config.modifiers e with
  | error => exact absurd hstart (applyModifierList_ne_error hglobal)
  | drop =>
    unfold ModifiedEntry.applyEntryModifiers
    simp only [hstart]
    simp
  | keep e0 =>
    obtain ⟨p, visited, e1, hmoved, hends⟩ := exists_lastState he hstart
    have hnever : NeverFails ops journal (groupModifiers config p) := by
      have hlt : (config.priorityToGroup p).toNat < config.groups.length := by
        have := hgroups p
        omega
      unfold groupModifiers
      rw [List.getD_eq_getElem _ _ hlt]
      exact hlists _ (List.getElem_mem hlt)
    rw [applyEntryModifiers_of_ends hgroups hstart hmoved hends]
    cases hlist : applyModifierList ops journal (groupModifiers config p) e1 with
    | error => exact absurd hlist (applyModifierList_ne_error hnever)
    | drop => simp
    | keep f =>
      dsimp only
      split <;> simp

end Result

/-- **Routing reaches a fixed point or drops by rule.** For every configuration whose
priorities have groups and every entry with a priority up to 7, when the call does not fail:
the result is 0 just if the list of the group of the final priority was applied last and left
the priority as it was; it is 1 just if a matching modifier with `drop` set was met or the list
of a group moved the priority to one it had had; it is one of the two, and never for the limit
on the reroutes. A call fails only where a matcher does (`applyEntryModifiers_ne_failed`).
SOURCE: recorder.c:3106-3168, 4130-4155 -/
theorem entry_modifiers_settle_or_drop (ops : ModifierOps) (journal : Bytes → Option Bytes)
    (config : ModifierConfig) (hgroups : GroupsInRange config) (e : ModifiedEntry)
    (he : e.priority ≤ 7) (hok : e.applyEntryModifiers ops journal config ≠ .failed) :
    (∀ f, e.applyEntryModifiers ops journal config = .kept f ↔
      SettlesAt ops journal config e f) ∧
    ((∃ reason, e.applyEntryModifiers ops journal config = .dropped reason) ↔
      DropsByRule ops journal config e) ∧
    ((∃ f, e.applyEntryModifiers ops journal config = .kept f) ∨
      ∃ reason, e.applyEntryModifiers ops journal config = .dropped reason) ∧
    e.applyEntryModifiers ops journal config ≠ .dropped .tooManyReroutes := by
  have hdrops := fun h : DropsByRule ops journal config e => h.result hgroups hok
  rcases settles_or_drops (e := e) hgroups he hok with ⟨f, hsettles⟩ | hrule
  · have hresult := hsettles.result hgroups
    refine ⟨fun f' => ⟨fun h => ?_, fun h => h.result hgroups⟩, ⟨?_, ?_⟩, .inl ⟨f, hresult⟩, ?_⟩
    · rw [hresult, RoutingResult.kept.injEq] at h
      exact h ▸ hsettles
    · rintro ⟨reason, h⟩
      rw [hresult] at h
      cases h
    · intro h
      obtain ⟨reason, h, -⟩ := hdrops h
      exact ⟨reason, h⟩
    · rw [hresult]
      simp
  · obtain ⟨reason, hresult, hreason⟩ := hdrops hrule
    refine ⟨fun f' => ⟨fun h => ?_, fun h => h.result hgroups⟩,
      iff_of_true ⟨reason, hresult⟩ hrule, .inr ⟨reason, hresult⟩, ?_⟩
    · rw [hresult] at h
      cases h
    · rw [hresult, ne_eq, RoutingResult.dropped.injEq]
      exact hreason

/-- An engine that matches nothing, for the fixed inputs below. -/
def noRegex : ModifierOps := ⟨fun _ _ => .noMatch, fun _ => true⟩

/-- A modifier that sets the priority of every entry with a message. -/
def setPriorityTo (p : UInt8) : EntryModifier :=
  { matchField := messageName, matchKind := .present true, setPriority := priorityIndex p }

/-- Two groups, of priority 0 and of all others, that send each other their entries. -/
def pingPongConfig : ModifierConfig where
  modifiers := []
  groups := [[setPriorityTo 1], [setPriorityTo 0]]
  priorityToGroup := fun p => if p.val = 0 then 0 else 1

/-- The theorem above for an entry that the two groups send to each other. -/
theorem entry_modifiers_ping_pong :
    (∀ f, (ModifiedEntry.applyEntryModifiers noRegex (fun _ => none) pingPongConfig
        ⟨0, { message := some [104] }⟩) = .kept f ↔
      SettlesAt noRegex (fun _ => none) pingPongConfig ⟨0, { message := some [104] }⟩ f) ∧
    ((∃ reason, ModifiedEntry.applyEntryModifiers noRegex (fun _ => none) pingPongConfig
        ⟨0, { message := some [104] }⟩ = .dropped reason) ↔
      DropsByRule noRegex (fun _ => none) pingPongConfig ⟨0, { message := some [104] }⟩) ∧
    ((∃ f, ModifiedEntry.applyEntryModifiers noRegex (fun _ => none) pingPongConfig
        ⟨0, { message := some [104] }⟩ = .kept f) ∨
      ∃ reason, ModifiedEntry.applyEntryModifiers noRegex (fun _ => none) pingPongConfig
        ⟨0, { message := some [104] }⟩ = .dropped reason) ∧
    ModifiedEntry.applyEntryModifiers noRegex (fun _ => none) pingPongConfig
        ⟨0, { message := some [104] }⟩ ≠ .dropped .tooManyReroutes :=
  entry_modifiers_settle_or_drop noRegex (fun _ => none) pingPongConfig
    (by unfold GroupsInRange; decide) ⟨0, { message := some [104] }⟩ (by decide) (by
      apply applyEntryModifiers_ne_failed (by unfold GroupsInRange; decide) (by decide)
      intro list hlist
      apply neverFails_of_plain
      intro m hm
      simp only [pingPongConfig, List.mem_cons, List.not_mem_nil, or_false] at hlist
      rcases hlist with rfl | rfl | rfl
      · cases hm
      · obtain rfl := List.mem_singleton.mp hm
        exact ⟨rfl, fun _ => by simp [setPriorityTo]⟩
      · obtain rfl := List.mem_singleton.mp hm
        exact ⟨rfl, fun _ => by simp [setPriorityTo]⟩)

end Recorder.Analysis
