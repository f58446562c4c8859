import Recorder.Analysis.ModifierRouting

/-!
# The modifiers of a recorder

The recorder asks its environment what a list of modifiers does with an entry. Where the
environment runs the lists of a configuration (`RunsModifiers`), its routing is the reroute loop
of `apply_entry_modifiers` (`RunsModifiers.applyEntryModifiers`), and it drops an entry by rule
only (`RunsModifiers.drop_iff`).
-/

set_option autoImplicit false

namespace Recorder.Analysis

open Recorder.Model

/-- What the modifiers read of an entry. -/
def modifiedEntry (e : LogEntry) : ModifiedEntry := ⟨UInt8.ofNat e.priority.val, e.texts⟩

/-- The priority of a modified entry, which is in range where the lists are run. -/
def entryPriority (f : ModifiedEntry) : Fin 8 := (priorityIndex f.priority).getD (Fin.last 7)

/-- The result of a list for a recorder. -/
def listResult : ModifierStep → ModifierListResult
  | .keep f => .keep (entryPriority f) f.texts
  | .drop => .drop
  | .error => .error

/-- The result of `apply_entry_modifiers` for a recorder. -/
def routingResult (e : LogEntry) : RoutingResult → ModifierResult
  | .kept f => .keep { e with priority := entryPriority f, texts := f.texts }
  | .dropped _ => .drop
  | .failed => .error
  | .outOfRange _ => .error

/-- A recorder whose modifiers are the lists of a configuration, with the answers of the
expression engine and the fields of the journal entry at each time. -/
structure RunsModifiers (env : RecorderEnv) (config : RecorderConfig) (mods : ModifierConfig)
    (ops : ℕ → ModifierOps) (journal : ℕ → Bytes → Option Bytes) : Prop where
  priorityToGroup : ∀ p, mods.priorityToGroup p = config.priorityToGroup p
  groups : mods.groups.length = config.groups.length
  lists : ∀ t gi e, env.applyModifierList t gi e =
    listResult (applyModifierList (ops t) (journal t)
      (gi.elim mods.modifiers fun gi => mods.groups.getD gi []) (modifiedEntry e))

section RunsModifiers

variable {env : RecorderEnv} {config : RecorderConfig} {mods : ModifierConfig}
  {ops : ℕ → ModifierOps} {journal : ℕ → Bytes → Option Bytes}

theorem priorityIndex_modifiedEntry (e : LogEntry) :
    priorityIndex (modifiedEntry e).priority = some e.priority :=
  priorityIndex_eq_some.mpr rfl

/-- A list leaves the priority of an entry in range. -/
theorem exists_priorityIndex_of_keep {list : List EntryModifier} {e : LogEntry}
    {f : ModifiedEntry} {t : ℕ}
    (h : applyModifierList (ops t) (journal t) list (modifiedEntry e) = .keep f) :
    ∃ i, priorityIndex f.priority = some i := by
  rcases applyModifierList_priority h with heq | hset
  · exact ⟨e.priority, by rw [heq]; exact priorityIndex_modifiedEntry e⟩
  · exact hset

theorem routingResult_congr (e : LogEntry) (priority : Fin 8) (texts : EntryTexts)
    (result : RoutingResult) :
    routingResult { e with priority := priority, texts := texts } result =
      routingResult e result := by
  cases result <;> rfl

theorem visitedMask_singleton (p : Fin 8) : visitedMask [p] = 1 <<< p.val := Nat.zero_or _

theorem RunsModifiers.groupsInRange (h : RunsModifiers env config mods ops journal) :
    GroupsInRange mods := by
  intro p
  have hlt := config.priorityToGroup_lt p
  rw [h.priorityToGroup, h.groups]
  omega

theorem RunsModifiers.group (h : RunsModifiers env config mods ops journal) (p : Fin 8) :
    mods.groups.getD (config.priorityToGroup p) [] = groupModifiers mods p := by
  unfold groupModifiers
  rw [h.priorityToGroup, Int.toNat_natCast]

/-- The loop of the recorder is the reroute loop. -/
theorem RunsModifiers.rerouteLoop (h : RunsModifiers env config mods ops journal) (t n : ℕ) :
    ∀ (seen : List (Fin 8)) (e : LogEntry),
      rerouteLoop env config t n seen e = routingResult e
        ((modifiedEntry e).rerouteLoop (ops t) (journal t) mods n (visitedMask seen)) := by
  induction n with
  | zero =>
    intro seen e
    rfl
  | succ n ih =>
    intro seen e
    have hrange : ¬ (mods.priorityToGroup e.priority < 0 ∨
        mods.priorityToGroup e.priority ≥ mods.groups.length) := by
      have := h.groupsInRange e.priority
      omega
    have hgroup : (mods.priorityToGroup e.priority).toNat = config.priorityToGroup e.priority := by
      rw [h.priorityToGroup, Int.toNat_natCast]
    unfold Model.rerouteLoop ModifiedEntry.rerouteLoop
    simp only [priorityIndex_modifiedEntry, if_neg hrange, hgroup, h.lists, Option.elim_some]
    cases hlist : applyModifierList (ops t) (journal t)
        (mods.groups.getD (config.priorityToGroup e.priority) []) (modifiedEntry e) with
    | drop => rfl
    | error => rfl
    | keep f =>
      obtain ⟨q, hq⟩ := exists_priorityIndex_of_keep hlist
      have hpriority : entryPriority f = q := by rw [entryPriority, hq, Option.getD_some]
      have hf : modifiedEntry { e with priority := q, texts := f.texts } = f := by
        unfold modifiedEntry
        rw [← priorityIndex_eq_some.mp hq]
      have hsame : f.priority = (modifiedEntry e).priority ↔ q = e.priority := by
        constructor
        · intro heq
          rw [heq, priorityIndex_modifiedEntry] at hq
          exact (Option.some.inj hq).symm
        · rintro rfl
          exact priorityIndex_eq_some.mp hq
      simp only [listResult, hpriority, hq, testBit_visitedMask, decide_eq_true_eq]
      by_cases hqe : q = e.priority
      · rw [if_pos hqe, if_pos (hsame.mpr hqe)]
        simp only [routingResult, hpriority]
      · rw [if_neg hqe, if_neg (mt hsame.mp hqe)]
        by_cases hseen : q ∈ seen
        · rw [if_pos hseen, if_pos hseen]
          rfl
        · rw [if_neg hseen, if_neg hseen, ih, hf, routingResult_congr]
          rfl

/-- **The modifiers of the recorder route an entry as the reroute loop does.** -/
theorem RunsModifiers.applyEntryModifiers (h : RunsModifiers env config mods ops journal)
    (t : ℕ) (e : LogEntry) : applyEntryModifiers env config t e =
      routingResult e ((modifiedEntry e).applyEntryModifiers (ops t) (journal t) mods) := by
  unfold Model.applyEntryModifiers ModifiedEntry.applyEntryModifiers
  simp only [h.lists, Option.elim_none]
  cases hlist : applyModifierList (ops t) (journal t) mods.modifiers (modifiedEntry e) with
  | drop => rfl
  | error => rfl
  | keep f =>
    obtain ⟨q, hq⟩ := exists_priorityIndex_of_keep hlist
    have hpriority : entryPriority f = q := by rw [entryPriority, hq, Option.getD_some]
    have hf : modifiedEntry { e with priority := q, texts := f.texts } = f := by
      unfold modifiedEntry
      rw [← priorityIndex_eq_some.mp hq]
    simp only [listResult, hpriority, hq]
    rw [h.rerouteLoop, hf, routingResult_congr, visitedMask_singleton]

/-- An entry is dropped for a matching modifier with `drop` set or because its priority went
round in a loop. -/
theorem RunsModifiers.drop_iff (h : RunsModifiers env config mods ops journal) (t : ℕ)
    (e : LogEntry) (hok : Model.applyEntryModifiers env config t e ≠ .error) :
    Model.applyEntryModifiers env config t e = .drop ↔
      DropsByRule (ops t) (journal t) mods (modifiedEntry e) := by
  rw [h.applyEntryModifiers] at hok ⊢
  have hcall : (modifiedEntry e).applyEntryModifiers (ops t) (journal t) mods ≠ .failed := by
    intro hfailed
    rw [hfailed] at hok
    exact hok rfl
  constructor
  · intro hdrop
    rcases settles_or_drops h.groupsInRange
      (priorityIndex_le (priorityIndex_modifiedEntry e)) hcall with ⟨f, hsettles⟩ | hrule
    · rw [hsettles.result h.groupsInRange] at hdrop
      cases hdrop
    · exact hrule
  · intro hrule
    obtain ⟨reason, hresult, -⟩ := hrule.result h.groupsInRange hcall
    rw [hresult]
    rfl

end RunsModifiers

end Recorder.Analysis
