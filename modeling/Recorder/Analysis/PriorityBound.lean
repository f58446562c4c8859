import Recorder.Model.Config
import Recorder.Analysis.ModifierRouting

/-!
# The priorities that are looked up

The priority of a journal entry is the low byte of whatever number its `PRIORITY` field holds,
and nothing bounds it before it shifts the visited mask and indexes `priority_to_group`. The
modifiers only set priorities in range, so it is the global list alone that can save an entry
with a priority above 7 (`applyModifierList_le_iff`); behind it the bound is kept
(`rerouteLoop_inRange`).

**Main result**: `priority_lookups_in_range_iff`.
-/

set_option autoImplicit false

namespace Recorder.Analysis

open Recorder.Model

/-- Every priority that is looked up for an entry has a group and a bit of its own: those
`apply_entry_modifiers` sees, and that of the entry `recorder_submit_entry` and
`recorder_ensure_writer` get. -/
def LookupsInRange (ops : ModifierOps) (journal : Bytes → Option Bytes) (config : ModifierConfig)
    (e : ModifiedEntry) : Prop :=
  (∀ p, e.applyEntryModifiers ops journal config ≠ .outOfRange p) ∧
    ∀ f, e.applyEntryModifiers ops journal config = .kept f → f.priority ≤ 7

section Lists

variable (ops : ModifierOps) (journal : Bytes → Option Bytes)

/-- A list meets a modifier that fails, or one that matches and drops the entry or sets its
priority. -/
def MeetsPriority (list : List EntryModifier) (e : ModifiedEntry) : Prop :=
  ∃ before m after e', list = before ++ m :: after ∧
    applyModifierList ops journal before e = .keep e' ∧
    (applyModifier ops journal m e' = .error ∨
      ModifierMatches ops journal m e' ∧ (m.drop = true ∨ m.setPriority.isSome = true))

variable {ops journal} {m : EntryModifier} {list rest : List EntryModifier}
  {e e' : ModifiedEntry}

/-- A modifier that goes on with the entry has left its priority or has matched and set it. -/
theorem applyModifier_keep (h : applyModifier ops journal m e = .keep e') :
    (¬ (ModifierMatches ops journal m e ∧ (m.drop = true ∨ m.setPriority.isSome = true)) ∧
        e'.priority = e.priority) ∨
      ModifierMatches ops journal m e ∧ m.setPriority.isSome = true ∧ e'.priority ≤ 7 := by
  have hstep := h
  unfold applyModifier at h
  split at h
  · cases h
  · next matched captures hmatch =>
    split at h
    · next hneg =>
      obtain rfl := ModifierStep.keep.inj h
      refine .inl ⟨?_, rfl⟩
      rintro ⟨⟨matched', captures', hmatch', hne⟩, -⟩
      rw [hmatch] at hmatch'
      cases hmatch'
      exact hne (by simpa using hneg)
    · next hneg =>
      have hmatches : ModifierMatches ops journal m e :=
        ⟨matched, captures, hmatch, by simpa using hneg⟩
      split at h
      · cases h
      · split at h
        · cases h
        · next hdrop =>
          obtain rfl := ModifierStep.keep.inj h
          cases hset : m.setPriority with
          | none =>
            refine .inl ⟨?_, by simp⟩
            rintro ⟨-, hdropped | hsome⟩
            · exact hdrop hdropped
            · cases hsome
          | some i =>
            refine .inr ⟨hmatches, rfl, ?_⟩
            exact priorityIndex_le (i := i) (priorityIndex_eq_some.mpr (by simp))

theorem meetsPriority_cons (h : applyModifier ops journal m e = .keep e')
    (hm : ¬ (ModifierMatches ops journal m e ∧ (m.drop = true ∨ m.setPriority.isSome = true))) :
    MeetsPriority ops journal (m :: rest) e ↔ MeetsPriority ops journal rest e' := by
  constructor
  · rintro ⟨before, m', after, e1, heq, happly, hends⟩
    cases before with
    | nil =>
      obtain ⟨rfl, rfl⟩ := List.cons.inj heq
      obtain rfl : e = e1 := ModifierStep.keep.inj happly
      rcases hends with herror | hends
      · rw [h] at herror
        cases herror
      · exact absurd hends hm
    | cons m0 before =>
      obtain ⟨rfl, rfl⟩ := List.cons.inj heq
      rw [applyModifierList, h] at happly
      exact ⟨before, m', after, e1, rfl, happly, hends⟩
  · rintro ⟨before, m', after, e1, rfl, happly, hends⟩
    refine ⟨m :: before, m', after, e1, rfl, ?_, hends⟩
    rw [applyModifierList, h]
    exact happly

/-- A priority above 7 comes out of a list just if it goes in and the list meets no modifier
that ends it. -/
theorem applyModifierList_le_iff :
    (∀ e', applyModifierList ops journal list e = .keep e' → e'.priority ≤ 7) ↔
      e.priority ≤ 7 ∨ MeetsPriority ops journal list e := by
  induction list generalizing e with
  | nil =>
    constructor
    · intro h
      exact .inl (h e rfl)
    · rintro (hle | ⟨before, m, after, e1, heq, -⟩) e' h
      · obtain rfl := ModifierStep.keep.inj h
        exact hle
      · simp at heq
  | cons m rest ih =>
    cases hstep : applyModifier ops journal m e with
    | error =>
      refine iff_of_true ?_ (.inr ⟨[], m, rest, e, rfl, rfl, .inl hstep⟩)
      simp [applyModifierList, hstep]
    | drop =>
      have hdrop := (applyModifier_drop_iff (by simp [hstep])).mp hstep
      refine iff_of_true ?_ (.inr ⟨[], m, rest, e, rfl, rfl, .inr ⟨hdrop.1, .inl hdrop.2⟩⟩)
      simp [applyModifierList, hstep]
    | keep e1 =>
      have hlist : applyModifierList ops journal (m :: rest) e =
          applyModifierList ops journal rest e1 := by
        rw [applyModifierList, hstep]
      rw [hlist, ih]
      rcases applyModifier_keep hstep with ⟨hends, heq⟩ | ⟨hmatches, hset, hle⟩
      · rw [meetsPriority_cons hstep hends, heq]
      · exact iff_of_true (.inl hle)
          (.inr ⟨[], m, rest, e, rfl, rfl, .inr ⟨hmatches, .inr hset⟩⟩)

end Lists

section Routing

variable {ops : ModifierOps} {journal : Bytes → Option Bytes} {config : ModifierConfig}

/-- The loop keeps the priorities in range. -/
theorem rerouteLoop_inRange (n : ℕ) : ∀ (seen : ℕ) (e : ModifiedEntry), e.priority ≤ 7 →
    (∀ p, e.rerouteLoop ops journal config n seen ≠ .outOfRange p) ∧
      ∀ f, e.rerouteLoop ops journal config n seen = .kept f → f.priority ≤ 7 := by
  induction n with
  | zero =>
    intro seen e _
    simp [ModifiedEntry.rerouteLoop]
  | succ n ih =>
    intro seen e hle
    obtain ⟨p, hp⟩ := exists_priorityIndex hle
    unfold ModifiedEntry.rerouteLoop
    simp only [hp]
    split
    · simp
    · split
      · simp
      · simp
      · next e' hlist =>
        have hle' : e'.priority ≤ 7 := by
          rcases applyModifierList_priority hlist with heq | ⟨i, hi⟩
          · rw [heq]
            exact hle
          · exact priorityIndex_le hi
        split
        · refine ⟨by simp, fun f hf => ?_⟩
          obtain rfl := RoutingResult.kept.inj hf
          exact hle'
        · obtain ⟨q, hq⟩ := exists_priorityIndex hle'
          simp only [hq]
          split
          · simp
          · exact ih _ e' hle'

/-- The lookups are in range just if the priority behind the global list is. -/
theorem lookupsInRange_iff (e : ModifiedEntry) : LookupsInRange ops journal config e ↔
    ∀ e', applyModifierList ops journal config.modifiers e = .keep e' → e'.priority ≤ 7 := by
  unfold LookupsInRange ModifiedEntry.applyEntryModifiers
  cases hlist : applyModifierList ops journal config.modifiers e with
  | drop => simp
  | error => simp
  | keep e' =>
    constructor
    · rintro ⟨hrange, -⟩ e1 he1
      obtain rfl := ModifierStep.keep.inj he1
      by_contra hgt
      have hnone : priorityIndex e'.priority = none := by
        cases hindex : priorityIndex e'.priority with
        | none => rfl
        | some i => exact absurd (priorityIndex_le hindex) hgt
      simp only [hnone] at hrange
      exact hrange e'.priority rfl
    · intro hle
      obtain ⟨p, hp⟩ := exists_priorityIndex (hle e' rfl)
      simp only [hp]
      exact rerouteLoop_inRange _ _ e' (hle e' rfl)

end Routing

theorem fallback_priority_le (priority : UInt8) : (EntrySource.fallback priority).priority ≤ 7 := by
  change (if priority ≤ 7 then priority else 5) ≤ 7
  split
  · assumption
  · decide

/-- The lookups for an entry are in range just if the priority it is extracted with is, or the
global modifiers drop the entry, fail, or set its priority. -/
theorem priority_lookups_in_range_iff (ops : ModifierOps) (config : Config)
    (source : EntrySource) (texts : EntryTexts) :
    LookupsInRange ops source.journal config.modifierConfig ⟨source.priority, texts⟩ ↔
      source.priority ≤ 7 ∨
        MeetsPriority ops source.journal config.modifiers ⟨source.priority, texts⟩ := by
  rw [lookupsInRange_iff]
  exact applyModifierList_le_iff

/-- A journal entry with the priority 10 and no modifiers: the lookup is behind the table. -/
theorem priority_ten_out_of_range :
    ¬ LookupsInRange noRegex (EntrySource.journald fun name =>
        if name = priorityName then some [49, 48] else none).journal
      recorderConfigInit.modifierConfig
      ⟨(EntrySource.journald fun name =>
        if name = priorityName then some [49, 48] else none).priority, {}⟩ := by
  rintro ⟨hrange, -⟩
  exact hrange 10 (by rfl)

end Recorder.Analysis
