import Recorder.Analysis.ConfigKeys
import Recorder.Lib.Merge
import Mathlib.Data.List.DropRight
import Mathlib.Data.Nat.Bitwise

/-!
# Loading a configuration

The groups of a file share the priorities out (`ConsistentTable`): each priority that is read
is new, and the group before it keeps what it has (`Filling`). A file that gives no groups
keeps those that are there (`LoadedOver`), so after all files they are those of the last one
that gives any (`GroupsLoaded`), and the writers get a configuration whose invariants hold
(`writerConfig`).
-/

set_option autoImplicit false

namespace Recorder.Analysis

open Recorder.Model Recorder.Lib

/-! ## The group table -/

/-- The groups have different names and share the priorities out among themselves:
`priorityToGroup` maps a priority to the one group that has it, or to -1 while no group has. -/
structure SharedOut (groups : List ConfigGroup) (priorityToGroup : Fin 8 → ℤ) : Prop where
  names : ∀ g ∈ groups, validGroupName g.name = true ∧ g.name.length ≤ maxGroupNameLen
  distinct : (groups.map (·.name)).Nodup
  least : ∀ g ∈ groups,
    ∃ p ∈ g.priorities, g.minPriority = p.val ∧ ∀ q ∈ g.priorities, p.val ≤ q.val
  owner : ∀ (i : ℕ) (g : ConfigGroup) (p : Fin 8),
    groups[i]? = some g → p ∈ g.priorities → priorityToGroup p = i
  owned : ∀ p, priorityToGroup p ≠ -1 →
    ∃ (i : ℕ) (g : ConfigGroup), groups[i]? = some g ∧ p ∈ g.priorities ∧ priorityToGroup p = i

/-- What holds of the table after each group. -/
structure ConsistentTable (t : GroupTable) : Prop where
  sharedOut : SharedOut t.groups t.priorityToGroup
  seen : ∀ p : Fin 8, t.seenMask.testBit p = true ↔ t.priorityToGroup p ≠ -1

/-- What holds between two priorities of group number `table.groups.length`, which started as
`fields` with the table `table`. -/
structure Filling (fields : ConfigGroup) (table : GroupTable)
    (s : ConfigGroup × GroupTable) : Prop where
  same : s.1 = { fields with priorities := s.1.priorities, minPriority := s.1.minPriority }
  groups : s.2.groups = table.groups
  seen : ∀ p : Fin 8, s.2.seenMask.testBit p = true ↔ s.2.priorityToGroup p ≠ -1
  fresh : ∀ p ∈ s.1.priorities, table.priorityToGroup p = -1
  routed : ∀ p, s.2.priorityToGroup p =
    if p ∈ s.1.priorities then (table.groups.length : ℤ) else table.priorityToGroup p
  lower : ∀ p ∈ s.1.priorities, s.1.minPriority ≤ p.val
  attained : s.1.priorities = [] ∧ s.1.minPriority = 255 ∨
    ∃ p ∈ s.1.priorities, s.1.minPriority = p.val

section Filling

variable {fields : ConfigGroup} {table : GroupTable}

/-- A mask with one more bit. -/
theorem testBit_insert (mask : ℕ) (p q : Fin 8) :
    (mask ||| 1 <<< p.val).testBit q = true ↔ mask.testBit q = true ∨ q = p := by
  rw [Nat.testBit_lor, Bool.or_eq_true, Nat.one_shiftLeft, Nat.testBit_two_pow]
  simp only [decide_eq_true_eq]
  exact or_congr_right ⟨fun h => Fin.ext h.symm, fun h => congrArg Fin.val h.symm⟩

/-- A priority that is read belongs to no group before. -/
theorem jsonGroupPriority_eq_ok {index : ℕ} {s s' : ConfigGroup × GroupTable} {node : Json}
    (h : jsonGroupPriority index s node = .ok s') :
    ∃ prio : Fin 8, s.2.seenMask.testBit prio = false ∧
      s' = ({ s.1 with
              priorities := s.1.priorities ++ [prio]
              minPriority := min s.1.minPriority prio },
            { s.2 with
              seenMask := s.2.seenMask ||| 1 <<< prio.val
              priorityToGroup := Function.update s.2.priorityToGroup prio index }) := by
  unfold jsonGroupPriority at h
  split at h
  · next value =>
    split at h
    · next hrange =>
      dsimp only at h
      split at h
      · cases h
      · next hseen =>
        exact ⟨⟨value.toNat, by omega⟩, Bool.eq_false_iff.2 hseen, (Except.ok.inj h).symm⟩
    · cases h
  · cases h

/-- One priority of a group is added, or refused. -/
theorem Filling.step {s s' : ConfigGroup × GroupTable} {node : Json} (hs : Filling fields table s)
    (h : jsonGroupPriority table.groups.length s node = .ok s') : Filling fields table s' := by
  obtain ⟨prio, hseen, rfl⟩ := jsonGroupPriority_eq_ok h
  have hnone : s.2.priorityToGroup prio = -1 := by
    by_contra hne
    exact absurd ((hs.seen prio).2 hne) (by simp [hseen])
  have hnew : prio ∉ s.1.priorities := by
    intro hmem
    have hindex := hs.routed prio
    rw [if_pos hmem, hnone] at hindex
    omega
  have htable : table.priorityToGroup prio = -1 := by
    have hprio := hs.routed prio
    rw [if_neg hnew, hnone] at hprio
    exact hprio.symm
  refine ⟨?_, hs.groups, fun p => ?_, fun p hp => ?_, fun p => ?_, fun p hp => ?_, ?_⟩
  · rw [hs.same]
  · rw [testBit_insert, hs.seen]
    by_cases hp : p = prio
    · subst hp
      simp
    · simp only [Function.update_of_ne hp]
      exact or_iff_left hp
  · rcases List.mem_append.1 hp with hp | hp
    · exact hs.fresh p hp
    · rw [List.mem_singleton.1 hp]
      exact htable
  · by_cases hp : p = prio
    · subst hp
      simp
    · simp only [Function.update_of_ne hp, List.mem_append, List.mem_singleton, hp, or_false]
      exact hs.routed p
  · rcases List.mem_append.1 hp with hp | hp
    · exact (Nat.min_le_left _ _).trans (hs.lower p hp)
    · rw [List.mem_singleton.1 hp]
      exact Nat.min_le_right _ _
  · right
    have hlt := prio.isLt
    rcases Nat.le_total s.1.minPriority prio.val with hle | hle
    · rcases hs.attained with ⟨-, hmin⟩ | ⟨p, hp, hmin⟩
      · omega
      · exact ⟨p, List.mem_append_left _ hp, by rw [← hmin]; exact Nat.min_eq_left hle⟩
    · exact ⟨prio, List.mem_append_right _ (List.mem_singleton_self prio),
        Nat.min_eq_right hle⟩

/-- The priorities of a group. -/
theorem jsonGroupPriorities_filling {priorities : List Json} {s : ConfigGroup × GroupTable}
    (htable : ConsistentTable table) (hempty : fields.priorities = [])
    (hmin : fields.minPriority = 255)
    (h : priorities.foldlM (jsonGroupPriority table.groups.length) (fields, table) = .ok s) :
    Filling fields table s ∧ s.1.priorities.length = priorities.length := by
  have hstart : Filling fields table (fields, table) := by
    refine ⟨rfl, rfl, htable.seen, ?_, ?_, ?_, .inl ⟨hempty, hmin⟩⟩ <;> simp [hempty]
  refine foldlM_ok_induction
    (P := fun done s => Filling fields table s ∧ s.1.priorities.length = done.length)
    ?_ ⟨hstart, by simp [hempty]⟩ h
  rintro done node s s' ⟨hs, hlen⟩ hstep
  refine ⟨hs.step hstep, ?_⟩
  obtain ⟨prio, -, rfl⟩ := jsonGroupPriority_eq_ok hstep
  simp [hlen]

end Filling

/-! ## One group -/

section Groups

variable {env : ConfigEnv} {frames interval : ℕ}

/-- The number a key is set to. -/
def uintKey (root : Json) (key : String) : Option ℕ :=
  match root.get key with
  | some (.integer value) => some value.toNat
  | _ => none

/-- A key that is read has its value, or the default where it is missing. -/
theorem jsonGetUintDefault_eq_ok {root : Json} {key : String} {dst value : ℕ}
    (h : jsonGetUintDefault root key dst = .ok value) : value = (uintKey root key).getD dst := by
  unfold jsonGetUintDefault at h
  unfold uintKey
  split at h
  · next hget =>
    rw [hget]
    exact (Except.ok.inj h).symm
  · next hget =>
    split at h
    · cases h
    · rw [hget]
      exact (Except.ok.inj h).symm
  · cases h

/-- A group and what it was built from. -/
structure GroupFrom (frames interval : ℕ) (item : Json) (g : ConfigGroup) : Prop where
  name : groupName item = some g.name
  flushFrames : g.durabilityFlushFrames = (uintKey item "durability_flush_frames").getD frames
  flushInterval : g.durabilityFlushIntervalSec =
    (uintKey item "durability_flush_interval_sec").getD interval

/-- What the fields of a group are read from. -/
theorem jsonGroupFields_eq_ok {item : Json} {name : Bytes} {fields : ConfigGroup}
    (h : jsonGroupFields env frames interval item name = .ok fields) :
    fields.name = name ∧ fields.priorities = [] ∧ fields.minPriority = 255 ∧
      fields.durabilityFlushFrames = (uintKey item "durability_flush_frames").getD frames ∧
      fields.durabilityFlushIntervalSec =
        (uintKey item "durability_flush_interval_sec").getD interval := by
  unfold jsonGroupFields at h
  obtain ⟨frames', hframes, h⟩ := bind_eq_ok_iff.1 h
  obtain ⟨interval', hinterval, h⟩ := bind_eq_ok_iff.1 h
  obtain ⟨maxBytes, -, h⟩ := bind_eq_ok_iff.1 h
  obtain ⟨maxAge, -, h⟩ := bind_eq_ok_iff.1 h
  obtain ⟨modifiers, -, h⟩ := bind_eq_ok_iff.1 h
  cases h
  exact ⟨rfl, rfl, rfl, jsonGetUintDefault_eq_ok hframes, jsonGetUintDefault_eq_ok hinterval⟩

/-- A group that is accepted comes behind the others. -/
theorem jsonGroup_eq_ok {table table' : GroupTable} {item : Json} (htable : ConsistentTable table)
    (h : jsonGroup env frames interval table item = .ok table') :
    ∃ fields s, Filling fields table s ∧ s.1.priorities ≠ [] ∧
      GroupFrom frames interval item s.1 ∧ validGroupName s.1.name = true ∧
      s.1.name.length ≤ maxGroupNameLen ∧ (∀ g ∈ table.groups, g.name ≠ s.1.name) ∧
      table' = { s.2 with groups := table.groups ++ [s.1] } := by
  unfold jsonGroup at h
  obtain ⟨⟨name, priorities⟩, hheader, h⟩ := bind_eq_ok_iff.1 h
  obtain ⟨fields, hfields, h⟩ := bind_eq_ok_iff.1 h
  obtain ⟨_, hnew, h⟩ := bind_eq_ok_iff.1 h
  obtain ⟨_, hcount, h⟩ := bind_eq_ok_iff.1 h
  obtain ⟨s, hfill, h⟩ := bind_eq_ok_iff.1 h
  cases h
  obtain ⟨hname, hvalid, hlen⟩ := jsonGroupHeader_eq_ok hheader
  obtain ⟨hfname, hempty, hmin, hframes, hinterval⟩ := jsonGroupFields_eq_ok hfields
  obtain ⟨hs, hprio⟩ := jsonGroupPriorities_filling htable hempty hmin hfill
  have hsname : s.1.name = name := by
    rw [hs.same]
    exact hfname
  refine ⟨fields, s, hs, ?_, ⟨?_, ?_, ?_⟩, ?_, ?_, ?_, ?_⟩
  · intro hnil
    rw [require_eq_ok_iff] at hcount
    simp [hnil] at hprio
    simp [← hprio] at hcount
  · rw [hsname, hname]
  · rw [hs.same]
    exact hframes
  · rw [hs.same]
    exact hinterval
  · rw [hsname]
    exact hvalid
  · rw [hsname]
    exact hlen
  · rw [require_eq_ok_iff] at hnew
    rw [hsname]
    simpa using hnew
  · rw [← hs.groups]

/-- A table with one more group is consistent. -/
theorem ConsistentTable.append {table : GroupTable} {fields : ConfigGroup}
    {s : ConfigGroup × GroupTable} (htable : ConsistentTable table) (hs : Filling fields table s)
    (hsome : s.1.priorities ≠ []) (hvalid : validGroupName s.1.name = true)
    (hlen : s.1.name.length ≤ maxGroupNameLen) (hnew : ∀ g ∈ table.groups, g.name ≠ s.1.name) :
    ConsistentTable { s.2 with groups := table.groups ++ [s.1] } := by
  have hshared := htable.sharedOut
  have hnext : (table.groups ++ [s.1])[table.groups.length]? = some s.1 := by simp
  refine ⟨⟨?_, ?_, ?_, ?_, ?_⟩, hs.seen⟩
  · intro g hg
    rcases List.mem_append.1 hg with hg | hg
    · exact hshared.names g hg
    · rw [List.mem_singleton.1 hg]
      exact ⟨hvalid, hlen⟩
  · rw [List.map_append, List.map_singleton]
    refine List.nodup_append.2 ⟨hshared.distinct, List.nodup_singleton _, ?_⟩
    intro name hname name' hname'
    obtain ⟨g, hg, rfl⟩ := List.mem_map.1 hname
    rw [List.mem_singleton.1 hname']
    exact hnew g hg
  · intro g hg
    rcases List.mem_append.1 hg with hg | hg
    · exact hshared.least g hg
    · rw [List.mem_singleton.1 hg]
      rcases hs.attained with ⟨hnil, -⟩ | ⟨p, hp, hmin⟩
      · exact absurd hnil hsome
      · exact ⟨p, hp, hmin, fun q hq => hmin ▸ hs.lower q hq⟩
  · intro i g p hg hp
    rcases Nat.lt_or_ge i table.groups.length with hi | hi
    · rw [List.getElem?_append_left hi] at hg
      have howner := hshared.owner i g p hg hp
      rw [hs.routed, if_neg]
      · exact howner
      · intro hmem
        have hfresh := hs.fresh p hmem
        omega
    · have hlast : i = table.groups.length := by
        have hlt := (List.getElem?_eq_some_iff.1 hg).1
        rw [List.length_append, List.length_singleton] at hlt
        omega
      subst hlast
      obtain rfl := Option.some.inj (hnext.symm.trans hg)
      rw [hs.routed, if_pos hp]
  · intro p hp
    by_cases hmem : p ∈ s.1.priorities
    · exact ⟨table.groups.length, s.1, hnext, hmem, by rw [hs.routed, if_pos hmem]⟩
    · rw [hs.routed, if_neg hmem] at hp
      obtain ⟨i, g, hg, hgp, hi⟩ := hshared.owned p hp
      refine ⟨i, g, ?_, hgp, ?_⟩
      · rw [List.getElem?_append_left (List.getElem?_eq_some_iff.1 hg).1]
        exact hg
      · rw [hs.routed, if_neg hmem]
        exact hi

/-- The table of a file, with a group for each item. -/
theorem jsonGroups_consistent {items : List Json} {table : GroupTable}
    (h : items.foldlM (jsonGroup env frames interval) {} = .ok table) :
    ConsistentTable table ∧ List.Forall₂ (GroupFrom frames interval) items table.groups := by
  refine foldlM_ok_induction (P := fun done table =>
      ConsistentTable table ∧ List.Forall₂ (GroupFrom frames interval) done table.groups)
    ?_ ⟨⟨⟨?_, ?_, ?_, ?_, ?_⟩, ?_⟩, .nil⟩ h
  · rintro done item table table' ⟨htable, hfrom⟩ hstep
    obtain ⟨fields, s, hs, hsome, hitem, hvalid, hlen, hnew, rfl⟩ := jsonGroup_eq_ok htable hstep
    exact ⟨htable.append hs hsome hvalid hlen hnew,
      List.rel_append hfrom (.cons hitem .nil)⟩
  all_goals simp

/-- A file gives groups. -/
def givesGroups (root : Json) : Bool := (root.get "priority_groups").isSome

/-- The priorities are all shared out. -/
structure RoutedGroups (groups : List ConfigGroup) (priorityToGroup : Fin 8 → ℤ) : Prop where
  sharedOut : SharedOut groups priorityToGroup
  covered : ∀ p, priorityToGroup p ≠ -1

/-- A file gives no groups, or groups that route every priority and have its fields. -/
theorem jsonGetPriorityGroups_eq_ok {root : Json}
    {table : Option (List ConfigGroup × (Fin 8 → ℤ))}
    (h : jsonGetPriorityGroups env frames interval root = .ok table) :
    givesGroups root = false ∧ table = none ∨
      givesGroups root = true ∧ ∃ groups priorityToGroup, table = some (groups, priorityToGroup) ∧
        RoutedGroups groups priorityToGroup ∧
        List.Forall₂ (GroupFrom frames interval) (groupItems root) groups := by
  unfold jsonGetPriorityGroups at h
  unfold givesGroups groupItems
  split at h
  · next hget =>
    rw [hget]
    exact .inl ⟨rfl, (Except.ok.inj h).symm⟩
  · next items hget =>
    right
    obtain ⟨_, -, h⟩ := bind_eq_ok_iff.1 h
    obtain ⟨built, hbuilt, h⟩ := bind_eq_ok_iff.1 h
    obtain ⟨_, hmask, h⟩ := bind_eq_ok_iff.1 h
    cases h
    obtain ⟨hconsistent, hfrom⟩ := jsonGroups_consistent hbuilt
    rw [hget]
    refine ⟨rfl, built.groups, built.priorityToGroup, rfl, ⟨hconsistent.sharedOut, ?_⟩, hfrom⟩
    intro p
    rw [require_eq_ok_iff, beq_iff_eq] at hmask
    have hbits : ∀ p : Fin 8, Nat.testBit 0xff p.val = true := by decide
    rw [← hconsistent.seen, hmask]
    exact hbits p
  · cases h

end Groups

/-! ## A file -/

/-- A group before and after its check. -/
def SameGroup (g g' : ConfigGroup) : Prop :=
  g' = { g with durablePerFrame := g'.durablePerFrame, staticDictPath := g'.staticDictPath }

/-- The check of a group changes its durability settings and paths only. -/
theorem checkGroup_eq_ok {durableMax : ℤ} {paths : Fin 8 → Option Bytes} {g g' : ConfigGroup}
    (h : checkGroup durableMax paths g = .ok g') : SameGroup g g' := by
  unfold checkGroup at h
  obtain ⟨_, -, h⟩ := bind_eq_ok_iff.1 h
  obtain ⟨dict, -, h⟩ := bind_eq_ok_iff.1 h
  cases h
  rfl

/-- The check of a configuration changes those of its groups only. -/
theorem checkConfig_eq_ok {env : ConfigEnv} {config config' : Config}
    (h : checkConfig env config = .ok config') :
    ∃ groups, config' = { config with groups := groups } ∧
      List.Forall₂ SameGroup config.groups groups := by
  unfold checkConfig at h
  obtain ⟨_, -, h⟩ := bind_eq_ok_iff.1 h
  obtain ⟨_, -, h⟩ := bind_eq_ok_iff.1 h
  obtain ⟨_, -, h⟩ := bind_eq_ok_iff.1 h
  obtain ⟨groups, hgroups, h⟩ := bind_eq_ok_iff.1 h
  exact ⟨groups, (Except.ok.inj h).symm,
    (mapM_ok_forall₂ hgroups).imp fun _ _ hg => checkGroup_eq_ok hg⟩

section SameGroup

variable {groups groups' : List ConfigGroup} {priorityToGroup : Fin 8 → ℤ}

/-- The check keeps the name. -/
theorem SameGroup.name {g g' : ConfigGroup} (h : SameGroup g g') : g'.name = g.name := by
  rw [h]

/-- The check keeps the priorities. -/
theorem SameGroup.priorities {g g' : ConfigGroup} (h : SameGroup g g') :
    g'.priorities = g.priorities := by
  rw [h]

/-- The check keeps the lowest priority. -/
theorem SameGroup.minPriority {g g' : ConfigGroup} (h : SameGroup g g') :
    g'.minPriority = g.minPriority := by
  rw [h]

/-- The checked groups have the names in front of the check. -/
theorem map_name_eq (h : List.Forall₂ SameGroup groups groups') :
    groups'.map (·.name) = groups.map (·.name) := by
  induction h with
  | nil => rfl
  | cons hg _ ih => rw [List.map_cons, List.map_cons, hg.name, ih]

/-- A checked group comes from one that was read. -/
theorem SameGroup.exists_left (h : List.Forall₂ SameGroup groups groups') {i : ℕ}
    {g' : ConfigGroup} (hg' : groups'[i]? = some g') :
    ∃ g, groups[i]? = some g ∧ SameGroup g g' := forall₂_getElem? h hg'

/-- A group that was read has a checked one. -/
theorem SameGroup.exists_right (h : List.Forall₂ SameGroup groups groups') {i : ℕ}
    {g : ConfigGroup} (hg : groups[i]? = some g) :
    ∃ g', groups'[i]? = some g' ∧ SameGroup g g' := by
  have hflip : List.Forall₂ (fun g' g => SameGroup g g') groups' groups := List.Forall₂.flip h
  exact forall₂_getElem? hflip hg

/-- The check leaves the routing alone. -/
theorem RoutedGroups.congr (h : RoutedGroups groups priorityToGroup)
    (hsame : List.Forall₂ SameGroup groups groups') : RoutedGroups groups' priorityToGroup := by
  have hmem : ∀ g' ∈ groups', ∃ g ∈ groups, SameGroup g g' := by
    intro g' hg'
    obtain ⟨i, hi⟩ := List.mem_iff_getElem?.1 hg'
    obtain ⟨g, hg, hgg'⟩ := SameGroup.exists_left hsame hi
    exact ⟨g, List.mem_of_getElem? hg, hgg'⟩
  refine ⟨⟨?_, ?_, ?_, ?_, ?_⟩, h.covered⟩
  · intro g' hg'
    obtain ⟨g, hg, hgg'⟩ := hmem g' hg'
    rw [hgg'.name]
    exact h.sharedOut.names g hg
  · rw [map_name_eq hsame]
    exact h.sharedOut.distinct
  · intro g' hg'
    obtain ⟨g, hg, hgg'⟩ := hmem g' hg'
    rw [hgg'.priorities, hgg'.minPriority]
    exact h.sharedOut.least g hg
  · intro i g' p hg' hp
    obtain ⟨g, hg, hgg'⟩ := SameGroup.exists_left hsame hg'
    rw [hgg'.priorities] at hp
    exact h.sharedOut.owner i g p hg hp
  · intro p hp
    obtain ⟨i, g, hg, hgp, hi⟩ := h.sharedOut.owned p hp
    obtain ⟨g', hg', hgg'⟩ := SameGroup.exists_right hsame hg
    exact ⟨i, g', hg', hgg'.priorities ▸ hgp, hi⟩

end SameGroup

/-- What one file does to the groups and to the global flush settings. -/
structure LoadedOver (root : Json) (config config' : Config) : Prop where
  flushFrames : config'.durabilityFlushFrames =
    (uintKey root "durability_flush_frames").getD config.durabilityFlushFrames
  flushInterval : config'.durabilityFlushIntervalSec =
    (uintKey root "durability_flush_interval_sec").getD config.durabilityFlushIntervalSec
  kept : givesGroups root = false → List.Forall₂ SameGroup config.groups config'.groups ∧
    config'.priorityToGroup = config.priorityToGroup
  given : givesGroups root = true → RoutedGroups config'.groups config'.priorityToGroup ∧
    List.Forall₂ (GroupFrom config'.durabilityFlushFrames config'.durabilityFlushIntervalSec)
      (groupItems root) config'.groups

/-- A checked group has the fields of its item. -/
theorem GroupFrom.congr {frames interval : ℕ} {item : Json} {g g' : ConfigGroup}
    (h : GroupFrom frames interval item g) (hsame : SameGroup g g') :
    GroupFrom frames interval item g' := by
  rw [hsame]
  exact ⟨h.name, h.flushFrames, h.flushInterval⟩

/-- What loading one file over a configuration leaves. -/
theorem recorderConfigLoad_eq_ok {env : ConfigEnv} {config config' : Config} {root : Json}
    (h : recorderConfigLoad env config root = .ok config') : LoadedOver root config config' := by
  unfold recorderConfigLoad at h
  obtain ⟨_, -, h⟩ := bind_eq_ok_iff.1 h
  obtain ⟨capture, -, h⟩ := bind_eq_ok_iff.1 h
  obtain ⟨durableMax, -, h⟩ := bind_eq_ok_iff.1 h
  obtain ⟨frames, hframes, h⟩ := bind_eq_ok_iff.1 h
  obtain ⟨interval, hinterval, h⟩ := bind_eq_ok_iff.1 h
  obtain ⟨storage, -, h⟩ := bind_eq_ok_iff.1 h
  obtain ⟨dictPaths, -, h⟩ := bind_eq_ok_iff.1 h
  obtain ⟨modifiers, -, h⟩ := bind_eq_ok_iff.1 h
  obtain ⟨table, htable, h⟩ := bind_eq_ok_iff.1 h
  obtain ⟨groups, rfl, hsame⟩ := checkConfig_eq_ok h
  refine ⟨jsonGetUintDefault_eq_ok hframes, jsonGetUintDefault_eq_ok hinterval, ?_, ?_⟩
  · intro hgives
    rcases jsonGetPriorityGroups_eq_ok htable with ⟨-, rfl⟩ | ⟨htrue, -⟩
    · exact ⟨hsame, rfl⟩
    · rw [hgives] at htrue
      cases htrue
  · intro hgives
    rcases jsonGetPriorityGroups_eq_ok htable with ⟨hfalse, -⟩ |
      ⟨-, built, priorityToGroup, rfl, hrouted, hfrom⟩
    · rw [hgives] at hfalse
      cases hfalse
    · exact ⟨hrouted.congr hsame, forall₂_trans hfrom hsame fun _ _ _ hg hgg' => hg.congr hgg'⟩

/-! ## All files -/

/-- The files up to the last one that gives groups. -/
def upToGroups (roots : List Json) : List Json := roots.rdropWhile fun root => !givesGroups root

/-- The last file that gives groups. -/
def groupsFile (roots : List Json) : Option Json := (upToGroups roots).getLast?

/-- The files up to the last one that gives groups, with one more file. -/
theorem upToGroups_append (roots : List Json) (root : Json) :
    upToGroups (roots ++ [root]) =
      if givesGroups root = true then roots ++ [root] else upToGroups roots := by
  unfold upToGroups
  rw [List.rdropWhile_concat]
  cases givesGroups root <;> simp

/-- The default group takes every priority. -/
theorem recorderConfigInit_routed :
    RoutedGroups recorderConfigInit.groups recorderConfigInit.priorityToGroup := by
  have hget : ∀ (i : ℕ) (g : ConfigGroup), recorderConfigInit.groups[i]? = some g →
      ∃ p : Fin 8, p.val = i ∧ g.name = [112, UInt8.ofNat (48 + p.val)] ∧ g.priorities = [p] ∧
        g.minPriority = p.val := by
    intro i g hg
    rw [recorderConfigInit, List.getElem?_map, Option.map_eq_some_iff] at hg
    obtain ⟨p, hp, rfl⟩ := hg
    obtain ⟨hi, rfl⟩ := List.getElem?_eq_some_iff.1 hp
    exact ⟨_, by simp, rfl, rfl, rfl⟩
  have hmem : ∀ g ∈ recorderConfigInit.groups, ∃ p : Fin 8,
      g.name = [112, UInt8.ofNat (48 + p.val)] ∧ g.priorities = [p] ∧ g.minPriority = p.val := by
    intro g hg
    obtain ⟨i, hi⟩ := List.mem_iff_getElem?.1 hg
    obtain ⟨p, -, hname, hp, hmin⟩ := hget i g hi
    exact ⟨p, hname, hp, hmin⟩
  refine ⟨⟨fun g hg => ?_, by decide, fun g hg => ?_, fun i g p hg hp => ?_, fun p hp => ?_⟩, ?_⟩
  · obtain ⟨p, hname, -, -⟩ := hmem g hg
    have hvalid : ∀ p : Fin 8, validGroupName [112, UInt8.ofNat (48 + p.val)] = true := by decide
    rw [hname]
    exact ⟨hvalid p, by simp [maxGroupNameLen]⟩
  · obtain ⟨p, -, hp, hmin⟩ := hmem g hg
    rw [hp, hmin]
    exact ⟨p, by simp, rfl, by simp⟩
  · obtain ⟨q, rfl, -, hq, -⟩ := hget i g hg
    rw [hq, List.mem_singleton] at hp
    rw [hp]
    rfl
  · have hgroup : recorderConfigInit.groups[p.val]? = some
        { name := [112, UInt8.ofNat (48 + p.val)], priorities := [p], minPriority := p.val } := by
      simp [recorderConfigInit]
    exact ⟨p.val, _, hgroup, by simp, rfl⟩
  · intro p
    simp [recorderConfigInit]

/-- The groups of a configuration and the files they come from. -/
structure GroupsLoaded (roots : List Json) (config : Config) : Prop where
  routed : RoutedGroups config.groups config.priorityToGroup
  names : config.groups.map (·.name) =
    (groupsFile roots).elim (recorderConfigInit.groups.map (·.name)) groupNames
  short : ∀ root ∈ roots, ∀ name ∈ groupNames root, name.length ≤ maxGroupNameLen

/-- The names in a file are those of its groups. -/
theorem groupNames_eq {frames interval : ℕ} {root : Json} {groups : List ConfigGroup}
    (h : List.Forall₂ (GroupFrom frames interval) (groupItems root) groups) :
    groupNames root = groups.map (·.name) := by
  unfold groupNames
  generalize groupItems root = items at h
  induction h with
  | nil => rfl
  | cons hg _ ih => rw [List.filterMap_cons_some hg.name, List.map_cons, ih]

/-- A file without groups names none. -/
theorem groupNames_eq_nil {root : Json} (h : givesGroups root = false) : groupNames root = [] := by
  unfold givesGroups at h
  unfold groupNames groupItems
  rw [Option.isSome_eq_false_iff, Option.isNone_iff_eq_none] at h
  rw [h]
  rfl

/-- One more file, by whether it gives groups. -/
theorem LoadedOver.groupsLoaded {roots : List Json} {root : Json} {config config' : Config}
    (h : LoadedOver root config config') (hloaded : GroupsLoaded roots config) :
    GroupsLoaded (roots ++ [root]) config' := by
  have happend := upToGroups_append roots root
  cases hgives : givesGroups root with
  | false =>
    obtain ⟨hsame, hto⟩ := h.kept hgives
    rw [hgives, if_neg (by simp)] at happend
    refine ⟨hto ▸ hloaded.routed.congr hsame, ?_, fun other hother => ?_⟩
    · rw [map_name_eq hsame, hloaded.names]
      unfold groupsFile
      rw [happend]
    · rcases List.mem_append.1 hother with hother | hother
      · exact hloaded.short other hother
      · rw [List.mem_singleton.1 hother, groupNames_eq_nil hgives]
        simp
  | true =>
    obtain ⟨hrouted, hfrom⟩ := h.given hgives
    rw [hgives, if_pos rfl] at happend
    refine ⟨hrouted, ?_, fun other hother => ?_⟩
    · unfold groupsFile
      rw [happend, List.getLast?_concat]
      exact (groupNames_eq hfrom).symm
    · rcases List.mem_append.1 hother with hother | hother
      · exact hloaded.short other hother
      · rw [List.mem_singleton.1 hother, groupNames_eq hfrom]
        intro name hname
        obtain ⟨g, hg, rfl⟩ := List.mem_map.1 hname
        exact (hrouted.sharedOut.names g hg).2

/-- **The groups of an accepted configuration** are those of the last file that gives groups. -/
theorem recorderConfigLoadAll_loaded {env : ConfigEnv} {main : Json} {dropins : List Json}
    {config : Config} (h : recorderConfigLoadAll env main dropins = .ok config) :
    GroupsLoaded (main :: dropins) config := by
  refine foldlM_ok_induction (P := GroupsLoaded) ?_
    ⟨recorderConfigInit_routed, rfl, by simp⟩ h
  intro roots root config config' hloaded hstep
  exact (recorderConfigLoad_eq_ok hstep).groupsLoaded hloaded

/-- Nothing but a name that is too long can take a configuration behind its buffers. -/
theorem recorderConfigLoadAll_overrun {env : ConfigEnv} {main : Json} {dropins : List Json}
    (h : recorderConfigLoadAll env main dropins = .error .overrun) :
    ∃ root ∈ main :: dropins, ∃ name ∈ groupNames root, maxGroupNameLen < name.length := by
  obtain ⟨root, hroot, config, hstep⟩ := foldlM_error_step h
  exact ⟨root, hroot, recorderConfigLoad_overrun hstep⟩

/-! ## Files with groups -/

/-- A group with a name and priorities. -/
def groupItem (name : Bytes) (priorities : List ℤ) : Json :=
  .object [("name", .string name), ("priorities", .array (priorities.map .integer))]

/-- A file that gives groups and nothing else. -/
def groupsRoot (items : List Json) : Json := .object [("priority_groups", .array items)]

/-- A system on which every file is readable. -/
def anyFile : ConfigEnv := ⟨fun _ => true, fun _ => true⟩

/-- The configuration of a file, the built-in one where it is rejected. -/
def configOf (root : Json) : Config :=
  (recorderConfigLoadAll anyFile root []).toOption.getD recorderConfigInit

/-! ## The configuration of the writers -/

/-- What the writers and retention read of a configuration. -/
def writerConfig (config : Config) (h : RoutedGroups config.groups config.priorityToGroup) :
    RecorderConfig where
  groups := config.groups.map ConfigGroup.priorityGroup
  priorityToGroup := fun p => (config.priorityToGroup p).toNat
  logMaxBytes := config.storage.logMaxBytes
  segmentMaxBytes := config.storage.segmentMaxBytes
  segmentMaxAgeSec := config.storage.segmentMaxAgeSec
  compressEnabled := config.storage.compressEnabled
  compressMinFrameBytes := config.storage.compressMinFrameBytes
  compressIfSmaller := config.storage.compressIfSmaller
  encryption := config.storage.encryptionPublicKey.isSome
  fullEntries := configUsesFullEntries config
  minFreeBytes := config.storage.minFreeBytes
  priorityToGroup_lt := by
    intro p
    obtain ⟨i, g, hg, -, hi⟩ := h.sharedOut.owned p (h.covered p)
    rw [hi, List.length_map]
    exact (List.getElem?_eq_some_iff.1 hg).1
  names_nodup := by
    rw [List.map_map]
    exact h.sharedOut.distinct

/-- The writers see the groups that were loaded. -/
theorem writerConfig_group {config : Config}
    (h : RoutedGroups config.groups config.priorityToGroup) {i : ℕ} {g : ConfigGroup}
    (hg : config.groups[i]? = some g) : (writerConfig config h).group i = g.priorityGroup := by
  simp [RecorderConfig.group, writerConfig, hg]

end Recorder.Analysis
