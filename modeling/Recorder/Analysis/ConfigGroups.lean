import Recorder.Analysis.ConfigLoad

/-!
# The groups of an accepted configuration

`valid_group_name` of the recorder accepts the name of the state directory, which
`is_segment_dir_name` and the reader's `valid_group_name` do not, and the length of a name is
not checked before it is copied.

**Main result**: `accepted_groups_usable_iff`.
-/

set_option autoImplicit false

namespace Recorder.Analysis

open Recorder.Model Recorder.Lib

/-! ## Usable groups -/

/-- What the recorder and the reader need of the groups. -/
structure UsableGroups (config : Config) : Prop where
  names : ∀ g ∈ config.groups, 1 ≤ g.name.length ∧ g.name.length ≤ 63 ∧
    ∀ b ∈ g.name, isAlnum b = true ∨ b = 95 ∨ b = 45
  distinct : (config.groups.map (·.name)).Nodup
  recorderDir : ∀ g ∈ config.groups, isSegmentDirName g.name = true
  readerDir : ∀ g ∈ config.groups, readerValidGroupName g.name = true
  routed : ∀ p : Fin 8, ∃ (i : ℕ) (g : ConfigGroup), config.priorityToGroup p = i ∧
    config.groups[i]? = some g ∧ p ∈ g.priorities ∧
    ∀ (j : ℕ) (g' : ConfigGroup), config.groups[j]? = some g' → p ∈ g'.priorities → j = i
  least : ∀ g ∈ config.groups,
    ∃ p ∈ g.priorities, g.minPriority = p.val ∧ ∀ q ∈ g.priorities, p ≤ q

theorem validGroupName_iff {name : Bytes} : validGroupName name = true ↔
    name ≠ [] ∧ ∀ b ∈ name, isAlnum b = true ∨ b = 95 ∨ b = 45 := by
  simp [validGroupName, or_assoc]

/-- The two programs agree on the names of segment directories. -/
theorem readerValidGroupName_eq (name : Bytes) :
    readerValidGroupName name = isSegmentDirName name := by
  have hchars : (fun b : UInt8 => (97 ≤ b && b ≤ 122) || (65 ≤ b && b ≤ 90) ||
      (48 ≤ b && b ≤ 57) || b == 95 || b == 45) = fun b => isAlnum b || b == 95 || b == 45 := by
    funext b
    simp only [isAlnum, isDigit]
    ac_rfl
  unfold readerValidGroupName isSegmentDirName validGroupName
  rw [hchars, bne]
  by_cases hstate : name = stateDirName
  · simp [hstate]
  · simp [hstate]

theorem RoutedGroups.usable_iff {config : Config}
    (h : RoutedGroups config.groups config.priorityToGroup) :
    UsableGroups config ↔ stateDirName ∉ config.groups.map (·.name) := by
  constructor
  · intro husable hstate
    obtain ⟨g, hg, hname⟩ := List.mem_map.1 hstate
    have hdir := husable.recorderDir g hg
    rw [hname] at hdir
    exact absurd hdir (by decide)
  · intro hstate
    have hdir : ∀ g ∈ config.groups, isSegmentDirName g.name = true := by
      intro g hg
      have hne : g.name ≠ stateDirName := by
        intro hname
        exact hstate (List.mem_map.2 ⟨g, hg, hname⟩)
      simp [isSegmentDirName, (h.sharedOut.names g hg).1, hne]
    refine ⟨fun g hg => ?_, h.sharedOut.distinct, hdir, fun g hg => ?_, fun p => ?_,
      h.sharedOut.least⟩
    · obtain ⟨hvalid, hlen⟩ := h.sharedOut.names g hg
      obtain ⟨hne, hchars⟩ := validGroupName_iff.1 hvalid
      exact ⟨List.length_pos_iff.2 hne, hlen, hchars⟩
    · rw [readerValidGroupName_eq]
      exact hdir g hg
    · obtain ⟨i, g, hg, hp, hi⟩ := h.sharedOut.owned p (h.covered p)
      refine ⟨i, g, hi, hg, hp, fun j g' hg' hp' => ?_⟩
      have hj := h.sharedOut.owner j g' p hg' hp'
      omega

/-- A configuration that is not rejected has usable groups unless a name is too long for its
buffer or the groups have one with the name of the state directory. -/
theorem accepted_groups_usable_iff (env : ConfigEnv) (main : Json) (dropins : List Json)
    (h : recorderConfigLoadAll env main dropins ≠ .error .rejected) :
    (∃ config, recorderConfigLoadAll env main dropins = .ok config ∧ UsableGroups config) ↔
      (∀ root ∈ main :: dropins, ∀ name ∈ groupNames root, name.length ≤ 63) ∧
        ∀ root, groupsFile (main :: dropins) = some root → stateDirName ∉ groupNames root := by
  have hinit : stateDirName ∉ recorderConfigInit.groups.map (·.name) := by decide
  have hstate : ∀ config, recorderConfigLoadAll env main dropins = .ok config →
      (UsableGroups config ↔
        ∀ root, groupsFile (main :: dropins) = some root → stateDirName ∉ groupNames root) := by
    intro config hok
    have hloaded := recorderConfigLoadAll_loaded hok
    rw [hloaded.routed.usable_iff, hloaded.names]
    cases groupsFile (main :: dropins) with
    | none => simpa using hinit
    | some root => simp
  constructor
  · rintro ⟨config, hok, husable⟩
    exact ⟨(recorderConfigLoadAll_loaded hok).short, (hstate config hok).1 husable⟩
  · rintro ⟨hshort, hnames⟩
    cases hload : recorderConfigLoadAll env main dropins with
    | ok config => exact ⟨config, rfl, (hstate config hload).2 hnames⟩
    | error e =>
      cases e with
      | rejected => exact absurd hload h
      | overrun =>
        obtain ⟨root, hroot, name, hname, hlong⟩ := recorderConfigLoadAll_overrun hload
        exact absurd (hshort root hroot name hname) (Nat.not_le_of_lt hlong)

/-- A drop-in with the groups `a` and `b` over an empty file. -/
theorem accepted_groups_usable_dropin :
    ∃ config, recorderConfigLoadAll anyFile (.object [])
        [groupsRoot [groupItem [97] [0, 1, 2, 3], groupItem [98] [4, 5, 6, 7]]] = .ok config ∧
      UsableGroups config := by
  obtain ⟨config, hload⟩ : ∃ config, recorderConfigLoadAll anyFile (.object [])
      [groupsRoot [groupItem [97] [0, 1, 2, 3], groupItem [98] [4, 5, 6, 7]]] = .ok config :=
    ⟨_, rfl⟩
  refine (accepted_groups_usable_iff _ _ _ (by rw [hload]; simp)).2 ⟨?_, ?_⟩
  · intro root hroot name hname
    rcases List.mem_pair.1 hroot with rfl | rfl
    · exact absurd hname (List.not_mem_nil (a := name))
    · rcases List.mem_pair.1 hname with rfl | rfl <;> decide
  · intro root hroot
    obtain rfl := Option.some.inj hroot
    decide

/-- A group with the name of the state directory is accepted, and no part of the recorder takes
its directory for one with segments. -/
theorem accepted_group_state :
    ∃ config, recorderConfigLoadAll anyFile
        (groupsRoot [groupItem stateDirName [0, 1, 2, 3, 4, 5, 6, 7]]) [] = .ok config ∧
      ¬ UsableGroups config := by
  refine ⟨_, rfl, fun husable => ?_⟩
  have hdir := husable.recorderDir _ (List.mem_singleton_self _)
  exact absurd hdir (by decide)

end Recorder.Analysis
