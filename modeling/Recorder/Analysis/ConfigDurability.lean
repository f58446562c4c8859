import Recorder.Analysis.ConfigLoad

/-!
# The flush settings of the groups

A group gets the global flush settings when `json_get_priority_groups` builds it, and the groups
of `recorder_config_init` are never given any. So a group that sets none of its own has the
value that was there when its file was loaded (`SettingsLoaded`), and a later file that sets the
global key changes nothing for it.

**Main result**: `flush_settings_inherited_iff`.
-/

set_option autoImplicit false

namespace Recorder.Analysis

open Recorder.Model Recorder.Lib

/-! ## The two settings -/

/-- `durability_flush_frames` and `durability_flush_interval_sec`. -/
inductive FlushSetting
  | frames
  | intervalSec

namespace FlushSetting

/-- The key, of a file and of a group. -/
def key : FlushSetting → String
  | frames => "durability_flush_frames"
  | intervalSec => "durability_flush_interval_sec"

/-- The built-in default. -/
def builtIn : FlushSetting → ℕ
  | frames => 32
  | intervalSec => 60

/-- The global setting. -/
def ofConfig (config : Config) : FlushSetting → ℕ
  | frames => config.durabilityFlushFrames
  | intervalSec => config.durabilityFlushIntervalSec

/-- The setting of a group, which `writer_open_segment` copies. -/
def ofGroup (g : PriorityGroup) : FlushSetting → ℕ
  | frames => g.durabilityFlushFrames
  | intervalSec => g.durabilityFlushIntervalSec

/-- The value of the global key behind some files. -/
def globalValue (setting : FlushSetting) (roots : List Json) : ℕ :=
  roots.foldl (fun value root => (uintKey root setting.key).getD value) setting.builtIn

/-- The value group `i` sets for itself in the file the groups come from. -/
def groupValue (setting : FlushSetting) (roots : List Json) (i : ℕ) : Option ℕ :=
  (((groupsFile roots).elim [] groupItems)[i]?).bind fun item => uintKey item setting.key

/-- Every group has its own value or else the final global one. -/
def Inherited (setting : FlushSetting) (roots : List Json) (config : RecorderConfig) : Prop :=
  ∀ i < config.groups.length,
    ofGroup (config.group i) setting =
      (setting.groupValue roots i).getD (setting.globalValue roots)

/-- The final global value is the one that was there when the groups were built: zero for
those of `recorder_config_init`. Where every group sets its own, it does not matter. -/
def SetInTime (setting : FlushSetting) (roots : List Json) : Prop :=
  match groupsFile roots with
  | none => setting.globalValue roots = 0
  | some root =>
    (∀ item ∈ groupItems root, (uintKey item setting.key).isSome = true) ∨
      setting.globalValue (upToGroups roots) = setting.globalValue roots

/-- The global value behind one more file. -/
theorem globalValue_append (setting : FlushSetting) (roots : List Json) (root : Json) :
    setting.globalValue (roots ++ [root]) =
      (uintKey root setting.key).getD (setting.globalValue roots) := by
  simp [globalValue]

end FlushSetting

/-! ## Loading -/

/-- The settings behind some files. -/
structure SettingsLoaded (roots : List Json) (config : Config) : Prop where
  globals : ∀ setting, FlushSetting.ofConfig config setting = setting.globalValue roots
  builtIn : groupsFile roots = none → ∀ setting, ∀ g ∈ config.groups,
    FlushSetting.ofGroup g.priorityGroup setting = 0
  given : ∀ root, groupsFile roots = some root → ∀ setting,
    List.Forall₂ (fun item g => FlushSetting.ofGroup g.priorityGroup setting =
      (uintKey item setting.key).getD (setting.globalValue (upToGroups roots)))
      (groupItems root) config.groups

/-- The check keeps the setting of a group. -/
theorem SameGroup.ofGroup {g g' : ConfigGroup} (h : SameGroup g g') (setting : FlushSetting) :
    FlushSetting.ofGroup g'.priorityGroup setting =
      FlushSetting.ofGroup g.priorityGroup setting := by
  rw [h]
  cases setting <;> rfl

/-- A group has the value of its item, or the global one. -/
theorem GroupFrom.ofGroup {config : Config} {item : Json} {g : ConfigGroup}
    (h : GroupFrom config.durabilityFlushFrames config.durabilityFlushIntervalSec item g)
    (setting : FlushSetting) : FlushSetting.ofGroup g.priorityGroup setting =
      (uintKey item setting.key).getD (FlushSetting.ofConfig config setting) := by
  cases setting with
  | frames => exact h.flushFrames
  | intervalSec => exact h.flushInterval

/-- One more file, by whether it gives groups. -/
theorem LoadedOver.settingsLoaded {roots : List Json} {root : Json} {config config' : Config}
    (h : LoadedOver root config config') (hloaded : SettingsLoaded roots config) :
    SettingsLoaded (roots ++ [root]) config' := by
  have hglobals : ∀ setting, FlushSetting.ofConfig config' setting =
      setting.globalValue (roots ++ [root]) := by
    intro setting
    rw [FlushSetting.globalValue_append, ← hloaded.globals setting]
    cases setting with
    | frames => exact h.flushFrames
    | intervalSec => exact h.flushInterval
  have happend := upToGroups_append roots root
  cases hgives : givesGroups root with
  | false =>
    obtain ⟨hsame, -⟩ := h.kept hgives
    rw [hgives, if_neg (by simp)] at happend
    have hfile : groupsFile (roots ++ [root]) = groupsFile roots := by
      rw [groupsFile, happend, groupsFile]
    refine ⟨hglobals, fun hnone setting g' hg' => ?_, fun file hsome setting => ?_⟩
    · obtain ⟨i, hi⟩ := List.mem_iff_getElem?.1 hg'
      obtain ⟨g, hg, hgg'⟩ := SameGroup.exists_left hsame hi
      rw [hgg'.ofGroup]
      exact hloaded.builtIn (hfile ▸ hnone) setting g (List.mem_of_getElem? hg)
    · rw [happend]
      refine forall₂_trans (hloaded.given file (hfile ▸ hsome) setting) hsame ?_
      intro item g g' hg hgg'
      rw [hgg'.ofGroup, hg]
  | true =>
    obtain ⟨-, hfrom⟩ := h.given hgives
    rw [hgives, if_pos rfl] at happend
    have hfile : groupsFile (roots ++ [root]) = some root := by
      rw [groupsFile, happend, List.getLast?_concat]
    refine ⟨hglobals, fun hnone => ?_, fun file hsome setting => ?_⟩
    · rw [hfile] at hnone
      cases hnone
    · obtain rfl := Option.some.inj (hfile.symm.trans hsome)
      rw [happend, ← hglobals setting]
      exact hfrom.imp fun _ _ hg => hg.ofGroup setting

/-- **The settings of an accepted configuration** are those of its files. -/
theorem recorderConfigLoadAll_settings {env : ConfigEnv} {main : Json} {dropins : List Json}
    {config : Config} (h : recorderConfigLoadAll env main dropins = .ok config) :
    SettingsLoaded (main :: dropins) config := by
  refine foldlM_ok_induction (P := SettingsLoaded) ?_ ⟨?_, ?_, ?_⟩ h
  · intro roots root config config' hloaded hstep
    exact (recorderConfigLoad_eq_ok hstep).settingsLoaded hloaded
  · intro setting
    cases setting <;> rfl
  · intro _ setting g hg
    obtain ⟨i, -, rfl⟩ := List.mem_map.1 hg
    cases setting <;> rfl
  · intro root hroot
    cases hroot

/-! ## What the writers get -/

/-- A value of one's own or one of two defaults, for every element of a list. -/
theorem getD_eq_getD_iff {α : Type} (items : List α) (own : α → Option ℕ) (v w : ℕ) :
    (∀ item ∈ items, (own item).getD v = (own item).getD w) ↔
      (∀ item ∈ items, (own item).isSome = true) ∨ v = w := by
  constructor
  · intro h
    by_cases hall : ∀ item ∈ items, (own item).isSome = true
    · exact .inl hall
    · push Not at hall
      obtain ⟨item, hitem, hnone⟩ := hall
      have heq := h item hitem
      have hown : own item = none := by simpa using hnone
      rw [hown] at heq
      exact .inr heq
  · rintro (hall | rfl) item hitem
    · obtain ⟨value, hvalue⟩ := Option.isSome_iff_exists.1 (hall item hitem)
      rw [hvalue]
      rfl
    · rfl

/-- A flush setting reaches the groups exactly when it is set in time. -/
theorem flush_settings_inherited_iff {env : ConfigEnv} {main : Json} {dropins : List Json}
    {config : Config} (h : recorderConfigLoadAll env main dropins = .ok config)
    (setting : FlushSetting) :
    setting.Inherited (main :: dropins)
        (writerConfig config (recorderConfigLoadAll_loaded h).routed) ↔
      setting.SetInTime (main :: dropins) := by
  have hrouted := (recorderConfigLoadAll_loaded h).routed
  have hloaded := recorderConfigLoadAll_settings h
  have hgroups : ∀ i g, config.groups[i]? = some g →
      (writerConfig config hrouted).group i = g.priorityGroup :=
    fun i g hg => writerConfig_group hrouted hg
  have hlength : (writerConfig config hrouted).groups.length = config.groups.length := by
    simp [writerConfig]
  unfold FlushSetting.Inherited FlushSetting.SetInTime FlushSetting.groupValue
  rw [hlength]
  cases hfile : groupsFile (main :: dropins) with
  | none =>
    have hzero := hloaded.builtIn hfile setting
    have hvalue : ∀ i < config.groups.length,
        FlushSetting.ofGroup ((writerConfig config hrouted).group i) setting = 0 := by
      intro i hi
      rw [hgroups i _ (List.getElem?_eq_getElem hi)]
      exact hzero _ (List.getElem_mem hi)
    constructor
    · intro hinherited
      -- there is a group, since priority 0 belongs to one
      obtain ⟨i, g, hg, -, -⟩ := hrouted.sharedOut.owned 0 (hrouted.covered 0)
      have hi := (List.getElem?_eq_some_iff.1 hg).1
      have heq := hinherited i hi
      rw [hvalue i hi] at heq
      simpa using heq.symm
    · intro hglobal i hi
      rw [hvalue i hi, hglobal]
      simp
  | some root =>
    have hfrom := hloaded.given root hfile setting
    simp only [Option.elim_some]
    rw [← getD_eq_getD_iff (groupItems root) fun item => uintKey item setting.key]
    constructor
    · intro hinherited item hitem
      obtain ⟨i, hi⟩ := List.mem_iff_getElem?.1 hitem
      obtain ⟨g, hg, hvalue⟩ := forall₂_getElem? (List.Forall₂.flip hfrom) hi
      have heq := hinherited i (List.getElem?_eq_some_iff.1 hg).1
      rw [hgroups i g hg, hvalue, hi] at heq
      exact heq
    · intro hall i hi
      have hg := List.getElem?_eq_getElem hi
      obtain ⟨item, hitem, hvalue⟩ := forall₂_getElem? hfrom hg
      rw [hgroups i _ hg, hvalue, hitem]
      exact hall item (List.mem_of_getElem? hitem)

/-- A main file that sets the global key in front of a drop-in with one group. -/
theorem flush_settings_inherited_dropin :
    ∃ (config : Config) (h : recorderConfigLoadAll anyFile
        (.object [("durability_flush_frames", .integer 5)])
        [groupsRoot [groupItem [97] [0, 1, 2, 3, 4, 5, 6, 7]]] = .ok config),
      FlushSetting.frames.Inherited
        [.object [("durability_flush_frames", .integer 5)],
          groupsRoot [groupItem [97] [0, 1, 2, 3, 4, 5, 6, 7]]]
        (writerConfig config (recorderConfigLoadAll_loaded h).routed) := by
  obtain ⟨config, hload⟩ : ∃ config, recorderConfigLoadAll anyFile
      (.object [("durability_flush_frames", .integer 5)])
      [groupsRoot [groupItem [97] [0, 1, 2, 3, 4, 5, 6, 7]]] = .ok config := ⟨_, rfl⟩
  exact ⟨config, hload, (flush_settings_inherited_iff hload .frames).2 (.inr rfl)⟩

/-- Without any key the groups have the value 0 and not the built-in default. -/
theorem flush_settings_lost_builtIn :
    ∃ (config : Config) (h : recorderConfigLoadAll anyFile (.object []) [] = .ok config),
      ¬ FlushSetting.frames.Inherited [.object []]
        (writerConfig config (recorderConfigLoadAll_loaded h).routed) := by
  refine ⟨_, rfl, fun hinherited => ?_⟩
  have hzero := hinherited 0 (by decide)
  exact absurd hzero (by decide)

/-! ## What the writers rely on -/

section Load

variable {cenv : ConfigEnv} {config config' : Config} {root : Json} {frames interval : ℕ}

/-- The group has a priority whose frames are synced one by one. -/
def HasDurablePriority (config : Config) (g : ConfigGroup) : Prop :=
  ∃ p ∈ g.priorities, (p.val : ℤ) ≤ config.durablePriorityMax

/-- What the writers rely on: the flush settings are 32-bit numbers, and a group is durable if
one of its priorities is. -/
structure FlushChecked (config : Config) : Prop where
  frames : ∀ g ∈ config.groups, g.durabilityFlushFrames ≤ uint32Max
  durable : ∀ g ∈ config.groups, g.durablePerFrame = true ↔ HasDurablePriority config g

/-- A value that is read fits 32 bits. -/
theorem jsonGetUintDefault_le {key : String} {dst value : ℕ}
    (h : jsonGetUintDefault root key dst = .ok value) (hdst : dst ≤ uint32Max) :
    value ≤ uint32Max := by
  unfold jsonGetUintDefault at h
  split at h
  · cases h
    exact hdst
  · split at h
    · cases h
    · next hrange =>
      cases h
      simp only [uintMax, not_or, Int.not_lt] at hrange
      simp only [uint32Max]
      omega
  · cases h

/-- The frame limit of a group fits 32 bits. -/
theorem jsonGroup_flushFrames_le {table table' : GroupTable} {item : Json}
    (h : jsonGroup cenv frames interval table item = .ok table') (hframes : frames ≤ uint32Max) :
    (uintKey item "durability_flush_frames").getD frames ≤ uint32Max := by
  unfold jsonGroup at h
  obtain ⟨_, -, h⟩ := bind_eq_ok_iff.1 h
  obtain ⟨fields, hfields, -⟩ := bind_eq_ok_iff.1 h
  unfold jsonGroupFields at hfields
  obtain ⟨value, hvalue, -⟩ := bind_eq_ok_iff.1 hfields
  rw [← jsonGetUintDefault_eq_ok hvalue]
  exact jsonGetUintDefault_le hvalue hframes

/-- So do those of all groups of a file. -/
theorem jsonGetPriorityGroups_flushFrames_le
    {table : Option (List ConfigGroup × (Fin 8 → ℤ))}
    (h : jsonGetPriorityGroups cenv frames interval root = .ok table)
    (hframes : frames ≤ uint32Max) {item : Json} (hitem : item ∈ groupItems root) :
    (uintKey item "durability_flush_frames").getD frames ≤ uint32Max := by
  unfold jsonGetPriorityGroups at h
  unfold groupItems at hitem
  split at h
  · next hget =>
    rw [hget] at hitem
    cases hitem
  · next items hget =>
    rw [hget] at hitem
    obtain ⟨_, -, h⟩ := bind_eq_ok_iff.1 h
    obtain ⟨built, hbuilt, -⟩ := bind_eq_ok_iff.1 h
    obtain ⟨_, _, hstep⟩ := foldlM_ok_step hbuilt hitem
    exact jsonGroup_flushFrames_le hstep hframes
  · cases h

/-- The check makes a group durable by its priorities. -/
theorem checkGroup_durable {durableMax : ℤ} {paths : Fin 8 → Option Bytes} {g g' : ConfigGroup}
    (h : checkGroup durableMax paths g = .ok g') :
    g'.durablePerFrame = true ↔ ∃ p ∈ g'.priorities, (p.val : ℤ) ≤ durableMax := by
  unfold checkGroup at h
  obtain ⟨_, -, h⟩ := bind_eq_ok_iff.1 h
  obtain ⟨dict, -, h⟩ := bind_eq_ok_iff.1 h
  cases h
  simp only [List.any_eq_true, Bool.and_eq_true, decide_eq_true_eq]
  constructor
  · rintro ⟨p, hp, -, hle⟩
    exact ⟨p, hp, hle⟩
  · rintro ⟨p, hp, hle⟩
    exact ⟨p, hp, by omega, hle⟩

/-- The check does so for every group. -/
theorem checkConfig_durable (h : checkConfig cenv config = .ok config') :
    ∀ g ∈ config'.groups, g.durablePerFrame = true ↔ HasDurablePriority config' g := by
  unfold checkConfig at h
  obtain ⟨_, -, h⟩ := bind_eq_ok_iff.1 h
  obtain ⟨_, -, h⟩ := bind_eq_ok_iff.1 h
  obtain ⟨_, -, h⟩ := bind_eq_ok_iff.1 h
  obtain ⟨groups, hgroups, h⟩ := bind_eq_ok_iff.1 h
  cases h
  intro g hg
  obtain ⟨i, hi⟩ := List.mem_iff_getElem?.1 hg
  obtain ⟨g0, -, hcheck⟩ := forall₂_getElem? (mapM_ok_forall₂ hgroups) hi
  exact checkGroup_durable hcheck

/-- A file keeps the numbers in range and derives the durability of every group anew. -/
theorem recorderConfigLoad_checked (h : recorderConfigLoad cenv config root = .ok config')
    (hglobal : config.durabilityFlushFrames ≤ uint32Max)
    (hgroups : ∀ g ∈ config.groups, g.durabilityFlushFrames ≤ uint32Max) :
    config'.durabilityFlushFrames ≤ uint32Max ∧ FlushChecked config' := by
  have hover := recorderConfigLoad_eq_ok h
  unfold recorderConfigLoad at h
  obtain ⟨_, -, h⟩ := bind_eq_ok_iff.1 h
  obtain ⟨capture, -, h⟩ := bind_eq_ok_iff.1 h
  obtain ⟨durableMax, -, h⟩ := bind_eq_ok_iff.1 h
  obtain ⟨frames, hframes, h⟩ := bind_eq_ok_iff.1 h
  obtain ⟨interval, -, h⟩ := bind_eq_ok_iff.1 h
  obtain ⟨storage, -, h⟩ := bind_eq_ok_iff.1 h
  obtain ⟨dictPaths, -, h⟩ := bind_eq_ok_iff.1 h
  obtain ⟨modifiers, -, h⟩ := bind_eq_ok_iff.1 h
  obtain ⟨table, htable, h⟩ := bind_eq_ok_iff.1 h
  have hle := jsonGetUintDefault_le hframes hglobal
  have hglobal' : config'.durabilityFlushFrames = frames := by
    rw [hover.flushFrames, jsonGetUintDefault_eq_ok hframes]
  refine ⟨hglobal' ▸ hle, ?_, checkConfig_durable h⟩
  intro g' hg'
  obtain ⟨i, hi⟩ := List.mem_iff_getElem?.1 hg'
  cases hgives : givesGroups root with
  | false =>
    obtain ⟨hsame, -⟩ := hover.kept hgives
    obtain ⟨g, hg, hgg'⟩ := SameGroup.exists_left hsame hi
    rw [hgg']
    exact hgroups g (List.mem_of_getElem? hg)
  | true =>
    obtain ⟨-, hfrom⟩ := hover.given hgives
    obtain ⟨item, hitem, hg⟩ := forall₂_getElem? hfrom hi
    rw [hg.flushFrames, hglobal']
    exact jsonGetPriorityGroups_flushFrames_le htable hle (List.mem_of_getElem? hitem)

/-- An accepted configuration has passed the check. -/
theorem recorderConfigLoadAll_checked {main : Json} {dropins : List Json}
    (h : recorderConfigLoadAll cenv main dropins = .ok config) : FlushChecked config := by
  have hloaded := foldlM_ok_induction
    (P := fun done config => config.durabilityFlushFrames ≤ uint32Max ∧
      (∀ g ∈ config.groups, g.durabilityFlushFrames ≤ uint32Max) ∧
      (done ≠ [] → FlushChecked config)) ?_ ⟨by decide, ?_, fun h => absurd rfl h⟩ h
  · exact hloaded.2.2 (by simp)
  · rintro done root config config' ⟨hglobal, hgroups, -⟩ hstep
    obtain ⟨hglobal', hchecked⟩ := recorderConfigLoad_checked hstep hglobal hgroups
    exact ⟨hglobal', hchecked.frames, fun _ => hchecked⟩
  · intro g hg
    obtain ⟨i, -, rfl⟩ := List.mem_map.1 hg
    exact Nat.zero_le _

end Load

end Recorder.Analysis
