import Recorder.Lib.Except
import Recorder.Model.Config

/-!
# The keys of a configuration file

Every key is left alone, taken over or makes the file rejected. The one step that can do
something else is the copy of a group name: it writes behind its buffer if the name has more
than `maxGroupNameLen` characters (`recorderConfigLoad_overrun`).
-/

set_option autoImplicit false

namespace Recorder.Analysis

open Recorder.Model Recorder.Lib

/-! ## Steps that go through -/

/-- A requirement goes through just if it holds. -/
theorem require_eq_ok_iff {ok : Bool} {u : Unit} : require ok = .ok u ↔ ok = true := by
  cases ok with
  | false => simp [require]
  | true => simp [require]

/-- A step does not write behind the end of a name. -/
def NoOverrun {α : Type} (x : Load α) : Prop := x ≠ .error .overrun

section NoOverrun

variable {α β : Type}

/-- A value is no overrun. -/
theorem NoOverrun.ok (a : α) : NoOverrun (.ok a : Load α) := by
  simp [NoOverrun]

/-- A rejected file is no overrun. -/
theorem NoOverrun.rejected : NoOverrun (.error .rejected : Load α) := by
  simp [NoOverrun]

/-- A requirement rejects, and does nothing else. -/
theorem NoOverrun.require (ok : Bool) : NoOverrun (require ok) := by
  cases ok with
  | false => exact NoOverrun.rejected
  | true => exact NoOverrun.ok ()

/-- Two steps in a row, by either of which an overrun would have come. -/
theorem NoOverrun.bind {x : Load α} {f : α → Load β} (hx : NoOverrun x)
    (hf : ∀ a, NoOverrun (f a)) : NoOverrun (x >>= f) := by
  intro h
  rcases bind_eq_error_iff.1 h with h | ⟨a, -, h⟩
  · exact hx h
  · exact hf a h

/-- A loop with a state, by the step that would have failed. -/
theorem NoOverrun.foldlM {f : β → α → Load β} {xs : List α} {s : β}
    (hf : ∀ s x, NoOverrun (f s x)) : NoOverrun (xs.foldlM f s) := by
  intro h
  obtain ⟨x, -, s', h⟩ := foldlM_error_step h
  exact hf s' x h

/-- A loop over the members of a list. -/
theorem NoOverrun.mapM {f : α → Load β} {xs : List α} (hf : ∀ x, NoOverrun (f x)) :
    NoOverrun (xs.mapM f) := by
  intro h
  obtain ⟨x, -, h⟩ := mapM_error_step h
  exact hf x h

end NoOverrun

/-! ## The keys without groups -/

section Keys

variable (env : ConfigEnv) (root : Json) (key : String)

/-- A boolean key writes no name. -/
theorem jsonGetBoolDefault_noOverrun (dst : Bool) :
    NoOverrun (jsonGetBoolDefault root key dst) := by
  unfold jsonGetBoolDefault
  split <;> simp [NoOverrun]

/-- An unsigned key writes no name. -/
theorem jsonGetUintDefault_noOverrun (dst : ℕ) :
    NoOverrun (jsonGetUintDefault root key dst) := by
  unfold jsonGetUintDefault
  split
  · exact NoOverrun.ok _
  · split <;> simp [NoOverrun]
  · exact NoOverrun.rejected

/-- A signed key with bounds writes no name. -/
theorem jsonGetIntDefault_noOverrun (minValue maxValue dst : ℤ) :
    NoOverrun (jsonGetIntDefault root key minValue maxValue dst) := by
  unfold jsonGetIntDefault
  split
  · exact NoOverrun.ok _
  · split <;> simp [NoOverrun]
  · exact NoOverrun.rejected

/-- A size, given as a number or a text, writes no name. -/
theorem jsonGetSizeDefault_noOverrun (dst : ℕ) :
    NoOverrun (jsonGetSizeDefault root key dst) := by
  unfold jsonGetSizeDefault
  split
  · exact NoOverrun.ok _
  · split <;> simp [NoOverrun]
  · split <;> simp [NoOverrun]
  · exact NoOverrun.rejected

/-- An optional text is not the name of a group. -/
theorem jsonGetOptionalNonemptyString_noOverrun (dst : Option Bytes) :
    NoOverrun (jsonGetOptionalNonemptyString root key dst) := by
  unfold jsonGetOptionalNonemptyString
  split
  · exact NoOverrun.ok _
  · split <;> simp [NoOverrun]

/-- The texts of a list are not names of groups. -/
theorem jsonGetStringArray_noOverrun (dst : List Bytes) :
    NoOverrun (jsonGetStringArray root key dst) := by
  unfold jsonGetStringArray
  split
  · exact NoOverrun.ok _
  · split <;> simp [NoOverrun]
  · exact NoOverrun.rejected

/-- One path of a dictionary writes no name. -/
theorem jsonStaticDictPath_noOverrun (paths : Fin 8 → Option Bytes) (member : String × Json) :
    NoOverrun (jsonStaticDictPath paths member) := by
  unfold jsonStaticDictPath
  split
  · split <;> simp [NoOverrun]
  · exact NoOverrun.rejected

/-- Nor do all of them. -/
theorem jsonGetStaticDictPaths_noOverrun (dst : Fin 8 → Option Bytes) :
    NoOverrun (jsonGetStaticDictPaths root dst) := by
  unfold jsonGetStaticDictPaths
  split
  · exact NoOverrun.ok _
  · exact NoOverrun.foldlM jsonStaticDictPath_noOverrun
  · exact NoOverrun.rejected

/-- The field of a modifier writes no name. -/
theorem jsonMatchField_noOverrun : NoOverrun (jsonMatchField root) := by
  unfold jsonMatchField
  split
  · exact NoOverrun.ok _
  · split <;> simp [NoOverrun]

/-- What a modifier matches writes no name. -/
theorem jsonModifierMatch_noOverrun : NoOverrun (jsonModifierMatch env root) := by
  unfold jsonModifierMatch
  refine (NoOverrun.require _).bind fun _ => (jsonMatchField_noOverrun _).bind fun field =>
    (jsonGetBoolDefault_noOverrun _ _ _).bind fun negate => ?_
  split
  · split <;> simp [NoOverrun]
  · exact NoOverrun.ok _
  · exact NoOverrun.ok _
  · exact NoOverrun.rejected

/-- The priority a modifier sets writes no name. -/
theorem jsonSetPriority_noOverrun : NoOverrun (jsonSetPriority root) := by
  unfold jsonSetPriority
  split
  · exact NoOverrun.ok _
  · split <;> simp [NoOverrun]
  · exact NoOverrun.rejected

/-- The text it rewrites to writes no name. -/
theorem jsonRewrite_noOverrun (kind : ModifierMatch) (negate : Bool) :
    NoOverrun (jsonRewrite root kind negate) := by
  unfold jsonRewrite
  split
  · exact NoOverrun.ok _
  · split
    · split <;> simp [NoOverrun]
    · exact NoOverrun.rejected

/-- The script it starts writes no name. -/
theorem jsonScript_noOverrun : NoOverrun (jsonScript root) := by
  unfold jsonScript
  split
  · exact NoOverrun.ok _
  · refine (jsonGetBoolDefault_noOverrun _ _ _).bind fun replay =>
      (jsonGetIntDefault_noOverrun _ _ _ _ _).bind fun timeout => ?_
    split
    · split
      · split <;> simp [NoOverrun]
      · exact NoOverrun.rejected
    · exact NoOverrun.rejected

/-- **A modifier writes no name.** -/
theorem jsonModifier_noOverrun : NoOverrun (jsonModifier env root) :=
  (jsonModifierMatch_noOverrun _ _).bind fun _ => (jsonGetBoolDefault_noOverrun _ _ _).bind
    fun _ => (jsonSetPriority_noOverrun _).bind fun _ => (jsonRewrite_noOverrun _ _ _).bind
    fun _ => (jsonScript_noOverrun _).bind fun _ => (NoOverrun.require _).bind
    fun _ => NoOverrun.ok _

/-- A list of modifiers writes no name. -/
theorem jsonGetModifierList_noOverrun (dst : List EntryModifier) :
    NoOverrun (jsonGetModifierList env root dst) := by
  unfold jsonGetModifierList
  split
  · exact NoOverrun.ok _
  · exact NoOverrun.mapM (jsonModifier_noOverrun env)
  · exact NoOverrun.rejected

/-- What is captured is read without a name. -/
theorem loadCapture_noOverrun (c : CaptureConfig) : NoOverrun (loadCapture root c) := by
  unfold loadCapture
  repeat' first
    | exact NoOverrun.ok _
    | exact jsonGetBoolDefault_noOverrun _ _ _
    | exact jsonGetStringArray_noOverrun _ _ _
    | refine NoOverrun.bind ?_ fun _ => ?_

/-- How it is stored is read without a name. -/
theorem loadStorage_noOverrun (c : StorageConfig) : NoOverrun (loadStorage root c) :=
  (jsonGetSizeDefault_noOverrun _ _ _).bind fun _ => (jsonGetSizeDefault_noOverrun _ _ _).bind
    fun _ => (jsonGetSizeDefault_noOverrun _ _ _).bind fun _ =>
    (jsonGetUintDefault_noOverrun _ _ _).bind fun _ => (jsonGetBoolDefault_noOverrun _ _ _).bind
    fun _ => (jsonGetUintDefault_noOverrun _ _ _).bind fun _ =>
    (jsonGetBoolDefault_noOverrun _ _ _).bind fun _ =>
    (jsonGetOptionalNonemptyString_noOverrun _ _ _).bind fun _ => NoOverrun.ok _

/-- The fields of a group behind its name write no name. -/
theorem jsonGroupFields_noOverrun (frames interval : ℕ) (name : Bytes) :
    NoOverrun (jsonGroupFields env frames interval root name) :=
  (jsonGetUintDefault_noOverrun _ _ _).bind fun _ => (jsonGetUintDefault_noOverrun _ _ _).bind
    fun _ => (jsonGetSizeDefault_noOverrun _ _ _).bind fun _ =>
    (jsonGetUintDefault_noOverrun _ _ _).bind fun _ => (jsonGetModifierList_noOverrun _ _ _).bind
    fun _ => NoOverrun.ok _

/-- A priority of a group writes no name. -/
theorem jsonGroupPriority_noOverrun (index : ℕ) (state : ConfigGroup × GroupTable) :
    NoOverrun (jsonGroupPriority index state root) := by
  unfold jsonGroupPriority
  split
  · split
    · dsimp only
      split <;> simp [NoOverrun]
    · exact NoOverrun.rejected
  · exact NoOverrun.rejected

/-- The dictionary of a group is found without a name. -/
theorem groupDictPath_noOverrun (paths : Fin 8 → Option Bytes) (priorities : List (Fin 8)) :
    NoOverrun (groupDictPath paths priorities) := by
  refine NoOverrun.foldlM fun dict prio => ?_
  split
  · exact NoOverrun.ok _
  · exact NoOverrun.ok _
  · split <;> simp [NoOverrun]

/-- The checks behind the keys write no name. -/
theorem checkConfig_noOverrun (config : Config) : NoOverrun (checkConfig env config) :=
  (NoOverrun.require _).bind fun _ => (NoOverrun.require _).bind fun _ =>
    (NoOverrun.require _).bind fun _ => NoOverrun.bind
      (NoOverrun.mapM fun _ => (NoOverrun.require _).bind fun _ =>
        (groupDictPath_noOverrun _ _).bind fun _ => NoOverrun.ok _)
      fun _ => NoOverrun.ok _

end Keys

/-! ## The names of the groups -/

/-- The groups a file gives. -/
def groupItems (root : Json) : List Json :=
  match root.get "priority_groups" with
  | some (.array items) => items
  | _ => []

/-- The name a group is given. -/
def groupName (item : Json) : Option Bytes :=
  match item.get "name" with
  | some (.string text) => some (cString text)
  | _ => none

/-- The names of the groups of a file. -/
def groupNames (root : Json) : List Bytes := (groupItems root).filterMap groupName

/-- A name that is taken over is valid and fits its buffer. -/
theorem jsonGroupHeader_eq_ok {item : Json} {name : Bytes} {priorities : List Json}
    (h : jsonGroupHeader item = .ok (name, priorities)) :
    groupName item = some name ∧ validGroupName name = true ∧ name.length ≤ maxGroupNameLen := by
  unfold jsonGroupHeader at h
  unfold groupName
  split at h
  · next text items hname _ =>
    split at h
    · cases h
    · next hvalid =>
      split at h
      · cases h
      · next hlen =>
        cases h
        rw [hname]
        exact ⟨rfl, by simpa using hvalid, Nat.le_of_not_lt hlen⟩
  · cases h

/-- The copy of a name writes behind its buffer only for a name that is too long. -/
theorem jsonGroupHeader_overrun {item : Json} (h : jsonGroupHeader item = .error .overrun) :
    ∃ name, groupName item = some name ∧ maxGroupNameLen < name.length := by
  unfold jsonGroupHeader at h
  unfold groupName
  split at h
  · next text items hname _ =>
    split at h
    · cases h
    · split at h
      · next hlen =>
        rw [hname]
        exact ⟨cString text, rfl, hlen⟩
      · cases h
  · cases h

/-- No step of a group but the copy of its name does that. -/
theorem jsonGroup_overrun {env : ConfigEnv} {frames interval : ℕ} {table : GroupTable}
    {item : Json} (h : jsonGroup env frames interval table item = .error .overrun) :
    ∃ name, groupName item = some name ∧ maxGroupNameLen < name.length := by
  unfold jsonGroup at h
  rcases bind_eq_error_iff.1 h with h | ⟨header, -, h⟩
  · exact jsonGroupHeader_overrun h
  · refine absurd h (NoOverrun.bind (jsonGroupFields_noOverrun _ _ _ _ _) fun fields => ?_)
    exact (NoOverrun.require _).bind fun _ => (NoOverrun.require _).bind fun _ =>
      (NoOverrun.foldlM fun state node => jsonGroupPriority_noOverrun node _ state).bind
        fun _ => NoOverrun.ok _

/-- **An overrun comes from the name of a group** that is too long for its buffer. -/
theorem recorderConfigLoad_overrun {env : ConfigEnv} {config : Config} {root : Json}
    (h : recorderConfigLoad env config root = .error .overrun) :
    ∃ name ∈ groupNames root, maxGroupNameLen < name.length := by
  unfold recorderConfigLoad at h
  by_contra! hshort
  have hgroups : ∀ frames interval,
      NoOverrun (jsonGetPriorityGroups env frames interval root) := by
    intro frames interval
    unfold jsonGetPriorityGroups
    split
    · exact NoOverrun.ok _
    · next items hitems =>
      refine (NoOverrun.require _).bind fun _ => NoOverrun.bind ?_ fun table =>
        (NoOverrun.require _).bind fun _ => NoOverrun.ok _
      intro herr
      obtain ⟨item, hitem, table, herr⟩ := foldlM_error_step herr
      obtain ⟨name, hname, hlong⟩ := jsonGroup_overrun herr
      have hmem : name ∈ groupNames root := by
        unfold groupNames groupItems
        rw [hitems]
        exact List.mem_filterMap.2 ⟨item, hitem, hname⟩
      exact absurd (hshort name hmem) (Nat.not_le_of_lt hlong)
    · exact NoOverrun.rejected
  refine absurd h ((NoOverrun.require _).bind fun _ => (loadCapture_noOverrun _ _).bind fun _ =>
    (jsonGetIntDefault_noOverrun _ _ _ _ _).bind fun _ =>
    (jsonGetUintDefault_noOverrun _ _ _).bind fun _ =>
    (jsonGetUintDefault_noOverrun _ _ _).bind fun _ => (loadStorage_noOverrun _ _).bind fun _ =>
    (jsonGetStaticDictPaths_noOverrun _ _).bind fun _ =>
    (jsonGetModifierList_noOverrun _ _ _).bind fun _ => (hgroups _ _).bind fun _ =>
    checkConfig_noOverrun _ _)

end Recorder.Analysis
