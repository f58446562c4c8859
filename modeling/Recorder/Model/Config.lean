import Mathlib.Algebra.Group.Int.Defs
import Recorder.Lib.Decimal
import Recorder.Model.Modifiers
import Recorder.Model.SegmentSeq

/-!
# `recorder.c`: the configuration

`recorder_config_load` goes through the keys of a JSON object one after the other and changes
the configuration where a key is present. The main file is loaded over the defaults of
`recorder_config_init`, then every fragment of the drop-in directory over what is there.

A configuration file is the value jansson parses from it. What a rejected file leaves behind
is not kept: `main` gives up then. The messages about rejected keys go to the terminal and are
left out. A group name of more than 63 characters is copied behind the end of its buffer
(`LoadError.overrun`); C says nothing about what follows.
-/

set_option autoImplicit false

namespace Recorder.Model

open Recorder.Lib

/-! ## JSON -/

/-- `json_t`. -/
inductive Json
  | object (members : List (String × Json))
  | array (items : List Json)
  | string (text : Bytes)
  | integer (value : ℤ)
  | real
  | bool (value : Bool)
  | null

/-- `json_object_get`; there is nothing in a value that is not an object. -/
def Json.get (json : Json) (key : String) : Option Json :=
  match json with
  | .object members => members.lookup key
  | _ => none

/-- `json_is_object`. -/
def Json.isObject : Json → Bool
  | .object _ => true
  | _ => false

/-- Why a configuration is not there after `recorder_config_load`. -/
inductive LoadError
  | rejected
  | overrun
  deriving DecidableEq, Repr

/-- What loading a key gives, or why the file is rejected. -/
abbrev Load := Except LoadError

/-- A check that rejects the file. -/
def require (ok : Bool) : Load Unit :=
  if ok then .ok () else .error .rejected

/-- What the checks of `recorder_config_load` ask of the system and of the expression engine. -/
structure ConfigEnv where
  /-- `access(path, R_OK) == 0`. -/
  readable : Bytes → Bool
  /-- `pcre2_compile` succeeds. -/
  regexCompiles : Bytes → Bool

/-! ## Values -/

/-- `json_get_bool_default`.
SOURCE: recorder.c:701-714 -/
def jsonGetBoolDefault (root : Json) (key : String) (dst : Bool) : Load Bool :=
  match root.get key with
  | none => .ok dst
  | some (.bool value) => .ok value
  | some _ => .error .rejected

/-- `UINT_MAX`. -/
abbrev uintMax : ℤ := 2 ^ 32 - 1

/-- `json_get_uint_default`.
SOURCE: recorder.c:716-735 -/
def jsonGetUintDefault (root : Json) (key : String) (dst : ℕ) : Load ℕ :=
  match root.get key with
  | none => .ok dst
  | some (.integer value) =>
    if value < 0 ∨ value > uintMax then .error .rejected else .ok value.toNat
  | some _ => .error .rejected

/-- `json_get_group_uint_default`, which only words its messages differently.
SOURCE: recorder.c:739-761 -/
def jsonGetGroupUintDefault (group : Json) (key : String) (dst : ℕ) : Load ℕ :=
  jsonGetUintDefault group key dst

/-- `json_get_int_default`.
SOURCE: recorder.c:789-809 -/
def jsonGetIntDefault (root : Json) (key : String) (minValue maxValue dst : ℤ) : Load ℤ :=
  match root.get key with
  | none => .ok dst
  | some (.integer value) =>
    if value < minValue ∨ value > maxValue then .error .rejected else .ok value
  | some _ => .error .rejected

/-- The scale of a size suffix. -/
def sizeScale (suffix : UInt8) : Option ℕ :=
  if suffix = 75 ∨ suffix = 107 then some 1024
  else if suffix = 77 ∨ suffix = 109 then some (1024 * 1024)
  else if suffix = 71 ∨ suffix = 103 then some (1024 * 1024 * 1024)
  else none

/-- `parse_size_string`.
SOURCE: recorder.c:811-838 -/
def parseSizeString (text : Bytes) : Option ℕ :=
  match strtoull text with
  | (none, _) => none
  | (some base, rest) =>
    if rest = text then none
    else
      let scale : Option ℕ :=
        match rest with
        | [] => some 1
        | [suffix] => sizeScale suffix
        | _ => none
      scale.bind fun scale =>
        if base > (2 ^ 64 - 1) / scale then none else some (base * scale)

/-- `json_get_size_default`.
SOURCE: recorder.c:840-867 -/
def jsonGetSizeDefault (root : Json) (key : String) (dst : ℕ) : Load ℕ :=
  match root.get key with
  | none => .ok dst
  | some (.integer value) => if value < 0 then .error .rejected else .ok value.toNat
  | some (.string text) =>
    match parseSizeString (cString text) with
    | none => .error .rejected
    | some value => .ok value
  | some _ => .error .rejected

/-- `json_get_group_size_default`, which only words its messages differently.
SOURCE: recorder.c:763-787 -/
def jsonGetGroupSizeDefault (group : Json) (key : String) (dst : ℕ) : Load ℕ :=
  jsonGetSizeDefault group key dst

/-- A string value that is not empty. -/
def jsonNonemptyString : Json → Option Bytes
  | .string text => if cString text = [] then none else some (cString text)
  | _ => none

/-- `json_get_optional_nonempty_string`.
SOURCE: recorder.c:869-886 -/
def jsonGetOptionalNonemptyString (root : Json) (key : String) (dst : Option Bytes) :
    Load (Option Bytes) :=
  match root.get key with
  | none => .ok dst
  | some value =>
    match jsonNonemptyString value with
    | none => .error .rejected
    | some text => .ok (some text)

/-- `json_get_string_array`.
SOURCE: recorder.c:888-938 -/
def jsonGetStringArray (root : Json) (key : String) (dst : List Bytes) : Load (List Bytes) :=
  match root.get key with
  | none => .ok dst
  | some (.array items) =>
    match items.mapM jsonNonemptyString with
    | none => .error .rejected
    | some texts => .ok texts
  | some _ => .error .rejected

/-- One member of `static_dict_paths`.
SOURCE: recorder.c:959-977 -/
def jsonStaticDictPath (paths : Fin 8 → Option Bytes) (member : String × Json) :
    Load (Fin 8 → Option Bytes) :=
  match member.2, strtol member.1.toUTF8.toList with
  | .string text, (some prio, []) =>
    if h : 0 ≤ prio ∧ prio ≤ 7 then
      .ok (Function.update paths ⟨prio.toNat, by omega⟩ (some (cString text)))
    else .error .rejected
  | _, _ => .error .rejected

/-- `json_get_static_dict_paths`.
SOURCE: recorder.c:940-979 -/
def jsonGetStaticDictPaths (root : Json) (dst : Fin 8 → Option Bytes) :
    Load (Fin 8 → Option Bytes) :=
  match root.get "static_dict_paths" with
  | none => .ok dst
  | some (.object members) => members.foldlM jsonStaticDictPath fun _ => none
  | some _ => .error .rejected

/-! ## Modifiers -/

/-- The field of a match.
SOURCE: recorder.c:1025-1029, 1049 -/
def jsonMatchField (m : Json) : Load Bytes :=
  match m.get "field" with
  | none => .ok messageName
  | some value =>
    match jsonNonemptyString value with
    | none => .error .rejected
    | some text => .ok text

/-- The match of a modifier: its field, what it compares, and whether it is negated.
SOURCE: recorder.c:1024-1089 -/
def jsonModifierMatch (env : ConfigEnv) (item : Json) :
    Load (Bytes × ModifierMatch × Bool) := do
  let m := (item.get "match").getD .null
  require m.isObject
  let field ← jsonMatchField m
  let negate ← jsonGetBoolDefault m "not" false
  match m.get "regex", m.get "exact", m.get "present" with
  | some (.string pattern), none, none =>
    if env.regexCompiles (cString pattern) then .ok (field, .regex (cString pattern), negate)
    else .error .rejected
  | none, some (.string text), none => .ok (field, .exact (cString text), negate)
  | none, none, some (.bool value) => .ok (field, .present value, negate)
  | _, _, _ => .error .rejected

/-- The `set_priority` action.
SOURCE: recorder.c:1096-1104 -/
def jsonSetPriority (item : Json) : Load (Option (Fin 8)) :=
  match item.get "set_priority" with
  | none => .ok none
  | some (.integer value) =>
    if h : 0 ≤ value ∧ value ≤ 7 then .ok (some ⟨value.toNat, by omega⟩) else .error .rejected
  | some _ => .error .rejected

/-- The `rewrite` action; it needs a match of an expression that is not negated.
SOURCE: recorder.c:1105-1129 -/
def jsonRewrite (item : Json) (kind : ModifierMatch) (negate : Bool) :
    Load (Option (Bytes × Bytes)) :=
  match item.get "rewrite" with
  | none => .ok none
  | some rewrite =>
    match (rewrite.get "field").bind jsonNonemptyString, rewrite.get "replacement", kind with
    | some field, some (.string replacement), .regex _ =>
      if negate then .error .rejected else .ok (some (field, cString replacement))
    | _, _, _ => .error .rejected

/-- The `script` action: the command, whether it runs for replayed entries, and its time out.
SOURCE: recorder.c:1130-1166 -/
def jsonScript (item : Json) : Load (List Bytes × Bool × ℕ) :=
  match item.get "script" with
  | none => .ok ([], false, 10)
  | some script => do
    let replay ← jsonGetBoolDefault script "run_on_replay" false
    let timeout ← jsonGetIntDefault script "timeout_sec" 1 86400 10
    match script.get "command" with
    | some (.array items) =>
      match items.mapM jsonNonemptyString with
      | some (command :: args) =>
        if command.head? = some 47 then .ok (command :: args, replay, timeout.toNat)
        else .error .rejected
      | _ => .error .rejected
    | _ => .error .rejected

/-- One modifier of `json_get_modifier_list`.
SOURCE: recorder.c:1010-1172 -/
def jsonModifier (env : ConfigEnv) (item : Json) : Load EntryModifier := do
  let (field, kind, negate) ← jsonModifierMatch env item
  let drop ← jsonGetBoolDefault item "drop" false
  let setPriority ← jsonSetPriority item
  let rewrite ← jsonRewrite item kind negate
  let (command, replay, timeout) ← jsonScript item
  require (drop || setPriority.isSome || rewrite.isSome || !command.isEmpty)
  return {
    matchField := field
    matchKind := kind
    negate := negate
    rewrite := rewrite
    drop := drop
    setPriority := setPriority
    scriptCommand := command
    scriptRunOnReplay := replay
    scriptTimeoutSec := timeout }

/-- `json_get_modifier_list`.
SOURCE: recorder.c:998-1174 -/
def jsonGetModifierList (env : ConfigEnv) (owner : Json) (dst : List EntryModifier) :
    Load (List EntryModifier) :=
  match owner.get "modifiers" with
  | none => .ok dst
  | some (.array items) => items.mapM (jsonModifier env)
  | some _ => .error .rejected

/-- `modifier_rewrite_field_is_supported`.
SOURCE: recorder.c:1176-1181 -/
def modifierRewriteFieldIsSupported (field : Bytes) : Bool :=
  field == messageName || field == messageIdName || field == hostnameName ||
    field == systemdUnitName || field == commName || field == exeName

/-- `validate_modifier_list`.
SOURCE: recorder.c:1183-1200 -/
def validateModifierList (modifiers : List EntryModifier) : Bool :=
  modifiers.all fun modifier => modifier.rewrite.all fun rewrite =>
    modifierRewriteFieldIsSupported rewrite.1

/-! ## Groups -/

/-- `MAX_PRIORITY_GROUPS`. -/
abbrev maxPriorityGroups : ℕ := 8

/-- `MAX_GROUP_NAME_LEN`. -/
abbrev maxGroupNameLen : ℕ := 63

/-- The `valid_group_name` of the reader.
SOURCE: librecorder.c:143-154 -/
def readerValidGroupName (name : Bytes) : Bool :=
  name ≠ [] && name ≠ stateDirName && name.all fun b =>
    (97 ≤ b && b ≤ 122) || (65 ≤ b && b ≤ 90) || (48 ≤ b && b ≤ 57) || b == 95 || b == 45

/-- `PriorityGroup`.
SOURCE: recorder.c:166-178 -/
structure ConfigGroup where
  name : Bytes
  priorities : List (Fin 8) := []
  minPriority : ℕ := 255
  durablePerFrame : Bool := false
  durabilityFlushFrames : ℕ := 0
  durabilityFlushIntervalSec : ℕ := 0
  maxBytes : ℕ := 0
  maxAgeSec : ℕ := 0
  staticDictPath : Option Bytes := none
  modifiers : List EntryModifier := []

/-- What `json_get_priority_groups` has built so far: the groups, the mask of their priorities,
and the group of each priority. -/
structure GroupTable where
  groups : List ConfigGroup := []
  seenMask : ℕ := 0
  priorityToGroup : Fin 8 → ℤ := fun _ => -1

/-- One priority of a group, which is group number `index`.
SOURCE: recorder.c:1307-1331 -/
def jsonGroupPriority (index : ℕ) (state : ConfigGroup × GroupTable) (node : Json) :
    Load (ConfigGroup × GroupTable) :=
  match node with
  | .integer value =>
    if h : 0 ≤ value ∧ value ≤ 7 then
      let prio : Fin 8 := ⟨value.toNat, by omega⟩
      if state.2.seenMask.testBit prio then .error .rejected
      else
        .ok
          ({ state.1 with
              priorities := state.1.priorities ++ [prio]
              minPriority := min state.1.minPriority prio },
            { state.2 with
              seenMask := state.2.seenMask ||| 1 <<< prio.val
              priorityToGroup := Function.update state.2.priorityToGroup prio index })
    else .error .rejected
  | _ => .error .rejected

/-- The fields of a group behind its name. They start from the global durability settings.
SOURCE: recorder.c:1277-1295 -/
def jsonGroupFields (env : ConfigEnv) (flushFrames flushIntervalSec : ℕ) (group : Json)
    (name : Bytes) : Load ConfigGroup := do
  let frames ← jsonGetGroupUintDefault group "durability_flush_frames" flushFrames
  let interval ← jsonGetGroupUintDefault group "durability_flush_interval_sec" flushIntervalSec
  let maxBytes ← jsonGetGroupSizeDefault group "max_bytes" 0
  let maxAge ← jsonGetGroupUintDefault group "max_age_sec" 0
  let modifiers ← jsonGetModifierList env group []
  return {
    name := name
    durabilityFlushFrames := frames
    durabilityFlushIntervalSec := interval
    maxBytes := maxBytes
    maxAgeSec := maxAge
    modifiers := modifiers }

/-- The name of a group and the list of its priorities.
SOURCE: recorder.c:1262-1276 -/
def jsonGroupHeader (group : Json) : Load (Bytes × List Json) :=
  match group.get "name", group.get "priorities" with
  | some (.string text), some (.array priorities) =>
    if !validGroupName (cString text) then .error .rejected
    else if (cString text).length > maxGroupNameLen then .error .overrun
    else .ok (cString text, priorities)
  | _, _ => .error .rejected

/-- One group of `json_get_priority_groups`.
SOURCE: recorder.c:1261-1332 -/
def jsonGroup (env : ConfigEnv) (flushFrames flushIntervalSec : ℕ) (table : GroupTable)
    (group : Json) : Load GroupTable := do
  let (name, priorities) ← jsonGroupHeader group
  let fields ← jsonGroupFields env flushFrames flushIntervalSec group name
  require (table.groups.all fun g => g.name != name)
  require (0 < priorities.length && priorities.length ≤ 8)
  let (fields, table) ← priorities.foldlM (jsonGroupPriority table.groups.length) (fields, table)
  return { table with groups := table.groups ++ [fields] }

/-- `json_get_priority_groups`: the new groups, or `none` without the key.
SOURCE: recorder.c:1234-1339 -/
def jsonGetPriorityGroups (env : ConfigEnv) (flushFrames flushIntervalSec : ℕ) (root : Json) :
    Load (Option (List ConfigGroup × (Fin 8 → ℤ))) :=
  match root.get "priority_groups" with
  | none => .ok none
  | some (.array items) => do
    require (0 < items.length && items.length ≤ maxPriorityGroups)
    let table ← items.foldlM (jsonGroup env flushFrames flushIntervalSec) {}
    require (table.seenMask == 0xff)
    return some (table.groups, table.priorityToGroup)
  | some _ => .error .rejected

/-- What the writers and retention read of a group. -/
def ConfigGroup.priorityGroup (g : ConfigGroup) : PriorityGroup where
  name := g.name
  minPriority := g.minPriority
  durablePerFrame := g.durablePerFrame
  durabilityFlushFrames := g.durabilityFlushFrames
  durabilityFlushIntervalSec := g.durabilityFlushIntervalSec
  maxBytes := g.maxBytes
  maxAgeSec := g.maxAgeSec
  hasStaticDict := g.staticDictPath.isSome

/-! ## The configuration -/

/-- What is captured of an entry.
SOURCE: recorder.c:181-194 -/
structure CaptureConfig where
  messageId : Bool := false
  unit : Bool := true
  hostname : Bool := false
  comm : Bool := false
  exe : Bool := false
  pid : Bool := true
  uid : Bool := false
  gid : Bool := false
  allFields : Bool := false
  fieldsWhitelist : List Bytes := []
  fieldsBlacklist : List Bytes := []
  sanitizeOutput : Bool := true

/-- The sizes and ages of stores and segments, compression and encryption.
SOURCE: recorder.c:198-205 -/
structure StorageConfig where
  logMaxBytes : ℕ := 64 * 1024 * 1024
  minFreeBytes : ℕ := 0
  segmentMaxBytes : ℕ := 4 * 1024 * 1024
  segmentMaxAgeSec : ℕ := 900
  compressEnabled : Bool := true
  compressMinFrameBytes : ℕ := 256
  compressIfSmaller : Bool := true
  encryptionPublicKey : Option Bytes := none

/-- `RecorderConfig`. The defaults are those of `recorder_config_init`.
SOURCE: recorder.c:180-211, 397-430 -/
structure Config where
  capture : CaptureConfig := {}
  durablePriorityMax : ℤ := 3
  durabilityFlushFrames : ℕ := 32
  durabilityFlushIntervalSec : ℕ := 60
  storage : StorageConfig := {}
  staticDictPaths : Fin 8 → Option Bytes := fun _ => none
  modifiers : List EntryModifier := []
  groups : List ConfigGroup
  priorityToGroup : Fin 8 → ℤ

/-- `recorder_config_init`: eight groups of one priority each. Their durability settings stay
at the zeros of `memset`.
SOURCE: recorder.c:397-430 -/
def recorderConfigInit : Config where
  groups := (List.finRange 8).map fun i =>
    { name := [112, UInt8.ofNat (48 + i.val)], priorities := [i], minPriority := i.val }
  priorityToGroup := fun i => i.val

/-- `modifier_list_uses_full_entries`.
SOURCE: recorder.c:1202-1213 -/
def modifierListUsesFullEntries (modifiers : List EntryModifier) : Bool :=
  modifiers.any fun modifier => modifier.rewrite.any fun rewrite =>
    rewrite.1 != messageName && rewrite.1 != systemdUnitName

/-- `config_uses_full_entries`.
SOURCE: recorder.c:1215-1232 -/
def configUsesFullEntries (config : Config) : Bool :=
  let c := config.capture
  c.allFields || c.messageId || c.hostname || c.comm || c.exe || c.uid || c.gid ||
    modifierListUsesFullEntries config.modifiers ||
    config.groups.any fun group => modifierListUsesFullEntries group.modifiers

/-- What the modifiers use of a configuration. -/
def Config.modifierConfig (config : Config) : ModifierConfig where
  modifiers := config.modifiers
  groups := config.groups.map (·.modifiers)
  priorityToGroup := config.priorityToGroup

/-- SOURCE: recorder.c:1369-1384 -/
def loadCapture (root : Json) (c : CaptureConfig) : Load CaptureConfig := do
  let messageId ← jsonGetBoolDefault root "capture_message_id" c.messageId
  let unit ← jsonGetBoolDefault root "capture_unit" c.unit
  let hostname ← jsonGetBoolDefault root "capture_hostname" c.hostname
  let comm ← jsonGetBoolDefault root "capture_comm" c.comm
  let exe ← jsonGetBoolDefault root "capture_exe" c.exe
  let pid ← jsonGetBoolDefault root "capture_pid" c.pid
  let uid ← jsonGetBoolDefault root "capture_uid" c.uid
  let gid ← jsonGetBoolDefault root "capture_gid" c.gid
  let allFields ← jsonGetBoolDefault root "capture_all_fields" c.allFields
  let whitelist ← jsonGetStringArray root "capture_fields_whitelist" c.fieldsWhitelist
  let blacklist ← jsonGetStringArray root "capture_fields_blacklist" c.fieldsBlacklist
  let sanitize ← jsonGetBoolDefault root "sanitize_output" c.sanitizeOutput
  return {
    messageId := messageId
    unit := unit
    hostname := hostname
    comm := comm
    exe := exe
    pid := pid
    uid := uid
    gid := gid
    allFields := allFields
    fieldsWhitelist := whitelist
    fieldsBlacklist := blacklist
    sanitizeOutput := sanitize }

/-- SOURCE: recorder.c:1388-1396 -/
def loadStorage (root : Json) (c : StorageConfig) : Load StorageConfig := do
  let logMaxBytes ← jsonGetSizeDefault root "log_max_bytes" c.logMaxBytes
  let minFreeBytes ← jsonGetSizeDefault root "min_free_bytes" c.minFreeBytes
  let segmentMaxBytes ← jsonGetSizeDefault root "segment_max_bytes" c.segmentMaxBytes
  let segmentMaxAge ← jsonGetUintDefault root "segment_max_age_sec" c.segmentMaxAgeSec
  let compress ← jsonGetBoolDefault root "compress_enabled" c.compressEnabled
  let compressMin ← jsonGetUintDefault root "compress_min_frame_bytes" c.compressMinFrameBytes
  let ifSmaller ← jsonGetBoolDefault root "compress_if_smaller" c.compressIfSmaller
  let key ← jsonGetOptionalNonemptyString root "encryption_public_key" c.encryptionPublicKey
  return {
    logMaxBytes := logMaxBytes
    minFreeBytes := minFreeBytes
    segmentMaxBytes := segmentMaxBytes
    segmentMaxAgeSec := segmentMaxAge
    compressEnabled := compress
    compressMinFrameBytes := compressMin
    compressIfSmaller := ifSmaller
    encryptionPublicKey := key }

/-- The dictionary of a group: those its priorities name must be the same.
SOURCE: recorder.c:1430-1446 -/
def groupDictPath (paths : Fin 8 → Option Bytes) (priorities : List (Fin 8)) :
    Load (Option Bytes) :=
  priorities.foldlM (fun dict prio =>
    match paths prio, dict with
    | none, dict => .ok dict
    | some path, none => .ok (some path)
    | some path, some dict => if dict = path then .ok (some dict) else .error .rejected) none

/-- The check of a group at the end of `recorder_config_load`, which derives its durability and
its dictionary.
SOURCE: recorder.c:1420-1451 -/
def checkGroup (durablePriorityMax : ℤ) (paths : Fin 8 → Option Bytes) (group : ConfigGroup) :
    Load ConfigGroup := do
  require (validateModifierList group.modifiers)
  let dict ← groupDictPath paths group.priorities
  return { group with
      durablePerFrame := group.priorities.any fun prio =>
        decide (0 ≤ durablePriorityMax) && decide ((prio.val : ℤ) ≤ durablePriorityMax)
      staticDictPath := dict }

/-- The checks at the end of `recorder_config_load`.
SOURCE: recorder.c:1402-1452 -/
def checkConfig (env : ConfigEnv) (config : Config) : Load Config := do
  require (config.storage.encryptionPublicKey.all env.readable)
  require (validateModifierList config.modifiers)
  require ((List.finRange 8).all fun i => (config.staticDictPaths i).all env.readable)
  let groups ← config.groups.mapM (checkGroup config.durablePriorityMax config.staticDictPaths)
  return { config with groups := groups }

/-- `recorder_config_load`, from the value of the file.
SOURCE: recorder.c:1341-1460 -/
def recorderConfigLoad (env : ConfigEnv) (config : Config) (root : Json) : Load Config := do
  require root.isObject
  let capture ← loadCapture root config.capture
  let durableMax ← jsonGetIntDefault root "durable_priority_max" (-1) 7 config.durablePriorityMax
  let frames ← jsonGetUintDefault root "durability_flush_frames" config.durabilityFlushFrames
  let interval ← jsonGetUintDefault root "durability_flush_interval_sec"
    config.durabilityFlushIntervalSec
  let storage ← loadStorage root config.storage
  let dictPaths ← jsonGetStaticDictPaths root config.staticDictPaths
  let modifiers ← jsonGetModifierList env root config.modifiers
  let table ← jsonGetPriorityGroups env frames interval root
  checkConfig env
    { capture := capture
      durablePriorityMax := durableMax
      durabilityFlushFrames := frames
      durabilityFlushIntervalSec := interval
      storage := storage
      staticDictPaths := dictPaths
      modifiers := modifiers
      groups := (table.map (·.1)).getD config.groups
      priorityToGroup := (table.map (·.2)).getD config.priorityToGroup }

/-- The configuration of a recorder: the main file, then the fragments of
`recorder_config_load_dropins` in their order.
SOURCE: recorder.c:1469-1520, 4456-4465 -/
def recorderConfigLoadAll (env : ConfigEnv) (main : Json) (dropins : List Json) : Load Config :=
  (main :: dropins).foldlM (recorderConfigLoad env) recorderConfigInit

end Recorder.Model
