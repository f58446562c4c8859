import Recorder.Lib.Decimal
import Recorder.Model.EntryFormat
import Recorder.Model.Recorder

/-!
# `recorder.c`: entry modifiers

A modifier matches a field of an entry and rewrites a field, sets the priority, starts a script
or drops the entry. `apply_entry_modifiers` runs the global list and then the list of the
group of the entry's priority, again for each priority the entry is moved to.

The regular expression engine is outside (`ModifierOps`). The build without PCRE2 has no
rewrites, and the one without any engine no expressions; both are cases of this one. A script
gets a copy of the entry and changes nothing here.
-/

set_option autoImplicit false

namespace Recorder.Model

/-! ## Modifiers -/

/-- `ModifierMatchKind`, with the value that is compared.
SOURCE: recorder.c:125-137 -/
inductive ModifierMatch
  | exact (text : Bytes)
  | present (value : Bool)
  | regex (pattern : Bytes)
  deriving DecidableEq, Repr

/-- `EntryModifier`. `rewrite` holds `rewrite_field` and `replacement`; `setPriority` is
`none` where `set_priority` is -1.
SOURCE: recorder.c:131-154 -/
structure EntryModifier where
  matchField : Bytes
  matchKind : ModifierMatch
  negate : Bool := false
  rewrite : Option (Bytes × Bytes) := none
  drop : Bool := false
  setPriority : Option (Fin 8) := none
  scriptCommand : List Bytes := []
  scriptRunOnReplay : Bool := false
  scriptTimeoutSec : ℕ := 10
  deriving DecidableEq, Repr

/-- What the regular expression engine says: an error, no match, or the captured groups, the
whole match first. -/
inductive RegexResult
  | error
  | noMatch
  | matched (captures : List (Option Bytes))
  deriving DecidableEq, Repr

/-- What is outside: the engine, and whether the text of a replacement could be allocated. -/
structure ModifierOps where
  regexMatch : Bytes → Bytes → RegexResult
  replacementAlloc : Bytes → Bool

/-- What the modifiers read and write of a `LogEntry`. -/
structure ModifiedEntry where
  priority : UInt8
  texts : EntryTexts
  deriving DecidableEq, Repr

/-! ## Fields -/

/-- `MESSAGE` -/
def messageName : Bytes := [77, 69, 83, 83, 65, 71, 69]

/-- `MESSAGE_ID` -/
def messageIdName : Bytes := [77, 69, 83, 83, 65, 71, 69, 95, 73, 68]

/-- `_HOSTNAME` -/
def hostnameName : Bytes := [95, 72, 79, 83, 84, 78, 65, 77, 69]

/-- `_SYSTEMD_UNIT` -/
def systemdUnitName : Bytes := [95, 83, 89, 83, 84, 69, 77, 68, 95, 85, 78, 73, 84]

/-- `_COMM` -/
def commName : Bytes := [95, 67, 79, 77, 77]

/-- `_EXE` -/
def exeName : Bytes := [95, 69, 88, 69]

/-- `entry_field_for_modifier`.
SOURCE: recorder.c:3019-3028 -/
def entryFieldForModifier (texts : EntryTexts) (name : Bytes) : Option Bytes :=
  if name = messageName then texts.message
  else if name = messageIdName then texts.messageId
  else if name = hostnameName then texts.hostname
  else if name = systemdUnitName then texts.unit
  else if name = commName then texts.comm
  else if name = exeName then texts.exe
  else none

/-- The field `entry_field_for_rewrite` finds, with a new text.
SOURCE: recorder.c:3031-3058 -/
def entryFieldForRewrite (texts : EntryTexts) (name text : Bytes) : Option EntryTexts :=
  if name = messageName then some { texts with message := some text }
  else if name = messageIdName then some { texts with messageId := some text }
  else if name = hostnameName then some { texts with hostname := some text }
  else if name = systemdUnitName then some { texts with unit := some text }
  else if name = commName then some { texts with comm := some text }
  else if name = exeName then some { texts with exe := some text }
  else none

/-- The text `build_regex_replacement` builds: `$$` is a dollar, `$` with a digit the captured
group, which is left out if it took no part in the match.
SOURCE: recorder.c:3060-3104 -/
def regexReplacement (captures : List (Option Bytes)) : Bytes → Bytes
  | 36 :: 36 :: rest => 36 :: regexReplacement captures rest
  | 36 :: d :: rest =>
    if 48 ≤ d && d ≤ 57 then
      (captures.getD (d.toNat - 48) none).getD [] ++ regexReplacement captures rest
    else 36 :: regexReplacement captures (d :: rest)
  | b :: rest => b :: regexReplacement captures rest
  | [] => []

/-! ## Applying modifiers -/

/-- What a modifier, or a list of them, does with an entry: it goes on with the entry, drops
it, or fails. -/
inductive ModifierStep
  | keep (e : ModifiedEntry)
  | drop
  | error
  deriving DecidableEq, Repr

section Apply

variable (ops : ModifierOps) (journal : Bytes → Option Bytes)

/-- The match of a modifier before `not` is applied, with the captured groups. `none` is an
error of the engine.
SOURCE: recorder.c:3115-3143 -/
def modifierMatch (m : EntryModifier) (subject : Option Bytes) :
    Option (Bool × List (Option Bytes)) :=
  match m.matchKind with
  | .present value => some (subject.isSome == value, [])
  | .exact text => some (subject == some text, [])
  | .regex pattern =>
    match subject with
    | none => some (false, [])
    | some text =>
      match ops.regexMatch pattern text with
      | .error => none
      | .noMatch => some (false, [])
      | .matched captures => some (true, captures)

/-- The rewrite of a modifier that matched. The new text ends at its first zero byte.
SOURCE: recorder.c:3146-3160 -/
def modifierRewrite (m : EntryModifier) (captures : List (Option Bytes)) (texts : EntryTexts) :
    Option EntryTexts :=
  match m.rewrite with
  | none => some texts
  | some (field, replacement) =>
    let text := regexReplacement captures replacement
    if ops.replacementAlloc text then entryFieldForRewrite texts field (cString text)
    else none

/-- The field a modifier looks at: that of the entry, or of the journal where the entry has
none.
SOURCE: recorder.c:3112-3115 -/
def modifierSubject (m : EntryModifier) (e : ModifiedEntry) : Option Bytes :=
  match entryFieldForModifier e.texts m.matchField with
  | some text => some text
  | none => journal m.matchField

/-- One turn of `apply_modifier_list`.
SOURCE: recorder.c:3112-3165 -/
def applyModifier (m : EntryModifier) (e : ModifiedEntry) : ModifierStep :=
  match modifierMatch ops m (modifierSubject journal m e) with
  | none => .error
  | some (matched, captures) =>
    if matched == m.negate then .keep e
    else
      match modifierRewrite ops m captures e.texts with
      | none => .error
      | some texts =>
        if m.drop then .drop
        else
          .keep
            { priority := (m.setPriority.map fun p => UInt8.ofNat p.val).getD e.priority
              texts := texts }

/-- `apply_modifier_list`.
SOURCE: recorder.c:3106-3168 -/
def applyModifierList : List EntryModifier → ModifiedEntry → ModifierStep
  | [], e => .keep e
  | m :: rest, e =>
    match applyModifier ops journal m e with
    | .keep e => applyModifierList rest e
    | .drop => .drop
    | .error => .error

end Apply

/-! ## The priority of an entry -/

/-- `PRIORITY` -/
def priorityName : Bytes := [80, 82, 73, 79, 82, 73, 84, 89]

/-- `journal_get_u64`: at most 31 bytes of the field are read. `strtoull` returns its largest
value for a number that is too large.
SOURCE: recorder.c:1547-1560 -/
def journalGetU64 (field : Option Bytes) : UInt64 :=
  match field with
  | none | some [] => 0
  | some text =>
    UInt64.ofNat ((Lib.strtoull (cString (text.take 31))).1.getD (2 ^ 64 - 1))

/-- `journal_get_u32`.
SOURCE: recorder.c:1562-1565 -/
def journalGetU32 (field : Option Bytes) : UInt32 := (journalGetU64 field).toUInt32

/-- Where an entry comes from: the fields of a journal entry, or a record of the fallback
source. -/
inductive EntrySource
  | journald (fields : Bytes → Option Bytes)
  | fallback (priority : UInt8)

/-- What `sd_journal_get_data` finds. Without journald there is no journal. -/
def EntrySource.journal : EntrySource → Bytes → Option Bytes
  | journald fields => fields
  | fallback _ => fun _ => none

/-- The priority `extract_entry` or `extract_fallback_entry` gives the entry.
SOURCE: recorder.c:2934, 2993 -/
def EntrySource.priority : EntrySource → UInt8
  | journald fields => (journalGetU32 (fields priorityName)).toUInt8
  | fallback priority => if priority ≤ 7 then priority else 5

/-! ## Routing -/

/-- The configuration the modifiers use: the global list, the lists of the groups, and the
group of each priority. -/
structure ModifierConfig where
  modifiers : List EntryModifier
  groups : List (List EntryModifier)
  priorityToGroup : Fin 8 → ℤ

/-- Why an entry is dropped: a modifier says so, or one of the two messages of the reroute
loop is printed. -/
inductive DropReason
  | rule
  | rerouteLoop
  | tooManyReroutes
  deriving DecidableEq, Repr

/-- The result of `apply_entry_modifiers`: 0 with the entry, 1, or -1. `outOfRange` is a
priority above 7 that shifts the visited mask or indexes `priority_to_group`, behind which C
says nothing. -/
inductive RoutingResult
  | kept (e : ModifiedEntry)
  | dropped (reason : DropReason)
  | failed
  | outOfRange (priority : UInt8)
  deriving DecidableEq, Repr

/-- A priority as an index of the eight groups and bits. -/
def priorityIndex (p : UInt8) : Option (Fin 8) :=
  if h : p.toNat < 8 then some ⟨p.toNat, h⟩ else none

section Routing

variable (ops : ModifierOps) (journal : Bytes → Option Bytes) (config : ModifierConfig)

/-- The reroute loop of `apply_entry_modifiers`, with the visited mask.
SOURCE: recorder.c:4139-4154 -/
def ModifiedEntry.rerouteLoop : ℕ → ℕ → ModifiedEntry → RoutingResult
  | 0, _, _ => .dropped .tooManyReroutes
  | reroutes + 1, seenPriorities, e =>
    match priorityIndex e.priority with
    | none => .outOfRange e.priority
    | some p =>
      let groupIndex := config.priorityToGroup p
      if groupIndex < 0 ∨ groupIndex ≥ config.groups.length then .failed
      else
        match applyModifierList ops journal (config.groups.getD groupIndex.toNat []) e with
        | .drop => .dropped .rule
        | .error => .failed
        | .keep e' =>
          if e'.priority = e.priority then .kept e'
          else
            match priorityIndex e'.priority with
            | none => .outOfRange e'.priority
            | some q =>
              if seenPriorities.testBit q then .dropped .rerouteLoop
              else ModifiedEntry.rerouteLoop reroutes (seenPriorities ||| 1 <<< q.val) e'

/-- `apply_entry_modifiers`.
SOURCE: recorder.c:4130-4155 -/
def ModifiedEntry.applyEntryModifiers (e : ModifiedEntry) : RoutingResult :=
  match applyModifierList ops journal config.modifiers e with
  | .drop => .dropped .rule
  | .error => .failed
  | .keep e =>
    match priorityIndex e.priority with
    | none => .outOfRange e.priority
    | some p => e.rerouteLoop ops journal config maxModifierReroutes (1 <<< p.val)

end Routing

end Recorder.Model
