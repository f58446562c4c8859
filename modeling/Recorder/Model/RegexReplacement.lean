import Recorder.Model.Modifiers

/-!
# `recorder.c`: the text of a rewrite

`build_regex_replacement` walks over the replacement of a modifier and appends one part after
the other to a buffer: a byte of the replacement, a dollar for two of them, or a captured group
for a dollar with a digit. The groups are places in the subject, as the match data of PCRE2
give them.
-/

set_option autoImplicit false

namespace Recorder.Model

open Recorder.Lib

/-- The match data of PCRE2: a pair of offsets into the subject for each group, or none where
the group took no part in the match (`PCRE2_UNSET`). -/
structure MatchData where
  subject : Bytes
  ovector : List (Option (ℕ × ℕ))
  ordered : ∀ pair, some pair ∈ ovector → pair.1 ≤ pair.2 ∧ pair.2 ≤ subject.length

/-- The bytes between two offsets. -/
def MatchData.slice (data : MatchData) (pair : ℕ × ℕ) : Bytes :=
  (data.subject.drop pair.1).take (pair.2 - pair.1)

/-- The captured groups of a match. -/
def MatchData.captures (data : MatchData) : List (Option Bytes) :=
  data.ovector.map (Option.map data.slice)

/-- `text[i]`, with the zero that ends the text. -/
def charAt (text : Bytes) (i : ℕ) : UInt8 := text.getD i 0

/-- What one turn of the loop appends, if anything, and where it leaves the index.
SOURCE: recorder.c:3069-3084 -/
def replacementPart (data : MatchData) (text : Bytes) (i : ℕ) : Option Bytes × ℕ :=
  if charAt text i = 36 ∧ charAt text (i + 1) = 36 then (some [36], i + 1)
  else if charAt text i = 36 ∧ 48 ≤ charAt text (i + 1) ∧ charAt text (i + 1) ≤ 57 then
    let group := (charAt text (i + 1)).toNat - 48
    if group ≥ data.ovector.length then (none, i + 1)
    else ((data.ovector.getD group none).map data.slice, i + 1)
  else (some [charAt text i], i)

/-- The loop of `build_regex_replacement`, from index `i` on with the buffer built so far.
`realloc` says which sizes get memory.
SOURCE: recorder.c:3068-3098 -/
def replacementLoop (data : MatchData) (text : Bytes) (realloc : ℕ → Bool) :
    ℕ → ℕ → Option Bytes → Option (Option Bytes)
  | 0, _, _ => none
  | fuel + 1, i, result =>
    if charAt text i = 0 then some result
    else
      match replacementPart data text i with
      | (none, i) => replacementLoop data text realloc fuel (i + 1) result
      | (some part, i) =>
        let built := result.getD []
        if part.length > sizeMax - built.length - 1 then none
        else if !realloc (built.length + part.length + 1) then none
        else replacementLoop data text realloc fuel (i + 1) (some (built ++ part))

/-- `build_regex_replacement`: the bytes of the buffer in front of its terminating zero.
SOURCE: recorder.c:3057-3104 -/
def buildRegexReplacement (data : MatchData) (text : Bytes) (realloc : ℕ → Bool) :
    Option Bytes :=
  match replacementLoop data text realloc (text.length + 1) 0 none with
  | none => none
  | some (some result) => some result
  | some none => if realloc 1 then some [] else none

end Recorder.Model
