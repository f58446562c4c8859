import Recorder.Analysis.EntryStorage
import Recorder.Model.RegexReplacement

/-!
# Regex rewrites

`Reads` says how a replacement is to be read: two dollars, a dollar with a digit, or any other
byte. A text has one reading (`reads_unique`), and what the loop builds is the expansion of its
tokens (`buildRegexReplacement_eq`, `regexReplacement_eq_expansion`).

**Main result** (`rewrite_is_expansion_iff`): after the modifier the target field is that
expansion if and only if no group the replacement refers to has captured a zero byte. The length
of the new text is taken with `strlen`, so a zero byte of a binary field ends it
(`rewrite_cut_at_zero`).
-/

set_option autoImplicit false

namespace Recorder.Analysis

open Recorder.Lib Recorder.Model

/-! ## Reading a replacement -/

/-- A part of a replacement. -/
inductive ReplacementToken
  | dollar
  | capture (digit : UInt8)
  | char (b : UInt8)
  deriving DecidableEq, Repr

/-- The bytes a group has captured: none where it is unset or absent. -/
def capturedBytes (captures : List (Option Bytes)) (digit : UInt8) : Bytes :=
  (captures.getD (digit.toNat - 48) none).getD []

/-- What a part stands for. -/
def ReplacementToken.expand (captures : List (Option Bytes)) : ReplacementToken → Bytes
  | .dollar => [36]
  | .capture digit => capturedBytes captures digit
  | .char b => [b]

/-- The parts of a replacement, from left to right. A dollar is a part of its own only where
neither a dollar nor a digit follows it. -/
inductive Reads : Bytes → List ReplacementToken → Prop
  | nil : Reads [] []
  | dollar {rest : Bytes} {tokens : List ReplacementToken} :
      Reads rest tokens → Reads (36 :: 36 :: rest) (.dollar :: tokens)
  | capture {d : UInt8} {rest : Bytes} {tokens : List ReplacementToken} :
      isDigit d = true → Reads rest tokens → Reads (36 :: d :: rest) (.capture d :: tokens)
  | char {b : UInt8} {rest : Bytes} {tokens : List ReplacementToken} :
      (b = 36 → ∀ c ∈ rest.head?, c ≠ 36 ∧ isDigit c = false) →
      Reads rest tokens → Reads (b :: rest) (.char b :: tokens)

/-- The replacement with every part replaced by what it stands for. -/
def expansion (captures : List (Option Bytes)) (tokens : List ReplacementToken) : Bytes :=
  tokens.flatMap (·.expand captures)

theorem not_isDigit_dollar : isDigit 36 = false := by decide

/-- Every replacement has a reading. -/
theorem reads_exists (text : Bytes) : ∃ tokens, Reads text tokens := by
  induction hn : text.length using Nat.strong_induction_on generalizing text with
  | _ n ih =>
    subst hn
    cases text with
    | nil => exact ⟨[], .nil⟩
    | cons b rest =>
      by_cases hb : b = 36
      · subst hb
        cases rest with
        | nil => exact ⟨[.char 36], .char (fun _ c hc => nomatch hc) .nil⟩
        | cons c rest =>
          by_cases hc : c = 36
          · subst hc
            obtain ⟨tokens, h⟩ := ih rest.length (by simp only [List.length_cons]; omega) rest rfl
            exact ⟨_, .dollar h⟩
          · cases hd : isDigit c with
            | true =>
              obtain ⟨tokens, h⟩ := ih rest.length (by simp only [List.length_cons]; omega) rest rfl
              exact ⟨_, .capture hd h⟩
            | false =>
              obtain ⟨tokens, h⟩ := ih (c :: rest).length (by simp only [List.length_cons]; omega)
                (c :: rest) rfl
              refine ⟨_, .char (fun _ c' hc' => ?_) h⟩
              have hc' : c = c' := Option.some.inj hc'
              exact hc' ▸ ⟨hc, hd⟩
      · obtain ⟨tokens, h⟩ := ih rest.length (by simp only [List.length_cons]; omega) rest rfl
        exact ⟨_, .char (fun heq => absurd heq hb) h⟩

/-- And only one. -/
theorem reads_unique {text : Bytes} {tokens tokens' : List ReplacementToken}
    (h : Reads text tokens) (h' : Reads text tokens') : tokens = tokens' := by
  induction h generalizing tokens' with
  | nil =>
    cases h'
    rfl
  | dollar _ ih =>
    cases h' with
    | dollar h' => exact congrArg _ (ih h')
    | capture hd _ => exact absurd hd (by rw [not_isDigit_dollar]; exact Bool.false_ne_true)
    | char hb _ => exact absurd rfl (hb rfl 36 rfl).1
  | capture hd _ ih =>
    cases h' with
    | dollar _ => exact absurd hd (by rw [not_isDigit_dollar]; exact Bool.false_ne_true)
    | capture _ h' => exact congrArg _ (ih h')
    | char hb _ => exact absurd hd (by rw [(hb rfl _ rfl).2]; exact Bool.false_ne_true)
  | char hb _ ih =>
    cases h' with
    | dollar _ => exact absurd rfl (hb rfl 36 rfl).1
    | capture hd _ => exact absurd hd (by rw [(hb rfl _ rfl).2]; exact Bool.false_ne_true)
    | char _ h' => exact congrArg _ (ih h')

theorem isDigit_iff (d : UInt8) : isDigit d = true ↔ 48 ≤ d ∧ d ≤ 57 := by
  rw [isDigit, Bool.and_eq_true, decide_eq_true_eq, decide_eq_true_eq]

/-- The text in the model of the modifiers is the expansion. -/
theorem regexReplacement_eq_expansion {captures : List (Option Bytes)} {text : Bytes}
    {tokens : List ReplacementToken} (h : Reads text tokens) :
    regexReplacement captures text = expansion captures tokens := by
  induction h with
  | nil => rfl
  | dollar _ ih =>
    rw [regexReplacement, ih]
    rfl
  | @capture d rest tokens hd hrest ih =>
    have hne : d ≠ 36 := by
      rintro rfl
      exact absurd hd (by decide)
    have hstep : regexReplacement captures (36 :: d :: rest) =
        capturedBytes captures d ++ regexReplacement captures rest := by
      have hdigit : (48 ≤ d && d ≤ 57) = true := hd
      rw [regexReplacement.eq_2 _ _ _ (fun heq => hne heq), if_pos hdigit]
      rfl
    rw [hstep, ih]
    rfl
  | @char b rest tokens hb hrest ih =>
    have hstep : regexReplacement captures (b :: rest) = b :: regexReplacement captures rest := by
      by_cases hdollar : b = 36
      · subst hdollar
        cases rest with
        | nil => rfl
        | cons c rest =>
          obtain ⟨hc, hd⟩ := hb rfl c rfl
          rw [regexReplacement.eq_2 _ _ _ (fun heq => hc heq), if_neg]
          exact fun h => absurd h (by rw [show (48 ≤ c && c ≤ 57) = isDigit c from rfl, hd]; decide)
      · rw [regexReplacement.eq_3]
        · intro rest' heq
          exact absurd heq hdollar
        · intro d rest' heq
          exact absurd heq hdollar
    rw [hstep, ih]
    rfl

/-! ## The loop -/

theorem charAt_of_drop {text rest : Bytes} {i : ℕ} {b : UInt8} (h : text.drop i = b :: rest) :
    charAt text i = b ∧ text.drop (i + 1) = rest := by
  constructor
  · unfold charAt
    rw [List.getD_eq_getElem?_getD, ← List.head?_drop, h]
    rfl
  · rw [← List.drop_drop, h]
    rfl

theorem charAt_of_drop_nil {text : Bytes} {i : ℕ} (h : text.drop i = []) : charAt text i = 0 := by
  unfold charAt
  rw [List.getD_eq_getElem?_getD, ← List.head?_drop, h]
  rfl

section Loop

variable {data : MatchData} {text : Bytes} {realloc : ℕ → Bool}

theorem captures_getD (data : MatchData) (group : ℕ) :
    data.captures.getD group none = (data.ovector.getD group none).map data.slice := by
  unfold MatchData.captures
  rw [List.getD_eq_getElem?_getD, List.getElem?_map, List.getD_eq_getElem?_getD]
  cases data.ovector[group]? <;> rfl

theorem replacementPart_dollar {rest : Bytes} {i : ℕ} (h : text.drop i = 36 :: 36 :: rest) :
    replacementPart data text i = (some [36], i + 1) := by
  obtain ⟨hb, hrest⟩ := charAt_of_drop h
  obtain ⟨hc, -⟩ := charAt_of_drop hrest
  unfold replacementPart
  rw [if_pos ⟨hb, hc⟩]

theorem replacementPart_capture {rest : Bytes} {i : ℕ} {d : UInt8}
    (h : text.drop i = 36 :: d :: rest) (hd : isDigit d = true) :
    ∃ part, replacementPart data text i = (part, i + 1) ∧
      part.getD [] = capturedBytes data.captures d := by
  obtain ⟨hb, hrest⟩ := charAt_of_drop h
  obtain ⟨hc, -⟩ := charAt_of_drop hrest
  have hne : d ≠ 36 := by
    rintro rfl
    exact absurd hd (by decide)
  have hgroup := captures_getD data (d.toNat - 48)
  unfold replacementPart capturedBytes
  rw [hb, hc, if_neg (fun h => hne h.2), if_pos ⟨rfl, (isDigit_iff d).mp hd⟩, hgroup]
  by_cases habsent : d.toNat - 48 ≥ data.ovector.length
  · refine ⟨none, if_pos habsent, ?_⟩
    rw [List.getD_eq_getElem?_getD, List.getElem?_eq_none habsent]
    rfl
  · exact ⟨_, if_neg habsent, rfl⟩

theorem replacementPart_char {rest : Bytes} {i : ℕ} {b : UInt8} (h : text.drop i = b :: rest)
    (hb : b = 36 → ∀ c ∈ rest.head?, c ≠ 36 ∧ isDigit c = false) :
    replacementPart data text i = (some [b], i) := by
  obtain ⟨hchar, hrest⟩ := charAt_of_drop h
  -- the byte behind a lone dollar is none of the two others, or the end
  have hnext : b = 36 → charAt text (i + 1) ≠ 36 ∧ isDigit (charAt text (i + 1)) = false := by
    intro heq
    cases rest with
    | nil =>
      rw [charAt_of_drop_nil hrest]
      decide
    | cons c rest =>
      rw [(charAt_of_drop hrest).1]
      exact hb heq c rfl
  unfold replacementPart
  rw [hchar, if_neg (fun h => (hnext h.1).1 h.2), if_neg]
  rintro ⟨heq, hdigit⟩
  have hfalse := (hnext heq).2
  rw [(isDigit_iff _).mpr hdigit] at hfalse
  cases hfalse

/-- What becomes of the loop: it has appended the expansion, or ran out of memory. -/
def LoopDone (realloc : ℕ → Bool) (expected : Bytes) (r : Option (Option Bytes)) : Prop :=
  (∃ result, r = some result ∧ result.getD [] = expected) ∨
    r = none ∧ ((∃ n, realloc n = false) ∨ sizeMax ≤ expected.length)

/-- A turn that appends its part. -/
theorem loopDone_append {part out : Bytes} {fuel i j : ℕ} {result : Option Bytes}
    (hchar : charAt text i ≠ 0) (hpart : replacementPart data text i = (some part, j))
    (hrest : ∀ result', LoopDone realloc (result'.getD [] ++ out)
      (replacementLoop data text realloc fuel (j + 1) result')) :
    LoopDone realloc (result.getD [] ++ (part ++ out))
      (replacementLoop data text realloc (fuel + 1) i result) := by
  rw [replacementLoop, if_neg hchar, hpart]
  show LoopDone realloc _ (if part.length > sizeMax - (result.getD []).length - 1 then none
    else if !realloc ((result.getD []).length + part.length + 1) then none
    else replacementLoop data text realloc fuel (j + 1) (some (result.getD [] ++ part)))
  split
  · refine .inr ⟨rfl, .inr ?_⟩
    simp only [List.length_append]
    omega
  · split
    · rename_i hmem
      exact .inr ⟨rfl, .inl ⟨_, by simpa using hmem⟩⟩
    · have h := hrest (some (result.getD [] ++ part))
      rw [Option.getD_some, List.append_assoc] at h
      exact h

/-- **The loop appends the expansion** of what it has not read. -/
theorem replacementLoop_expansion (htext : (0 : UInt8) ∉ text) {rest : Bytes}
    {tokens : List ReplacementToken} (hreads : Reads rest tokens) {fuel i : ℕ}
    {result : Option Bytes} (hdrop : text.drop i = rest) (hfuel : rest.length < fuel) :
    LoopDone realloc (result.getD [] ++ expansion data.captures tokens)
      (replacementLoop data text realloc fuel i result) := by
  have hnonzero : ∀ {b : UInt8} {rest : Bytes} {i : ℕ}, text.drop i = b :: rest →
      charAt text i ≠ 0 := by
    intro b rest i h hzero
    have hb : b ∈ text := List.mem_of_mem_drop (h ▸ List.mem_cons_self)
    rw [(charAt_of_drop h).1] at hzero
    exact htext (hzero ▸ hb)
  induction hreads generalizing fuel i result with
  | nil =>
    obtain ⟨fuel, rfl⟩ := Nat.exists_eq_succ_of_ne_zero (Nat.ne_of_gt hfuel)
    rw [replacementLoop, if_pos (charAt_of_drop_nil hdrop)]
    exact .inl ⟨result, rfl, (List.append_nil _).symm⟩
  | @dollar rest tokens _ ih =>
    obtain ⟨fuel, rfl⟩ := Nat.exists_eq_succ_of_ne_zero (Nat.ne_of_gt (Nat.zero_lt_of_lt hfuel))
    have hdrop' := (charAt_of_drop (charAt_of_drop hdrop).2).2
    simp only [List.length_cons] at hfuel
    exact loopDone_append (hnonzero hdrop) (replacementPart_dollar hdrop)
      fun result' => ih hdrop' (by omega)
  | @capture d rest tokens hd _ ih =>
    obtain ⟨fuel, rfl⟩ := Nat.exists_eq_succ_of_ne_zero (Nat.ne_of_gt (Nat.zero_lt_of_lt hfuel))
    have hdrop' := (charAt_of_drop (charAt_of_drop hdrop).2).2
    simp only [List.length_cons] at hfuel
    obtain ⟨part, hpart, hbytes⟩ : ∃ part, replacementPart data text i = (part, i + 1) ∧
        part.getD [] = capturedBytes data.captures d := replacementPart_capture hdrop hd
    have hexpand : expansion data.captures (.capture d :: tokens) =
        part.getD [] ++ expansion data.captures tokens := by
      rw [hbytes]
      rfl
    rw [hexpand]
    cases part with
    | some part =>
      exact loopDone_append (hnonzero hdrop) hpart fun result' => ih hdrop' (by omega)
    | none =>
      rw [replacementLoop, if_neg (hnonzero hdrop), hpart]
      exact ih hdrop' (by omega)
  | @char b rest tokens hb _ ih =>
    obtain ⟨fuel, rfl⟩ := Nat.exists_eq_succ_of_ne_zero (Nat.ne_of_gt (Nat.zero_lt_of_lt hfuel))
    simp only [List.length_cons] at hfuel
    exact loopDone_append (hnonzero hdrop) (replacementPart_char hdrop hb)
      fun result' => ih (charAt_of_drop hdrop).2 (by omega)

/-- **The text that is built is the expansion** of the replacement, unless memory runs out. -/
theorem buildRegexReplacement_eq (htext : (0 : UInt8) ∉ text) {tokens : List ReplacementToken}
    (hreads : Reads text tokens) :
    buildRegexReplacement data text realloc = some (expansion data.captures tokens) ∨
      buildRegexReplacement data text realloc = none ∧
        ((∃ n, realloc n = false) ∨ sizeMax ≤ (expansion data.captures tokens).length) := by
  have hloop : LoopDone realloc (expansion data.captures tokens)
      (replacementLoop data text realloc (text.length + 1) 0 none) :=
    replacementLoop_expansion htext hreads rfl (Nat.lt_succ_self _)
  unfold buildRegexReplacement
  obtain ⟨result, hresult, hbytes⟩ | ⟨hnone, hmem⟩ := hloop
  · rw [hresult]
    cases result with
    | some result => exact .inl (congrArg some hbytes)
    | none =>
      have hnil : expansion data.captures tokens = [] := hbytes.symm
      show (if realloc 1 then some [] else none) = _ ∨
        (if realloc 1 then some [] else none) = none ∧ _
      by_cases hempty : realloc 1 = true
      · rw [if_pos hempty, hnil]
        exact .inl rfl
      · rw [if_neg hempty]
        exact .inr ⟨rfl, .inl ⟨1, by simpa using hempty⟩⟩
  · rw [hnone]
    exact .inr ⟨rfl, hmem⟩

end Loop

/-! ## The rewritten field -/

theorem entryFieldForModifier_rewrite {texts texts' : EntryTexts} {field text : Bytes}
    (h : entryFieldForRewrite texts field text = some texts') :
    entryFieldForModifier texts' field = some text := by
  unfold entryFieldForRewrite at h
  unfold entryFieldForModifier
  repeat' split at h
  all_goals cases h
  all_goals simp_all

/-- A list of modifiers and one more. -/
theorem applyModifierList_concat {ops : ModifierOps} {journal : Bytes → Option Bytes}
    {before : List EntryModifier} {m : EntryModifier} {e e₁ : ModifiedEntry}
    (h : applyModifierList ops journal before e = .keep e₁) :
    applyModifierList ops journal (before ++ [m]) e = applyModifier ops journal m e₁ := by
  induction before generalizing e with
  | nil =>
    cases h
    rw [List.nil_append, applyModifierList]
    cases applyModifier ops journal m e₁ <;> rfl
  | cons m' before ih =>
    unfold applyModifierList at h
    rw [List.cons_append, applyModifierList]
    cases hstep : applyModifier ops journal m' e with
    | keep e' =>
      rw [hstep] at h
      exact ih h
    | drop =>
      rw [hstep] at h
      cases h
    | error =>
      rw [hstep] at h
      cases h

/-- A zero byte of the expansion is one of a captured group. -/
theorem zero_mem_expansion_iff {captures : List (Option Bytes)} {text : Bytes}
    {tokens : List ReplacementToken} (hreads : Reads text tokens) (htext : (0 : UInt8) ∉ text) :
    (0 : UInt8) ∈ expansion captures tokens ↔
      ∃ d, .capture d ∈ tokens ∧ (0 : UInt8) ∈ capturedBytes captures d := by
  have hchar : ∀ b, .char b ∈ tokens → b ∈ text := by
    intro b hb
    induction hreads with
    | nil => cases hb
    | dollar _ ih =>
      cases hb with
      | tail _ hb =>
        exact List.mem_cons_of_mem _ (List.mem_cons_of_mem _
          (ih (fun h => htext (List.mem_cons_of_mem _ (List.mem_cons_of_mem _ h))) hb))
    | capture _ _ ih =>
      cases hb with
      | tail _ hb =>
        exact List.mem_cons_of_mem _ (List.mem_cons_of_mem _
          (ih (fun h => htext (List.mem_cons_of_mem _ (List.mem_cons_of_mem _ h))) hb))
    | char _ _ ih =>
      cases hb with
      | head => exact List.mem_cons_self
      | tail _ hb =>
        exact List.mem_cons_of_mem _ (ih (fun h => htext (List.mem_cons_of_mem _ h)) hb)
  unfold expansion
  rw [List.mem_flatMap]
  constructor
  · rintro ⟨token, htoken, hzero⟩
    cases token with
    | dollar => exact absurd (List.mem_singleton.mp hzero) (by decide)
    | capture d => exact ⟨d, htoken, hzero⟩
    | char b =>
      rw [← List.mem_singleton.mp hzero] at htoken
      exact absurd (hchar 0 htoken) htext
  · rintro ⟨d, htoken, hzero⟩
    exact ⟨_, htoken, hzero⟩

/-- **The field is the expansion** exactly when no group the replacement refers to has captured
a zero byte. The text itself is the expansion in any case. -/
theorem rewrite_is_expansion_iff {ops : ModifierOps} {journal : Bytes → Option Bytes}
    {before : List EntryModifier} {m : EntryModifier} {e e₁ e' : ModifiedEntry} {data : MatchData}
    {pattern field replacement : Bytes} {tokens : List ReplacementToken}
    (hbefore : applyModifierList ops journal before e = .keep e₁)
    (hkind : m.matchKind = .regex pattern) (hnegate : m.negate = false)
    (hsubject : modifierSubject journal m e₁ = some data.subject)
    (hmatch : ops.regexMatch pattern data.subject = .matched data.captures)
    (hrewrite : m.rewrite = some (field, replacement)) (htext : (0 : UInt8) ∉ replacement)
    (hreads : Reads replacement tokens)
    (hrun : applyModifierList ops journal (before ++ [m]) e = .keep e') :
    (∀ realloc text, buildRegexReplacement data replacement realloc = some text →
      text = expansion data.captures tokens) ∧
    (entryFieldForModifier e'.texts field = some (expansion data.captures tokens) ↔
      ∀ d, .capture d ∈ tokens → (0 : UInt8) ∉ capturedBytes data.captures d) := by
  have hbuilt : ∀ realloc text, buildRegexReplacement data replacement realloc = some text →
      text = expansion data.captures tokens := by
    intro realloc text hbuild
    have hcases := @buildRegexReplacement_eq data replacement realloc htext tokens hreads
    rw [hbuild] at hcases
    cases hcases with
    | inl hsome => exact Option.some.inj hsome
    | inr hnone => cases hnone.1
  refine ⟨hbuilt, ?_⟩
  have hmatched : modifierMatch ops m (modifierSubject journal m e₁) =
      some (true, data.captures) := by
    rw [hsubject, modifierMatch, hkind]
    simp only [hmatch]
  rw [applyModifierList_concat hbefore, applyModifier, hmatched] at hrun
  have hfield : entryFieldForModifier e'.texts field =
      some (cString (expansion data.captures tokens)) := by
    simp only [hnegate, modifierRewrite, hrewrite, regexReplacement_eq_expansion hreads] at hrun
    split at hrun
    · rename_i hfalse
      cases hfalse
    · split at hrun
      · cases hrun
      · rename_i texts htexts
        have htexts' : entryFieldForRewrite e₁.texts field
            (cString (expansion data.captures tokens)) = some texts := by
          split at htexts
          · exact htexts
          · cases htexts
        split at hrun
        · cases hrun
        · cases hrun
          exact entryFieldForModifier_rewrite htexts'
  rw [hfield, Option.some_inj, cString_eq_self_iff]
  constructor
  · intro hall d htoken hzero
    exact hall 0 ((zero_mem_expansion_iff hreads htext).mpr ⟨d, htoken, hzero⟩) rfl
  · rintro hall b hb rfl
    obtain ⟨d, htoken, hzero⟩ := (zero_mem_expansion_iff hreads htext).mp hb
    exact hall d htoken hzero

/-! ## A zero byte -/

/-- A match of the whole message, which has a zero byte in it. -/
def binaryMatch : MatchData where
  subject := [0x61, 0, 0x62]
  ovector := [some (0, 3)]
  ordered := by
    intro pair hpair
    cases List.mem_singleton.mp hpair
    decide

def wholeMatchOps : ModifierOps where
  regexMatch _ subject := .matched [some subject]
  replacementAlloc _ := true

/-- `MESSAGE` is replaced by what matched, "$0". -/
def copyMessage : EntryModifier where
  matchField := messageName
  matchKind := .regex [0x2e, 0x2a]
  rewrite := some (messageName, [36, 48])

def entryWithMessage (message : Bytes) : ModifiedEntry := ⟨6, { message := some message }⟩

/-- A rewrite of a message by itself, cut at its zero byte. -/
theorem rewrite_cut_at_zero :
    ∃ e', applyModifierList wholeMatchOps (fun _ => none) [copyMessage]
        (entryWithMessage binaryMatch.subject) = .keep e' ∧
      (∀ pattern, wholeMatchOps.regexMatch pattern binaryMatch.subject =
        .matched binaryMatch.captures) ∧
      Reads [36, 48] [.capture 48] ∧
      entryFieldForModifier e'.texts messageName = some [0x61] ∧
      expansion binaryMatch.captures [.capture 48] = [0x61, 0, 0x62] := by
  exact ⟨_, rfl, fun _ => rfl, .capture (by decide) .nil, rfl, rfl⟩

/-- A match of the whole of a message without one. -/
def textMatch : MatchData where
  subject := [0x61, 0x62]
  ovector := [some (0, 2)]
  ordered := by
    intro pair hpair
    cases List.mem_singleton.mp hpair
    decide

/-- The rewrite of that message. -/
theorem rewrite_is_expansion_text :
    ∃ e', applyModifierList wholeMatchOps (fun _ => none) ([] ++ [copyMessage])
        (entryWithMessage textMatch.subject) = .keep e' ∧
      entryFieldForModifier e'.texts messageName =
        some (expansion textMatch.captures [.capture 48]) := by
  have hrun : applyModifierList wholeMatchOps (fun _ => none) ([] ++ [copyMessage])
      (entryWithMessage textMatch.subject) = .keep _ := rfl
  have hreads : Reads [36, 48] [.capture 48] := .capture (by decide) .nil
  have hiff := rewrite_is_expansion_iff (e := entryWithMessage textMatch.subject)
    rfl rfl rfl rfl rfl rfl (by decide) hreads hrun
  refine ⟨_, hrun, hiff.2.mpr fun d hd => ?_⟩
  cases List.mem_singleton.mp hd
  decide

end Recorder.Analysis
