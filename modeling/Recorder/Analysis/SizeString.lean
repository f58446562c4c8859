import Recorder.Model.Config

/-!
# Size strings

`parse_size_string` leaves the digits to `strtoull` and checks the suffix and the product
itself. `strtoull` skips blanks and takes a sign, so a text may have these in front of the
digits, and a minus turns the number over: `-1` is the largest size there is. Everything else
is read exactly.

**Main result**: `size_string_exact_iff`. A text is read exactly if and only if it is not a
size string behind blanks or a sign whose value fits.
-/

set_option autoImplicit false

namespace Recorder.Analysis

open Recorder.Model Recorder.Lib

/-- What the suffixes `K`, `M` and `G` of either case stand for. -/
inductive SuffixScale : Bytes → ℕ → Prop
  | none : SuffixScale [] 1
  | kilo {b : UInt8} (h : b = 75 ∨ b = 107) : SuffixScale [b] (2 ^ 10)
  | mega {b : UInt8} (h : b = 77 ∨ b = 109) : SuffixScale [b] (2 ^ 20)
  | giga {b : UInt8} (h : b = 71 ∨ b = 103) : SuffixScale [b] (2 ^ 30)

/-- **A size string** and the number it denotes: one or more decimal digits and at most one
suffix. -/
def SizeString (text : Bytes) (value : ℕ) : Prop :=
  ∃ ds suffix scale, text = ds ++ suffix ∧ ds ≠ [] ∧ (∀ d ∈ ds, isDigit d = true) ∧
    SuffixScale suffix scale ∧ value = digitsValue ds * scale

/-- The text is accepted exactly where it is a size string below 2^64, with its value. -/
def ParsedExactly (text : Bytes) : Prop :=
  ∀ value, parseSizeString text = some value ↔ SizeString text value ∧ value < 2 ^ 64

/-- Blanks or a sign stand in front of the digits of a size string, and the value fits. A
number behind a minus counts as its distance to 2^64. -/
def SignedSizeString (text : Bytes) : Prop :=
  ∃ blanks negative sign ds suffix scale, text = blanks ++ sign ++ ds ++ suffix ∧
    blanks ++ sign ≠ [] ∧ (∀ b ∈ blanks, isSpace b = true) ∧ Sign negative sign ∧ ds ≠ [] ∧
    (∀ d ∈ ds, isDigit d = true) ∧ SuffixScale suffix scale ∧ digitsValue ds < 2 ^ 64 ∧
    signedValue negative (digitsValue ds) * scale < 2 ^ 64

/-! ## The suffix -/

theorem SuffixScale.pos {suffix : Bytes} {scale : ℕ} (h : SuffixScale suffix scale) :
    0 < scale := by
  cases h <;> decide

/-- A suffix does not start with a digit. -/
theorem SuffixScale.stops {suffix : Bytes} {scale : ℕ} (h : SuffixScale suffix scale) :
    ∀ b ∈ suffix.head?, isDigit b = false := by
  intro b hb
  cases h with
  | none => cases hb
  | kilo h | mega h | giga h =>
    obtain rfl : _ = b := Option.some.inj hb
    rcases h with rfl | rfl <;> rfl

/-- What the code makes of the text behind the number. -/
def restScale (rest : Bytes) : Option ℕ :=
  match rest with
  | [] => some 1
  | [suffix] => sizeScale suffix
  | _ => none

theorem restScale_eq_some_iff {rest : Bytes} {scale : ℕ} :
    restScale rest = some scale ↔ SuffixScale rest scale := by
  constructor
  · intro h
    match rest, h with
    | [], h =>
      obtain rfl : 1 = scale := Option.some.inj h
      exact SuffixScale.none
    | [b], h =>
      rw [restScale, sizeScale] at h
      split at h
      · rename_i hb
        obtain rfl := Option.some.inj h
        exact SuffixScale.kilo hb
      · split at h
        · rename_i hb
          obtain rfl := Option.some.inj h
          exact SuffixScale.mega hb
        · split at h
          · rename_i hb
            obtain rfl := Option.some.inj h
            exact SuffixScale.giga hb
          · cases h
  · intro h
    cases h with
    | none => rfl
    | kilo h | mega h | giga h => rcases h with rfl | rfl <;> rfl

/-- The guard in front of the product says that the product fits. -/
theorem le_div_scale_iff {base scale : ℕ} (h : 0 < scale) :
    ¬ base > (2 ^ 64 - 1) / scale ↔ base * scale < 2 ^ 64 := by
  rw [gt_iff_lt, not_lt, Nat.le_div_iff_mul_le h]
  omega

/-! ## The parser -/

/-- What `parse_size_string` accepts, and what it returns.
SOURCE: recorder.c:811-838 -/
theorem parseSizeString_eq_some_iff {text : Bytes} {value : ℕ} :
    parseSizeString text = some value ↔
      ∃ negative ds rest scale, NumberAt text negative ds rest ∧ digitsValue ds < 2 ^ 64 ∧
        SuffixScale rest scale ∧ value = signedValue negative (digitsValue ds) * scale ∧
        value < 2 ^ 64 := by
  have hparse : parseSizeString text = some value ↔ ∃ base rest,
      (strtoull text = (some base, rest) ∧ rest ≠ text) ∧ ∃ scale, restScale rest = some scale ∧
        value = base * scale ∧ value < 2 ^ 64 := by
    unfold parseSizeString
    obtain ⟨number, rest⟩ := strtoull text
    cases number with
    | none => simp
    | some base =>
      simp only [Prod.mk.injEq, Option.some.injEq]
      constructor
      · intro h
        split at h
        · cases h
        · rename_i hne
          obtain ⟨scale, hscale, h⟩ := Option.bind_eq_some_iff.mp h
          have hpos := (restScale_eq_some_iff.mp hscale).pos
          split at h
          · cases h
          · rename_i hfits
            obtain rfl := Option.some.inj h
            exact ⟨base, rest, ⟨⟨rfl, rfl⟩, hne⟩, scale, hscale, rfl,
              (le_div_scale_iff hpos).mp hfits⟩
      · rintro ⟨_, _, ⟨⟨rfl, rfl⟩, hne⟩, scale, hscale, rfl, hlt⟩
        have hpos := (restScale_eq_some_iff.mp hscale).pos
        rw [if_neg hne]
        apply Option.bind_eq_some_iff.mpr
        exact ⟨scale, hscale, if_neg ((le_div_scale_iff hpos).mpr hlt)⟩
  rw [hparse]
  constructor
  · rintro ⟨base, rest, hread, scale, hscale, hvalue, hlt⟩
    obtain ⟨negative, ds, hat, hfits, rfl⟩ := strtoull_eq_iff.mp hread
    exact ⟨negative, ds, rest, scale, hat, hfits, restScale_eq_some_iff.mp hscale, hvalue, hlt⟩
  · rintro ⟨negative, ds, rest, scale, hat, hfits, hscale, hvalue, hlt⟩
    exact ⟨_, rest, strtoull_eq_iff.mpr ⟨negative, ds, hat, hfits, rfl⟩, scale,
      restScale_eq_some_iff.mpr hscale, hvalue, hlt⟩

/-- A size string that fits is accepted with its value. -/
theorem SizeString.parse {text : Bytes} {value : ℕ} (h : SizeString text value)
    (hlt : value < 2 ^ 64) : parseSizeString text = some value := by
  obtain ⟨ds, suffix, scale, rfl, hne, hdigits, hscale, rfl⟩ := h
  have hle : digitsValue ds ≤ digitsValue ds * scale := Nat.le_mul_of_pos_right _ hscale.pos
  apply parseSizeString_eq_some_iff.mpr
  exact ⟨false, ds, suffix, scale, ⟨⟨[], [], rfl, by simp, Sign.none⟩, hdigits, hne, hscale.stops⟩,
    by omega, hscale, rfl, hlt⟩

/-- A size string starts with a digit, which is no blank and no sign. -/
theorem SizeString.not_signed {text : Bytes} {value : ℕ} (h : SizeString text value) :
    ¬ SignedSizeString text := by
  obtain ⟨ds, suffix, scale, htext, hne, hdigits, -, -⟩ := h
  rintro ⟨blanks, negative, sign, ds', suffix', -, htext', hfront, hblanks, hsign, -, -, -, -, -⟩
  obtain ⟨d, rest, hds⟩ := List.exists_cons_of_ne_nil hne
  have hd : isDigit d = true := hdigits d (by rw [hds]; exact List.mem_cons_self)
  rw [hds] at htext
  have hcons := htext.symm.trans htext'
  cases blanks with
  | cons b blanks =>
    obtain rfl : d = b := (List.cons.inj hcons).1
    have hspace := hblanks d List.mem_cons_self
    rw [isSpace_of_isDigit hd] at hspace
    cases hspace
  | nil =>
    cases hsign with
    | none => exact hfront rfl
    | plus =>
      obtain rfl : d = 43 := (List.cons.inj hcons).1
      cases hd
    | minus =>
      obtain rfl : d = 45 := (List.cons.inj hcons).1
      cases hd

/-- **Size strings are parsed exactly, but for blanks and signs in front**: a text is accepted
if and only if it denotes a size below 2^64, with that size, unless it has blanks or a sign in
front of a size string that fits.
SOURCE: recorder.c:811-838 -/
theorem size_string_exact_iff (text : Bytes) : ParsedExactly text ↔ ¬ SignedSizeString text := by
  constructor
  · rintro hexact ⟨blanks, negative, sign, ds, suffix, scale, rfl, hfront, hblanks, hsign, hne,
      hdigits, hscale, hfits, hlt⟩
    have hparse := parseSizeString_eq_some_iff.mpr ⟨negative, ds, suffix, scale,
      ⟨⟨blanks, sign, rfl, hblanks, hsign⟩, hdigits, hne, hscale.stops⟩, hfits, hscale, rfl, hlt⟩
    apply ((hexact _).mp hparse).1.not_signed
    exact ⟨blanks, negative, sign, ds, suffix, scale, rfl, hfront, hblanks, hsign, hne, hdigits,
      hscale, hfits, hlt⟩
  · intro hplain value
    constructor
    · intro hparse
      obtain ⟨negative, ds, rest, scale, hat, hfits, hscale, rfl, hlt⟩ :=
        parseSizeString_eq_some_iff.mp hparse
      obtain ⟨blanks, sign, htext, hblanks, hsign⟩ := hat.front
      by_cases hfront : blanks ++ sign = []
      · obtain ⟨rfl, rfl⟩ := List.append_eq_nil_iff.mp hfront
        cases hsign
        exact ⟨⟨ds, rest, scale, htext, hat.ne_nil, hat.digits, hscale, rfl⟩, hlt⟩
      · exact absurd ⟨blanks, negative, sign, ds, rest, scale, htext, hfront, hblanks, hsign,
          hat.ne_nil, hat.digits, hscale, hfits, hlt⟩ hplain
    · rintro ⟨hsize, hlt⟩
      exact hsize.parse hlt

/-- `-1` is accepted as 2^64 - 1. -/
theorem minus_one_accepted :
    parseSizeString [45, 49] = some (2 ^ 64 - 1) ∧ ¬ ParsedExactly [45, 49] := by
  have hparse : parseSizeString [45, 49] = some (2 ^ 64 - 1) := by decide
  refine ⟨hparse, fun hexact => ?_⟩
  obtain ⟨⟨ds, suffix, scale, htext, hne, hdigits, -, -⟩, -⟩ := (hexact _).mp hparse
  obtain ⟨d, rest, rfl⟩ := List.exists_cons_of_ne_nil hne
  have hd := hdigits d List.mem_cons_self
  obtain rfl : 45 = d := (List.cons.inj htext).1
  cases hd

end Recorder.Analysis
