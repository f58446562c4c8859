import Mathlib.Data.Nat.Digits.Lemmas
import Recorder.Lib.Decimal

/-!
# Formatted texts

`hexadecimal` and `hexPadded` print a number as `%llx` and `%0*llx` do, and `sscanf` reads a
text along a format, with the blanks, signs and prefixes that C allows in front of a number.
Each directive reads back what was printed for it and stops at the separator behind it
(`scanHex_append`, `sscanf_untilStop`), so a format inverts a text of separated fields.
-/

set_option autoImplicit false

namespace Recorder.Lib

/-! ## Hexadecimal digits -/

/-- A digit in lower case. -/
def hexDigit (d : ℕ) : UInt8 := if d < 10 then UInt8.ofNat (48 + d) else UInt8.ofNat (87 + d)

/-- The value of a digit in either case. -/
def hexVal (b : UInt8) : Option ℕ :=
  if 48 ≤ b ∧ b ≤ 57 then some (b.toNat - 48)
  else if 97 ≤ b ∧ b ≤ 102 then some (b.toNat - 87)
  else if 65 ≤ b ∧ b ≤ 70 then some (b.toNat - 55)
  else none

/-- `isxdigit`. -/
def isHexDigit (b : UInt8) : Bool := (hexVal b).isSome

/-- `%llx`. -/
def hexadecimal (n : ℕ) : List UInt8 :=
  if n = 0 then [48] else (Nat.digits 16 n).reverse.map hexDigit

/-- `%0*llx`, with the width. -/
def hexPadded (width n : ℕ) : List UInt8 := (hexadecimal n).leftpad width 48

/-- The value of a list of digits. -/
def hexValue (ds : List UInt8) : ℕ := ds.foldl (fun v d => 16 * v + (hexVal d).getD 0) 0

/-- A digit has the value it was printed from. -/
theorem hexVal_hexDigit {d : ℕ} (hd : d < 16) : hexVal (hexDigit d) = some d := by
  interval_cases d <;> decide

/-- A printed digit is a hexadecimal digit. -/
theorem isHexDigit_hexDigit {d : ℕ} (hd : d < 16) : isHexDigit (hexDigit d) = true := by
  rw [isHexDigit, hexVal_hexDigit hd]
  rfl

/-- The value of the digits, the last one first. -/
theorem hexValue_foldl_digits (ds : List ℕ) (hds : ∀ d ∈ ds, d < 16) :
    (ds.reverse.map hexDigit).foldl (fun v d => 16 * v + (hexVal d).getD 0) 0 =
      Nat.ofDigits 16 ds := by
  induction ds with
  | nil => rfl
  | cons d ds ih =>
    obtain ⟨hd, hrest⟩ := List.forall_mem_cons.mp hds
    rw [List.reverse_cons, List.map_append, List.foldl_append, ih hrest, Nat.ofDigits_cons]
    show 16 * Nat.ofDigits 16 ds + (hexVal (hexDigit d)).getD 0 = _
    rw [hexVal_hexDigit hd]
    exact Nat.add_comm _ _

/-- A printed number has its value. -/
theorem hexValue_hexadecimal (n : ℕ) : hexValue (hexadecimal n) = n := by
  unfold hexadecimal
  split
  · rename_i hn
    rw [hn]
    decide
  · rw [hexValue, hexValue_foldl_digits _ fun d hd => Nat.digits_lt_base (by decide) hd]
    exact Nat.ofDigits_digits 16 n

/-- A printed number has hexadecimal digits only. -/
theorem isHexDigit_of_mem_hexadecimal {n : ℕ} {b : UInt8} (hb : b ∈ hexadecimal n) :
    isHexDigit b = true := by
  unfold hexadecimal at hb
  split at hb
  · rw [List.mem_singleton.mp hb]
    decide
  · obtain ⟨d, hd, rfl⟩ := List.mem_map.mp hb
    exact isHexDigit_hexDigit (Nat.digits_lt_base (by decide) (List.mem_reverse.mp hd))

/-- A printed number has a digit. -/
theorem hexadecimal_ne_nil (n : ℕ) : hexadecimal n ≠ [] := by
  unfold hexadecimal
  split
  · exact List.cons_ne_nil _ _
  · rename_i hn
    intro hnil
    rw [List.map_eq_nil_iff, List.reverse_eq_nil_iff] at hnil
    exact Nat.digits_ne_nil_iff_ne_zero.mpr hn hnil

/-- A number below `16 ^ k` has at most `k` digits. -/
theorem length_hexadecimal_le {n k : ℕ} (hk : 0 < k) (hn : n < 16 ^ k) :
    (hexadecimal n).length ≤ k := by
  unfold hexadecimal
  split
  · exact hk
  · rw [List.length_map, List.length_reverse]
    exact (Nat.digits_length_le_iff (by decide) n).mpr hn

/-- A padded number is the number behind zeros. -/
theorem hexPadded_eq (width n : ℕ) :
    ∃ k, hexPadded width n = List.replicate k 48 ++ hexadecimal n :=
  ⟨width - (hexadecimal n).length, rfl⟩

/-- A padded number has its value. -/
theorem hexValue_hexPadded (width n : ℕ) : hexValue (hexPadded width n) = n := by
  obtain ⟨k, hk⟩ := hexPadded_eq width n
  have hzeros : ∀ k : ℕ,
      (List.replicate k (48 : UInt8)).foldl (fun v d => 16 * v + (hexVal d).getD 0) 0 = 0 := by
    intro k
    induction k with
    | zero => rfl
    | succ k ih => exact ih
  rw [hk, hexValue, List.foldl_append, hzeros]
  exact hexValue_hexadecimal n

/-- A padded number has hexadecimal digits only. -/
theorem isHexDigit_of_mem_hexPadded {width n : ℕ} {b : UInt8} (hb : b ∈ hexPadded width n) :
    isHexDigit b = true := by
  obtain ⟨k, hk⟩ := hexPadded_eq width n
  rw [hk] at hb
  cases List.mem_append.mp hb with
  | inl hb =>
    rw [List.eq_of_mem_replicate hb]
    decide
  | inr hb => exact isHexDigit_of_mem_hexadecimal hb

/-- A padded number has a digit. -/
theorem hexPadded_ne_nil (width n : ℕ) : hexPadded width n ≠ [] := by
  obtain ⟨k, hk⟩ := hexPadded_eq width n
  rw [hk]
  exact List.append_ne_nil_of_right_ne_nil _ (hexadecimal_ne_nil n)

/-- A number that fits the width is padded to it. -/
theorem length_hexPadded_le {width n : ℕ} (hwidth : 0 < width) (hn : n < 16 ^ width) :
    (hexPadded width n).length ≤ width := by
  unfold hexPadded
  rw [List.length_leftpad]
  exact Nat.max_le.mpr ⟨Nat.le_refl _, length_hexadecimal_le hwidth hn⟩

/-! ## Reading -/

/-- One directive of a format: a byte that must be there, `%llx` and its kin of a width in
bits, `%<width>[^<stop>]`, and `%c`. -/
inductive Directive
  | literal (b : UInt8)
  | hex (bits : ℕ)
  | untilStop (width : ℕ) (stop : UInt8)
  | char
  deriving DecidableEq, Repr

/-- What a conversion assigns. -/
inductive Scanned
  | number (n : ℕ)
  | text (s : List UInt8)
  | char (b : UInt8)
  deriving DecidableEq, Repr

/-- "0x" in front of the digits. -/
def dropHexPrefix : List UInt8 → Bool × List UInt8
  | 48 :: b :: rest => if b = 120 ∨ b = 88 then (true, rest) else (false, 48 :: b :: rest)
  | text => (false, text)

/-- The number in front of a text, as `strtoull` reads it with base 16: it is negated by a
sign, and the largest one where it does not fit. The prefix alone reads as zero. -/
def scanHex (text : List UInt8) : Option (ℕ × List UInt8) :=
  match readSign (text.dropWhile isSpace) with
  | (negative, text) =>
    match dropHexPrefix text with
    | (hasPrefix, text) =>
      let ds := text.takeWhile isHexDigit
      if ds = [] ∧ !hasPrefix then none
      else
        let v := if hexValue ds < 2 ^ 64 then
            if negative then (2 ^ 64 - hexValue ds) % 2 ^ 64 else hexValue ds
          else 2 ^ 64 - 1
        some (v, text.dropWhile isHexDigit)

/-- `sscanf`: the assignments in order. They end where a directive fails. -/
def sscanf : List Directive → List UInt8 → List Scanned
  | [], _ => []
  | .literal b :: format, c :: text => if c = b then sscanf format text else []
  | .literal _ :: _, [] => []
  | .hex bits :: format, text =>
    match scanHex text with
    | none => []
    | some (v, rest) => .number (v % 2 ^ bits) :: sscanf format rest
  | .untilStop width stop :: format, text =>
    let s := (text.take width).takeWhile (· ≠ stop)
    if s = [] then [] else .text s :: sscanf format (text.drop s.length)
  | .char :: format, c :: text => .char c :: sscanf format text
  | .char :: _, [] => []

/-- A literal text is passed over. -/
theorem sscanf_literals (bs : List UInt8) (format : List Directive) (text : List UInt8) :
    sscanf (bs.map .literal ++ format) (bs ++ text) = sscanf format text := by
  induction bs with
  | nil => rfl
  | cons b bs ih =>
    show (if b = b then sscanf (bs.map .literal ++ format) (bs ++ text) else []) = _
    rw [if_pos rfl]
    exact ih

/-- No digit is a blank, a sign or the letter of the prefix. -/
theorem ne_of_isHexDigit {b : UInt8} (hb : isHexDigit b = true) :
    isSpace b = false ∧ b ≠ 45 ∧ b ≠ 43 ∧ b ≠ 120 ∧ b ≠ 88 := by
  have hrange : 48 ≤ b.toNat ∧ b.toNat ≤ 57 ∨ 97 ≤ b.toNat ∧ b.toNat ≤ 102 ∨
      65 ≤ b.toNat ∧ b.toNat ≤ 70 := by
    unfold isHexDigit hexVal at hb
    split at hb
    · rename_i h
      exact .inl h
    · split at hb
      · rename_i h
        exact .inr (.inl h)
      · split at hb
        · rename_i h
          exact .inr (.inr h)
        · cases hb
  have hother : ∀ c : UInt8, c.toNat ∈ [32, 45, 43, 120, 88] → b ≠ c := by
    rintro c hc rfl
    simp only [List.mem_cons, List.not_mem_nil, or_false] at hc
    omega
  refine ⟨?_, hother 45 (by decide), hother 43 (by decide), hother 120 (by decide),
    hother 88 (by decide)⟩
  have hctrl : ¬ b ≤ 13 := fun h => by
    have h : b.toNat ≤ 13 := h
    omega
  simp [isSpace, hother 32 (by decide), hctrl]

/-- **Digits are read up to the separator behind them.** -/
theorem scanHex_append {ds rest : List UInt8} (hne : ds ≠ [])
    (hds : ∀ d ∈ ds, isHexDigit d = true) (hfit : hexValue ds < 2 ^ 64)
    (hrest : ∀ b ∈ rest.head?, isHexDigit b = false ∧ b ≠ 120 ∧ b ≠ 88) :
    scanHex (ds ++ rest) = some (hexValue ds, rest) := by
  obtain ⟨d, ds', rfl⟩ := List.exists_cons_of_ne_nil hne
  obtain ⟨hspace, hminus, hplus, -, -⟩ := ne_of_isHexDigit (hds d List.mem_cons_self)
  have hsign : readSign ((d :: ds' ++ rest).dropWhile isSpace) = (false, d :: ds' ++ rest) := by
    rw [List.cons_append, List.dropWhile_cons_of_neg (by simp [hspace]), readSign,
      if_neg hminus, if_neg hplus]
  have hprefix : dropHexPrefix (d :: ds' ++ rest) = (false, d :: ds' ++ rest) := by
    -- what follows the first digit is a digit too, or the separator
    have hsecond : ∀ b ∈ (ds' ++ rest).head?, ¬ (b = 120 ∨ b = 88) := by
      intro b hb
      cases ds' with
      | nil =>
        obtain ⟨-, hx, hX⟩ := hrest b hb
        exact fun h => h.elim hx hX
      | cons e ds' =>
        have hbe : b = e := (Option.some.inj hb).symm
        obtain ⟨-, -, -, hx, hX⟩ :=
          ne_of_isHexDigit (hds e (List.mem_cons_of_mem _ List.mem_cons_self))
        rw [hbe]
        exact fun h => h.elim hx hX
    rw [List.cons_append]
    cases htail : ds' ++ rest with
    | nil =>
      unfold dropHexPrefix
      split
      · rename_i heq
        cases heq
      · rfl
    | cons b tail =>
      have hb := hsecond b (by rw [htail]; rfl)
      unfold dropHexPrefix
      split
      · rename_i heq
        cases heq
        exact if_neg hb
      · rfl
  obtain ⟨htake, hdrop⟩ := takeWhile_dropWhile_append hds rest fun b hb => (hrest b hb).1
  unfold scanHex
  simp only [hsign, hprefix, htake, hdrop]
  rw [if_neg (fun h => hne h.1), if_pos hfit]
  rfl

/-- A number is read up to the first byte that is no digit. -/
theorem sscanf_hex {bits : ℕ} {ds rest : List UInt8} (format : List Directive) (hne : ds ≠ [])
    (hds : ∀ d ∈ ds, isHexDigit d = true) (hfit : hexValue ds < 2 ^ bits) (hbits : bits ≤ 64)
    (hrest : ∀ b ∈ rest.head?, isHexDigit b = false ∧ b ≠ 120 ∧ b ≠ 88) :
    sscanf (.hex bits :: format) (ds ++ rest) = .number (hexValue ds) :: sscanf format rest := by
  have hfit64 : hexValue ds < 2 ^ 64 :=
    lt_of_lt_of_le hfit (Nat.pow_le_pow_right (by decide) hbits)
  rw [sscanf, scanHex_append hne hds hfit64 hrest]
  show Scanned.number (hexValue ds % 2 ^ bits) :: sscanf format rest = _
  rw [Nat.mod_eq_of_lt hfit]

/-- **A field is read up to its separator**, if the width is enough. -/
theorem sscanf_untilStop {width : ℕ} {stop : UInt8} {s rest : List UInt8}
    (format : List Directive) (hne : s ≠ []) (hlen : s.length ≤ width) (hstop : stop ∉ s) :
    sscanf (.untilStop width stop :: format) (s ++ stop :: rest) =
      .text s :: sscanf format (stop :: rest) := by
  have htake : ((s ++ stop :: rest).take width).takeWhile (· ≠ stop) = s := by
    rw [List.take_append, List.take_of_length_le hlen]
    refine (takeWhile_dropWhile_append (fun b hb => ?_) _ fun b hb => ?_).1
    · exact decide_eq_true fun heq => hstop (heq ▸ hb)
    · cases hw : width - s.length with
      | zero =>
        rw [hw] at hb
        cases hb
      | succ n =>
        rw [hw] at hb
        exact decide_eq_false (not_not.mpr (Option.some.inj hb).symm)
  rw [sscanf]
  simp only [htake, if_neg hne, List.drop_left]

end Recorder.Lib
