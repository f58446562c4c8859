import Mathlib.Algebra.GroupWithZero.Nat
import Mathlib.Tactic.Common

/-!
# Decimal numbers in C texts

`decimal` prints a number as `%llu` does and `strtoull` reads one from the start of a text,
with the blanks and the sign that C allows. What was printed is read back, and reading stops
behind it (`strtoull_decimal_append`). `strtoull_eq_iff` says which texts have a number in
front and what is read of them. `strtol` reads back what `%d` prints (`strtol_signedDecimal`).
-/

set_option autoImplicit false

namespace Recorder.Lib

/-- The digits of a number as ASCII bytes. -/
def decimal (n : ℕ) : List UInt8 := (Nat.toDigits 10 n).map fun c => UInt8.ofNat c.toNat

/-- `isspace` in the C locale. -/
def isSpace (b : UInt8) : Bool := b == 32 || (9 ≤ b && b ≤ 13)

/-- `isdigit`. -/
def isDigit (b : UInt8) : Bool := 48 ≤ b && b ≤ 57

/-- The sign in front of a number, and what follows it. -/
def readSign : List UInt8 → Bool × List UInt8
  | [] => (false, [])
  | b :: rest =>
    if b = 45 then (true, rest) else if b = 43 then (false, rest) else (false, b :: rest)

/-- The value of a list of digits. -/
def digitsValue (ds : List UInt8) : ℕ := ds.foldl (fun v d => 10 * v + (d.toNat - 48)) 0

/-- `strtoull` with base 10: the value and what is left of the text. The value is missing
where `errno` is set to `ERANGE`; without digits nothing is read. -/
def strtoull (text : List UInt8) : Option ℕ × List UInt8 :=
  match readSign (text.dropWhile isSpace) with
  | (negative, t) =>
    let ds := t.takeWhile isDigit
    if ds = [] then (some 0, text)
    else if digitsValue ds < 2 ^ 64 then
      (some (if negative then (2 ^ 64 - digitsValue ds) % 2 ^ 64 else digitsValue ds),
        t.dropWhile isDigit)
    else (none, t.dropWhile isDigit)

/-- `strtol` with base 10 and a `long` of 64 bits. -/
def strtol (text : List UInt8) : Option ℤ × List UInt8 :=
  match readSign (text.dropWhile isSpace) with
  | (negative, t) =>
    let ds := t.takeWhile isDigit
    if ds = [] then (some 0, text)
    else if negative then
      (if digitsValue ds ≤ 2 ^ 63 then some (-(digitsValue ds : ℤ)) else none, t.dropWhile isDigit)
    else (if digitsValue ds < 2 ^ 63 then some (digitsValue ds : ℤ) else none, t.dropWhile isDigit)

/-- The text of an integer, as `%d` prints it. -/
def signedDecimal (v : ℤ) : List UInt8 :=
  if v < 0 then 45 :: decimal v.natAbs else decimal v.natAbs

/-- A printed digit keeps its code. -/
theorem toNat_ofNat_digit {n : ℕ} {c : Char} (hc : c ∈ Nat.toDigits 10 n) :
    (UInt8.ofNat c.toNat).toNat = c.toNat ∧ 48 ≤ c.toNat ∧ c.toNat ≤ 57 := by
  have hdigit := Nat.isDigit_of_mem_toDigits (by decide) (by decide) hc
  rw [Char.isDigit, Bool.and_eq_true, decide_eq_true_eq, decide_eq_true_eq, ge_iff_le,
    UInt32.le_iff_toNat_le, UInt32.le_iff_toNat_le] at hdigit
  refine ⟨?_, hdigit⟩
  rw [UInt8.toNat_ofNat']
  have hle : c.toNat ≤ 57 := hdigit.2
  omega

theorem isDigit_of_mem_decimal {n : ℕ} {b : UInt8} (h : b ∈ decimal n) : isDigit b = true := by
  obtain ⟨c, hc, rfl⟩ := List.mem_map.mp h
  obtain ⟨hval, hdigit⟩ := toNat_ofNat_digit hc
  simp only [isDigit, Bool.and_eq_true, decide_eq_true_eq, UInt8.le_iff_toNat_le, hval]
  exact hdigit

theorem digitsValue_decimal (n : ℕ) : digitsValue (decimal n) = n := by
  have hchars : ∀ (cs : List Char) (v : ℕ), (∀ c ∈ cs, (UInt8.ofNat c.toNat).toNat = c.toNat) →
      (cs.map fun c => UInt8.ofNat c.toNat).foldl (fun v d => 10 * v + (d.toNat - 48)) v =
        Nat.ofDigitChars 10 cs v := by
    intro cs
    induction cs with
    | nil => exact fun v _ => Nat.ofDigitChars_nil.symm
    | cons c cs ih =>
      intro v h
      obtain ⟨hc, hcs⟩ := List.forall_mem_cons.mp h
      rw [List.map_cons, List.foldl_cons, Nat.ofDigitChars_cons, hc]
      exact ih _ hcs
  rw [digitsValue, decimal, hchars _ 0 fun c hc => (toNat_ofNat_digit hc).1,
    Nat.ofDigitChars_ten_toDigits]

/-- A number of `k` digits is below 10^k. -/
theorem digitsValue_lt {ds : List UInt8} (hds : ∀ d ∈ ds, isDigit d = true) :
    digitsValue ds < 10 ^ ds.length := by
  have hfold : ∀ (ds : List UInt8) (v : ℕ), (∀ d ∈ ds, isDigit d = true) →
      ds.foldl (fun v d => 10 * v + (d.toNat - 48)) v < (v + 1) * 10 ^ ds.length := by
    intro ds
    induction ds with
    | nil =>
      intro v _
      simp
    | cons d ds ih =>
      intro v h
      obtain ⟨hd, hrest⟩ := List.forall_mem_cons.mp h
      have hle : d.toNat ≤ 57 := by
        simp only [isDigit, Bool.and_eq_true, decide_eq_true_eq, UInt8.le_iff_toNat_le] at hd
        exact hd.2
      rw [List.foldl_cons, List.length_cons, Nat.pow_succ']
      calc ds.foldl (fun v d => 10 * v + (d.toNat - 48)) (10 * v + (d.toNat - 48))
          < (10 * v + (d.toNat - 48) + 1) * 10 ^ ds.length := ih _ hrest
        _ ≤ ((v + 1) * 10) * 10 ^ ds.length := Nat.mul_le_mul_right _ (by omega)
        _ = (v + 1) * (10 * 10 ^ ds.length) := Nat.mul_assoc _ _ _
  simpa [digitsValue] using hfold ds 0 hds

theorem decimal_ne_nil (n : ℕ) : decimal n ≠ [] := by
  simp [decimal, Nat.toDigits_ne_nil]

theorem takeWhile_dropWhile_append {α : Type} {p : α → Bool} {ds : List α}
    (hds : ∀ d ∈ ds, p d = true) (rest : List α) (hrest : ∀ b ∈ rest.head?, p b = false) :
    (ds ++ rest).takeWhile p = ds ∧ (ds ++ rest).dropWhile p = rest := by
  have hnone : rest.takeWhile p = [] ∧ rest.dropWhile p = rest := by
    cases rest with
    | nil => exact ⟨rfl, rfl⟩
    | cons b rest =>
      have hb := hrest b rfl
      simp [hb]
  rw [List.takeWhile_append_of_pos hds, List.dropWhile_append_of_pos hds, hnone.1, hnone.2]
  exact ⟨List.append_nil _, rfl⟩

/-- **What was printed is read back**, and reading stops behind it. -/
theorem strtoull_decimal_append {n : ℕ} (hn : n < 2 ^ 64) (rest : List UInt8)
    (hrest : ∀ b ∈ rest.head?, isDigit b = false) :
    strtoull (decimal n ++ rest) = (some n, rest) := by
  obtain ⟨d, ds, hds⟩ := List.exists_cons_of_ne_nil (decimal_ne_nil n)
  have hd : isDigit d = true := isDigit_of_mem_decimal (n := n) (by rw [hds]; simp)
  have hd' : 48 ≤ d.toNat ∧ d.toNat ≤ 57 := by
    simpa [isDigit, UInt8.le_iff_toNat_le] using hd
  -- a digit is neither a blank nor a sign
  have hspace : isSpace d = false := by
    simp only [isSpace, Bool.or_eq_false_iff, beq_eq_false_iff_ne, Bool.and_eq_false_iff,
      decide_eq_false_iff_not, UInt8.le_iff_toNat_le]
    refine ⟨fun h => ?_, .inr fun h => ?_⟩
    · rw [h] at hd'
      exact absurd hd'.1 (by decide)
    · have : d.toNat ≤ 13 := h
      omega
  have hsign : readSign ((decimal n ++ rest).dropWhile isSpace) = (false, decimal n ++ rest) := by
    have hminus : d ≠ 45 := by
      rintro rfl
      exact absurd hd'.1 (by decide)
    have hplus : d ≠ 43 := by
      rintro rfl
      exact absurd hd'.1 (by decide)
    rw [hds, List.cons_append, List.dropWhile_cons_of_neg (by simp [hspace]), readSign,
      if_neg hminus, if_neg hplus]
  obtain ⟨htake, hdrop⟩ := takeWhile_dropWhile_append
    (fun b hb => isDigit_of_mem_decimal (n := n) hb) rest hrest
  unfold strtoull
  simp only [hsign, htake, hdrop, if_neg (decimal_ne_nil n), digitsValue_decimal, if_pos hn]
  rfl

/-! ## What is read -/

/-- The value `strtoull` returns for a number with a sign, in 64 bits. -/
def signedValue (negative : Bool) (n : ℕ) : ℕ := if negative then (2 ^ 64 - n) % 2 ^ 64 else n

/-- The signs in front of a number. -/
inductive Sign : Bool → List UInt8 → Prop
  | none : Sign false []
  | plus : Sign false [43]
  | minus : Sign true [45]

/-- **A number in front of a text**: blanks, at most one sign, all digits that follow. -/
structure NumberAt (text : List UInt8) (negative : Bool) (ds rest : List UInt8) : Prop where
  front : ∃ blanks sign, text = blanks ++ sign ++ ds ++ rest ∧
    (∀ b ∈ blanks, isSpace b = true) ∧ Sign negative sign
  digits : ∀ d ∈ ds, isDigit d = true
  ne_nil : ds ≠ []
  stops : ∀ b ∈ rest.head?, isDigit b = false

theorem isSpace_of_isDigit {b : UInt8} (h : isDigit b = true) : isSpace b = false := by
  simp only [isDigit, Bool.and_eq_true, decide_eq_true_eq, UInt8.le_iff_toNat_le] at h
  have hlow : 48 ≤ b.toNat := h.1
  simp only [isSpace, Bool.or_eq_false_iff, beq_eq_false_iff_ne, Bool.and_eq_false_iff,
    decide_eq_false_iff_not, UInt8.le_iff_toNat_le]
  constructor
  · rintro rfl
    exact absurd hlow (by decide)
  · right
    show ¬ b.toNat ≤ 13
    omega

theorem readSign_of_isDigit {d : UInt8} (h : isDigit d = true) (rest : List UInt8) :
    readSign (d :: rest) = (false, d :: rest) := by
  have hminus : d ≠ 45 := by
    rintro rfl
    exact absurd h (by decide)
  have hplus : d ≠ 43 := by
    rintro rfl
    exact absurd h (by decide)
  rw [readSign, if_neg hminus, if_neg hplus]

/-- A sign is read where digits follow it. -/
theorem Sign.readSign_append {negative : Bool} {sign : List UInt8} (h : Sign negative sign)
    {d : UInt8} (hd : isDigit d = true) (rest : List UInt8) :
    readSign (sign ++ d :: rest) = (negative, d :: rest) := by
  cases h with
  | none => exact readSign_of_isDigit hd rest
  | plus => rfl
  | minus => rfl

theorem sign_of_readSign (t : List UInt8) :
    ∃ sign, Sign (readSign t).1 sign ∧ t = sign ++ (readSign t).2 := by
  cases t with
  | nil => exact ⟨[], Sign.none, rfl⟩
  | cons b rest =>
    rw [readSign]
    split
    · rename_i hb
      exact ⟨[45], Sign.minus, by rw [hb]; rfl⟩
    · split
      · rename_i hb
        exact ⟨[43], Sign.plus, by rw [hb]; rfl⟩
      · exact ⟨[], Sign.none, rfl⟩

/-- **What `strtoull` does with a number**: it is read, unless it is too large. -/
theorem NumberAt.strtoull_eq {text ds rest : List UInt8} {negative : Bool}
    (h : NumberAt text negative ds rest) :
    strtoull text =
      (if digitsValue ds < 2 ^ 64 then some (signedValue negative (digitsValue ds)) else none,
        rest) := by
  obtain ⟨blanks, sign, rfl, hblanks, hsign⟩ := h.front
  obtain ⟨d, ds', hds⟩ := List.exists_cons_of_ne_nil h.ne_nil
  have hd : isDigit d = true := h.digits d (by rw [hds]; exact List.mem_cons_self)
  have hskip : (blanks ++ sign ++ ds ++ rest).dropWhile isSpace = sign ++ (ds ++ rest) := by
    rw [List.append_assoc, List.append_assoc, List.dropWhile_append_of_pos hblanks]
    cases hsign with
    | none => rw [hds, List.nil_append, List.cons_append, List.dropWhile_cons_of_neg (by
        rw [isSpace_of_isDigit hd]
        exact Bool.false_ne_true)]
    | plus => rfl
    | minus => rfl
  have hread : readSign (sign ++ (ds ++ rest)) = (negative, ds ++ rest) := by
    rw [hds, List.cons_append]
    exact hsign.readSign_append hd _
  obtain ⟨htake, hdrop⟩ := takeWhile_dropWhile_append h.digits rest h.stops
  unfold strtoull
  simp only [hskip, hread, htake, hdrop, if_neg h.ne_nil]
  split <;> rfl

/-- A text in which `strtoull` finds a number. -/
theorem numberAt_of_strtoull {text rest : List UInt8} {value : Option ℕ}
    (h : strtoull text = (value, rest)) (hne : rest ≠ text) :
    ∃ negative ds, NumberAt text negative ds rest := by
  unfold strtoull at h
  obtain ⟨sign, hsign, ht⟩ := sign_of_readSign (text.dropWhile isSpace)
  generalize readSign (text.dropWhile isSpace) = r at h hsign ht
  obtain ⟨negative, t⟩ := r
  simp only at h hsign ht
  by_cases hds : t.takeWhile isDigit = []
  · rw [if_pos hds] at h
    exact absurd (congrArg Prod.snd h).symm hne
  · rw [if_neg hds] at h
    have hrest : t.dropWhile isDigit = rest := by
      split at h
      · exact congrArg Prod.snd h
      · exact congrArg Prod.snd h
    refine ⟨negative, t.takeWhile isDigit, ⟨text.takeWhile isSpace, sign, ?_, ?_, hsign⟩, ?_, hds,
      ?_⟩
    · rw [← hrest, List.append_assoc, List.takeWhile_append_dropWhile, List.append_assoc, ← ht,
        List.takeWhile_append_dropWhile]
    · exact fun b hb => List.all_eq_true.mp List.all_takeWhile b hb
    · exact fun d hd => List.all_eq_true.mp List.all_takeWhile d hd
    · intro b hb
      have hhead := List.head?_dropWhile_not isDigit t
      rw [hrest, Option.mem_def.mp hb] at hhead
      simpa using hhead

/-- **Which texts `strtoull` reads a number from**, and what it is. -/
theorem strtoull_eq_iff {text rest : List UInt8} {value : ℕ} :
    strtoull text = (some value, rest) ∧ rest ≠ text ↔
      ∃ negative ds, NumberAt text negative ds rest ∧ digitsValue ds < 2 ^ 64 ∧
        value = signedValue negative (digitsValue ds) := by
  constructor
  · rintro ⟨h, hne⟩
    obtain ⟨negative, ds, hat⟩ := numberAt_of_strtoull h hne
    rw [hat.strtoull_eq, Prod.mk.injEq] at h
    split at h
    · rename_i hlt
      exact ⟨negative, ds, hat, hlt, (Option.some.inj h.1).symm⟩
    · cases h.1
  · rintro ⟨negative, ds, hat, hlt, rfl⟩
    rw [hat.strtoull_eq, if_pos hlt]
    refine ⟨rfl, ?_⟩
    obtain ⟨blanks, sign, htext, -, -⟩ := hat.front
    intro heq
    have hlen := congrArg List.length htext
    have hpos := List.length_pos_iff.mpr hat.ne_nil
    rw [heq] at hlen
    simp only [List.length_append] at hlen
    omega

/-- **A printed integer is read back** by `strtol`. -/
theorem strtol_signedDecimal {v : ℤ} (hlow : -9223372036854775808 ≤ v)
    (hhigh : v < 9223372036854775808) :
    strtol (signedDecimal v) = (some v, []) := by
  obtain ⟨d, ds, hds⟩ := List.exists_cons_of_ne_nil (decimal_ne_nil v.natAbs)
  have hd : isDigit d = true := isDigit_of_mem_decimal (n := v.natAbs) (by simp [hds])
  obtain ⟨htake, hdrop⟩ := takeWhile_dropWhile_append
    (fun b hb => isDigit_of_mem_decimal (n := v.natAbs) hb) [] (by simp)
  rw [List.append_nil] at htake hdrop
  have hread : readSign ((signedDecimal v).dropWhile isSpace) =
      (decide (v < 0), decimal v.natAbs) := by
    unfold signedDecimal
    by_cases hneg : v < 0
    · rw [if_pos hneg, decide_eq_true hneg]
      rfl
    · rw [if_neg hneg, decide_eq_false hneg, hds,
        List.dropWhile_cons_of_neg (by simp [isSpace_of_isDigit hd]), readSign_of_isDigit hd]
  unfold strtol
  simp only [hread, htake, hdrop, if_neg (decimal_ne_nil _), digitsValue_decimal]
  by_cases hneg : v < 0
  · rw [if_pos (decide_eq_true hneg), if_pos (by omega)]
    simp only [Prod.mk.injEq, Option.some.injEq, and_true]
    omega
  · rw [if_neg (by simpa using hneg), if_pos (by omega)]
    simp only [Prod.mk.injEq, Option.some.injEq, and_true]
    omega

end Recorder.Lib
