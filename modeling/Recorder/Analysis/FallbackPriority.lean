import Mathlib.Data.List.TakeWhile
import Recorder.Model.Fallback

/-!
# Severities of the fallback inputs

The number in front of a syslog payload or a kernel record is facility times eight plus
severity, so the priority is the number modulo eight. The two parsers miss that in one place
each. `parse_syslog_payload` overwrites the default before it looks at the range, and keeps the
low bits of a number it then refuses. `receive_kmsg` does not take the facility off: a record
of a facility other than the kernel's gets priority 6.

**Main result**: `fallback_severity_iff`, which says for every payload and every record whether
the severity is the one that was sent.
-/

set_option autoImplicit false

namespace Recorder.Analysis

open Recorder.Model Recorder.Lib

/-- The payload starts with `<`, the digits `ds`, at most 15 of them, and `>`. -/
structure PriPrefix (data ds rest : Bytes) : Prop where
  eq : data = 60 :: (ds ++ 62 :: rest)
  digits : ∀ d ∈ ds, isDigit d = true
  ne_nil : ds ≠ []
  length_le : ds.length ≤ 15

/-- **What a syslog payload should give**: severity and text of a prefix with a facility and
severity that exist, and priority 5 with the whole payload as text otherwise. -/
def SyslogAgrees (data : Bytes) : Prop :=
  ∀ allocOk record,
    (∀ ds rest, PriPrefix data ds rest → digitsValue ds ≤ 191 →
      parseSyslogPayload allocOk record data =
        syslogTag allocOk { record with priority := UInt8.ofNat (digitsValue ds % 8) } rest) ∧
    ((¬ ∃ ds rest, PriPrefix data ds rest ∧ digitsValue ds ≤ 191) →
      parseSyslogPayload allocOk record data = syslogTag allocOk { record with priority := 5 } data)

/-- The payload has a prefix whose number is too large, with low bits other than 5. -/
def OverlargePri (data : Bytes) : Prop :=
  ∃ ds rest, PriPrefix data ds rest ∧ 191 < digitsValue ds ∧ digitsValue ds % 8 ≠ 5

/-- A kernel record `n,...;text`, with the digits of its number. -/
def KmsgRecord (data ds : Bytes) : Prop :=
  ds ≠ [] ∧ (∀ d ∈ ds, isDigit d = true) ∧ ∃ fields text, data = ds ++ 44 :: (fields ++ 59 :: text)

/-- **What a kernel record should give**: the severity of its number. -/
def KmsgAgrees (data : Bytes) : Prop :=
  ∀ ds, KmsgRecord data ds → digitsValue ds ≤ 191 → ∀ allocOk record,
    (receiveKmsg allocOk record (.record data)).2.priority = UInt8.ofNat (digitsValue ds % 8)

/-- The record has a facility other than the kernel's, and a severity other than 6. -/
def FacilityLost (data : Bytes) : Prop :=
  ∃ ds, KmsgRecord data ds ∧ digitsValue ds ≤ 191 ∧ 7 < digitsValue ds ∧ digitsValue ds % 8 ≠ 6

/-! ## Numbers -/

/-- Digits alone are read to their end. -/
theorem strtoul_digits {ds : Bytes} (hne : ds ≠ []) (hds : ∀ d ∈ ds, isDigit d = true)
    (hlt : digitsValue ds < 2 ^ 64) : strtoul ds = (digitsValue ds, []) := by
  have hat : NumberAt ds false ds [] :=
    ⟨⟨[], [], by simp, by simp, Sign.none⟩, hds, hne, by simp⟩
  rw [strtoul, hat.strtoull_eq, if_pos hlt]
  rfl

/-- Two severities are the same byte only if they are the same number. -/
theorem ofNat_mod_eight_eq_iff {m n : ℕ} (hm : m < 8) :
    UInt8.ofNat (n % 8) = UInt8.ofNat m ↔ n % 8 = m := by
  rw [← UInt8.toNat_inj, UInt8.toNat_ofNat', UInt8.toNat_ofNat']
  omega

/-! ## Syslog -/

/-- The scanner finds the digits of a prefix. -/
theorem PriPrefix.syslogPrefix_eq {data ds rest : Bytes} (h : PriPrefix data ds rest) :
    syslogPrefix data = (digitsValue ds, if digitsValue ds ≤ 191 then rest else data) := by
  obtain ⟨rfl, hdigits, hne, hlen⟩ := h
  have hpos := List.length_pos_iff.mpr hne
  have hnumber : (((60 :: (ds ++ 62 :: rest)).drop 1).take (priNumberSize - 1)).takeWhile isDigit =
      ds := by
    show ((ds ++ 62 :: rest).take 15).takeWhile isDigit = ds
    rw [List.take_append, List.take_of_length_le hlen]
    apply (takeWhile_dropWhile_append hdigits _ _).1
    intro b hb
    cases hk : 15 - ds.length with
    | zero =>
      rw [hk] at hb
      cases hb
    | succ k =>
      rw [hk] at hb
      obtain rfl : 62 = b := Option.some.inj hb
      rfl
  have hclose : (60 :: (ds ++ 62 :: rest))[ds.length + 1]? = some 62 := by simp
  have hlt : digitsValue ds < 2 ^ 64 := by
    calc digitsValue ds < 10 ^ ds.length := digitsValue_lt hdigits
      _ ≤ 10 ^ 15 := Nat.pow_le_pow_right (by decide) hlen
      _ < 2 ^ 64 := by decide
  have hrest : (60 :: (ds ++ 62 :: rest)).drop (ds.length + 2) = rest := by simp
  unfold syslogPrefix
  rw [if_pos ⟨by simp; omega, rfl⟩]
  simp only [hnumber, strtoul_digits hne hdigits hlt]
  rw [if_pos ⟨hne, hclose⟩, hrest]
  by_cases hle : digitsValue ds ≤ 191
  · rw [if_pos ⟨trivial, hle⟩, if_pos hle]
  · rw [if_neg fun h => hle h.2, if_neg hle]

/-- Without a prefix the default stays, and the text is the payload. -/
theorem syslogPrefix_of_not_priPrefix {data : Bytes}
    (h : ¬ ∃ ds rest, PriPrefix data ds rest) : syslogPrefix data = (13, data) := by
  unfold syslogPrefix
  split
  · rename_i hopen
    simp only
    split
    · rename_i hclose
      exfalso
      apply h
      have hnonempty : data ≠ [] := by
        rintro rfl
        cases hopen.2
      obtain ⟨b, t, rfl⟩ := List.exists_cons_of_ne_nil hnonempty
      obtain rfl : b = 60 := Option.some.inj hopen.2
      obtain ⟨hne, hbracket⟩ := hclose
      rw [List.drop_one, List.tail_cons] at hne hbracket
      -- the digits are in front of the text behind the bracket
      generalize hds : (t.take (priNumberSize - 1)).takeWhile isDigit = ds at hne hbracket
      have hsyslog : ds <+: t := by
        rw [← hds]
        exact (List.takeWhile_prefix _).trans (List.take_prefix _ _)
      obtain ⟨rest, rfl⟩ := hsyslog
      rw [List.getElem?_cons_succ, List.getElem?_append_right le_rfl, Nat.sub_self] at hbracket
      refine ⟨ds, rest.drop 1, ?_, ?_, hne, ?_⟩
      · cases rest with
        | nil => cases hbracket
        | cons c rest =>
          obtain rfl : c = 62 := Option.some.inj hbracket
          rfl
      · intro d hd
        rw [← hds] at hd
        exact List.all_eq_true.mp List.all_takeWhile d hd
      · rw [← hds]
        exact ((List.takeWhile_prefix _).length_le).trans (List.length_take_le _ _)
    · rfl
  · rfl

/-- The tag has no say in the priority. -/
theorem syslogTag_priority (allocOk : Bool) (record : FallbackRecord) (message : Bytes) :
    (syslogTag allocOk record message).priority = record.priority := by
  have hcopy : ∀ r m, (duplicateMessage allocOk r m).2.priority = r.priority := by
    intro r m
    unfold duplicateMessage
    split <;> rfl
  unfold syslogTag
  simp only
  split
  · exact hcopy _ _
  · exact hcopy _ _

/-- The severity of a payload is right unless its number is too large and happens to have other
low bits than the default. -/
theorem syslogAgrees_iff (data : Bytes) : SyslogAgrees data ↔ ¬ OverlargePri data := by
  constructor
  · rintro hagrees ⟨ds, rest, hsyslog, hlarge, hlow⟩
    have hrefused : ¬ ∃ ds rest, PriPrefix data ds rest ∧ digitsValue ds ≤ 191 := by
      rintro ⟨ds', rest', hsyslog', hle⟩
      have heq := congrArg Prod.fst (hsyslog.syslogPrefix_eq.symm.trans hsyslog'.syslogPrefix_eq)
      simp only at heq
      omega
    have hdefault := congrArg FallbackRecord.priority ((hagrees true {}).2 hrefused)
    rw [parseSyslogPayload, syslogTag_priority, syslogTag_priority, hsyslog.syslogPrefix_eq]
      at hdefault
    exact hlow ((ofNat_mod_eight_eq_iff (m := 5) (by decide)).mp hdefault)
  · intro hsmall allocOk record
    constructor
    · intro ds rest hsyslog hle
      rw [parseSyslogPayload, hsyslog.syslogPrefix_eq, if_pos hle]
    · intro hrefused
      by_cases hsome : ∃ ds rest, PriPrefix data ds rest
      · obtain ⟨ds, rest, hsyslog⟩ := hsome
        have hlarge : ¬ digitsValue ds ≤ 191 := fun hle => hrefused ⟨ds, rest, hsyslog, hle⟩
        have hlow : digitsValue ds % 8 = 5 := by
          by_contra hne
          exact hsmall ⟨ds, rest, hsyslog, by omega, hne⟩
        rw [parseSyslogPayload, hsyslog.syslogPrefix_eq, if_neg hlarge]
        simp only [hlow]
        rfl
      · rw [parseSyslogPayload, syslogPrefix_of_not_priPrefix hsome]
        have hdefault : 13 % 8 = 5 := by decide
        simp only [hdefault]
        rfl

/-! ## Kernel records -/

/-- The number of a kernel record. -/
theorem KmsgRecord.priority_eq {data ds : Bytes} (h : KmsgRecord data ds)
    (hlt : digitsValue ds < 2 ^ 64) : kmsgPriority data = digitsValue ds := by
  obtain ⟨hne, hdigits, fields, text, rfl⟩ := h
  have hfront : (ds ++ 44 :: (fields ++ 59 :: text)).takeWhile (· ≠ 44) = ds := by
    apply (takeWhile_dropWhile_append _ _ _).1
    · intro d hd
      have hdigit := hdigits d hd
      rw [decide_eq_true_eq]
      rintro rfl
      cases hdigit
    · intro b hb
      obtain rfl : 44 = b := Option.some.inj hb
      rfl
  have hcstring : cString ds = ds := by
    rw [cString]
    apply List.takeWhile_eq_self_iff.mpr
    intro d hd
    have hdigit := hdigits d hd
    rw [decide_eq_true_eq]
    rintro rfl
    cases hdigit
  rw [kmsgPriority, if_pos (by simp), hfront, hcstring, strtoul_digits hne hdigits hlt]

/-- The priority `receive_kmsg` stores. -/
theorem KmsgRecord.receiveKmsg_priority {data ds : Bytes} (h : KmsgRecord data ds)
    (hlt : digitsValue ds < 2 ^ 64) (allocOk : Bool) (record : FallbackRecord) :
    (receiveKmsg allocOk record (.record data)).2.priority =
      if digitsValue ds ≤ 7 then UInt8.ofNat (digitsValue ds) else 6 := by
  have hpriority := h.priority_eq hlt
  have hne : data ≠ [] := by
    obtain ⟨-, -, fields, text, rfl⟩ := h
    simp
  obtain ⟨b, rest, rfl⟩ := List.exists_cons_of_ne_nil hne
  unfold receiveKmsg
  simp only [hpriority, duplicateMessage]
  cases allocOk <;> rfl

/-- The severity of a kernel record is right where there is no facility to take off. -/
theorem kmsgAgrees_iff (data : Bytes) : KmsgAgrees data ↔ ¬ FacilityLost data := by
  constructor
  · rintro hagrees ⟨ds, hrecord, hle, hfacility, hlow⟩
    have hpriority := hagrees ds hrecord hle true {}
    rw [hrecord.receiveKmsg_priority (by omega), if_neg (by omega)] at hpriority
    exact hlow ((ofNat_mod_eight_eq_iff (m := 6) (by decide)).mp hpriority.symm)
  · intro hkept ds hrecord hle allocOk record
    rw [hrecord.receiveKmsg_priority (by omega)]
    split
    · rename_i hkernel
      rw [Nat.mod_eq_of_lt (by omega)]
    · rename_i hfacility
      have hlow : digitsValue ds % 8 = 6 := by
        by_contra hne
        exact hkept ⟨ds, hrecord, hle, by omega, hne⟩
      rw [hlow]
      rfl

/-- **When the fallback inputs give the severity that was sent**: a syslog payload unless its
prefix has a number above 191 whose low bits are not those of the default, and a kernel record
unless it has a facility and a severity other than 6.
SOURCE: fallback_source.c:84-188 -/
theorem fallback_severity_iff (data : Bytes) :
    (SyslogAgrees data ↔ ¬ OverlargePri data) ∧ (KmsgAgrees data ↔ ¬ FacilityLost data) :=
  ⟨syslogAgrees_iff data, kmsgAgrees_iff data⟩

/-- `<192>x` gets priority 0 in place of 5, and the kernel record `12,;x` priority 6 in place
of 4. -/
theorem severity_lost :
    ¬ SyslogAgrees [60, 49, 57, 50, 62, 120] ∧ ¬ KmsgAgrees [49, 50, 44, 59, 120] := by
  constructor
  · rw [syslogAgrees_iff, not_not]
    have hdigits : ∀ d ∈ [49, 57, 50], isDigit d = true := List.all_eq_true.mp rfl
    exact ⟨[49, 57, 50], [120], ⟨rfl, hdigits, by decide, by decide⟩, by decide, by decide⟩
  · rw [kmsgAgrees_iff, not_not]
    have hdigits : ∀ d ∈ [49, 50], isDigit d = true := List.all_eq_true.mp rfl
    exact ⟨[49, 50], ⟨by decide, hdigits, [], [120], rfl⟩, by decide, by decide, by decide⟩

end Recorder.Analysis
