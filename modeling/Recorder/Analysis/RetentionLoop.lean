import Mathlib.Algebra.Order.BigOperators.Group.List
import Mathlib.Algebra.Order.Group.Nat
import Mathlib.Data.List.Induction
import Recorder.Model.Retention

/-!
# The loop of a retention pass

The totals of the loop are those of its start less what was removed (`LoopInv`). While one
of them is above its limit, the loop has removed whatever it could so far. Both limits can
therefore be decided without running the loop: a segment is removed for the log exactly
where the total less everything in front of it is above the limit, and for its group exactly
where the group's segments from it on are (`retentionWants_iff`).
-/

set_option autoImplicit false

namespace Recorder.Analysis

open Recorder.Model Recorder.Lib

/-! ## Sums -/

/-- The bytes of a list of collected files. -/
def retainedBytes (files : List RetainedFile) : ℕ := (files.map (·.size)).sum

/-- No files have no bytes. -/
@[simp] theorem retainedBytes_nil : retainedBytes [] = 0 := rfl

/-- The bytes of two lists of files. -/
@[simp] theorem retainedBytes_append (a b : List RetainedFile) :
    retainedBytes (a ++ b) = retainedBytes a + retainedBytes b := by
  simp [retainedBytes]

/-- The bytes of one file. -/
@[simp] theorem retainedBytes_singleton (f : RetainedFile) : retainedBytes [f] = f.size := by
  simp [retainedBytes]

/-- Fewer files have fewer bytes. -/
theorem retainedBytes_le_of_sublist {a b : List RetainedFile} (h : a.Sublist b) :
    retainedBytes a ≤ retainedBytes b :=
  (h.map _).sum_le_sum (fun _ _ => Nat.zero_le _)

/-- No files have no bytes of a group. -/
@[simp] theorem collectedGroupBytes_nil (gi : ℕ) : collectedGroupBytes [] gi = 0 := rfl

/-- The bytes of a group are those of its files. -/
theorem collectedGroupBytes_eq (files : List RetainedFile) (gi : ℕ) :
    collectedGroupBytes files gi =
      retainedBytes (files.filter fun f => f.groupIndex = some gi) := rfl

/-- The bytes of a group in two lists of files. -/
@[simp] theorem collectedGroupBytes_append (a b : List RetainedFile) (gi : ℕ) :
    collectedGroupBytes (a ++ b) gi = collectedGroupBytes a gi + collectedGroupBytes b gi := by
  simp [collectedGroupBytes_eq]

/-- One file counts for its own group. -/
theorem collectedGroupBytes_singleton (f : RetainedFile) (gi : ℕ) :
    collectedGroupBytes [f] gi = if f.groupIndex = some gi then f.size else 0 := by
  by_cases h : f.groupIndex = some gi
  · simp [collectedGroupBytes_eq, h]
  · simp [collectedGroupBytes_eq, h]

/-- Fewer files have fewer bytes of a group. -/
theorem collectedGroupBytes_le_of_sublist {a b : List RetainedFile} (h : a.Sublist b) (gi : ℕ) :
    collectedGroupBytes a gi ≤ collectedGroupBytes b gi :=
  retainedBytes_le_of_sublist (h.filter _)

/-- The order of the files does not count. -/
theorem collectedGroupBytes_perm {a b : List RetainedFile} (h : a.Perm b) (gi : ℕ) :
    collectedGroupBytes a gi = collectedGroupBytes b gi :=
  ((h.filter _).map _).sum_nat

/-! ## One turn -/

section Loop

variable (config : RecorderConfig) (env : RetentionEnv)

/-- The segments removed so far. -/
def removed (st : RetentionState) : List RetainedFile := st.removals.map (·.1)

/-- The store without a list of segments and their indexes. -/
def eraseAll (s : LogStore) (files : List RetainedFile) : LogStore :=
  files.foldl (eraseSegment env) s

/-- Of a list of files, those that `unlink` can remove. -/
def removable (files : List RetainedFile) : List RetainedFile :=
  files.filter fun f => env.unlinkOk f.path

/-- What a turn does: nothing, or it removes the segment it is at. -/
theorem retentionStep_cases (st : RetentionState) (f : RetainedFile) :
    (retentionStep config env st f = st ∧
      (retentionWants config env st f = false ∨ env.unlinkOk f.path = false)) ∨
    (retentionWants config env st f = true ∧ env.unlinkOk f.path = true ∧
      retentionStep config env st f = retentionRemoveFile env st f ∧
      (retentionStep config env st f).removals = st.removals ++ [(f, st.store)] ∧
      (retentionStep config env st f).store = eraseSegment env st.store f ∧
      (retentionStep config env st f).total = st.total - f.size) := by
  unfold retentionStep
  cases hwants : retentionWants config env st f with
  | false => exact .inl ⟨if_neg (by simp), .inl rfl⟩
  | true =>
    rw [if_pos rfl]
    unfold retentionRemoveFile
    cases hok : env.unlinkOk f.path with
    | false => exact .inl ⟨if_neg (by simp), .inr rfl⟩
    | true =>
      refine .inr ⟨rfl, rfl, rfl, rfl, rfl, ?_⟩
      rw [if_pos rfl]
      simp only
      split
      · rfl
      · omega

/-- The bytes of the groups behind the removal of a segment that counts for its group. -/
theorem retentionRemoveFile_groupBytes {st : RetentionState} {f : RetainedFile}
    (hok : env.unlinkOk f.path = true)
    (hcounts : ∀ gi, f.groupIndex = some gi → f.size ≤ st.groupBytes gi) (gi : ℕ) :
    (retentionRemoveFile env st f).groupBytes gi =
      st.groupBytes gi - collectedGroupBytes [f] gi := by
  rw [collectedGroupBytes_singleton]
  unfold retentionRemoveFile
  rw [if_pos hok]
  cases hgroup : f.groupIndex with
  | none => simp
  | some g =>
    simp only [ge_iff_le, hcounts g hgroup, if_true, Option.some_inj]
    by_cases hg : g = gi
    · rw [hg, Function.update_self, if_pos rfl]
    · rw [Function.update_of_ne (Ne.symm hg), if_neg hg, Nat.sub_zero]

/-! ## Any number of turns -/

/-- Where the loop stands behind the files `passed` of `files`: its totals are those of the
start less what was removed. -/
structure LoopInv (files passed : List RetainedFile) (start st : RetentionState) : Prop where
  sublist : (removed st).Sublist passed
  store : st.store = eraseAll env start.store (removed st)
  total : st.total = start.total - retainedBytes (removed st)
  groupBytes : ∀ gi,
    st.groupBytes gi = collectedGroupBytes files gi - collectedGroupBytes (removed st) gi

variable {config env}

/-- **A turn keeps the totals right.** -/
theorem retentionStep_inv {files passed rest : List RetainedFile} {f : RetainedFile}
    {start st : RetentionState} (hfiles : files = passed ++ f :: rest)
    (hinv : LoopInv env files passed start st) :
    LoopInv env files (passed ++ [f]) start (retentionStep config env st f) := by
  rcases retentionStep_cases config env st f with
    ⟨hsame, -⟩ | ⟨-, hok, hstep, hremovals, hstore, htotal⟩
  · rw [hsame]
    exact { hinv with sublist := hinv.sublist.trans (List.sublist_append_left _ _) }
  · have hremoved : removed (retentionStep config env st f) = removed st ++ [f] := by
      simp [removed, hremovals]
    have hsub : (removed st ++ [f]).Sublist files := by
      rw [hfiles]
      exact hinv.sublist.append (List.Sublist.cons_cons _ (List.nil_sublist _))
    constructor
    · rw [hremoved]
      exact hinv.sublist.append (List.Sublist.refl _)
    · rw [hstore, hremoved, hinv.store]
      simp [eraseAll]
    · rw [htotal, hremoved, hinv.total]
      simp only [retainedBytes_append, retainedBytes_singleton]
      omega
    · intro gi
      have hcounts : ∀ g, f.groupIndex = some g → f.size ≤ st.groupBytes g := by
        intro g hg
        have hle := collectedGroupBytes_le_of_sublist hsub g
        rw [collectedGroupBytes_append, collectedGroupBytes_singleton, if_pos hg] at hle
        rw [hinv.groupBytes]
        omega
      rw [hstep, retentionRemoveFile_groupBytes env hok hcounts, ← hstep, hremoved,
        hinv.groupBytes, collectedGroupBytes_append]
      omega

/-- The state behind some of the files. -/
def stateAfter (config : RecorderConfig) (env : RetentionEnv) (start : RetentionState)
    (passed : List RetainedFile) : RetentionState :=
  passed.foldl (retentionStep config env) start

/-- The state behind one more file. -/
theorem stateAfter_concat (start : RetentionState) (passed : List RetainedFile)
    (f : RetainedFile) :
    stateAfter config env start (passed ++ [f]) =
      retentionStep config env (stateAfter config env start passed) f := by
  simp [stateAfter]

variable (config env) in
/-- The totals are right behind any number of turns. -/
theorem stateAfter_inv {files : List RetainedFile} {start : RetentionState}
    (hstart : start.removals = [])
    (hgroups : start.groupBytes = collectedGroupBytes files) (passed : List RetainedFile)
    (hpassed : passed <+: files) :
    LoopInv env files passed start (stateAfter config env start passed) := by
  induction passed using List.reverseRecOn with
  | nil =>
    have hnone : removed start = [] := by simp [removed, hstart]
    exact ⟨by simp [stateAfter, hnone], by simp [stateAfter, hnone, eraseAll],
      by simp [stateAfter, hnone], by simp [stateAfter, hnone, hgroups]⟩
  | append_singleton passed f ih =>
    obtain ⟨rest, hrest⟩ := hpassed
    have hfiles : files = passed ++ f :: rest := by
      rw [← hrest, List.append_assoc, List.singleton_append]
    rw [stateAfter_concat]
    exact retentionStep_inv hfiles (ih ⟨f :: rest, hfiles.symm⟩)

/-- The removals behind any number of turns, each with the store in front of it. -/
theorem mem_removals_stateAfter {start : RetentionState} (hstart : start.removals = [])
    (files : List RetainedFile) (r : RetainedFile × LogStore) :
    r ∈ (stateAfter config env start files).removals ↔
      ∃ passed rest, files = passed ++ r.1 :: rest ∧ env.unlinkOk r.1.path = true ∧
        retentionWants config env (stateAfter config env start passed) r.1 = true ∧
        r.2 = (stateAfter config env start passed).store := by
  induction files using List.reverseRecOn with
  | nil =>
    simp [stateAfter, hstart]
  | append_singleton files f ih =>
    -- a split of the longer list is at its last file or splits the shorter one
    have hsplit : ∀ passed rest, files ++ [f] = passed ++ r.1 :: rest →
        (rest = [] ∧ passed = files ∧ r.1 = f) ∨
          ∃ rest', rest = rest' ++ [f] ∧ files = passed ++ r.1 :: rest' := by
      intro passed rest h
      rcases List.eq_nil_or_concat rest with rfl | ⟨rest', g, rfl⟩
      · obtain ⟨h1, h2⟩ := List.append_inj' h rfl
        exact .inl ⟨rfl, h1.symm, (List.singleton_inj.mp h2).symm⟩
      · rw [List.concat_eq_append, ← List.cons_append, ← List.append_assoc] at h
        obtain ⟨h1, h2⟩ := List.append_inj' h rfl
        rw [List.singleton_inj.mp h2]
        exact .inr ⟨rest', by simp, h1⟩
    rw [stateAfter_concat]
    rcases retentionStep_cases config env (stateAfter config env start files) f with
      ⟨hsame, hno⟩ | ⟨hwants, hok, -, hremovals, -, -⟩
    · rw [hsame, ih]
      constructor
      · rintro ⟨passed, rest, rfl, h⟩
        exact ⟨passed, rest ++ [f], by simp, h⟩
      · rintro ⟨passed, rest, heq, hok, hwants, hstore⟩
        rcases hsplit passed rest heq with ⟨-, rfl, hf⟩ | ⟨rest', -, hfiles⟩
        · rw [hf] at hok hwants
          rcases hno with hno | hno
          · exact absurd (hno.symm.trans hwants) (by simp)
          · exact absurd (hno.symm.trans hok) (by simp)
        · exact ⟨passed, rest', hfiles, hok, hwants, hstore⟩
    · rw [hremovals, List.mem_append, List.mem_singleton, ih]
      constructor
      · rintro (⟨passed, rest, rfl, h⟩ | rfl)
        · exact ⟨passed, rest ++ [f], by simp, h⟩
        · exact ⟨files, [], rfl, hok, hwants, rfl⟩
      · rintro ⟨passed, rest, heq, h⟩
        rcases hsplit passed rest heq with ⟨-, rfl, hf⟩ | ⟨rest', -, hfiles⟩
        · refine .inr (Prod.ext hf ?_)
          exact h.2.2
        · exact .inl ⟨passed, rest', hfiles, h⟩

/-! ## Above a limit -/

/-- What can be unlinked of two lists of files. -/
theorem removable_append (a b : List RetainedFile) :
    removable env (a ++ b) = removable env a ++ removable env b := by
  simp [removable]

/-- Everything can be unlinked if every unlink succeeds. -/
theorem removable_eq_self {files : List RetainedFile}
    (hok : ∀ f ∈ files, env.unlinkOk f.path = true) : removable env files = files :=
  List.filter_eq_self.mpr hok

variable (config env) in
/-- What a turn adds to the removed segments. -/
theorem removed_step (st : RetentionState) (f : RetainedFile) :
    removed (retentionStep config env st f) =
      removed st ++ if retentionWants config env st f then removable env [f] else [] := by
  rcases retentionStep_cases config env st f with
    ⟨hsame, hno | hno⟩ | ⟨hwants, hok, -, hremovals, -, -⟩
  · simp [hsame, hno]
  · simp [hsame, removable, hno]
  · simp [removed, hremovals, hwants, removable, hok]

variable {files : List RetainedFile} {start : RetentionState}

/-- While the total is above the limit of the log, everything that can be removed is. -/
theorem removed_of_total_over (hstart : start.removals = [])
    (hgroups : start.groupBytes = collectedGroupBytes files)
    (hlimit : config.logMaxBytes ≠ 0) (passed : List RetainedFile) (hpassed : passed <+: files)
    (hover : config.logMaxBytes < (stateAfter config env start passed).total ∨
      config.logMaxBytes < start.total - retainedBytes (removable env passed)) :
    removed (stateAfter config env start passed) = removable env passed := by
  induction passed using List.reverseRecOn with
  | nil => simp [stateAfter, removed, hstart, removable]
  | append_singleton passed f ih =>
    have hpre : passed <+: files := (List.prefix_append passed [f]).trans hpassed
    have hinv := stateAfter_inv config env hstart hgroups passed hpre
    have hinv' := stateAfter_inv config env hstart hgroups _ hpassed
    have hstep := removed_step config env (stateAfter config env start passed) f
    rw [← stateAfter_concat] at hstep
    -- the total was above the limit one turn ago, whichever way it is known to be now
    have hbefore : removed (stateAfter config env start passed) = removable env passed := by
      apply ih hpre
      rcases hover with h | h
      · left
        rw [hinv'.total, hstep, retainedBytes_append] at h
        rw [hinv.total]
        omega
      · right
        rw [removable_append, retainedBytes_append] at h
        omega
    have hwants : retentionWants config env (stateAfter config env start passed) f = true := by
      have htotal : config.logMaxBytes < (stateAfter config env start passed).total := by
        rcases hover with h | h
        · rw [hinv'.total, hstep, retainedBytes_append] at h
          rw [hinv.total]
          omega
        · rw [removable_append, retainedBytes_append] at h
          rw [hinv.total, hbefore]
          omega
      simp [retentionWants, hlimit, htotal]
    rw [hstep, hbefore, if_pos hwants, removable_append]

/-- While a group is above its limit, everything of it that can be removed is. -/
theorem removed_of_group_over (hstart : start.removals = [])
    (hgroups : start.groupBytes = collectedGroupBytes files) {gi : ℕ}
    (hlimit : (config.group gi).maxBytes ≠ 0) (passed : List RetainedFile)
    (hpassed : passed <+: files)
    (hover : (config.group gi).maxBytes < (stateAfter config env start passed).groupBytes gi) :
    collectedGroupBytes (removed (stateAfter config env start passed)) gi =
      collectedGroupBytes (removable env passed) gi := by
  induction passed using List.reverseRecOn with
  | nil => simp [stateAfter, removed, hstart, removable]
  | append_singleton passed f ih =>
    have hpre : passed <+: files := (List.prefix_append passed [f]).trans hpassed
    have hinv := stateAfter_inv config env hstart hgroups passed hpre
    have hinv' := stateAfter_inv config env hstart hgroups _ hpassed
    have hstep := removed_step config env (stateAfter config env start passed) f
    rw [← stateAfter_concat] at hstep
    have hbefore : (config.group gi).maxBytes <
        (stateAfter config env start passed).groupBytes gi := by
      rw [hinv'.groupBytes, hstep, collectedGroupBytes_append] at hover
      rw [hinv.groupBytes]
      omega
    rw [hstep, removable_append, collectedGroupBytes_append, collectedGroupBytes_append,
      ih hpre hbefore]
    congr 1
    by_cases hgroup : f.groupIndex = some gi
    · have hwants : retentionWants config env (stateAfter config env start passed) f = true := by
        simp [retentionWants, hgroup, hlimit, hbefore]
      rw [if_pos hwants]
    · -- the file is of another group
      have hzero : collectedGroupBytes (removable env [f]) gi = 0 := by
        refine Nat.le_zero.mp (le_trans
          (collectedGroupBytes_le_of_sublist (List.filter_sublist (l := [f])) gi) ?_)
        rw [collectedGroupBytes_singleton, if_neg hgroup]
      split
      · rfl
      · rw [hzero, collectedGroupBytes_nil]

/-! ## Which segments are removed -/

/-- A segment is out of the limits: with everything in front of it gone the log is still too
large, or its group from it on is, or it is too old. -/
def outOfLimits (config : RecorderConfig) (env : RetentionEnv) (total : ℕ)
    (passed : List RetainedFile) (f : RetainedFile) (rest : List RetainedFile) : Bool :=
  (decide (config.logMaxBytes ≠ 0) &&
    decide (config.logMaxBytes < total - retainedBytes passed)) ||
    match f.groupIndex with
    | none => false
    | some gi =>
      (decide ((config.group gi).maxBytes ≠ 0) &&
        decide ((config.group gi).maxBytes < collectedGroupBytes (f :: rest) gi)) ||
      pastMaxAge env (config.group gi) f.modifiedAt

/-- A group is above its limit at a segment exactly where its segments from that one on are. -/
theorem groupBytes_over_iff (hstart : start.removals = [])
    (hgroups : start.groupBytes = collectedGroupBytes files)
    (hok : ∀ f ∈ files, env.unlinkOk f.path = true) {passed rest : List RetainedFile}
    {f : RetainedFile} (hfiles : files = passed ++ f :: rest) {gi : ℕ}
    (hlimit : (config.group gi).maxBytes ≠ 0) :
    (config.group gi).maxBytes < (stateAfter config env start passed).groupBytes gi ↔
      (config.group gi).maxBytes < collectedGroupBytes (f :: rest) gi := by
  have hpre : passed <+: files := ⟨f :: rest, hfiles.symm⟩
  have hinv := stateAfter_inv config env hstart hgroups passed hpre
  have hall : removable env passed = passed := by
    apply removable_eq_self
    intro g hg
    apply hok
    rw [hfiles]
    exact List.mem_append_left _ hg
  have hsum : collectedGroupBytes files gi =
      collectedGroupBytes passed gi + collectedGroupBytes (f :: rest) gi := by
    rw [hfiles, collectedGroupBytes_append]
  constructor
  · intro h
    have hremoved := removed_of_group_over hstart hgroups hlimit passed hpre h
    rw [hinv.groupBytes, hremoved, hall] at h
    omega
  · intro h
    have hle := collectedGroupBytes_le_of_sublist hinv.sublist gi
    rw [hinv.groupBytes]
    omega

variable (config env) in
/-- **The loop removes what is out of the limits**, where `unlink` succeeds. -/
theorem retentionWants_iff (hstart : start.removals = [])
    (hgroups : start.groupBytes = collectedGroupBytes files)
    (hok : ∀ f ∈ files, env.unlinkOk f.path = true) {passed rest : List RetainedFile}
    {f : RetainedFile} (hfiles : files = passed ++ f :: rest) :
    retentionWants config env (stateAfter config env start passed) f =
      outOfLimits config env start.total passed f rest := by
  have hpre : passed <+: files := ⟨f :: rest, hfiles.symm⟩
  have hinv := stateAfter_inv config env hstart hgroups passed hpre
  have hall : removable env passed = passed := by
    apply removable_eq_self
    intro g hg
    apply hok
    rw [hfiles]
    exact List.mem_append_left _ hg
  have hsub := hinv.sublist
  have hlog : (config.logMaxBytes ≠ 0 ∧
        config.logMaxBytes < (stateAfter config env start passed).total) ↔
      config.logMaxBytes ≠ 0 ∧ config.logMaxBytes < start.total - retainedBytes passed := by
    refine and_congr_right fun hlimit => ?_
    constructor
    · intro h
      have hremoved := removed_of_total_over hstart hgroups hlimit passed hpre (.inl h)
      rw [hinv.total, hremoved, hall] at h
      exact h
    · intro h
      have hle := retainedBytes_le_of_sublist hsub
      rw [hinv.total]
      omega
  have hgroup : ∀ gi, ((config.group gi).maxBytes ≠ 0 ∧
        (config.group gi).maxBytes < (stateAfter config env start passed).groupBytes gi) ↔
      (config.group gi).maxBytes ≠ 0 ∧
        (config.group gi).maxBytes < collectedGroupBytes (f :: rest) gi := by
    intro gi
    exact and_congr_right fun hlimit => groupBytes_over_iff hstart hgroups hok hfiles hlimit
  rw [Bool.eq_iff_iff]
  unfold retentionWants outOfLimits
  simp only [Bool.or_eq_true, Bool.and_eq_true, decide_eq_true_eq, gt_iff_lt]
  rw [hlog]
  cases f.groupIndex with
  | none => rfl
  | some gi =>
    simp only [Bool.or_eq_true, Bool.and_eq_true, decide_eq_true_eq]
    rw [hgroup gi]

end Loop

end Recorder.Analysis
