import Recorder.Analysis.RetentionStore

/-!
# What a retention pass removes

The running total of a pass is lowered by the size of a removed segment, not by that of its
index. It can therefore stay above the limit of the log when the files that are left are
within it already, and one more segment goes (`retention_removals_justified_iff` says when).
-/

set_option autoImplicit false

namespace Recorder.Analysis

open Recorder.Model Recorder.Lib

section Pass

variable (config : RecorderConfig) (env : RetentionEnv)

/-- The closed segments in the order of removal. -/
def retentionOrder (s : LogStore) : List RetainedFile :=
  retentionSort (collectClosedSegments config env.active s)

theorem retentionLoop_eq (s : LogStore) :
    retentionLoop config env s =
      stateAfter config env (retentionStart config env s) (retentionOrder config env s) := rfl

theorem retentionStart_groupBytes (s : LogStore) :
    (retentionStart config env s).groupBytes =
      collectedGroupBytes (retentionOrder config env s) := by
  funext gi
  exact collectedGroupBytes_perm (exchangeSort_perm removedBefore _).symm gi

/-- The totals behind the loop. -/
theorem retentionLoop_inv (s : LogStore) :
    LoopInv env (retentionOrder config env s) (retentionOrder config env s)
      (retentionStart config env s) (retentionLoop config env s) :=
  stateAfter_inv config env rfl (retentionStart_groupBytes config env s) _ (List.prefix_refl _)

theorem retentionEnforce_removals (s : LogStore) :
    (retentionEnforce config env s).removals = (retentionLoop config env s).removals := by
  unfold retentionEnforce
  simp only
  split
  · next h => exact (List.isEmpty_iff.mp h).symm
  · rfl

variable {config env}

theorem mem_retentionOrder {s : LogStore} {f : RetainedFile}
    (h : f ∈ retentionOrder config env s) : f ∈ closedSegments config env.active s.files := by
  have hmem := (exchangeSort_perm removedBefore _).subset h
  rw [collectClosedSegments_eq] at hmem
  exact List.mem_of_mem_take hmem

variable (config env) in
theorem retentionOrder_paths_nodup (s : LogStore) :
    ((retentionOrder config env s).map (·.path)).Nodup := by
  have hperm := (exchangeSort_perm removedBefore (collectClosedSegments config env.active s)).map
    RetainedFile.path
  refine hperm.symm.nodup ?_
  rw [collectClosedSegments_eq]
  exact (closedSegments_paths_nodup config env.active s).sublist
    ((List.take_sublist _ _).map _)

/-! ## Reasons -/

variable (config env) in
/-- A segment may go for its group: it is too old, or the closed segments of the group are
above its limit. -/
def groupReason (s : LogStore) (f : RetainedFile) : Bool :=
  match groupOfDir config f.dirName with
  | none => false
  | some gi =>
    pastMaxAge env (config.group gi) f.modifiedAt ||
      (decide ((config.group gi).maxBytes ≠ 0) &&
        decide ((config.group gi).maxBytes < closedGroupBytes config env.active s gi))

variable (config) in
/-- A segment may go for the log: the files of the recorder are above its limit. -/
def logReason (s : LogStore) : Bool :=
  decide (config.logMaxBytes ≠ 0) && decide (config.logMaxBytes < ownedBytes s)

/-- Where the loop wants a segment gone, its group is a reason, or the running total is above
the limit of the log. -/
theorem retentionWants_reason {s : LogStore} {passed rest : List RetainedFile}
    {f : RetainedFile} (hsplit : retentionOrder config env s = passed ++ f :: rest)
    (hwants : retentionWants config env
      (stateAfter config env (retentionStart config env s) passed) f = true) :
    (config.logMaxBytes ≠ 0 ∧ config.logMaxBytes <
      (stateAfter config env (retentionStart config env s) passed).total) ∨
    groupReason config env
      (stateAfter config env (retentionStart config env s) passed).store f = true := by
  have hinv := stateAfter_inv config env rfl (retentionStart_groupBytes config env s) passed
    ⟨f :: rest, hsplit.symm⟩
  unfold retentionWants at hwants
  rw [Bool.or_eq_true, Bool.and_eq_true, decide_eq_true_eq, decide_eq_true_eq] at hwants
  refine hwants.imp_right fun h => ?_
  have hclosed := mem_retentionOrder (hsplit ▸ List.mem_append_right passed
    (List.mem_cons_self ..) : f ∈ retentionOrder config env s)
  obtain ⟨g, -, seq, -, -, -, rfl⟩ := mem_closedSegments.mp hclosed
  cases hgroup : (retainedFile config g seq).groupIndex with
  | none =>
    rw [hgroup] at h
    exact absurd h (by simp)
  | some gi =>
    rw [hgroup] at h
    have hdir : groupOfDir config (retainedFile config g seq).dirName = some gi :=
      retainedFile_groupIndex hgroup
    have hle := groupBytes_le_closedGroupBytes
      (retentionOrder_paths_nodup config env s) (fun r hr => mem_retentionOrder hr)
      (hinv.sublist.trans (List.IsPrefix.sublist ⟨_, hsplit.symm⟩)) gi
    have hstore : (stateAfter config env (retentionStart config env s) passed).store =
        eraseAll env s
          (removed (stateAfter config env (retentionStart config env s) passed)) := hinv.store
    rw [← hinv.groupBytes, ← hstore] at hle
    unfold groupReason
    simp only [Bool.or_eq_true, Bool.and_eq_true, decide_eq_true_eq, hdir] at h ⊢
    rcases h with ⟨hlimit, hover⟩ | hage
    · exact .inr ⟨hlimit, lt_of_lt_of_le hover hle⟩
    · exact .inl hage

/-! ## The pass and its reasons -/

/-- **Every removal had a reason** exactly where no segment is in the gap: with the segments
in front of it removed, the total is above the limit by their sizes alone, while it is within
the limit as soon as their indexes are taken off too, and its group is no reason. -/
theorem retention_removals_justified_iff (config : RecorderConfig) (env : RetentionEnv)
    (s : LogStore) :
    (∀ r ∈ (retentionEnforce config env s).removals,
      groupReason config env r.2 r.1 = true ∨ logReason config r.2 = true) ↔
    ∀ passed f rest, retentionOrder config env s = passed ++ f :: rest →
      env.unlinkOk f.path = true → config.logMaxBytes ≠ 0 →
      config.logMaxBytes < countStoreBytes s - retainedBytes (removable env passed) →
      ownedBytes (eraseAll env s (removable env passed)) ≤ config.logMaxBytes →
      groupReason config env (eraseAll env s (removable env passed)) f = true := by
  rw [retentionEnforce_removals, retentionLoop_eq]
  have hgroups := retentionStart_groupBytes config env s
  -- above the limit the loop stands behind the removal of everything in front
  have hover : ∀ passed f rest, retentionOrder config env s = passed ++ f :: rest →
      config.logMaxBytes ≠ 0 →
      config.logMaxBytes <
          (stateAfter config env (retentionStart config env s) passed).total ∨
        config.logMaxBytes < countStoreBytes s - retainedBytes (removable env passed) →
      (stateAfter config env (retentionStart config env s) passed).store =
          eraseAll env s (removable env passed) ∧
        (stateAfter config env (retentionStart config env s) passed).total =
          countStoreBytes s - retainedBytes (removable env passed) := by
    intro passed f rest hsplit hlimit hover
    have hprefix : passed <+: retentionOrder config env s := ⟨f :: rest, hsplit.symm⟩
    have hinv := stateAfter_inv config env rfl hgroups passed hprefix
    have hremoved := removed_of_total_over rfl hgroups hlimit passed hprefix hover
    rw [hinv.store, hinv.total, hremoved]
    exact ⟨rfl, rfl⟩
  constructor
  · intro hreason passed f rest hsplit hok hlimit htotal howned
    obtain ⟨hstore, heq⟩ := hover passed f rest hsplit hlimit (.inr htotal)
    have hwants : retentionWants config env
        (stateAfter config env (retentionStart config env s) passed) f = true := by
      simp [retentionWants, hlimit, heq, htotal]
    have hmem := (mem_removals_stateAfter rfl (retentionOrder config env s)
      (f, (stateAfter config env (retentionStart config env s) passed).store)).mpr
      ⟨passed, rest, hsplit, hok, hwants, rfl⟩
    rw [← hstore]
    refine (hreason _ hmem).resolve_right ?_
    simp [logReason, hstore, howned]
  · intro hgap r hr
    obtain ⟨passed, rest, hsplit, hok, hwants, hstore⟩ :=
      (mem_removals_stateAfter rfl (retentionOrder config env s) r).mp hr
    rw [hstore]
    rcases retentionWants_reason hsplit hwants with ⟨hlimit, htotal⟩ | hgroup
    · obtain ⟨heq, htotals⟩ := hover passed r.1 rest hsplit hlimit (.inl htotal)
      rw [htotals] at htotal
      rw [heq]
      by_cases howned : ownedBytes (eraseAll env s (removable env passed)) ≤ config.logMaxBytes
      · exact .inl (hgap passed r.1 rest hsplit hok hlimit htotal howned)
      · refine .inr ?_
        simp [logReason, hlimit, Nat.lt_of_not_le howned]
    · exact .inl hgroup

/-- A group `a` without limits of its own, and a limit for the log. -/
def limitedLog (logMaxBytes : ℕ) : RecorderConfig where
  groups := [{ name := [97] }]
  priorityToGroup _ := 0
  logMaxBytes := logMaxBytes
  priorityToGroup_lt _ := Nat.zero_lt_one
  names_nodup := by simp

/-- A segment of group `a`. -/
def groupSegment (seq : UInt64) (size : ℕ) : LogFile :=
  ⟨[97], segmentName seq, size, 0,
    some ⟨⟨0, seq, 0, zeroPad bootIdSize [98], zeroPad (timezoneSize - 1) [85], 1, 1, 0⟩,
      {}, size, []⟩⟩

/-- The index of a segment of group `a`. -/
def groupIndexFile (seq : UInt64) (size : ℕ) : LogFile := ⟨[97], indexName seq, size, 0, none⟩

/-- A member of an object in `state/boots`: a line break, the name and the value. -/
def bootsMember (name value : Bytes) : Bytes :=
  [10, 32, 32, 32, 32, 34] ++ name ++ [34, 58, 32] ++ value

/-- The object of a boot, as `json_dumps` indents it; for ids without special characters. -/
def bootsObject (b : BootEntry) : Bytes :=
  [10, 32, 32, 123] ++
    -- `boot_id`, `boot_seq` and `first_realtime_ts`
    bootsMember [98, 111, 111, 116, 95, 105, 100] ([34] ++ b.id ++ [34]) ++ [44] ++
    bootsMember [98, 111, 111, 116, 95, 115, 101, 113] (decimal b.seq.toNat) ++ [44] ++
    bootsMember [102, 105, 114, 115, 116, 95, 114, 101, 97, 108, 116, 105, 109, 101, 95, 116, 115]
      (decimal b.firstRealtimeTs.toNat) ++
    -- `last_realtime_ts_on_clean_shutdown`
    (if b.lastCleanRealtimeTs = 0 then []
    else [44] ++ bootsMember
      ([108, 97, 115, 116, 95, 114, 101, 97, 108, 116, 105, 109] ++
        [101, 95, 116, 115, 95, 111, 110, 95, 99, 108, 101] ++
        [97, 110, 95, 115, 104, 117, 116, 100, 111, 119, 110])
      (decimal b.lastCleanRealtimeTs.toNat)) ++
    [10, 32, 32, 125]

/-- The text of `state/boots`. -/
def plainBootsText (boots : List BootEntry) : Bytes :=
  if boots = [] then [91, 93]
  else [91] ++ ((boots.map bootsObject).intersperse [44]).flatten ++ [10, 93]

/-- Every `unlink` succeeds and no segment is open. -/
def quietEnv : RetentionEnv where
  now := 10
  active := []
  unlinkOk _ := true
  dumpBoots boots := some (plainBootsText boots)
  bootsWritten := true

/-- Two segments of 200 bytes, the first with an index of 100 bytes. -/
def indexedPair : LogStore where
  files := [groupSegment 1 200, groupIndexFile 1 100, groupSegment 2 200]
  paths_nodup := by decide +kernel

/-- With a limit of 250 bytes the second segment goes too, when only its own 200 bytes are
left. -/
theorem indexedPair_overdeletes :
    ∃ r ∈ (retentionEnforce (limitedLog 250) quietEnv indexedPair).removals,
      ¬ (groupReason (limitedLog 250) quietEnv r.2 r.1 = true ∨
        logReason (limitedLog 250) r.2 = true) := by
  decide +kernel

end Pass

end Recorder.Analysis
