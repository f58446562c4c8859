import Recorder.Model.Recorder

/-!
# The numbers of new boots

`boot_registry_get` gives a new boot the length of the table, while the table and the
segment headers hold whatever numbers earlier processes gave. A number in the table is
below its length or was read from a retained header (`SeqsCovered`), so a new boot sorts
behind all others exactly where the table has room and no retained header has a number at
or above its length.
-/

set_option autoImplicit false

namespace Recorder.Analysis

open Recorder.Model

/-! ## `boot_registry_get` -/

/-- What `boot_registry_get` does: the boot is there, or it is added with the length of the
table for a number, or the table is full. -/
theorem bootRegistryGet_cases (r : BootRegistry) (id : Bytes) :
    (∃ i b, r.boots[i]? = some b ∧ b.id = id ∧ bootRegistryGet r id = (r, i)) ∨
    ((∀ b ∈ r.boots, b.id ≠ id) ∧ r.boots.length < maxBoots ∧
      (bootRegistryGet r id).1.boots =
        r.boots ++ [⟨id, UInt32.ofNat r.boots.length, 0, 0⟩] ∧
      (bootRegistryGet r id).2 = r.boots.length) ∨
    ((∀ b ∈ r.boots, b.id ≠ id) ∧ r.boots.length = maxBoots ∧
      bootRegistryGet r id = (r, r.boots.length - 1)) := by
  unfold bootRegistryGet
  cases hfind : r.boots.findIdx? (·.id = id) with
  | some i =>
    obtain ⟨hi, hid, -⟩ := List.findIdx?_eq_some_iff_getElem.mp hfind
    exact .inl ⟨i, r.boots[i], List.getElem?_eq_getElem hi, of_decide_eq_true hid, rfl⟩
  | none =>
    have hnone : ∀ b ∈ r.boots, b.id ≠ id := by
      simpa using List.findIdx?_eq_none_iff.mp hfind
    by_cases hlt : r.boots.length < maxBoots
    · refine .inr (.inl ⟨hnone, hlt, ?_, ?_⟩)
      · simp only [dif_pos hlt]
      · simp only [dif_pos hlt]
    · refine .inr (.inr ⟨hnone, ?_, ?_⟩)
      · exact Nat.le_antisymm r.count_le (Nat.le_of_not_lt hlt)
      · simp only [dif_neg hlt]

/-- A count below the capacity fits its field. -/
theorem toNat_ofNat_count {n : ℕ} (h : n < maxBoots) : (UInt32.ofNat n).toNat = n := by
  rw [UInt32.toNat_ofNat']
  have : maxBoots < 2 ^ 32 := by decide
  omega

/-- The number of a boot that is not in the table. -/
theorem bootRegistrySeq_new {r : BootRegistry} {id : Bytes} (hid : ∀ b ∈ r.boots, b.id ≠ id) :
    (r.boots.length < maxBoots ∧
      ((bootRegistrySeq r (some id)).2).toNat = r.boots.length) ∨
    (r.boots.length = maxBoots ∧ ∃ b ∈ r.boots, (bootRegistrySeq r (some id)).2 = b.seq) := by
  unfold bootRegistrySeq
  rcases bootRegistryGet_cases r id with ⟨i, b, hb, hbid, -⟩ | ⟨-, hlt, hget, hi⟩ | ⟨-, hfull, hget⟩
  · exact absurd hbid (hid b (List.mem_of_getElem? hb))
  · refine .inl ⟨hlt, ?_⟩
    simp only [hget, hi, List.getElem?_concat_length, Option.map_some, Option.getD_some]
    exact toNat_ofNat_count hlt
  · have hlast : r.boots.length - 1 < r.boots.length := by
      rw [hfull]
      decide
    refine .inr ⟨hfull, r.boots[r.boots.length - 1], List.getElem_mem hlast, ?_⟩
    simp only [hget, List.getElem?_eq_getElem hlast, Option.map_some, Option.getD_some]

/-! ## Reachable registries -/

/-- The registries of recorder processes with the headers of the segments in the store:
startup on any set of segments, further boots, further segments, and retention passes,
each of which leaves some of the segments. -/
inductive BootsReachable : BootRegistry → List SegmentHeader → Prop
  | init (state : Option (List BootNode)) (scanned : List SegmentMeta) :
      BootsReachable (recorderInitBoots state scanned) (scanned.map (·.header))
  | extract (r : BootRegistry) (headers : List SegmentHeader) (e : LogEntry) :
      BootsReachable r headers → BootsReachable (extractBoot r e).1 headers
  | openSegment (r : BootRegistry) (headers : List SegmentHeader) (header : SegmentHeader) :
      BootsReachable r headers → BootsReachable r (headers ++ [header])
  | retention (r : BootRegistry) (headers : List SegmentHeader) (scanned : List SegmentMeta) :
      BootsReachable r headers → (∀ o ∈ scanned, o.header ∈ headers) →
      BootsReachable (bootRegistryRebuildFromSegments scanned) (scanned.map (·.header))

/-- Every number in the table is below its length, or is one of a retained header. -/
def SeqsCovered (r : BootRegistry) (headers : List SegmentHeader) : Prop :=
  ∀ b ∈ r.boots, b.seq.toNat < r.boots.length ∨ ∃ h ∈ headers, h.bootSeq = b.seq

/-- `boot_registry_get` keeps the numbers covered. -/
theorem seqsCovered_get {r : BootRegistry} {headers : List SegmentHeader} (id : Bytes)
    (h : SeqsCovered r headers) : SeqsCovered (bootRegistryGet r id).1 headers := by
  rcases bootRegistryGet_cases r id with ⟨i, b, -, -, hget⟩ | ⟨-, hlt, hget, -⟩ | ⟨-, -, hget⟩
  · rw [hget]
    exact h
  · intro b hb
    rw [hget] at hb ⊢
    rw [List.length_append, List.length_singleton]
    rcases List.mem_append.mp hb with hb | hb
    · exact (h b hb).imp_left fun hlt => Nat.lt_succ_of_lt hlt
    · rw [List.mem_singleton.mp hb]
      refine .inl (Nat.lt_succ_of_le (le_of_eq ?_))
      exact toNat_ofNat_count hlt
  · rw [hget]
    exact h

/-- So does a change to a number of a header. -/
theorem seqsCovered_modify {r : BootRegistry} {headers : List SegmentHeader} (i : ℕ)
    {f : BootEntry → BootEntry}
    (hf : ∀ b, (f b).seq = b.seq ∨ ∃ h ∈ headers, h.bootSeq = (f b).seq)
    (h : SeqsCovered r headers) : SeqsCovered (r.modify i f) headers := by
  intro b hb
  obtain ⟨j, hj⟩ := List.mem_iff_getElem?.mp hb
  have hlength : (r.modify i f).boots.length = r.boots.length := List.length_modify ..
  rw [hlength]
  simp only [BootRegistry.modify, List.getElem?_modify] at hj
  obtain ⟨c, hc, rfl⟩ := Option.map_eq_some_iff.mp hj
  have hcovered := h c (List.mem_of_getElem? hc)
  by_cases hij : i = j
  · rw [if_pos hij]
    rcases hf c with hseq | hheader
    · rw [hseq]
      exact hcovered
    · exact .inr hheader
  · rw [if_neg hij]
    exact hcovered

/-- So does one segment of the rebuild. -/
theorem seqsCovered_rebuildStep {r : BootRegistry} {headers : List SegmentHeader}
    {scanned : SegmentMeta} (hmem : scanned.header ∈ headers) (h : SeqsCovered r headers) :
    SeqsCovered (bootRegistryRebuildStep r scanned) headers := by
  unfold bootRegistryRebuildStep
  exact seqsCovered_modify _ (fun b => .inr ⟨_, hmem, rfl⟩) (seqsCovered_get _ h)

/-- A rebuilt table has the numbers of its segments. -/
theorem seqsCovered_rebuild (scanned : List SegmentMeta) :
    SeqsCovered (bootRegistryRebuildFromSegments scanned) (scanned.map (·.header)) := by
  have hfold : ∀ (done : List SegmentMeta) (r : BootRegistry), (∀ o ∈ done, o ∈ scanned) →
      SeqsCovered r (scanned.map (·.header)) →
      SeqsCovered (done.foldl bootRegistryRebuildStep r) (scanned.map (·.header)) := by
    intro done
    induction done with
    | nil => exact fun r _ h => h
    | cons o done ih =>
      intro r hsub h
      obtain ⟨ho, hdone⟩ := List.forall_mem_cons.mp hsub
      exact ih _ hdone (seqsCovered_rebuildStep (List.mem_map_of_mem ho) h)
  exact hfold scanned .init (fun o ho => ho) (by simp [SeqsCovered, BootRegistry.init])

/-- `extract_entry` keeps the numbers covered. -/
theorem seqsCovered_extractBoot {r : BootRegistry} {headers : List SegmentHeader} (e : LogEntry)
    (h : SeqsCovered r headers) : SeqsCovered (extractBoot r e).1 headers := by
  have hseq : ∀ id, SeqsCovered (bootRegistrySeq r id).1 headers := by
    intro id
    cases id with
    | none => exact h
    | some id => exact seqsCovered_get id h
  unfold extractBoot
  refine seqsCovered_modify _ (fun b => .inl ?_) (seqsCovered_get _ (hseq _))
  split <;> rfl

/-- Every reachable registry is covered. -/
theorem BootsReachable.seqsCovered {r : BootRegistry} {headers : List SegmentHeader}
    (h : BootsReachable r headers) : SeqsCovered r headers := by
  induction h with
  | init state scanned =>
    unfold recorderInitBoots
    cases loadBootState state with
    | none => exact seqsCovered_rebuild scanned
    | some _ => exact seqsCovered_rebuild scanned
  | extract r headers e _ ih => exact seqsCovered_extractBoot e ih
  | openSegment r headers header _ ih =>
    intro b hb
    refine (ih b hb).imp_right ?_
    rintro ⟨h, hh, hseq⟩
    exact ⟨h, List.mem_append_left _ hh, hseq⟩
  | retention r headers scanned _ _ _ => exact seqsCovered_rebuild scanned

/-! ## The key result -/

/-- **A new boot sorts behind all others** in the table and in the retained headers exactly
where the table has room and every retained header has a number below its length. -/
theorem new_boot_sorts_last_iff {r : BootRegistry} {headers : List SegmentHeader}
    (hreach : BootsReachable r headers) {id : Bytes} (hid : ∀ b ∈ r.boots, b.id ≠ id) :
    ((∀ b ∈ r.boots, b.seq < (bootRegistrySeq r (some id)).2) ∧
      ∀ h ∈ headers, h.bootSeq < (bootRegistrySeq r (some id)).2) ↔
    r.boots.length < maxBoots ∧ ∀ h ∈ headers, h.bootSeq.toNat < r.boots.length := by
  rcases bootRegistrySeq_new hid with ⟨hlt, hseq⟩ | ⟨hfull, b, hb, hseq⟩
  · simp only [UInt32.lt_iff_toNat_lt, hseq]
    constructor
    · rintro ⟨-, hheaders⟩
      exact ⟨hlt, hheaders⟩
    · rintro ⟨-, hheaders⟩
      refine ⟨fun b hb => ?_, hheaders⟩
      rcases hreach.seqsCovered b hb with h | ⟨header, hh, hseq⟩
      · exact h
      · rw [← hseq]
        exact hheaders header hh
  · -- a full table answers with the number of its last boot
    constructor
    · rintro ⟨hboots, -⟩
      have hself := hboots b hb
      rw [hseq] at hself
      exact absurd hself (UInt32.lt_irrefl _)
    · rintro ⟨hlt, -⟩
      omega

/-- The header of a segment of one boot. -/
def bootHeader (id : UInt8) (seq : UInt32) : SegmentHeader :=
  ⟨flagCompactEntries, 1, seq, zeroPad bootIdSize [id], zeroPad (timezoneSize - 1) [85], 1, 1, 0⟩

/-- What a scan of such a segment yields. -/
def bootScan (id : UInt8) (seq : UInt32) : SegmentMeta := ⟨bootHeader id seq, {}⟩

/-- One segment of one boot, then a new boot. -/
theorem new_boot_sorts_last_one :
    (∀ b ∈ (recorderInitBoots none [bootScan 97 0]).boots, b.seq <
      (bootRegistrySeq (recorderInitBoots none [bootScan 97 0]) (some [98])).2) ∧
    ∀ h ∈ [bootHeader 97 0], h.bootSeq <
      (bootRegistrySeq (recorderInitBoots none [bootScan 97 0]) (some [98])).2 :=
  (new_boot_sorts_last_iff (BootsReachable.init none [bootScan 97 0])
    (by decide +kernel)).mpr (by decide +kernel)

/-- The segments of boots 0 and 1 are gone and one of boot 2 is left. The next boot is
numbered 1. -/
theorem new_boot_sorts_before_gap :
    BootsReachable (recorderInitBoots none [bootScan 97 2]) [bootHeader 97 2] ∧
      (∀ b ∈ (recorderInitBoots none [bootScan 97 2]).boots, b.id ≠ [98]) ∧
      (bootRegistrySeq (recorderInitBoots none [bootScan 97 2]) (some [98])).2 = 1 ∧
      ¬ (bootHeader 97 2).bootSeq < 1 :=
  ⟨BootsReachable.init none [bootScan 97 2], by decide +kernel, by decide +kernel, by decide⟩

end Recorder.Analysis
