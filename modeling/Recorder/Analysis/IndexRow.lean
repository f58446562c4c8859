import Mathlib.Data.List.Induction
import Mathlib.Data.List.GetD
import Recorder.Analysis.IndexFile
import Recorder.Analysis.UnitFilter
import Recorder.Lib.Best

/-!
# What a row of the index says about its frame

A row is folded from the entries of the frame one by one: least and greatest times with the
first entry as a special case, the priority of the last entry, the hashes of at most four
units. It is written field by field at unaligned offsets and read back from there.

`RowCovers` is what the fold keeps. `decode_writeIndexFrame` says that every field is read back
as it was written, so that **the main result**, `index_row_describes_frame`, speaks about the
bytes in the file.
-/

set_option autoImplicit false

namespace Recorder.Analysis

open Recorder.Model Recorder.Lib

/-! ## The two orders of times -/

/-- The earlier of two times. -/
def earlier (a b : UInt64) : Bool := a < b

/-- The later of two times. -/
def later (a b : UInt64) : Bool := a > b

theorem earlier_weakOrder : WeakOrder earlier fun _ => True where
  asymm := by
    intro x y _ _ h
    simp only [earlier, decide_eq_true_eq, decide_eq_false_iff_not, UInt64.lt_iff_toNat_lt] at *
    omega
  trans := by
    intro x y z _ _ _ h h'
    simp only [earlier, decide_eq_false_iff_not, UInt64.lt_iff_toNat_lt] at *
    omega

theorem later_weakOrder : WeakOrder later fun _ => True where
  asymm := by
    intro x y _ _ h
    simp only [later, decide_eq_true_eq, decide_eq_false_iff_not, gt_iff_lt,
      UInt64.lt_iff_toNat_lt] at *
    omega
  trans := by
    intro x y z _ _ _ h h'
    simp only [later, decide_eq_false_iff_not, gt_iff_lt, UInt64.lt_iff_toNat_lt] at *
    omega

/-- **The least and the greatest** of the times of some entries. -/
structure SpansTimes (times : List UInt64) (first last : UInt64) : Prop where
  least : IsBest earlier times first
  greatest : IsBest later times last

/-- One more time. -/
theorem SpansTimes.concat {times : List UInt64} {first last : UInt64} (t : UInt64)
    (h : times ≠ [] → SpansTimes times first last) :
    SpansTimes (times ++ [t]) (if times.length = 0 ∨ t < first then t else first)
      (if times.length = 0 ∨ t > last then t else last) := by
  constructor
  · have hleast := isBest_concat earlier_weakOrder t fun hne => (h hne).least
    simpa only [earlier, decide_eq_true_eq] using hleast
  · have hgreatest := isBest_concat later_weakOrder t fun hne => (h hne).greatest
    simpa only [later, decide_eq_true_eq] using hgreatest

/-! ## The fold -/

/-- What a row says about the entries it was folded from. -/
structure RowCovers (entries : List EntryData) (row : IndexFrame) : Prop where
  realtime : entries ≠ [] → SpansTimes (entries.map (·.realtimeTs)) row.minRealtimeTs
    row.maxRealtimeTs
  monotonic : entries ≠ [] → SpansTimes (entries.map (·.monotonicTs)) row.minMonotonicTs
    row.maxMonotonicTs
  holds : ∀ e ∈ entries, ∀ unit, e.unit = some unit → RowHolds row unit

/-- A row without entries. -/
theorem rowCovers_nil (row : IndexFrame) : RowCovers [] row :=
  ⟨fun h => absurd rfl h, fun h => absurd rfl h, nofun⟩

/-- **One more entry** is folded into a row.
SOURCE: index.c:76-111 -/
theorem RowCovers.add {entries : List EntryData} {row : IndexFrame} (h : RowCovers entries row)
    (e : EntryData) : RowCovers (entries ++ [e]) (indexAddEntry row entries.length e) := by
  have hspans : ∀ (time : EntryData → UInt64) (first last : UInt64),
      (entries ≠ [] → SpansTimes (entries.map time) first last) →
      SpansTimes ((entries ++ [e]).map time)
        (if entries.length = 0 ∨ time e < first then time e else first)
        (if entries.length = 0 ∨ time e > last then time e else last) := by
    intro time first last hbefore
    have hmap : (entries.map time).length = entries.length := List.length_map _
    rw [List.map_append, List.map_singleton, ← hmap]
    apply SpansTimes.concat
    intro hne
    apply hbefore
    rintro rfl
    exact hne rfl
  refine ⟨fun _ => hspans _ _ _ h.realtime, fun _ => hspans _ _ _ h.monotonic, ?_⟩
  intro d hd unit hunit
  rcases List.mem_append.mp hd with hd | hd
  · exact (h.holds d hd unit hunit).indexAddEntry _ _
  · rw [List.mem_singleton.mp hd] at hunit
    exact indexAddEntry_self row _ hunit

/-- The fold over a chunk keeps what a row says. -/
theorem rowCovers_foldl (row : IndexFrame) (entries : List (EntryData × UInt8)) :
    RowCovers (entries.map (·.1))
      (entries.zipIdx.foldl (fun row e => indexAddEntry row e.2 e.1.1) row) := by
  induction entries using List.reverseRecOn with
  | nil => exact rowCovers_nil row
  | append_singleton entries e ih =>
    rw [List.zipIdx_append, List.foldl_append, List.map_append, List.map_singleton]
    have hnext := ih.add e.1
    rw [List.length_map] at hnext
    simpa using hnext

theorem rowCovers_chunkRow (entries : List (EntryData × UInt8)) :
    RowCovers (entries.map (·.1)) (chunkRow entries) :=
  rowCovers_foldl _ entries

theorem chunkRow_entryCount (entries : List (EntryData × UInt8)) :
    (chunkRow entries).entryCount = UInt32.ofNat entries.length := by
  have hfold : ∀ (es : List ((EntryData × UInt8) × ℕ)) (row : IndexFrame),
      (es.foldl (fun row e => indexAddEntry row e.2 e.1.1) row).entryCount = row.entryCount := by
    intro es
    induction es with
    | nil => exact fun _ => rfl
    | cons e es ih => exact fun row => ih _
  exact hfold _ _

/-! ## Reading back -/

/-- Words that were written one after the other are read back. -/
theorem readU64Le_flatMap (words : List UInt64) (rest : Bytes) :
    (List.range words.length).map (fun i =>
      readU64Le ((words.flatMap writeU64Le ++ rest).drop (i * 8))) = words := by
  induction words with
  | nil => rfl
  | cons w words ih =>
    rw [List.length_cons, List.range_succ_eq_map, List.map_cons, List.map_map, List.flatMap_cons,
      List.append_assoc]
    congr 1
    · exact readU64Le_write w _
    · calc _ = (List.range words.length).map (fun i =>
          readU64Le ((words.flatMap writeU64Le ++ rest).drop (i * 8))) := by
            apply List.map_congr_left
            intro i _
            show readU64Le ((writeU64Le w ++ (words.flatMap writeU64Le ++ rest)).drop
              ((i + 1) * 8)) = _
            rw [Nat.succ_mul, Nat.add_comm, ← List.drop_drop]
            rfl
        _ = words := ih

/-- **A record is read back field by field.**
SOURCE: index.c:158-167, 288-303 -/
theorem decode_writeIndexFrame (getters : ChunkGetters) (header : SegmentHeader)
    (frame : SegmentFrameInfo) (chunk : Bytes) :
    decodeIndexFrame (writeIndexFrame getters header frame chunk) =
      let entries := getters.entries (header.flags &&& flagCompactEntries != 0) chunk
      { fileOffset := UInt64.ofNat frame.fileOffset
        frameLen := frame.frameLen
        minRealtimeTs := (chunkRow entries).minRealtimeTs
        maxRealtimeTs := (chunkRow entries).maxRealtimeTs
        minMonotonicTs := (chunkRow entries).minMonotonicTs
        maxMonotonicTs := (chunkRow entries).maxMonotonicTs
        priority := (entries.getLast?.map (·.2)).getD 0
        entryCount := (chunkRow entries).entryCount
        serviceFilterKind := 1
        serviceHashes := serviceSlots (chunkRow entries).serviceHashes
        serviceOverflow := if (chunkRow entries).serviceOverflow then 1 else 0 } := by
  simp only
  generalize hentries : getters.entries (header.flags &&& flagCompactEntries != 0) chunk = entries
  set slots := serviceSlots (chunkRow entries).serviceHashes with hslots
  have hlen : slots.length = serviceHashSlots := length_serviceSlots entries
  set overflow : UInt8 := if (chunkRow entries).serviceOverflow then 1 else 0 with hoverflow
  set priority : UInt8 := (entries.getLast?.map (·.2)).getD 0 with hpriority
  -- the record from each field on
  have h50 : ∃ tail, tail = slots.flatMap writeU64Le ++ [overflow] := ⟨_, rfl⟩
  obtain ⟨tail, htail⟩ := h50
  have himage : writeIndexFrame getters header frame chunk =
      writeU64Le (UInt64.ofNat frame.fileOffset) ++ (writeU32Le frame.frameLen ++
        (writeU64Le (chunkRow entries).minRealtimeTs ++
          (writeU64Le (chunkRow entries).maxRealtimeTs ++
            (writeU64Le (chunkRow entries).minMonotonicTs ++
              (writeU64Le (chunkRow entries).maxMonotonicTs ++
                (priority :: (writeU32Le (chunkRow entries).entryCount ++ (1 :: tail)))))))) := by
    simp only [writeIndexFrame, hentries, htail, List.append_assoc, List.nil_append,
      List.cons_append, ← hslots, ← hoverflow, ← hpriority]
  rw [himage]
  have hhashes : ((List.range serviceHashSlots).map fun i => readU64Le (tail.drop (i * 8))) =
      slots := by
    rw [htail, ← hlen]
    exact readU64Le_flatMap slots _
  have hlast : byteAt tail 32 = overflow := by
    have hwords : (slots.flatMap writeU64Le).length = 32 := by
      rw [length_flatMap_writeU64Le, hlen, serviceHashSlots]
    rw [htail, byteAt, List.getD_append_right _ _ _ _ hwords.le, hwords]
    rfl
  unfold decodeIndexFrame
  rw [IndexRecord.mk.injEq]
  refine ⟨readU64Le_write _ _, readU32Le_write _ _, readU64Le_write _ _, readU64Le_write _ _,
    readU64Le_write _ _, readU64Le_write _ _, rfl, readU32Le_write _ _, rfl, ?_, ?_⟩
  · rw [← hhashes]
    apply List.map_congr_left
    intro i _
    rw [← List.drop_drop]
    rfl
  · rw [← hlast]
    rfl

/-! ## The row of a frame -/

/-- **A row describes a frame and its entries.** The offset and the count have 64 and 32 bits
in the file. -/
structure RowDescribes (frame : SegmentFrameInfo) (entries : List EntryData)
    (row : IndexRecord) : Prop where
  offset : frame.fileOffset < 2 ^ 64 → row.fileOffset.toNat = frame.fileOffset
  length : row.frameLen = frame.frameLen
  count : entries.length < 2 ^ 32 → row.entryCount.toNat = entries.length
  realtime : entries ≠ [] → SpansTimes (entries.map (·.realtimeTs)) row.minRealtimeTs
    row.maxRealtimeTs
  monotonic : entries ≠ [] → SpansTimes (entries.map (·.monotonicTs)) row.minMonotonicTs
    row.maxMonotonicTs
  services : ∀ e ∈ entries, ∀ unit, e.unit = some unit →
    indexRecordMayContainService row (some unit) = true

/-- **The record `write_index_frame` writes describes its frame**, for the entries the getters
return for the chunk, compact or full.
SOURCE: index.c:76-170, 288-316 -/
theorem index_row_describes_frame (getters : ChunkGetters) (header : SegmentHeader)
    (frame : SegmentFrameInfo) (chunk : Bytes) :
    RowDescribes frame
      ((getters.entries (header.flags &&& flagCompactEntries != 0) chunk).map (·.1))
      (decodeIndexFrame (writeIndexFrame getters header frame chunk)) := by
  rw [decode_writeIndexFrame]
  generalize getters.entries (header.flags &&& flagCompactEntries != 0) chunk = entries
  have hcovers := rowCovers_chunkRow entries
  constructor
  · intro hlt
    show (UInt64.ofNat frame.fileOffset).toNat = frame.fileOffset
    rw [UInt64.toNat_ofNat', Nat.mod_eq_of_lt hlt]
  · rfl
  · intro hlt
    rw [List.length_map] at hlt ⊢
    show (chunkRow entries).entryCount.toNat = entries.length
    rw [chunkRow_entryCount, UInt32.toNat_ofNat', Nat.mod_eq_of_lt hlt]
  · exact hcovers.realtime
  · exact hcovers.monotonic
  · intro e he unit hunit
    show (if _ then true else _) = true
    split
    · rfl
    · rename_i hexact
      simp only [bne_self_eq_false, Bool.false_or, bne_iff_ne, ne_eq, not_not] at hexact
      rcases hcovers.holds e he unit hunit with hoverflow | hmem
      · rw [hoverflow] at hexact
        cases hexact
      · rw [List.contains_iff_mem]
        exact List.mem_append_left _ hmem

end Recorder.Analysis
