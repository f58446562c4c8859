import Mathlib.Data.List.TakeWhile
import Recorder.Analysis.Crc
import Recorder.Analysis.FrameReader
import Recorder.Model.Index

/-!
# Index files

What `index_open_read` asks of a file (`indexOpenRead_eq_some_iff`), and what a run of the
index writer leaves (`indexAppends_spec`): a record of every frame whose append got through.

`index_byte_change_rejected`: in the complete index of a closed segment every byte is covered
by one of the checks.
-/

set_option autoImplicit false

namespace Recorder.Analysis

open Recorder.Model

/-! ## Sizes -/

@[simp] theorem length_indexMagic : indexMagic.length = 8 := rfl

@[simp] theorem length_indexFooterMagic : indexFooterMagic.length = 8 := rfl

@[simp] theorem length_indexHeaderImage (seq : UInt64) (flags : UInt32) :
    (indexHeaderImage seq flags).length = 24 := rfl

@[simp] theorem length_indexFooterImage (count committedEnd : UInt64) (body : Bytes) :
    (indexFooterImage count committedEnd body).length = 28 := rfl

/-- A row has no more hashes than slots. -/
theorem length_serviceHashes_le (entries : List ((EntryData × UInt8) × ℕ)) :
    ∀ row : IndexFrame, row.serviceHashes.length ≤ serviceHashSlots →
      (entries.foldl (fun row e => indexAddEntry row e.2 e.1.1) row).serviceHashes.length ≤
        serviceHashSlots := by
  induction entries with
  | nil => exact fun _ h => h
  | cons e entries ih =>
    intro row h
    refine ih _ ?_
    simp only [indexAddEntry]
    cases e.1.1.unit with
    | none => exact h
    | some unit =>
      simp only [addServiceHash]
      split
      · exact h
      · split
        · rw [List.length_append, List.length_singleton]
          omega
        · exact h

@[simp] theorem length_serviceSlots (entries : List (EntryData × UInt8)) :
    (serviceSlots (chunkRow entries).serviceHashes).length = serviceHashSlots := by
  have h := length_serviceHashes_le entries.zipIdx
    { fileOffset := 0
      minRealtimeTs := 0
      maxRealtimeTs := 0
      minMonotonicTs := 0
      maxMonotonicTs := 0
      entryCount := UInt32.ofNat entries.length
      serviceHashes := []
      serviceOverflow := false } (Nat.zero_le _)
  rw [serviceSlots, List.length_append, List.length_replicate, chunkRow]
  omega

theorem length_flatMap_writeU64Le (words : List UInt64) :
    (words.flatMap writeU64Le).length = 8 * words.length := by
  induction words with
  | nil => rfl
  | cons w words ih =>
    rw [List.flatMap_cons, List.length_append, length_writeU64Le, ih, List.length_cons]
    omega

@[simp] theorem length_writeIndexFrame (getters : ChunkGetters) (header : SegmentHeader)
    (frame : SegmentFrameInfo) (chunk : Bytes) :
    (writeIndexFrame getters header frame chunk).length = 83 := by
  simp only [writeIndexFrame, List.length_append, length_writeU64Le, length_writeU32Le,
    List.length_singleton, length_flatMap_writeU64Le, length_serviceSlots, serviceHashSlots]

/-! ## What is accepted -/

/-- The last 28 bytes of an index file. -/
def indexFooterAt (file : Bytes) : Bytes := file.drop (file.length - 28)

/-- The file ends in an index footer, by its magic. -/
def HasIndexFooter (file : Bytes) : Prop :=
  52 ≤ file.length ∧ (indexFooterAt file).take 8 = indexFooterMagic

/-- What `index_open_read` checks of an index with a footer.
SOURCE: index.c:385-412 -/
structure ClosedIndexAccepted (file segment : Bytes) (count : ℕ) : Prop where
  count_eq : (readU64Le ((indexFooterAt file).drop 8)).toNat = count
  length_eq : file.length = 52 + count * 83
  readable : file.length - 28 ≤ preadLimit
  crc_eq : recorderCrc32 (file.take (file.length - 28)) = readU32Le ((indexFooterAt file).drop 24)
  segment_ok : indexValidateSegment file count (readU64Le (file.drop 12)) (readU32Le (file.drop 20))
    (some (readU64Le ((indexFooterAt file).drop 16))) segment = true

/-- What `index_open_read` checks of an index without a footer.
SOURCE: index.c:412-420 -/
structure OpenIndexAccepted (file segment : Bytes) (count : ℕ) : Prop where
  length_eq : file.length = 24 + count * 83
  segment_ok : indexValidateSegment file count (readU64Le (file.drop 12)) (readU32Le (file.drop 20))
    none segment = true

/-- **What an accepted index is**.
SOURCE: index.c:349-425 -/
theorem indexOpenRead_eq_some_iff (file segment : Bytes) (count : ℕ) :
    indexOpenRead file segment = some count ↔
      24 ≤ file.length ∧ file.take 8 = indexMagic ∧ readU32Le (file.drop 8) = indexVersion ∧
      (HasIndexFooter file → ClosedIndexAccepted file segment count) ∧
      (¬ HasIndexFooter file → OpenIndexAccepted file segment count) := by
  have hfooter : (decide (indexHeaderSize + indexFooterSize ≤ file.length) &&
      (file.drop (file.length - indexFooterSize)).take 8 == indexFooterMagic) = true ↔
      HasIndexFooter file := by
    rw [Bool.and_eq_true, decide_eq_true_eq, beq_iff_eq]
    rfl
  unfold indexOpenRead
  simp only [indexHeaderSize, indexFooterSize, indexRecordSize] at hfooter ⊢
  by_cases hlen : file.length < 24
  · simp only [hlen, if_true]
    constructor
    · intro h
      cases h
    · rintro ⟨h24, -⟩
      omega
  by_cases hmagic : file.take 8 = indexMagic
  · by_cases hversion : readU32Le (file.drop 8) = indexVersion
    · simp only [hlen, hmagic, hversion, bne_self_eq_false, if_false, Bool.false_eq_true,
        Nat.le_of_not_lt hlen, true_and]
      by_cases hf : HasIndexFooter file
      · have h52 : 52 ≤ file.length := hf.1
        rw [if_pos (hfooter.mpr hf)]
        simp only [hf, true_imp_iff, not_true_eq_false, false_imp_iff, and_true]
        constructor
        · intro h
          split at h
          · cases h
          · rename_i hcount
            simp only [Bool.or_eq_true, bne_iff_ne, not_or, not_not] at hcount
            split at h
            · cases h
            · rename_i contents hread
              obtain ⟨hlimit, -, rfl⟩ := (preadExact_eq_some_iff _ _ _ _).mp hread
              split at h
              · cases h
              · rename_i hcrc
                split at h
                · rename_i hvalid
                  obtain rfl := Option.some.inj h
                  have hcrc' := not_not.mp (mt bne_iff_ne.mpr hcrc)
                  exact ⟨rfl, by omega, hlimit, hcrc', hvalid⟩
                · cases h
        · rintro ⟨hcount, hrows, hlimit, hcrc, hvalid⟩
          have hread : preadExact file (file.length - 28) 0 =
              some (file.take (file.length - 28)) :=
            (preadExact_eq_some_iff _ _ _ _).mpr ⟨hlimit, by omega, by rw [List.drop_zero]⟩
          have hindexed : file.length - 24 - 28 = count * 83 := by omega
          change (readU64Le ((file.drop (file.length - 28)).drop 8)).toNat = count at hcount
          change recorderCrc32 (file.take (file.length - 28)) =
            readU32Le ((file.drop (file.length - 28)).drop 24) at hcrc
          change indexValidateSegment file count _ _
            (some (readU64Le ((file.drop (file.length - 28)).drop 16))) segment = true at hvalid
          rw [hindexed, Nat.mul_mod_left, Nat.mul_div_cancel _ (by omega), hcount, hread]
          simp only [hcrc, bne_self_eq_false, Bool.or_self, Bool.false_eq_true, if_false, hvalid,
            if_true]
      · rw [if_neg (mt hfooter.mp hf)]
        simp only [hf, false_imp_iff, not_false_eq_true, true_imp_iff, true_and]
        constructor
        · intro h
          split at h
          · cases h
          · rename_i hmod
            split at h
            · rename_i hvalid
              obtain rfl := Option.some.inj h
              have hmod' := not_not.mp (mt bne_iff_ne.mpr hmod)
              exact ⟨by omega, hvalid⟩
            · cases h
        · rintro ⟨hrows, hvalid⟩
          have hindexed : file.length - 24 = count * 83 := by omega
          rw [hindexed, Nat.mul_mod_left, Nat.mul_div_cancel _ (by omega)]
          simp only [bne_self_eq_false, Bool.false_eq_true, if_false, hvalid, if_true]
    · simp only [hlen, hmagic, bne_self_eq_false, if_false, Bool.false_eq_true,
        bne_iff_ne.mpr hversion, if_true, reduceCtorEq, false_iff]
      rintro ⟨-, -, h, -⟩
      exact hversion h
  · simp only [hlen, if_false, bne_iff_ne.mpr hmagic, if_true, reduceCtorEq, false_iff]
    rintro ⟨-, h, -⟩
    exact hmagic h

/-- With a footer, the committed end it names must be the size of the segment. -/
theorem committedEnd_of_validate {file segment : Bytes} {count : ℕ} {seq : UInt64} {flags : UInt32}
    {committedEnd : UInt64}
    (h : indexValidateSegment file count seq flags (some committedEnd) segment = true) :
    committedEnd = UInt64.ofNat segment.length := by
  unfold indexValidateSegment segmentReadPathHeader at h
  cases hmeta : readMetadata segment with
  | none => rw [hmeta] at h; cases h
  | some metadata =>
    simp only [hmeta] at h
    cases hparse : segmentParseHeader metadata with
    | none => rw [hparse] at h; cases h
    | some r =>
      simp only [hparse] at h
      split at h
      · cases h
      · split at h
        · cases h
        · exact beq_iff_eq.mp h

/-! ## One changed byte -/

/-- A complete index of a segment: everything the reader checks except the chain of rows. -/
structure CompleteIndex (file segment : Bytes) (rows : ℕ) : Prop where
  length_eq : file.length = 52 + rows * 83
  magic_eq : file.take 8 = indexMagic
  version_eq : readU32Le (file.drop 8) = indexVersion
  footerMagic_eq : (indexFooterAt file).take 8 = indexFooterMagic
  count_eq : readU64Le ((indexFooterAt file).drop 8) = UInt64.ofNat rows
  committedEnd_eq : readU64Le ((indexFooterAt file).drop 16) = UInt64.ofNat segment.length
  crc_eq : recorderCrc32 (file.take (file.length - 28)) = readU32Le ((indexFooterAt file).drop 24)

section OneByte

variable {file segment : Bytes} {rows i : ℕ} {b : UInt8}

theorem length_indexFooterAt (h : 28 ≤ file.length) : (indexFooterAt file).length = 28 := by
  rw [indexFooterAt, List.length_drop]
  omega

/-- A change in front of the footer leaves the footer alone. -/
theorem indexFooterAt_set_of_lt (h : i < file.length - 28) :
    indexFooterAt (file.set i b) = indexFooterAt file := by
  rw [indexFooterAt, List.length_set, List.drop_set_of_lt h]
  rfl

/-- A change in the footer leaves everything in front of it alone. -/
theorem indexFooterAt_set_of_le (h : file.length - 28 ≤ i) :
    indexFooterAt (file.set i b) = (indexFooterAt file).set (i - (file.length - 28)) b ∧
      (file.set i b).take (file.length - 28) = file.take (file.length - 28) := by
  constructor
  · rw [indexFooterAt, List.length_set, List.drop_set, if_neg (by omega)]
    rfl
  · rw [List.take_set, List.set_eq_of_length_le (by rw [List.length_take]; omega)]

/-- Magic and version are tested byte by byte. -/
theorem indexOpenRead_head_byte (h : CompleteIndex file segment rows) (hi : i < 12)
    (hb : ∀ hi' : i < file.length, b ≠ file[i]) : indexOpenRead (file.set i b) segment = none := by
  have hlen := h.length_eq
  have hi' : i < file.length := by omega
  rw [Option.eq_none_iff_forall_ne_some]
  intro count hcount
  obtain ⟨-, hmagic, hversion, -⟩ := (indexOpenRead_eq_some_iff _ _ _).mp hcount
  by_cases h8 : i < 8
  · rw [List.take_set, ← h.magic_eq] at hmagic
    exact set_ne_self (by rw [List.length_take]; omega)
      (by rw [List.getElem_take]; exact hb hi') hmagic
  · rw [List.drop_set, if_neg h8, ← h.version_eq] at hversion
    refine readU32Le_set_ne (by omega) (by rw [List.length_drop]; omega) ?_ hversion
    rw [List.getElem_drop]
    simpa only [show 8 + (i - 8) = i by omega] using hb hi'

/-- The bytes between version and footer are covered by the checksum. -/
theorem indexOpenRead_body_byte (h : CompleteIndex file segment rows) (hi : i < file.length - 28)
    (hb : ∀ hi' : i < file.length, b ≠ file[i]) : indexOpenRead (file.set i b) segment = none := by
  have hlen := h.length_eq
  have hi' : i < file.length := by omega
  rw [Option.eq_none_iff_forall_ne_some]
  intro count hcount
  obtain ⟨-, -, -, hclosed, -⟩ := (indexOpenRead_eq_some_iff _ _ _).mp hcount
  have hfooter : HasIndexFooter (file.set i b) :=
    ⟨by rw [List.length_set]; omega, by rw [indexFooterAt_set_of_lt hi]; exact h.footerMagic_eq⟩
  have hcrc := (hclosed hfooter).crc_eq
  rw [indexFooterAt_set_of_lt hi, ← h.crc_eq, List.length_set, List.take_set] at hcrc
  exact recorderCrc32_set_ne (by rw [List.length_take]; omega)
    (by rw [List.getElem_take]; exact hb hi') hcrc

/-- In the footer the magic is covered by the sizes, the count by the size of the file, the
committed end by the size of the segment, and the checksum by what it is a checksum of. -/
theorem indexOpenRead_footer_byte (h : CompleteIndex file segment rows)
    (hi : file.length - 28 ≤ i) (hlt : i < file.length) (hb : b ≠ file[i]) :
    indexOpenRead (file.set i b) segment = none := by
  have hlen := h.length_eq
  obtain ⟨hset, htake⟩ := indexFooterAt_set_of_le (b := b) hi
  obtain ⟨k, hk⟩ : ∃ k, k = i - (file.length - 28) := ⟨_, rfl⟩
  rw [← hk] at hset
  have hk28 : k < 28 := by omega
  have hfl : (indexFooterAt file).length = 28 := length_indexFooterAt (by omega)
  have hbk : b ≠ (indexFooterAt file)[k] := by
    unfold indexFooterAt
    rw [List.getElem_drop]
    simpa only [hk, show file.length - 28 + (i - (file.length - 28)) = i by omega] using hb
  rw [Option.eq_none_iff_forall_ne_some]
  intro count hcount
  obtain ⟨-, -, -, hclosed, hopen⟩ := (indexOpenRead_eq_some_iff _ _ _).mp hcount
  by_cases h8 : k < 8
  · -- without its magic the footer is 28 bytes too many for whole rows
    have hno : ¬ HasIndexFooter (file.set i b) := by
      rintro ⟨-, hmagic⟩
      rw [hset, List.take_set, ← h.footerMagic_eq] at hmagic
      exact set_ne_self (by rw [List.length_take]; omega)
        (by rw [List.getElem_take]; exact hbk) hmagic
    have hrows := (hopen hno).length_eq
    rw [List.length_set] at hrows
    omega
  have hfooter : HasIndexFooter (file.set i b) := by
    refine ⟨by rw [List.length_set]; omega, ?_⟩
    rw [hset, List.take_set, List.set_eq_of_length_le (by rw [List.length_take]; omega)]
    exact h.footerMagic_eq
  obtain ⟨hcnt, hrows, -, hcrc, hvalid⟩ := hclosed hfooter
  have hdrop : ∀ n (hn : n ≤ k), ∃ hlt : k - n < ((indexFooterAt file).drop n).length,
      (indexFooterAt (file.set i b)).drop n = ((indexFooterAt file).drop n).set (k - n) b ∧
      b ≠ ((indexFooterAt file).drop n)[k - n] := by
    intro n hn
    refine ⟨by rw [List.length_drop]; omega, by rw [hset, List.drop_set, if_neg (by omega)], ?_⟩
    rw [List.getElem_drop]
    simpa only [show n + (k - n) = k by omega] using hbk
  by_cases h16 : k < 16
  · obtain ⟨hlt', hset', hne⟩ := hdrop 8 (by omega)
    rw [hset'] at hcnt
    rw [List.length_set] at hrows
    refine readU64Le_set_ne (by omega) (by rw [List.length_drop]; omega) hne ?_
    rw [h.count_eq, show rows = count by omega, ← hcnt, UInt64.ofNat_toNat]
  by_cases h24 : k < 24
  · obtain ⟨hlt', hset', hne⟩ := hdrop 16 (by omega)
    rw [hset'] at hvalid
    refine readU64Le_set_ne (by omega) (by rw [List.length_drop]; omega) hne ?_
    rw [h.committedEnd_eq, committedEnd_of_validate hvalid]
  · obtain ⟨hlt', hset', hne⟩ := hdrop 24 (by omega)
    rw [hset', List.length_set, htake, h.crc_eq] at hcrc
    exact readU32Le_set_ne (by omega) (by rw [List.length_drop]; omega) hne hcrc.symm

/-- **Every byte of a complete index is covered by a check**. -/
theorem CompleteIndex.set_rejected (h : CompleteIndex file segment rows) (hi : i < file.length)
    (hb : b ≠ file[i]) : indexOpenRead (file.set i b) segment = none := by
  by_cases h12 : i < 12
  · exact indexOpenRead_head_byte h h12 fun _ => hb
  · by_cases hbody : i < file.length - 28
    · exact indexOpenRead_body_byte h hbody fun _ => hb
    · exact indexOpenRead_footer_byte h (by omega) hi hb

end OneByte

/-! ## A run of the index writer -/

/-- A frame of a segment with the chunk it stores, and whether the append of its record gets
through; otherwise nothing of the record is written. -/
structure IndexedFrame where
  frame : StoredFrame
  chunk : Bytes
  appended : Bool

/-- What becomes of the record of a frame. -/
def IndexedFrame.write (f : IndexedFrame) : WriteOutcome := if f.appended then .ok else .fail 0

/-- `index_writer_append` for each frame of a segment in turn, from a file offset on. -/
def indexAppends (getters : ChunkGetters) (header : SegmentHeader) (encrypted : Bool) :
    ℕ → List IndexedFrame → IndexWriter → IndexWriter
  | _, [], writer => writer
  | offset, f :: frames, writer =>
    indexAppends getters header encrypted (offset + f.frame.size encrypted) frames
      (indexWriterAppend f.write getters writer header (f.frame.info encrypted offset) f.chunk).2

/-- The index file written beside a segment: `index_writer_open`, an append for each frame,
and `index_writer_close`. -/
def writeIndex (getters : ChunkGetters) (header : SegmentHeader) (encrypted : Bool) (offset : ℕ)
    (frames : List IndexedFrame) (committedEnd : UInt64) : Option Bytes :=
  (indexWriterOpen .ok header.segmentSeq header.flags).map fun writer =>
    (indexWriterClose true .ok (indexAppends getters header encrypted offset frames writer)
      committedEnd).2

/-- The records that get through. -/
def indexRows (getters : ChunkGetters) (header : SegmentHeader) (encrypted : Bool) :
    ℕ → List IndexedFrame → List Bytes
  | _, [] => []
  | offset, f :: frames =>
    if f.appended then
      writeIndexFrame getters header (f.frame.info encrypted offset) f.chunk ::
        indexRows getters header encrypted (offset + f.frame.size encrypted) frames
    else indexRows getters header encrypted (offset + f.frame.size encrypted) frames

/-- The records that count: those in front of the first append that failed. -/
def countedRows (frames : List IndexedFrame) : ℕ := (frames.takeWhile (·.appended)).length

section Run

variable (getters : ChunkGetters) (header : SegmentHeader) (encrypted : Bool)

/-- **A run of the index writer** leaves the records that got through, and has counted those
in front of the first failure.
SOURCE: index.c:204-214 -/
theorem indexAppends_spec (frames : List IndexedFrame) :
    ∀ (offset : ℕ) (writer : IndexWriter),
      (indexAppends getters header encrypted offset frames writer).bytes =
        writer.bytes ++ (indexRows getters header encrypted offset frames).flatten ∧
      (indexAppends getters header encrypted offset frames writer).recordCount =
        if writer.error then writer.recordCount
        else writer.recordCount + UInt64.ofNat (countedRows frames) := by
  induction frames with
  | nil =>
    intro offset writer
    simp [indexAppends, indexRows, countedRows]
  | cons f frames ih =>
    intro offset writer
    obtain ⟨hbytes, hcount⟩ := ih (offset + f.frame.size encrypted)
      (indexWriterAppend f.write getters writer header (f.frame.info encrypted offset) f.chunk).2
    rw [indexAppends, hbytes, hcount]
    cases happ : f.appended <;> cases herr : writer.error <;>
      simp [indexWriterAppend, IndexedFrame.write, WriteOutcome.append, indexRows, countedRows,
        happ, herr]
    rw [UInt64.add_assoc, UInt64.add_comm 1]

theorem length_indexRows_mem (frames : List IndexedFrame) :
    ∀ offset, ∀ row ∈ indexRows getters header encrypted offset frames, row.length = 83 := by
  induction frames with
  | nil => intro offset row hrow; cases hrow
  | cons f frames ih =>
    intro offset row hrow
    rw [indexRows] at hrow
    split at hrow
    · rcases List.mem_cons.mp hrow with rfl | hrow
      · exact length_writeIndexFrame _ _ _ _
      · exact ih _ row hrow
    · exact ih _ row hrow

theorem length_indexRows (frames : List IndexedFrame) :
    ∀ offset, (indexRows getters header encrypted offset frames).length =
      (frames.filter (·.appended)).length := by
  induction frames with
  | nil => intro offset; rfl
  | cons f frames ih =>
    intro offset
    rw [indexRows]
    cases happ : f.appended <;> simp [happ, ih]

theorem length_flatten_uniform {α : Type} {n : ℕ} {rows : List (List α)}
    (h : ∀ row ∈ rows, row.length = n) : rows.flatten.length = rows.length * n := by
  induction rows with
  | nil => simp
  | cons row rows ih =>
    rw [List.flatten_cons, List.length_append, h row (by simp), ih fun r hr => h r (by simp [hr]),
      List.length_cons, Nat.succ_mul, Nat.add_comm]

end Run

/-- The bytes of a written index: header, records, footer. -/
theorem writeIndex_eq_some {getters : ChunkGetters} {header : SegmentHeader} {encrypted : Bool}
    {offset : ℕ} {frames : List IndexedFrame} {committedEnd : UInt64} {file : Bytes}
    (h : writeIndex getters header encrypted offset frames committedEnd = some file) :
    ∃ rows body, rows = indexRows getters header encrypted offset frames ∧
      body = indexHeaderImage header.segmentSeq header.flags ++ rows.flatten ∧
      file = body ++ indexFooterImage (UInt64.ofNat (countedRows frames)) committedEnd body := by
  obtain ⟨hbytes, hcount⟩ := indexAppends_spec getters header encrypted frames offset
    { bytes := indexHeaderImage header.segmentSeq header.flags }
  simp only [Bool.false_eq_true, if_false, UInt64.zero_add] at hcount
  refine ⟨_, _, rfl, rfl, ?_⟩
  rw [← Option.some.inj h]
  simp only [indexWriterClose, WriteOutcome.append, hcount, hbytes, Bool.not_true,
    Bool.false_eq_true, if_false]

/-- An index file in its parts, as `writeIndex` leaves it. -/
structure IndexLayout (file : Bytes) (seq : UInt64) (flags : UInt32) (rows : List Bytes)
    (recordCount committedEnd : UInt64) : Prop where
  rows_length : ∀ row ∈ rows, row.length = 83
  file_eq : file = (indexHeaderImage seq flags ++ rows.flatten) ++
    indexFooterImage recordCount committedEnd (indexHeaderImage seq flags ++ rows.flatten)

theorem writeIndex_layout {getters : ChunkGetters} {header : SegmentHeader} {encrypted : Bool}
    {offset : ℕ} {frames : List IndexedFrame} {committedEnd : UInt64} {file : Bytes}
    (h : writeIndex getters header encrypted offset frames committedEnd = some file) :
    IndexLayout file header.segmentSeq header.flags
      (indexRows getters header encrypted offset frames) (UInt64.ofNat (countedRows frames))
      committedEnd := by
  obtain ⟨rows, body, rfl, rfl, hfile⟩ := writeIndex_eq_some h
  exact ⟨length_indexRows_mem _ _ _ frames offset, hfile⟩

namespace IndexLayout

variable {file : Bytes} {seq : UInt64} {flags : UInt32} {rows : List Bytes}
  {recordCount committedEnd : UInt64}

theorem length_eq (h : IndexLayout file seq flags rows recordCount committedEnd) :
    file.length = 52 + rows.length * 83 := by
  rw [h.file_eq, List.length_append, List.length_append, length_indexHeaderImage,
    length_indexFooterImage, length_flatten_uniform h.rows_length]
  omega

theorem footer_eq (h : IndexLayout file seq flags rows recordCount committedEnd) :
    indexFooterAt file = indexFooterImage recordCount committedEnd
      (indexHeaderImage seq flags ++ rows.flatten) := by
  have hlen : file.length - 28 = (indexHeaderImage seq flags ++ rows.flatten).length := by
    rw [h.length_eq, List.length_append, length_indexHeaderImage,
      length_flatten_uniform h.rows_length]
    omega
  rw [indexFooterAt, hlen]
  conv_lhs => rw [h.file_eq]
  exact List.drop_left

theorem body_eq (h : IndexLayout file seq flags rows recordCount committedEnd) :
    file.take (file.length - 28) = indexHeaderImage seq flags ++ rows.flatten := by
  have hlen : file.length - 28 = (indexHeaderImage seq flags ++ rows.flatten).length := by
    rw [h.length_eq, List.length_append, length_indexHeaderImage,
      length_flatten_uniform h.rows_length]
    omega
  rw [hlen]
  conv_lhs => rw [h.file_eq]
  exact List.take_left

/-- The header fields of a written index. -/
theorem header_fields (h : IndexLayout file seq flags rows recordCount committedEnd) :
    file.take 8 = indexMagic ∧ readU32Le (file.drop 8) = indexVersion ∧
      readU64Le (file.drop 12) = seq ∧ readU32Le (file.drop 20) = flags := by
  have h8 : file.drop 8 = writeU32Le indexVersion ++ file.drop 12 := by rw [h.file_eq]; rfl
  have h12 : file.drop 12 = writeU64Le seq ++ file.drop 20 := by rw [h.file_eq]; rfl
  have h20 : file.drop 20 = writeU32Le flags ++ file.drop 24 := by rw [h.file_eq]; rfl
  refine ⟨by rw [h.file_eq]; rfl, ?_, ?_, ?_⟩
  · rw [h8, readU32Le_write]
  · rw [h12, readU64Le_write]
  · rw [h20, readU32Le_write]

/-- The footer fields of a written index. -/
theorem footer_fields (h : IndexLayout file seq flags rows recordCount committedEnd) :
    (indexFooterAt file).take 8 = indexFooterMagic ∧
      readU64Le ((indexFooterAt file).drop 8) = recordCount ∧
      readU64Le ((indexFooterAt file).drop 16) = committedEnd ∧
      readU32Le ((indexFooterAt file).drop 24) = recorderCrc32 (file.take (file.length - 28)) := by
  rw [h.footer_eq, h.body_eq]
  refine ⟨rfl, ?_, ?_, ?_⟩
  · exact readU64Le_write recordCount _
  · exact readU64Le_write committedEnd _
  · exact readU32Le_write _ []

theorem hasIndexFooter (h : IndexLayout file seq flags rows recordCount committedEnd) :
    HasIndexFooter file := by
  refine ⟨?_, h.footer_fields.1⟩
  have := h.length_eq
  omega

end IndexLayout

/-- INTERNAL: where every append gets through, all of them count. -/
theorem countedRows_of_all {frames : List IndexedFrame} (h : ∀ f ∈ frames, f.appended = true) :
    countedRows frames = frames.length := by
  rw [countedRows, List.takeWhile_eq_self_iff.mpr h]

/-- INTERNAL: where every append gets through, every frame has its record. -/
theorem length_indexRows_of_all (getters : ChunkGetters) (header : SegmentHeader)
    (encrypted : Bool) {frames : List IndexedFrame} (h : ∀ f ∈ frames, f.appended = true)
    (offset : ℕ) : (indexRows getters header encrypted offset frames).length = frames.length := by
  rw [length_indexRows, List.filter_eq_self.mpr h]

/-- **A changed byte of a complete index is always detected**: whichever byte it is, for any
number of frames.
SOURCE: index.c:172-243, 318-425 -/
theorem index_byte_change_rejected (evp : EvpOps) (key : FreshKey)
    (encryptor : Option SegmentEncryptor) (s : SegmentSource) (w : WrittenSegment)
    (_ : writeSegment evp key encryptor s = some w) (_ : s.footer.isSome = true)
    (getters : ChunkGetters) (frames : List IndexedFrame) (_ : s.frames = frames.map (·.frame))
    (happended : ∀ f ∈ frames, f.appended = true) (file : Bytes)
    (hfile : writeIndex getters s.header encryptor.isSome w.head.length frames
      (UInt64.ofNat w.file.length) = some file)
    (i : ℕ) (b : UInt8) (hi : i < file.length) (hb : b ≠ file[i]) :
    indexOpenRead (file.set i b) w.file = none := by
  have layout := writeIndex_layout hfile
  have hrows := length_indexRows_of_all getters s.header encryptor.isSome happended w.head.length
  obtain ⟨hmagic, hversion, -, -⟩ := layout.header_fields
  obtain ⟨hfmagic, hcount, hend, hcrc⟩ := layout.footer_fields
  rw [countedRows_of_all happended, ← hrows] at hcount
  exact CompleteIndex.set_rejected ⟨layout.length_eq, hmagic, hversion, hfmagic, hcount, hend,
    hcrc.symm⟩ hi hb

/-- Getters that find no entries, for the fixed inputs below. -/
def noGetters : ChunkGetters := ⟨fun _ _ => []⟩

/-- The magic of the index of a closed segment with one frame. -/
theorem index_byte_change_rejected_one_frame :
    indexOpenRead
      (((writeIndex noGetters plainHeader false 154 [⟨⟨0, [1, 2, 3], 3⟩, [1, 2, 3], true⟩]
        (UInt64.ofNat 225)).getD []).set 0 0)
      (headerImage plainHeader [] [9, 9] ++
        ([frameImage (frameHeader 0 3 3 23) [1, 2, 3] []].flatten ++
          footerImage { entryCount := 1 })) = none :=
  index_byte_change_rejected noEvp zeroKey none
    ⟨plainHeader, [9, 9], [⟨0, [1, 2, 3], 3⟩], some { entryCount := 1 }⟩
    ⟨headerImage plainHeader [] [9, 9], [frameImage (frameHeader 0 3 3 23) [1, 2, 3] []],
      footerImage { entryCount := 1 }⟩ rfl rfl noGetters
    [⟨⟨0, [1, 2, 3], 3⟩, [1, 2, 3], true⟩] rfl (by decide) _ rfl 0 0 (by decide +kernel)
    (by decide +kernel)

end Recorder.Analysis
