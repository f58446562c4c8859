import Recorder.Analysis.IndexFile

/-!
# Does an accepted index cover its segment?

The rows of a written index name the places of the frames whose appends got through
(`IndexLayout.places`). Where an append failed in front of one that got through, the row
count of the footer is too small for the file; where the last appends failed, counts,
checksum and chain of rows are those of a complete index of fewer frames, and the committed
end in the footer is compared with the size of the segment, not with the end of the chain.

`index_covers_segment_iff`: so an accepted index covers the segment exactly when it does not
miss the last frames, or the metadata of the segment or the rows of the index are more than one
`pread` transfers, and no index is accepted at all.
-/

set_option autoImplicit false

namespace Recorder.Analysis

open Recorder.Model

/-! ## Rows and places -/

/-- The place a record of the index names. -/
def rowPlace (r : IndexRecord) : UInt64 × UInt32 := (r.fileOffset, r.frameLen)

/-- The place of a frame. -/
def framePlace (frame : SegmentFrameInfo) : UInt64 × UInt32 :=
  (UInt64.ofNat frame.fileOffset, frame.frameLen)

/-- The record of a frame names its place.
SOURCE: index.c:158-159, 288-292 -/
theorem rowPlace_writeIndexFrame (getters : ChunkGetters) (header : SegmentHeader)
    (frame : SegmentFrameInfo) (chunk : Bytes) :
    rowPlace (decodeIndexFrame (writeIndexFrame getters header frame chunk)) =
      framePlace frame := by
  obtain ⟨rest, h0, h8⟩ : ∃ rest, writeIndexFrame getters header frame chunk =
      writeU64Le (UInt64.ofNat frame.fileOffset) ++ (writeU32Le frame.frameLen ++ rest) ∧
      (writeIndexFrame getters header frame chunk).drop 8 =
        writeU32Le frame.frameLen ++ rest := by
    refine ⟨(writeIndexFrame getters header frame chunk).drop 12, ?_, ?_⟩
    · simp only [writeIndexFrame, List.append_assoc]
      rfl
    · simp only [writeIndexFrame, List.append_assoc]
      rfl
  simp only [decodeIndexFrame, rowPlace, framePlace, h8, readU32Le_write]
  rw [h0, readU64Le_write]

/-- Skipping whole rows leads to the next one. -/
theorem drop_flatten_uniform {α : Type} {n : ℕ} {rows : List (List α)} (rest : List α)
    (h : ∀ row ∈ rows, row.length = n) {i : ℕ} (hi : i < rows.length) :
    ((rows.flatten ++ rest).drop (i * n)).take n = rows[i] := by
  induction rows generalizing i with
  | nil => exact absurd hi (Nat.not_lt_zero i)
  | cons row rows ih =>
    have hrow : row.length = n := h row (by simp)
    cases i with
    | zero =>
      rw [Nat.zero_mul, List.drop_zero, List.flatten_cons, List.append_assoc, List.take_left' hrow]
      rfl
    | succ i =>
      rw [Nat.succ_mul, Nat.add_comm, ← List.drop_drop, List.flatten_cons, List.append_assoc,
        List.drop_left' hrow]
      exact ih (fun r hr => h r (by simp [hr])) (Nat.lt_of_succ_lt_succ hi)

section Layout

variable {file : Bytes} {seq : UInt64} {flags : UInt32} {rows : List Bytes}
  {recordCount committedEnd : UInt64}

/-- The bytes of a row. -/
theorem IndexLayout.row_eq (h : IndexLayout file seq flags rows recordCount committedEnd) {i : ℕ}
    (hi : i < rows.length) : (file.drop (24 + i * 83)).take 83 = rows[i] := by
  rw [h.file_eq, ← List.drop_drop, List.append_assoc, List.drop_left' (by rfl)]
  exact drop_flatten_uniform _ h.rows_length hi

/-- The rows of a written index are read back.
SOURCE: index.c:427-435 -/
theorem IndexLayout.pread (h : IndexLayout file seq flags rows recordCount committedEnd) {i : ℕ}
    (hi : i < rows.length) : indexPreadFrame file i = some (decodeIndexFrame rows[i]) := by
  have hrow := h.row_eq hi
  simp only [indexPreadFrame, indexHeaderSize, indexRecordSize, hrow]
  rw [if_pos (h.rows_length _ (List.getElem_mem hi))]

/-- The places of all rows, in order. -/
theorem IndexLayout.places (h : IndexLayout file seq flags rows recordCount committedEnd) :
    (List.range rows.length).map (fun i => (indexPreadFrame file i).map rowPlace) =
      rows.map fun row => some (rowPlace (decodeIndexFrame row)) := by
  apply List.ext_getElem
  · simp
  · intro i h1 h2
    rw [List.length_map] at h2
    simp only [List.getElem_map, List.getElem_range, h.pread h2, Option.map_some]

end Layout

/-- The rows of frames whose appends all got through name the places of the frames. -/
theorem places_indexRows (getters : ChunkGetters) (header : SegmentHeader) (encrypted : Bool)
    {frames : List IndexedFrame} (h : ∀ f ∈ frames, f.appended = true) :
    ∀ offset, (indexRows getters header encrypted offset frames).map
        (fun row => rowPlace (decodeIndexFrame row)) =
      (expectedInfos encrypted offset (frames.map (·.frame))).map framePlace := by
  induction frames with
  | nil => intro offset; rfl
  | cons f frames ih =>
    intro offset
    rw [indexRows, if_pos (h f (by simp)), List.map_cons, rowPlace_writeIndexFrame,
      ih (fun g hg => h g (by simp [hg]))]
    rfl

/-- Appends that fail leave no rows. -/
theorem indexRows_append_failed {getters : ChunkGetters} {header : SegmentHeader}
    {encrypted : Bool} {pre post : List IndexedFrame} (h : ∀ f ∈ post, f.appended = false) :
    ∀ offset, indexRows getters header encrypted offset (pre ++ post) =
      indexRows getters header encrypted offset pre := by
  induction pre with
  | nil =>
    intro offset
    rw [List.nil_append]
    induction post generalizing offset with
    | nil => rfl
    | cons f post ih =>
      simp only [indexRows, h f (by simp), Bool.false_eq_true, if_false]
      exact ih (fun g hg => h g (by simp [hg])) _
  | cons f pre ih =>
    intro offset
    simp only [List.cons_append, indexRows, ih]

/-! ## The chain of rows -/

/-- Rows that name the places of consecutive frames within the segment chain to the end of
the last one.
SOURCE: index.c:333-341 -/
theorem validateChain_frames (file : Bytes) (size : ℕ) {encrypted : Bool} (images : List Bytes) :
    ∀ (index offset : ℕ), (∀ bs ∈ images, IsFrame encrypted bs) →
      offset + images.flatten.length ≤ size →
      (List.range images.length).map
          (fun i => (indexPreadFrame file (index + i)).map rowPlace) =
        (frameInfos offset images).map (fun info => some (framePlace info)) →
      validateChain file size images.length index offset =
        some (offset + images.flatten.length) := by
  induction images with
  | nil => intro index offset _ _ _; rfl
  | cons bs images ih =>
    intro index offset hframes hsize hplaces
    have hbs : IsFrame encrypted bs := hframes bs (by simp)
    have hlen := hbs.le_length
    rw [List.flatten_cons, List.length_append] at hsize ⊢
    rw [List.length_cons, List.range_succ_eq_map, List.map_cons, List.map_map, frameInfos,
      List.map_cons, List.cons.injEq] at hplaces
    obtain ⟨hfirst, hrest⟩ := hplaces
    rw [Nat.add_zero, Option.map_eq_some_iff] at hfirst
    obtain ⟨record, hrecord, hplace⟩ := hfirst
    obtain ⟨hoff, hfl⟩ := Prod.mk.inj hplace
    have hfl' : record.frameLen.toNat = bs.length := by rw [hfl]; exact hbs.frameLen_eq
    have h20 : ¬ record.frameLen < 20 := by
      rw [UInt32.lt_iff_toNat_lt, hfl', show (20 : UInt32).toNat = 20 from rfl]
      omega
    have hoff' : record.fileOffset = UInt64.ofNat offset := hoff
    have hfit : ¬ bs.length > size - offset := by omega
    rw [List.length_cons, validateChain, hrecord]
    simp only [h20, hoff', hfl', hfit, bne_self_eq_false, decide_false, Bool.or_self,
      Bool.false_eq_true, if_false]
    rw [ih (index + 1) (offset + bs.length) (fun b hb => hframes b (by simp [hb])) (by omega) ?_,
      Nat.add_assoc]
    rw [← hrest]
    apply List.map_congr_left
    intro i _
    simp only [Function.comp, Nat.succ_eq_add_one, Nat.add_assoc, Nat.add_comm 1 i]

/-! ## Acceptance -/

/-- An accepted index covers the frames: its rows name their places one to one, in order. -/
def IndexCovers (file segment : Bytes) (frames : List SegmentFrameInfo) : Prop :=
  ∀ count, indexOpenRead file segment = some count →
    (List.range count).map (fun i => (indexPreadFrame file i).map rowPlace) =
      frames.map fun frame => some (framePlace frame)

/-- The appends that failed are those of the last frames: one or more of them, and none in
front of an append that got through. -/
def MissesLastFrames (frames : List IndexedFrame) : Prop :=
  ∃ pre post, frames = pre ++ post ∧ post ≠ [] ∧ (∀ f ∈ pre, f.appended = true) ∧
    ∀ f ∈ post, f.appended = false

/-- Where every record that got through counts, the failed appends are the last ones. -/
theorem append_failed_of_counted {frames : List IndexedFrame}
    (h : countedRows frames = (frames.filter (·.appended)).length) :
    ∃ pre post, frames = pre ++ post ∧ (∀ f ∈ pre, f.appended = true) ∧
      ∀ f ∈ post, f.appended = false := by
  refine ⟨frames.takeWhile (·.appended), frames.dropWhile (·.appended),
    List.takeWhile_append_dropWhile.symm, fun f hf => ?_, ?_⟩
  · exact List.all_eq_true.mp List.all_takeWhile f hf
  · -- the filter keeps what stands in front, so it keeps nothing behind
    have hsplit : (frames.filter (·.appended)).length =
        (frames.takeWhile (·.appended)).length +
          ((frames.dropWhile (·.appended)).filter (·.appended)).length := by
      conv_lhs => rw [← List.takeWhile_append_dropWhile (p := (·.appended)) (l := frames)]
      rw [List.filter_append, List.length_append,
        List.filter_eq_self.mpr (List.all_eq_true.mp List.all_takeWhile)]
    rw [countedRows] at h
    have hnil : (frames.dropWhile (·.appended)).filter (·.appended) = [] :=
      List.length_eq_zero_iff.mp (by omega)
    intro f hf
    simpa using List.filter_eq_nil_iff.mp hnil f hf

section Written

variable {evp : EvpOps} {key : FreshKey} {encryptor : Option SegmentEncryptor}
  {s : SegmentSource} {w : WrittenSegment} {getters : ChunkGetters} {frames : List IndexedFrame}
  {file : Bytes}

/-- The rows of an accepted index are the records that got through, and all of them count. -/
theorem counted_of_accepted {offset : ℕ} {encrypted : Bool} {committedEnd : UInt64}
    (hfile : writeIndex getters s.header encrypted offset frames committedEnd = some file)
    {segment : Bytes} {count : ℕ} (h : indexOpenRead file segment = some count) :
    count = (indexRows getters s.header encrypted offset frames).length ∧
      countedRows frames = (frames.filter (·.appended)).length := by
  have layout := writeIndex_layout hfile
  obtain ⟨-, -, -, hclosed, -⟩ := (indexOpenRead_eq_some_iff _ _ _).mp h
  obtain ⟨hcount, hlength, -, -, -⟩ := hclosed layout.hasIndexFooter
  have hlen := layout.length_eq
  have hrows := length_indexRows getters s.header encrypted frames offset
  rw [layout.footer_fields.2.1, UInt64.toNat_ofNat'] at hcount
  have hle : countedRows frames ≤ (frames.filter (·.appended)).length := by
    rw [countedRows]
    conv_rhs => rw [← List.takeWhile_append_dropWhile (p := (·.appended)) (l := frames)]
    rw [List.filter_append, List.length_append,
      List.filter_eq_self.mpr (List.all_eq_true.mp List.all_takeWhile)]
    exact Nat.le_add_right _ _
  have hmod := Nat.mod_le (countedRows frames) (2 ^ 64)
  omega

/-- **A gap that is not at the end is noticed**: an accepted index of appends that did not
fail at the end covers the frames. -/
theorem indexCovers_of_not_missesLast {offset : ℕ} {encrypted : Bool} {committedEnd : UInt64}
    (hfile : writeIndex getters s.header encrypted offset frames committedEnd = some file)
    (segment : Bytes) (hlast : ¬ MissesLastFrames frames) :
    IndexCovers file segment (expectedInfos encrypted offset (frames.map (·.frame))) := by
  intro count h
  obtain ⟨hcount, hcounted⟩ := counted_of_accepted hfile h
  obtain ⟨pre, post, hsplit, hpre, hpost⟩ := append_failed_of_counted hcounted
  have hnil : post = [] := by
    by_contra hne
    exact hlast ⟨pre, post, hsplit, hne, hpre, hpost⟩
  rw [hnil, List.append_nil] at hsplit
  subst hsplit
  have hplaces := congrArg (List.map some) (places_indexRows getters s.header encrypted hpre offset)
  rw [List.map_map, List.map_map] at hplaces
  rw [hcount, (writeIndex_layout hfile).places]
  exact hplaces

/-- **Frames missing at the end are not noticed**: the index is accepted.
SOURCE: index.c:318-347 -/
theorem accepted_of_missesLast (laws : EvpLaws evp)
    (h : writeSegment evp key encryptor s = some w) (getters : ChunkGetters)
    (frames : List IndexedFrame) (hframes : s.frames = frames.map (·.frame))
    (hcount : frames.length < 2 ^ 64)
    (hfile : writeIndex getters s.header encryptor.isSome w.head.length frames
      (UInt64.ofNat w.file.length) = some file)
    (hsmall : dataOffset evp key encryptor.isSome s.dict ≤ preadLimit)
    (hreadable : 24 + (frames.filter (·.appended)).length * 83 ≤ preadLimit)
    (pre post : List IndexedFrame)
    (hsplit : frames = pre ++ post) (hpre : ∀ f ∈ pre, f.appended = true)
    (hpost : ∀ f ∈ post, f.appended = false) :
    indexOpenRead file w.file = some pre.length := by
  obtain ⟨info, spec⟩ := writeSegment_padded_spec laws h
  obtain ⟨himages, hinfos, -⟩ := spec.images_spec laws
  have layout := writeIndex_layout hfile
  have happended : (frames.filter (·.appended)).length = pre.length := by
    rw [hsplit, List.filter_append, List.filter_eq_self.mpr hpre,
      List.filter_eq_nil_iff.mpr (by simpa using hpost), List.append_nil]
  rw [happended] at hreadable
  rw [hsplit, indexRows_append_failed hpost] at layout
  have hrows := length_indexRows_of_all getters s.header encryptor.isSome hpre w.head.length
  have hcounted : countedRows (pre ++ post) = pre.length := by
    rw [countedRows, List.takeWhile_append_of_pos hpre]
    cases post with
    | nil => simp
    | cons f post => simp [hpost f (by simp)]
  rw [hcounted] at layout
  obtain ⟨hmagic, hversion, hseq, hflags⟩ := layout.header_fields
  obtain ⟨-, hrecords, hend, hcrc⟩ := layout.footer_fields
  rw [hsplit, List.length_append] at hcount
  -- the header of the segment, read from its metadata
  have hparse := spec.parse_small (lt_of_le_of_lt hsmall (by decide))
  have hstart : framesStart w.file ≤ preadLimit := by
    rw [framesStart_of_writeSegment laws h]
    exact hsmall
  have hread : segmentReadPathHeader w.file =
      some (s.padded.storedHeader, w.head.length, w.file.length) :=
    (segmentReadPathHeader_eq_some_iff _ _ _ _).mpr ⟨hstart, ⟨info, hparse⟩, rfl⟩
  -- the chain of the rows that are there
  have hstored : s.padded.frames.take pre.length = pre.map (·.frame) := by
    rw [show s.padded.frames = s.frames from rfl, hframes, hsplit, List.map_append,
      List.take_left' (by rw [List.length_map])]
  have hinfosPre : frameInfos w.head.length (w.images.take pre.length) =
      expectedInfos encryptor.isSome w.head.length (pre.map (·.frame)) := by
    rw [frameInfos_take, hinfos, ← expectedInfos_take, hstored]
  have hlen : (w.images.take pre.length).length = pre.length := by
    rw [← length_frameInfos _ w.head.length, hinfosPre, length_expectedInfos, List.length_map]
  have hplaces : (List.range pre.length).map (fun i => (indexPreadFrame file i).map rowPlace) =
      (frameInfos w.head.length (w.images.take pre.length)).map
        fun info => some (framePlace info) := by
    have hall := congrArg (List.map some)
      (places_indexRows getters s.header encryptor.isSome hpre w.head.length)
    rw [List.map_map, List.map_map] at hall
    rw [hinfosPre, ← hrows, layout.places]
    exact hall
  have hfits : w.head.length + (w.images.take pre.length).flatten.length ≤ w.file.length := by
    have hflat := congrArg (fun images => images.flatten.length)
      (List.take_append_drop pre.length w.images)
    simp only [List.flatten_append, List.length_append] at hflat
    simp only [WrittenSegment.file, List.length_append]
    omega
  have hchain := validateChain_frames file w.file.length (w.images.take pre.length) 0
    w.head.length (fun bs hbs => himages bs (List.mem_of_mem_take hbs)) hfits
    (by simpa only [hlen, Nat.zero_add] using hplaces)
  rw [hlen] at hchain
  refine (indexOpenRead_eq_some_iff _ _ _).mpr ⟨?_, hmagic, hversion, fun _ => ?_,
    fun hno => absurd layout.hasIndexFooter hno⟩
  · have := layout.length_eq
    omega
  · refine ⟨?_, by rw [layout.length_eq, hrows], ?_, hcrc.symm, ?_⟩
    · rw [hrecords, UInt64.toNat_ofNat']
      omega
    · rw [layout.length_eq, hrows]
      omega
    · rw [hseq, hflags, hend]
      unfold indexValidateSegment
      simp only [hread, hchain]
      simp [SegmentSource.storedHeader, SegmentSource.padded, paddedHeader]

/-- A segment whose metadata is more than one `pread` transfers has no index that is accepted. -/
theorem rejected_of_longMetadata (laws : EvpLaws evp)
    (h : writeSegment evp key encryptor s = some w)
    (hbig : ¬ dataOffset evp key encryptor.isSome s.dict ≤ preadLimit) (file : Bytes) :
    indexOpenRead file w.file = none := by
  have hread : segmentReadPathHeader w.file = none := by
    rw [Option.eq_none_iff_forall_ne_some]
    rintro ⟨header, offset, size⟩ hsome
    have hstart := ((segmentReadPathHeader_eq_some_iff _ _ _ _).mp hsome).1
    rw [framesStart_of_writeSegment laws h] at hstart
    exact hbig hstart
  have hvalid : ∀ count seq flags footerEnd,
      indexValidateSegment file count seq flags footerEnd w.file = false := by
    intro count seq flags footerEnd
    simp only [indexValidateSegment, hread]
  rw [Option.eq_none_iff_forall_ne_some]
  intro count hcount
  obtain ⟨-, -, -, hclosed, hopen⟩ := (indexOpenRead_eq_some_iff _ _ _).mp hcount
  by_cases hfooter : HasIndexFooter file
  · exact Bool.false_ne_true ((hvalid _ _ _ _).symm.trans (hclosed hfooter).segment_ok)
  · exact Bool.false_ne_true ((hvalid _ _ _ _).symm.trans (hopen hfooter).segment_ok)

/-- A written index whose rows are more than one `pread` transfers is not accepted.
SOURCE: index.c:396-407 -/
theorem rejected_of_longRows {offset : ℕ} {encrypted : Bool} {committedEnd : UInt64}
    (hfile : writeIndex getters s.header encrypted offset frames committedEnd = some file)
    (hlong : preadLimit < 24 + (frames.filter (·.appended)).length * 83) (segment : Bytes) :
    indexOpenRead file segment = none := by
  have layout := writeIndex_layout hfile
  have hlength := layout.length_eq
  rw [length_indexRows] at hlength
  rw [Option.eq_none_iff_forall_ne_some]
  intro count hcount
  obtain ⟨-, -, -, hclosed, -⟩ := (indexOpenRead_eq_some_iff _ _ _).mp hcount
  have hreadable := (hclosed layout.hasIndexFooter).readable
  omega

end Written

/-- **Which accepted indexes cover their segment**: for any appends that fail, an accepted
index covers the frames of the closed segment exactly when it does not miss the last ones,
or when it is not accepted at all, because the metadata of the segment or the rows of the index
are more than one `pread` transfers.
SOURCE: index.c:204-243, 318-425 -/
theorem index_covers_segment_iff (evp : EvpOps) (laws : EvpLaws evp) (key : FreshKey)
    (encryptor : Option SegmentEncryptor) (s : SegmentSource) (w : WrittenSegment)
    (h : writeSegment evp key encryptor s = some w) (_ : s.footer.isSome = true)
    (getters : ChunkGetters) (frames : List IndexedFrame)
    (hframes : s.frames = frames.map (·.frame)) (hcount : frames.length < 2 ^ 64) (file : Bytes)
    (hfile : writeIndex getters s.header encryptor.isSome w.head.length frames
      (UInt64.ofNat w.file.length) = some file) :
    IndexCovers file w.file (expectedInfos encryptor.isSome w.head.length s.frames) ↔
      ¬ MissesLastFrames frames ∨ preadLimit < dataOffset evp key encryptor.isSome s.dict ∨
        preadLimit < 24 + (frames.filter (·.appended)).length * 83 := by
  constructor
  · intro hcovers
    by_contra hcond
    rw [not_or, not_or, not_not, not_lt, not_lt] at hcond
    obtain ⟨⟨pre, post, hsplit, hne, hpre, hpost⟩, hsmall, hreadable⟩ := hcond
    have hlen := congrArg List.length (hcovers _
      (accepted_of_missesLast laws h getters frames hframes hcount hfile hsmall hreadable pre post
        hsplit hpre hpost))
    rw [List.length_map, List.length_range, List.length_map, length_expectedInfos, hframes,
      hsplit, List.length_map, List.length_append] at hlen
    have := List.length_pos_of_ne_nil hne
    omega
  · rintro (hlast | hbig | hlong)
    · rw [hframes]
      exact indexCovers_of_not_missesLast hfile w.file hlast
    · intro count haccepted
      rw [rejected_of_longMetadata laws h (Nat.not_le_of_lt hbig) file] at haccepted
      cases haccepted
    · intro count haccepted
      rw [rejected_of_longRows hfile hlong w.file] at haccepted
      cases haccepted

/-- Two frames of a segment; whether the append for the first gets through. -/
def twoRowFrames (first : Bool) : List IndexedFrame :=
  [⟨⟨0, [1, 2, 3], 3⟩, [1, 2, 3], first⟩, ⟨⟨0, [4, 5, 6], 3⟩, [4, 5, 6], true⟩]

/-- The closed segment of the two frames. -/
def twoRowSegment : WrittenSegment :=
  ⟨headerImage plainHeader [] [9, 9],
    [frameImage (frameHeader 0 3 3 23) [1, 2, 3] [],
      frameImage (frameHeader 0 3 3 23) [4, 5, 6] []],
    footerImage { entryCount := 2 }⟩

/-- Its index. -/
def twoRowIndex (first : Bool) : Bytes :=
  (writeIndex noGetters plainHeader false twoRowSegment.head.length (twoRowFrames first)
    (UInt64.ofNat twoRowSegment.file.length)).getD []

theorem writeIndex_twoRowFrames (first : Bool) :
    writeIndex noGetters plainHeader false twoRowSegment.head.length (twoRowFrames first)
      (UInt64.ofNat twoRowSegment.file.length) = some (twoRowIndex first) := by
  cases first <;> decide +kernel

theorem not_missesLast_twoRowFrames (first : Bool) : ¬ MissesLastFrames (twoRowFrames first) := by
  rintro ⟨pre, post, hsplit, hne, -, hpost⟩
  -- the last frame is one of those behind, and its append got through
  have hlast := congrArg List.getLast? hsplit
  rw [List.getLast?_append_of_ne_nil pre hne] at hlast
  have hfalse := hpost _ (List.mem_of_getLast? hlast.symm)
  cases hfalse

/-- The index of two frames covers them, and so it does when the append for the first failed:
then the record of the second is there and not counted, and the index is refused. -/
theorem index_covers_two_frames :
    IndexCovers (twoRowIndex true) twoRowSegment.file
        [⟨0, 3, 3, 154, 23⟩, ⟨0, 3, 3, 177, 23⟩] ∧
      indexOpenRead (twoRowIndex true) twoRowSegment.file = some 2 ∧
      IndexCovers (twoRowIndex false) twoRowSegment.file
        [⟨0, 3, 3, 154, 23⟩, ⟨0, 3, 3, 177, 23⟩] ∧
      (twoRowIndex false).length = 52 + 83 ∧
      indexOpenRead (twoRowIndex false) twoRowSegment.file = none := by
  have hinfos : expectedInfos false twoRowSegment.head.length
      [⟨0, [1, 2, 3], 3⟩, ⟨0, [4, 5, 6], 3⟩] = [⟨0, 3, 3, 154, 23⟩, ⟨0, 3, 3, 177, 23⟩] := by
    decide +kernel
  have hcovers : ∀ first, IndexCovers (twoRowIndex first) twoRowSegment.file
      (expectedInfos false twoRowSegment.head.length
        [⟨0, [1, 2, 3], 3⟩, ⟨0, [4, 5, 6], 3⟩]) := fun first =>
    (index_covers_segment_iff noEvp noEvp_laws zeroKey none
      ⟨plainHeader, [9, 9], [⟨0, [1, 2, 3], 3⟩, ⟨0, [4, 5, 6], 3⟩], some { entryCount := 2 }⟩
      twoRowSegment rfl rfl noGetters (twoRowFrames first) rfl (by decide : 2 < 2 ^ 64) _
      (writeIndex_twoRowFrames first)).mpr (.inl (not_missesLast_twoRowFrames first))
  rw [hinfos] at hcovers
  exact ⟨hcovers true, by decide +kernel, hcovers false, by decide +kernel, by decide +kernel⟩

/-- **An accepted index that misses a frame**: the append for the only frame fails, and the
closed index is accepted with no rows. -/
theorem lastAppendFailed_accepted :
    ∃ (s : SegmentSource) (w : WrittenSegment) (frames : List IndexedFrame) (file : Bytes),
      writeSegment noEvp zeroKey none s = some w ∧ s.footer.isSome = true ∧
      s.frames = frames.map (·.frame) ∧
      writeIndex noGetters s.header false w.head.length frames (UInt64.ofNat w.file.length) =
        some file ∧
      indexOpenRead file w.file = some 0 ∧
      ¬ IndexCovers file w.file (expectedInfos false w.head.length s.frames) := by
  have hwrite : writeSegment noEvp zeroKey none
      ⟨plainHeader, [9, 9], [⟨0, [1, 2, 3], 3⟩], some { entryCount := 1 }⟩ =
      some ⟨headerImage plainHeader [] [9, 9], [frameImage (frameHeader 0 3 3 23) [1, 2, 3] []],
        footerImage { entryCount := 1 }⟩ := rfl
  have haccepted := accepted_of_missesLast noEvp_laws hwrite noGetters
    [⟨⟨0, [1, 2, 3], 3⟩, [1, 2, 3], false⟩] rfl (by decide) rfl (by decide) (by decide) [] _ rfl
    (by simp) (by simp)
  refine ⟨_, _, [⟨⟨0, [1, 2, 3], 3⟩, [1, 2, 3], false⟩], _, hwrite, rfl, rfl, rfl, haccepted, ?_⟩
  intro hcovers
  have hrows := congrArg List.length (hcovers 0 haccepted)
  cases hrows

end Recorder.Analysis
