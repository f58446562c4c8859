import Recorder.Analysis.IteratorCursor
import Recorder.Model.Cursor

/-!
# Cursor strings

**Main result** (`cursor_round_trip`): what `rec_player_get_cursor` prints fits its buffer and
`parse_cursor` reads the same five values from it, so no two entries of a store have the same
cursor. The fields are told apart by the colons: neither a group name nor a digit is one
(`colon_not_mem_group`), and a group name that looks like a number is read as a text.
-/

set_option autoImplicit false

namespace Recorder.Analysis

open Recorder.Lib Recorder.Model

variable {storeId : UInt64} {group : Bytes} {segmentSeq frameOffset : UInt64}
  {frameEntryIndex : UInt32}

/-- A valid group name has no colon. -/
theorem colon_not_mem_group (h : readerValidGroupName group = true) : colon ∉ group := by
  intro hmem
  unfold readerValidGroupName at h
  rw [Bool.and_eq_true, List.all_eq_true] at h
  exact absurd (h.2 colon hmem) (by decide)

/-- A valid group name is not empty. -/
theorem ne_nil_of_validGroupName (h : readerValidGroupName group = true) : group ≠ [] := by
  rintro rfl
  exact absurd h (by decide)

/-- A cursor fits 128 bytes. -/
theorem length_cursorText_le (hlen : group.length ≤ 63) :
    (cursorText storeId group segmentSeq frameOffset frameEntryIndex).length ≤ 128 := by
  have hstore : (hexPadded 16 storeId.toNat).length ≤ 16 :=
    length_hexPadded_le (by decide) storeId.toNat_lt
  have hseq : (hexadecimal segmentSeq.toNat).length ≤ 16 :=
    length_hexadecimal_le (by decide) segmentSeq.toNat_lt
  have hoff : (hexadecimal frameOffset.toNat).length ≤ 16 :=
    length_hexadecimal_le (by decide) frameOffset.toNat_lt
  have hindex : (hexadecimal frameEntryIndex.toNat).length ≤ 8 :=
    length_hexadecimal_le (by decide) frameEntryIndex.toNat_lt
  simp only [cursorText, cursorTag, List.length_append, List.length_cons, List.length_nil]
  omega

/-- A number is followed by a colon or by nothing. -/
theorem behind_number (rest : Bytes) :
    ∀ b ∈ (colon :: rest).head?, isHexDigit b = false ∧ b ≠ 120 ∧ b ≠ 88 := by
  intro b hb
  have hb : b = colon := (Option.some.inj hb).symm
  rw [hb]
  decide

/-- A number in front of a colon is read back. -/
theorem sscanf_hexadecimal {bits n : ℕ} (format : List Directive) (rest : Bytes)
    (hn : n < 2 ^ bits) (hbits : bits ≤ 64) :
    sscanf (.hex bits :: .literal colon :: format) (hexadecimal n ++ colon :: rest) =
      .number n :: sscanf format rest := by
  rw [sscanf_hex _ (hexadecimal_ne_nil n) (fun d hd => isHexDigit_of_mem_hexadecimal hd)
    (by rw [hexValue_hexadecimal]; exact hn) hbits (behind_number rest), hexValue_hexadecimal]
  rfl

/-- **The scan finds the five fields.** -/
theorem sscanf_cursorText (hvalid : readerValidGroupName group = true) (hlen : group.length ≤ 63) :
    sscanf cursorFormat (cursorText storeId group segmentSeq frameOffset frameEntryIndex) =
      [.number storeId.toNat, .text group, .number segmentSeq.toNat, .number frameOffset.toNat,
        .number frameEntryIndex.toNat] := by
  unfold cursorFormat cursorText
  rw [List.append_assoc, sscanf_literals,
    sscanf_hex _ (hexPadded_ne_nil 16 _) (fun d hd => isHexDigit_of_mem_hexPadded hd)
      (by rw [hexValue_hexPadded]; exact storeId.toNat_lt) (Nat.le_refl _) (behind_number _),
    hexValue_hexPadded]
  have hgroup : sscanf (.literal colon :: .untilStop 63 colon :: .literal colon ::
      [.hex 64, .literal colon, .hex 64, .literal colon, .hex 32, .char])
      (colon :: (group ++ colon :: (hexadecimal segmentSeq.toNat ++ colon ::
        (hexadecimal frameOffset.toNat ++ colon :: hexadecimal frameEntryIndex.toNat)))) =
      .text group :: sscanf [.hex 64, .literal colon, .hex 64, .literal colon, .hex 32, .char]
        (hexadecimal segmentSeq.toNat ++ colon :: (hexadecimal frameOffset.toNat ++ colon ::
          hexadecimal frameEntryIndex.toNat)) := by
    rw [sscanf, if_pos rfl, sscanf_untilStop _ (ne_nil_of_validGroupName hvalid) hlen
      (colon_not_mem_group hvalid), sscanf, if_pos rfl]
  have hindex : sscanf [.hex 32, .char] (hexadecimal frameEntryIndex.toNat) =
      [.number frameEntryIndex.toNat] := by
    have hend : ∀ b ∈ ([] : Bytes).head?, isHexDigit b = false ∧ b ≠ 120 ∧ b ≠ 88 := by
      intro b hb
      cases hb
    have hfit : hexValue (hexadecimal frameEntryIndex.toNat) < 2 ^ 32 := by
      rw [hexValue_hexadecimal]
      exact frameEntryIndex.toNat_lt
    have h := sscanf_hex [.char] (hexadecimal_ne_nil frameEntryIndex.toNat)
      (fun d hd => isHexDigit_of_mem_hexadecimal hd) hfit (by decide) hend
    rw [List.append_nil, hexValue_hexadecimal] at h
    exact h
  rw [hgroup, sscanf_hexadecimal _ _ segmentSeq.toNat_lt (Nat.le_refl _),
    sscanf_hexadecimal _ _ frameOffset.toNat_lt (Nat.le_refl _), hindex]

/-- A printed cursor is read back. -/
theorem parseCursor_cursorText (hvalid : readerValidGroupName group = true)
    (hlen : group.length ≤ 63) {groupSize : ℕ} (hsize : 64 ≤ groupSize) :
    parseCursor (some (cursorText storeId group segmentSeq frameOffset frameEntryIndex))
      groupSize = some ⟨storeId, group, segmentSeq, frameOffset, frameEntryIndex⟩ := by
  unfold parseCursor
  simp only [sscanf_cursorText hvalid hlen, if_neg (Nat.not_lt.mpr hsize), hvalid,
    UInt64.ofNat_toNat, UInt32.ofNat_toNat]
  rfl

/-- A cursor is not cut. -/
theorem recPlayerGetCursor_eq {entry : StoredEntry}
    (hvalid : readerValidGroupName entry.group = true) (hlen : entry.group.length ≤ 63) :
    recPlayerGetCursor (some storeId) (some entry) =
      some (cursorText storeId entry.group entry.segmentSeq entry.frameOffset
        entry.frameEntryIndex) := by
  have hcursor : (cursorText storeId entry.group entry.segmentSeq entry.frameOffset
      entry.frameEntryIndex).length ≤ cursorSize - 1 :=
    (length_cursorText_le hlen).trans (by decide)
  unfold recPlayerGetCursor
  simp only [hvalid, snprintf, List.take_of_length_le hcursor]
  rfl

/-- Locations are unique along the entries of a store. -/
theorem selectedEntries_location_ne {store : Store} (hwf : StoreWf store) (filter : List Bytes) :
    (selectedEntries store filter).Pairwise fun a b => compareLocation a b ≠ .eq := by
  unfold selectedEntries
  rw [List.pairwise_flatMap]
  constructor
  · intro f _
    refine (fileEntries_pairwise f).imp fun hfile heq => ?_
    rw [hfile.location_lt] at heq
    cases heq
  · have hnames : (store.files.filter fun f => groupAllowed filter f.group).Pairwise
        fun f g => f.group = g.group → f.nameSeq ≠ g.nameSeq := List.Pairwise.filter _ hwf.names
    refine hnames.imp_of_mem ?_
    intro f g hf hg hne a ha b hb heq
    obtain ⟨hgroup, hseq, -, -⟩ := compareLocation_eq.mp heq
    obtain ⟨hga, hsa, -, -⟩ := mem_fileEntries ha
    obtain ⟨hgb, hsb, -, -⟩ := mem_fileEntries hb
    apply hne
    · rw [← hga, ← hgb, hgroup]
    · rw [← hwf.headers f (List.mem_filter.mp hf).1, ← hwf.headers g (List.mem_filter.mp hg).1,
        ← hsa, ← hsb, hseq]

/-- **Cursor strings round trip**, and tell the entries of a store apart. -/
theorem cursor_round_trip (storeId : UInt64) :
    (∀ entry : StoredEntry, readerValidGroupName entry.group = true → entry.group.length ≤ 63 →
      ∃ cursor, recPlayerGetCursor (some storeId) (some entry) = some cursor ∧
        cursor = cursorText storeId entry.group entry.segmentSeq entry.frameOffset
          entry.frameEntryIndex ∧
        cursor.length < cursorSize ∧
        ∀ groupSize, 64 ≤ groupSize → parseCursor (some cursor) groupSize =
          some ⟨storeId, entry.group, entry.segmentSeq, entry.frameOffset,
            entry.frameEntryIndex⟩) ∧
    ∀ (store : Store) (filter : List Bytes), StoreWf store →
      (∀ f ∈ store.files, readerValidGroupName f.group = true ∧ f.group.length ≤ 63) →
      (selectedEntries store filter).Pairwise fun a b =>
        recPlayerGetCursor (some storeId) (some a) ≠
          recPlayerGetCursor (some storeId) (some b) := by
  constructor
  · intro entry hvalid hlen
    refine ⟨_, recPlayerGetCursor_eq hvalid hlen, rfl, ?_, ?_⟩
    · exact lt_of_le_of_lt (length_cursorText_le hlen) (by decide)
    · intro groupSize hsize
      exact parseCursor_cursorText hvalid hlen hsize
  · intro store filter hwf hgroups
    have hname : ∀ e ∈ selectedEntries store filter,
        readerValidGroupName e.group = true ∧ e.group.length ≤ 63 := by
      intro e he
      obtain ⟨f, hf, -, hef⟩ := mem_selectedEntries he
      rw [(mem_fileEntries hef).1]
      exact hgroups f hf
    refine (selectedEntries_location_ne hwf filter).imp_of_mem ?_
    intro a b ha hb hne heq
    obtain ⟨hvalid, hlen⟩ := hname a ha
    obtain ⟨hvalid', hlen'⟩ := hname b hb
    rw [recPlayerGetCursor_eq hvalid hlen, recPlayerGetCursor_eq hvalid' hlen'] at heq
    -- equal cursors are read as equal fields
    have hfields := congrArg (fun cursor => parseCursor cursor 64) heq
    simp only [parseCursor_cursorText hvalid hlen (Nat.le_refl 64),
      parseCursor_cursorText hvalid' hlen' (Nat.le_refl 64), Option.some.injEq,
      CursorFields.mk.injEq, true_and] at hfields
    exact hne (compareLocation_eq.mpr hfields)

/-- An entry of a group whose name looks like a number, and the four entries of a store. -/
theorem cursor_round_trip_hexadecimal_group :
    (∃ cursor, recPlayerGetCursor (some 7) (some ⟨⟨0, 0, 0, none⟩, 1, [0x62, 0x65], 3, 152, 4⟩) =
        some cursor ∧
      parseCursor (some cursor) 64 = some ⟨7, [0x62, 0x65], 3, 152, 4⟩) ∧
    (selectedEntries turnStore []).length = 4 ∧
    (selectedEntries turnStore []).Pairwise fun a b =>
      recPlayerGetCursor (some 7) (some a) ≠ recPlayerGetCursor (some 7) (some b) := by
  constructor
  · obtain ⟨cursor, hcursor, -, -, hparse⟩ := (cursor_round_trip 7).1
      ⟨⟨0, 0, 0, none⟩, 1, [0x62, 0x65], 3, 152, 4⟩ (by decide) (by decide)
    exact ⟨cursor, hcursor, hparse 64 (Nat.le_refl 64)⟩
  · exact ⟨by decide, (cursor_round_trip 7).2 turnStore [] turnStore_wf (by decide)⟩

end Recorder.Analysis
