import Recorder.Analysis.BootNumbers
import Recorder.Analysis.CallReading
import Recorder.Lib.Blocks

/-!
# The keys of received entries

`RECORDER_ORDER_RECORDED` compares the number of the boot, the monotonic time and the tie
order. The recorder gives an entry the number of its boot and its tie order when it receives
it, before the modifiers see it. Where the boots of the journal come one after the other, are
at most 256 and have ids, the table numbers them in the order they arrive in
(`InArrivalOrder`), and the key of an entry is larger than that of the entry received before
it (`received_key_lt`).

**Main result**: `accepted_keys_increase`. The keys of the accepted entries increase strictly.
-/

set_option autoImplicit false

namespace Recorder.Analysis

open Recorder.Model Recorder.Lib

/-! ## Keys -/

/-- What `RECORDER_ORDER_RECORDED` compares before the location. -/
structure RecordedKey where
  bootSeq : UInt32
  monotonicTs : UInt64
  tieOrder : UInt16
  deriving DecidableEq, Repr

/-- The comparison of keys. -/
def compareKeys : RecordedKey → RecordedKey → Ordering :=
  compareLex (compareOn (·.bootSeq)) <| compareLex (compareOn (·.monotonicTs))
    (compareOn (·.tieOrder))

instance : Std.TransCmp compareKeys := by
  unfold compareKeys
  infer_instance

/-- Smaller by the first part that differs. -/
theorem compareKeys_lt {a b : RecordedKey} :
    compareKeys a b = .lt ↔ a.bootSeq < b.bootSeq ∨ a.bootSeq = b.bootSeq ∧
      (a.monotonicTs < b.monotonicTs ∨
        a.monotonicTs = b.monotonicTs ∧ a.tieOrder < b.tieOrder) := by
  simp only [compareKeys, compareLex, compareOn, Ordering.then_eq_lt, Std.compare_eq_lt,
    Std.LawfulEqCmp.compare_eq_iff_eq]

/-- The key of an entry. -/
def entryKey (e : LogEntry) : RecordedKey := ⟨e.bootSeq, e.monotonicTs, e.monotonicTieOrder⟩

/-- The key of the entry received last. -/
def lastKey (r : RecorderState) : RecordedKey :=
  ⟨r.lastReceivedBootSeq, r.lastReceivedMonotonicTs, r.monotonicTieOrder⟩

/-! ## The table of boots -/

/-- The ids of a table with their numbers. -/
def tableRows (boots : BootRegistry) : List (Bytes × UInt32) :=
  boots.boots.map fun b => (b.id, b.seq)

/-- A table has as many rows as boots. -/
@[simp] theorem length_tableRows (boots : BootRegistry) :
    (tableRows boots).length = boots.boots.length := List.length_map _

/-- **What `extract_entry` does to the table**: the boot is there, or it is added with its
place for a number, or the table is full. -/
theorem extractBoot_rows (boots : BootRegistry) {e : LogEntry} (hne : e.bootId ≠ []) :
    (∃ row ∈ tableRows boots, row.1 = e.bootId ∧ (extractBoot boots e).2.bootSeq = row.2 ∧
      tableRows (extractBoot boots e).1 = tableRows boots) ∨
    ((∀ row ∈ tableRows boots, row.1 ≠ e.bootId) ∧
      boots.boots.length < maxBoots ∧
      (extractBoot boots e).2.bootSeq = UInt32.ofNat boots.boots.length ∧
      tableRows (extractBoot boots e).1 =
        tableRows boots ++ [(e.bootId, UInt32.ofNat boots.boots.length)]) ∨
    ((∀ row ∈ tableRows boots, row.1 ≠ e.bootId) ∧ boots.boots.length = maxBoots) := by
  have hrows : tableRows (extractBoot boots e).1 =
      tableRows (bootRegistryGet (bootRegistryGet boots e.bootId).1 e.bootId).1 := by
    unfold extractBoot
    simp only [if_neg hne, bootRegistrySeq]
    apply map_modify_eq
    intro b
    split <;> exact ⟨rfl, rfl⟩
  have hseq : (extractBoot boots e).2.bootSeq =
      (((bootRegistryGet boots e.bootId).1.boots[(bootRegistryGet boots e.bootId).2]?.map
        (·.seq)).getD 0) := by
    unfold extractBoot
    simp only [if_neg hne, bootRegistrySeq]
  have hnot : (∀ b ∈ boots.boots, b.id ≠ e.bootId) → ∀ row ∈ tableRows boots, row.1 ≠ e.bootId := by
    intro hnew row hrow
    obtain ⟨b, hb, rfl⟩ := List.mem_map.mp hrow
    exact hnew b hb
  rcases bootRegistryGet_cases boots e.bootId with
    ⟨i, b, hb, hid, hget⟩ | ⟨hnew, hlt, hget, hi⟩ | ⟨hnew, hfull, -⟩
  · left
    refine ⟨(b.id, b.seq), List.mem_map.mpr ⟨b, List.mem_of_getElem? hb, rfl⟩, hid, ?_, ?_⟩
    · rw [hseq, hget]
      simp only [hb, Option.map_some, Option.getD_some]
    · rw [hrows, hget, hget]
  · refine .inr (.inl ⟨hnot hnew, hlt, ?_, ?_⟩)
    · rw [hseq, hget, hi]
      simp only [List.getElem?_concat_length, Option.map_some, Option.getD_some]
    · -- asked a second time, the table has the boot
      have hadded : ⟨e.bootId, UInt32.ofNat boots.boots.length, 0, 0⟩ ∈
          (bootRegistryGet boots e.bootId).1.boots := by
        rw [hget]
        exact List.mem_append_right _ (List.mem_singleton.mpr rfl)
      have hagain : bootRegistryGet (bootRegistryGet boots e.bootId).1 e.bootId =
          bootRegistryGet boots e.bootId := by
        rcases bootRegistryGet_cases (bootRegistryGet boots e.bootId).1 e.bootId with
          ⟨j, c, hc, hcid, hget'⟩ | ⟨hnew', -, -, -⟩ | ⟨hnew', -, -⟩
        · rw [hget']
          have hj : j = (bootRegistryGet boots e.bootId).2 := by
            rw [hget] at hc
            rw [hi]
            by_contra hne'
            rcases Nat.lt_or_gt_of_ne hne' with hlt' | hgt
            · rw [List.getElem?_append_left hlt'] at hc
              exact hnew c (List.mem_of_getElem? hc) hcid
            · rw [List.getElem?_eq_none (by simp; omega)] at hc
              cases hc
          rw [hj]
        · exact absurd rfl (hnew' _ hadded)
        · exact absurd rfl (hnew' _ hadded)
      rw [hrows, hagain]
      simp only [tableRows, hget, List.map_append, List.map_cons, List.map_nil]
  · exact .inr (.inr ⟨hnot hnew, hfull⟩)

/-- The rows of a table number the boots of the entries `done` by their places, and the last
row is that of the last entry. -/
structure InArrivalOrder (rows : List (Bytes × UInt32)) (done : List LogEntry) : Prop where
  nodup : (rows.map (·.1)).Nodup
  seqs : ∀ i row, rows[i]? = some row → row.2 = UInt32.ofNat i
  among : ∀ row ∈ rows, ∃ d ∈ done, d.bootId = row.1
  last : ∀ l ∈ done.getLast?, ∃ row ∈ rows.getLast?, row.1 = l.bootId

/-- A journal the table of boots has room for. -/
structure RoomForBoots (journal : List LogEntry) : Prop where
  ids : ∀ e ∈ journal, e.bootId ≠ []
  few : (journal.map (·.bootId)).dedup.length ≤ maxBoots

section Table

variable {boots : BootRegistry} {journal done rest : List LogEntry} {e : LogEntry}

/-- Where the table is full, it has all boots of the journal. -/
theorem InArrivalOrder.room (h : InArrivalOrder (tableRows boots) done)
    (hroom : RoomForBoots journal) (hdone : ∀ d ∈ done, d ∈ journal) (he : e ∈ journal)
    (hnew : ∀ row ∈ tableRows boots, row.1 ≠ e.bootId) : boots.boots.length < maxBoots := by
  have hids : IdsAmong (journal.map (·.bootId)) boots := by
    constructor
    · have hnodup := h.nodup
      rw [tableRows, List.map_map] at hnodup
      exact hnodup
    · intro b hb
      obtain ⟨d, hd, hid⟩ := h.among _ (List.mem_map_of_mem (f := fun b => (b.id, b.seq)) hb)
      exact List.mem_map.mpr ⟨d, hdone d hd, hid⟩
  apply hids.room hroom.few (List.mem_map_of_mem (f := fun d : LogEntry => d.bootId) he)
  intro b hb
  exact hnew _ (List.mem_map_of_mem (f := fun b => (b.id, b.seq)) hb)

/-- **A received entry has the last number of the table.** The table has grown, or the boot is
that of the entry in front. -/
theorem InArrivalOrder.extract (h : InArrivalOrder (tableRows boots) done)
    (hroom : RoomForBoots journal) (hjournal : journal = done ++ e :: rest)
    (hboots : Contiguous (·.bootId) journal) :
    InArrivalOrder (tableRows (extractBoot boots e).1) (done ++ [e]) ∧
      (extractBoot boots e).2.bootSeq.toNat + 1 = (extractBoot boots e).1.boots.length ∧
      (((extractBoot boots e).1.boots.length = boots.boots.length ∧
          ∃ l ∈ done.getLast?, l.bootId = e.bootId) ∨
        boots.boots.length < (extractBoot boots e).1.boots.length) := by
  have he : e ∈ journal := by simp [hjournal]
  have hcount := boots.count_le
  rcases extractBoot_rows boots (hroom.ids e he) with
    ⟨row, hrow, hid, hseq, hrows⟩ | ⟨hnew, hlt, hseq, hrows⟩ | ⟨hnew, hfull⟩
  · obtain ⟨d, hd, hdid⟩ := h.among row hrow
    rw [hid] at hdid
    -- the boot does not come back, so it is that of the last entry
    rcases List.eq_nil_or_concat done with rfl | ⟨before, l, rfl⟩
    · cases hd
    have hl : l.bootId = e.bootId := by
      by_contra hne
      have hprefix : (before ++ [l]) ++ [e] <:+: journal := ⟨[], rest, by simp [hjournal]⟩
      exact (hboots.ofBlock hprefix).ne_of_mem (Ne.symm hne) (by simpa using hd) hdid
    obtain ⟨lastRow, hlast, hlastId⟩ := h.last l (by simp)
    have hsame : lastRow = row := List.inj_on_of_nodup_map h.nodup (List.mem_of_getLast? hlast)
      hrow (hlastId.trans (hl.trans hid.symm))
    have hpos : 0 < boots.boots.length := by
      rw [← length_tableRows]
      exact List.length_pos_of_mem hrow
    have hlength : (extractBoot boots e).1.boots.length = boots.boots.length := by
      rw [← length_tableRows, hrows, length_tableRows]
    refine ⟨⟨by rw [hrows]; exact h.nodup, by rw [hrows]; exact h.seqs, ?_, ?_⟩, ?_,
      .inl ⟨hlength, l, by simp, hl⟩⟩
    · rw [hrows]
      intro row' hrow'
      obtain ⟨d', hd', hid'⟩ := h.among row' hrow'
      exact ⟨d', List.mem_append_left _ hd', hid'⟩
    · rw [hrows]
      intro l' hl'
      rw [List.getLast?_concat] at hl'
      cases hl'
      exact ⟨lastRow, hlast, hlastId.trans hl⟩
    · rw [Option.mem_def, List.getLast?_eq_getElem?, length_tableRows] at hlast
      have hnumber := h.seqs _ _ hlast
      rw [hseq, ← hsame, hnumber, toNat_ofNat_count (by omega), hlength]
      omega
  · have hlength : (extractBoot boots e).1.boots.length = boots.boots.length + 1 := by
      rw [← length_tableRows, hrows, List.length_append, length_tableRows]
      rfl
    refine ⟨⟨?_, ?_, ?_, ?_⟩, ?_, .inr (by omega)⟩
    · rw [hrows, List.map_append, List.map_singleton]
      refine List.nodup_append.mpr ⟨h.nodup, List.nodup_singleton _, ?_⟩
      intro a ha b hb
      obtain ⟨row, hrow, rfl⟩ := List.mem_map.mp ha
      rw [List.mem_singleton.mp hb]
      exact hnew row hrow
    · intro i row hrow
      rw [hrows] at hrow
      by_cases hi : i < (tableRows boots).length
      · rw [List.getElem?_append_left hi] at hrow
        exact h.seqs i row hrow
      · have hi' : i = (tableRows boots).length := by
          by_contra hne
          rw [List.getElem?_eq_none (by simp; simp at hi hne; omega)] at hrow
          cases hrow
        rw [hi', List.getElem?_concat_length, Option.some.injEq] at hrow
        rw [← hrow, hi', length_tableRows]
    · rw [hrows]
      intro row hrow
      rcases List.mem_append.mp hrow with hrow | hrow
      · obtain ⟨d, hd, hid⟩ := h.among row hrow
        exact ⟨d, List.mem_append_left _ hd, hid⟩
      · rw [List.mem_singleton.mp hrow]
        exact ⟨e, by simp, rfl⟩
    · intro l hl
      rw [List.getLast?_concat] at hl
      cases hl
      exact ⟨_, by rw [hrows]; exact List.getLast?_concat, rfl⟩
    · rw [hseq, toNat_ofNat_count hlt, hlength]
  · have hlt := h.room hroom (by simp [hjournal]; tauto) he hnew
    omega

/-- The table keeps its rows and has one for the received entry. -/
theorem InArrivalOrder.rows (h : InArrivalOrder (tableRows boots) done)
    (hroom : RoomForBoots journal) (hdone : ∀ d ∈ done, d ∈ journal) (he : e ∈ journal) :
    (∀ row ∈ tableRows boots, row ∈ tableRows (extractBoot boots e).1) ∧
      (e.bootId, (extractBoot boots e).2.bootSeq) ∈ tableRows (extractBoot boots e).1 := by
  rcases extractBoot_rows boots (hroom.ids e he) with
    ⟨row, hrow, hid, hseq, hrows⟩ | ⟨-, -, hseq, hrows⟩ | ⟨hnew, hfull⟩
  · rw [hrows, hseq, ← hid]
    exact ⟨fun _ => id, hrow⟩
  · rw [hrows, hseq]
    exact ⟨fun _ => List.mem_append_left _, by simp⟩
  · have hlt := h.room hroom hdone he hnew
    omega

end Table

/-! ## Receiving an entry -/

/-- **The order of a journal**: the boots come one after the other, the monotonic time is
positive and does not run backwards within a boot, and fewer than 65536 entries in a row share
it. -/
structure JournalInOrder (journal : List LogEntry) : Prop where
  boots : Contiguous (·.bootId) journal
  positive : ∀ e ∈ journal, e.monotonicTs ≠ 0
  nondecreasing : journal.Pairwise fun a b => a.bootId = b.bootId → a.monotonicTs ≤ b.monotonicTs
  ties : ∀ run, run <:+: journal → (∀ a ∈ run, ∀ b ∈ run, a.monotonicTs = b.monotonicTs) →
    run.length < 65536

/-- The number of entries with the boot and the time of an entry. -/
def sameTime (e : LogEntry) (done : List LogEntry) : ℕ :=
  done.countP fun d => (d.bootId, d.monotonicTs) = (e.bootId, e.monotonicTs)

/-- Entries of one boot with one time stand in a row. -/
theorem JournalInOrder.sameTime_lt {journal : List LogEntry} (h : JournalInOrder journal)
    (e : LogEntry) : sameTime e journal < 65536 := by
  have hblock := (h.boots.refine h.nondecreasing).filter_isInfix (e.bootId, e.monotonicTs)
  have hlt := h.ties _ hblock (by
    intro a ha b hb
    have hta := of_decide_eq_true (List.mem_filter.mp ha).2
    have htb := of_decide_eq_true (List.mem_filter.mp hb).2
    exact (Prod.mk.inj (hta.trans htb.symm)).2)
  rw [sameTime, List.countP_eq_length_filter]
  exact hlt

/-- A key that is at most that of the last of the entries `done`, whose boot has the last of
`count` numbers. -/
def KeyReached (count : ℕ) (done : List LogEntry) (key : RecordedKey) : Prop :=
  key.bootSeq.toNat + 1 < count ∨
    key.bootSeq.toNat + 1 = count ∧ ∃ l ∈ done.getLast?,
      key.monotonicTs < l.monotonicTs ∨
        key.monotonicTs = l.monotonicTs ∧ key.tieOrder.toNat < sameTime l done

/-- The next entry is of a new boot, or of that of the entry in front and not earlier. -/
def NextEntry (count count' : ℕ) (done : List LogEntry) (e : LogEntry) : Prop :=
  count' = count ∧ (∃ l ∈ done.getLast?, l.bootId = e.bootId ∧ l.monotonicTs ≤ e.monotonicTs) ∨
    count < count'

section Keys

variable {count count' : ℕ} {done : List LogEntry} {e : LogEntry} {key : RecordedKey}

/-- An entry counts among those of its time. -/
theorem sameTime_concat (e : LogEntry) (done : List LogEntry) :
    sameTime e (done ++ [e]) = sameTime e done + 1 := by
  simp [sameTime]

/-- The key received last is reached by the entries behind it. -/
theorem KeyReached.next (h : KeyReached count done key) (hnext : NextEntry count count' done e) :
    KeyReached count' (done ++ [e]) key := by
  rcases hnext with ⟨rfl, l, hl, hid, hle⟩ | hlt
  · rcases h with hlt | ⟨heq, l', hl', htime⟩
    · exact .inl hlt
    · cases Option.mem_unique hl hl'
      refine .inr ⟨heq, e, List.getLast?_concat, ?_⟩
      rcases htime with hlt | ⟨hsame, htie⟩
      · exact .inl (UInt64.lt_of_lt_of_le hlt hle)
      · rcases UInt64.lt_or_eq_of_le hle with hlt | htime
        · exact .inl (hsame ▸ hlt)
        · refine .inr ⟨hsame.trans htime, ?_⟩
          have hsameTime : sameTime l done = sameTime e done := by
            rw [sameTime, sameTime, hid, htime]
          rw [sameTime_concat, ← hsameTime]
          omega
  · rcases h with hlt' | ⟨heq, -⟩
    · exact .inl (by omega)
    · exact .inl (by omega)

/-- A reached key with the boot and the time of the next entry has an order that was taken
before. -/
theorem KeyReached.tie (h : KeyReached count done key) (hnext : NextEntry count count' done e)
    (hboot : key.bootSeq.toNat + 1 = count') (hle : e.monotonicTs ≤ key.monotonicTs) :
    key.monotonicTs = e.monotonicTs ∧ key.tieOrder.toNat < sameTime e done := by
  rcases hnext with ⟨rfl, l, hl, hid, hle'⟩ | hlt
  · rcases h with hlt | ⟨-, l', hl', htime⟩
    · omega
    · cases Option.mem_unique hl hl'
      rcases htime with hlt | ⟨hsame, htie⟩
      · exact absurd (UInt64.lt_of_lt_of_le hlt (UInt64.le_trans hle' hle)) (UInt64.lt_irrefl _)
      · have htime : l.monotonicTs = e.monotonicTs :=
          UInt64.le_antisymm hle' (hsame ▸ hle)
        refine ⟨hsame.trans htime, ?_⟩
        rw [sameTime, hid, htime] at htie
        exact htie
  · rcases h with hlt' | ⟨heq, -⟩ <;> omega

end Keys

/-- The tie order of an entry with a time: the order after the last one, where the last entry
has the same boot and time. -/
theorem assignMonotonicTieOrder_key {r : RecorderState} {e : LogEntry} (hpos : e.monotonicTs ≠ 0) :
    ∃ order, (recorderAssignMonotonicTieOrder r e).2 = { e with monotonicTieOrder := order } ∧
      (recorderAssignMonotonicTieOrder r e).1 =
        { r with
          monotonicTieOrder := order
          lastReceivedMonotonicTs := e.monotonicTs
          lastReceivedBootSeq := e.bootSeq
          haveLastReceived := true } ∧
      ((r.haveLastReceived = true ∧ r.lastReceivedBootSeq = e.bootSeq ∧
          r.lastReceivedMonotonicTs = e.monotonicTs ∧
          order = if r.monotonicTieOrder < 0xffff then r.monotonicTieOrder + 1 else 0xffff) ∨
        ¬ (r.haveLastReceived = true ∧ r.lastReceivedBootSeq = e.bootSeq ∧
          r.lastReceivedMonotonicTs = e.monotonicTs) ∧ order = 0) := by
  unfold recorderAssignMonotonicTieOrder
  rw [if_neg hpos]
  refine ⟨_, rfl, rfl, ?_⟩
  by_cases hsame : r.haveLastReceived = true ∧ r.lastReceivedBootSeq = e.bootSeq ∧
      r.lastReceivedMonotonicTs = e.monotonicTs
  · left
    obtain ⟨hhave, hboot, htime⟩ := hsame
    exact ⟨hhave, hboot, htime, by simp [hhave, hboot, htime]⟩
  · right
    refine ⟨hsame, ?_⟩
    rw [if_neg]
    simpa [and_assoc] using hsame

/-- **The key of a received entry** is larger than that of the entry received before it. -/
theorem received_key_lt {count count' : ℕ} {journal done rest : List LogEntry}
    {r : RecorderState} {e : LogEntry} (hjournal : journal = done ++ e :: rest)
    (horder : JournalInOrder journal)
    (hlast : r.haveLastReceived = true → KeyReached count done (lastKey r))
    (hseq : (extractBoot r.boots e).2.bootSeq.toNat + 1 = count')
    (hnext : NextEntry count count' done e) :
    (received r e).1.haveLastReceived = true ∧
      entryKey (received r e).2 = lastKey (received r e).1 ∧
      KeyReached count' (done ++ [e]) (lastKey (received r e).1) ∧
      (r.haveLastReceived = true → compareKeys (lastKey r) (lastKey (received r e).1) = .lt) := by
  have he : e ∈ journal := by simp [hjournal]
  have hties : sameTime e done + 1 < 65536 := by
    have hlt := horder.sameTime_lt e
    rw [hjournal, sameTime, List.countP_append, List.countP_cons_of_pos (by simp)] at hlt
    rw [sameTime]
    omega
  set e' := (extractBoot r.boots e).2 with he'
  have htime : e'.monotonicTs = e.monotonicTs := rfl
  obtain ⟨order, hentry, hstate, hcases⟩ := assignMonotonicTieOrder_key
    (r := { r with boots := (extractBoot r.boots e).1 }) (e := e')
    (htime ▸ horder.positive e he)
  have hreceived : received r e =
      recorderAssignMonotonicTieOrder { r with boots := (extractBoot r.boots e).1 } e' := rfl
  have hkey : lastKey (received r e).1 = ⟨e'.bootSeq, e.monotonicTs, order⟩ := by
    rw [hreceived, hstate]
    rfl
  refine ⟨by rw [hreceived, hstate], ?_, ?_, ?_⟩
  · rw [hkey, hreceived, hentry]
    rfl
  · rw [hkey]
    refine .inr ⟨hseq, e, List.getLast?_concat, .inr ⟨rfl, ?_⟩⟩
    rw [sameTime_concat]
    rcases hcases with ⟨hhave, hboot, htimes, horder'⟩ | ⟨-, rfl⟩
    · obtain ⟨-, htie⟩ := (hlast hhave).tie hnext (by rw [← hseq, ← hboot]; rfl)
        (UInt64.le_of_eq htimes.symm)
      change r.monotonicTieOrder.toNat < _ at htie
      have hlt : r.monotonicTieOrder < 0xffff := by
        rw [UInt16.lt_iff_toNat_lt]
        have hmax : (0xffff : UInt16).toNat = 65535 := rfl
        omega
      dsimp only at horder'
      rw [horder', if_pos hlt, UInt16.toNat_add, UInt16.toNat_one]
      omega
    · exact Nat.succ_pos _
  · intro hhave
    rw [hkey, compareKeys_lt]
    have hreach := hlast hhave
    have hle : (lastKey r).bootSeq.toNat + 1 ≤ count' := by
      have hreach' := hreach.next hnext
      rcases hreach' with hlt | ⟨heq, -⟩ <;> omega
    by_cases hboot : (lastKey r).bootSeq = e'.bootSeq
    · right
      refine ⟨hboot, ?_⟩
      by_cases hbefore : e.monotonicTs ≤ (lastKey r).monotonicTs
      · obtain ⟨hsame, htie⟩ := hreach.tie hnext (by rw [← hseq, ← hboot]) hbefore
        right
        refine ⟨hsame, ?_⟩
        rcases hcases with ⟨-, -, -, horder'⟩ | ⟨hnot, -⟩
        · change r.monotonicTieOrder.toNat < _ at htie
          have hlt : r.monotonicTieOrder < 0xffff := by
            rw [UInt16.lt_iff_toNat_lt]
            have hmax : (0xffff : UInt16).toNat = 65535 := rfl
            omega
          dsimp only at horder'
          rw [horder', if_pos hlt, UInt16.lt_iff_toNat_lt, UInt16.toNat_add, UInt16.toNat_one]
          change r.monotonicTieOrder.toNat < _
          omega
        · exact absurd ⟨hhave, hboot, hsame⟩ hnot
      · exact .inl (UInt64.not_le.mp hbefore)
    · left
      rw [UInt32.lt_iff_toNat_lt]
      have hne : (lastKey r).bootSeq.toNat ≠ e'.bootSeq.toNat :=
        fun heq => hboot (UInt32.toNat_inj.mp heq)
      change (lastKey r).bootSeq.toNat < e'.bootSeq.toNat
      omega

/-! ## Along a run -/

/-- The entries the recorder has accepted, in the order in which it received them. -/
def acceptedEntries (r : RecorderState) : List LogEntry := r.history.accepted.map (·.2)

/-- The invariant of a run over a journal in order: the table and the key received last are
those of the entries read so far, and the accepted entries have increasing keys up to it. -/
structure KeyInv (journal : List LogEntry) (x : Stage) (r : RecorderState) : Prop where
  pending : r.currentEntryPending = false
  within : r.position ≤ journal.length
  table : InArrivalOrder (tableRows r.boots) (journal.take r.position)
  last : r.haveLastReceived = true →
    KeyReached r.boots.boots.length (journal.take r.position) (lastKey r)
  increasing : (acceptedEntries r).Pairwise fun a b => compareKeys (entryKey a) (entryKey b) = .lt
  bounded : ∀ a ∈ acceptedEntries r, r.haveLastReceived = true ∧
    (compareKeys (entryKey a) (lastKey r)).isLE
  held : ∀ e, x = .holding e ∨ x = .stored e → r.haveLastReceived = true ∧
    entryKey e = lastKey r ∧
    ∀ a ∈ acceptedEntries r, compareKeys (entryKey a) (entryKey e) = .lt

/-- Two states with the same keys. -/
structure SameKeys (r r' : RecorderState) : Prop where
  boots : r'.boots = r.boots
  position : r'.position = r.position
  pending : r'.currentEntryPending = r.currentEntryPending
  haveLastReceived : r'.haveLastReceived = r.haveLastReceived
  lastKey : lastKey r' = lastKey r
  accepted : r'.history.accepted = r.history.accepted

section Runs

variable {env : RecorderEnv} {config : RecorderConfig} {journal : List LogEntry}
  {r r' : RecorderState} {x y : Stage} {e : LogEntry}

/-- The invariant looks at the keys only. -/
theorem KeyInv.same (h : KeyInv journal x r) (hsame : SameKeys r r') : KeyInv journal x r' := by
  have haccepted : acceptedEntries r' = acceptedEntries r := by
    rw [acceptedEntries, hsame.accepted]
    rfl
  constructor
  · rw [hsame.pending]
    exact h.pending
  · rw [hsame.position]
    exact h.within
  · rw [hsame.boots, hsame.position]
    exact h.table
  · rw [hsame.boots, hsame.position, hsame.haveLastReceived, hsame.lastKey]
    exact h.last
  · rw [haccepted]
    exact h.increasing
  · rw [haccepted, hsame.haveLastReceived, hsame.lastKey]
    exact h.bounded
  · rw [haccepted, hsame.haveLastReceived, hsame.lastKey]
    exact h.held

/-- A stage that holds no other entry. -/
theorem KeyInv.stage (h : KeyInv journal x r)
    (hheld : ∀ e, y = .holding e ∨ y = .stored e →
      ∃ e', (x = .holding e' ∨ x = .stored e') ∧ entryKey e = entryKey e') :
    KeyInv journal y r := by
  refine ⟨h.pending, h.within, h.table, h.last, h.increasing, h.bounded, ?_⟩
  intro e he
  obtain ⟨e', he', hkey⟩ := hheld e he
  rw [hkey]
  exact h.held e' he'

/-- The table and the last key behind the next entry. -/
theorem KeyInv.next (hroom : RoomForBoots journal) (horder : JournalInOrder journal)
    (h : KeyInv journal .idle r) (he : journal[(atNextEntry r).position - 1]? = some e) :
    ∃ done rest, journal = done ++ e :: rest ∧ done = journal.take r.position ∧
      done ++ [e] = journal.take (atNextEntry r).position ∧
      (atNextEntry r).position ≤ journal.length ∧
      InArrivalOrder (tableRows (extractBoot r.boots e).1) (done ++ [e]) ∧
      (extractBoot r.boots e).2.bootSeq.toNat + 1 = (extractBoot r.boots e).1.boots.length ∧
      NextEntry r.boots.boots.length (extractBoot r.boots e).1.boots.length done e := by
  have hposition : (atNextEntry r).position = r.position + 1 := by
    simp only [atNextEntry, h.pending, Bool.false_eq_true, if_false]
  rw [hposition, Nat.add_sub_cancel] at he
  obtain ⟨hlt, hget⟩ := List.getElem?_eq_some_iff.mp he
  have hjournal : journal = journal.take r.position ++ e :: journal.drop (r.position + 1) := by
    rw [← hget, List.cons_getElem_drop_succ, List.take_append_drop]
  obtain ⟨htable, hseq, hgrown⟩ := h.table.extract hroom hjournal horder.boots
  refine ⟨_, _, hjournal, rfl, ?_, by omega, htable, hseq, ?_⟩
  · rw [hposition, List.take_add_one, he, Option.toList_some]
  · rcases hgrown with ⟨hlength, l, hl, hid⟩ | hlt'
    · refine .inl ⟨hlength, l, hl, hid, ?_⟩
      have hpair := horder.nondecreasing
      rw [hjournal, List.pairwise_append] at hpair
      exact hpair.2.2 l (List.mem_of_getLast? hl) e (by simp) hid
    · exact .inr hlt'

/-- Taking up the next entry keeps the invariant: its key is above every accepted one. -/
theorem KeyInv.takesUp (hinv : KeyInv journal .idle r) (hroom : RoomForBoots journal)
    (horder : JournalInOrder journal) (he : journal[(atNextEntry r).position - 1]? = some e) :
    KeyInv journal (.holding (received (atNextEntry r) e).2) (received (atNextEntry r) e).1 := by
  obtain ⟨-, -, hposition, hpending, hhistory, -⟩ := received_same (atNextEntry r) e
  obtain ⟨hboots, -⟩ := received_boots (atNextEntry r) e
  obtain ⟨done, rest, hjournal, hdone, htake, hwithin, htable, hseq, hnext⟩ :=
    hinv.next hroom horder he
  obtain ⟨hhave, hkey, hreached, hlt⟩ := received_key_lt (r := atNextEntry r) hjournal horder
    (by rw [hdone]; exact hinv.last) hseq hnext
  have haccepted : acceptedEntries (received (atNextEntry r) e).1 = acceptedEntries r := by
    rw [acceptedEntries, hhistory]
    rfl
  have hbelow : ∀ a ∈ acceptedEntries r,
      compareKeys (entryKey a) (lastKey (received (atNextEntry r) e).1) = .lt := by
    intro a ha
    obtain ⟨hhave', hle⟩ := hinv.bounded a ha
    exact Std.TransCmp.lt_of_isLE_of_lt hle (hlt hhave')
  constructor
  · rw [hpending]
    rfl
  · rw [hposition]
    exact hwithin
  · rw [hboots, hposition, ← htake]
    exact htable
  · intro _
    rw [hboots, hposition, ← htake]
    exact hreached
  · rw [haccepted]
    exact hinv.increasing
  · rw [haccepted]
    intro a ha
    exact ⟨hhave, by rw [hbelow a ha]; rfl⟩
  · rw [haccepted]
    rintro e' (⟨⟨⟩⟩ | ⟨⟨⟩⟩)
    exact ⟨hhave, hkey, by rw [hkey]; exact hbelow⟩

/-- So does giving its boot a number and then leaving the entry out. -/
theorem KeyInv.numbers (hinv : KeyInv journal .idle r) (hroom : RoomForBoots journal)
    (horder : JournalInOrder journal) (he : journal[(atNextEntry r).position - 1]? = some e) :
    KeyInv journal .idle { atNextEntry r with boots := (extractBoot r.boots e).1 } := by
  obtain ⟨done, rest, hjournal, hdone, htake, hwithin, htable, hseq, hnext⟩ :=
    hinv.next hroom horder he
  refine ⟨rfl, hwithin, ?_, ?_, hinv.increasing, hinv.bounded, by rintro e (⟨⟨⟩⟩ | ⟨⟨⟩⟩)⟩
  · change InArrivalOrder _ (journal.take (atNextEntry r).position)
    rw [← htake]
    exact htable
  · intro hhave
    change KeyReached _ (journal.take (atNextEntry r).position) (lastKey r)
    rw [← htake]
    exact KeyReached.next (hdone ▸ hinv.last hhave) hnext

/-- The entry stored is the last one accepted, and its key the one received last. -/
theorem KeyInv.noteAccepted (hinv : KeyInv journal (.stored e) r) (position : ℕ) :
    KeyInv journal .idle { r with history := { r.history with
      accepted := r.history.accepted ++ [(position, e)] } } := by
  obtain ⟨hhave, hkey, hbelow⟩ := hinv.held e (.inr rfl)
  have haccepted : acceptedEntries { r with history := { r.history with
      accepted := r.history.accepted ++ [(position, e)] } } = acceptedEntries r ++ [e] := by
    simp [acceptedEntries]
  refine ⟨hinv.pending, hinv.within, hinv.table, hinv.last, ?_, ?_,
    by rintro e (⟨⟨⟩⟩ | ⟨⟨⟩⟩)⟩
  · rw [haccepted]
    refine List.pairwise_append.mpr ⟨hinv.increasing, List.pairwise_singleton _ _, ?_⟩
    intro a ha b hb
    rw [List.mem_singleton.mp hb]
    exact hbelow a ha
  · rw [haccepted]
    intro a ha
    rcases List.mem_append.mp ha with ha | ha
    · exact hinv.bounded a ha
    · rw [List.mem_singleton.mp ha]
      refine ⟨hhave, ?_⟩
      change (compareKeys (entryKey e) (lastKey r)).isLE
      rw [hkey]
      exact Std.ReflCmp.isLE_rfl

/-- The invariant, as long as nothing fails and nothing is removed. -/
def KeyRunInv (journal : List LogEntry) (x : Stage) (r : RecorderState) : Prop :=
  r.history.failed = false → r.history.passes = [] → KeyInv journal x r

/-- The same holds along a run. -/
theorem KeyRunInv.same (h : KeyRunInv journal x r) (hsame : SameKeys r r')
    (hfailed : r'.history.failed = false → r.history.failed = false)
    (hpasses : r'.history.passes = [] → r.history.passes = []) : KeyRunInv journal x r' :=
  fun hok hnone => (h (hfailed hok) (hpasses hnone)).same hsame

/-- What leaves the segments alone leaves the keys. -/
theorem SameStored.sameKeys (h : SameStored r r') : SameKeys r r' where
  boots := h.boots
  position := h.position
  pending := h.currentEntryPending
  haveLastReceived := h.haveLastReceived
  lastKey := by
    rw [lastKey, h.lastReceivedBootSeq, h.lastReceivedMonotonicTs, h.monotonicTieOrder]
    rfl
  accepted := h.accepted

/-- A retention pass that is not noted has removed nothing. -/
theorem retention_of_passes_nil (h : (r.retention env config).2.history.passes = []) :
    SameStored r (r.retention env config).2 ∧ r.history.passes = [] := by
  unfold RecorderState.retention at h ⊢
  split at h
  · simp at h
  · rename_i hkeeps
    rw [if_neg hkeeps]
    exact ⟨{ SameStored.rfl (r := r) with }, h⟩

/-- No call breaks the invariant. -/
theorem key_rule (env : RecorderEnv) (config : RecorderConfig) (hroom : RoomForBoots journal)
    (horder : JournalInOrder journal) :
    RecorderRule env config journal (KeyRunInv journal)
      (fun _ e r => KeyRunInv journal (.holding e) r) where
  same := by
    intro x r r' hsame h
    refine h.same hsame.sameKeys hsame.failed ?_
    rw [hsame.passes]
    exact id
  receive := by
    intro r e he h hok hnone
    obtain ⟨-, -, -, -, hhistory, -⟩ := received_same (atNextEntry r) e
    rw [hhistory] at hok hnone
    exact (h hok hnone).takesUp hroom horder he
  numbered he h hok hnone := (h hok hnone).numbers hroom horder he
  modified := by
    intro r e priority texts h hok hnone
    apply (h hok hnone).stage
    rintro e' (⟨⟨⟩⟩ | ⟨⟨⟩⟩)
    exact ⟨e, .inl rfl, rfl⟩
  dropped h hok hnone := (h hok hnone).stage (by rintro e (⟨⟨⟩⟩ | ⟨⟨⟩⟩))
  pending := by
    intro r e hfailed h hok
    rw [hfailed] at hok
    cases hok
  accepted position h hok hnone := (h hok hnone).noteAccepted position
  again := by
    intro r e hfailed h hok
    rw [hfailed] at hok
    cases hok
  flush _ h := h.same ⟨rfl, rfl, rfl, rfl, rfl, rfl⟩ (fun hok => (after_failed_eq hok).1) id
  sync _ h := h.same ⟨rfl, rfl, rfl, rfl, rfl, rfl⟩ (fun hok => (after_failed_eq hok).1) id
  finish _ _ _ h := h.same ⟨rfl, rfl, rfl, rfl, rfl, rfl⟩ (fun hok => (after_failed_eq hok).1) id
  retention := by
    intro x r h hok hnone
    rw [retention_failed] at hok
    obtain ⟨hsame, hpasses⟩ := retention_of_passes_nil hnone
    exact (h hok hpasses).same hsame.sameKeys
  stays _ _ _ h := h
  opened _ _ _ h := h.same ⟨rfl, rfl, rfl, rfl, rfl, rfl⟩ (fun hok => (after_failed_eq hok).1) id
  notOpened _ _ h := h.same ⟨rfl, rfl, rfl, rfl, rfl, rfl⟩ (fun hok => (after_failed_eq hok).1) id
  added := by
    intro r e gi h hok hnone
    apply KeyInv.stage (x := .holding e)
    · exact (h (after_failed_eq hok).1 hnone).same ⟨rfl, rfl, rfl, rfl, rfl, rfl⟩
    · rintro e' (⟨⟨⟩⟩ | ⟨⟨⟩⟩)
      exact ⟨e, .inl rfl, rfl⟩
  notAdded := by
    intro r e gi err h hok
    cases (after_failed_eq hok).2

end Runs

/-- A recorder on an empty store. -/
structure FreshRecorder (r : RecorderState) : Prop extends RecorderStarted r where
  boots : r.boots = .init
  position : r.position = 0
  entryPending : r.currentEntryPending = false
  nothingReceived : r.haveLastReceived = false
  nextSegmentSeq : r.nextSegmentSeq = 1
  closed : r.closed = []

/-- A fresh recorder has accepted nothing and has an empty table. -/
theorem FreshRecorder.keyInv {journal : List LogEntry} {r : RecorderState} (h : FreshRecorder r) :
    KeyInv journal .idle r := by
  have haccepted : acceptedEntries r = [] := by
    rw [acceptedEntries, h.accepted]
    rfl
  refine ⟨h.entryPending, by rw [h.position]; exact Nat.zero_le _, ?_, ?_, ?_, ?_,
    by rintro e (⟨⟨⟩⟩ | ⟨⟨⟩⟩)⟩
  · rw [h.boots, h.position]
    exact ⟨List.nodup_nil, by simp [tableRows, BootRegistry.init],
      by simp [tableRows, BootRegistry.init], by simp⟩
  · intro hhave
    rw [h.nothingReceived] at hhave
    cases hhave
  · rw [haccepted]
    exact List.Pairwise.nil
  · rw [haccepted]
    intro e he
    cases he

/-- **The keys of the accepted entries increase** in the order in which the recorder received
them, in every run in which nothing fails and nothing is removed. -/
theorem accepted_keys_increase (env : RecorderEnv) (config : RecorderConfig)
    {journal : List LogEntry} (hroom : RoomForBoots journal) (horder : JournalInOrder journal)
    (calls : List RecorderCall) {start : RecorderState} (hstart : FreshRecorder start)
    (hok : (recorderRun env config journal calls start).history.failed = false)
    (hkeeps : (recorderRun env config journal calls start).history.passes = []) :
    (acceptedEntries (recorderRun env config journal calls start)).Pairwise fun a b =>
      compareKeys (entryKey a) (entryKey b) = .lt :=
  ((key_rule env config hroom horder).run calls (fun _ _ => hstart.keyInv) hok hkeeps).increasing

end Recorder.Analysis
