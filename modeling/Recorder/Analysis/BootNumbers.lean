import Recorder.Analysis.SegmentMetadata
import Recorder.Analysis.BootOrder
import Mathlib.Data.List.Dedup
import Mathlib.Data.List.Nodup
import Mathlib.Data.List.Perm.Subperm

/-!
# The number of a boot along a run

A segment header has the number its first entry was given when it was received, and entries
get their numbers from the registry. The registry keeps a number until a retention pass
replaces it by what the segments that are left say. Where each pass leaves a segment of
every boot in the table, the table and all segment headers agree at any time
(`boot_keeps_number`). A pass that leaves none makes the recorder forget the boot, and its
next entry is numbered anew.
-/

set_option autoImplicit false

namespace Recorder.Analysis

open Recorder.Model

/-! ## Numbers in the table -/

/-- The table has a boot with a number. -/
def Numbered (boots : BootRegistry) (id : Bytes) (n : UInt32) : Prop :=
  ∃ b ∈ boots.boots, b.id = id ∧ b.seq = n

/-- The ids of a table are different and among `ids`. -/
structure IdsAmong (ids : List Bytes) (boots : BootRegistry) : Prop where
  nodup : (boots.boots.map (·.id)).Nodup
  among : ∀ b ∈ boots.boots, b.id ∈ ids

section Table

variable {boots : BootRegistry} {ids : List Bytes} {id : Bytes} {n m : UInt32}

/-- A table of different ids has one number for each. -/
theorem Numbered.unique (hids : IdsAmong ids boots) (hn : Numbered boots id n)
    (hm : Numbered boots id m) : n = m := by
  obtain ⟨b, hb, hbid, hbn⟩ := hn
  obtain ⟨c, hc, hcid, hcm⟩ := hm
  have hbc : b = c := List.inj_on_of_nodup_map hids.nodup hb hc (hbid.trans hcid.symm)
  rw [← hbn, ← hcm, hbc]

/-- A table of at most 256 boots has room for the ones it misses. -/
theorem IdsAmong.room (h : IdsAmong ids boots) (hfew : ids.dedup.length ≤ maxBoots)
    (hid : id ∈ ids) (hnew : ∀ b ∈ boots.boots, b.id ≠ id) : boots.boots.length < maxBoots := by
  have hnodup : (id :: boots.boots.map (·.id)).Nodup := by
    refine List.nodup_cons.mpr ⟨?_, h.nodup⟩
    intro hmem
    obtain ⟨b, hb, hbid⟩ := List.mem_map.mp hmem
    exact hnew b hb hbid
  have hsub : (id :: boots.boots.map (·.id)) ⊆ ids.dedup := by
    intro x hx
    rw [List.mem_dedup]
    rcases List.mem_cons.mp hx with rfl | hx
    · exact hid
    · obtain ⟨b, hb, rfl⟩ := List.mem_map.mp hx
      exact h.among b hb
  have hlength := (List.Nodup.subperm hnodup hsub).length_le
  rw [List.length_cons, List.length_map] at hlength
  omega

/-- `boot_registry_get` finds the boot or adds it. -/
theorem bootRegistryGet_room (h : IdsAmong ids boots) (hfew : ids.dedup.length ≤ maxBoots)
    (hid : id ∈ ids) :
    IdsAmong ids (bootRegistryGet boots id).1 ∧
      (∀ b ∈ boots.boots, b ∈ (bootRegistryGet boots id).1.boots) ∧
      ∃ b, (bootRegistryGet boots id).1.boots[(bootRegistryGet boots id).2]? = some b ∧
        b.id = id := by
  rcases bootRegistryGet_cases boots id with
    ⟨i, b, hb, hbid, hget⟩ | ⟨hnew, hlt, hget, hi⟩ | ⟨hnew, hfull, -⟩
  · rw [hget]
    exact ⟨h, fun b hb => hb, b, hb, hbid⟩
  · refine ⟨⟨?_, ?_⟩, ?_, ?_⟩
    · rw [hget, List.map_append, List.map_singleton]
      refine List.nodup_append.mpr ⟨h.nodup, List.nodup_singleton _, ?_⟩
      intro a ha c hc
      obtain ⟨b, hb, rfl⟩ := List.mem_map.mp ha
      rw [List.mem_singleton.mp hc]
      exact hnew b hb
    · intro b hb
      rw [hget] at hb
      rcases List.mem_append.mp hb with hb | hb
      · exact h.among b hb
      · rw [List.mem_singleton.mp hb]
        exact hid
    · intro b hb
      rw [hget]
      exact List.mem_append_left _ hb
    · rw [hget, hi]
      exact ⟨_, List.getElem?_concat_length, rfl⟩
  · have hroom := h.room hfew hid hnew
    omega

/-- A change that keeps the ids. -/
theorem IdsAmong.modify (h : IdsAmong ids boots) (i : ℕ) {f : BootEntry → BootEntry}
    (hf : ∀ b, (f b).id = b.id) : IdsAmong ids (boots.modify i f) := by
  have hmap : (boots.modify i f).boots.map (·.id) = boots.boots.map (·.id) := by
    apply List.ext_getElem?
    intro j
    simp only [BootRegistry.modify, List.getElem?_map, List.getElem?_modify]
    cases boots.boots[j]? with
    | none => rfl
    | some b =>
      simp only [Option.map_eq_map, Option.map_some, Option.some.injEq]
      split
      · exact hf b
      · rfl
  constructor
  · rw [hmap]
    exact h.nodup
  · intro b hb
    have hbid : b.id ∈ boots.boots.map (·.id) := by
      rw [← hmap]
      exact List.mem_map_of_mem hb
    obtain ⟨c, hc, hcid⟩ := List.mem_map.mp hbid
    rw [← hcid]
    exact h.among c hc

/-- A change that keeps the number of an id. -/
theorem Numbered.modify (h : Numbered boots id n) {i : ℕ} {f : BootEntry → BootEntry}
    (hf : ∀ b, (f b).id = b.id)
    (hseq : ∀ b, boots.boots[i]? = some b → b.id = id → b.seq = n → (f b).seq = n) :
    Numbered (boots.modify i f) id n := by
  obtain ⟨b, hb, hbid, hbn⟩ := h
  obtain ⟨j, hj⟩ := List.mem_iff_getElem?.mp hb
  by_cases hij : i = j
  · refine ⟨f b, List.mem_iff_getElem?.mpr ⟨j, ?_⟩, (hf b).trans hbid,
      hseq b (by rw [hij]; exact hj) hbid hbn⟩
    simp [BootRegistry.modify, hj, hij]
  · refine ⟨b, List.mem_iff_getElem?.mpr ⟨j, ?_⟩, hbid, hbn⟩
    simp [BootRegistry.modify, hj, hij]

/-- The boot that is changed has its new number. -/
theorem numbered_modify_self {i : ℕ} {b : BootEntry} (hb : boots.boots[i]? = some b)
    (f : BootEntry → BootEntry) : Numbered (boots.modify i f) (f b).id (f b).seq := by
  refine ⟨f b, List.mem_iff_getElem?.mpr ⟨i, ?_⟩, rfl, rfl⟩
  simp [BootRegistry.modify, hb]

/-! ## Rebuilding the table -/

/-- The boot id a rebuild reads from a segment. -/
def scannedBoot (scanned : SegmentMeta) : Bytes :=
  strnlenPrefix bootIdSize scanned.header.bootId

/-- One segment of the rebuild: its boot has its number, and others keep theirs. -/
theorem rebuildStep_room {scanned : SegmentMeta} (h : IdsAmong ids boots)
    (hfew : ids.dedup.length ≤ maxBoots) (hid : scannedBoot scanned ∈ ids) :
    IdsAmong ids (bootRegistryRebuildStep boots scanned) ∧
      Numbered (bootRegistryRebuildStep boots scanned) (scannedBoot scanned)
        scanned.header.bootSeq ∧
      ∀ id n, Numbered boots id n →
        (scannedBoot scanned = id → scanned.header.bootSeq = n) →
        Numbered (bootRegistryRebuildStep boots scanned) id n := by
  obtain ⟨hids, hsub, b, hb, hbid⟩ := bootRegistryGet_room h hfew hid
  unfold bootRegistryRebuildStep
  refine ⟨hids.modify _ fun _ => rfl, ?_, ?_⟩
  · have hself := numbered_modify_self hb fun b =>
      { b with
        seq := scanned.header.bootSeq
        firstRealtimeTs :=
          if b.firstRealtimeTs = 0 ∨ scanned.header.firstRealtimeTs < b.firstRealtimeTs then
            scanned.header.firstRealtimeTs
          else b.firstRealtimeTs
        lastCleanRealtimeTs :=
          if scanned.footer.lastRealtimeTs > b.lastCleanRealtimeTs then
            scanned.footer.lastRealtimeTs
          else b.lastCleanRealtimeTs }
    simp only [hbid] at hself
    exact hself
  · intro id n hnumbered hsame
    apply Numbered.modify
    · obtain ⟨c, hc, hcid, hcn⟩ := hnumbered
      exact ⟨c, hsub c hc, hcid, hcn⟩
    · exact fun _ => rfl
    · intro c hc hcid _
      -- the entry that is changed is the one of the scanned boot
      have hcb : b = c := Option.some.inj (hb.symm.trans hc)
      rw [← hcb, hbid] at hcid
      exact hsame hcid

/-- **A rebuilt table** has each scanned boot, with the number on which its segments agree. -/
theorem rebuild_numbered {scanned : List SegmentMeta} (hfew : ids.dedup.length ≤ maxBoots)
    (hids : ∀ o ∈ scanned, scannedBoot o ∈ ids) :
    IdsAmong ids (bootRegistryRebuildFromSegments scanned) ∧
      ∀ id n, (∃ o ∈ scanned, scannedBoot o = id) →
        (∀ o ∈ scanned, scannedBoot o = id → o.header.bootSeq = n) →
        Numbered (bootRegistryRebuildFromSegments scanned) id n := by
  have hfold : ∀ (todo : List SegmentMeta) (boots : BootRegistry), IdsAmong ids boots →
      (∀ o ∈ todo, scannedBoot o ∈ ids) →
      IdsAmong ids (todo.foldl bootRegistryRebuildStep boots) ∧
        ∀ id n, (Numbered boots id n ∨ ∃ o ∈ todo, scannedBoot o = id) →
          (∀ o ∈ todo, scannedBoot o = id → o.header.bootSeq = n) →
          Numbered (todo.foldl bootRegistryRebuildStep boots) id n := by
    intro todo
    induction todo with
    | nil =>
      intro boots h _
      refine ⟨h, ?_⟩
      rintro id n (hn | ⟨o, ho, -⟩) _
      · exact hn
      · cases ho
    | cons o todo ih =>
      intro boots h htodo
      obtain ⟨hroom, hself, hkeeps⟩ := rebuildStep_room h hfew (htodo o List.mem_cons_self)
      obtain ⟨hids, hnumbered⟩ := ih _ hroom fun o ho => htodo o (List.mem_cons_of_mem _ ho)
      refine ⟨hids, ?_⟩
      intro id n hn hagree
      have ho := hagree o List.mem_cons_self
      apply hnumbered id n _ fun o ho => hagree o (List.mem_cons_of_mem _ ho)
      rcases hn with hn | ⟨p, hp, hpid⟩
      · exact .inl (hkeeps id n hn ho)
      · rcases List.mem_cons.mp hp with rfl | hp
        · left
          rw [← hpid, ← ho hpid]
          exact hself
        · exact .inr ⟨p, hp, hpid⟩
  have hinit : IdsAmong ids .init := ⟨List.nodup_nil, by simp [BootRegistry.init]⟩
  obtain ⟨h, hnumbered⟩ := hfold scanned .init hinit hids
  exact ⟨h, fun id n hmem => hnumbered id n (.inr hmem)⟩

/-- `extract_entry` numbers the entry and forgets no boot. -/
theorem extractBoot_room {e : LogEntry} (h : IdsAmong ids boots)
    (hfew : ids.dedup.length ≤ maxBoots) (hid : e.bootId ∈ ids) :
    IdsAmong ids (extractBoot boots e).1 ∧
      (e.bootId ≠ [] →
        Numbered (extractBoot boots e).1 e.bootId (extractBoot boots e).2.bootSeq) ∧
      ∀ id n, Numbered boots id n → Numbered (extractBoot boots e).1 id n := by
  have hseq : IdsAmong ids (bootRegistrySeq boots
      (if e.bootId = [] then none else some e.bootId)).1 ∧
      ∀ b ∈ boots.boots, b ∈ (bootRegistrySeq boots
        (if e.bootId = [] then none else some e.bootId)).1.boots := by
    by_cases hempty : e.bootId = []
    · rw [if_pos hempty]
      exact ⟨h, fun b hb => hb⟩
    · rw [if_neg hempty]
      obtain ⟨hids, hsub, -⟩ := bootRegistryGet_room h hfew hid
      exact ⟨hids, hsub⟩
  obtain ⟨hids, hsub, b, hb, hbid⟩ := bootRegistryGet_room hseq.1 hfew hid
  have hkeep : ∀ id n, Numbered (bootRegistrySeq boots
      (if e.bootId = [] then none else some e.bootId)).1 id n →
      Numbered (extractBoot boots e).1 id n := by
    intro id n hn
    unfold extractBoot
    apply Numbered.modify
    · obtain ⟨c, hc, hcid, hcn⟩ := hn
      exact ⟨c, hsub c hc, hcid, hcn⟩
    · intro c
      split <;> rfl
    · intro c _ _ hcn
      rw [← hcn]
      split <;> rfl
  refine ⟨?_, ?_, ?_⟩
  · exact hids.modify _ fun c => by split <;> rfl
  · intro hne
    apply hkeep
    obtain ⟨-, -, c, hc, hcid⟩ := bootRegistryGet_room h hfew hid
    refine ⟨c, ?_, hcid, ?_⟩
    · rw [if_neg hne]
      exact List.mem_of_getElem? hc
    · simp only [extractBoot, if_neg hne, bootRegistrySeq, hc, Option.map_some,
        Option.getD_some]
  · intro id n hn
    apply hkeep
    obtain ⟨c, hc, hcid, hcn⟩ := hn
    exact ⟨c, hseq.2 c hc, hcid, hcn⟩

/-! ## A full table -/

/-- What a table answers for a boot id without adding it: the number of the boot, or the
number of its last entry where it is full. -/
def Answers (boots : BootRegistry) (id : Bytes) (n : UInt32) : Prop :=
  match boots.boots.find? (·.id = id) with
  | some b => b.seq = n
  | none => boots.boots.length = maxBoots ∧ ∃ b ∈ boots.boots.getLast?, b.seq = n

/-- A table answers with one number. -/
theorem Answers.unique (hn : Answers boots id n) (hm : Answers boots id m) : n = m := by
  unfold Answers at hn hm
  cases hfind : boots.boots.find? (·.id = id) with
  | some b =>
    rw [hfind] at hn hm
    exact hn.symm.trans hm
  | none =>
    rw [hfind] at hn hm
    obtain ⟨-, b, hb, hbn⟩ := hn
    obtain ⟨-, c, hc, hcm⟩ := hm
    rw [Option.mem_unique hb hc] at hbn
    exact hbn.symm.trans hcm

/-- `boot_registry_get` answers for the boot, and as before for all others. -/
theorem bootRegistryGet_answers (boots : BootRegistry) (id : Bytes) :
    Answers (bootRegistryGet boots id).1 id
      (((bootRegistryGet boots id).1.boots[(bootRegistryGet boots id).2]?.map (·.seq)).getD 0) ∧
      ∀ id' n, Answers boots id' n → Answers (bootRegistryGet boots id).1 id' n := by
  have hfind : boots.boots.find? (·.id = id) =
      (boots.boots.findIdx? (·.id = id)).bind (boots.boots[·]?) :=
    List.find?_eq_bind_findIdx?_getElem?
  unfold bootRegistryGet
  cases hi : boots.boots.findIdx? (·.id = id) with
  | some i =>
    refine ⟨?_, fun id' n h => h⟩
    obtain ⟨hlt, -⟩ := List.findIdx?_eq_some_iff_getElem.mp hi
    rw [hi, Option.bind_some, List.getElem?_eq_getElem hlt] at hfind
    unfold Answers
    simp only [hfind, List.getElem?_eq_getElem hlt, Option.map_some, Option.getD_some]
  | none =>
    rw [hi, Option.bind_none] at hfind
    simp only
    split
    · rename_i hlt
      constructor
      · unfold Answers
        simp [List.find?_append, hfind]
      · intro id' n h
        unfold Answers at h ⊢
        simp only [List.find?_append]
        cases hother : boots.boots.find? (·.id = id') with
        | some b =>
          rw [hother] at h
          exact h
        | none =>
          rw [hother] at h
          exact absurd h.1 (Nat.ne_of_lt hlt)
    · rename_i hfull
      refine ⟨?_, fun id' n h => h⟩
      have hlength : boots.boots.length = maxBoots :=
        Nat.le_antisymm boots.count_le (Nat.le_of_not_lt hfull)
      have hlast : boots.boots.length - 1 < boots.boots.length := by
        rw [hlength]
        decide
      unfold Answers
      rw [hfind]
      refine ⟨hlength, boots.boots[boots.boots.length - 1], ?_, ?_⟩
      · rw [Option.mem_def, List.getLast?_eq_getElem?, List.getElem?_eq_getElem hlast]
      · rw [List.getElem?_eq_getElem hlast]
        rfl

/-- The answers depend on ids and numbers only. -/
theorem Answers.of_map {boots' : BootRegistry} (h : Answers boots id n)
    (hmap : boots'.boots.map (fun b => (b.id, b.seq)) =
      boots.boots.map fun b => (b.id, b.seq)) : Answers boots' id n := by
  have hfind : (boots'.boots.find? (·.id = id)).map (fun b => (b.id, b.seq)) =
      (boots.boots.find? (·.id = id)).map fun b => (b.id, b.seq) := by
    have hfind' := congrArg (List.find? fun p => p.1 = id) hmap
    simp only [List.find?_map] at hfind'
    exact hfind'
  have hlength : boots'.boots.length = boots.boots.length := by
    have hlength' := congrArg List.length hmap
    simp only [List.length_map] at hlength'
    exact hlength'
  have hlast : boots'.boots.getLast?.map (fun b => (b.id, b.seq)) =
      boots.boots.getLast?.map fun b => (b.id, b.seq) := by
    rw [← List.getLast?_map, ← List.getLast?_map, hmap]
  unfold Answers at h ⊢
  cases hold : boots.boots.find? (·.id = id) with
  | some b =>
    rw [hold] at h hfind
    obtain ⟨c, hc, hcb⟩ := Option.map_eq_some_iff.mp hfind
    rw [hc]
    exact (congrArg Prod.snd hcb).trans h
  | none =>
    rw [hold] at h hfind
    rw [Option.map_eq_none_iff.mp hfind]
    obtain ⟨hfull, b, hb, hbn⟩ := h
    rw [Option.mem_def.mp hb] at hlast
    obtain ⟨c, hc, hcb⟩ := Option.map_eq_some_iff.mp hlast
    exact ⟨hlength.trans hfull, c, hc, (congrArg Prod.snd hcb).trans hbn⟩

/-- A change that keeps ids and numbers. -/
theorem map_modify_eq (boots : BootRegistry) (i : ℕ) {f : BootEntry → BootEntry}
    (hf : ∀ b, (f b).id = b.id ∧ (f b).seq = b.seq) :
    (boots.modify i f).boots.map (fun b => (b.id, b.seq)) =
      boots.boots.map fun b => (b.id, b.seq) := by
  apply List.ext_getElem?
  intro j
  simp only [BootRegistry.modify, List.getElem?_map, List.getElem?_modify]
  cases boots.boots[j]? with
  | none => rfl
  | some b =>
    simp only [Option.map_eq_map, Option.map_some, Option.some.injEq, Prod.mk.injEq]
    split
    · exact hf b
    · exact ⟨rfl, rfl⟩

/-- `extract_entry` numbers the entry with what the table answers, then and later. -/
theorem extractBoot_answers (boots : BootRegistry) (e : LogEntry) :
    (e.bootId ≠ [] →
      Answers (extractBoot boots e).1 e.bootId (extractBoot boots e).2.bootSeq) ∧
      ∀ id n, Answers boots id n → Answers (extractBoot boots e).1 id n := by
  have hkeep : ∀ id n, Answers (bootRegistrySeq boots
      (if e.bootId = [] then none else some e.bootId)).1 id n →
      Answers (extractBoot boots e).1 id n := by
    intro id n hn
    unfold extractBoot
    apply ((bootRegistryGet_answers _ e.bootId).2 id n hn).of_map
    apply map_modify_eq
    intro b
    split <;> exact ⟨rfl, rfl⟩
  by_cases hempty : e.bootId = []
  · rw [if_pos hempty] at hkeep
    exact ⟨fun hne => absurd hempty hne, hkeep⟩
  · obtain ⟨hself, hothers⟩ := bootRegistryGet_answers boots e.bootId
    rw [if_neg hempty] at hkeep
    constructor
    · intro _
      apply hkeep
      simp only [extractBoot, if_neg hempty]
      exact hself
    · intro id n hn
      exact hkeep id n (hothers id n hn)

end Table

/-! ## Numberings -/

/-- A way to read the numbers of boots off a table: what holds of the read pointer, the table
and the numbers given so far, and what is known of boot ids. -/
structure Numbering where
  table : ℕ → BootRegistry → (Bytes → UInt32 → Prop) → Prop
  known : Bytes → Prop

/-- What has no boot id has number 0, and any other id a number it was given. -/
def HasNumber (given : Bytes → UInt32 → Prop) (id : Bytes) (n : UInt32) : Prop :=
  if id = [] then n = 0 else given id n

/-- The boot id in the header of a segment. -/
def fileBoot (f : SegmentOnDisk) : Bytes := strnlenPrefix bootIdSize f.header.bootId

/-- The header of a segment has a number that was given. -/
def Numbering.FileNumbered (N : Numbering) (given : Bytes → UInt32 → Prop) (f : SegmentOnDisk) :
    Prop :=
  N.known (fileBoot f) ∧ HasNumber given (fileBoot f) f.header.bootSeq

/-- **What keeps the numbers of boots**: an entry is given its number, and neither the next one
nor a retention pass that meets the condition `keeps` gives its boot another. -/
structure NumberingRule (N : Numbering) (journal : List LogEntry) (old : List SegmentOnDisk)
    (keeps : RetentionPass → Prop) : Prop where
  unique : ∀ {p boots given id n m}, N.table p boots given → given id n → given id m → n = m
  known : ∀ {e}, e ∈ journal → N.known e.bootId
  extract : ∀ {p p' boots given e}, p ≤ p' → journal[p' - 1]? = some e → N.table p boots given →
    ∃ given' : Bytes → UInt32 → Prop, N.table p' (extractBoot boots e).1 given' ∧
      (e.bootId ≠ [] → given' e.bootId (extractBoot boots e).2.bootSeq) ∧
      ∀ id n, given id n → given' id n
  rebuild : ∀ {pass given}, keeps pass → N.table pass.position pass.boots given →
    (∀ f ∈ pass.readable, f ∈ old ∨ N.FileNumbered given f) →
    N.table pass.position (bootRegistryRebuildFromSegments (pass.readable.map segmentMeta)) given

section Given

variable {N : Numbering} {given given' : Bytes → UInt32 → Prop} {id : Bytes} {n m : UInt32}

/-- Further numbers take none back. -/
theorem HasNumber.mono (h : HasNumber given id n) (hgiven : ∀ id n, given id n → given' id n) :
    HasNumber given' id n := by
  unfold HasNumber at h ⊢
  by_cases hempty : id = []
  · rw [if_pos hempty] at h ⊢
    exact h
  · rw [if_neg hempty] at h ⊢
    exact hgiven id n h

/-- The number of an id that is not empty was given. -/
theorem HasNumber.of_ne (h : HasNumber given id n) (hne : id ≠ []) : given id n := by
  unfold HasNumber at h
  rw [if_neg hne] at h
  exact h

/-- An id has one number. -/
theorem HasNumber.unique (hunique : given id n → given id m → n = m) (hn : HasNumber given id n)
    (hm : HasNumber given id m) : n = m := by
  unfold HasNumber at hn hm
  by_cases hempty : id = []
  · rw [if_pos hempty] at hn hm
    rw [hn, hm]
  · rw [if_neg hempty] at hn hm
    exact hunique hn hm

/-- Further numbers leave the header of a segment as it was. -/
theorem Numbering.FileNumbered.mono {f : SegmentOnDisk} (h : N.FileNumbered given f)
    (hgiven : ∀ id n, given id n → given' id n) : N.FileNumbered given' f :=
  ⟨h.1, h.2.mono hgiven⟩

end Given

/-- The invariant: the headers of all segments of the run have numbers that were given, the
removed ones included, and so has the entry at hand. -/
structure BootInv (N : Numbering) (old : List SegmentOnDisk) (given : Bytes → UInt32 → Prop)
    (x : Stage) (position : ℕ) (boots : BootRegistry) (closed : List SegmentOnDisk)
    (writers : ℕ → PriorityWriter) : Prop where
  table : N.table position boots given
  closed : ∃ new, closed = old ++ new ∧ ∀ f ∈ new, N.FileNumbered given f
  files : ∀ gi f, (writers gi).file = some f → N.FileNumbered given f
  held : ∀ e, x = .holding e ∨ x = .stored e →
    N.known e.bootId ∧ HasNumber given e.bootId e.bootSeq

section Invariant

variable {env : RecorderEnv} {config : RecorderConfig} {N : Numbering} {journal : List LogEntry}
  {old closed : List SegmentOnDisk} {keeps : RetentionPass → Prop} {x y : Stage} {p p' : ℕ}
  {boots boots' : BootRegistry} {given given' : Bytes → UInt32 → Prop}
  {writers : ℕ → PriorityWriter} {gi : ℕ} {r : RecorderState} {e : LogEntry}

/-- Another entry at hand. -/
theorem BootInv.stage (h : BootInv N old given x p boots closed writers)
    (hheld : ∀ e, y = .holding e ∨ y = .stored e →
      N.known e.bootId ∧ HasNumber given e.bootId e.bootSeq) :
    BootInv N old given y p boots closed writers :=
  ⟨h.table, h.closed, h.files, hheld⟩

/-- Another table and further numbers. -/
theorem BootInv.renumber (h : BootInv N old given x p boots closed writers)
    (htable : N.table p' boots' given') (hgiven : ∀ id n, given id n → given' id n) :
    BootInv N old given' x p' boots' closed writers := by
  refine ⟨htable, ?_, ?_, ?_⟩
  · obtain ⟨new, hnew, hall⟩ := h.closed
    exact ⟨new, hnew, fun f hf => (hall f hf).mono hgiven⟩
  · intro gi f hf
    exact (h.files gi f hf).mono hgiven
  · intro e he
    exact ⟨(h.held e he).1, (h.held e he).2.mono hgiven⟩

/-- Another writer of one group. -/
theorem BootInv.update (h : BootInv N old given x p boots closed writers) {w : PriorityWriter}
    (hw : ∀ f, w.file = some f → N.FileNumbered given f) :
    BootInv N old given x p boots closed (Function.update writers gi w) := by
  refine ⟨h.table, h.closed, ?_, h.held⟩
  intro gj f hf
  by_cases hgj : gj = gi
  · rw [hgj, Function.update_self] at hf
    exact hw f hf
  · rw [Function.update_of_ne hgj] at hf
    exact h.files gj f hf

/-- Further closed segments. -/
theorem BootInv.close (h : BootInv N old given x p boots closed writers)
    {fs : List SegmentOnDisk} (hfs : ∀ f ∈ fs, N.FileNumbered given f) :
    BootInv N old given x p boots (closed ++ fs) writers := by
  obtain ⟨new, hnew, hall⟩ := h.closed
  refine ⟨h.table, ⟨new ++ fs, by rw [hnew, List.append_assoc], ?_⟩, h.files, h.held⟩
  intro f hf
  rcases List.mem_append.mp hf with hf | hf
  · exact hall f hf
  · exact hfs f hf

/-- Only the header of a segment counts. -/
theorem Numbering.FileNumbered.of_header {f f' : SegmentOnDisk} (h : N.FileNumbered given f)
    (hheader : f'.header = f.header) : N.FileNumbered given f' := by
  unfold Numbering.FileNumbered fileBoot at h ⊢
  rw [hheader]
  exact h

/-- A flush leaves the header of the segment. -/
theorem writerFlushChunk_header {t : ℕ} {w : PriorityWriter} {f' : SegmentOnDisk}
    (h : (writerFlushChunk env config t gi w).2.file = some f') :
    ∃ f, w.file = some f ∧ f'.header = f.header := by
  rcases writerFlushChunk_cases env config t gi w with
    hres | ⟨err, w', hres, -, hfile⟩ | ⟨f, content, encryptor, hfile, hres⟩
  · rw [hres] at h
    exact ⟨f', h, rfl⟩
  · rw [hres] at h
    rcases hfile with hfile | ⟨f, content, hfile, hfile'⟩
    · exact ⟨f', hfile ▸ h, rfl⟩
    · rw [hfile', Option.some.injEq] at h
      exact ⟨f, hfile, by rw [← h]⟩
  · rw [hres, (finishFrame_keeps env config t gi _ _).1, Option.some.injEq] at h
    exact ⟨f, hfile, by rw [← h]⟩

/-- Closing a segment leaves its header. -/
theorem writerFinishSegment_header (env : RecorderEnv) (t : ℕ) (w : PriorityWriter)
    (f : SegmentOnDisk) (reason : RotateReason) :
    (writerFinishSegment env t w f reason).2.2.header = f.header := by
  unfold writerFinishSegment
  simp only
  split
  · split
    · rfl
    · split <;> rfl
  · rfl

/-- The files that opening a segment leaves are of the boot of the entry. -/
theorem writerOpenSegment_header {t : ℕ} {seq clockJumpSeq : UInt64} {w : PriorityWriter}
    {e : LogEntry} {f : SegmentOnDisk} (hclosed : w.file = none)
    (h : (writerOpenSegment env config t gi seq clockJumpSeq w e).writer.file = some f ∨
      (writerOpenSegment env config t gi seq clockJumpSeq w e).orphan = some f) :
    f.header = newSegmentHeader env config t gi seq e := by
  unfold writerOpenSegment at h
  split at h
  · rcases h with h | h
    · rw [hclosed] at h
      cases h
    · cases h
  · simp only at h
    split at h
    · rcases h with h | h
      · rw [hclosed] at h
        cases h
      · cases h
    · split at h
      · rcases h with h | h
        · rw [hclosed] at h
          cases h
        · cases h
          rfl
      · rcases h with h | h
        · cases h
          rfl
        · cases h

/-- A segment has the number of the entry it is opened for. -/
theorem Numbering.FileNumbered.of_entry {t : ℕ} {seq : UInt64} {f : SegmentOnDisk}
    (hheader : f.header = newSegmentHeader env config t gi seq e)
    (he : N.known e.bootId ∧ HasNumber given e.bootId e.bootSeq) : N.FileNumbered given f := by
  have hboot : fileBoot f = e.bootId := by
    unfold fileBoot
    rw [hheader]
    exact strnlenPrefix_zeroPad _ _ e.bootId_chars e.bootId_length
  unfold Numbering.FileNumbered
  rw [hboot, hheader]
  exact he

/-- The invariant of a recorder, for some numbers that were given. -/
def BootsKept (N : Numbering) (old : List SegmentOnDisk) (x : Stage) (r : RecorderState) : Prop :=
  ∃ given, BootInv N old given x r.position r.boots r.closed r.writers

/-- An entry of the same boot, or none. -/
theorem BootsKept.stage (h : BootsKept N old x r) (hheld : ∀ e, y = .holding e ∨ y = .stored e →
      ∃ e', (x = .holding e' ∨ x = .stored e') ∧ e.bootId = e'.bootId ∧ e.bootSeq = e'.bootSeq) :
    BootsKept N old y r := by
  obtain ⟨given, hinv⟩ := h
  refine ⟨given, hinv.stage fun e he => ?_⟩
  obtain ⟨e', he', hid, hseq⟩ := hheld e he
  rw [hid, hseq]
  exact hinv.held e' he'

/-- Receiving an entry numbers its boot. -/
theorem received_boots (r : RecorderState) (e : LogEntry) :
    (received r e).1.boots = (extractBoot r.boots e).1 ∧
      (received r e).2.bootSeq = (extractBoot r.boots e).2.bootSeq := by
  unfold received recorderAssignMonotonicTieOrder
  simp only
  split <;> exact ⟨rfl, rfl⟩

/-- The read pointer does not go back. -/
theorem position_le_atNextEntry (r : RecorderState) : r.position ≤ (atNextEntry r).position := by
  unfold atNextEntry
  split
  · exact Nat.le_refl _
  · exact Nat.le_succ _

/-- The next entry is given its number. -/
theorem BootInv.extract (rule : NumberingRule N journal old keeps)
    (h : BootInv N old given x r.position r.boots closed writers)
    (he : journal[(atNextEntry r).position - 1]? = some e) :
    ∃ given', BootInv N old given' x (atNextEntry r).position (extractBoot r.boots e).1 closed
        writers ∧
      N.known e.bootId ∧ HasNumber given' e.bootId (extractBoot r.boots e).2.bootSeq := by
  obtain ⟨given', htable, hnumber, hgiven⟩ :=
    rule.extract (position_le_atNextEntry r) he h.table
  refine ⟨given', h.renumber htable hgiven, rule.known (List.mem_of_getElem? he), ?_⟩
  unfold HasNumber
  split
  · rename_i hempty
    simp only [extractBoot, if_pos hempty, bootRegistrySeq]
  · rename_i hne
    exact hnumber hne

/-- Receiving an entry keeps the invariant. -/
theorem BootsKept.receive (rule : NumberingRule N journal old keeps) (h : BootsKept N old x r)
    (he : journal[(atNextEntry r).position - 1]? = some e) :
    BootsKept N old (.holding (received (atNextEntry r) e).2) (received (atNextEntry r) e).1 := by
  obtain ⟨given, hinv⟩ := h
  obtain ⟨given', hinv', hknown, hnumber⟩ := hinv.extract rule he
  obtain ⟨hwriters, hclosed, hposition, -, -, hid⟩ := received_same (atNextEntry r) e
  obtain ⟨hboots, hseq⟩ := received_boots (atNextEntry r) e
  refine ⟨given', ?_⟩
  rw [hposition, hboots, hclosed, hwriters]
  apply hinv'.stage
  rintro e' (⟨⟨⟩⟩ | ⟨⟨⟩⟩)
  rw [hid, hseq]
  exact ⟨hknown, hnumber⟩

/-- A flush keeps the invariant. -/
theorem BootsKept.flush (h : BootsKept N old x r) :
    BootsKept N old x (r.flushChunk env config gi).2 := by
  obtain ⟨given, hinv⟩ := h
  refine ⟨given, hinv.update fun f' hf' => ?_⟩
  obtain ⟨f, hf, hheader⟩ := writerFlushChunk_header hf'
  exact (hinv.files gi f hf).of_header hheader

/-- A sync keeps the invariant. -/
theorem BootsKept.sync (h : BootsKept N old x r) :
    BootsKept N old x (r.syncIfDue env config gi).2 := by
  obtain ⟨given, hinv⟩ := h
  refine ⟨given, hinv.update (w := (writerSyncIfDue env config r.tick gi (r.writers gi)).2) ?_⟩
  intro f hf
  rw [(writerSyncIfDue_keeps env config r.tick gi (r.writers gi)).1] at hf
  exact hinv.files gi f hf

/-- A segment keeps its number when it is closed. -/
theorem BootsKept.finish {f : SegmentOnDisk} (h : BootsKept N old x r)
    (hfile : (r.writers gi).file = some f) (reason : RotateReason) :
    BootsKept N old x (finishedSegment env r gi f reason) := by
  obtain ⟨given, hinv⟩ := h
  refine ⟨given, BootInv.close (hinv.update ?_) ?_⟩
  · intro g hg
    have hnone := writerFinishSegment_file env r.tick (r.writers gi) f reason
    cases hg.symm.trans hnone
  · intro g hg
    rw [List.mem_singleton.mp hg]
    exact (hinv.files gi f hfile).of_header (writerFinishSegment_header _ _ _ _ _)

/-- The segment opened for an entry has its number, whether opening succeeds or not. -/
theorem BootsKept.open (h : BootsKept N old (.holding e) r)
    (hfile : (r.writers gi).file = none) :
    BootsKept N old (.holding e) (r.openSegment env config gi e).2 := by
  obtain ⟨given, hinv⟩ := h
  have hheld := hinv.held e (.inl rfl)
  refine ⟨given, BootInv.close (hinv.update ?_) ?_⟩
  · intro f hf
    exact .of_entry (writerOpenSegment_header hfile (.inl hf)) hheld
  · intro f hf
    exact .of_entry (writerOpenSegment_header hfile (.inr (Option.mem_toList.mp hf))) hheld

/-- A retention pass that meets the condition keeps the invariant. -/
theorem BootsKept.retention (rule : NumberingRule N journal old keeps) (h : BootsKept N old x r)
    (hpasses : ∀ pass ∈ (r.retention env config).2.history.passes, keeps pass) :
    BootsKept N old x (r.retention env config).2 := by
  obtain ⟨given, hinv⟩ := h
  refine ⟨given, ?_⟩
  unfold RecorderState.retention at hpasses ⊢
  split
  · rename_i hremoves
    rw [if_pos hremoves] at hpasses
    dsimp only at hpasses ⊢
    have hkeeps := hpasses _ (List.mem_append_right _ (List.mem_singleton.mpr rfl))
    have htable := rule.rebuild hkeeps hinv.table (by
      intro f hf
      rcases List.mem_append.mp (env.listed_mem _ _ f hf) with hf | hf
      · have hclosed := (List.mem_filter.mp (List.mem_filter.mp hf).1).1
        obtain ⟨new, hnew, hall⟩ := hinv.closed
        rw [hnew] at hclosed
        exact (List.mem_append.mp hclosed).imp_right (hall f)
      · obtain ⟨gi, -, hfile⟩ := List.mem_filterMap.mp hf
        exact .inr (hinv.files gi f hfile))
    exact hinv.renumber htable fun _ _ hn => hn
  · exact hinv

/-- The entry stored is the one that was at hand. -/
theorem BootsKept.added (h : BootsKept N old (.holding e) r) :
    BootsKept N old (.stored e) (addedEntry r gi e) := by
  obtain ⟨given, hinv⟩ := h
  refine ⟨given, BootInv.stage (x := .holding e) (hinv.update fun f hf => hinv.files gi f hf) ?_⟩
  rintro e' (⟨⟨⟩⟩ | ⟨⟨⟩⟩)
  exact hinv.held e (.inl rfl)

/-- The invariant, as long as the retention passes meet the condition. -/
def BootRunInv (N : Numbering) (old : List SegmentOnDisk) (keeps : RetentionPass → Prop)
    (x : Stage) (r : RecorderState) : Prop :=
  (∀ pass ∈ r.history.passes, keeps pass) → BootsKept N old x r

/-- No call breaks the invariant. -/
theorem boot_rule (env : RecorderEnv) (config : RecorderConfig)
    (rule : NumberingRule N journal old keeps) :
    RecorderRule env config journal (BootRunInv N old keeps)
      (fun _ e r => BootRunInv N old keeps (.holding e) r) where
  same := by
    intro x r r' hsame h hpasses
    rw [hsame.passes] at hpasses
    obtain ⟨given, hinv⟩ := h hpasses
    refine ⟨given, ?_⟩
    rw [hsame.position, hsame.boots, hsame.closed, hsame.writers]
    exact hinv
  receive := by
    intro r e he h hpasses
    obtain ⟨-, -, -, -, hhistory, -⟩ := received_same (atNextEntry r) e
    rw [hhistory] at hpasses
    exact (h hpasses).receive rule he
  numbered := by
    intro r e he h hpasses
    obtain ⟨given, hinv⟩ := h hpasses
    obtain ⟨given', hinv', -⟩ := hinv.extract rule he
    exact ⟨given', hinv'⟩
  modified := by
    intro r e priority texts h hpasses
    apply (h hpasses).stage
    rintro e' (⟨⟨⟩⟩ | ⟨⟨⟩⟩)
    exact ⟨e, .inl rfl, rfl, rfl⟩
  dropped h hpasses := (h hpasses).stage (by rintro e (⟨⟨⟩⟩ | ⟨⟨⟩⟩))
  pending _ h hpasses := (h hpasses).stage (by rintro e (⟨⟨⟩⟩ | ⟨⟨⟩⟩))
  accepted _ h hpasses := (h hpasses).stage (by rintro e (⟨⟨⟩⟩ | ⟨⟨⟩⟩))
  again := by
    intro r e _ h hpasses
    apply (h hpasses).stage
    rintro e' (⟨⟨⟩⟩ | ⟨⟨⟩⟩)
    exact ⟨e, .inr rfl, rfl, rfl⟩
  flush _ h hpasses := (h hpasses).flush
  sync _ h hpasses := (h hpasses).sync
  finish reason hfile _ h hpasses := (h hpasses).finish hfile reason
  retention := by
    intro x r h hpasses
    apply BootsKept.retention rule _ hpasses
    apply h
    intro pass hpass
    apply hpasses
    unfold RecorderState.retention
    split
    · exact List.mem_append_left _ hpass
    · exact hpass
  stays _ _ _ h := h
  opened hfile _ _ h hpasses := (h hpasses).open hfile
  notOpened hfile _ h hpasses := (h hpasses).open hfile
  added h hpasses := (h hpasses).added
  notAdded _ h hpasses := h hpasses

end Invariant

/-- All segments of one boot in a list have one number. -/
def OneNumberEach (fs : List SegmentOnDisk) : Prop :=
  ∀ f ∈ fs, ∀ g ∈ fs, fileBoot f = fileBoot g → f.header.bootSeq = g.header.bootSeq

/-- The run lemma for any numbering. -/
theorem NumberingRule.run {N : Numbering} {journal : List LogEntry} {start : RecorderState}
    {keeps : RetentionPass → Prop} {given : Bytes → UInt32 → Prop}
    (rule : NumberingRule N journal start.closed keeps)
    (env : RecorderEnv) (config : RecorderConfig) (calls : List RecorderCall)
    (hfiles : ∀ gi, (start.writers gi).file = none)
    (htable : N.table start.position start.boots given)
    (hpasses : ∀ pass ∈ (recorderRun env config journal calls start).history.passes, keeps pass) :
    ∃ new, (recorderRun env config journal calls start).closed = start.closed ++ new ∧
      OneNumberEach (new ++ (recorderRun env config journal calls start).openFiles config) := by
  have hinit : BootsKept N start.closed .idle start := by
    refine ⟨given, htable, ⟨[], by simp, nofun⟩, ?_, by rintro e (⟨⟨⟩⟩ | ⟨⟨⟩⟩)⟩
    intro gi f hf
    rw [hfiles gi] at hf
    cases hf
  obtain ⟨given', hinv⟩ := (boot_rule env config rule).run calls (fun _ => hinit) hpasses
  obtain ⟨new, hnew, hall⟩ := hinv.closed
  refine ⟨new, hnew, ?_⟩
  have hnumbered : ∀ f ∈ new ++ (recorderRun env config journal calls start).openFiles config,
      HasNumber given' (fileBoot f) f.header.bootSeq := by
    intro f hf
    rcases List.mem_append.mp hf with hf | hf
    · exact (hall f hf).2
    · obtain ⟨gi, -, hfile⟩ := List.mem_filterMap.mp hf
      exact (hinv.files gi f hfile).2
  intro f hf g hg hsame
  have hg' := hnumbered g hg
  rw [← hsame] at hg'
  exact (hnumbered f hf).unique (rule.unique hinv.table) hg'

/-! ## Two numberings -/

/-- The boots of a table are among `ids`, a boot was given one number, and the numbers of the
boots that occur are in the table. `occurs` says of a read pointer which boots do. -/
structure NumbersInTable (ids : List Bytes) (old : List SegmentOnDisk)
    (occurs : ℕ → Bytes → Prop) (p : ℕ) (boots : BootRegistry) (given : Bytes → UInt32 → Prop) :
    Prop where
  among : IdsAmong ids boots
  unique : ∀ id n m, given id n → given id m → n = m
  inTable : ∀ id n, id ≠ [] → occurs p id → given id n → Numbered boots id n
  start : ∀ f ∈ old, fileBoot f ∈ ids ∧ (fileBoot f ≠ [] → given (fileBoot f) f.header.bootSeq)

/-- The numbers in a table that has room for all boots. -/
def tableNumbering (ids : List Bytes) (old : List SegmentOnDisk) (occurs : ℕ → Bytes → Prop) :
    Numbering where
  table := NumbersInTable ids old occurs
  known id := id ∈ ids

/-- The answers of any table. -/
def answerNumbering : Numbering where
  table _ boots given := ∀ id n, given id n → Answers boots id n
  known _ := True

/-- **The condition on a retention pass**: it leaves a readable segment of every boot in the
table that occurs. -/
def PassKeepsBoots (occurs : ℕ → Bytes → Prop) (pass : RetentionPass) : Prop :=
  ∀ b ∈ pass.boots.boots, b.id ≠ [] → occurs pass.position b.id →
    ∃ f ∈ pass.readable, fileBoot f = b.id

/-- The boots that occur in the journal from the entry at hand on. -/
def OccursFrom (journal : List LogEntry) (p : ℕ) (id : Bytes) : Prop :=
  id ∈ (journal.drop (p - 1)).map (·.bootId)

/-- What occurs from a later entry on occurs from an earlier one on. -/
theorem OccursFrom.anti {journal : List LogEntry} {p p' : ℕ} {id : Bytes} (hle : p ≤ p')
    (h : OccursFrom journal p' id) : OccursFrom journal p id := by
  unfold OccursFrom at h ⊢
  obtain ⟨e, he, hid⟩ := List.mem_map.mp h
  have hsuffix : journal.drop (p' - 1) <:+ journal.drop (p - 1) :=
    List.drop_suffix_drop_left journal (Nat.sub_le_sub_right hle 1)
  exact List.mem_map.mpr ⟨e, hsuffix.mem he, hid⟩

/-- The boot of the entry at hand occurs. -/
theorem occursFrom_entry {journal : List LogEntry} {p : ℕ} {e : LogEntry}
    (he : journal[p - 1]? = some e) : OccursFrom journal p e.bootId := by
  apply List.mem_map_of_mem
  apply List.mem_of_getElem? (i := 0)
  rw [List.getElem?_drop, Nat.add_zero, he]

section TwoNumberings

variable {ids : List Bytes} {journal : List LogEntry} {old : List SegmentOnDisk}
  {occurs : ℕ → Bytes → Prop} {p p' : ℕ} {boots : BootRegistry}
  {given : Bytes → UInt32 → Prop} {e : LogEntry}

/-- An entry is given its number once, since its boot occurs. -/
theorem tableNumbering_extract (hfew : ids.dedup.length ≤ maxBoots) (hid : e.bootId ∈ ids)
    (hanti : ∀ id, occurs p' id → occurs p id) (hoccurs : occurs p' e.bootId)
    (h : (tableNumbering ids old occurs).table p boots given) :
    ∃ given' : Bytes → UInt32 → Prop,
      (tableNumbering ids old occurs).table p' (extractBoot boots e).1 given' ∧
      (e.bootId ≠ [] → given' e.bootId (extractBoot boots e).2.bootSeq) ∧
      ∀ id n, given id n → given' id n := by
  obtain ⟨hids, hunique, hnumbered, hold⟩ := h
  obtain ⟨hids', hself, hkeeps⟩ := extractBoot_room hids hfew hid
  have hagrees : ∀ n, e.bootId ≠ [] → given e.bootId n →
      n = (extractBoot boots e).2.bootSeq := by
    intro n hne hn
    have hbefore := hkeeps _ _ (hnumbered _ n hne (hanti _ hoccurs) hn)
    exact hbefore.unique hids' (hself hne)
  refine ⟨fun id n => given id n ∨
    (id = e.bootId ∧ id ≠ [] ∧ n = (extractBoot boots e).2.bootSeq), ⟨hids', ?_, ?_, ?_⟩, ?_, ?_⟩
  · rintro id n m (hn | ⟨rfl, hne, rfl⟩) (hm | ⟨hid, hne', rfl⟩)
    · exact hunique id n m hn hm
    · subst hid
      exact hagrees n hne' hn
    · exact (hagrees m hne hm).symm
    · rfl
  · rintro id n hne hocc (hn | ⟨rfl, -, rfl⟩)
    · exact hkeeps _ _ (hnumbered id n hne (hanti _ hocc) hn)
    · exact hself hne
  · intro f hf
    exact ⟨(hold f hf).1, fun hne => .inl ((hold f hf).2 hne)⟩
  · intro hne
    exact .inr ⟨rfl, hne, rfl⟩
  · intro id n hn
    exact .inl hn

/-- What the rebuild reads has the numbers that were given. -/
theorem tableNumbering_rebuild (hfew : ids.dedup.length ≤ maxBoots) {pass : RetentionPass}
    (hkeeps : PassKeepsBoots occurs pass)
    (h : (tableNumbering ids old occurs).table pass.position pass.boots given)
    (hreadable : ∀ f ∈ pass.readable,
      f ∈ old ∨ (tableNumbering ids old occurs).FileNumbered given f) :
    (tableNumbering ids old occurs).table pass.position
      (bootRegistryRebuildFromSegments (pass.readable.map segmentMeta)) given := by
  obtain ⟨-, hunique, hnumbered, hold⟩ := h
  have hagrees : ∀ f ∈ pass.readable, fileBoot f ∈ ids ∧
      (fileBoot f ≠ [] → given (fileBoot f) f.header.bootSeq) := by
    intro f hf
    rcases hreadable f hf with hf' | ⟨hid, hnumber⟩
    · exact hold f hf'
    · exact ⟨hid, hnumber.of_ne⟩
  have hids : ∀ o ∈ pass.readable.map segmentMeta, scannedBoot o ∈ ids := by
    intro o ho
    obtain ⟨f, hf, rfl⟩ := List.mem_map.mp ho
    exact (hagrees f hf).1
  obtain ⟨htable, hrebuilt⟩ := rebuild_numbered hfew hids
  refine ⟨htable, hunique, ?_, hold⟩
  intro id n hne hoccurs hgiven
  apply hrebuilt
  · obtain ⟨b, hb, hbid, -⟩ := hnumbered id n hne hoccurs hgiven
    obtain ⟨f, hf, hboot⟩ := hkeeps b hb (by rw [hbid]; exact hne) (by rw [hbid]; exact hoccurs)
    exact ⟨segmentMeta f, List.mem_map_of_mem hf, hboot.trans hbid⟩
  · intro o ho hoid
    obtain ⟨f, hf, rfl⟩ := List.mem_map.mp ho
    have hboot : fileBoot f = id := hoid
    have hfile := (hagrees f hf).2 (by rw [hboot]; exact hne)
    rw [hboot] at hfile
    exact hunique id _ n hfile hgiven

/-- The table keeps the numbers of the boots that occur. -/
theorem tableNumbering_rule (old : List SegmentOnDisk) (hfew : ids.dedup.length ≤ maxBoots)
    (hjournal : ∀ e ∈ journal, e.bootId ∈ ids)
    (hanti : ∀ p p' id, p ≤ p' → occurs p' id → occurs p id)
    (hentry : ∀ p e, journal[p - 1]? = some e → occurs p e.bootId) :
    NumberingRule (tableNumbering ids old occurs) journal old (PassKeepsBoots occurs) where
  unique h hn hm := h.unique _ _ _ hn hm
  known he := hjournal _ he
  extract hle he h := tableNumbering_extract hfew (hjournal _ (List.mem_of_getElem? he))
    (fun id => hanti _ _ id hle) (hentry _ _ he) h
  rebuild hkeeps h hreadable := tableNumbering_rebuild hfew hkeeps h hreadable

/-- A registry that was rebuilt from the store agrees with it. -/
theorem tableNumbering_start (occurs : ℕ → Bytes → Prop) (p : ℕ)
    (state : Option (List BootNode)) (hfew : ids.dedup.length ≤ maxBoots)
    (hids : ∀ f ∈ old, fileBoot f ∈ ids)
    (hagree : ∀ f ∈ old, ∀ g ∈ old, fileBoot f ≠ [] →
      fileBoot f = fileBoot g → f.header.bootSeq = g.header.bootSeq) :
    ∃ given, (tableNumbering ids old occurs).table p
      (recorderInitBoots state (old.map segmentMeta)) given := by
  have hrebuild : recorderInitBoots state (old.map segmentMeta) =
      bootRegistryRebuildFromSegments (old.map segmentMeta) := by
    unfold recorderInitBoots
    cases loadBootState state <;> rfl
  have hscanned : ∀ o ∈ old.map segmentMeta, scannedBoot o ∈ ids := by
    intro o ho
    obtain ⟨f, hf, rfl⟩ := List.mem_map.mp ho
    exact hids f hf
  obtain ⟨htable, hnumbered⟩ := rebuild_numbered hfew hscanned
  rw [hrebuild]
  refine ⟨Numbered (bootRegistryRebuildFromSegments (old.map segmentMeta)), htable,
    fun id n m hn hm => hn.unique htable hm, fun id n _ _ hn => hn, ?_⟩
  intro f hf
  refine ⟨hids f hf, fun hne => hnumbered _ _ ⟨segmentMeta f, List.mem_map_of_mem hf, rfl⟩ ?_⟩
  intro o ho hoid
  obtain ⟨g, hg, rfl⟩ := List.mem_map.mp ho
  exact (hagree f hf g hg hne hoid.symm).symm

/-- Without a retention pass the answers stay the same. -/
theorem answerNumbering_rule (journal : List LogEntry) (old : List SegmentOnDisk) :
    NumberingRule answerNumbering journal old fun _ => False where
  unique h hn hm := (h _ _ hn).unique (h _ _ hm)
  known _ := trivial
  extract := by
    intro p p' boots given e _ _ h
    obtain ⟨hself, hkeeps⟩ := extractBoot_answers boots e
    exact ⟨Answers (extractBoot boots e).1, fun _ _ hn => hn, hself,
      fun id n hn => hkeeps id n (h id n hn)⟩
  rebuild hkeeps := hkeeps.elim

end TwoNumberings

/-! ## Runs -/

/-- The boot ids of a store and a journal. -/
def bootIds (old : List SegmentOnDisk) (journal : List LogEntry) : List Bytes :=
  old.map fileBoot ++ journal.map (·.bootId)

/-- **A boot keeps its number** in every run without a retention pass that removes something.
Where there are such passes it does if each of them leaves a segment of every boot in the
table that occurs in the journal from the entry at hand on, the store gives each boot one
number to begin with, and store and journal have at most 256 boot ids.
SOURCE: recorder.c:2529-2568, 2660-2668, 3395-3440, 3876-3952 -/
theorem boot_keeps_number (env : RecorderEnv) (config : RecorderConfig)
    (journal : List LogEntry) (calls : List RecorderCall) (start : RecorderState)
    (state : Option (List BootNode)) (hstart : RecorderStarted start)
    (hboots : start.boots = recorderInitBoots state (start.closed.map segmentMeta))
    (hkeeps : (recorderRun env config journal calls start).history.passes = [] ∨
      ((bootIds start.closed journal).dedup.length ≤ maxBoots ∧
        (∀ f ∈ start.closed, ∀ g ∈ start.closed, fileBoot f ≠ [] →
          fileBoot f = fileBoot g → f.header.bootSeq = g.header.bootSeq) ∧
        ∀ pass ∈ (recorderRun env config journal calls start).history.passes,
          PassKeepsBoots (OccursFrom journal) pass)) :
    ∃ new, (recorderRun env config journal calls start).closed = start.closed ++ new ∧
      OneNumberEach (new ++ (recorderRun env config journal calls start).openFiles config) := by
  rcases hkeeps with hnone | ⟨hfew, hagree, hpasses⟩
  · have htable : answerNumbering.table start.position start.boots fun _ _ => False :=
      fun _ _ hn => hn.elim
    apply (answerNumbering_rule journal start.closed).run env config calls hstart.files htable
    rw [hnone]
    nofun
  · have hids : ∀ f ∈ start.closed, fileBoot f ∈ bootIds start.closed journal :=
      fun f hf => List.mem_append_left _ (List.mem_map_of_mem hf)
    have hjournal : ∀ e ∈ journal, e.bootId ∈ bootIds start.closed journal :=
      fun e he => List.mem_append_right _ (List.mem_map_of_mem he)
    obtain ⟨given, htable⟩ := tableNumbering_start (OccursFrom journal) start.position state hfew
      hids hagree
    rw [← hboots] at htable
    have hentry : ∀ p e, journal[p - 1]? = some e → OccursFrom journal p e.bootId :=
      fun _ _ he => occursFrom_entry he
    have hanti : ∀ p p' id, p ≤ p' → OccursFrom journal p' id → OccursFrom journal p id :=
      fun _ _ _ hle h => OccursFrom.anti hle h
    have hrule := tableNumbering_rule start.closed hfew hjournal hanti hentry
    exact hrule.run env config calls hstart.files htable hpasses

/-- An entry of the boot of `rebootEntry` from before its clock was set back. -/
def fastClockEntry : LogEntry := { rebootEntry with realtimeTs := 5000 }

/-- From tick 20 on retention removes the first segment. -/
def dropsFirst : RecorderEnv :=
  { plainEnv fun _ _ => .ok with removes := fun t f => decide (20 ≤ t ∧ f.nameSeq = 1) }

/-- Retention removes the only segment of the first boot, which does not occur again. The two
segments of the second boot have one number. -/
theorem boot_keeps_number_two_segments :
    ∃ new, (recorderRun dropsFirst oneGroup [messageEntry, fastClockEntry, rebootEntry]
        [.step, .step, .shutdown] {}).closed = [] ++ new ∧
      OneNumberEach (new ++ (recorderRun dropsFirst oneGroup
        [messageEntry, fastClockEntry, rebootEntry] [.step, .step, .shutdown]
          {}).openFiles oneGroup) := by
  have hpasses : ∀ pass ∈ (recorderRun dropsFirst oneGroup
      [messageEntry, fastClockEntry, rebootEntry] [.step, .step, .shutdown] {}).history.passes,
      ∀ b ∈ pass.boots.boots, b.id ≠ [] → OccursFrom [messageEntry, fastClockEntry, rebootEntry]
        pass.position b.id → ∃ f ∈ pass.readable, fileBoot f = b.id := by
    unfold OccursFrom
    decide +kernel
  exact boot_keeps_number dropsFirst oneGroup [messageEntry, fastClockEntry, rebootEntry]
    [.step, .step, .shutdown] {} none started_default rfl
    (.inr ⟨by decide +kernel, nofun, hpasses⟩)

/-- Retention removes every closed segment. -/
def dropsAll : RecorderEnv := { plainEnv fun _ _ => .ok with removes := fun _ _ => true }

/-- **A forgotten boot**: its first entry is numbered 1 while the segment of the boot in front
is still open. Closing that segment removes it, the rebuilt table is empty, and after the next
rotation the same boot is numbered 0. -/
theorem forgottenBoot_renumbered :
    RecorderStarted {} ∧ ({} : RecorderState).boots = recorderInitBoots none [] ∧
      ¬ OneNumberEach ((recorderRun dropsAll oneGroup [messageEntry, fastClockEntry, rebootEntry]
          [.step] {}).closed ++
        (recorderRun dropsAll oneGroup [messageEntry, fastClockEntry, rebootEntry] [.step]
          {}).openFiles oneGroup) := by
  refine ⟨started_default, rfl, fun h => ?_⟩
  have htwo : ∃ f ∈ (recorderRun dropsAll oneGroup [messageEntry, fastClockEntry, rebootEntry]
        [.step] {}).closed ++
      (recorderRun dropsAll oneGroup [messageEntry, fastClockEntry, rebootEntry] [.step]
        {}).openFiles oneGroup,
      ∃ g ∈ (recorderRun dropsAll oneGroup [messageEntry, fastClockEntry, rebootEntry]
        [.step] {}).closed ++
      (recorderRun dropsAll oneGroup [messageEntry, fastClockEntry, rebootEntry] [.step]
        {}).openFiles oneGroup,
      fileBoot f = fileBoot g ∧ f.header.bootSeq ≠ g.header.bootSeq := by decide +kernel
  obtain ⟨f, hf, g, hg, hsame, hdiffer⟩ := htwo
  exact hdiffer (h f hf g hg hsame)

end Recorder.Analysis
