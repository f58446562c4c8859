import Recorder.Analysis.BootNumbers
import Recorder.Analysis.ReceiptOrder
import Recorder.Lib.GroupTable
import Recorder.Model.PlayerBoots

/-!
# The list of boots

The player knows the boots of a log from the headers and footers of its segments. It takes two
segments for one boot when they have the same number or the same id. In the directory that a
run of the recorder leaves these are the same thing, so that each boot is listed once, between
the times of its entries, and the list has the boots in the order in which they were received.

**Main result**: `boots_listed`.
-/

set_option autoImplicit false

namespace Recorder.Analysis

open Recorder.Model Recorder.Lib

/-! ## A table of boots -/

/-- In some segments a number stands for an id. -/
def OneBootEach (segments : List SegmentMeta) : Prop :=
  ∀ s ∈ segments, ∀ t ∈ segments,
    s.header.bootSeq = t.header.bootSeq ↔ scannedBoot s = scannedBoot t

/-- **What a boot says of its segments**: its last time is the latest, and its first time the
earliest that is not zero. -/
structure Spans (segments : List SegmentMeta) (boot : BootInfo) : Prop where
  last : ∀ s ∈ segments, s.lastRealtimeTs ≤ boot.lastRealtimeTs
  lastOf : ∃ s ∈ segments, s.lastRealtimeTs = boot.lastRealtimeTs
  first : ∀ s ∈ segments, s.header.firstRealtimeTs ≠ 0 →
    boot.firstRealtimeTs ≤ s.header.firstRealtimeTs
  firstOf : ∃ s ∈ segments, s.header.firstRealtimeTs = boot.firstRealtimeTs
  zero : boot.firstRealtimeTs = 0 → ∀ s ∈ segments, s.header.firstRealtimeTs = 0
  id : ∃ s ∈ segments, boot.bootId = scannedBoot s

section Table

variable {segments : List SegmentMeta} {boot : BootInfo} {s : SegmentMeta}

/-- The comparison of `find_boot`. -/
def takesSegment (boot : BootInfo) (s : SegmentMeta) : Bool :=
  boot.bootSeq == s.header.bootSeq || boot.bootId == strnlenPrefix bootIdSize s.header.bootId

theorem addBoot_eq_enter : addBoot = enter takesSegment BootInfo.extend SegmentMeta.bootInfo := rfl

/-- The boot of one of some segments. -/
def BootOf (segments : List SegmentMeta) (boot : BootInfo) : Prop :=
  ∃ s ∈ segments, boot.bootSeq = s.header.bootSeq ∧ boot.bootId = scannedBoot s

/-- Where a number stands for an id, the number decides. -/
theorem addBoot_rule (h : OneBootEach segments) :
    GroupRule takesSegment BootInfo.extend SegmentMeta.bootInfo
      (fun s : SegmentMeta => s.header.bootSeq) BootInfo.bootSeq (· ∈ segments)
      (BootOf segments) where
  takes_iff := by
    rintro boot s ⟨t, ht, hseq, hid⟩ hs
    have hiff := h t ht s hs
    rw [takesSegment, Bool.or_eq_true, beq_iff_eq, beq_iff_eq, hseq, hid]
    exact ⟨fun hor => hor.elim id hiff.mpr, .inl⟩
  row s hs := ⟨⟨s, hs, rfl, rfl⟩, rfl⟩
  merge boot s hboot _ := ⟨hboot, rfl⟩

theorem Spans.single (s : SegmentMeta) : Spans [s] s.bootInfo where
  last := by
    intro t ht
    rw [List.mem_singleton.mp ht]
    exact UInt64.le_refl _
  lastOf := ⟨s, List.mem_singleton_self s, rfl⟩
  first := by
    intro t ht _
    rw [List.mem_singleton.mp ht]
    exact UInt64.le_refl _
  firstOf := ⟨s, List.mem_singleton_self s, rfl⟩
  zero := by
    intro hzero t ht
    rw [List.mem_singleton.mp ht]
    exact hzero
  id := ⟨s, List.mem_singleton_self s, rfl⟩

/-- A further segment.
SOURCE: player.c:1263-1276 -/
theorem Spans.extend (h : Spans segments boot) (s : SegmentMeta) :
    Spans (segments ++ [s]) (boot.extend s) := by
  obtain ⟨hlast, ⟨a, ha, hal⟩, hfirst, ⟨b, hb, hbf⟩, hzero, ⟨c, hc, hcid⟩⟩ := h
  have hlastCases : (s.lastRealtimeTs ≤ boot.lastRealtimeTs ∧
        (boot.extend s).lastRealtimeTs = boot.lastRealtimeTs) ∨
      (boot.lastRealtimeTs ≤ s.lastRealtimeTs ∧
        (boot.extend s).lastRealtimeTs = s.lastRealtimeTs) := by
    by_cases hgt : s.lastRealtimeTs > boot.lastRealtimeTs
    · exact .inr ⟨UInt64.le_of_lt hgt, if_pos hgt⟩
    · exact .inl ⟨UInt64.not_lt.mp hgt, if_neg hgt⟩
  have hfirstCases : (s.header.firstRealtimeTs ≠ 0 ∧ (boot.firstRealtimeTs = 0 ∨
        s.header.firstRealtimeTs < boot.firstRealtimeTs) ∧
        (boot.extend s).firstRealtimeTs = s.header.firstRealtimeTs) ∨
      ((s.header.firstRealtimeTs = 0 ∨ boot.firstRealtimeTs ≠ 0 ∧
        boot.firstRealtimeTs ≤ s.header.firstRealtimeTs) ∧
        (boot.extend s).firstRealtimeTs = boot.firstRealtimeTs) := by
    by_cases htakes : s.header.firstRealtimeTs ≠ 0 ∧ (boot.firstRealtimeTs = 0 ∨
        s.header.firstRealtimeTs < boot.firstRealtimeTs)
    · exact .inl ⟨htakes.1, htakes.2, if_pos htakes⟩
    · refine .inr ⟨?_, if_neg htakes⟩
      by_cases hs : s.header.firstRealtimeTs = 0
      · exact .inl hs
      · rw [not_and, not_or] at htakes
        obtain ⟨hne, hle⟩ := htakes hs
        exact .inr ⟨hne, UInt64.not_lt.mp hle⟩
  constructor
  · intro t ht
    rcases List.mem_append.mp ht with ht | ht
    · rcases hlastCases with ⟨-, heq⟩ | ⟨hle, heq⟩
      · rw [heq]
        exact hlast t ht
      · rw [heq]
        exact UInt64.le_trans (hlast t ht) hle
    · rw [List.mem_singleton.mp ht]
      rcases hlastCases with ⟨hle, heq⟩ | ⟨-, heq⟩
      · rw [heq]
        exact hle
      · rw [heq]
        exact UInt64.le_refl _
  · rcases hlastCases with ⟨-, heq⟩ | ⟨-, heq⟩
    · exact ⟨a, List.mem_append_left _ ha, by rw [heq, hal]⟩
    · exact ⟨s, by simp, heq.symm⟩
  · intro t ht hne
    rcases hfirstCases with ⟨-, hor, heq⟩ | ⟨hor, heq⟩
    · rw [heq]
      rcases List.mem_append.mp ht with ht | ht
      · rcases hor with hboot | hlt
        · exact absurd (hzero hboot t ht) hne
        · exact UInt64.le_trans (UInt64.le_of_lt hlt) (hfirst t ht hne)
      · rw [List.mem_singleton.mp ht]
        exact UInt64.le_refl _
    · rw [heq]
      rcases List.mem_append.mp ht with ht | ht
      · exact hfirst t ht hne
      · rw [List.mem_singleton.mp ht] at hne ⊢
        exact (hor.resolve_left hne).2
  · rcases hfirstCases with ⟨-, -, heq⟩ | ⟨-, heq⟩
    · exact ⟨s, by simp, heq.symm⟩
    · exact ⟨b, List.mem_append_left _ hb, by rw [heq, hbf]⟩
  · intro hz t ht
    rcases hfirstCases with ⟨hne, -, heq⟩ | ⟨hor, heq⟩
    · rw [heq] at hz
      exact absurd hz hne
    · rw [heq] at hz
      rcases List.mem_append.mp ht with ht | ht
      · exact hzero hz t ht
      · rw [List.mem_singleton.mp ht]
        exact hor.resolve_right fun hand => hand.1 hz
  · exact ⟨c, List.mem_append_left _ hc, hcid⟩

/-- The segments of a boot one behind another. -/
theorem spans_foldl (s : SegmentMeta) (rest : List SegmentMeta) :
    Spans (s :: rest) (rest.foldl BootInfo.extend s.bootInfo) := by
  induction rest using List.reverseRecOn with
  | nil => exact Spans.single s
  | append_singleton rest t ih =>
    rw [List.foldl_append]
    exact ih.extend t

/-- **The boots of some segments**: one for each number, sorted, with the segments that have the
number.
SOURCE: player.c:1225-1296 -/
theorem sortBoots_spec (h : OneBootEach segments) :
    (sortBoots (segments.foldl addBoot [])).Pairwise (fun a b => a.bootSeq < b.bootSeq) ∧
      (∀ seq, (∃ boot ∈ sortBoots (segments.foldl addBoot []), boot.bootSeq = seq) ↔
        ∃ s ∈ segments, s.header.bootSeq = seq) ∧
      ∀ boot ∈ sortBoots (segments.foldl addBoot []),
        Spans (segments.filter fun s => s.header.bootSeq = boot.bootSeq) boot := by
  have hall : ∀ s ∈ segments, s ∈ segments := fun _ hs => hs
  obtain ⟨-, htable⟩ := (addBoot_rule h).enterAll hall
  rw [← addBoot_eq_enter] at htable
  have hperm : (sortBoots (segments.foldl addBoot [])).Perm (segments.foldl addBoot []) :=
    exchangeSort_perm _ _
  refine ⟨?_, ?_, ?_⟩
  · have weak : WeakOrder (fun b a : BootInfo => decide (b.bootSeq < a.bootSeq))
        fun _ => True := by
      constructor
      · intro a b _ _ hab
        simp only [decide_eq_true_eq, decide_eq_false_iff_not] at hab ⊢
        exact UInt32.lt_asymm hab
      · intro a b c _ _ _ hab hbc
        simp only [decide_eq_false_iff_not, UInt32.not_lt] at hab hbc ⊢
        exact UInt32.le_trans hab hbc
    have hsorted : (sortBoots (segments.foldl addBoot [])).Pairwise fun a b =>
        decide (b.bootSeq < a.bootSeq) = false := exchangeSort_pairwise weak _
    have hnodup : (sortBoots (segments.foldl addBoot [])).Pairwise fun a b =>
        a.bootSeq ≠ b.bootSeq :=
      List.pairwise_map.mp ((hperm.map _).nodup_iff.mpr htable.nodup)
    refine (hsorted.and hnodup).imp ?_
    rintro a b ⟨hle, hne⟩
    rw [decide_eq_false_iff_not, UInt32.not_lt] at hle
    exact UInt32.lt_of_le_of_ne hle hne
  · intro seq
    rw [← htable.keys seq, ← (hperm.map BootInfo.bootSeq).mem_iff, List.mem_map]
  · intro boot hboot
    obtain ⟨s, rest, hfilter, hfold⟩ := htable.gathers boot (hperm.mem_iff.mp hboot)
    rw [hfilter, hfold]
    exact spans_foldl s rest

/-- Segments and the entries they were written with: the boot and its number, and times. -/
structure SegmentTimes (part : List LogEntry) (s : SegmentMeta) : Prop where
  boot : ∀ e ∈ part, scannedBoot s = e.bootId ∧ s.header.bootSeq = e.bootSeq
  first : ∃ e ∈ part, e.realtimeTs = s.header.firstRealtimeTs
  lower : ∀ e ∈ part, s.header.firstRealtimeTs.toNat - 1000 ≤ e.realtimeTs.toNat
  upper : ∀ e ∈ part, e.realtimeTs ≤ s.lastRealtimeTs
  reached : ∃ e ∈ part, e.realtimeTs = s.lastRealtimeTs

/-- Some segments hold the entries `es`. -/
structure SegmentsOf (segments : List SegmentMeta) (es : List LogEntry) : Prop where
  each : ∀ s ∈ segments, ∃ part, SegmentTimes part s ∧ ∀ e ∈ part, e ∈ es
  covers : ∀ e ∈ es, ∃ s ∈ segments, ∃ part, SegmentTimes part s ∧ e ∈ part

/-- **What the list says of a boot** with the entries `es`: its last time is the latest of them,
its first time that of one of them. No entry is more than a millisecond older, unless one was
written at time zero. -/
structure BootSummary (es : List LogEntry) (boot : BootInfo) : Prop where
  last : ∀ e ∈ es, e.realtimeTs ≤ boot.lastRealtimeTs
  reached : ∃ e ∈ es, e.realtimeTs = boot.lastRealtimeTs
  first : ∃ e ∈ es, e.realtimeTs = boot.firstRealtimeTs
  lower : (∀ e ∈ es, e.realtimeTs ≠ 0) →
    ∀ e ∈ es, boot.firstRealtimeTs.toNat - 1000 ≤ e.realtimeTs.toNat

variable {es : List LogEntry}

/-- The boots that are listed are those of the entries. -/
theorem SegmentsOf.mem_boots (h : SegmentsOf segments es) (hone : OneBootEach segments)
    (p : Bytes × UInt32) :
    p ∈ (sortBoots (segments.foldl addBoot [])).map (fun b => (b.bootId, b.bootSeq)) ↔
      p ∈ es.map fun e => (e.bootId, e.bootSeq) := by
  obtain ⟨-, hseqs, hspans⟩ := sortBoots_spec hone
  constructor
  · intro hp
    obtain ⟨boot, hboot, rfl⟩ := List.mem_map.mp hp
    obtain ⟨s, hs, hid⟩ := (hspans boot hboot).id
    obtain ⟨hs, hseq⟩ := List.mem_filter.mp hs
    obtain ⟨part, htimes, hpart⟩ := h.each s hs
    obtain ⟨e, he, -⟩ := htimes.first
    refine List.mem_map.mpr ⟨e, hpart e he, ?_⟩
    rw [← (htimes.boot e he).1, ← (htimes.boot e he).2, hid, of_decide_eq_true hseq]
  · intro hp
    obtain ⟨e, he, rfl⟩ := List.mem_map.mp hp
    obtain ⟨s, hs, part, htimes, hepart⟩ := h.covers e he
    obtain ⟨hid, hseq⟩ := htimes.boot e hepart
    obtain ⟨boot, hboot, hnumber⟩ := (hseqs _).mpr ⟨s, hs, rfl⟩
    obtain ⟨t, ht, htid⟩ := (hspans boot hboot).id
    obtain ⟨ht, htseq⟩ := List.mem_filter.mp ht
    have hsame : scannedBoot t = scannedBoot s :=
      (hone t ht s hs).mp ((of_decide_eq_true htseq).trans hnumber)
    refine List.mem_map.mpr ⟨boot, hboot, ?_⟩
    rw [hnumber, htid, hsame, hid, hseq]

/-- Each boot is described by its segments. -/
theorem SegmentsOf.summary (h : SegmentsOf segments es) (hone : OneBootEach segments)
    {boot : BootInfo} (hboot : boot ∈ sortBoots (segments.foldl addBoot [])) :
    BootSummary (es.filter (·.bootId = boot.bootId)) boot := by
  obtain ⟨-, -, hspans⟩ := sortBoots_spec hone
  have hspan := hspans boot hboot
  obtain ⟨c, hc, hcid⟩ := hspan.id
  obtain ⟨hc, hcseq⟩ := List.mem_filter.mp hc
  -- the segments of the boot are those with its id
  have hsegments : ∀ s ∈ segments, s.header.bootSeq = boot.bootSeq ↔
      scannedBoot s = boot.bootId := by
    intro s hs
    rw [hcid, ← of_decide_eq_true hcseq]
    exact hone s hs c hc
  have hentry : ∀ s ∈ segments.filter (fun s => s.header.bootSeq = boot.bootSeq),
      ∃ part, SegmentTimes part s ∧ ∀ e ∈ part, e ∈ es.filter (·.bootId = boot.bootId) := by
    intro s hs
    obtain ⟨hs, hseq⟩ := List.mem_filter.mp hs
    obtain ⟨part, htimes, hpart⟩ := h.each s hs
    refine ⟨part, htimes, fun e he => List.mem_filter.mpr ⟨hpart e he, ?_⟩⟩
    rw [decide_eq_true_eq, ← (htimes.boot e he).1]
    exact (hsegments s hs).mp (of_decide_eq_true hseq)
  have hsegment : ∀ e ∈ es.filter (·.bootId = boot.bootId),
      ∃ s ∈ segments.filter (fun s => s.header.bootSeq = boot.bootSeq),
        ∃ part, SegmentTimes part s ∧ e ∈ part := by
    intro e he
    obtain ⟨he, hid⟩ := List.mem_filter.mp he
    obtain ⟨s, hs, part, htimes, hepart⟩ := h.covers e he
    refine ⟨s, List.mem_filter.mpr ⟨hs, ?_⟩, part, htimes, hepart⟩
    rw [decide_eq_true_eq, hsegments s hs, (htimes.boot e hepart).1]
    exact of_decide_eq_true hid
  constructor
  · intro e he
    obtain ⟨s, hs, part, htimes, hepart⟩ := hsegment e he
    exact UInt64.le_trans (htimes.upper e hepart) (hspan.last s hs)
  · obtain ⟨s, hs, hlast⟩ := hspan.lastOf
    obtain ⟨part, htimes, hpart⟩ := hentry s hs
    obtain ⟨e, he, hreached⟩ := htimes.reached
    exact ⟨e, hpart e he, hreached.trans hlast⟩
  · obtain ⟨s, hs, hfirst⟩ := hspan.firstOf
    obtain ⟨part, htimes, hpart⟩ := hentry s hs
    obtain ⟨e, he, heq⟩ := htimes.first
    exact ⟨e, hpart e he, heq.trans hfirst⟩
  · intro hne e he
    obtain ⟨s, hs, part, htimes, hepart⟩ := hsegment e he
    have hnonzero : s.header.firstRealtimeTs ≠ 0 := by
      obtain ⟨part', htimes', hpart'⟩ := hentry s hs
      obtain ⟨d, hd, heq⟩ := htimes'.first
      rw [← heq]
      exact hne d (hpart' d hd)
    have hle := UInt64.le_iff_toNat_le.mp (hspan.first s hs hnonzero)
    exact (Nat.sub_le_sub_right hle _).trans (htimes.lower e hepart)

/-- No boot is listed twice, not even under two numbers. -/
theorem sortBoots_ids_nodup (hone : OneBootEach segments) :
    ((sortBoots (segments.foldl addBoot [])).map (·.bootId)).Nodup := by
  obtain ⟨hincreasing, -, hspans⟩ := sortBoots_spec hone
  have hseq : ∀ a ∈ sortBoots (segments.foldl addBoot []),
      ∀ b ∈ sortBoots (segments.foldl addBoot []), a.bootId = b.bootId → a.bootSeq = b.bootSeq := by
    intro a ha b hb hid
    obtain ⟨s, hs, hsid⟩ := (hspans a ha).id
    obtain ⟨t, ht, htid⟩ := (hspans b hb).id
    obtain ⟨hs, hsseq⟩ := List.mem_filter.mp hs
    obtain ⟨ht, htseq⟩ := List.mem_filter.mp ht
    rw [← of_decide_eq_true hsseq, ← of_decide_eq_true htseq, hone s hs t ht, ← hsid, ← htid]
    exact hid
  rw [List.Nodup, List.pairwise_map]
  refine hincreasing.imp_of_mem fun ha hb hlt hid => ?_
  rw [hseq _ ha _ hb hid] at hlt
  exact UInt32.lt_irrefl _ hlt

/-- Where the numbers of the entries do not decrease, the boots are listed in their order. -/
theorem SegmentsOf.boots_eq (h : SegmentsOf segments es) (hone : OneBootEach segments)
    (hinj : ∀ d ∈ es, ∀ e ∈ es, d.bootSeq = e.bootSeq → d.bootId = e.bootId)
    (horder : es.Pairwise fun d e => d.bootSeq ≤ e.bootSeq) :
    (sortBoots (segments.foldl addBoot [])).map (fun b => (b.bootId, b.bootSeq)) =
      (es.map fun e => (e.bootId, e.bootSeq)).dedup := by
  obtain ⟨hincreasing, -⟩ := sortBoots_spec hone
  set listed := (sortBoots (segments.foldl addBoot [])).map fun b => (b.bootId, b.bootSeq)
    with hlisted
  have hsorted : listed.Pairwise fun p q => p.2 < q.2 := List.pairwise_map.mpr hincreasing
  have hnodup : listed.Nodup := by
    refine hsorted.imp ?_
    intro p q hlt heq
    rw [heq] at hlt
    exact UInt32.lt_irrefl _ hlt
  have hperm : listed.Perm (es.map fun e => (e.bootId, e.bootSeq)).dedup := by
    rw [List.perm_ext_iff_of_nodup hnodup (List.nodup_dedup _)]
    intro p
    rw [List.mem_dedup]
    exact h.mem_boots hone p
  have hpairs : (es.map fun e => (e.bootId, e.bootSeq)).Pairwise fun p q => p.2 ≤ q.2 := by
    rw [List.pairwise_map]
    exact horder
  have hdedup : (es.map fun e => (e.bootId, e.bootSeq)).dedup.Pairwise fun p q => p.2 ≤ q.2 :=
    hpairs.sublist (List.dedup_sublist _)
  refine @List.Perm.eq_of_pairwise _ (fun p q => p.2 ≤ q.2) _ _ ?_
    (hsorted.imp fun hlt => UInt32.le_of_lt hlt) hdedup hperm
  intro p q hp hq hpq hqp
  obtain ⟨d, hd, rfl⟩ := List.mem_map.mp ((h.mem_boots hone p).mp hp)
  obtain ⟨e, he, rfl⟩ := List.mem_map.mp (List.mem_dedup.mp hq)
  have hseq := UInt32.le_antisymm hpq hqp
  exact Prod.ext (hinj d hd e he hseq) hseq

end Table

/-! ## The directory of a run -/

section Directory

variable {closed : List SegmentOnDisk} {root : List RootChild}

/-- The directories of a log directory, with their files. -/
def directoriesOf (root : List RootChild) : List (Bytes × List (Bytes × Bytes)) :=
  root.filterMap fun child =>
    match child with
    | .directory name files => some (name, files)
    | _ => none

/-- A file that the player takes for a segment. -/
def isSegmentName (f : Bytes × Bytes) : Bool := (playerSegmentSeqFromName f.1).isSome

/-- **The directory of a recorder**: each closed segment is in the directory of its group, under
the name of its number. There are no other segment files. -/
structure RunDirectory (closed : List SegmentOnDisk) (root : List RootChild) : Prop where
  loose : ∀ name content, RootChild.file name content ∈ root →
    isSegmentName (name, content) = false
  nodup : ((directoriesOf root).map (·.1)).Nodup
  valid : ∀ f ∈ closed, playerValidGroupName f.group = true ∧
    f.group ∈ (directoriesOf root).map (·.1)
  files : ∀ d ∈ directoriesOf root, (d.2.filter isSegmentName).Perm
    ((closed.filter (·.group = d.1)).map fun f => (segmentName f.nameSeq, f.content))

/-- What the player notes of a closed segment. -/
def logSegment (f : SegmentOnDisk) : LogSegment := ⟨f.content, f.nameSeq⟩

theorem playerSegmentSeqFromName_segmentName (seq : UInt64) :
    playerSegmentSeqFromName (segmentName seq) = some seq := by
  have hread := strtoull_decimal_append seq.toNat_lt segSuffix (by simp [segSuffix, isDigit])
  unfold playerSegmentSeqFromName segmentName
  rw [hread]
  simp

theorem collectSegmentsInDir_filter (files : List (Bytes × Bytes)) :
    collectSegmentsInDir files = collectSegmentsInDir (files.filter isSegmentName) := by
  unfold collectSegmentsInDir
  rw [List.filterMap_filter]
  apply List.filterMap_congr
  intro f _
  unfold isSegmentName
  cases playerSegmentSeqFromName f.1 <;> rfl

/-- Only directories have segments. -/
theorem RunDirectory.collect_eq (h : RunDirectory closed root) :
    collectLogSegments root = (directoriesOf root).flatMap fun d =>
      if playerValidGroupName d.1 then collectSegmentsInDir d.2 else [] := by
  have hloose := h.loose
  clear h
  unfold collectLogSegments directoriesOf
  induction root with
  | nil => rfl
  | cons child root ih =>
    rw [List.flatMap_cons, ih fun name content hmem => hloose name content (.tail _ hmem)]
    cases child with
    | file name content =>
      have hnone := hloose name content List.mem_cons_self
      rw [isSegmentName, Option.isSome_eq_false_iff, Option.isNone_iff_eq_none] at hnone
      simp [collectSegmentsInDir, hnone]
    | directory name files => rfl
    | other name => rfl

/-- **The player finds the closed segments.**
SOURCE: player.c:1298-1375 -/
theorem RunDirectory.collect_perm (h : RunDirectory closed root) :
    (collectLogSegments root).Perm (closed.map logSegment) := by
  have hdirs : ∀ d ∈ directoriesOf root,
      (if playerValidGroupName d.1 then collectSegmentsInDir d.2 else []).Perm
        ((closed.filter (·.group = d.1)).map logSegment) := by
    intro d hd
    by_cases hvalid : playerValidGroupName d.1 = true
    · rw [if_pos hvalid, collectSegmentsInDir_filter]
      refine ((h.files d hd).filterMap _).trans (List.Perm.of_eq ?_)
      rw [List.filterMap_map, ← List.filterMap_eq_map]
      apply List.filterMap_congr
      intro f _
      simp only [Function.comp_apply, playerSegmentSeqFromName_segmentName, Option.map_some]
      rfl
    · rw [if_neg hvalid, List.filter_eq_nil_iff.mpr, List.map_nil]
      intro f hf hgroup
      rw [decide_eq_true_eq] at hgroup
      rw [← hgroup] at hvalid
      exact hvalid (h.valid f hf).1
  have hparts := perm_flatMap_filter (·.group) _ h.nodup closed fun f hf => (h.valid f hf).2
  rw [List.flatMap_map] at hparts
  calc collectLogSegments root
    _ = _ := h.collect_eq
    _ |>.Perm _ := List.Perm.flatMap_left _ hdirs
    _ = ((directoriesOf root).flatMap fun d => closed.filter (·.group = d.1)).map logSegment := by
        rw [List.map_flatMap]
    _ |>.Perm _ := (hparts.map logSegment).symm

end Directory

/-! ## Scanning the segments -/

section Collect

variable {evp : EvpOps} {codec : CodecOps}

/-- The metadata of a segment file. -/
def HasMeta (evp : EvpOps) (codec : CodecOps) (content : Bytes) (s : SegmentMeta) : Prop :=
  ∃ out, metadataScan evp codec content = .ok out ∧ s = ⟨out.header, out.footer⟩

/-- The boots are those of the metadata, when all files can be scanned. -/
theorem collectBoots_of_meta {items : List LogSegment} {metas : List SegmentMeta}
    (h : List.Forall₂ (fun item s => HasMeta evp codec item.content s) items metas) :
    collectBootsFromSegments evp codec items = some (sortBoots (metas.foldl addBoot [])) := by
  unfold collectBootsFromSegments
  rw [Option.map_eq_some_iff]
  refine ⟨_, ?_, rfl⟩
  generalize ([] : List BootInfo) = boots
  induction h generalizing boots with
  | nil => rfl
  | cons hitem _ ih =>
    obtain ⟨out, hout, rfl⟩ := hitem
    rw [List.foldlM_cons, hout]
    exact ih _

/-- Files in another order have the same metadata, in another order. -/
theorem collectBoots_perm {items : List LogSegment} {closed : List SegmentOnDisk}
    (hperm : items.Perm (closed.map logSegment)) {scanned : SegmentOnDisk → SegmentMeta}
    (hscanned : ∀ f ∈ closed, HasMeta evp codec f.content (scanned f)) :
    ∃ metas : List SegmentMeta, metas.Perm (closed.map scanned) ∧
      collectBootsFromSegments evp codec items = some (sortBoots (metas.foldl addBoot [])) := by
  have hall : List.Forall₂ (fun item s => HasMeta evp codec item.content s)
      (closed.map logSegment) (closed.map scanned) := by
    rw [List.forall₂_map_left_iff, List.forall₂_map_right_iff, List.forall₂_same]
    exact hscanned
  obtain ⟨metas, hmetas, hperm'⟩ := List.perm_comp_forall₂ hperm hall
  exact ⟨metas, hperm', collectBoots_of_meta hmetas⟩

end Collect

/-! ## Along a run -/

/-- What a scan of a closed segment reports. -/
def closedMeta (f : SegmentOnDisk) : SegmentMeta :=
  ⟨{ f.header with dictLen := UInt32.ofNat f.dict.length },
    { f.footer.getD {} with present := true }⟩

theorem ScansBack.hasMeta {env : RecorderEnv} {config : RecorderConfig} {codec : CodecOps}
    {f : SegmentOnDisk} {out : ScanOut} {calls : List (SegmentFrameInfo × Bytes)}
    (h : ScansBack env config codec f out calls) (hfooter : f.footer.isSome = true) :
    HasMeta env.evp codec f.content (closedMeta f) := by
  obtain ⟨footer, hfooter⟩ := Option.isSome_iff_exists.mp hfooter
  have hout := h.footer
  rw [hfooter, Option.map_some, Option.some.injEq] at hout
  refine ⟨out, h.metadata, ?_⟩
  rw [closedMeta, h.header, hout, hfooter]
  rfl

/-- A sound segment and its metadata. -/
theorem SegmentSound.times {limit : ℕ} {f : SegmentOnDisk} {footer : SegmentFooter}
    (h : SegmentSound limit f footer) (hfooter : f.footer = some footer)
    (hnumbers : HeaderNumbers f) : SegmentTimes (segmentEntries f) (closedMeta f) := by
  have hlast : (closedMeta f).lastRealtimeTs = footer.lastRealtimeTs := by
    unfold SegmentMeta.lastRealtimeTs closedMeta
    rw [hfooter]
    by_cases hzero : footer.lastRealtimeTs = 0
    · -- then all entries were written at time zero
      obtain ⟨e, he⟩ : ∃ e, (segmentEntries f).head? = some e := by
        cases hhead : (segmentEntries f).head? with
        | none =>
          have hfirst := h.first
          rw [hhead] at hfirst
          cases hfirst
        | some e => exact ⟨e, rfl⟩
      have hfirst := h.first
      rw [he, Option.map_some, Option.some.injEq] at hfirst
      have hle := h.upper e (List.mem_of_head? he)
      rw [hzero] at hle
      change (if footer.lastRealtimeTs ≠ 0 then _ else f.header.firstRealtimeTs) = _
      rw [if_neg (not_not.mpr hzero), ← hfirst, hzero]
      exact UInt64.le_antisymm hle UInt64.zero_le
    · exact if_pos hzero
  constructor
  · exact fun e he => ⟨h.boot e he, (hnumbers.boot e he).symm⟩
  · have hfirst := h.first
    obtain ⟨e, he, heq⟩ := Option.map_eq_some_iff.mp hfirst
    exact ⟨e, List.mem_of_head? he, heq⟩
  · exact h.lower
  · rw [hlast]
    exact h.upper
  · rw [hlast]
    exact h.reached

section Runs

variable {env : RecorderEnv} {config : RecorderConfig} {journal : List LogEntry}
  {closed : List SegmentOnDisk} {es : List LogEntry}

/-- A table in the order of arrival is numbered one to one. -/
theorem InArrivalOrder.seq_iff {rows : List (Bytes × UInt32)} {done : List LogEntry}
    (h : InArrivalOrder rows done) (hcount : rows.length ≤ maxBoots) {p q : Bytes × UInt32}
    (hp : p ∈ rows) (hq : q ∈ rows) : p.2 = q.2 ↔ p.1 = q.1 := by
  constructor
  · intro hseq
    obtain ⟨i, hi⟩ := List.mem_iff_getElem?.mp hp
    obtain ⟨j, hj⟩ := List.mem_iff_getElem?.mp hq
    have hilt := (List.getElem?_eq_some_iff.mp hi).1
    have hjlt := (List.getElem?_eq_some_iff.mp hj).1
    rw [h.seqs i p hi, h.seqs j q hj] at hseq
    have hnat := congrArg UInt32.toNat hseq
    have hmax : maxBoots < 2 ^ 32 := by decide
    rw [UInt32.toNat_ofNat_of_lt' (show i < 2 ^ 32 by omega),
      UInt32.toNat_ofNat_of_lt' (show j < 2 ^ 32 by omega)] at hnat
    rw [hnat, hj] at hi
    rw [Option.some.inj hi]
  · intro hid
    rw [List.inj_on_of_nodup_map h.nodup hp hq hid]

/-- **The headers of a run agree with its table**: when nothing is removed, each closed segment
has the number of its boot. -/
theorem closed_numbered (env : RecorderEnv) (config : RecorderConfig)
    (calls : List RecorderCall) {start : RecorderState}
    (hroom : RoomForBoots journal) (hstart : FreshRecorder start)
    (hkeeps : (recorderRun env config journal calls start).history.passes = []) :
    ∀ f ∈ (recorderRun env config journal calls start).closed, (fileBoot f, f.header.bootSeq) ∈
      tableRows (recorderRun env config journal calls start).boots := by
  have hrule : NumberingRule (tableNumbering (journal.map (·.bootId)) [] fun _ _ => True) journal
      [] (PassKeepsBoots fun _ _ => True) :=
    tableNumbering_rule [] hroom.few
      (fun e he => List.mem_map_of_mem (f := fun d : LogEntry => d.bootId) he)
      (fun _ _ _ _ h => h) fun _ _ _ => trivial
  have hinit : BootsKept (tableNumbering (journal.map (·.bootId)) [] fun _ _ => True) [] .idle
      start := by
    refine ⟨fun _ _ => False, ⟨⟨?_, ?_⟩, nofun, nofun, by simp⟩, ⟨[], hstart.closed, by simp⟩, ?_,
      by rintro e (⟨⟨⟩⟩ | ⟨⟨⟩⟩)⟩
    · rw [hstart.boots]
      exact List.nodup_nil
    · rw [hstart.boots]
      simp [BootRegistry.init]
    · intro gi f hf
      rw [hstart.files gi] at hf
      cases hf
  obtain ⟨given, hinv⟩ := (boot_rule env config hrule).run calls (fun _ => hinit)
    (by rw [hkeeps]; exact fun pass hpass => absurd hpass List.not_mem_nil)
  obtain ⟨new, hnew, hall⟩ := hinv.closed
  intro f hf
  rw [hnew, List.nil_append] at hf
  obtain ⟨hknown, hnumber⟩ := hall f hf
  obtain ⟨e, he, hid⟩ := List.mem_map.mp hknown
  have hne : fileBoot f ≠ [] := by
    rw [← hid]
    exact hroom.ids e he
  obtain ⟨b, hb, hbid, hbseq⟩ := hinv.table.inTable _ _ hne trivial (hnumber.of_ne hne)
  exact List.mem_map.mpr ⟨b, hb, Prod.ext hbid hbseq⟩

/-- The segments a run has closed, for the table of boots. -/
theorem segmentsOf_closed (hsegments : SegmentsHold config closed es) {metas : List SegmentMeta}
    (hmetas : metas.Perm (closed.map closedMeta)) {limit : ℕ}
    (hsound : ∀ f ∈ closed, ∃ footer, f.footer = some footer ∧ SegmentSound limit f footer) :
    SegmentsOf metas es := by
  have htimes : ∀ f ∈ closed, SegmentTimes (segmentEntries f) (closedMeta f) := by
    intro f hf
    obtain ⟨footer, hfooter, h⟩ := hsound f hf
    exact h.times hfooter (hsegments.mem_iff hf).1
  constructor
  · intro s hs
    obtain ⟨f, hf, rfl⟩ := List.mem_map.mp (hmetas.mem_iff.mp hs)
    refine ⟨segmentEntries f, htimes f hf, fun e he => hsegments.perm.mem_iff.mp ?_⟩
    exact List.mem_flatMap.mpr ⟨f, hf, he⟩
  · intro e he
    obtain ⟨f, hf, hef⟩ := List.mem_flatMap.mp (hsegments.perm.mem_iff.mpr he)
    exact ⟨closedMeta f, hmetas.mem_iff.mpr (List.mem_map_of_mem hf), segmentEntries f,
      htimes f hf, hef⟩

end Runs

/-- **What the player reads of a run**: its segments hold the entries that were accepted, and
numbers, ids and rows of the table belong together. -/
structure RunBoots (evp : EvpOps) (codec : CodecOps) (root : List RootChild) (r : RecorderState)
    (metas : List SegmentMeta) : Prop where
  listed : collectBootsForPath evp codec (.directory root) =
    some (sortBoots (metas.foldl addBoot []))
  holds : SegmentsOf metas (acceptedEntries r)
  one : OneBootEach metas
  inj : ∀ d ∈ acceptedEntries r, ∀ e ∈ acceptedEntries r,
    d.bootSeq = e.bootSeq ↔ d.bootId = e.bootId
  rows : ∀ e ∈ acceptedEntries r, (e.bootId, e.bootSeq) ∈ tableRows r.boots
  order : (acceptedEntries r).Pairwise fun d e => d.bootSeq ≤ e.bootSeq

/-- The boots that are listed are those of the accepted entries, in their order. -/
theorem RunBoots.boots_eq {evp : EvpOps} {codec : CodecOps} {root : List RootChild}
    {r : RecorderState} {metas : List SegmentMeta} (h : RunBoots evp codec root r metas) :
    (sortBoots (metas.foldl addBoot [])).map (fun b => (b.bootId, b.bootSeq)) =
      ((acceptedEntries r).map fun e => (e.bootId, e.bootSeq)).dedup :=
  h.holds.boots_eq h.one (fun d hd e he => (h.inj d hd e he).mp) h.order

/-- The player can list the boots of the directory that a run leaves behind. -/
theorem run_boots (env : RecorderEnv) (config : RecorderConfig) {codec : CodecOps}
    (evpLaws : EvpLaws env.evp) (laws : ChunkLaws env codec)
    (hsmall : ∀ key t gi, dataOffset env.evp key config.encryption (groupDict env config t gi) <
      2 ^ 32)
    {journal : List LogEntry} (hroom : RoomForBoots journal) (horder : JournalInOrder journal)
    (calls : List RecorderCall) {start : RecorderState} (hstart : FreshRecorder start)
    (hok : (recorderRun env config journal calls start).history.failed = false)
    (hkeeps : (recorderRun env config journal calls start).history.passes = [])
    (hclosed : ∀ gi < config.groups.length,
      ((recorderRun env config journal calls start).writers gi).file = none)
    (hcount : 1 + (recorderRun env config journal calls start).closed.length < 2 ^ 64)
    (hreadable : ∀ f ∈ (recorderRun env config journal calls start).closed,
      FramesReadable env config f)
    {root : List RootChild}
    (hroot : RunDirectory (recorderRun env config journal calls start).closed root) :
    ∃ metas, RunBoots env.evp codec root (recorderRun env config journal calls start) metas := by
  have hsegments := group_contents env config hroom horder calls hstart hok hkeeps hclosed hcount
  have hkeys := (key_rule env config hroom horder).run calls (fun _ _ => hstart.keyInv) hok hkeeps
  have hrows := closed_numbered env config calls hroom hstart hkeeps
  have hsound : ∀ f ∈ (recorderRun env config journal calls start).closed,
      ∃ footer, f.footer = some footer ∧ SegmentSound journal.length f footer := by
    have hinit : MetadataInv journal [] .idle start := by
      refine ⟨fun gi => ⟨fun _ => hstart.chunks gi, fun f hf => ?_⟩, ⟨[], hstart.closed, by simp⟩,
        hstart.entryPending, fun e he => by cases he⟩
      rw [hstart.files gi] at hf
      cases hf
    obtain ⟨new, hnew, hall⟩ :=
      ((metadata_rule env config [] hroom.ids).run calls (fun _ => hinit) hok).closed
    rw [hnew]
    exact hall
  set r := recorderRun env config journal calls start with hr
  have hmeta : ∀ f ∈ r.closed, HasMeta env.evp codec f.content (closedMeta f) := by
    intro f hf
    have hnew : f ∉ start.closed := by
      rw [hstart.closed]
      exact List.not_mem_nil
    obtain ⟨out, handed, hback⟩ := closed_segments_scan env config codec evpLaws laws hsmall
      journal calls start hstart.toRecorderStarted hok f hf hnew (hreadable f hf)
    obtain ⟨footer, hfooter, -⟩ := hsound f hf
    exact hback.hasMeta (by rw [hfooter]; rfl)
  obtain ⟨metas, hmetas, hboots⟩ := collectBoots_perm
    ((exchangeSort_perm _ _).trans hroot.collect_perm) hmeta
  -- a number stands for an id, because both are a row of the table
  have hseqs : ∀ f ∈ r.closed, ∀ g ∈ r.closed,
      f.header.bootSeq = g.header.bootSeq ↔ fileBoot f = fileBoot g := by
    intro f hf g hg
    apply hkeys.table.seq_iff _ (hrows f hf) (hrows g hg)
    rw [length_tableRows]
    exact r.boots.count_le
  have hone : OneBootEach metas := by
    intro s hs t ht
    obtain ⟨f, hf, rfl⟩ := List.mem_map.mp (hmetas.mem_iff.mp hs)
    obtain ⟨g, hg, rfl⟩ := List.mem_map.mp (hmetas.mem_iff.mp ht)
    exact hseqs f hf g hg
  have hof : SegmentsOf metas (acceptedEntries r) := segmentsOf_closed hsegments hmetas hsound
  have hentry : ∀ e ∈ acceptedEntries r, (e.bootId, e.bootSeq) ∈ tableRows r.boots := by
    intro e he
    obtain ⟨s, hs, part, htimes, hepart⟩ := hof.covers e he
    obtain ⟨f, hf, rfl⟩ := List.mem_map.mp (hmetas.mem_iff.mp hs)
    rw [← (htimes.boot e hepart).1, ← (htimes.boot e hepart).2]
    exact hrows f hf
  have hinj : ∀ d ∈ acceptedEntries r, ∀ e ∈ acceptedEntries r,
      d.bootSeq = e.bootSeq ↔ d.bootId = e.bootId := by
    intro d hd e he
    apply hkeys.table.seq_iff _ (hentry d hd) (hentry e he)
    rw [length_tableRows]
    exact r.boots.count_le
  have hnumbers : (acceptedEntries r).Pairwise fun d e => d.bootSeq ≤ e.bootSeq := by
    refine hkeys.increasing.imp ?_
    intro d e hlt
    rcases compareKeys_lt.mp hlt with hlt | ⟨heq, -⟩
    · exact UInt32.le_of_lt hlt
    · exact UInt32.le_of_eq heq
  exact ⟨metas, hboots, hof, hone, hinj, hentry, hnumbers⟩

/-- **The boots that were recorded are listed.** Of the directory that a run leaves behind the
player lists each boot once, under its number and in the order in which the recorder received
the boots, between the times of its entries.
SOURCE: player.c:1225-1440, recorder.c:3395-3440, 3679-3747, 3876-3952 -/
theorem boots_listed (env : RecorderEnv) (config : RecorderConfig) {codec : CodecOps}
    (evpLaws : EvpLaws env.evp) (laws : ChunkLaws env codec)
    (hsmall : ∀ key t gi, dataOffset env.evp key config.encryption (groupDict env config t gi) <
      2 ^ 32)
    {journal : List LogEntry} (hroom : RoomForBoots journal) (horder : JournalInOrder journal)
    (calls : List RecorderCall) {start : RecorderState} (hstart : FreshRecorder start)
    (hok : (recorderRun env config journal calls start).history.failed = false)
    (hkeeps : (recorderRun env config journal calls start).history.passes = [])
    (hclosed : ∀ gi < config.groups.length,
      ((recorderRun env config journal calls start).writers gi).file = none)
    (hcount : 1 + (recorderRun env config journal calls start).closed.length < 2 ^ 64)
    (hreadable : ∀ f ∈ (recorderRun env config journal calls start).closed,
      FramesReadable env config f)
    {root : List RootChild}
    (hroot : RunDirectory (recorderRun env config journal calls start).closed root) :
    ∃ boots, collectBootsForPath env.evp codec (.directory root) = some boots ∧
      boots.map (fun b => (b.bootId, b.bootSeq)) =
        ((acceptedEntries (recorderRun env config journal calls start)).map
          fun e => (e.bootId, e.bootSeq)).dedup ∧
      (boots.map (·.bootId)).Nodup ∧
      ∀ boot ∈ boots, BootSummary
        ((acceptedEntries (recorderRun env config journal calls start)).filter
          (·.bootId = boot.bootId)) boot := by
  obtain ⟨metas, hrun⟩ := run_boots env config evpLaws laws hsmall hroom horder calls hstart hok
    hkeeps hclosed hcount hreadable hroot
  exact ⟨_, hrun.listed, hrun.boots_eq, sortBoots_ids_nodup hrun.one,
    fun boot hboot => hrun.holds.summary hrun.one hboot⟩

/-! ## Two boots -/

/-- Two boots are received, and the recorder is shut down. -/
def rebootRun : RecorderState :=
  recorderRun (plainEnv fun _ _ => .ok) oneGroup [messageEntry, rebootEntry] [.step, .shutdown] {}

/-- The log directory it leaves. -/
def rebootRoot : List RootChild :=
  [.directory (oneGroup.group 0).name
    (rebootRun.closed.map fun f => (segmentName f.nameSeq, f.content))]

theorem rebootRun_inOrder : JournalInOrder [messageEntry, rebootEntry] := by
  refine ⟨?_, by decide, by decide, ?_⟩
  · intro a between b hblock _ c hc
    have hle := hblock.length_le
    have hpos := List.length_pos_of_mem hc
    simp only [List.length_cons, List.length_append, List.length_nil] at hle
    omega
  · intro run hinfix _
    have hle := hinfix.length_le
    simp only [List.length_cons, List.length_nil] at hle
    omega

theorem rebootRoot_directory : RunDirectory rebootRun.closed rebootRoot := by
  refine ⟨by simp [rebootRoot], List.nodup_singleton _, by decide +kernel, ?_⟩
  intro d hd
  rw [List.mem_singleton.mp hd]
  exact List.Perm.of_eq (by decide +kernel)

theorem rebootRun_closed :
    ∀ gi < oneGroup.groups.length, (rebootRun.writers gi).file = none := by
  have hnone : ∀ gi < oneGroup.groups.length, (rebootRun.writers gi).file.isNone := by
    decide +kernel
  exact fun gi hgi => Option.isNone_iff_eq_none.mp (hnone gi hgi)

theorem rebootRun_length : rebootRun.closed.length = 2 := by decide +kernel

theorem rebootRun_readable :
    ∀ f ∈ rebootRun.closed, FramesReadable (plainEnv fun _ _ => .ok) oneGroup f := by
  have hfooter : ∀ f ∈ rebootRun.closed, ∀ frame ∈ f.frames,
      footerAt (f.content.drop frame.offset) = none := by decide +kernel
  intro f hf
  refine ⟨fun frame hframe => ?_, ?_⟩
  · exact (footerAt_eq_none_iff _).mp (hfooter f hf frame hframe)
  · rintro frame hframe ⟨henabled, -⟩
    cases henabled

/-- The second boot, with an earlier time, is listed behind the first. -/
theorem boots_listed_reboot :
    ∃ boots, collectBootsForPath noEvp plainCodec (.directory rebootRoot) = some boots ∧
      boots.map (fun b => (b.bootId, b.bootSeq)) = [([98], 0), ([99], 1)] ∧
      (boots.map (·.bootId)).Nodup ∧
      ∀ boot ∈ boots, boot.bootId = [99] → boot.lastRealtimeTs = 3 := by
  have hclosed := rebootRun_closed
  have hroot := rebootRoot_directory
  rw [rebootRun] at hclosed hroot
  obtain ⟨boots, hboots, hnumbers, hnodup, hsummary⟩ := boots_listed (plainEnv fun _ _ => .ok)
    oneGroup noEvp_laws (plainEnv_laws _) (plainEnv_small rfl) ⟨by decide, by decide⟩
    rebootRun_inOrder [.step, .shutdown] errorRun_started (by decide +kernel)
    (List.length_eq_zero_iff.mp (by decide +kernel)) hclosed
    (by rw [← rebootRun, rebootRun_length]; omega) rebootRun_readable hroot
  have htimes : ∀ e ∈ (acceptedEntries rebootRun).filter (·.bootId = [99]), e.realtimeTs = 3 := by
    decide +kernel
  refine ⟨boots, hboots, hnumbers.trans (by decide +kernel), hnodup, ?_⟩
  intro boot hboot hid
  obtain ⟨e, he, hreached⟩ := (hsummary boot hboot).reached
  rw [hid] at he
  rw [← hreached]
  exact htimes e he

end Recorder.Analysis
