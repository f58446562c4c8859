import Recorder.Analysis.BootList
import Recorder.Model.Player

/-!
# Boots by their offset

The list of boots gives the last boot the offset 0 and counts back from it. With `-b` and one of
these offsets the player lists the boots again and turns the offset into a number, by which it
compares entries. So an offset that was printed selects the entries of the boot it was printed
for, and any other offset that is not positive is refused.

**Main result**: `listed_offset_selects`.
-/

set_option autoImplicit false

namespace Recorder.Analysis

open Recorder.Model Recorder.Lib

section Offsets

variable {boots : List BootInfo} {evp : EvpOps} {codec : CodecOps} {path : LogPath} {v : ℤ}

theorem mem_printBoots {line : ℤ × BootInfo} : line ∈ printBoots boots ↔
    ∃ (i : ℕ) (h : i < boots.length), ((i : ℤ) - boots.length + 1, boots[i]) = line :=
  List.mem_mapIdx

/-- An offset that is printed is parsed again. -/
theorem parseI32_signedDecimal (hlow : -2147483648 ≤ v) (hhigh : v ≤ 2147483647) :
    parseI32 (signedDecimal v) = some v := by
  unfold parseI32
  rw [strtol_signedDecimal (by omega) (by omega)]
  exact if_pos ⟨hlow, hhigh⟩

/-- **What `-b` does with an offset**: it counts back from the last boot.
SOURCE: player.c:1477-1492 -/
theorem resolveBootFilter_offset (hboots : collectBootsForPath evp codec path = some boots)
    (hlow : -2147483648 ≤ v) (hv : v ≤ 0) :
    resolveBootFilter evp codec path (some (signedDecimal v)) =
      (boots[((boots.length : ℤ) - 1 + v).toNat]?).bind fun boot =>
        if (-v).toNat < boots.length then some (none, some boot.bootSeq) else none := by
  unfold resolveBootFilter
  simp only [parseI32_signedDecimal hlow (hv.trans (by omega)), if_pos hv, hboots,
    Option.bind_some]
  by_cases hlt : (-v).toNat < boots.length
  · rw [if_neg (by omega)]
    cases boots[((boots.length : ℤ) - 1 + v).toNat]? with
    | none => rfl
    | some boot => exact (if_pos hlt).symm
  · rw [if_pos (by omega)]
    cases boots[((boots.length : ℤ) - 1 + v).toNat]? with
    | none => rfl
    | some boot => exact (if_neg hlt).symm

end Offsets

section Runs

variable {evp : EvpOps} {codec : CodecOps} {root : List RootChild} {r : RecorderState}
  {metas : List SegmentMeta} {boot : BootInfo}

/-- The table of a recorder has room for all boots that are listed. -/
theorem RunBoots.length_le (h : RunBoots evp codec root r metas) :
    (sortBoots (metas.foldl addBoot [])).length ≤ maxBoots := by
  have hsub : ((acceptedEntries r).map fun e => (e.bootId, e.bootSeq)).dedup ⊆
      tableRows r.boots := by
    intro p hp
    obtain ⟨e, he, rfl⟩ := List.mem_map.mp (List.mem_dedup.mp hp)
    exact h.rows e he
  have hle := ((List.nodup_dedup _).subperm hsub).length_le
  rw [← h.boots_eq, List.length_map, length_tableRows] at hle
  exact hle.trans r.boots.count_le

/-- The number of a listed boot selects its entries. -/
theorem RunBoots.matches_iff (h : RunBoots evp codec root r metas)
    (hboot : boot ∈ sortBoots (metas.foldl addBoot [])) {e : LogEntry}
    (he : e ∈ acceptedEntries r) : e.bootSeq = boot.bootSeq ↔ e.bootId = boot.bootId := by
  have hmem : (boot.bootId, boot.bootSeq) ∈
      ((acceptedEntries r).map fun e => (e.bootId, e.bootSeq)).dedup := by
    rw [← h.boots_eq]
    exact List.mem_map.mpr ⟨boot, hboot, rfl⟩
  obtain ⟨d, hd, heq⟩ := List.mem_map.mp (List.mem_dedup.mp hmem)
  obtain ⟨hid, hseq⟩ := Prod.mk.inj heq
  rw [← hid, ← hseq]
  exact h.inj e he d hd

end Runs

/-- **A listed offset selects its boot.** Of the directory that a run leaves behind, `-b` with an
offset that `--list-boots` prints keeps just the accepted entries of the boot it was printed for.
Any other offset that is not positive is refused.
SOURCE: player.c:385-412, 1442-1499 -/
theorem listed_offset_selects (env : RecorderEnv) (config : RecorderConfig) {codec : CodecOps}
    (evpLaws : EvpLaws env.evp) (laws : ChunkLaws env codec)
    (hsmall : ∀ key t gi, dataOffset env.evp key config.encryption (groupDict env config t gi) <
      2 ^ 32)
    {journal : List LogEntry} (hroom : RoomForBoots journal) (horder : JournalInOrder journal)
    (calls : List RecorderCall) {start : RecorderState} (hstart : FreshRecorder start)
    (hok : (recorderRun env config journal calls start).history.failed = false)
    (hkeeps : (recorderRun env config journal calls start).history.passes = [])
    (hclosed : ∀ gi < config.groups.length,
      ((recorderRun env config journal calls start).writers gi).file = none)
    (hcount : 1 + (recorderRun env config journal calls start).closed.length < 2 ^ 64)
    (hreadable : ∀ f ∈ (recorderRun env config journal calls start).closed,
      FramesReadable env config f)
    {root : List RootChild}
    (hroot : RunDirectory (recorderRun env config journal calls start).closed root) :
    ∃ boots, collectBootsForPath env.evp codec (.directory root) = some boots ∧
      (∀ line ∈ printBoots boots,
        resolveBootFilter env.evp codec (.directory root) (some (signedDecimal line.1)) =
          some (none, some line.2.bootSeq) ∧
        ∀ e ∈ acceptedEntries (recorderRun env config journal calls start), ∀ pc : PrintContext,
          bootMatches { pc with bootIdFilter := none, bootSeqFilter := some line.2.bootSeq }
            e.bootSeq e.bootId = decide (e.bootId = line.2.bootId)) ∧
      ∀ v : ℤ, -2147483648 ≤ v → v ≤ 0 → (∀ line ∈ printBoots boots, line.1 ≠ v) →
        resolveBootFilter env.evp codec (.directory root) (some (signedDecimal v)) = none := by
  obtain ⟨metas, hrun⟩ := run_boots env config evpLaws laws hsmall hroom horder calls hstart hok
    hkeeps hclosed hcount hreadable hroot
  refine ⟨_, hrun.listed, ?_, ?_⟩
  · intro line hline
    have hlength := hrun.length_le
    have hlisted := hrun.listed
    have hselects : ∀ boot ∈ sortBoots (metas.foldl addBoot []),
        ∀ e ∈ acceptedEntries (recorderRun env config journal calls start),
          e.bootSeq = boot.bootSeq ↔ e.bootId = boot.bootId :=
      fun _ hboot _ he => hrun.matches_iff hboot he
    generalize sortBoots (metas.foldl addBoot []) = boots at *
    obtain ⟨i, hi, rfl⟩ := mem_printBoots.mp hline
    have hmax : maxBoots = 256 := rfl
    constructor
    · have hindex : ((boots.length : ℤ) - 1 + ((i : ℤ) - boots.length + 1)).toNat = i := by omega
      rw [resolveBootFilter_offset hlisted (by omega) (by omega), hindex,
        List.getElem?_eq_getElem hi, Option.bind_some, if_pos (by omega)]
    · intro e he pc
      have hiff := hselects boots[i] (List.getElem_mem hi) e he
      change (e.bootSeq == boots[i].bootSeq) = decide (e.bootId = boots[i].bootId)
      rw [beq_eq_decide, decide_eq_decide]
      exact hiff
  · intro v hlow hv hnone
    have hlisted := hrun.listed
    generalize sortBoots (metas.foldl addBoot []) = boots at *
    rw [resolveBootFilter_offset hlisted hlow hv]
    by_cases hlt : (-v).toNat < boots.length
    · -- the boot at this offset would have been printed
      exfalso
      have hi : ((boots.length : ℤ) - 1 + v).toNat < boots.length := by omega
      refine hnone _ (mem_printBoots.mpr ⟨_, hi, rfl⟩) ?_
      dsimp only
      omega
    · cases boots[((boots.length : ℤ) - 1 + v).toNat]? with
      | none => rfl
      | some boot => exact if_neg hlt

/-- Of two boots the first is selected by the offset -1. -/
theorem listed_offset_selects_reboot :
    resolveBootFilter noEvp plainCodec (.directory rebootRoot) (some [45, 49]) =
        some (none, some 0) ∧
      resolveBootFilter noEvp plainCodec (.directory rebootRoot) (some [45, 50]) = none := by
  have hclosed := rebootRun_closed
  have hroot := rebootRoot_directory
  rw [rebootRun] at hclosed hroot
  obtain ⟨boots, hboots, hlines, hothers⟩ := listed_offset_selects (plainEnv fun _ _ => .ok)
    oneGroup noEvp_laws (plainEnv_laws _) (plainEnv_small rfl) ⟨by decide, by decide⟩
    rebootRun_inOrder [.step, .shutdown] errorRun_started (by decide +kernel)
    (List.length_eq_zero_iff.mp (by decide +kernel)) hclosed
    (by rw [← rebootRun, rebootRun_length]; omega) rebootRun_readable hroot
  have hprinted : (collectBootsForPath noEvp plainCodec (.directory rebootRoot)).map
      (fun boots => (printBoots boots).map fun line => (line.1, line.2.bootSeq)) =
        some [(-1, 0), (0, 1)] := by decide +kernel
  rw [show collectBootsForPath noEvp plainCodec (.directory rebootRoot) = some boots from hboots,
    Option.map_some, Option.some.injEq] at hprinted
  constructor
  · have hmem : ((-1 : ℤ), (0 : UInt32)) ∈
        (printBoots boots).map fun line => (line.1, line.2.bootSeq) := by
      rw [hprinted]
      exact List.mem_cons_self
    obtain ⟨line, hline, heq⟩ := List.mem_map.mp hmem
    obtain ⟨hoffset, hseq⟩ := Prod.mk.inj heq
    have hresolved := (hlines line hline).1
    rw [hoffset, hseq] at hresolved
    exact hresolved
  · have hrefused := hothers (-2) (by omega) (by omega)
    apply hrefused
    intro line hline heq
    have hmem : (line.1, line.2.bootSeq) ∈ [((-1 : ℤ), (0 : UInt32)), (0, 1)] := by
      rw [← hprinted]
      exact List.mem_map_of_mem hline
    rw [heq] at hmem
    revert hmem
    simp

end Recorder.Analysis
