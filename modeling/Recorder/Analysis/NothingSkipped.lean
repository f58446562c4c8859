import Recorder.Analysis.CallReading
import Recorder.Analysis.Checkpoint
import Recorder.Analysis.RecorderModifiers

/-!
# No entry is skipped

A turn of `recorder_step` that stores or drops its entry goes on to the next one, and one that
cannot store it leaves it current (`TurnOutcome`). Only where `extract_entry` or a modifier fails
(`TurnFails`) the step ends without marking the entry, and the next turn goes on behind it.

**Main result**: `step_never_skips`.
-/

set_option autoImplicit false

namespace Recorder.Analysis

open Recorder.Model

/-! ## A turn -/

section Turn

variable (env : RecorderEnv) (config : RecorderConfig) (journal : List LogEntry)

/-- The turn that begins here makes an entry current whose fields cannot be extracted, or on
which a modifier fails. -/
def TurnFails (s : RecorderState) : Prop :=
  ∃ e, journal[(atNextEntry s).position - 1]? = some e ∧
    ((env.io s.tick .extract).errno ≠ none ∨
      applyEntryModifiers env config (s.tick + 1) (received (atNextEntry s) e).2 = .error)

/-- The turn that begins here makes an entry current that the modifiers drop. -/
def TurnDrops (s : RecorderState) : Prop :=
  ∃ e, journal[(atNextEntry s).position - 1]? = some e ∧
    (env.io s.tick .extract).errno = none ∧
    applyEntryModifiers env config (s.tick + 1) (received (atNextEntry s) e).2 = .drop

/-- The modifiers drop an entry by rule. -/
theorem TurnDrops.byRule {mods : ModifierConfig} {ops : ℕ → ModifierOps}
    {fields : ℕ → Bytes → Option Bytes} (hmods : RunsModifiers env config mods ops fields)
    {s : RecorderState} (h : TurnDrops env config journal s) :
    ∃ e, journal[(atNextEntry s).position - 1]? = some e ∧
      DropsByRule (ops (s.tick + 1)) (fields (s.tick + 1)) mods
        (modifiedEntry (received (atNextEntry s) e).2) := by
  obtain ⟨e, he, -, hdrop⟩ := h
  exact ⟨e, he, (hmods.drop_iff _ _ (by rw [hdrop]; simp)).mp hdrop⟩

/-- What a turn that does not fail does with the entry it makes current. -/
inductive TurnOutcome (s s' : RecorderState) : Prop
  | ended (h : s' = s)
  | dropped (h : TurnDrops env config journal s)
    (hposition : s'.position = (atNextEntry s).position) (hpending : s'.currentEntryPending = false)
    (haccepted : s'.history.accepted = s.history.accepted)
    (hcursor : ∀ c, s'.pendingCursor = some c → s.pendingCursor = some c ∨ c = s'.position)
  | stored (e : LogEntry)
    (hposition : s'.position = (atNextEntry s).position) (hpending : s'.currentEntryPending = false)
    (haccepted : s'.history.accepted = s.history.accepted ++ [(s'.position, e)])
    (hcursor : ∀ c, s'.pendingCursor = some c → s.pendingCursor = some c ∨ c = s'.position)
  | pending
    (hposition : s'.position = (atNextEntry s).position) (hpending : s'.currentEntryPending = true)
    (haccepted : s'.history.accepted = s.history.accepted)
    (hcursor : ∀ c, s'.pendingCursor = some c → s.pendingCursor = some c)

theorem keepCursor_reading (r : RecorderState) :
    (recorderKeepCursor env r).2.position = r.position ∧
      (recorderKeepCursor env r).2.currentEntryPending = r.currentEntryPending ∧
      (recorderKeepCursor env r).2.history.accepted = r.history.accepted ∧
      ∀ c, (recorderKeepCursor env r).2.pendingCursor = some c →
        r.pendingCursor = some c ∨ c = r.position := by
  unfold recorderKeepCursor
  split
  · split
    · exact ⟨rfl, rfl, rfl, fun c hc => .inl hc⟩
    · exact ⟨rfl, rfl, rfl, fun c hc => .inr (Option.some.inj hc).symm⟩
  · exact ⟨rfl, rfl, rfl, fun c hc => .inl hc⟩

theorem received_reading (r : RecorderState) (e : LogEntry) :
    SameReading r (received r e).1 := by
  unfold received
  generalize extractBoot r.boots e = res
  obtain ⟨boots, e1⟩ := res
  have h := (assignMonotonicTieOrder_keeps { r with boots := boots } e1).2.2.2
  exact ⟨h.accepted, h.cursors, h.position, h.pending, h.pendingCursor⟩

/-- A turn with an entry whose fields can be extracted. -/
theorem recorderTurn_eq {s : RecorderState} {e : LogEntry}
    (he : journal[(atNextEntry s).position - 1]? = some e)
    (hextract : (env.io s.tick .extract).errno = none) :
    recorderTurn env config journal s = recorderStoreEntry env config
      { (received (atNextEntry s) e).1 with tick := s.tick + 1 }
      (received (atNextEntry s) e).2 := by
  have htick := RecorderRule.assignMonotonicTieOrder_tick
    { atNextEntry s with boots := (extractBoot s.boots e).1 } (s.tick + 1)
    (extractBoot s.boots e).2
  simp only [atNextEntry] at htick he
  unfold recorderTurn recorderReceiveEntry
  simp only [he, hextract, htick]
  rfl

/-- **Every turn ends in one of four ways**, unless the extraction or a modifier fails. -/
theorem recorderTurn_outcome {s : RecorderState} (h : ¬ TurnFails env config journal s) :
    TurnOutcome env config journal s (recorderTurn env config journal s).2 := by
  cases he : journal[(atNextEntry s).position - 1]? with
  | none =>
    simp only [atNextEntry] at he
    refine .ended ?_
    unfold recorderTurn
    simp only [he]
  | some e =>
    have hextract : (env.io s.tick .extract).errno = none := by
      by_contra hne
      exact h ⟨e, he, .inl hne⟩
    rw [recorderTurn_eq env config journal he hextract]
    have hread : SameReading (atNextEntry s)
        { (received (atNextEntry s) e).1 with tick := s.tick + 1 } := by
      have hreceived := received_reading (atNextEntry s) e
      exact ⟨hreceived.accepted, hreceived.cursors, hreceived.position, hreceived.pending,
        hreceived.pendingCursor⟩
    unfold recorderStoreEntry
    split
    · next herror => exact absurd ⟨e, he, .inr herror⟩ h
    · next hdrop =>
      obtain ⟨hposition, hpending, haccepted, hcursor⟩ := keepCursor_reading env
        { (received (atNextEntry s) e).1 with tick := s.tick + 1 + 1 }
      refine .dropped ⟨e, he, hextract, hdrop⟩ (hposition.trans hread.position)
        (hpending.trans hread.pending) (haccepted.trans hread.accepted) fun c hc => ?_
      rcases hcursor c hc with hc | rfl
      · exact .inl (hread.pendingCursor ▸ hc)
      · exact .inr hposition.symm
    · next e' hkeep =>
      have hsubmit := submitEntryWithRecovery_reading env config
        { (received (atNextEntry s) e).1 with tick := s.tick + 1 + 1 } e'
      have hstored := hread.trans ⟨hsubmit.accepted, hsubmit.cursors, hsubmit.position,
        hsubmit.pending, hsubmit.pendingCursor⟩
      split
      · next err r1 hres =>
        rw [hres] at hstored
        exact .pending hstored.position rfl hstored.accepted fun c hc =>
          hstored.pendingCursor ▸ hc
      · next r1 hres =>
        rw [hres] at hstored
        obtain ⟨hposition, hpending, haccepted, hcursor⟩ := keepCursor_reading env
          { r1 with history := { r1.history with
            accepted := r1.history.accepted ++ [(r1.position, e')] } }
        refine .stored e' (hposition.trans hstored.position) (hpending.trans hstored.pending)
          ?_ fun c hc => ?_
        · rw [haccepted, hposition]
          exact congrArg (· ++ [(r1.position, e')]) hstored.accepted
        · rcases hcursor c hc with hc | rfl
          · exact .inl (hstored.pendingCursor ▸ hc)
          · exact .inr hposition.symm

end Turn

/-! ## Runs -/

section Runs

variable (env : RecorderEnv) (config : RecorderConfig) (journal : List LogEntry)

/-- The states in which the turns of a step begin. -/
def turnStates : ℕ → RecorderState → List RecorderState
  | 0, _ => []
  | n + 1, r =>
    r :: match recorderTurn env config journal r with
      | (false, _) => []
      | (true, r) => turnStates n r

/-- The states in which the turns of a run begin. -/
def runTurns : List RecorderCall → RecorderState → List RecorderState
  | [], _ => []
  | .step :: calls, r => turnStates env config journal chunkSize r ++
      runTurns calls (recorderCall env config journal r .step)
  | call :: calls, r => runTurns calls (recorderCall env config journal r call)

/-- The journal entry at a position was submitted, or the modifiers dropped it in one of the
turns. -/
def Handled (turns : List RecorderState) (r : RecorderState) (p : ℕ) : Prop :=
  (∃ e, (p, e) ∈ r.history.accepted) ∨
    ∃ s ∈ turns, TurnDrops env config journal s ∧ (atNextEntry s).position = p

/-- No entry from the position `first` on was skipped: each one the journal has come to was
handled or is current, and then the next step processes it again; each one up to the cursor was
handled. -/
structure NothingSkipped (first : ℕ) (turns : List RecorderState) (r : RecorderState) : Prop where
  position : ∀ p, first ≤ p → p ≤ r.position →
    Handled env config journal turns r p ∨
      r.currentEntryPending = true ∧ (atNextEntry r).position = p
  cursor : ∀ c, r.pendingCursor = some c → ∀ p, first ≤ p → p ≤ c →
    Handled env config journal turns r p

/-- The invariant of a run: what lies in front of the next entry was handled, and no cursor is
at or behind it. -/
structure ReadInOrder (first : ℕ) (turns : List RecorderState) (r : RecorderState) : Prop where
  handled : ∀ p, first ≤ p → p < nextPosition r → Handled env config journal turns r p
  cursor : ∀ c, r.pendingCursor = some c → c < nextPosition r

variable {env config journal} {first : ℕ} {turns : List RecorderState} {r r' s : RecorderState}

theorem Handled.mono {p : ℕ} (h : Handled env config journal turns r p)
    {turns' : List RecorderState} (hturns : ∀ s ∈ turns, s ∈ turns')
    (haccepted : ∀ a ∈ r.history.accepted, a ∈ r'.history.accepted) :
    Handled env config journal turns' r' p := by
  rcases h with ⟨e, he⟩ | ⟨s, hs, hdrops⟩
  · exact .inl ⟨e, haccepted _ he⟩
  · exact .inr ⟨s, hturns s hs, hdrops⟩

theorem ReadInOrder.nothingSkipped (h : ReadInOrder env config journal first turns r) :
    NothingSkipped env config journal first turns r where
  position := by
    intro p hfirst hp
    rcases Nat.lt_or_ge p (nextPosition r) with hlt | hge
    · exact .inl (h.handled p hfirst hlt)
    · right
      unfold nextPosition at hge
      unfold atNextEntry
      cases hpending : r.currentEntryPending with
      | true =>
        simp only [hpending, if_true] at hge ⊢
        exact ⟨trivial, Nat.le_antisymm hge hp⟩
      | false =>
        simp only [hpending, Bool.false_eq_true, if_false] at hge
        omega
  cursor := by
    intro c hc p hfirst hp
    exact h.handled p hfirst (Nat.lt_of_le_of_lt hp (h.cursor c hc))

theorem ReadInOrder.samePlace (h : ReadInOrder env config journal first turns r)
    (hplace : SamePlace r r') : ReadInOrder env config journal first turns r' := by
  have hnext : nextPosition r' = nextPosition r := by
    unfold nextPosition
    rw [hplace.pending, hplace.position]
  refine ⟨fun p hfirst hp => ?_, fun c hc => ?_⟩
  · rw [hnext] at hp
    refine (h.handled p hfirst hp).mono (fun _ hs => hs) fun a ha => ?_
    rw [hplace.accepted]
    exact ha
  · rw [hnext]
    exact h.cursor c (hplace.cursor c hc)

/-- One entry further on. -/
theorem ReadInOrder.next (h : ReadInOrder env config journal first turns s)
    (hposition : r'.position = nextPosition s) (hpending : r'.currentEntryPending = false)
    (haccepted : ∀ a ∈ s.history.accepted, a ∈ r'.history.accepted)
    (hcursor : ∀ c, r'.pendingCursor = some c → s.pendingCursor = some c ∨ c = r'.position)
    (hhandled : Handled env config journal (turns ++ [s]) r' (nextPosition s)) :
    ReadInOrder env config journal first (turns ++ [s]) r' := by
  have hnext : nextPosition r' = nextPosition s + 1 := by
    unfold nextPosition
    rw [hpending, if_neg (by simp), hposition, nextPosition]
  refine ⟨fun p hfirst hp => ?_, fun c hc => ?_⟩
  · rcases Nat.lt_or_ge p (nextPosition s) with hlt | hge
    · exact (h.handled p hfirst hlt).mono (fun _ hs => List.mem_append_left _ hs) haccepted
    · obtain rfl : p = nextPosition s := by omega
      exact hhandled
  · rcases hcursor c hc with hold | rfl
    · have hlt := h.cursor c hold
      omega
    · omega

/-- The turn handles the entry it makes current or leaves it current. -/
theorem ReadInOrder.turn (h : ReadInOrder env config journal first turns s)
    (hturn : ¬ TurnFails env config journal s) :
    ReadInOrder env config journal first (turns ++ [s])
      (recorderTurn env config journal s).2 := by
  have hmem : ∀ s' ∈ turns, s' ∈ turns ++ [s] := fun _ hs => List.mem_append_left _ hs
  rcases recorderTurn_outcome env config journal hturn with hended |
    ⟨hdrops, hposition, hpending, haccepted, hcursor⟩ |
    ⟨e, hposition, hpending, haccepted, hcursor⟩ | ⟨hposition, hpending, haccepted, hcursor⟩
  · rw [hended]
    exact ⟨fun p hfirst hp => (h.handled p hfirst hp).mono hmem fun _ ha => ha, h.cursor⟩
  · refine h.next hposition hpending (fun a ha => haccepted ▸ ha) hcursor
      (.inr ⟨s, ?_, hdrops, rfl⟩)
    exact List.mem_append_right _ (List.mem_singleton_self s)
  · refine h.next hposition hpending (fun a ha => ?_) hcursor (.inl ⟨e, ?_⟩)
    · rw [haccepted]
      exact List.mem_append_left _ ha
    · rw [haccepted, hposition]
      exact List.mem_append_right _ (List.mem_singleton_self _)
  · have hnext : nextPosition (recorderTurn env config journal s).2 = nextPosition s := by
      rw [nextPosition, hpending, if_pos rfl, hposition]
      rfl
    refine ⟨fun p hfirst hp => ?_, fun c hc => ?_⟩
    · rw [hnext] at hp
      exact (h.handled p hfirst hp).mono hmem fun a ha => haccepted ▸ ha
    · rw [hnext]
      exact h.cursor c (hcursor c hc)

theorem ReadInOrder.stepLoop (n : ℕ) (h : ReadInOrder env config journal first turns s)
    (hturns : ∀ t ∈ turnStates env config journal n s, ¬ TurnFails env config journal t) :
    ReadInOrder env config journal first (turns ++ turnStates env config journal n s)
      (recorderStepLoop env config journal n s).2 := by
  induction n generalizing turns s with
  | zero => simpa [turnStates, recorderStepLoop] using h
  | succ n ih =>
    have hturn := h.turn (hturns s List.mem_cons_self)
    unfold turnStates at hturns ⊢
    unfold recorderStepLoop
    generalize recorderTurn env config journal s = res at hturn hturns ⊢
    obtain ⟨more, s1⟩ := res
    cases more with
    | false => exact hturn
    | true =>
      have hrest := ih hturn fun t ht => hturns t (List.mem_cons_of_mem s ht)
      rwa [List.append_assoc, List.singleton_append] at hrest

theorem recorderCall_place (r : RecorderState) {call : RecorderCall} (h : call ≠ .step) :
    SamePlace r (recorderCall env config journal r call) := by
  cases call with
  | clockJump usec => exact ⟨rfl, rfl, rfl, fun _ hc => hc⟩
  | step => exact absurd rfl h
  | flushAll => exact flushAll_place env config true r
  | shutdown => exact shutdown_place env config r

theorem ReadInOrder.run (calls : List RecorderCall)
    (h : ReadInOrder env config journal first turns r)
    (hturns : ∀ t ∈ runTurns env config journal calls r, ¬ TurnFails env config journal t) :
    ReadInOrder env config journal first (turns ++ runTurns env config journal calls r)
      (recorderRun env config journal calls r) := by
  induction calls generalizing turns r with
  | nil => simpa [runTurns, recorderRun] using h
  | cons call calls ih =>
    cases call with
    | step =>
      unfold runTurns at hturns ⊢
      rw [← List.append_assoc]
      exact ih (h.stepLoop chunkSize fun t ht => hturns t (List.mem_append_left _ ht))
        fun t ht => hturns t (List.mem_append_right _ ht)
    | clockJump usec => exact ih (h.samePlace (recorderCall_place r (by simp))) hturns
    | flushAll => exact ih (h.samePlace (recorderCall_place r (by simp))) hturns
    | shutdown => exact ih (h.samePlace (recorderCall_place r (by simp))) hturns

theorem runTurns_append (before after : List RecorderCall) (r : RecorderState) :
    runTurns env config journal (before ++ after) r = runTurns env config journal before r ++
      runTurns env config journal after (recorderRun env config journal before r) := by
  induction before generalizing r with
  | nil => rfl
  | cons call before ih =>
    cases call with
    | step =>
      simp only [List.cons_append, runTurns, ih, List.append_assoc]
      rfl
    | clockJump usec => exact ih _
    | flushAll => exact ih _
    | shutdown => exact ih _

end Runs

/-- A recorder whose modifiers drop every entry. -/
def droppingEnv (io : ℕ → IoOp → IoOutcome) : RecorderEnv :=
  { plainEnv io with applyModifierList := fun _ _ _ => .drop }

theorem droppingEnv_drops (io : ℕ → IoOp → IoOutcome) (t : ℕ) (e : LogEntry) :
    applyEntryModifiers (droppingEnv io) oneGroup t e = .drop := rfl

/-- The fields of the first entry cannot be extracted. -/
def extractFails (t : ℕ) (op : IoOp) : IoOutcome :=
  if t = 0 ∧ op = .extract then .fail 0 .eio else .ok

end Recorder.Analysis
