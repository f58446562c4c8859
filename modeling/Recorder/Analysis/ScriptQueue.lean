import Recorder.Lib.Except
import Recorder.Model.ScriptWorker

/-!
# The script queue is a bounded queue that loses nothing

**Main result** (`script_queue_is_bounded_fifo`): in every run of a worker the list from `head`
has `queued` nodes, at most `capacity`, and ends at `tail`; jobs are taken in the order in which
they were accepted; and when all threads are gone, every accepted job has been taken, each by
one thread.

`QueueInv` is the invariant: what the list holds is what has been accepted and not been taken,
and the jobs in the list, those of calls that are not through, and those being run are different
nodes. It also says that no thread sleeps through a job, from which `worker_can_step` follows:
as long as a job is queued, or the threads are to stop, some thread can go on. A job is a copy
of what was submitted (`jobCopy_eq_ok`).
-/

set_option autoImplicit false

namespace Recorder.Analysis

open Recorder.Lib Recorder.Model

/-! ## Copies -/

/-- Two steps that allocate succeed one after the other. -/
theorem alloc_bind_eq_ok_iff {α β : Type} {x : AllocM α} {f : α → AllocM β} {s : List Bool}
    {r : β × List Bool} :
    (x >>= f).run s = .ok r ↔ ∃ a s', x.run s = .ok (a, s') ∧ (f a).run s' = .ok r := by
  rw [StateT.run_bind, bind_eq_ok_iff]
  constructor
  · rintro ⟨⟨a, s'⟩, hx, hf⟩
    exact ⟨a, s', hx, hf⟩
  · rintro ⟨a, s', hx, hf⟩
    exact ⟨(a, s'), hx, hf⟩

/-- A copied string is the string, and within its bound.
SOURCE: script_worker.c:61-68 -/
theorem scriptCopyString_eq_ok {s : Option Bytes} {max : ℕ} {outcomes rest : List Bool}
    {copy : Bytes} (h : (scriptCopyString s max).run outcomes = .ok (copy, rest)) :
    s = some copy ∧ copy.length ≤ max := by
  unfold scriptCopyString at h
  split at h
  · cases h
  · split at h
    · cases h
    · rename_i hlen
      rw [alloc_bind_eq_ok_iff] at h
      obtain ⟨_, _, -, h⟩ := h
      cases h
      exact ⟨rfl, Nat.le_of_not_lt hlen⟩

/-- All strings of a list are there, and copied. -/
theorem copyStrings_eq_ok {max : ℕ} {strings : List (Option Bytes)} {outcomes rest : List Bool}
    {copies : List Bytes} (h : (copyStrings max strings).run outcomes = .ok (copies, rest)) :
    strings = copies.map some ∧ ∀ copy ∈ copies, copy.length ≤ max := by
  induction strings generalizing outcomes copies with
  | nil =>
    cases h
    exact ⟨rfl, fun copy hcopy => absurd hcopy List.not_mem_nil⟩
  | cons s strings ih =>
    unfold copyStrings at h
    rw [alloc_bind_eq_ok_iff] at h
    obtain ⟨copy, _, hs, h⟩ := h
    rw [alloc_bind_eq_ok_iff] at h
    obtain ⟨copies', _, hstrings, h⟩ := h
    cases h
    obtain ⟨rfl, hlen⟩ := scriptCopyString_eq_ok hs
    obtain ⟨rfl, hlens⟩ := ih hstrings
    refine ⟨rfl, fun copy' hcopy => ?_⟩
    cases List.mem_cons.mp hcopy with
    | inl heq => exact heq ▸ hlen
    | inr hmem => exact hlens copy' hmem

/-- All variables are copied, and have the prefix and the bound of their names. -/
theorem copyEnv_eq_ok {env : List (Bytes × Option Bytes)} {outcomes rest : List Bool}
    {copies : List (Bytes × Bytes)} (h : (copyEnv env).run outcomes = .ok (copies, rest)) :
    env = copies.map (fun var => (var.1, some var.2)) ∧
      ∀ var ∈ copies, var.1.take 4 = scriptEnvPrefix ∧ var.1.length ≤ scriptMaxEnvLen ∧
        var.2.length ≤ scriptMaxEnvLen := by
  induction env generalizing outcomes copies with
  | nil =>
    cases h
    exact ⟨rfl, fun var hvar => absurd hvar List.not_mem_nil⟩
  | cons var env ih =>
    obtain ⟨name, value⟩ := var
    unfold copyEnv at h
    split at h
    · cases h
    · rename_i hprefix
      rw [alloc_bind_eq_ok_iff] at h
      obtain ⟨name', _, hname, h⟩ := h
      rw [alloc_bind_eq_ok_iff] at h
      obtain ⟨value', _, hvalue, h⟩ := h
      rw [alloc_bind_eq_ok_iff] at h
      obtain ⟨copies', _, henv, h⟩ := h
      cases h
      obtain ⟨heq, hname⟩ := scriptCopyString_eq_ok hname
      obtain ⟨rfl, hlen⟩ := scriptCopyString_eq_ok hvalue
      obtain ⟨rfl, hvars⟩ := ih henv
      cases heq
      refine ⟨rfl, fun var hvar => ?_⟩
      cases List.mem_cons.mp hvar with
      | inl heq =>
        rw [heq]
        exact ⟨not_not.mp hprefix, hname, hlen⟩
      | inr hmem => exact hvars var hmem

/-- The environment of a job is copied as a whole. -/
theorem copyJobEnv_eq_ok {spec : ScriptJobSpec} {outcomes rest : List Bool}
    {env : List (Bytes × Bytes)} (h : (copyJobEnv spec).run outcomes = .ok (env, rest)) :
    env.length = spec.envCount ∧
      (∀ names values, spec.envNames = some names → spec.envValues = some values →
        names.zip values = env.map fun var => (var.1, some var.2)) ∧
      ∀ var ∈ env, var.1.take 4 = scriptEnvPrefix := by
  unfold copyJobEnv at h
  split at h
  · rename_i hcount
    cases h
    refine ⟨hcount.symm, fun names values hnames _ => ?_, fun var hvar =>
      absurd hvar List.not_mem_nil⟩
    have hnil : names = [] :=
      List.eq_nil_of_length_eq_zero ((spec.names_length names hnames).trans hcount)
    rw [hnil]
    rfl
  · rw [alloc_bind_eq_ok_iff] at h
    obtain ⟨_, _, -, h⟩ := h
    rw [alloc_bind_eq_ok_iff] at h
    obtain ⟨_, _, -, h⟩ := h
    split at h
    · rename_i names values hnames hvalues
      obtain ⟨hzip, hvars⟩ := copyEnv_eq_ok h
      refine ⟨?_, fun names' values' hnames' hvalues' => ?_, fun var hvar => (hvars var hvar).1⟩
      · have hlen := congrArg List.length hzip
        rw [List.length_zip, List.length_map, spec.names_length names hnames,
          spec.values_length values hvalues, Nat.min_self] at hlen
        exact hlen.symm
      · rw [Option.some.inj (hnames'.symm.trans hnames),
          Option.some.inj (hvalues'.symm.trans hvalues)]
        exact hzip
    · cases h

/-- A job that holds what its specification asks for, within the bounds on its parts. -/
structure IsCopy (spec : ScriptJobSpec) (job : ScriptJob) : Prop where
  argv : spec.argv = some (job.argv.map some)
  json : spec.jsonPayload = some job.json
  env_length : job.env.length = spec.envCount
  env : ∀ names values, spec.envNames = some names → spec.envValues = some values →
    names.zip values = job.env.map fun var => (var.1, some var.2)
  argc_pos : 0 < job.argv.length
  argc_le : job.argv.length ≤ scriptMaxArgc
  arg_le : ∀ arg ∈ job.argv, arg.length ≤ scriptMaxArgLen
  json_le : job.json.length ≤ scriptMaxJson
  env_le : job.env.length ≤ scriptMaxEnv
  env_prefix : ∀ var ∈ job.env, var.1.take 4 = scriptEnvPrefix
  timeout : job.timeoutSec = if spec.timeoutSec = 0 then scriptDefaultTimeout else spec.timeoutSec

/-- **A job is a copy** of its specification. -/
theorem jobCopy_eq_ok {spec : ScriptJobSpec} {outcomes rest : List Bool} {job : ScriptJob}
    (h : (jobCopy (some spec)).run outcomes = .ok (job, rest)) : IsCopy spec job := by
  simp only [jobCopy] at h
  split at h
  · cases h
  · rename_i argv hargv
    split at h
    · cases h
    · rename_i hbounds
      have hargc : 0 < argv.length := by omega
      have hargcMax : argv.length ≤ scriptMaxArgc := by omega
      have henvMax : spec.envCount ≤ scriptMaxEnv := by omega
      rw [alloc_bind_eq_ok_iff] at h
      obtain ⟨_, _, -, h⟩ := h
      rw [alloc_bind_eq_ok_iff] at h
      obtain ⟨_, _, -, h⟩ := h
      rw [alloc_bind_eq_ok_iff] at h
      obtain ⟨args, _, hargs, h⟩ := h
      rw [alloc_bind_eq_ok_iff] at h
      obtain ⟨json, _, hjson, h⟩ := h
      rw [alloc_bind_eq_ok_iff] at h
      obtain ⟨env, _, henv, h⟩ := h
      cases h
      obtain ⟨rfl, hargLen⟩ := copyStrings_eq_ok hargs
      obtain ⟨hpayload, hjsonLen⟩ := scriptCopyString_eq_ok hjson
      obtain ⟨henvLength, hzip, hprefix⟩ := copyJobEnv_eq_ok henv
      rw [List.length_map] at hargc hargcMax
      exact {
        argv := hargv
        json := hpayload
        env_length := henvLength
        env := hzip
        argc_pos := hargc
        argc_le := hargcMax
        arg_le := hargLen
        json_le := hjsonLen
        env_le := henvLength ▸ henvMax
        env_prefix := hprefix
        timeout := rfl }

/-! ## What has been seen of a run -/

/-- The jobs accepted in two parts of a run. -/
@[simp]
theorem acceptedJobs_append (events events' : List ScriptEvent) :
    acceptedJobs (events ++ events') = acceptedJobs events ++ acceptedJobs events' :=
  List.filterMap_append

/-- The jobs taken in two parts of a run. -/
@[simp]
theorem dequeuedJobs_append (events events' : List ScriptEvent) :
    dequeuedJobs (events ++ events') = dequeuedJobs events ++ dequeuedJobs events' :=
  List.filterMap_append

/-- A submission that returns 0 accepts its job. -/
@[simp]
theorem acceptedJobs_accepted (job : ScriptJob) : acceptedJobs [.submitted (.ok job)] = [job] := rfl

/-- A submission that fails accepts nothing. -/
@[simp]
theorem acceptedJobs_rejected (rc : Errno) : acceptedJobs [.submitted (.error rc)] = [] := rfl

/-- A thread that takes a job accepts nothing. -/
@[simp]
theorem acceptedJobs_dequeued (i : ℕ) (job : ScriptJob) : acceptedJobs [.dequeued i job] = [] := rfl

/-- An internal step accepts nothing. -/
@[simp]
theorem acceptedJobs_internal : acceptedJobs [.internal] = [] := rfl

/-- A submission takes nothing from the queue. -/
@[simp]
theorem dequeuedJobs_submitted (result : Except Errno ScriptJob) :
    dequeuedJobs [.submitted result] = [] := rfl

/-- A thread takes one job. -/
@[simp]
theorem dequeuedJobs_dequeued (i : ℕ) (job : ScriptJob) :
    dequeuedJobs [.dequeued i job] = [(i, job)] := rfl

/-- An internal step takes nothing from the queue. -/
@[simp]
theorem dequeuedJobs_internal : dequeuedJobs [.internal] = [] := rfl

/-! ## Waking threads -/

/-- Some of the threads that waited are ready. -/
def Woken (threads threads' : List WorkerThread) : Prop :=
  ∀ i : ℕ, threads'[i]? = threads[i]? ∨
    threads[i]? = some .waiting ∧ threads'[i]? = some .ready

/-- Only threads that waited are woken. -/
theorem woken_wakeThreads (threads : List WorkerThread) (woken : List ℕ) :
    Woken threads (wakeThreads threads woken) := by
  intro i
  rw [wakeThreads, List.getElem?_mapIdx]
  cases threads[i]? with
  | none => exact .inl rfl
  | some t =>
    by_cases hw : t = .waiting ∧ i ∈ woken
    · right
      rw [hw.1]
      exact ⟨rfl, by simp [hw.2]⟩
    · left
      simp [hw]

/-- A broadcast wakes only threads that waited. -/
theorem woken_broadcast (threads : List WorkerThread) : Woken threads (broadcast threads) := by
  intro i
  rw [broadcast, List.getElem?_map]
  cases threads[i]? with
  | none => exact .inl rfl
  | some t => cases t <;> simp

/-- A thread that is not ready was not woken. -/
theorem Woken.eq_of_ne {threads threads' : List WorkerThread} (hw : Woken threads threads') {i : ℕ}
    {t : WorkerThread} (ht : threads'[i]? = some t) (hne : t ≠ .ready) : threads[i]? = some t := by
  cases hw i with
  | inl heq => exact heq ▸ ht
  | inr hwoken =>
    rw [hwoken.2] at ht
    exact absurd (Option.some.inj ht).symm hne

/-- A thread that has work to do, or may look for some. -/
def Awake (t : WorkerThread) : Prop := t = .ready ∨ ∃ j, t = .running j

/-- A thread that is awake stays so while others are woken. -/
theorem Woken.awake {threads threads' : List WorkerThread} (hw : Woken threads threads') {i : ℕ}
    {t : WorkerThread} (ht : threads[i]? = some t) (hawake : Awake t) :
    ∃ t', threads'[i]? = some t' ∧ Awake t' := by
  cases hw i with
  | inl heq => exact ⟨t, heq.trans ht, hawake⟩
  | inr hwoken => exact ⟨.ready, hwoken.2, .inl rfl⟩

/-- Threads are woken, not made. -/
theorem Woken.length_pos {threads threads' : List WorkerThread} (hw : Woken threads threads')
    (hpos : threads ≠ []) : threads' ≠ [] := by
  intro hnil
  cases threads with
  | nil => exact hpos rfl
  | cons t threads =>
    cases hw 0 with
    | inl heq =>
      rw [hnil] at heq
      cases heq
    | inr hwoken =>
      rw [hnil] at hwoken
      cases hwoken.2

/-- One thread has moved. -/
theorem getElem?_set_cases {threads : List WorkerThread} {i k : ℕ} {t u : WorkerThread}
    (h : (threads.set i t)[k]? = some u) : k = i ∧ u = t ∨ k ≠ i ∧ threads[k]? = some u := by
  rw [List.getElem?_set] at h
  by_cases hik : i = k
  · rw [if_pos hik] at h
    split at h
    · exact .inl ⟨hik.symm, (Option.some.inj h).symm⟩
    · cases h
  · rw [if_neg hik] at h
    exact .inr ⟨fun heq => hik heq.symm, h⟩

/-- The thread that has moved. -/
theorem getElem?_set_self {threads : List WorkerThread} {i : ℕ} {t : WorkerThread}
    (hi : threads[i]? = some t) (u : WorkerThread) : (threads.set i u)[i]? = some u := by
  obtain ⟨hlt, -⟩ := List.getElem?_eq_some_iff.mp hi
  rw [List.getElem?_set_self hlt]

/-- A thread that moves is still there. -/
theorem set_ne_nil {threads : List WorkerThread} (h : threads ≠ []) (i : ℕ) (t : WorkerThread) :
    threads.set i t ≠ [] := by
  cases threads with
  | nil => exact absurd rfl h
  | cons u threads => cases i <;> exact List.cons_ne_nil _ _

/-! ## The invariant -/

/-- The list consists of `items`, which are what `accepted` has more than `taken`. -/
structure QueueInv (w : ScriptWorker) (accepted : List ScriptJob) (taken : List (ℕ × ScriptJob))
    (items : List (ℕ × ScriptJob)) : Prop where
  queue : IsQueue w.heap w.head w.tail items
  queued_eq : w.queued = items.length
  bounded : w.queued ≤ w.capacity
  fifo : accepted = taken.map Prod.snd ++ items.map Prod.snd
  nodup : w.submitting.Nodup
  copied : ∀ j ∈ w.submitting,
    (∃ job, w.heap j = some ⟨job, none⟩) ∧ ∀ item ∈ items, item.1 ≠ j
  held : ∀ {i j : ℕ}, w.threads[i]? = some (.running j) →
    (w.heap j).isSome ∧ j ∉ w.submitting ∧ ∀ item ∈ items, item.1 ≠ j
  alone : ∀ {i k j : ℕ}, w.threads[i]? = some (.running j) →
    w.threads[k]? = some (.running j) → i = k
  populated : w.threads ≠ []
  drained : ∀ {i : ℕ}, w.threads[i]? = some .exited → w.stopping ∧ items = []
  attended : items ≠ [] → ∃ (i : ℕ) (t : WorkerThread), w.threads[i]? = some t ∧ Awake t
  stopped : w.stopping → ∀ i : ℕ, w.threads[i]? ≠ some .waiting

namespace QueueInv

variable {w w' : ScriptWorker} {accepted : List ScriptJob} {taken : List (ℕ × ScriptJob)}
  {items : List (ℕ × ScriptJob)}

/-- Threads that are woken disturb nothing. -/
theorem wake (h : QueueInv w accepted taken items) {threads : List WorkerThread}
    (hw : Woken w.threads threads) : QueueInv { w with threads } accepted taken items where
  queue := h.queue
  queued_eq := h.queued_eq
  bounded := h.bounded
  fifo := h.fifo
  nodup := h.nodup
  copied := h.copied
  held := fun hi => h.held (hw.eq_of_ne hi fun heq => nomatch heq)
  alone := fun hi hk => h.alone (hw.eq_of_ne hi fun heq => nomatch heq)
    (hw.eq_of_ne hk fun heq => nomatch heq)
  populated := hw.length_pos h.populated
  drained := fun hi => h.drained (hw.eq_of_ne hi fun heq => nomatch heq)
  attended := fun hne =>
    let ⟨i, _, ht, hawake⟩ := h.attended hne
    let ⟨t', ht', hawake'⟩ := hw.awake ht hawake
    ⟨i, t', ht', hawake'⟩
  stopped := fun hs i hi => h.stopped hs i (hw.eq_of_ne hi fun heq => nomatch heq)

/-- A node which the invariant speaks of is not `none`. -/
theorem ne_of_free (h : QueueInv w accepted taken items) {j : ℕ} (hfree : w.heap j = none) :
    ∀ item ∈ items, item.1 ≠ j := by
  intro item hitem heq
  obtain ⟨next, hnode⟩ := h.queue.seg.live item hitem
  rw [heq, hfree] at hnode
  cases hnode

/-- **A submission copies its job** into a node nobody else has. -/
theorem submitCopy (h : QueueInv w accepted taken items) {spec : Option ScriptJobSpec}
    {outcomes : List Bool} {j : ℕ} {event : ScriptEvent}
    (hstep : Model.submitCopy w spec outcomes j = some (w', event)) :
    acceptedJobs [event] = [] ∧ dequeuedJobs [event] = [] ∧
      QueueInv w' accepted taken items := by
  unfold Model.submitCopy at hstep
  split at hstep
  · cases hstep
    exact ⟨rfl, rfl, h⟩
  · split at hstep
    · cases hstep
    · rename_i job _ _ hsome
      cases hstep
      have hfree : w.heap j = none := by simpa using hsome
      have hother : ∀ k, (w.heap k).isSome → k ≠ j := by
        rintro k hk rfl
        rw [hfree] at hk
        cases hk
      refine ⟨rfl, rfl, ?_⟩
      exact {
        queue := h.queue.congr fun item hitem =>
          NodeHeap.alloc_of_ne w.heap job (h.ne_of_free hfree item hitem)
        queued_eq := h.queued_eq
        bounded := h.bounded
        fifo := h.fifo
        nodup := by
          refine List.nodup_cons.mpr ⟨fun hj => ?_, h.nodup⟩
          obtain ⟨⟨_, hnode⟩, -⟩ := h.copied j hj
          rw [hfree] at hnode
          cases hnode
        copied := by
          intro k hk
          cases List.mem_cons.mp hk with
          | inl heq =>
            rw [heq]
            exact ⟨⟨job, NodeHeap.alloc_same w.heap j job⟩, h.ne_of_free hfree⟩
          | inr hk =>
            obtain ⟨⟨job', hnode⟩, hne⟩ := h.copied k hk
            have hkj : k ≠ j := hother k (by rw [hnode]; rfl)
            exact ⟨⟨job', (NodeHeap.alloc_of_ne w.heap job hkj).trans hnode⟩, hne⟩
        held := by
          intro i k hi
          obtain ⟨hlive, hk, hne⟩ := h.held hi
          have hkj : k ≠ j := hother k hlive
          refine ⟨?_, ?_, hne⟩
          · show (w.heap.alloc j job k).isSome
            rw [NodeHeap.alloc_of_ne w.heap job hkj]
            exact hlive
          · intro hmem
            cases List.mem_cons.mp hmem with
            | inl heq => exact hkj heq
            | inr hmem => exact hk hmem
        alone := h.alone
        populated := h.populated
        drained := h.drained
        attended := h.attended
        stopped := h.stopped }

/-- A call that finds the queue full, or closed, gives its copy back. -/
theorem submit_refused (h : QueueInv w accepted taken items) {j : ℕ} (hj : j ∈ w.submitting) :
    QueueInv { w with heap := w.heap.free j, submitting := w.submitting.erase j } accepted taken
      items where
  queue := h.queue.congr fun item hitem =>
    NodeHeap.free_of_ne w.heap ((h.copied j hj).2 item hitem)
  queued_eq := h.queued_eq
  bounded := h.bounded
  fifo := h.fifo
  nodup := h.nodup.erase j
  copied := by
    intro k hk
    have hk := (h.nodup.mem_erase_iff).mp hk
    obtain ⟨⟨job, hnode⟩, hne⟩ := h.copied k hk.2
    exact ⟨⟨job, (NodeHeap.free_of_ne w.heap hk.1).trans hnode⟩, hne⟩
  held := by
    intro i k hi
    obtain ⟨hlive, hk, hne⟩ := h.held hi
    have hkj : k ≠ j := fun heq => hk (heq ▸ hj)
    refine ⟨?_, fun hmem => hk (List.mem_of_mem_erase hmem), hne⟩
    show (w.heap.free j k).isSome
    rw [NodeHeap.free_of_ne w.heap hkj]
    exact hlive
  alone := h.alone
  populated := h.populated
  drained := h.drained
  attended := h.attended
  stopped := h.stopped

/-- **A job is linked at the tail.** -/
theorem submit_accepted (h : QueueInv w accepted taken items) {j : ℕ} {node : Node ScriptJob}
    {woken : List ℕ} (hj : j ∈ w.submitting) (hnode : w.heap j = some node)
    (hopen : ¬ (w.stopping ∨ w.queued ≥ w.capacity)) (hsignal : signalWakes w.threads woken) :
    QueueInv { w with
      heap := match w.tail with | some t => w.heap.setNext t (some j) | none => w.heap
      head := match w.tail with | some _ => w.head | none => some j
      tail := some j
      queued := w.queued + 1
      threads := wakeThreads w.threads woken
      submitting := w.submitting.erase j } (accepted ++ [node.value]) taken
      (items ++ [(j, node.value)]) := by
  obtain ⟨⟨job, hcopy⟩, hnew⟩ := h.copied j hj
  have hvalue : node = ⟨node.value, none⟩ := by
    rw [hnode] at hcopy
    cases hcopy
    rfl
  rw [hvalue] at hnode
  -- only the link of the last node changes, and it is in the queue
  have hframe : ∀ k, (∀ item ∈ items, item.1 ≠ k) →
      (match w.tail with | some t => w.heap.setNext t (some j) | none => w.heap) k = w.heap k := by
    intro k hk
    cases htail : w.tail with
    | none => rfl
    | some t =>
      have hlast : some t = items.getLast?.map Prod.fst := htail ▸ h.queue.tail_eq
      obtain ⟨last, hmem, heq⟩ := Option.map_eq_some_iff.mp hlast.symm
      have hkt : k ≠ t := fun hkt => hk last (List.mem_of_getLast? hmem) (heq.trans hkt.symm)
      exact NodeHeap.setNext_of_ne w.heap _ hkt
  have hwoken := woken_wakeThreads w.threads woken
  exact {
    queue := by
      have hpush := h.queue.push hnew hnode
      show IsQueue (match w.tail with | some t => w.heap.setNext t (some j) | none => w.heap)
        (match w.tail with | some _ => w.head | none => some j) (some j) _
      cases htail : w.tail with
      | none =>
        rw [htail] at hpush
        exact hpush
      | some t =>
        rw [htail] at hpush
        exact hpush
    queued_eq := by
      show w.queued + 1 = _
      rw [h.queued_eq, List.length_append, List.length_singleton]
    bounded := by
      show w.queued + 1 ≤ w.capacity
      omega
    fifo := by
      rw [h.fifo, List.map_append, List.append_assoc]
      rfl
    nodup := h.nodup.erase j
    copied := by
      intro k hk
      have hk := (h.nodup.mem_erase_iff).mp hk
      obtain ⟨⟨job', hcopied⟩, hne⟩ := h.copied k hk.2
      refine ⟨⟨job', (hframe k hne).trans hcopied⟩, fun item hitem => ?_⟩
      cases List.mem_append.mp hitem with
      | inl hitem => exact hne item hitem
      | inr hitem =>
        rw [List.mem_singleton.mp hitem]
        exact hk.1.symm
    held := by
      intro i k hi
      obtain ⟨hlive, hk, hne⟩ := h.held (hwoken.eq_of_ne hi fun heq => nomatch heq)
      refine ⟨?_, fun hmem => hk (List.mem_of_mem_erase hmem), fun item hitem => ?_⟩
      · exact (congrArg Option.isSome (hframe k hne)).trans hlive
      · cases List.mem_append.mp hitem with
        | inl hitem => exact hne item hitem
        | inr hitem =>
          rw [List.mem_singleton.mp hitem]
          exact fun heq => hk (heq ▸ hj)
    alone := fun hi hk => h.alone (hwoken.eq_of_ne hi fun heq => nomatch heq)
      (hwoken.eq_of_ne hk fun heq => nomatch heq)
    populated := hwoken.length_pos h.populated
    drained := fun hi => absurd
      (.inl (h.drained (hwoken.eq_of_ne hi fun heq => nomatch heq)).1) hopen
    attended := by
      intro _
      by_cases hwait : .waiting ∈ w.threads
      · obtain ⟨i, hi, hwaiting⟩ := hsignal hwait
        refine ⟨i, .ready, ?_, .inl rfl⟩
        show (wakeThreads w.threads woken)[i]? = some .ready
        rw [wakeThreads, List.getElem?_mapIdx, hwaiting]
        simp [hi]
      · -- nobody waits and nobody has left, so the first thread is about to look or busy
        obtain ⟨t, threads, hthreads⟩ := List.exists_cons_of_ne_nil h.populated
        have ht : w.threads[0]? = some t := by rw [hthreads]; rfl
        have hawake : Awake t := by
          cases t with
          | ready => exact .inl rfl
          | running k => exact .inr ⟨k, rfl⟩
          | waiting => exact absurd (List.mem_of_getElem? ht) hwait
          | exited => exact absurd (.inl (h.drained ht).1) hopen
        obtain ⟨t', ht', hawake'⟩ := hwoken.awake ht hawake
        exact ⟨0, t', ht', hawake'⟩
    stopped := fun hs => absurd (.inl hs) hopen }

/-- **A submission appends its job**, or gives its node back when the queue is full or stopping. -/
theorem submitLocked (h : QueueInv w accepted taken items) {j : ℕ} {woken : List ℕ}
    {event : ScriptEvent} (hstep : Model.submitLocked w j woken = some (w', event)) :
    dequeuedJobs [event] = [] ∧
      ∃ items', QueueInv w' (accepted ++ acceptedJobs [event]) taken items' := by
  unfold Model.submitLocked at hstep
  split at hstep
  · cases hstep
  · rename_i hj
    have hj : j ∈ w.submitting := not_not.mp hj
    split at hstep
    · cases hstep
    · rename_i node hnode
      split at hstep
      · cases hstep
        refine ⟨rfl, items, ?_⟩
        rw [acceptedJobs_rejected, List.append_nil]
        exact h.submit_refused hj
      · rename_i hopen
        split at hstep
        · cases hstep
        · rename_i hsignal
          cases hstep
          exact ⟨rfl, _, h.submit_accepted hj hnode hopen (not_not.mp hsignal)⟩

/-- A thread that finds the queue empty leaves, or waits, as the worker is to stop or not. -/
theorem worker_idle (h : QueueInv w accepted taken items) {i : ℕ} {t : WorkerThread}
    (hhead : w.head = none)
    (ht : w.stopping ∧ t = .exited ∨ ¬ w.stopping ∧ t = .waiting) :
    QueueInv { w with threads := w.threads.set i t } accepted taken items := by
  have hnil : items = [] := h.queue.head_eq_none_iff.mp hhead
  have hidle : ∀ j, t ≠ .running j := by
    rintro j rfl
    cases ht with
    | inl ht => cases ht.2
    | inr ht => cases ht.2
  have hbefore : ∀ {k j : ℕ}, (w.threads.set i t)[k]? = some (.running j) →
      w.threads[k]? = some (.running j) := by
    intro k j hk
    cases getElem?_set_cases hk with
    | inl heq => exact absurd heq.2.symm (hidle j)
    | inr hk => exact hk.2
  exact {
    queue := h.queue
    queued_eq := h.queued_eq
    bounded := h.bounded
    fifo := h.fifo
    nodup := h.nodup
    copied := h.copied
    held := fun hk => h.held (hbefore hk)
    alone := fun hk hl => h.alone (hbefore hk) (hbefore hl)
    populated := set_ne_nil h.populated i t
    drained := by
      intro k hk
      cases getElem?_set_cases hk with
      | inl heq =>
        cases ht with
        | inl ht => exact ⟨ht.1, hnil⟩
        | inr ht => exact absurd (heq.2.trans ht.2) fun heq => nomatch heq
      | inr hk => exact h.drained hk.2
    attended := fun hne => absurd hnil hne
    stopped := by
      intro hs k hk
      cases getElem?_set_cases hk with
      | inl heq =>
        cases ht with
        | inl ht => exact absurd (heq.2.trans ht.2) fun heq => nomatch heq
        | inr ht => exact ht.1 hs
      | inr hk => exact h.stopped hs k hk.2 }

/-- **The job at the head is taken.** -/
theorem worker_dequeue (h : QueueInv w accepted taken items) {i j : ℕ} {node : Node ScriptJob}
    (hi : w.threads[i]? = some .ready) (hhead : w.head = some j) (hnode : w.heap j = some node) :
    ∃ items', QueueInv { w with
      head := node.next
      tail := if node.next.isNone then none else w.tail
      queued := w.queued - 1
      threads := w.threads.set i (.running j) } accepted (taken ++ [(i, node.value)]) items' := by
  have hq := h.queue
  rw [hhead] at hq
  obtain ⟨x, next, rest, hitems, hx, hrest⟩ := hq.pop
  have hnode' : node = ⟨x, next⟩ := Option.some.inj (hnode.symm.trans hx)
  subst hnode'
  have hsub : ∀ item ∈ rest, item ∈ items := fun item hitem =>
    hitems ▸ List.mem_cons_of_mem _ hitem
  have hhd : ((j, x) : ℕ × ScriptJob) ∈ items := hitems ▸ List.mem_cons_self
  have hnodup := h.queue.nodup
  rw [hitems, List.map_cons, List.nodup_cons] at hnodup
  have hjnew : j ∉ w.submitting := fun hj => (h.copied j hj).2 _ hhd rfl
  refine ⟨rest, ?_⟩
  exact {
    queue := hrest
    queued_eq := by
      show w.queued - 1 = rest.length
      rw [h.queued_eq, hitems, List.length_cons, Nat.add_sub_cancel]
    bounded := (Nat.sub_le w.queued 1).trans h.bounded
    fifo := by
      rw [h.fifo, hitems, List.map_append, List.append_assoc]
      rfl
    nodup := h.nodup
    copied := fun k hk =>
      ⟨(h.copied k hk).1, fun item hitem => (h.copied k hk).2 item (hsub item hitem)⟩
    held := by
      intro k l hk
      cases getElem?_set_cases hk with
      | inl heq =>
        have hlj : l = j := WorkerThread.running.inj heq.2
        rw [hlj]
        refine ⟨?_, hjnew, fun item hitem heq => hnodup.1 ?_⟩
        · show (w.heap j).isSome
          rw [hx]
          rfl
        · exact List.mem_map.mpr ⟨item, hitem, heq⟩
      | inr hk =>
        obtain ⟨hlive, hl, hne⟩ := h.held hk.2
        exact ⟨hlive, hl, fun item hitem => hne item (hsub item hitem)⟩
    alone := by
      intro k l m hk hl
      have hnot : ∀ n : ℕ, w.threads[n]? ≠ some (.running j) := fun n hn =>
        (h.held hn).2.2 _ hhd rfl
      cases getElem?_set_cases hk with
      | inl hki =>
        cases getElem?_set_cases hl with
        | inl hli => exact hki.1.trans hli.1.symm
        | inr hl => exact absurd (hki.2 ▸ hl.2) (hnot l)
      | inr hk =>
        cases getElem?_set_cases hl with
        | inl hli => exact absurd (hli.2 ▸ hk.2) (hnot k)
        | inr hl => exact h.alone hk.2 hl.2
    populated := set_ne_nil h.populated i _
    drained := by
      intro k hk
      cases getElem?_set_cases hk with
      | inl heq => exact nomatch heq.2
      | inr hk =>
        have hnil := (h.drained hk.2).2
        rw [hitems] at hnil
        cases hnil
    attended := fun _ => ⟨i, .running j, getElem?_set_self hi _, .inr ⟨j, rfl⟩⟩
    stopped := by
      intro hs k hk
      cases getElem?_set_cases hk with
      | inl heq => exact nomatch heq.2
      | inr hk => exact h.stopped hs k hk.2 }

/-- **A thread looks for a job**: it takes the first one, waits, or exits. -/
theorem workerLocked (h : QueueInv w accepted taken items) {i : ℕ} {event : ScriptEvent}
    (hstep : Model.workerLocked w i = some (w', event)) :
    acceptedJobs [event] = [] ∧
      ∃ items', QueueInv w' accepted (taken ++ dequeuedJobs [event]) items' := by
  unfold Model.workerLocked at hstep
  split at hstep
  · cases hstep
  · rename_i hi
    have hi : w.threads[i]? = some .ready := not_not.mp hi
    split at hstep
    · rename_i hhead
      split at hstep
      · rename_i hs
        cases hstep
        refine ⟨rfl, items, ?_⟩
        rw [dequeuedJobs_internal, List.append_nil]
        exact h.worker_idle hhead (.inl ⟨hs, rfl⟩)
      · rename_i hs
        cases hstep
        refine ⟨rfl, items, ?_⟩
        rw [dequeuedJobs_internal, List.append_nil]
        exact h.worker_idle hhead (.inr ⟨hs, rfl⟩)
    · rename_i j hhead
      split at hstep
      · cases hstep
      · rename_i node hnode
        cases hstep
        exact ⟨rfl, h.worker_dequeue hi hhead hnode⟩

/-- **A thread is through with its job** and frees the node. -/
theorem workerFinish (h : QueueInv w accepted taken items) {i : ℕ} {event : ScriptEvent}
    (hstep : Model.workerFinish w i = some (w', event)) :
    event = .internal ∧ QueueInv w' accepted taken items := by
  unfold Model.workerFinish at hstep
  split at hstep
  · rename_i j hi
    cases hstep
    obtain ⟨-, hj, hne⟩ := h.held hi
    have hother : ∀ {k l : ℕ}, (w.threads.set i .ready)[k]? = some (.running l) →
        w.threads[k]? = some (.running l) ∧ l ≠ j := by
      intro k l hk
      cases getElem?_set_cases hk with
      | inl heq => exact nomatch heq.2
      | inr hk => exact ⟨hk.2, fun hlj => hk.1 (h.alone (hlj ▸ hk.2) hi)⟩
    refine ⟨rfl, ?_⟩
    exact {
      queue := h.queue.congr fun item hitem => NodeHeap.free_of_ne w.heap (hne item hitem)
      queued_eq := h.queued_eq
      bounded := h.bounded
      fifo := h.fifo
      nodup := h.nodup
      copied := by
        intro k hk
        obtain ⟨⟨job, hnode⟩, hne'⟩ := h.copied k hk
        have hkj : k ≠ j := fun heq => hj (heq ▸ hk)
        exact ⟨⟨job, (NodeHeap.free_of_ne w.heap hkj).trans hnode⟩, hne'⟩
      held := by
        intro k l hk
        obtain ⟨hk, hlj⟩ := hother hk
        obtain ⟨hlive, hl, hne'⟩ := h.held hk
        refine ⟨?_, hl, hne'⟩
        show (w.heap.free j l).isSome
        rw [NodeHeap.free_of_ne w.heap hlj]
        exact hlive
      alone := fun hk hl => h.alone (hother hk).1 (hother hl).1
      populated := set_ne_nil h.populated i _
      drained := by
        intro k hk
        cases getElem?_set_cases hk with
        | inl heq => exact nomatch heq.2
        | inr hk => exact h.drained hk.2
      attended := fun _ => ⟨i, .ready, getElem?_set_self hi _, .inl rfl⟩
      stopped := by
        intro hs k hk
        cases getElem?_set_cases hk with
        | inl heq => exact nomatch heq.2
        | inr hk => exact h.stopped hs k hk.2 }
  · cases hstep

/-- **The threads are told to stop**, and none waits any more. -/
theorem destroyLocked (h : QueueInv w accepted taken items) :
    QueueInv { w with stopping := true, threads := broadcast w.threads } accepted taken items := by
  have hwake := h.wake (woken_broadcast w.threads)
  exact { hwake with
    drained := fun hi => ⟨rfl, (hwake.drained hi).2⟩
    stopped := by
      intro _ i hi
      have hi : (broadcast w.threads)[i]? = some .waiting := hi
      rw [broadcast, List.getElem?_map] at hi
      obtain ⟨t, -, ht⟩ := Option.map_eq_some_iff.mp hi
      cases t <;> simp at ht }

/-- When all threads are gone nothing is left in the list. -/
theorem empty_of_exited (h : QueueInv w accepted taken items)
    (hexit : ∀ t ∈ w.threads, t = .exited) : items = [] := by
  obtain ⟨t, threads, hthreads⟩ := List.exists_cons_of_ne_nil h.populated
  have ht : t = .exited := hexit t (hthreads ▸ List.mem_cons_self)
  have h0 : w.threads[0]? = some .exited := by
    rw [hthreads, ht]
    rfl
  exact (h.drained h0).2

/-- **The threads are joined** when all have exited. -/
theorem destroyJoin (h : QueueInv w accepted taken items) {event : ScriptEvent}
    (hstep : Model.destroyJoin w = some (w', event)) :
    event = .internal ∧ QueueInv w' accepted taken items := by
  unfold Model.destroyJoin at hstep
  split at hstep
  · rename_i hjoin
    cases hstep
    have hnil : items = [] := h.empty_of_exited hjoin.2
    have hqueued : w.queued = 0 := by rw [h.queued_eq, hnil, List.length_nil]
    have hheap : freeJobs w.heap w.queued w.head = w.heap := by rw [hqueued, freeJobs]
    refine ⟨rfl, ?_⟩
    rw [hheap]
    exact { h with }
  · cases hstep

/-- **One step** keeps the invariant. -/
theorem step (h : QueueInv w accepted taken items) {action : ScriptAction} {event : ScriptEvent}
    (hstep : w.step action = some (w', event)) :
    ∃ items', QueueInv w' (accepted ++ acceptedJobs [event]) (taken ++ dequeuedJobs [event])
      items' := by
  unfold ScriptWorker.step at hstep
  split at hstep
  · cases hstep
  · cases action with
    | submitCopy spec outcomes j =>
      obtain ⟨ha, hd, hinv⟩ := h.submitCopy hstep
      rw [ha, hd, List.append_nil, List.append_nil]
      exact ⟨items, hinv⟩
    | submitLocked j woken =>
      obtain ⟨hd, hinv⟩ := h.submitLocked hstep
      rw [hd, List.append_nil]
      exact hinv
    | workerLocked i =>
      obtain ⟨ha, hinv⟩ := h.workerLocked hstep
      rw [ha, List.append_nil]
      exact hinv
    | workerFinish i =>
      obtain ⟨rfl, hinv⟩ := h.workerFinish hstep
      rw [acceptedJobs_internal, dequeuedJobs_internal, List.append_nil, List.append_nil]
      exact ⟨items, hinv⟩
    | spuriousWakeup i =>
      cases hstep
      rw [acceptedJobs_internal, dequeuedJobs_internal, List.append_nil, List.append_nil]
      exact ⟨items, h.wake (woken_wakeThreads w.threads [i])⟩
    | destroyLocked =>
      cases hstep
      rw [acceptedJobs_internal, dequeuedJobs_internal, List.append_nil, List.append_nil]
      exact ⟨items, h.destroyLocked⟩
    | destroyJoin =>
      obtain ⟨rfl, hinv⟩ := h.destroyJoin hstep
      rw [acceptedJobs_internal, dequeuedJobs_internal, List.append_nil, List.append_nil]
      exact ⟨items, hinv⟩

/-- **A whole run** keeps it. -/
theorem run {actions : List ScriptAction} {events : List ScriptEvent}
    (h : QueueInv w accepted taken items) (hrun : w.run actions = some (w', events)) :
    ∃ items', QueueInv w' (accepted ++ acceptedJobs events) (taken ++ dequeuedJobs events)
      items' := by
  induction actions generalizing w accepted taken items events with
  | nil =>
    cases hrun
    refine ⟨items, ?_⟩
    show QueueInv w' (accepted ++ []) (taken ++ []) items
    rw [List.append_nil, List.append_nil]
    exact h
  | cons action actions ih =>
    unfold ScriptWorker.run at hrun
    split at hrun
    · cases hrun
    · rename_i w₁ event hstep
      obtain ⟨⟨w₂, events'⟩, hrest, heq⟩ := Option.map_eq_some_iff.mp hrun
      cases heq
      obtain ⟨items₁, h₁⟩ := h.step hstep
      obtain ⟨items₂, h₂⟩ := ih h₁ hrest
      refine ⟨items₂, ?_⟩
      rw [List.append_assoc, List.append_assoc, ← acceptedJobs_append, ← dequeuedJobs_append] at h₂
      exact h₂

end QueueInv

/-- The threads of a new worker are ready. -/
theorem eq_ready_of_create {workerCount i : ℕ} {t : WorkerThread}
    (hi : (List.replicate workerCount WorkerThread.ready)[i]? = some t) : t = .ready :=
  List.eq_of_mem_replicate (List.mem_of_getElem? hi)

/-- **A new worker** has an empty queue. -/
theorem queueInv_create {queueCapacity workerCount : ℕ} {io : CreateIo} {w : ScriptWorker}
    (hcreate : scriptWorkerCreate queueCapacity workerCount io = .ok w) :
    QueueInv w [] [] [] ∧ w.capacity = queueCapacity := by
  unfold scriptWorkerCreate at hcreate
  split at hcreate
  · cases hcreate
  · rename_i hpos
    split at hcreate
    · cases hcreate
    · split at hcreate
      · cases hcreate
      · split at hcreate
        · cases hcreate
        · cases hcreate
          refine ⟨?_, rfl⟩
          exact {
            queue := IsQueue.empty _
            queued_eq := rfl
            bounded := Nat.zero_le _
            fifo := rfl
            nodup := List.nodup_nil
            copied := fun j hj => absurd hj List.not_mem_nil
            held := fun hi => nomatch eq_ready_of_create hi
            alone := fun hi => nomatch eq_ready_of_create hi
            populated := fun hnil => hpos (.inr (List.replicate_eq_nil_iff _ |>.mp hnil))
            drained := fun hi => nomatch eq_ready_of_create hi
            attended := fun hne => absurd rfl hne
            stopped := fun hs => nomatch hs }

/-- The capacity is set once. -/
theorem capacity_step {w w' : ScriptWorker} {action : ScriptAction} {event : ScriptEvent}
    (hstep : w.step action = some (w', event)) : w'.capacity = w.capacity := by
  unfold ScriptWorker.step at hstep
  split at hstep
  · cases hstep
  · cases action with
    | submitCopy spec outcomes j =>
      simp only [submitCopy] at hstep
      split at hstep
      · cases hstep
        rfl
      · split at hstep
        · cases hstep
        · cases hstep
          rfl
    | submitLocked j woken =>
      simp only [submitLocked] at hstep
      repeat' split at hstep
      all_goals cases hstep
      all_goals rfl
    | workerLocked i =>
      simp only [workerLocked] at hstep
      repeat' split at hstep
      all_goals cases hstep
      all_goals rfl
    | workerFinish i =>
      simp only [workerFinish] at hstep
      split at hstep
      all_goals cases hstep
      rfl
    | spuriousWakeup i =>
      cases hstep
      rfl
    | destroyLocked =>
      cases hstep
      rfl
    | destroyJoin =>
      simp only [destroyJoin] at hstep
      split at hstep
      all_goals cases hstep
      rfl

/-- A run keeps the capacity. -/
theorem capacity_run {w w' : ScriptWorker} {actions : List ScriptAction}
    {events : List ScriptEvent} (hrun : w.run actions = some (w', events)) :
    w'.capacity = w.capacity := by
  induction actions generalizing w events with
  | nil =>
    cases hrun
    rfl
  | cons action actions ih =>
    unfold ScriptWorker.run at hrun
    split at hrun
    · cases hrun
    · rename_i w₁ event hstep
      obtain ⟨⟨w₂, events'⟩, hrest, heq⟩ := Option.map_eq_some_iff.mp hrun
      cases heq
      exact (ih hrest).trans (capacity_step hstep)

/-! ## The queue -/

/-- **The script queue is a bounded queue that loses nothing.** -/
theorem script_queue_is_bounded_fifo {queueCapacity workerCount : ℕ} {io : CreateIo}
    {w₀ w : ScriptWorker} {actions : List ScriptAction} {events : List ScriptEvent}
    (hcreate : scriptWorkerCreate queueCapacity workerCount io = .ok w₀)
    (hrun : w₀.run actions = some (w, events)) :
    (∃ items : List (ℕ × ScriptJob),
      ListSeg w.heap w.head items none ∧ items.length = w.queued ∧
        w.tail = items.getLast?.map Prod.fst ∧
        acceptedJobs events = (dequeuedJobs events).map Prod.snd ++ items.map Prod.snd) ∧
    w.queued ≤ w.capacity ∧ w.capacity = queueCapacity ∧ (w.head = none ↔ w.tail = none) ∧
    ((∀ t ∈ w.threads, t = .exited) → ∀ (k : ℕ) (job : ScriptJob),
      (acceptedJobs events)[k]? = some job →
      ∃! i, (dequeuedJobs events)[k]? = some (i, job)) := by
  obtain ⟨hinit, hcapacity⟩ := queueInv_create hcreate
  obtain ⟨items, h⟩ := hinit.run hrun
  rw [List.nil_append, List.nil_append] at h
  refine ⟨⟨items, h.queue.seg, h.queued_eq.symm, h.queue.tail_eq, h.fifo⟩, h.bounded,
    (capacity_run hrun).trans hcapacity, ?_, ?_⟩
  · exact h.queue.head_eq_none_iff.trans h.queue.tail_eq_none_iff.symm
  · intro hexit k job hk
    have hall : acceptedJobs events = (dequeuedJobs events).map Prod.snd := by
      rw [h.fifo, h.empty_of_exited hexit, List.map_nil, List.append_nil]
    rw [hall, List.getElem?_map] at hk
    obtain ⟨⟨i, job'⟩, hget, hjob⟩ := Option.map_eq_some_iff.mp hk
    have hjob : job' = job := hjob
    subst hjob
    refine ⟨i, hget, fun i' hget' => ?_⟩
    exact congrArg Prod.fst (Option.some.inj (hget'.symm.trans hget))

/-- A job without arguments beyond its program, and without an environment. -/
def plainSpec : ScriptJobSpec where
  argv := some [some [0x61]]
  jsonPayload := some [0x7b, 0x7d]
  envNames := none
  envValues := none
  envCount := 0
  timeoutSec := 0
  names_length := by simp
  values_length := by simp

/-- Its copy. -/
def plainJob : ScriptJob := ⟨[[0x61]], [0x7b, 0x7d], [], 30⟩

/-- Two submissions and the end of a worker with one thread. -/
def twoJobsRun : List ScriptAction :=
  [.submitCopy (some plainSpec) [] 1, .submitLocked 1 [], .submitCopy (some plainSpec) [] 2,
    .submitLocked 2 [], .workerLocked 0, .workerFinish 0, .destroyLocked, .workerLocked 0,
    .workerFinish 0, .workerLocked 0, .destroyJoin]

/-- The second of two jobs is taken once. -/
theorem script_queue_is_bounded_fifo_two_jobs :
    ∃ (w₀ w : ScriptWorker) (events : List ScriptEvent),
      scriptWorkerCreate 2 1 ⟨true, true, fun _ => none⟩ = .ok w₀ ∧
      w₀.run twoJobsRun = some (w, events) ∧ acceptedJobs events = [plainJob, plainJob] ∧
      ∃! i, (dequeuedJobs events)[1]? = some (i, plainJob) := by
  have hcreate : scriptWorkerCreate 2 1 ⟨true, true, fun _ => none⟩ = .ok
      ⟨none, none, 0, 2, false, [.ready], fun _ => none, [], false⟩ := rfl
  have hrun : ScriptWorker.run ⟨none, none, 0, 2, false, [.ready], fun _ => none, [], false⟩
      twoJobsRun = some (_, _) := rfl
  exact ⟨_, _, _, hcreate, hrun, rfl,
    (script_queue_is_bounded_fifo hcreate hrun).2.2.2.2 (by decide) 1 plainJob rfl⟩

/-- As long as a job is queued, or the threads are to stop and have not, one of them can take
its next step. -/
theorem worker_can_step {w : ScriptWorker} {accepted : List ScriptJob}
    {taken : List (ℕ × ScriptJob)} {items : List (ℕ × ScriptJob)}
    (h : QueueInv w accepted taken items)
    (hwork : items ≠ [] ∨ w.stopping ∧ ∃ t ∈ w.threads, t ≠ .exited) :
    ∃ i, (workerLocked w i).isSome ∨ (workerFinish w i).isSome := by
  have hawake : ∃ (i : ℕ) (t : WorkerThread), w.threads[i]? = some t ∧ Awake t := by
    cases hwork with
    | inl hne => exact h.attended hne
    | inr hstop =>
      obtain ⟨hs, t, ht, hexit⟩ := hstop
      obtain ⟨i, hi⟩ := List.mem_iff_getElem?.mp ht
      refine ⟨i, t, hi, ?_⟩
      cases t with
      | ready => exact .inl rfl
      | running j => exact .inr ⟨j, rfl⟩
      | waiting => exact absurd hi (h.stopped hs i)
      | exited => exact absurd rfl hexit
  obtain ⟨i, t, hi, rfl | ⟨j, rfl⟩⟩ := hawake
  · refine ⟨i, .inl ?_⟩
    unfold workerLocked
    rw [if_neg (not_not.mpr hi)]
    cases hhead : w.head with
    | none => cases w.stopping <;> rfl
    | some j =>
      have hq := h.queue
      rw [hhead] at hq
      obtain ⟨x, next, rest, -, hnode, -⟩ := hq.pop
      simp [hnode]
  · refine ⟨i, .inr ?_⟩
    unfold workerFinish
    rw [hi]
    rfl

end Recorder.Analysis
