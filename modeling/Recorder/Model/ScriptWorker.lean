import Recorder.Lib.LinkedQueue
import Recorder.Model.Segment

/-!
# `script_worker.c`: the queue of script jobs

A script worker owns a queue of jobs and the threads that run them. `script_worker_submit`
copies a job before it takes the lock, and its critical section links the copy at the tail; a
thread takes the job at the head in its own critical section and runs it without the lock;
`script_worker_destroy` refuses further jobs and waits for the threads. `step` is one critical
section or one piece of work outside the lock, so that a run is any interleaving of these.
-/

set_option autoImplicit false

namespace Recorder.Model

open Recorder.Lib

/-! ## Jobs -/

/-- `SCRIPT_MAX_ARGC`. -/
abbrev scriptMaxArgc : ℕ := 128
/-- `SCRIPT_MAX_ARG_LEN`. -/
abbrev scriptMaxArgLen : ℕ := 64 * 1024
/-- `SCRIPT_MAX_JSON`. -/
abbrev scriptMaxJson : ℕ := 1024 * 1024
/-- `SCRIPT_MAX_ENV`. -/
abbrev scriptMaxEnv : ℕ := 128
/-- `SCRIPT_MAX_ENV_LEN`. -/
abbrev scriptMaxEnvLen : ℕ := 64 * 1024
/-- `SCRIPT_DEFAULT_TIMEOUT`. -/
def scriptDefaultTimeout : UInt32 := 30

/-- `ScriptJobSpec`. A null pointer is `none`, a string its bytes; `argc` is the length of
`argv`.
SOURCE: script_worker.h:8-16 -/
structure ScriptJobSpec where
  argv : Option (List (Option Bytes))
  jsonPayload : Option Bytes
  envNames : Option (List Bytes)
  envValues : Option (List (Option Bytes))
  envCount : ℕ
  timeoutSec : UInt32
  names_length : ∀ names, envNames = some names → names.length = envCount
  values_length : ∀ values, envValues = some values → values.length = envCount

/-- `ScriptJob`, without the link.
SOURCE: script_worker.c:25-34 -/
structure ScriptJob where
  argv : List Bytes
  json : Bytes
  env : List (Bytes × Bytes)
  timeoutSec : UInt32
  deriving DecidableEq, Repr

/-- A computation that allocates. The list says which of the next allocations get memory;
those behind its end do. -/
abbrev AllocM := StateT (List Bool) (Except Errno)

/-- One allocation. -/
def allocate : AllocM Unit := fun outcomes =>
  match outcomes with
  | [] => .ok ((), [])
  | true :: outcomes => .ok ((), outcomes)
  | false :: _ => .error .enomem

/-- A submission that is refused. -/
def reject {α : Type} (e : Errno) : AllocM α := fun _ => .error e

/-- `copy_string`.
SOURCE: script_worker.c:61-68 -/
def scriptCopyString (s : Option Bytes) (max : ℕ) : AllocM Bytes :=
  match s with
  | none => reject .einval
  | some s => if max < s.length then reject .einval else do
    allocate
    return s

/-- Copies of strings, up to the first one that cannot be copied. -/
def copyStrings (max : ℕ) : List (Option Bytes) → AllocM (List Bytes)
  | [] => return []
  | s :: strings => do
    let copy ← scriptCopyString s max
    let copies ← copyStrings max strings
    return copy :: copies

/-- "REC_" -/
def scriptEnvPrefix : Bytes := [0x52, 0x45, 0x43, 0x5f]

/-- The loop over the environment of a job. `strncmp` accepts a name that starts with the
prefix. -/
def copyEnv : List (Bytes × Option Bytes) → AllocM (List (Bytes × Bytes))
  | [] => return []
  | (name, value) :: env =>
    if name.take 4 ≠ scriptEnvPrefix then reject .einval else do
    let name ← scriptCopyString (some name) scriptMaxEnvLen
    let value ← scriptCopyString value scriptMaxEnvLen
    let copies ← copyEnv env
    return (name, value) :: copies

/-- The environment of a job: two arrays, then the loop, which rejects missing arrays.
SOURCE: script_worker.c:87-102 -/
def copyJobEnv (spec : ScriptJobSpec) : AllocM (List (Bytes × Bytes)) :=
  if spec.envCount = 0 then return [] else do
    allocate
    allocate
    match spec.envNames, spec.envValues with
    | some names, some values => copyEnv (names.zip values)
    | _, _ => reject .einval

/-- `job_copy`.
SOURCE: script_worker.c:70-106 -/
def jobCopy : Option ScriptJobSpec → AllocM ScriptJob
  | none => reject .einval
  | some spec =>
    match spec.argv with
    | none => reject .einval
    | some argv =>
      if argv.length = 0 ∨ scriptMaxArgc < argv.length ∨ spec.jsonPayload = none ∨
          scriptMaxEnv < spec.envCount then
        reject .einval
      else do
        allocate
        allocate
        let argv ← copyStrings scriptMaxArgLen argv
        let json ← scriptCopyString spec.jsonPayload scriptMaxJson
        let env ← copyJobEnv spec
        let timeoutSec := if spec.timeoutSec = 0 then scriptDefaultTimeout else spec.timeoutSec
        return { argv, json, env, timeoutSec }

/-! ## The worker -/

/-- Where a thread of `worker_main` is: about to take the lock, in `pthread_cond_wait`, with
a job it has taken, or gone. -/
inductive WorkerThread
  | ready
  | waiting
  | running (job : ℕ)
  | exited
  deriving DecidableEq, Repr

/-- `ScriptWorker` and the jobs it can reach. `submitting` are the copies of calls that have
not taken the lock yet; `destroyed` is set when the record has been freed.
SOURCE: script_worker.c:36-45 -/
structure ScriptWorker where
  head : Option ℕ
  tail : Option ℕ
  queued : ℕ
  capacity : ℕ
  stopping : Bool
  threads : List WorkerThread
  heap : NodeHeap ScriptJob
  submitting : List ℕ
  destroyed : Bool

/-- What the system grants `script_worker_create`: its two allocations, and the error of
`pthread_create` for each thread. -/
structure CreateIo where
  allocWorker : Bool
  allocThreads : Bool
  threadError : ℕ → Option Errno

/-- `script_worker_create`. Where a thread cannot be created, those before it are stopped and
joined, and the caller gets no worker.
SOURCE: script_worker.c:195-210 -/
def scriptWorkerCreate (queueCapacity workerCount : ℕ) (io : CreateIo) :
    Except Errno ScriptWorker :=
  if queueCapacity = 0 ∨ workerCount = 0 then .error .einval
  else if !io.allocWorker then .error .enomem
  else if !io.allocThreads then .error .enomem
  else
    match (List.range workerCount).findSome? io.threadError with
    | some rc => .error rc
    | none =>
      .ok { head := none, tail := none, queued := 0, capacity := queueCapacity, stopping := false,
            threads := List.replicate workerCount .ready, heap := fun _ => none, submitting := [],
            destroyed := false }

/-- The threads in `woken` leave `pthread_cond_wait`. -/
def wakeThreads (threads : List WorkerThread) (woken : List ℕ) : List WorkerThread :=
  threads.mapIdx fun i t => if t = .waiting ∧ i ∈ woken then .ready else t

/-- `pthread_cond_signal` wakes at least one of the threads that wait. -/
def signalWakes (threads : List WorkerThread) (woken : List ℕ) : Prop :=
  .waiting ∈ threads → ∃ i ∈ woken, threads[i]? = some .waiting

instance (threads : List WorkerThread) (woken : List ℕ) : Decidable (signalWakes threads woken) :=
  inferInstanceAs (Decidable (_ → _))

/-- `pthread_cond_broadcast` wakes all of them. -/
def broadcast (threads : List WorkerThread) : List WorkerThread :=
  threads.map fun t => if t = .waiting then .ready else t

/-- What an observer of the worker sees of one step: a submission with its result, a job
taken by a thread, or nothing. -/
inductive ScriptEvent
  | submitted (result : Except Errno ScriptJob)
  | dequeued (worker : ℕ) (job : ScriptJob)
  | internal
  deriving DecidableEq

/-- `script_worker_submit` before the lock: the job is copied to the free address `j`.
SOURCE: script_worker.c:213-214 -/
def submitCopy (w : ScriptWorker) (spec : Option ScriptJobSpec) (outcomes : List Bool) (j : ℕ) :
    Option (ScriptWorker × ScriptEvent) :=
  match (jobCopy spec).run outcomes with
  | .error rc => some (w, .submitted (.error rc))
  | .ok (job, _) =>
    if (w.heap j).isSome then none
    else some ({ w with heap := w.heap.alloc j job, submitting := j :: w.submitting }, .internal)

/-- The critical section of `script_worker_submit`, for the copy at `j`.
SOURCE: script_worker.c:215-218 -/
def submitLocked (w : ScriptWorker) (j : ℕ) (woken : List ℕ) :
    Option (ScriptWorker × ScriptEvent) :=
  if j ∉ w.submitting then none else
  match w.heap j with
  | none => none
  | some node =>
    let submitting := w.submitting.erase j
    if w.stopping ∨ w.queued ≥ w.capacity then
      some ({ w with heap := w.heap.free j, submitting }, .submitted (.error .enospc))
    else if ¬ signalWakes w.threads woken then none
    else
      some ({ w with
        heap := match w.tail with | some t => w.heap.setNext t (some j) | none => w.heap
        head := match w.tail with | some _ => w.head | none => some j
        tail := some j
        queued := w.queued + 1
        threads := wakeThreads w.threads woken
        submitting }, .submitted (.ok node.value))

/-- The critical section of thread `i`: it takes the job at the head, exits, or waits.
SOURCE: script_worker.c:184-188 -/
def workerLocked (w : ScriptWorker) (i : ℕ) : Option (ScriptWorker × ScriptEvent) :=
  if w.threads[i]? ≠ some .ready then none else
  match w.head with
  | none =>
    if w.stopping then some ({ w with threads := w.threads.set i .exited }, .internal)
    else some ({ w with threads := w.threads.set i .waiting }, .internal)
  | some j =>
    match w.heap j with
    | none => none
    | some node =>
      some ({ w with
        head := node.next
        tail := if node.next.isNone then none else w.tail
        queued := w.queued - 1
        threads := w.threads.set i (.running j) }, .dequeued i node.value)

/-- `run_job` and `job_free` of thread `i`.
SOURCE: script_worker.c:189-190 -/
def workerFinish (w : ScriptWorker) (i : ℕ) : Option (ScriptWorker × ScriptEvent) :=
  match w.threads[i]? with
  | some (.running j) =>
    some ({ w with heap := w.heap.free j, threads := w.threads.set i .ready }, .internal)
  | _ => none

/-- The loop that frees what is left in the queue.
SOURCE: script_worker.c:226 -/
def freeJobs (heap : NodeHeap ScriptJob) : ℕ → Option ℕ → NodeHeap ScriptJob
  | 0, _ => heap
  | _ + 1, none => heap
  | n + 1, some j =>
    match heap j with
    | none => heap
    | some node => freeJobs (heap.free j) n node.next

/-- `script_worker_destroy` behind its critical section: when all threads have been joined,
the rest is freed.
SOURCE: script_worker.c:225-227 -/
def destroyJoin (w : ScriptWorker) : Option (ScriptWorker × ScriptEvent) :=
  if w.stopping ∧ ∀ t ∈ w.threads, t = .exited then
    some ({ w with heap := freeJobs w.heap w.queued w.head, destroyed := true }, .internal)
  else none

/-- What can happen next, with the choices of the system and of the callers. -/
inductive ScriptAction
  | submitCopy (spec : Option ScriptJobSpec) (outcomes : List Bool) (j : ℕ)
  | submitLocked (j : ℕ) (woken : List ℕ)
  | workerLocked (i : ℕ)
  | workerFinish (i : ℕ)
  | spuriousWakeup (i : ℕ)
  | destroyLocked
  | destroyJoin

namespace ScriptWorker

/-- One step, `none` where the action is not possible. Nothing happens to a worker that has
been freed. -/
def step (w : ScriptWorker) (action : ScriptAction) : Option (ScriptWorker × ScriptEvent) :=
  if w.destroyed then none else
  match action with
  | .submitCopy spec outcomes j => submitCopy w spec outcomes j
  | .submitLocked j woken => submitLocked w j woken
  | .workerLocked i => workerLocked w i
  | .workerFinish i => workerFinish w i
  | .spuriousWakeup i => some ({ w with threads := wakeThreads w.threads [i] }, .internal)
  | .destroyLocked =>
    some ({ w with stopping := true, threads := broadcast w.threads }, .internal)
  | .destroyJoin => destroyJoin w

/-- A run, and what was seen of it. -/
def run (w : ScriptWorker) : List ScriptAction → Option (ScriptWorker × List ScriptEvent)
  | [] => some (w, [])
  | action :: actions =>
    match w.step action with
    | none => none
    | some (w, event) => (run w actions).map fun (w, events) => (w, event :: events)

end ScriptWorker

/-- The jobs whose submission returned 0, in order. -/
def acceptedJobs (events : List ScriptEvent) : List ScriptJob :=
  events.filterMap fun
    | .submitted (.ok job) => some job
    | _ => none

/-- The jobs taken from the queue, in order, and the thread that took each. -/
def dequeuedJobs (events : List ScriptEvent) : List (ℕ × ScriptJob) :=
  events.filterMap fun
    | .dequeued i job => some (i, job)
    | _ => none

end Recorder.Model
