import FaultChain.Failure
import FaultChain.Work.Job

/-!
# Batches of tasks

A batch of tasks is worked off by a bounded number of workers. A dispatcher looks at the tasks in
order and waits for a free slot for each; once it is told to stop, no further task is started. Every
task gets a result of its own, whether it returns one or not.

* `Batch.step`: one step of the dispatcher or a worker, in any interleaving.
* `Batch.complete`: finishes a batch from wherever it stands.
* `Scheduler.runBatch`: runs a batch and counts its tasks.
-/

namespace FaultChain

-- A body may return without a result, or not return at all.
inductive TaskEnd (α : Type) where
  | returned (a : α)
  | nothing
  | panicked (why : String)

structure Task (σ α : Type) where
  name : String
  body : Job σ (TaskEnd α)

-- A task is cleared when the dispatcher has looked at it, and admitted when it has a slot.
inductive TaskState (σ α : Type) where
  | waiting
  | cleared
  | admitted
  | running (rest : Job σ (TaskEnd α))
  | finished (a : α)

namespace TaskState

variable {σ α : Type}

/-- Whether the task holds a slot. -/
def isActive : TaskState σ α → Bool
  | .admitted => true
  | .running _ => true
  | _ => false

def result? : TaskState σ α → Option α
  | .finished a => some a
  | _ => none

end TaskState

/-- The rules of a batch. -/
structure Dispatch (σ α : Type) where
  /-- How many tasks may be active at once. -/
  limit : Nat
  /-- Why no further task may be started. -/
  stop : σ → Option Failure
  /-- The result of a task that has none. -/
  fallback : String → Failure → α

/-- A batch at work. -/
structure Batch (σ α : Type) where
  world : σ
  tasks : List (Task σ α × TaskState σ α)
  /-- Number of tasks finished over all batches. -/
  completed : Nat := 0
  submitted : Nat := 0
  /-- After each finished task, how many are finished and how many there are. -/
  progress : List (Nat × Nat) := []

inductive BatchEvent (ε : Type) where
  | look
  | admission
  | start (i : Nat)
  | advance (i : Nat)
  | outside (e : ε)

def BatchEvent.map {ε δ : Type} (f : ε → δ) : BatchEvent ε → BatchEvent δ
  | .look => .look
  | .admission => .admission
  | .start i => .start i
  | .advance i => .advance i
  | .outside e => .outside (f e)

namespace Batch

variable {σ α : Type}

/-- The result of a task whose body has ended. -/
def settle (d : Dispatch σ α) (name : String) : TaskEnd α → α
  | .returned a => a
  | .nothing => d.fallback name (.other ("task " ++ name ++ " returned no result"))
  | .panicked why => d.fallback name (.panicked name why)

/-- Sets how far a task is. -/
def put (b : Batch σ α) (i : Nat) (s : TaskState σ α) : Batch σ α :=
  { b with tasks := b.tasks.modify i fun (t, _) => (t, s) }

def finish (b : Batch σ α) (i : Nat) (a : α) : Batch σ α :=
  { b.put i (.finished a) with
    completed := b.completed + 1
    progress := b.progress ++ [(b.completed + 1, b.submitted)] }

def refuse (d : Dispatch σ α) (b : Batch σ α) (i : Nat) (name : String) (why : Failure) :
    Batch σ α :=
  b.finish i (d.fallback name (.notDispatched why))

def active (b : Batch σ α) : Nat := b.tasks.countP (·.2.isActive)

def first? (b : Batch σ α) (p : TaskState σ α → Bool) : Option Nat :=
  b.tasks.findIdx? (p ·.2)

/-- The task the dispatcher waits with. -/
def cleared? (b : Batch σ α) : Option Nat :=
  b.first? fun
    | .cleared => true
    | _ => false

def waiting? (b : Batch σ α) : Option Nat :=
  b.first? fun
    | .waiting => true
    | _ => false

/-- One step; an event that cannot happen changes nothing. -/
def step (d : Dispatch σ α) (b : Batch σ α) : BatchEvent (σ → σ) → Batch σ α
  | .look =>
    match b.cleared?, b.waiting? with
    | none, some i =>
      match b.tasks[i]?, d.stop b.world with
      | some (t, _), some why => b.refuse d i t.name why
      | some _, none => b.put i .cleared
      | none, _ => b
    | _, _ => b
  | .admission =>
    match b.cleared? with
    | some i => if b.active < d.limit then b.put i .admitted else b
    | none => b
  | .start i =>
    match b.tasks[i]? with
    | some (t, .admitted) =>
      match d.stop b.world with
      | some why => b.refuse d i t.name why
      | none => b.put i (.running t.body)
    | _ => b
  | .advance i =>
    match b.tasks[i]? with
    | some (t, .running (.done e)) => b.finish i (settle d t.name e)
    | some (_, .running (.step act next)) =>
      { b.put i (.running (next b.world)) with world := act b.world }
    | _ => b
  | .outside change => { b with world := change b.world }

def runEvents (d : Dispatch σ α) (b : Batch σ α) (events : List (BatchEvent (σ → σ))) : Batch σ α :=
  events.foldl (step d) b

/-- Lets a running task make all its steps; the job is what is left of its body. -/
def exhaust (d : Dispatch σ α) (i : Nat) : Job σ (TaskEnd α) → Batch σ α → Batch σ α
  | .done _, b => b.step d (.advance i)
  | .step _ next, b => exhaust d i (next b.world) (b.step d (.advance i))

/-- Lets a task that has a slot come to its end. -/
def drain (d : Dispatch σ α) (b : Batch σ α) (i : Nat) : Batch σ α :=
  let b := b.step d (.start i)
  match b.tasks[i]? with
  | some (_, .running rest) => exhaust d i rest b
  | _ => b

/-- Takes a task to its end, wherever it stands. -/
def serve (d : Dispatch σ α) (b : Batch σ α) (i : Nat) : Batch σ α :=
  match b.tasks[i]? with
  | some (_, .finished _) => b
  | _ => drain d (b.runEvents d [.look, .admission]) i

/-- Finishes a batch: first the tasks that have a slot, then each other one before the next is looked
at. -/
def complete (d : Dispatch σ α) (b : Batch σ α) : Batch σ α :=
  let all := List.range b.tasks.length
  all.foldl (serve d) (all.foldl (drain d) b)

def results (b : Batch σ α) : List α := b.tasks.filterMap (·.2.result?)

end Batch

/-- Runs batches one after another and counts their tasks. -/
structure Scheduler where
  limit : Nat
  completed : Nat := 0
  submitted : Nat := 0
  deriving DecidableEq

namespace Scheduler

variable {σ α : Type}

/-- A scheduler with so many slots, at least one. -/
def ofLimit (limit : Int) : Scheduler := { limit := if limit ≤ 0 then 1 else limit.toNat }

def prepare (s : Scheduler) (world : σ) (tasks : List (Task σ α)) : Batch σ α :=
  { world := world
    tasks := tasks.map fun t => (t, .waiting)
    completed := s.completed
    submitted := s.submitted + tasks.length }

/-- Runs a batch of tasks: what happens first is given by `events`, the rest is finished in order.
Gives the finished batch and the counts after it. -/
def runBatch (s : Scheduler) (stop : σ → Option Failure) (fallback : String → Failure → α)
    (events : List (BatchEvent (σ → σ))) (world : σ) (tasks : List (Task σ α)) :
    Batch σ α × Scheduler :=
  let d : Dispatch σ α := { limit := s.limit, stop := stop, fallback := fallback }
  let b := ((s.prepare world tasks).runEvents d events).complete d
  (b, { s with completed := b.completed, submitted := b.submitted })

end Scheduler
end FaultChain
