import WorkQueue.Config.Basic
import WorkQueue.Scheduler.Basic
import WorkQueue.Store.Backend
import WorkQueue.Worker.Process

/-! # Engine

One store, one clock, and the pools, monitors, schedulers and tasks that work on it. Tasks
sleep on a timer of their own, in milliseconds; all of them read the clock for the time.
-/

namespace WorkQueue

/-- Tasks that are stopped together. -/
structure TaskGroup where
  stopping : Bool := false
  /-- The number of tasks that ended by themselves or because they were stopped. -/
  finished : Nat := 0
  deriving Repr, DecidableEq, Inhabited

/-- What a handler does with a message. -/
inductive Handling where
  | succeed
  | fail (reason : String)
  /-- The worker dies and the lease stays registered. -/
  | crash
  /-- The handler ends when it is released or when the lease is lost. -/
  | block
  deriving Repr, DecidableEq

structure Pool where
  owner : Owner
  config : Config
  registry : Registry := .empty
  /-- The group of the workers. -/
  workers : Nat
  /-- The group of the periodic duties. -/
  background : Nat
  started : Bool := false
  handler : Message → Handling
  /-- The messages handed to the handler, in order. -/
  handled : List Message := []

/-- A monitor with leases of its own. -/
structure MonitorSite where
  config : MonitorConfig
  registry : Registry := .empty

/-- A scheduler and its loop. -/
structure SchedulerSite where
  state : Scheduler
  /-- The wait between two passes in milliseconds. -/
  interval : Nat
  group : Nat
  started : Bool := false

/-- The periodic duties of a pool. -/
inductive Duty where
  | renew
  | recover
  | purge
  deriving Repr, DecidableEq

/-- A task that is only tracked. -/
inductive TrackedTask where
  /-- Ends at once. -/
  | done
  /-- Ends when its group is stopped. -/
  | wait
  | panic
  deriving Repr, DecidableEq

inductive TaskKind where
  | worker (pool : Nat) (backoff : PollBackoff)
  | duty (pool : Nat) (duty : Duty)
  | scheduler (site : Nat)
  | tracked (task : TrackedTask)
  deriving Repr, DecidableEq

inductive TaskState where
  | fresh
  | sleeping (wake : Nat)
  /-- A handler is blocked under a lease with a signal. -/
  | handling (lease : Lease) (signal : Nat)
  | waiting
  | ended
  deriving Repr, DecidableEq

structure Task where
  kind : TaskKind
  group : Nat
  state : TaskState := .fresh
  /-- The number of waits that were begun before it began to wait. -/
  since : Nat := 0
  deriving Repr, DecidableEq

structure Engine where
  store : FaultyStore
  clock : Instant
  /-- The stamp on stored messages. -/
  stamp : Instant := .epoch
  /-- The number of identifiers drawn. -/
  drawn : Nat := 0
  /-- The time of the timer in milliseconds. -/
  time : Nat := 0
  groups : Array TaskGroup := #[]
  pools : Array Pool := #[]
  monitors : Array MonitorSite := #[]
  schedulers : Array SchedulerSite := #[]
  tasks : Array Task := #[]
  /-- The number of waits that tasks have begun. -/
  waits : Nat := 0
  /-- The tasks that go on, by their turn. -/
  queue : List Nat := []

namespace Engine

def make (backend : Backend) (clock : Instant) : Engine :=
  { store := { backend }, clock }

/-- The `n`-th identifier that is drawn; none of them is nil. -/
def identifier (n : Nat) : Uuid := .ofNat (n + 1)

def draw (e : Engine) : Uuid × Engine :=
  (identifier e.drawn, { e with drawn := e.drawn + 1 })

/-- Make one call. -/
def ask (e : Engine) (c : Call) : c.Reply × Engine :=
  let (reply, store) := e.store.answer c
  (reply, { e with store })

/-- Carry out a procedure on the store with some local state. -/
def perform {S α : Type} (e : Engine) (p : Procedure S α) (s : S) : α × S × Engine :=
  let (value, store, s) := p.run FaultyStore.answer e.store s
  (value, s, { e with store })

/-- Carry out a procedure that keeps no local state. -/
def performPlain {α : Type} (e : Engine) (p : Procedure Unit α) : α × Engine :=
  let (value, _, e) := e.perform p ()
  (value, e)

def addGroup (e : Engine) : Nat × Engine :=
  (e.groups.size, { e with groups := e.groups.push {} })

def isStopping (e : Engine) (group : Nat) : Bool :=
  (e.groups[group]?.map (·.stopping)).getD false

def spawn (e : Engine) (kind : TaskKind) (group : Nat) : Engine :=
  { e with tasks := e.tasks.push { kind, group }, queue := e.queue ++ [e.tasks.size] }

/-- A task begins to wait. -/
def wait (e : Engine) (task : Nat) (kind : TaskKind) (state : TaskState) : Engine :=
  { e with
    tasks := e.tasks.modify task fun t => { t with kind, state, since := e.waits }
    waits := e.waits + 1 }

/-- Let tasks go on, in the order in which they began to wait. -/
def wake (e : Engine) (p : Task → Bool) : Engine :=
  let woken := e.tasks.toList.zipIdx.filter fun (t, i) => p t && !e.queue.contains i
  let order := woken.mergeSort fun a b => a.1.since ≤ b.1.since
  { e with queue := e.queue ++ order.map (·.2) }

/-- End a task without counting it. -/
def crash (e : Engine) (task : Nat) : Engine :=
  { e with tasks := e.tasks.modify task ({ · with state := .ended }) }

/-- End a task and count it in its group. -/
def finish (e : Engine) (task group : Nat) : Engine :=
  let e := e.crash task
  { e with groups := e.groups.modify group fun g => { g with finished := g.finished + 1 } }

/-- Carry out a procedure on the registry of a pool. -/
def onPool {α : Type} (e : Engine) (pool : Nat) (p : Procedure Registry α) : Option (α × Engine) :=
  e.pools[pool]?.map fun site =>
    let (value, registry, e) := e.perform p site.registry
    (value, { e with pools := e.pools.modify pool ({ · with registry }) })

/-- Carry out a procedure on a scheduler. -/
def onScheduler {α : Type} (e : Engine) (site : Nat) (p : Procedure Scheduler α) :
    Option (α × Engine) :=
  e.schedulers[site]?.map fun s =>
    let (value, state, e) := e.perform p s.state
    (value, { e with schedulers := e.schedulers.modify site ({ · with state }) })

/-- Carry out a procedure on the registry of a monitor. -/
def onMonitor {α : Type} (e : Engine) (site : Nat) (p : Procedure Registry α) :
    Option (α × Engine) :=
  e.monitors[site]?.map fun m =>
    let (value, registry, e) := e.perform p m.registry
    (value, { e with monitors := e.monitors.modify site ({ · with registry }) })

/-- The number of jobs that are stored, which no pass fires more messages than. -/
def storedJobs (e : Engine) : Nat :=
  match (e.store.backend.answer .loadJobs).1 with
  | .ok jobs => jobs.length
  | .error _ => 0

/-- One pass of a scheduler at the time of the clock. -/
def tick (e : Engine) (site : Nat) : Option (Except QueueError Nat × Engine) :=
  let base := e.drawn
  let e := { e with drawn := base + e.storedJobs }
  e.onScheduler site (Scheduler.tick e.clock e.stamp fun n => ⟨identifier (base + n)⟩)

end Engine

end WorkQueue
