import WorkQueue.Engine.Basic

/-! # Running tasks

Tasks that can go on do so by turns until none is left; then the timer moves to the next wake-up.
What wakes at one time goes on in the order in which it began to wait. What wakes at the very end
of a run has to wait for its turn until the next one.
-/

namespace WorkQueue.Engine

/-- Claim with a fresh token of the pool's owner. -/
def claimFor (e : Engine) (pool : Pool) : Except QueueError (Option Message) × Engine :=
  let (fresh, e) := e.draw
  e.performPlain (Coordinator.claim (pool.owner.lease fresh) pool.config.routes e.clock)

/-- The wait after one more empty claim. Where the policy leaves it open, it is a wait away from
both ends. -/
def nextWait (b : PollBackoff) : Nat × PollBackoff :=
  let polls := (b.next 0).2.emptyPolls
  b.next (2 * (b.policy.ceiling polls - b.policy.floor polls) / 3)

/-- A worker claims and handles messages until it has to wait, is blocked, dies or is stopped.
A worker that does not come to rest within `fuel` rounds waits for a millisecond. -/
def work (task group pool : Nat) : (fuel : Nat) → PollBackoff → Engine → Engine
  | 0, backoff, e => e.wait task (.worker pool backoff) (.sleeping (e.time + 1))
  | fuel + 1, backoff, e =>
    if e.isStopping group then e.finish task group
    else
      match e.pools[pool]? with
      | none => e.finish task group
      | some site =>
        match e.claimFor site with
        | (.ok (some m), e) =>
          let backoff := backoff.reset
          match m.lease? with
          | none => work task group pool fuel backoff e
          | some lease =>
            match e.onPool pool (Worker.register lease) with
            | none => e.finish task group
            | some (signal, e) =>
              let e := { e with
                pools := e.pools.modify pool fun p => { p with handled := p.handled ++ [m] } }
              let settle (outcome : Outcome) : Engine :=
                match e.onPool pool (Worker.finish lease outcome) with
                | some (_, e) => work task group pool fuel backoff e
                | none => e.finish task group
              match site.handler m with
              | .succeed => settle .succeeded
              | .fail reason => settle (.failed reason)
              | .crash => e.crash task
              | .block => e.wait task (.worker pool backoff) (.handling lease signal)
        | (_, e) =>
          let (wait, backoff) := nextWait backoff
          if wait = 0 then work task group pool fuel backoff e
          else e.wait task (.worker pool backoff) (.sleeping (e.time + wait))

/-- Rounds in which a worker handles every stored message and still comes to rest. -/
def workFuel (e : Engine) : Nat :=
  100 + match e.store.backend with
    | .memory s => s.messages.length
    | .table t => (t.messages.getD []).length

/-- Renew the leases of a pool; the handlers of those that are lost go on. -/
def renewLeases (e : Engine) (pool : Nat) : Option (Nat × Engine) :=
  (e.onPool pool (Monitor.renewLocal e.clock)).map fun (lost, e) =>
    let isLost (t : Task) : Bool :=
      match t.kind, t.state with
      | .worker p _, .handling _ signal =>
        p == pool && (e.pools[pool]?).any (·.registry.isFired signal)
      | _, _ => false
    (lost, e.wake isLost)

/-- One pass of a periodic duty, and whether the duty goes on. A number that goes past its range
ends the duty; other errors are left for the next pass. -/
def pass (e : Engine) (pool : Nat) (duty : Duty) : Bool × Engine :=
  match e.pools[pool]? with
  | none => (true, e)
  | some site =>
    match duty with
    | .renew => (true, ((e.renewLeases pool).map (·.2)).getD e)
    | .recover =>
      match e.performPlain (Monitor.recover site.config.monitor e.clock) with
      | (.error .overflow, e) => (false, e)
      | (_, e) => (true, e)
    | .purge => (true, (e.performPlain (Monitor.purge e.clock)).2)

/-- The time between two passes of a duty. -/
def period (e : Engine) (pool : Nat) (duty : Duty) : Nat :=
  match e.pools[pool]? with
  | none => 1
  | some site =>
    max 1 (match duty with
      | .renew => site.config.heartbeatInterval.toNat
      | .recover => site.config.recoveryScanInterval.toNat
      | .purge => site.config.expiredPurgeInterval.toNat)

/-- Let a task go on until it waits again. -/
def resume (e : Engine) (task : Nat) (t : Task) : Engine :=
  match t.kind with
  | .worker pool backoff =>
    match t.state with
    | .handling lease signal =>
      let lost := (e.pools[pool]?).any (·.registry.isFired signal)
      let outcome := if lost then Outcome.abandoned else .succeeded
      match e.onPool pool (Worker.finish lease outcome) with
      | some (_, e) => e.work task t.group pool e.workFuel backoff
      | none => e
    | _ => e.work task t.group pool e.workFuel backoff
  | .duty pool duty =>
    if e.isStopping t.group then e.finish task t.group
    else
      let (goesOn, e) := e.pass pool duty
      if goesOn then e.wait task t.kind (.sleeping (e.time + e.period pool duty))
      else e.crash task
  | .scheduler site =>
    if e.isStopping t.group then e.finish task t.group
    else
      let interval := max 1 (((e.schedulers[site]?).map (·.interval)).getD 1)
      let e := ((e.tick site).map (·.2)).getD e
      e.wait task t.kind (.sleeping (e.time + interval))
  | .tracked .done => e.finish task t.group
  | .tracked .panic => e.crash task
  | .tracked .wait =>
    if e.isStopping t.group then e.finish task t.group else e.wait task t.kind .waiting

/-- Let tasks go on by turns, for at most `fuel` turns. -/
def settleWithin : (fuel : Nat) → Engine → Engine
  | 0, e => e
  | fuel + 1, e =>
    match e.queue with
    | [] => e
    | task :: queue =>
      let e := { e with queue }
      match e.tasks[task]? with
      | some t => settleWithin fuel (e.resume task t)
      | none => settleWithin fuel e

/-- Let tasks go on by turns until none is left. In one instant every task has a turn, and may have
another one for every task that wakes it. -/
def settle (e : Engine) : Engine :=
  e.settleWithin ((e.tasks.size + 1) * (e.tasks.size + 1))

/-- The next time at which a task wakes up. -/
def nextWake? (e : Engine) : Option Nat :=
  e.tasks.foldl
    (fun best t =>
      match t.state, best with
      | .sleeping wake, none => some wake
      | .sleeping wake, some b => some (min wake b)
      | _, _ => best)
    none

/-- Set the timer, and let the tasks that sleep until then go on. -/
def moveTo (e : Engine) (time : Nat) : Engine :=
  { e with time }.wake fun t =>
    match t.state with
    | .sleeping wake => wake ≤ time
    | _ => false

/-- Move the timer up to `stop`, in at most `fuel` moves. -/
def runWithin (stop : Nat) : (fuel : Nat) → Engine → Engine
  | 0, e => e.moveTo stop
  | fuel + 1, e =>
    let e := e.settle
    match e.nextWake? with
    | some wake => if wake < stop then runWithin stop fuel (e.moveTo wake) else e.moveTo stop
    | none => e.moveTo stop

/-- Let the timer run for some milliseconds; every move takes at least one. Where there is nothing
to wait for, no task goes on. -/
def runFor (e : Engine) (ms : Nat) : Engine :=
  if ms = 0 then e else runWithin (e.time + ms) (ms + 1) e

/-- Whether every task of a group has ended. -/
def hasEnded (e : Engine) (group : Nat) : Bool :=
  e.tasks.all fun t => t.group != group || t.state == .ended

/-- The number of turns after which whoever waits for a group looks at it again. -/
def turnsPerLook : Nat := 61

/-- Wait until a group has ended, while all tasks go on; when it has ended already nothing else
goes on either. -/
def awaitGroup (group : Nat) : (fuel : Nat) → Engine → Engine
  | 0, e => e
  | fuel + 1, e =>
    if e.hasEnded group || e.queue.isEmpty then e
    else awaitGroup group fuel (e.settleWithin turnsPerLook)

/-- Stop a group and wait for its tasks. -/
def stopGroup (e : Engine) (group : Nat) : Engine :=
  let e := { e with groups := e.groups.modify group ({ · with stopping := true }) }
  let e := e.wake fun t =>
    t.group == group &&
      match t.state with
      | .sleeping _ | .waiting => true
      | _ => false
  e.awaitGroup group ((e.tasks.size + 1) * (e.tasks.size + 1))

/-- Release the handlers of a pool that are blocked now. -/
def releaseBlocked (e : Engine) (pool : Nat) : Engine :=
  e.wake fun t =>
    match t.kind, t.state with
    | .worker p _, .handling .. => p == pool
    | _, _ => false

/-- Start the workers and the duties of a pool; a pool starts once. -/
def startPool (e : Engine) (pool : Nat) : Option (Except QueueError Unit × Engine) :=
  e.pools[pool]?.map fun site =>
    if site.started then (.error .poolStarted, e)
    else
      let e := { e with pools := e.pools.modify pool ({ · with started := true }) }
      let worker : TaskKind := .worker pool { policy := site.config.backoff }
      let e := (List.range site.config.workerCount.toNat).foldl
        (fun e _ => e.spawn worker site.workers) e
      let e := [Duty.renew, .recover, .purge].foldl
        (fun e duty => e.spawn (.duty pool duty) site.background) e
      (.ok (), e)

/-- Release the blocked handlers of a pool, let the workers end, then the duties. -/
def stopPool (e : Engine) (pool : Nat) : Engine :=
  match e.pools[pool]? with
  | none => e
  | some site => ((e.releaseBlocked pool).stopGroup site.workers).stopGroup site.background

/-- Start the loop of a scheduler; it starts once. -/
def startScheduler (e : Engine) (site : Nat) : Option (Except QueueError Unit × Engine) :=
  e.schedulers[site]?.map fun s =>
    if s.started then (.error (.config .schedulerStarted), e)
    else
      let e := { e with schedulers := e.schedulers.modify site ({ · with started := true }) }
      (.ok (), e.spawn (.scheduler site) s.group)

/-- A pool with a fresh owner, if its settings are accepted. -/
def addPool (e : Engine) (config : Config) (handler : Message → Handling) :
    Except QueueError Nat × Engine :=
  match config.validate with
  | .error fault => (.error fault, e)
  | .ok () =>
    let (fresh, e) := e.draw
    let (workers, e) := e.addGroup
    let (background, e) := e.addGroup
    (.ok e.pools.size, { e with
      pools := e.pools.push
        { owner := .generate fresh, config, workers, background, handler } })

def addScheduler (e : Engine) (config : Config) : Nat × Engine :=
  let (group, e) := e.addGroup
  (e.schedulers.size, { e with
    schedulers := e.schedulers.push
      { state := .make config.eventBufferSize.toNat
        interval := config.schedulerTick.toNat
        group } })

def addMonitor (e : Engine) (config : MonitorConfig) : Nat × Engine :=
  (e.monitors.size, { e with monitors := e.monitors.push { config } })

end WorkQueue.Engine
