import Webfang.Crawler.UrlQueue
import Webfang.Library.Transition

/-!
# Crawl engine

The crawl loop of `application/crawler/engine.rs` with the per-page tasks of
`crawl_task.rs`, the collector and the checkpoint. The loop and every task move one step at
a time in any order; a run may be cancelled or the process killed between any two steps,
and the next run starts from the checkpoint file. The saves the loop awaits are steps of
their own, because tasks go on in between.
-/
namespace Webfang.Crawler

open Domain

structure CrawlerConfig where
  seedUrl : String
  /-- The verdict of the pattern filter on the seed. -/
  seedAllowed : Bool
  maxDepth : Nat
  maxPages : Nat
  concurrency : Nat
  checkpointEnabled : Bool
  checkpointInterval : Nat
  extraSeeds : List DiscoveredUrl

/-- The links a crawl may follow from the page behind a URL: internal, allowed by the
pattern filter and by robots.txt. -/
abbrev SiteGraph := String → List String

structure CrawlCheckpoint where
  visited : List String
  queued : List String
  pagesCrawled : Nat
  deriving DecidableEq, Repr

/-! ### Per-page tasks -/

inductive Outcome where
  | collected
  | filtered
  | failed
  | sessionUnavailable
  | cancelled
  | aborted
  deriving DecidableEq, Repr

/-- The page was collected, filtered by the pipeline, or counted as an error. -/
def Outcome.isFinal : Outcome → Bool
  | .collected | .filtered | .failed => true
  | .sessionUnavailable | .cancelled | .aborted => false

inductive TaskPhase where
  /-- Parked on the rate limiter. -/
  | pacing
  | fetching
  /-- Counted in `pages_crawled`; the pipeline has not decided yet. -/
  | fetched
  /-- The collector's counter is up, its message is not in the channel yet. -/
  | counted (finalUrl : String)
  | sent
  | linking (links : List String)
  | ended (outcome : Outcome)
  deriving DecidableEq, Repr

structure Task where
  url : DiscoveredUrl
  phase : TaskPhase
  deriving DecidableEq, Repr

inductive TaskMove where
  | pace
  | fetch
  | count (finalUrl : String)
  | send
  | extract (parsed : Bool)
  | push
  | finish
  | filter
  | fail
  | noSession
  /-- The rate limiter's wait observes the cancellation token. -/
  | cancel
  | panic
  deriving DecidableEq, Repr

/-- What a task's move changes outside the task. -/
inductive Effect where
  | none
  | pageCrawled
  | countResult
  | sendResult (url : DiscoveredUrl)
  | pushLink (link : DiscoveredUrl)
  | recordEnd (outcome : Outcome)
  deriving DecidableEq, Repr

def Task.finishWith (outcome : Outcome) : Option (TaskPhase × Effect) :=
  some (.ended outcome, .recordEnd outcome)

def Task.move (maxDepth : Nat) (site : SiteGraph) (cancelled : Bool) (task : Task)
    (move : TaskMove) : Option (TaskPhase × Effect) :=
  match task.phase, move with
  | .pacing, .pace => some (.fetching, .none)
  | .pacing, .noSession => Task.finishWith .sessionUnavailable
  | .pacing, .cancel => if cancelled then Task.finishWith .cancelled else none
  | .fetching, .fetch => some (.fetched, .pageCrawled)
  -- a wait for a download permit that sees the token ends like this too
  | .fetching, .fail => Task.finishWith .failed
  | .fetched, .filter => Task.finishWith .filtered
  | .fetched, .count finalUrl => some (.counted finalUrl, .countResult)
  | .counted finalUrl, .send => some (.sent, .sendResult ⟨finalUrl, task.url.depth⟩)
  -- the depth gate comes before the extraction; a page that does not parse has no links
  | .sent, .extract parsed =>
    some (.linking (if maxDepth ≤ task.url.depth || !parsed then [] else site task.url.url), .none)
  | .linking (link :: links), .push =>
    some (.linking links, .pushLink ⟨link, task.url.depth + 1⟩)
  | .linking [], .finish => Task.finishWith .collected
  | .ended _, _ => none
  | _, .panic => Task.finishWith .failed
  | _, _ => none

/-! ### The engine -/

inductive AfterSave where
  | budget
  | draining
  | finished
  deriving DecidableEq, Repr

inductive Phase where
  /-- No run is active. -/
  | idle
  | head
  | checkBudget
  | joining
  | recheck
  | drain
  | periodic
  | budget
  /-- Up to `remaining` spawns; `collected` is the count the round read. -/
  | spawning (collected remaining : Nat)
  | waiting
  /-- No task may be spawned and work remains: one join, or the bound on the wait. -/
  | awaiting
  | draining
  | closing
  /-- The run has closed. -/
  | finished
  /-- A save: the visited set and the page counter are read before the queue. -/
  | snapshot (next : AfterSave)
  | snapshotQueue (visited : List String) (pagesCrawled : Nat) (next : AfterSave)
  | persisting (state : CrawlCheckpoint) (next : AfterSave)
  deriving DecidableEq, Repr

def AfterSave.phase : AfterSave → Phase
  | .budget => .budget
  | .draining => .draining
  | .finished => .finished

structure Engine where
  phase : Phase
  scheduler : CrawlScheduler
  tasks : List Task
  counter : Nat
  results : List DiscoveredUrl
  pagesCrawled : Nat
  shutdown : Bool
  cancelled : Bool
  /-- The checkpoint file. It outlives the run. -/
  file : Option CrawlCheckpoint
  /-- History: the visited URLs and the frontier this run restored, what it dispatched and how
  its tasks ended, and the URLs that any run so far has finished. -/
  restored : List String
  requeued : List DiscoveredUrl
  dispatched : List DiscoveredUrl
  endings : List (String × Outcome)
  finished : List String

def Engine.initial (config : CrawlerConfig) : Engine where
  phase := .idle
  scheduler := .new config.concurrency
  tasks := []
  counter := 0
  results := []
  pagesCrawled := 0
  shutdown := false
  cancelled := false
  file := none
  restored := []
  requeued := []
  dispatched := []
  endings := []
  finished := []

inductive Event where
  | start
  | kill
  /-- A termination signal raises the shutdown flag; its handler fires the token next. -/
  | signal
  /-- The cancellation token fires, by the handler or through a handle. -/
  | cancel
  | setLevel (level : ConcurrencyLevel)
  | task (index : Nat) (move : TaskMove)
  /-- The loop moves on from its phase. -/
  | advance
  /-- A join returns the task at this position, which has ended. -/
  | join (index : Nat)
  /-- The awaited join times out, or finds no task. -/
  | giveUp
  /-- The drain timed out and this task is aborted. -/
  | abort (index : Nat)
  /-- The save reaches the disk, or fails. -/
  | persisted (written : Bool)
  deriving DecidableEq, Repr

namespace Engine

variable (crates : UrlCrates) (config : CrawlerConfig)

def isFull (engine : Engine) : Bool := config.maxPages ≤ engine.counter

/-- The checkpoint a run starts from. -/
def checkpointState (engine : Engine) : Option CrawlCheckpoint :=
  if config.checkpointEnabled then engine.file else none

/-- A fresh scheduler with the visited set and the frontier of the checkpoint. -/
def restoreCheckpointState (engine : Engine) : CrawlScheduler :=
  match engine.checkpointState config with
  | none => .new config.concurrency
  | some checkpoint =>
    ((CrawlScheduler.new config.concurrency).restoreVisited crates checkpoint.visited).restorePending
      crates checkpoint.queued

/-- `run` up to the loop: restore, seed, then the extra seeds of a sitemap. -/
def begin (engine : Engine) : Engine :=
  let restored := engine.restoreCheckpointState crates config
  let seeded := restored.seed crates config.seedUrl
  let ready := config.extraSeeds.foldl (fun s url => s.push crates url .sitemap) seeded
  { engine with
    -- a seed that the filter rejects ends the run before its first task
    phase := if config.seedAllowed then .head else .idle
    scheduler := ready
    tasks := []
    counter := 0
    results := []
    pagesCrawled := ((engine.checkpointState config).map CrawlCheckpoint.pagesCrawled).getD 0
    shutdown := false
    cancelled := false
    restored := restored.visitedUrls
    requeued := restored.pending
    dispatched := []
    endings := [] }

def setPhase (engine : Engine) (index : Nat) (task : Task) (phase : TaskPhase) : Engine :=
  { engine with tasks := engine.tasks.set index { task with phase } }

def recordEnd (engine : Engine) (url : String) (outcome : Outcome) : Engine :=
  { engine with
    endings := engine.endings ++ [(url, outcome)]
    finished := if outcome.isFinal then engine.finished ++ [url] else engine.finished }

def perform (engine : Engine) (task : Task) : Effect → Engine
  | .none => engine
  | .pageCrawled => { engine with pagesCrawled := engine.pagesCrawled + 1 }
  | .countResult => { engine with counter := engine.counter + 1 }
  | .sendResult url => { engine with results := engine.results ++ [url] }
  | .pushLink link => { engine with scheduler := engine.scheduler.push crates link .link }
  | .recordEnd outcome => engine.recordEnd task.url.url outcome

def taskStep (site : SiteGraph) (engine : Engine) (index : Nat) (move : TaskMove) :
    Option Engine :=
  engine.tasks[index]?.bind fun task =>
    (task.move config.maxDepth site engine.cancelled move).map fun (phase, effect) =>
      (engine.setPhase index task phase).perform crates task effect

def remainingBudget (maxPages collected inFlight : Nat) : Nat := maxPages - (collected + inFlight)

/-- One iteration of `spawn_available_tasks`. -/
def spawn (engine : Engine) (collected remaining : Nat) : Engine :=
  match remaining with
  | 0 => { engine with phase := .waiting }
  | remaining + 1 =>
    match engine.scheduler.nextUrl crates engine.tasks.length with
    | (scheduler, none) => { engine with scheduler, phase := .waiting }
    | (scheduler, some discovered) =>
      { engine with
        scheduler
        phase := .spawning collected remaining
        tasks := engine.tasks ++ [⟨discovered, .pacing⟩]
        dispatched := engine.dispatched ++ [discovered] }

/-- What a step of the loop changes when it moves no URL. -/
structure Control where
  phase : Phase
  cancelled : Bool
  file : Option CrawlCheckpoint

def goto (engine : Engine) (phase : Phase) : Option Control :=
  some ⟨phase, engine.cancelled, engine.file⟩

/-- Leave the loop with the token fired, by way of a save or not. -/
def stop (engine : Engine) (phase : Phase) : Option Control := some ⟨phase, true, engine.file⟩

/-- The steps of the loop that test, read or save. -/
def control (engine : Engine) : Option Control :=
  match engine.phase with
  | .head =>
    if !engine.scheduler.hasPendingWork && engine.tasks.isEmpty then engine.goto .draining
    else if engine.shutdown then engine.stop (.snapshot .draining)
    else engine.goto .checkBudget
  | .checkBudget => if engine.isFull config then engine.stop .draining else engine.goto .joining
  -- a task that ends after the poll is joined in a later round
  | .joining => engine.goto .recheck
  | .recheck => if engine.isFull config then engine.stop .draining else engine.goto .drain
  | .periodic =>
    if config.checkpointInterval = 0 ∨ engine.pagesCrawled = 0 ∨
        engine.pagesCrawled % config.checkpointInterval ≠ 0 then engine.goto .budget
    else engine.goto (.snapshot .budget)
  | .budget =>
    engine.goto (.spawning engine.counter
      (remainingBudget config.maxPages engine.counter engine.tasks.length))
  | .waiting =>
    if engine.scheduler.canSpawn engine.tasks.length || !engine.scheduler.hasPendingWork then
      engine.goto .head
    else engine.goto .awaiting
  | .draining => if engine.tasks.isEmpty then engine.goto .closing else none
  | .closing =>
    let completedFully :=
      !engine.shutdown && !engine.scheduler.hasPendingWork && !engine.isFull config
    if !config.checkpointEnabled then engine.goto .finished
    else if completedFully then some ⟨.finished, engine.cancelled, none⟩
    else engine.goto (.snapshot .finished)
  | .snapshot next =>
    if config.checkpointEnabled then
      engine.goto (.snapshotQueue engine.scheduler.visitedUrls engine.pagesCrawled next)
    else engine.goto next.phase
  | .snapshotQueue visited pagesCrawled next =>
    engine.goto (.persisting
      { visited
        queued := engine.scheduler.snapshotPendingBounded config.maxPages
        pagesCrawled } next)
  | .idle | .finished | .awaiting | .drain | .spawning _ _ | .persisting _ _ => none

/-- The step of the loop out of a phase that waits for nothing. -/
def advance (engine : Engine) : Option Engine :=
  match engine.phase with
  | .drain =>
    some { engine with scheduler := engine.scheduler.drainDiscovered, phase := .periodic }
  | .spawning collected remaining => some (engine.spawn crates collected remaining)
  | _ =>
    (engine.control config).map fun control =>
      { engine with
        phase := control.phase
        cancelled := control.cancelled
        file := control.file }

def hasEnded (task : Task) : Bool :=
  match task.phase with
  | .ended _ => true
  | _ => false

def phaseAfterJoin : Phase → Option Phase
  | .joining => some .joining
  | .awaiting => some .head
  | .draining => some .draining
  | _ => none

def join (engine : Engine) (index : Nat) : Option Engine :=
  (phaseAfterJoin engine.phase).bind fun phase =>
    engine.tasks[index]?.bind fun task =>
      if hasEnded task then some { engine with tasks := engine.tasks.eraseIdx index, phase }
      else none

def abort (engine : Engine) (index : Nat) : Option Engine :=
  if engine.phase = .draining then
    engine.tasks[index]?.bind fun task =>
      if hasEnded task then none
      else some ((engine.setPhase index task (.ended .aborted)).recordEnd task.url.url .aborted)
  else none

def persisted (engine : Engine) (written : Bool) : Option Engine :=
  match engine.phase with
  | .persisting state next =>
    some { engine with
      file := if written then some state else engine.file
      phase := next.phase }
  | _ => none

def step (site : SiteGraph) (engine : Engine) : Event → Option Engine
  | .start =>
    if engine.phase = .idle ∨ engine.phase = .finished then some (engine.begin crates config)
    else none
  | .kill => some { engine with phase := .idle, tasks := [] }
  | .signal => some { engine with shutdown := true }
  | .cancel => some { engine with cancelled := true }
  | .setLevel level => some { engine with scheduler := { engine.scheduler with level } }
  | .task index move => engine.taskStep crates config site index move
  | .advance => engine.advance crates config
  | .join index => engine.join index
  | .giveUp => if engine.phase = .awaiting then some { engine with phase := .head } else none
  | .abort index => engine.abort index
  | .persisted written => engine.persisted written

variable {crates config}

theorem advance_cases {engine next : Engine} (taken : engine.advance crates config = some next) :
    (engine.phase = .drain ∧
      next = { engine with
        scheduler := engine.scheduler.drainDiscovered, phase := .periodic }) ∨
    (∃ collected remaining, engine.phase = .spawning collected remaining ∧
      next = engine.spawn crates collected remaining) ∨
    ∃ control, engine.control config = some control ∧
      next = { engine with
        phase := control.phase
        cancelled := control.cancelled
        file := control.file } := by
  unfold advance at taken
  split at taken
  next here => exact .inl ⟨here, by cases taken; rfl⟩
  next collected remaining here => exact .inr (.inl ⟨collected, remaining, here, by cases taken; rfl⟩)
  next =>
    obtain ⟨control, moved, rfl⟩ := Option.map_eq_some_iff.mp taken
    exact .inr (.inr ⟨control, moved, rfl⟩)

variable (crates) in
/-- A spawn ends the round, without or after asking the scheduler, or adds one task. -/
theorem spawn_cases (engine : Engine) (collected remaining : Nat) :
    engine.spawn crates collected remaining = { engine with phase := .waiting } ∨
    (∃ scheduler, engine.scheduler.nextUrl crates engine.tasks.length = (scheduler, none) ∧
      engine.spawn crates collected remaining = { engine with scheduler, phase := .waiting }) ∨
    ∃ left scheduler discovered, remaining = left + 1 ∧
      engine.scheduler.nextUrl crates engine.tasks.length = (scheduler, some discovered) ∧
      engine.spawn crates collected remaining = { engine with
        scheduler
        phase := .spawning collected left
        tasks := engine.tasks ++ [⟨discovered, .pacing⟩]
        dispatched := engine.dispatched ++ [discovered] } := by
  cases remaining with
  | zero => exact .inl rfl
  | succ left =>
    rw [spawn]
    split
    next scheduler none => exact .inr (.inl ⟨scheduler, none, rfl⟩)
    next scheduler discovered handed =>
      exact .inr (.inr ⟨left, scheduler, discovered, rfl, handed, rfl⟩)

theorem taskStep_eq_some {site : SiteGraph} {engine next : Engine} {index : Nat} {move : TaskMove}
    (taken : engine.taskStep crates config site index move = some next) :
    ∃ task phase effect, engine.tasks[index]? = some task ∧
      task.move config.maxDepth site engine.cancelled move = some (phase, effect) ∧
      next = (engine.setPhase index task phase).perform crates task effect := by
  obtain ⟨task, found, taken⟩ := Option.bind_eq_some_iff.mp taken
  obtain ⟨⟨phase, effect⟩, moved, rfl⟩ := Option.map_eq_some_iff.mp taken
  exact ⟨task, phase, effect, found, moved, rfl⟩

theorem join_eq_some {engine next : Engine} {index : Nat} (taken : engine.join index = some next) :
    ∃ phase task, phaseAfterJoin engine.phase = some phase ∧ engine.tasks[index]? = some task ∧
      hasEnded task = true ∧ next = { engine with tasks := engine.tasks.eraseIdx index, phase } := by
  obtain ⟨phase, joins, taken⟩ := Option.bind_eq_some_iff.mp taken
  obtain ⟨task, found, taken⟩ := Option.bind_eq_some_iff.mp taken
  split at taken
  next ended =>
    cases taken
    exact ⟨phase, task, joins, found, ended, rfl⟩
  next => cases taken

theorem abort_eq_some {engine next : Engine} {index : Nat}
    (taken : engine.abort index = some next) :
    ∃ task, engine.phase = .draining ∧ engine.tasks[index]? = some task ∧
      hasEnded task = false ∧
      next = (engine.setPhase index task (.ended .aborted)).recordEnd task.url.url .aborted := by
  unfold abort at taken
  split at taken
  next here =>
    obtain ⟨task, found, taken⟩ := Option.bind_eq_some_iff.mp taken
    split at taken
    next => cases taken
    next running =>
      cases taken
      exact ⟨task, here, found, by simpa using running, rfl⟩
  next => cases taken

theorem persisted_eq_some {engine next : Engine} {written : Bool}
    (taken : engine.persisted written = some next) :
    ∃ state after, engine.phase = .persisting state after ∧
      next = { engine with
        file := if written then some state else engine.file
        phase := after.phase } := by
  unfold persisted at taken
  split at taken
  next state after here =>
    cases taken
    exact ⟨state, after, here, rfl⟩
  next => cases taken

variable (crates config)

def Step (site : SiteGraph) (engine : Engine) (event : Event) (next : Engine) : Prop :=
  engine.step crates config site event = some next

variable {crates config} {site : SiteGraph}

variable (crates) in
theorem perform_dispatched (engine : Engine) (task : Task) (effect : Effect) :
    (engine.perform crates task effect).dispatched = engine.dispatched := by
  cases effect <;> rfl

/-- Only a spawn with budget left dispatches, and it dispatches what the scheduler hands
out; a new run starts over. -/
theorem step_dispatched {engine next : Engine} {event : Event}
    (taken : Step crates config site engine event next) :
    next.dispatched = engine.dispatched ∨ (event = .start ∧ next.dispatched = []) ∨
    ∃ collected remaining scheduler discovered,
      engine.phase = .spawning collected (remaining + 1) ∧
      engine.scheduler.nextUrl crates engine.tasks.length = (scheduler, some discovered) ∧
      next = { engine with
        scheduler
        phase := .spawning collected remaining
        tasks := engine.tasks ++ [⟨discovered, .pacing⟩]
        dispatched := engine.dispatched ++ [discovered] } := by
  cases event with
  | start =>
    simp only [Step, step, Option.ite_none_right_eq_some] at taken
    cases taken.2
    exact .inr (.inl ⟨rfl, rfl⟩)
  | kill | signal | cancel | setLevel _ =>
    cases taken
    exact .inl rfl
  | task index move =>
    -- a task touches the collector, the queue or its own phase
    obtain ⟨task, phase, effect, -, -, rfl⟩ := taskStep_eq_some taken
    exact .inl (perform_dispatched crates _ task effect)
  | advance =>
    rcases advance_cases taken with
      ⟨-, rfl⟩ | ⟨collected, remaining, here, rfl⟩ | ⟨control, -, rfl⟩
    · exact .inl rfl
    -- only the last of the three ways through a spawn takes a page
    · rcases spawn_cases crates engine collected remaining with
        ended | ⟨scheduler, -, ended⟩ | ⟨left, scheduler, discovered, rfl, handed, spawned⟩
      · exact .inl (by rw [ended])
      · exact .inl (by rw [ended])
      · exact .inr (.inr ⟨collected, left, scheduler, discovered, here, handed, spawned⟩)
    · exact .inl rfl
  | join index =>
    obtain ⟨phase, task, -, -, -, rfl⟩ := join_eq_some taken
    exact .inl rfl
  | giveUp =>
    simp only [Step, step, Option.ite_none_right_eq_some] at taken
    cases taken.2
    exact .inl rfl
  | abort index =>
    obtain ⟨task, -, -, -, rfl⟩ := abort_eq_some taken
    exact .inl rfl
  | persisted written =>
    obtain ⟨state, after, -, rfl⟩ := persisted_eq_some taken
    exact .inl rfl

end Engine

end Webfang.Crawler
