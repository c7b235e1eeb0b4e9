import Webfang.Library.Transition

/-!
# Batch manager

`BatchManager::process_all_cancellable` of `application/batch/manager.rs` and the
`BatchProcessor::process_batch_cancellable` it calls for each job. The dispatch loop looks at the
token, then waits for a permit, then spawns; tasks end on their own; the results are joined once
the loop is over. The progress counters belong to the manager's jobs and outlive a run.
-/
namespace Webfang.Batch

open Library

/-- The counters behind the `Arc` of a job and its clones. -/
structure BatchProgress where
  total : Nat
  completed : Nat
  failed : Nat
  inProgress : Nat
  deriving DecidableEq, Repr

namespace BatchProgress

def new (total : Nat) : BatchProgress := ⟨total, 0, 0, 0⟩

def startOne (progress : BatchProgress) : BatchProgress :=
  { progress with inProgress := progress.inProgress + 1 }

def completeOne (progress : BatchProgress) : BatchProgress :=
  { progress with inProgress := progress.inProgress - 1, completed := progress.completed + 1 }

def failOne (progress : BatchProgress) : BatchProgress :=
  { progress with inProgress := progress.inProgress - 1, failed := progress.failed + 1 }

end BatchProgress

structure BatchJob where
  id : String
  urls : List String
  progress : BatchProgress
  deriving DecidableEq, Repr

def BatchJob.new (id : String) (urls : List String) : BatchJob :=
  ⟨id, urls, BatchProgress.new urls.length⟩

/-- What a spawned crawl comes to: a crawl error and a panic carry their text. -/
inductive TaskEnd where
  | ok
  | error (message : String)
  | panic (message : String)
  deriving DecidableEq, Repr

/-- The errors of a batch result: that of a crawl, or an internal one for a panic. -/
inductive ScraperError where
  | crawl (message : String)
  | internal (message : String)
  deriving DecidableEq, Repr

inductive BatchError where
  | emptyBatch
  deriving DecidableEq, Repr

structure BatchResult where
  jobId : String
  total : Nat
  succeeded : Nat
  failed : Nat
  errors : List (String × ScraperError)
  deriving DecidableEq, Repr

/-- A call of `process_batch_cancellable` under way. The last two fields record what it
dispatched and what it counted. -/
structure BatchCall where
  job : Nat
  remaining : List String
  /-- The URL that passed the token check and waits for its permit. -/
  waiting : Option String
  /-- The dispatch loop is over and results are joined. -/
  collecting : Bool
  running : List String
  /-- Tasks that ended and are not joined yet. -/
  ended : List (String × TaskEnd)
  errors : List (String × ScraperError)
  dispatched : List String
  counted : List (String × TaskEnd)
  deriving DecidableEq, Repr

inductive Phase where
  | idle
  | atJob (index : Nat)
  | inBatch (batch : BatchCall)
  deriving DecidableEq, Repr

/-- A finished batch: what it dispatched, what it counted and what it returned. -/
structure Report where
  dispatched : List String
  counted : List (String × TaskEnd)
  result : BatchResult
  deriving DecidableEq, Repr

structure BatchManager where
  jobs : List BatchJob
  /-- Free permits of the processor's semaphore. -/
  available : Nat
  /-- The token of the run has fired. -/
  cancelled : Bool
  phase : Phase
  results : List (Except BatchError BatchResult)
  /-- The finished batches of all runs. -/
  reports : List Report
  /-- What was dispatched with the token already fired. -/
  late : List String

inductive Event where
  /-- `process_all_cancellable` is called; its token may have fired before. -/
  | run (fired : Bool)
  | cancel
  | advance
  | taskEnds (index : Nat) (outcome : TaskEnd)
  | join (index : Nat)
  deriving DecidableEq, Repr

namespace BatchManager

def new (maxConcurrent : Nat) (jobs : List BatchJob) : BatchManager where
  jobs := jobs
  available := maxConcurrent
  cancelled := false
  phase := .idle
  results := []
  reports := []
  late := []

def updateProgress (manager : BatchManager) (job : Nat) (update : BatchProgress → BatchProgress) :
    BatchManager :=
  { manager with
    jobs := manager.jobs.modify job fun job => { job with progress := update job.progress } }

/-- The turn of the loop over the jobs. -/
def takeUp (manager : BatchManager) (index : Nat) : BatchManager :=
  if manager.cancelled then { manager with phase := .idle }
  else
    match manager.jobs[index]? with
    | none => { manager with phase := .idle }
    | some job =>
      if job.urls.isEmpty then
        { manager with
          results := manager.results ++ [.error .emptyBatch]
          phase := .atJob (index + 1) }
      else
        { manager with
          phase := .inBatch {
            job := index, remaining := job.urls, waiting := none, collecting := false,
            running := [], ended := [], errors := [], dispatched := [], counted := [] } }

/-- The permit is there: the URL is counted as started and its task spawned. -/
def dispatch (manager : BatchManager) (batch : BatchCall) (url : String) : BatchManager :=
  { manager.updateProgress batch.job BatchProgress.startOne with
    available := manager.available - 1
    late := if manager.cancelled then manager.late ++ [url] else manager.late
    phase := .inBatch { batch with
      waiting := none
      running := batch.running ++ [url]
      dispatched := batch.dispatched ++ [url] } }

/-- Every task is joined: the counters are read into the result. -/
def finish (manager : BatchManager) (batch : BatchCall) : Option BatchManager :=
  (manager.jobs[batch.job]?).map fun job =>
    let result : BatchResult := {
      jobId := job.id
      total := job.progress.total
      succeeded := job.progress.completed
      failed := job.progress.failed
      errors := batch.errors }
    { manager with
      phase := .atJob (batch.job + 1)
      results := manager.results ++ [.ok result]
      reports := manager.reports ++ [⟨batch.dispatched, batch.counted, result⟩] }

/-- The next step of the dispatch loop, or the end of the join loop. -/
def advanceBatch (manager : BatchManager) (batch : BatchCall) : Option BatchManager :=
  if batch.collecting then
    if batch.running.isEmpty && batch.ended.isEmpty then manager.finish batch else none
  else
    match batch.waiting with
    | some url => if manager.available = 0 then none else some (manager.dispatch batch url)
    | none =>
      match batch.remaining with
      | [] => some { manager with phase := .inBatch { batch with collecting := true } }
      | url :: rest =>
        if manager.cancelled then
          some { manager with phase := .inBatch { batch with collecting := true } }
        else
          some { manager with
            phase := .inBatch { batch with waiting := some url, remaining := rest } }

def advance (manager : BatchManager) : Option BatchManager :=
  match manager.phase with
  | .idle => none
  | .atJob index => some (manager.takeUp index)
  | .inBatch batch => manager.advanceBatch batch

def taskEnds (manager : BatchManager) (index : Nat) (outcome : TaskEnd) : Option BatchManager :=
  match manager.phase with
  | .inBatch batch =>
    (batch.running[index]?).map fun url =>
      { manager with
        available := manager.available + 1
        phase := .inBatch { batch with
          running := batch.running.eraseIdx index
          ended := batch.ended ++ [(url, outcome)] } }
  | _ => none

/-- A turn of the join loop. A panicked task no longer knows its URL. -/
def count (manager : BatchManager) (batch : BatchCall) (url : String) (outcome : TaskEnd) :
    BatchManager × List (String × ScraperError) :=
  match outcome with
  | .ok => (manager.updateProgress batch.job BatchProgress.completeOne, batch.errors)
  | .error message =>
    (manager.updateProgress batch.job BatchProgress.failOne,
      batch.errors ++ [(url, .crawl message)])
  | .panic message =>
    (manager.updateProgress batch.job BatchProgress.failOne,
      batch.errors ++ [("unknown", .internal ("task-panic: " ++ message))])

/-- `join_next` hands out any task that has ended. -/
def join (manager : BatchManager) (index : Nat) : Option BatchManager :=
  match manager.phase with
  | .inBatch batch =>
    if batch.collecting then
      (batch.ended[index]?).map fun (url, outcome) =>
        let counted := manager.count batch url outcome
        { counted.1 with
          phase := .inBatch { batch with
            ended := batch.ended.eraseIdx index
            errors := counted.2
            counted := batch.counted ++ [(url, outcome)] } }
    else none
  | _ => none

def step (manager : BatchManager) : Event → Option BatchManager
  | .run fired =>
    if manager.phase = .idle then
      some { manager with cancelled := fired, results := [], phase := .atJob 0 }
    else none
  | .cancel => some { manager with cancelled := true }
  | .advance => manager.advance
  | .taskEnds index outcome => manager.taskEnds index outcome
  | .join index => manager.join index

def Step (manager : BatchManager) (event : Event) (next : BatchManager) : Prop :=
  manager.step event = some next

end BatchManager

end Webfang.Batch
