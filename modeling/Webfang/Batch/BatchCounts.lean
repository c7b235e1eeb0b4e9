import Mathlib.Data.List.Perm.Basic
import Webfang.Batch.BatchManager

/-!
# The counts of a batch

What a batch result says against what its run did. The counters of a job start at zero in the
first run that takes it up and at the last run's sums in any later one; the token is read before
the wait for a permit and not after it. Away from these two the counts are exact.
-/
namespace Webfang.Batch

open Library

def TaskEnd.isOk : TaskEnd → Bool
  | .ok => true
  | _ => false

/-- The tasks counted so far that succeeded, and those that did not. -/
def okCount (counted : List (String × TaskEnd)) : Nat := counted.countP fun task => task.2.isOk

def failCount (counted : List (String × TaskEnd)) : Nat := counted.countP fun task => !task.2.isOk

/-- What the result of a batch is to say. -/
structure Report.Exact (report : Report) : Prop where
  /-- Every dispatched URL is counted exactly once. -/
  countedOnce : (report.counted.map Prod.fst).Perm report.dispatched
  sum : report.result.succeeded + report.result.failed = report.dispatched.length
  atMostTotal : report.result.succeeded + report.result.failed ≤ report.result.total
  errors : report.result.failed = report.result.errors.length

namespace BatchManager

def TakesUp (manager : BatchManager) (job : BatchJob) : Prop :=
  ∃ index, manager.phase = .atJob index ∧ manager.cancelled = false ∧
    manager.jobs[index]? = some job

/-- A URL has passed the look at the token and waits for its permit. -/
def Waits (manager : BatchManager) : Prop :=
  ∃ batch, manager.phase = .inBatch batch ∧ batch.waiting ≠ none

/-- Jobs are taken up with their counters at zero, and the token does not fire during a wait. -/
def Aligned (manager : BatchManager) (event : Event) : Prop :=
  (event = .advance → ∀ job, manager.TakesUp job →
    job.progress.completed = 0 ∧ job.progress.failed = 0) ∧
  (event = .cancel → ¬ manager.Waits)

/-- What is known of a batch under way. -/
structure Tracks (jobs : List BatchJob) (cancelled : Bool) (batch : BatchCall) : Prop where
  job : ∃ job, jobs[batch.job]? = some job ∧
    job.progress.completed = okCount batch.counted ∧
    job.progress.failed = failCount batch.counted ∧
    batch.dispatched.length + batch.waiting.toList.length + batch.remaining.length ≤ job.urls.length
  errors : batch.errors.length = failCount batch.counted
  /-- A dispatched URL is running, ended or counted, and in one of them only. -/
  places : (batch.running ++ (batch.ended.map Prod.fst ++ batch.counted.map Prod.fst)).Perm
    batch.dispatched
  uncancelled : batch.waiting ≠ none → cancelled = false

structure Counted (manager : BatchManager) : Prop where
  totals : ∀ job ∈ manager.jobs, job.progress.total = job.urls.length
  batch : ∀ batch, manager.phase = .inBatch batch → Tracks manager.jobs manager.cancelled batch
  reports : ∀ report ∈ manager.reports, report.Exact
  late : manager.late = []

variable {manager next : BatchManager} {event : Event}

theorem new_counted {maxConcurrent : Nat} {jobs : List BatchJob}
    (totals : ∀ job ∈ jobs, job.progress.total = job.urls.length) :
    (new maxConcurrent jobs).Counted where
  totals := totals
  batch := nofun
  reports := nofun
  late := rfl

/-! ### Counters and places -/

theorem okCount_add_failCount (counted : List (String × TaskEnd)) :
    okCount counted + failCount counted = counted.length := by
  have split := List.length_eq_countP_add_countP (fun task : String × TaskEnd => task.2.isOk)
    (l := counted)
  simpa [okCount, failCount] using split.symm

theorem okCount_append (counted : List (String × TaskEnd)) (url : String) (outcome : TaskEnd) :
    okCount (counted ++ [(url, outcome)]) = okCount counted + if outcome.isOk then 1 else 0 := by
  simp [okCount, List.countP_append, List.countP_cons]

theorem failCount_append (counted : List (String × TaskEnd)) (url : String) (outcome : TaskEnd) :
    failCount (counted ++ [(url, outcome)]) = failCount counted + if outcome.isOk then 0 else 1 := by
  cases found : outcome.isOk <;> simp [failCount, List.countP_append, found]

/-- An element that leaves a list for the end of another one stays in one of them. -/
theorem perm_eraseIdx_append {α : Type} {l : List α} {index : Nat} {a : α}
    (found : l[index]? = some a) (others : List α) :
    (l.eraseIdx index ++ (others ++ [a])).Perm (l ++ others) := by
  obtain ⟨bound, rfl⟩ := List.getElem?_eq_some_iff.mp found
  rw [← List.append_assoc]
  exact (List.perm_append_singleton _ _).trans
    ((List.getElem_cons_eraseIdx_perm bound).append_right others)

theorem perm_snoc_append {α : Type} (l : List α) (a : α) (others : List α) :
    ((l ++ [a]) ++ others).Perm ((l ++ others) ++ [a]) := by
  rw [List.append_assoc, List.append_assoc]
  exact (List.perm_append_comm).append_left l

/-! ### What a step keeps -/

/-- An update of counters leaves the shape of the jobs. -/
theorem getElem?_updateProgress (manager : BatchManager) (index : Nat)
    (update : BatchProgress → BatchProgress) {job : BatchJob}
    (found : manager.jobs[index]? = some job) : (manager.updateProgress index update).jobs[index]? =
      some { job with progress := update job.progress } := by
  simp [updateProgress, found]

theorem updateProgress_totals {index : Nat} {update : BatchProgress → BatchProgress}
    (keeps : ∀ progress, (update progress).total = progress.total)
    (totals : ∀ job ∈ manager.jobs, job.progress.total = job.urls.length) :
    ∀ job ∈ (manager.updateProgress index update).jobs, job.progress.total = job.urls.length := by
  intro job member
  obtain ⟨at_, found⟩ := List.mem_iff_getElem?.mp member
  simp only [updateProgress, List.getElem?_modify] at found
  obtain ⟨before, old, rfl⟩ := Option.map_eq_some_iff.mp found
  have total := totals before (List.mem_of_getElem? old)
  split
  next => exact (keeps _).trans total
  next => exact total

/-- Counting a task raises one of the two counters, and a failure adds an error. -/
theorem count_eq (manager : BatchManager) (batch : BatchCall) (url : String) (outcome : TaskEnd) :
    ∃ update : BatchProgress → BatchProgress,
      (manager.count batch url outcome).1 = manager.updateProgress batch.job update ∧
      (∀ progress, (update progress).total = progress.total ∧
        (update progress).completed = progress.completed + (if outcome.isOk then 1 else 0) ∧
        (update progress).failed = progress.failed + if outcome.isOk then 0 else 1) ∧
      (manager.count batch url outcome).2.length =
        batch.errors.length + if outcome.isOk then 0 else 1 := by
  cases outcome with
  | ok => exact ⟨BatchProgress.completeOne, rfl, fun _ => ⟨rfl, rfl, rfl⟩, rfl⟩
  | error message =>
    exact ⟨BatchProgress.failOne, rfl, fun _ => ⟨rfl, rfl, rfl⟩, List.length_append⟩
  | panic message =>
    exact ⟨BatchProgress.failOne, rfl, fun _ => ⟨rfl, rfl, rfl⟩, List.length_append⟩

theorem takeUp_counted (counted : manager.Counted) {index : Nat} (here : manager.phase = .atJob index)
    (fresh : ∀ job, manager.TakesUp job → job.progress.completed = 0 ∧ job.progress.failed = 0) :
    (manager.takeUp index).Counted := by
  obtain ⟨totals, -, reports, late⟩ := counted
  unfold takeUp
  split
  next => exact ⟨totals, nofun, reports, late⟩
  next running =>
    split
    next => exact ⟨totals, nofun, reports, late⟩
    next job found =>
      split
      next => exact ⟨totals, nofun, reports, late⟩
      next =>
        refine ⟨totals, ?_, reports, late⟩
        rintro batch ⟨⟩
        have zero := fresh job ⟨index, here, by simpa using running, found⟩
        refine ⟨⟨job, found, zero.1, zero.2, by simp⟩, rfl, .refl _, fun waits => absurd rfl waits⟩

theorem dispatch_counted (counted : manager.Counted) {batch : BatchCall} {url : String}
    (here : manager.phase = .inBatch batch) (waits : batch.waiting = some url) :
    (manager.dispatch batch url).Counted := by
  obtain ⟨totals, tracks, reports, late⟩ := counted
  obtain ⟨⟨job, found, completed, failed, room⟩, errors, places, uncancelled⟩ := tracks batch here
  have running : manager.cancelled = false := uncancelled (by simp [waits])
  refine ⟨updateProgress_totals (fun _ => rfl) totals, ?_, reports, by simp [dispatch, running, late]⟩
  rintro _ ⟨⟩
  refine ⟨⟨_, getElem?_updateProgress manager batch.job _ found, completed, failed, ?_⟩, errors, ?_,
    fun waits => absurd rfl waits⟩
  · simp only [waits, Option.toList, List.length_append, List.length_cons, List.length_nil] at room ⊢
    omega
  · exact (perm_snoc_append _ _ _).trans (places.append_right [url])

theorem finish_counted (counted : manager.Counted) {batch : BatchCall}
    (here : manager.phase = .inBatch batch) (joined : batch.running = [] ∧ batch.ended = [])
    (taken : manager.finish batch = some next) : next.Counted := by
  obtain ⟨totals, tracks, reports, late⟩ := counted
  obtain ⟨⟨job, found, completed, failed, room⟩, errors, places, -⟩ := tracks batch here
  simp only [finish, found, Option.map_some, Option.some.injEq] at taken
  subst taken
  refine ⟨totals, nofun, ?_, late⟩
  intro report member
  rcases List.mem_append.mp member with old | new
  · exact reports report old
  · rw [List.mem_singleton.mp new]
    -- nothing runs and nothing waits to be joined, so all that was dispatched is counted
    have all : (batch.counted.map Prod.fst).Perm batch.dispatched := by
      simpa [joined.1, joined.2] using places
    have size : batch.counted.length = batch.dispatched.length := by
      simpa using all.length_eq
    have sum : job.progress.completed + job.progress.failed = batch.dispatched.length := by
      rw [completed, failed, okCount_add_failCount, size]
    have total := totals job (List.mem_of_getElem? found)
    exact ⟨all, sum, by simp only [sum, total]; omega, failed.trans errors.symm⟩

/-- The batch at hand may change where nothing else does. -/
theorem Counted.withBatch (counted : manager.Counted) {batch : BatchCall}
    (tracks : Tracks manager.jobs manager.cancelled batch) :
    { manager with phase := .inBatch batch }.Counted where
  totals := counted.totals
  batch := by
    rintro _ ⟨⟩
    exact tracks
  reports := counted.reports
  late := counted.late

theorem advanceBatch_counted (counted : manager.Counted) {batch : BatchCall}
    (here : manager.phase = .inBatch batch) (taken : manager.advanceBatch batch = some next) :
    next.Counted := by
  have tracks := counted.batch batch here
  unfold advanceBatch at taken
  split at taken
  next =>
    -- the URLs are used up: the batch ends once every task is joined
    split at taken
    next done =>
      simp only [Bool.and_eq_true, List.isEmpty_iff] at done
      exact finish_counted counted here done taken
    next => cases taken
  next =>
    split at taken
    next url waits =>
      split at taken
      next => cases taken
      next =>
        cases taken
        exact dispatch_counted counted here waits
    next free =>
      obtain ⟨⟨job, found, completed, failed, room⟩, errors, places, uncancelled⟩ := tracks
      split at taken
      next none_left =>
        cases taken
        exact counted.withBatch ⟨⟨job, found, completed, failed, room⟩, errors, places, uncancelled⟩
      next url rest more =>
        split at taken
        next =>
          -- the token has fired: the rest of the job is left
          cases taken
          exact counted.withBatch ⟨⟨job, found, completed, failed, room⟩, errors, places, uncancelled⟩
        next unfired =>
          cases taken
          refine counted.withBatch ⟨⟨job, found, completed, failed, ?_⟩, errors, places,
            fun _ => by simpa using unfired⟩
          -- the URL at hand came off the front of the rest
          simp only [free, more, Option.toList, List.length_cons, List.length_nil] at room ⊢
          omega

theorem taskEnds_counted (counted : manager.Counted) {index : Nat} {outcome : TaskEnd}
    (taken : manager.taskEnds index outcome = some next) : next.Counted := by
  unfold taskEnds at taken
  split at taken
  next batch here =>
    obtain ⟨url, found, rfl⟩ := Option.map_eq_some_iff.mp taken
    obtain ⟨job, errors, places, uncancelled⟩ := counted.batch batch here
    refine ⟨counted.totals, ?_, counted.reports, counted.late⟩
    rintro _ ⟨⟩
    refine ⟨job, errors, .trans ?_ places, uncancelled⟩
    rw [List.map_append]
    have behind : ((batch.ended.map Prod.fst ++ [url]) ++ batch.counted.map Prod.fst).Perm
        ((batch.ended.map Prod.fst ++ batch.counted.map Prod.fst) ++ [url]) :=
      perm_snoc_append _ _ _
    exact (behind.append_left _).trans (perm_eraseIdx_append found _)
  next => cases taken

theorem join_counted (counted : manager.Counted) {index : Nat}
    (taken : manager.join index = some next) : next.Counted := by
  unfold join at taken
  split at taken
  next batch here =>
    split at taken
    next =>
      obtain ⟨⟨url, outcome⟩, found, rfl⟩ := Option.map_eq_some_iff.mp taken
      obtain ⟨⟨job, atJob, completed, failed, room⟩, errors, places, uncancelled⟩ :=
        counted.batch batch here
      obtain ⟨update, raised, raises, failures⟩ := count_eq manager batch url outcome
      have jobs : (manager.count batch url outcome).1.jobs =
          (manager.updateProgress batch.job update).jobs := by rw [raised]
      have rest : (manager.count batch url outcome).1.cancelled = manager.cancelled ∧
          (manager.count batch url outcome).1.reports = manager.reports ∧
          (manager.count batch url outcome).1.late = manager.late := by
        rw [raised]
        exact ⟨rfl, rfl, rfl⟩
      refine ⟨?_, ?_, by simpa only [rest.2.1] using counted.reports,
        by simpa only [rest.2.2] using counted.late⟩
      · simp only [jobs]
        exact updateProgress_totals (fun progress => (raises progress).1) counted.totals
      · rintro _ ⟨⟩
        refine ⟨⟨{ job with progress := update job.progress }, ?_, ?_, ?_, room⟩, ?_, ?_, ?_⟩
        · simp only [jobs]
          exact getElem?_updateProgress manager batch.job update atJob
        · simp only [(raises _).2.1, completed, okCount_append]
        · simp only [(raises _).2.2, failed, failCount_append]
        · simp only [failures, errors, failCount_append]
        · -- the URL goes from the ended tasks to the counted ones
          have left : (batch.ended.map Prod.fst)[index]? = some url := by simp [found]
          have moved := perm_eraseIdx_append left (batch.counted.map Prod.fst)
          rw [List.eraseIdx_map] at moved
          simp only [List.map_append, List.map_cons, List.map_nil]
          exact (moved.append_left _).trans places
        · simpa only [rest.1] using uncancelled
    next => cases taken
  next => cases taken

theorem step_counted (counted : manager.Counted) (met : manager.Aligned event)
    (taken : Step manager event next) : next.Counted := by
  cases event with
  | run fired =>
    simp only [Step, step, Option.ite_none_right_eq_some] at taken
    cases taken.2
    exact ⟨counted.totals, nofun, counted.reports, counted.late⟩
  | cancel =>
    cases taken
    refine ⟨counted.totals, fun batch here => ?_, counted.reports, counted.late⟩
    obtain ⟨job, errors, places, -⟩ := counted.batch batch here
    exact ⟨job, errors, places, fun waits => absurd ⟨batch, here, waits⟩ (met.2 rfl)⟩
  | advance =>
    simp only [Step, step, advance] at taken
    split at taken
    next => cases taken
    next index here =>
      cases taken
      exact takeUp_counted counted here (met.1 rfl)
    next batch here => exact advanceBatch_counted counted here taken
  | taskEnds index outcome => exact taskEnds_counted counted taken
  | join index => exact join_counted counted taken

/-- A manager of fresh jobs, each given by its name and its URLs. -/
def ofJobs (maxConcurrent : Nat) (jobs : List (String × List String)) : BatchManager :=
  new maxConcurrent (jobs.map fun (id, urls) => BatchJob.new id urls)

/-- In a run whose jobs are taken up with counters at zero and whose token never fires during a
wait, nothing is dispatched after the token fired and every result says what its batch did. -/
theorem aligned_runs_count {maxConcurrent : Nat} {jobs : List (String × List String)}
    (reached : Reachable Step Aligned (ofJobs maxConcurrent jobs) manager) :
    manager.late = [] ∧ ∀ report ∈ manager.reports, report.Exact := by
  have totals : ∀ job ∈ jobs.map fun (id, urls) => BatchJob.new id urls,
      job.progress.total = job.urls.length := by
    intro job member
    obtain ⟨_, _, rfl⟩ := List.mem_map.mp member
    rfl
  have counted : manager.Counted :=
    reached.invariant (new_counted totals) fun _ _ _ counted met taken =>
      step_counted counted met taken
  exact ⟨counted.late, counted.reports⟩

/-- `Aligned`, as a check of the step to come. -/
def aligned (manager : BatchManager) (event : Event) : Bool :=
  match event, manager.phase with
  | .advance, .atJob index =>
    manager.cancelled || (manager.jobs[index]?).all fun job =>
      job.progress.completed == 0 && job.progress.failed == 0
  | .cancel, .inBatch batch => batch.waiting.isNone
  | _, _ => true

theorem aligned_sound (manager : BatchManager) (event : Event)
    (checked : manager.aligned event = true) : manager.Aligned event := by
  constructor
  · rintro rfl job ⟨index, here, running, found⟩
    simpa [aligned, here, running, found] using checked
  · rintro rfl ⟨batch, here, waits⟩
    cases waiting : batch.waiting with
    | none => exact waits waiting
    | some url => simp [aligned, here, waiting] at checked

end BatchManager

/-! ### Two pages, one permit -/

namespace TwoPages

open BatchManager

def manager : BatchManager :=
  ofJobs 1 [("batch-all", ["https://example.com/a", "https://example.com/b"])]

/-- A run in which the second page fails. -/
def wholeRun : List Event := [
  .run false, .advance, .advance, .advance, .advance, .taskEnds 0 .ok, .advance,
  .taskEnds 0 (.error "HTTP 404"), .advance, .join 1, .join 0, .advance, .advance]

def alignedRun : Option BatchManager :=
  runEvents (fun s e => if s.aligned e then s.step e else none) manager wholeRun

/-- The token fires while the second page waits for the permit of the first. -/
def firesInWait : List Event := [
  .run false, .advance, .advance, .advance, .advance, .cancel, .taskEnds 0 .ok, .advance]

end TwoPages

open TwoPages in
theorem BatchManager.aligned_runs_count_two_pages :
    ∃ last, alignedRun = some last ∧ last.reports.length = 1 ∧
      last.late = [] ∧ ∀ report ∈ last.reports, report.Exact := by
  have view : alignedRun.map (fun last => last.reports.length) = some 1 := by decide
  obtain ⟨last, ran, size⟩ := Option.map_eq_some_iff.mp view
  have reached : Reachable Step Aligned TwoPages.manager last :=
    Reachable.run_checked .start aligned_sound ran
  exact ⟨last, ran, size, aligned_runs_count reached⟩

open TwoPages in
/-- A wait that the token fires in ends in a dispatch, and a second run of the manager reports
the sums of both. -/
theorem counts_outlive_their_run :
    (runEvents BatchManager.step TwoPages.manager firesInWait).map BatchManager.late =
        some ["https://example.com/b"] ∧
      (runEvents BatchManager.step TwoPages.manager (wholeRun ++ wholeRun)).map (fun last =>
        last.reports.map fun report => (report.dispatched.length,
          report.result.succeeded + report.result.failed, report.result.total,
          report.result.failed, report.result.errors.length)) =
        some [(2, 2, 2, 1, 1), (2, 4, 2, 2, 1)] := by
  decide

end Webfang.Batch
