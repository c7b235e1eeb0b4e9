import Webfang.Crawler.Scheduling

/-!
# Checkpoint soundness

A URL enters the visited set when it is handed out, so a checkpoint that is read while a
page is in flight, or after a task was cancelled, lists a page that never finished. Where
every save starts with all pages of the run finished, the visited list of every checkpoint
is a list of finished pages, across any number of runs.
-/
namespace Webfang.Crawler

open Library Domain

namespace Engine

/-- Nothing is in flight, and no page of this run ended cancelled, aborted or without a
session. -/
def Settled (engine : Engine) : Prop :=
  (∀ task ∈ engine.tasks, hasEnded task = true) ∧
    ∀ ending ∈ engine.endings, ending.2.isFinal = true

/-- A save reads the visited set of a settled run. -/
def SavesSettled (config : CrawlerConfig) (engine : Engine) (event : Event) : Prop :=
  ∀ next, event = .advance → engine.phase = .snapshot next → config.checkpointEnabled = true →
    engine.Settled

/-- The page is in flight, or its task has ended in this run. -/
def Accounted (engine : Engine) (discovered : DiscoveredUrl) : Prop :=
  (∃ task ∈ engine.tasks, task.url = discovered ∧ hasEnded task = false) ∨
    ∃ outcome, (discovered.url, outcome) ∈ engine.endings

/-- While a run is active, every page it handed out is accounted for. -/
structure Ledger (engine : Engine) : Prop where
  final : ∀ ending ∈ engine.endings, ending.2.isFinal = true → ending.1 ∈ engine.finished
  dispatched : engine.phase ≠ .idle → ∀ discovered ∈ engine.dispatched,
    engine.Accounted discovered

variable {crates : UrlCrates} {config : CrawlerConfig} {site : SiteGraph}
variable {engine next : Engine} {event : Event}

/-! ### Tasks and their endings -/

theorem move_ends {maxDepth : Nat} {cancelled : Bool} {task : Task} {move : TaskMove}
    {phase : TaskPhase} {effect : Effect}
    (moved : task.move maxDepth site cancelled move = some (phase, effect)) :
    hasEnded task = false ∧
      ((∃ outcome, phase = .ended outcome ∧ effect = .recordEnd outcome) ∨
        hasEnded { task with phase } = false ∧ ∀ outcome, effect ≠ .recordEnd outcome) := by
  unfold Task.move Task.finishWith at moved
  split at moved
  all_goals first
    | cases moved
    | (split at moved <;> cases moved)
  all_goals simp_all [hasEnded]

theorem recordEnd_finished (url : String) (outcome : Outcome) {page : String}
    (member : page ∈ engine.finished) : page ∈ (engine.recordEnd url outcome).finished := by
  rw [recordEnd]
  split
  · exact List.mem_append_left _ member
  · exact member

theorem recordEnd_final {url : String} {outcome : Outcome}
    (final : ∀ ending ∈ engine.endings, ending.2.isFinal = true → ending.1 ∈ engine.finished) :
    ∀ ending ∈ (engine.recordEnd url outcome).endings,
      ending.2.isFinal = true → ending.1 ∈ (engine.recordEnd url outcome).finished := by
  intro ending member isFinal
  rcases List.mem_append.mp member with old | new
  · exact recordEnd_finished url outcome (final ending old isFinal)
  · cases List.mem_singleton.mp new
    simp [recordEnd, isFinal]

/-- Putting a task of the same page in its place loses no page, if the page's end is on
record by then. -/
theorem accounted_set {index : Nat} {task : Task} (moved : Task) {discovered : DiscoveredUrl}
    (found : engine.tasks[index]? = some task) (same : moved.url = task.url)
    (tasks : next.tasks = engine.tasks.set index moved)
    (endings : ∀ ending ∈ engine.endings, ending ∈ next.endings)
    (recorded : hasEnded moved = true → ∃ outcome, (task.url.url, outcome) ∈ next.endings)
    (accounted : engine.Accounted discovered) : next.Accounted discovered := by
  rcases accounted with ⟨running, member, rfl, unended⟩ | ⟨outcome, ending⟩
  · obtain ⟨position, at_⟩ := List.mem_iff_getElem?.mp member
    by_cases here : position = index
    · rw [here, found] at at_
      cases at_
      cases ended : hasEnded moved with
      | true => exact .inr (recorded ended)
      | false =>
        have bound := (List.getElem?_eq_some_iff.mp found).1
        exact .inl ⟨moved, tasks ▸ List.mem_set bound _, same, ended⟩
    · refine .inl ⟨running, ?_, rfl, unended⟩
      rw [tasks]
      exact List.mem_iff_getElem?.mpr ⟨position, by rwa [List.getElem?_set_ne (Ne.symm here)]⟩
  · exact .inr ⟨outcome, endings _ ending⟩

theorem Accounted.frame {discovered : DiscoveredUrl} (accounted : engine.Accounted discovered)
    (tasks : ∀ task ∈ engine.tasks, hasEnded task = false → task ∈ next.tasks)
    (endings : next.endings = engine.endings) : next.Accounted discovered := by
  rcases accounted with ⟨running, member, same, unended⟩ | ⟨outcome, ending⟩
  · exact .inl ⟨running, tasks running member unended, same, unended⟩
  · exact .inr ⟨outcome, endings ▸ ending⟩

theorem initial_ledger : Ledger (Engine.initial config) where
  final := by simp [initial]
  dispatched _ := by simp [initial]

theorem taskStep_ledger {index : Nat} {move : TaskMove} (ledger : Ledger engine)
    (taken : engine.taskStep crates config site index move = some next) : Ledger next := by
  obtain ⟨task, phase, effect, found, moved, rfl⟩ := taskStep_eq_some taken
  obtain ⟨-, ends⟩ := move_ends moved
  constructor
  · cases effect with
    | recordEnd outcome => exact recordEnd_final ledger.final
    | _ => exact ledger.final
  · intro active discovered member
    have before : engine.Accounted discovered := by
      refine ledger.dispatched (fun idle => active ?_) discovered ?_
      · cases effect <;> exact idle
      · rwa [perform_dispatched] at member
    refine accounted_set { task with phase } found rfl ?_ ?_ ?_ before
    · cases effect <;> rfl
    · intro ending old
      cases effect with
      | recordEnd outcome => exact List.mem_append_left _ old
      | _ => exact old
    · intro ended
      rcases ends with ⟨outcome, rfl, rfl⟩ | ⟨running, -⟩
      · exact ⟨outcome, List.mem_append_right _ (List.mem_singleton.mpr rfl)⟩
      · rw [running] at ended
        cases ended

theorem step_ledger (ledger : Ledger engine) (taken : Step crates config site engine event next) :
    Ledger next := by
  -- a step that ends no task and hands out no page keeps every promise
  have frame : ∀ next : Engine, next.endings = engine.endings → next.finished = engine.finished →
      next.dispatched = engine.dispatched → engine.phase ≠ .idle →
      (∀ task ∈ engine.tasks, hasEnded task = false → task ∈ next.tasks) → Ledger next := by
    intro next endings finished dispatched active tasks
    constructor
    · rw [endings, finished]
      exact ledger.final
    · intro _ discovered member
      rw [dispatched] at member
      exact (ledger.dispatched active discovered member).frame tasks endings
  cases event with
  | start =>
    simp only [Step, step, Option.ite_none_right_eq_some] at taken
    cases taken.2
    -- a new run has handed out nothing yet
    exact ⟨by simp [begin], fun _ => by simp [begin]⟩
  | kill =>
    cases taken
    exact ⟨ledger.final, fun active => absurd rfl active⟩
  | signal | cancel | setLevel _ =>
    cases taken
    exact ⟨ledger.final, ledger.dispatched⟩
  | task index move => exact taskStep_ledger ledger taken
  | advance =>
    rcases advance_cases taken with
      ⟨here, rfl⟩ | ⟨collected, remaining, here, rfl⟩ | ⟨control, moved, rfl⟩
    · exact frame _ rfl rfl rfl (by simp [here]) fun _ member _ => member
    · have active : engine.phase ≠ .idle := by simp [here]
      rcases spawn_cases crates engine collected remaining with
        ended | ⟨scheduler, -, ended⟩ | ⟨left, scheduler, discovered, -, -, spawned⟩
      · exact frame _ (by rw [ended]) (by rw [ended]) (by rw [ended]) active
          (by rw [ended]; exact fun _ member _ => member)
      · exact frame _ (by rw [ended]) (by rw [ended]) (by rw [ended]) active
          (by rw [ended]; exact fun _ member _ => member)
      · rw [spawned]
        refine ⟨ledger.final, fun _ page member => ?_⟩
        rcases List.mem_append.mp member with old | new
        · exact (ledger.dispatched active page old).frame
            (fun _ member _ => List.mem_append_left _ member) rfl
        · -- the page just handed out has its task at the end of the join set
          cases List.mem_singleton.mp new
          exact .inl ⟨⟨discovered, .pacing⟩, List.mem_append_right _ (List.mem_singleton.mpr rfl),
            rfl, rfl⟩
    · refine frame _ rfl rfl rfl (fun idle => ?_) fun _ member _ => member
      simp [Engine.control, idle] at moved
  | join index =>
    obtain ⟨phase, task, joins, found, ended, rfl⟩ := join_eq_some taken
    -- only a task that has ended leaves the join set
    refine frame _ rfl rfl rfl (fun idle => ?_) fun running member unended => ?_
    · simp [phaseAfterJoin, idle] at joins
    · obtain ⟨position, at_⟩ := List.mem_iff_getElem?.mp member
      refine List.mem_eraseIdx_iff_getElem?.mpr ⟨position, fun here => ?_, at_⟩
      rw [here, found] at at_
      cases at_
      rw [ended] at unended
      cases unended
  | giveUp =>
    simp only [Step, step, Option.ite_none_right_eq_some] at taken
    cases taken.2
    exact frame _ rfl rfl rfl (by simp [taken.1]) fun _ member _ => member
  | abort index =>
    obtain ⟨task, here, found, -, rfl⟩ := abort_eq_some taken
    refine ⟨recordEnd_final ledger.final, fun _ discovered member => ?_⟩
    refine accounted_set { task with phase := .ended .aborted } found rfl rfl
      (fun _ old => List.mem_append_left _ old) ?_
      (ledger.dispatched (by simp [here]) discovered member)
    exact fun _ => ⟨.aborted, List.mem_append_right _ (List.mem_singleton.mpr rfl)⟩
  | persisted written =>
    obtain ⟨state, after, here, rfl⟩ := persisted_eq_some taken
    exact frame _ rfl rfl rfl (by simp [here]) fun _ member _ => member

/-- In a settled run every page handed out has finished. -/
theorem Ledger.settled (ledger : Ledger engine) (active : engine.phase ≠ .idle)
    (settled : engine.Settled) {discovered : DiscoveredUrl}
    (member : discovered ∈ engine.dispatched) :
    ∃ outcome, (discovered.url, outcome) ∈ engine.endings ∧ outcome.isFinal = true := by
  rcases ledger.dispatched active discovered member with
    ⟨task, running, -, unended⟩ | ⟨outcome, ending⟩
  · rw [settled.1 task running] at unended
    cases unended
  · exact ⟨outcome, ending, settled.2 _ ending⟩

/-! ### Saves -/

end Engine

def Phase.savedVisited : Phase → Option (List String)
  | .snapshotQueue visited _ _ => some visited
  | .persisting state _ => some state.visited
  | _ => none

namespace Engine

variable {crates : UrlCrates} {config : CrawlerConfig} {site : SiteGraph}
variable {engine next : Engine} {event : Event}

/-- Every visited list at hand is one of finished pages: the restored one, the one on disk
and the one a save under way has read. -/
structure Sound (engine : Engine) : Prop where
  restored : ∀ url ∈ engine.restored, url ∈ engine.finished
  file : ∀ checkpoint, engine.file = some checkpoint →
    ∀ url ∈ checkpoint.visited, url ∈ engine.finished
  saving : ∀ visited, engine.phase.savedVisited = some visited →
    engine.Settled ∧ ∀ url ∈ visited, url ∈ engine.finished

theorem initial_sound : Sound (Engine.initial config) where
  restored := by simp [initial]
  file _ some := by cases some
  saving _ some := by cases some

theorem begin_sound (sound : Sound engine) : Sound (engine.begin crates config) where
  restored := by
    obtain ⟨-, -, fromFile, -⟩ := restoreCheckpointState_spec crates config engine
    intro url member
    obtain ⟨checkpoint, file, listed⟩ := fromFile url member
    exact sound.file checkpoint file url listed
  file := sound.file
  saving visited read := by
    rw [begin] at read
    cases allowed : config.seedAllowed <;> simp [allowed, Phase.savedVisited] at read

/-- Where a step of the loop leaves the file and what a save has read. -/
theorem control_saving {control : Control} (moved : engine.control config = some control) :
    (control.file = engine.file ∨ control.file = none) ∧
      (control.phase.savedVisited = none ∨
        control.phase.savedVisited = engine.phase.savedVisited ∨
        ∃ after, engine.phase = .snapshot after ∧ config.checkpointEnabled = true ∧
          control.phase.savedVisited = some engine.scheduler.visitedUrls) := by
  unfold Engine.control goto stop at moved
  cases here : engine.phase <;> simp only [here] at moved
  case snapshot after =>
    split at moved
    next enabled =>
      cases moved
      exact ⟨.inl rfl, .inr (.inr ⟨after, rfl, enabled, rfl⟩)⟩
    next =>
      cases moved
      cases after <;> exact ⟨.inl rfl, .inl rfl⟩
  case snapshotQueue visited pagesCrawled after =>
    cases moved
    exact ⟨.inl rfl, .inr (.inl rfl)⟩
  all_goals
    (repeat' split at moved) <;> cases moved <;>
      first
      | exact ⟨.inl rfl, .inl rfl⟩
      | exact ⟨.inr rfl, .inl rfl⟩

theorem perform_finished (engine : Engine) (task : Task) (effect : Effect) {page : String}
    (member : page ∈ engine.finished) : page ∈ (engine.perform crates task effect).finished := by
  cases effect with
  | recordEnd outcome => exact recordEnd_finished _ _ member
  | _ => exact member

theorem step_sound (ledger : Ledger engine) (tracked : Tracked crates engine)
    (sound : Sound engine) (met : SavesSettled config engine event)
    (taken : Step crates config site engine event next) : Sound next := by
  obtain ⟨restored, file, saving⟩ := sound
  -- the steps that neither save nor record an end
  have frame : ∀ next : Engine, next.restored = engine.restored → next.file = engine.file →
      next.finished = engine.finished → next.phase.savedVisited = none → Sound next := by
    intro next sameRestored sameFile finished idle
    refine ⟨?_, ?_, fun visited read => by simp [idle] at read⟩
    · rwa [sameRestored, finished]
    · rwa [sameFile, finished]
  cases event with
  | start =>
    simp only [Step, step, Option.ite_none_right_eq_some] at taken
    cases taken.2
    exact begin_sound ⟨restored, file, saving⟩
  | kill =>
    cases taken
    exact frame _ rfl rfl rfl rfl
  | signal | cancel | setLevel _ =>
    cases taken
    exact ⟨restored, file, saving⟩
  | task index move =>
    obtain ⟨task, phase, effect, found, moved, rfl⟩ := taskStep_eq_some taken
    refine ⟨?_, ?_, ?_⟩
    · intro url member
      refine perform_finished _ _ _ (restored url ?_)
      cases effect <;> exact member
    · intro checkpoint same url member
      refine perform_finished _ _ _ (file checkpoint ?_ url member)
      cases effect <;> exact same
    · -- no task moves while a save is under way, since all of them have ended
      intro visited read
      have reads : engine.phase.savedVisited = some visited := by
        cases effect <;> exact read
      have ended := (saving visited reads).1.1 task (List.mem_of_getElem? found)
      rw [(move_ends moved).1] at ended
      cases ended
  | advance =>
    rcases advance_cases taken with
      ⟨-, rfl⟩ | ⟨collected, remaining, -, rfl⟩ | ⟨control, moved, rfl⟩
    · exact frame _ rfl rfl rfl rfl
    · rcases spawn_cases crates engine collected remaining with
        ended | ⟨scheduler, -, ended⟩ | ⟨left, scheduler, discovered, -, -, spawned⟩
      · exact ended ▸ frame _ rfl rfl rfl rfl
      · exact ended ▸ frame _ rfl rfl rfl rfl
      · exact spawned ▸ frame _ rfl rfl rfl rfl
    · obtain ⟨files, reads⟩ := control_saving moved
      refine ⟨restored, ?_, ?_⟩
      · rcases files with same | deleted
        · simp only [same]
          exact file
        · intro checkpoint some
          rw [deleted] at some
          cases some
      · intro visited read
        rcases reads with none | same | ⟨after, here, enabled, same⟩
        · rw [none] at read
          cases read
        · exact saving visited (same ▸ read)
        · -- the save reads the visited set of a settled run
          rw [same, Option.some.injEq] at read
          have settled := met after rfl here enabled
          refine ⟨settled, fun url member => ?_⟩
          rw [← read, tracked.history] at member
          rcases List.mem_append.mp member with old | new
          · exact restored url old
          · obtain ⟨discovered, handedOut, rfl⟩ := List.mem_map.mp new
            obtain ⟨outcome, ending, final⟩ :=
              ledger.settled (by simp [here]) settled handedOut
            exact ledger.final _ ending final
  | join index =>
    obtain ⟨phase, task, joins, -, -, rfl⟩ := join_eq_some taken
    refine frame _ rfl rfl rfl ?_
    unfold phaseAfterJoin at joins
    split at joins <;> cases joins <;> rfl
  | giveUp =>
    simp only [Step, step, Option.ite_none_right_eq_some] at taken
    cases taken.2
    exact frame _ rfl rfl rfl rfl
  | abort index =>
    obtain ⟨task, here, -, -, rfl⟩ := abort_eq_some taken
    refine ⟨?_, ?_, ?_⟩
    · exact fun url member => recordEnd_finished _ _ (restored url member)
    · exact fun checkpoint same url member => recordEnd_finished _ _ (file checkpoint same url member)
    · intro visited read
      simp [recordEnd, setPhase, here, Phase.savedVisited] at read
  | persisted written =>
    obtain ⟨state, after, here, rfl⟩ := persisted_eq_some taken
    refine ⟨restored, ?_, ?_⟩
    · intro checkpoint same
      cases written with
      | true =>
        cases same
        exact (saving state.visited (by rw [here]; rfl)).2
      | false => exact file checkpoint same
    · intro visited read
      cases after <;> cases read

/-- In every crawl of runs and resumed runs whose saves start with a settled run, the
visited list of every checkpoint, on disk or being written, holds finished pages only, and
every page handed out before a save has finished, so that none is left to recover. -/
theorem checkpoint_visited_finished
    (reached : Reachable (Step crates config site) (SavesSettled config)
      (Engine.initial config) engine) : (∀ checkpoint, engine.file = some checkpoint →
      ∀ url ∈ checkpoint.visited, url ∈ engine.finished) ∧
    ∀ checkpoint after, engine.phase = .persisting checkpoint after →
      (∀ url ∈ checkpoint.visited, url ∈ engine.finished) ∧
      ∀ discovered ∈ engine.dispatched, ∃ outcome,
        (discovered.url, outcome) ∈ engine.endings ∧ outcome.isFinal = true := by
  have books : ∀ engine, Reachable (Step crates config site) (SavesSettled config)
      (Engine.initial config) engine → Ledger engine ∧ Tracked crates engine := by
    intro engine reached
    constructor
    · exact reached.invariant initial_ledger fun _ _ _ known _ taken => step_ledger known taken
    · exact reached_tracked initial_tracked reached
  have sound : Sound engine := reached.invariant_of books initial_sound
    fun _ _ _ known sound met taken => step_sound known.1 known.2 sound met taken
  refine ⟨sound.file, fun checkpoint after here => ?_⟩
  obtain ⟨settled, visited⟩ := sound.saving checkpoint.visited (by rw [here]; rfl)
  refine ⟨visited, fun discovered member => ?_⟩
  exact (books engine reached).1.settled (by simp [here]) settled member

end Engine

/-! A crawl of one page, interrupted by a signal. -/

namespace Interrupted

def onePage : CrawlerConfig where
  seedUrl := "https://example.com/"
  seedAllowed := true
  maxDepth := 0
  maxPages := 9
  concurrency := 1
  checkpointEnabled := true
  checkpointInterval := 0
  extraSeeds := []

def bare : SiteGraph := fun _ => []

/-- The page is handed out, and the loop waits for it. -/
def handOut : List Event := .start :: List.replicate 10 .advance

/-- From the loop's head: the save of the shutdown, the drain and the save at the close. -/
def shutDown : List Event :=
  [.advance, .advance, .advance, .persisted true, .advance, .advance, .advance, .advance,
    .persisted true]

def finishPage : List Event :=
  [.task 0 .pace, .task 0 .fetch, .task 0 .filter, .join 0, .signal]

def cancelPage : List Event :=
  [.signal, .cancel, .task 0 .cancel, .join 0]

/-- Whether a save that starts here starts with a settled run. -/
def savesSettled (engine : Engine) (_ : Event) : Bool :=
  match engine.phase with
  | .snapshot _ => engine.tasks.all Engine.hasEnded && engine.endings.all fun e => e.2.isFinal
  | _ => true

def finishedRun : Option Engine :=
  runEvents (fun engine event =>
      if savesSettled engine event then engine.step plainUrls onePage bare event else none)
    (Engine.initial onePage) (handOut ++ finishPage ++ shutDown)

def cancelledRun : Option Engine :=
  runEvents (Engine.step plainUrls onePage bare) (Engine.initial onePage)
    (handOut ++ cancelPage ++ shutDown)

end Interrupted

open Interrupted in
theorem checkpoint_visited_finished_filtered :
    ∃ engine checkpoint, finishedRun = some engine ∧ engine.file = some checkpoint ∧
      checkpoint.visited = ["https://example.com/"] ∧
      ∀ url ∈ checkpoint.visited, url ∈ engine.finished := by
  have listed : finishedRun.bind (fun engine => engine.file.map CrawlCheckpoint.visited) =
      some ["https://example.com/"] := by
    decide
  obtain ⟨engine, ran, listed⟩ := Option.bind_eq_some_iff.mp listed
  obtain ⟨checkpoint, file, listed⟩ := Option.map_eq_some_iff.mp listed
  refine ⟨engine, checkpoint, ran, file, listed, ?_⟩
  refine (Engine.checkpoint_visited_finished
    (Reachable.run_checked .start ?_ ran)).1 checkpoint file
  intro engine event checked after _ here _
  simpa [savesSettled, here, Engine.Settled] using checked

open Interrupted in
/-- A signal cancels the only page in its wait. The checkpoint lists it as visited, it
never finished, and no state of the resumed run has handed it out. -/
theorem cancelled_page_lost :
    ∃ engine checkpoint, Reachable (Engine.Step plainUrls onePage bare) (fun _ _ => True)
        (Engine.initial onePage) engine ∧
      engine.file = some checkpoint ∧
      "https://example.com/" ∈ checkpoint.visited ∧
      "https://example.com/" ∉ engine.finished ∧
      ("https://example.com/", .cancelled) ∈ engine.endings ∧
      ∀ resumed, Reachable (Engine.Step plainUrls onePage bare) (fun _ event => event ≠ .start)
          (engine.begin plainUrls onePage) resumed →
        ∀ discovered ∈ resumed.dispatched, discovered.url ≠ "https://example.com/" := by
  have listed : cancelledRun.bind (fun engine => engine.file.map CrawlCheckpoint.visited) =
      some ["https://example.com/"] := by
    decide
  have history : cancelledRun.map (fun engine => (engine.finished, engine.endings)) =
      some ([], [("https://example.com/", .cancelled)]) := by
    decide
  obtain ⟨engine, ran, listed⟩ := Option.bind_eq_some_iff.mp listed
  obtain ⟨checkpoint, file, listed⟩ := Option.map_eq_some_iff.mp listed
  rw [ran, Option.map_some, Option.some.injEq, Prod.mk.injEq] at history
  have visited : "https://example.com/" ∈ checkpoint.visited := by
    rw [listed]
    exact List.mem_cons_self
  refine ⟨engine, checkpoint, Reachable.run .start (fun _ _ _ => trivial) ran, file, visited,
    ?_, ?_, ?_⟩
  · rw [history.1]
    exact List.not_mem_nil
  · rw [history.2]
    exact List.mem_cons_self
  · intro resumed reached discovered member same
    refine Engine.resumed_skips_visited (by exact file) visited reached discovered member ?_
    rw [DiscoveredUrl.key, same]

end Webfang.Crawler
