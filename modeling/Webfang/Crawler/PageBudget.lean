import Webfang.Crawler.Engine
import Webfang.Library.Counting

/-!
# Page budget

The dispatch gate reads two counters, the collected pages and the tasks not joined yet, and
then spawns while tasks go on. A task stops being uncounted in the very step that raises
the collector's counter, so the sum of both with what the round may still spawn never
exceeds the budget. A task that has delivered its page and is still in the join set is in
both of the counters the gate reads.
-/
namespace Webfang.Crawler

open Library Domain

namespace TaskPhase

/-- The task may still raise the collector's counter. -/
def isUncounted : TaskPhase → Bool
  | .pacing | .fetching | .fetched => true
  | _ => false

/-- The counter is up and the result is not in the channel yet. -/
def isUnsent : TaskPhase → Bool
  | .counted _ => true
  | _ => false

end TaskPhase

def uncounted (tasks : List Task) : Nat := tasks.countP fun task => task.phase.isUncounted

def unsent (tasks : List Task) : Nat := tasks.countP fun task => task.phase.isUnsent

/-! ### Counting over the join set -/

private theorem countP_eraseIdx_le {α : Type} (p : α → Bool) (l : List α) (i : Nat) :
    (l.eraseIdx i).countP p ≤ l.countP p :=
  (List.eraseIdx_sublist l i).countP_le

/-- What a move does to the two counts: raising the counter takes the task out of the
uncounted ones, sending takes it out of the unsent ones, and no other move adds to either. -/
theorem Task.move_counts {maxDepth : Nat} {site : SiteGraph} {cancelled : Bool} {task : Task}
    {move : TaskMove} {phase : TaskPhase} {effect : Effect}
    (moved : task.move maxDepth site cancelled move = some (phase, effect)) :
    (effect = .countResult ∧ task.phase.isUncounted = true ∧ phase.isUncounted = false ∧
      task.phase.isUnsent = false) ∨
    ((∃ url, effect = .sendResult url) ∧ task.phase.isUnsent = true ∧ phase.isUnsent = false ∧
      phase.isUncounted = false) ∨
    (effect ≠ .countResult ∧ (∀ url, effect ≠ .sendResult url) ∧ phase.isUnsent = false ∧
      (phase.isUncounted = true → task.phase.isUncounted = true)) := by
  unfold Task.move Task.finishWith at moved
  split at moved
  all_goals first
    | cases moved
    | (split at moved <;> cases moved)
  all_goals simp_all [TaskPhase.isUncounted, TaskPhase.isUnsent]

/-! ### The invariant -/

/-- What the current round may still spawn. -/
def Phase.slack : Phase → Nat
  | .spawning _ remaining => remaining
  | _ => 0

structure WithinBudget (config : CrawlerConfig) (engine : Engine) : Prop where
  /-- Collected pages, pages that may still be collected, and spawns still to come. -/
  pages : engine.counter + uncounted engine.tasks + engine.phase.slack ≤ config.maxPages
  results : engine.results.length + unsent engine.tasks ≤ engine.counter
  /-- The round's own reading covers every task of the join set and every spawn to come. -/
  round : ∀ collected remaining, engine.phase = .spawning collected remaining →
    remaining = 0 ∨ collected + engine.tasks.length + remaining ≤ config.maxPages

variable {crates : UrlCrates} {config : CrawlerConfig} {site : SiteGraph}

theorem initial_withinBudget : WithinBudget config (Engine.initial config) where
  pages := by simp [Engine.initial, uncounted, Phase.slack]
  results := by simp [Engine.initial, unsent]
  round _ _ here := by cases here

theorem begin_withinBudget (engine : Engine) :
    WithinBudget config (engine.begin crates config) where
  pages := by
    simp only [Engine.begin, uncounted, List.countP_nil]
    split <;> simp [Phase.slack]
  results := by simp [Engine.begin, unsent]
  round _ _ here := by
    simp only [Engine.begin] at here
    split at here <;> cases here

theorem uncounted_le_length (tasks : List Task) : uncounted tasks ≤ tasks.length :=
  List.countP_le_length

theorem taskStep_withinBudget {engine next : Engine} {index : Nat} {move : TaskMove}
    (within : WithinBudget config engine)
    (taken : engine.taskStep crates config site index move = some next) :
    WithinBudget config next := by
  obtain ⟨task, phase, effect, found, moved, rfl⟩ := Engine.taskStep_eq_some taken
  obtain ⟨pages, results, round⟩ := within
  have waiting := Counting.countP_set_add (fun task => task.phase.isUncounted) { task with phase } found
  have sending := Counting.countP_set_add (fun task => task.phase.isUnsent) { task with phase } found
  have size : (engine.tasks.set index { task with phase }).length = engine.tasks.length :=
    List.length_set
  -- neither count of the tasks, nor the phase of the loop, depends on the effect
  have kept : ((engine.setPhase index task phase).perform crates task effect).tasks =
      engine.tasks.set index { task with phase } ∧
      ((engine.setPhase index task phase).perform crates task effect).phase = engine.phase := by
    cases effect <;> exact ⟨rfl, rfl⟩
  obtain ⟨keptTasks, keptPhase⟩ := kept
  have counters : ((engine.setPhase index task phase).perform crates task effect).counter =
        engine.counter + (if effect = .countResult then 1 else 0) ∧
      ((engine.setPhase index task phase).perform crates task effect).results.length ≤
        engine.results.length + (if task.phase.isUnsent ∧ ¬ phase.isUnsent then 1 else 0) := by
    rcases Task.move_counts moved with ⟨rfl, -⟩ | ⟨⟨url, rfl⟩, sent, unsent, -⟩ | ⟨other, silent, -⟩
    · exact ⟨rfl, Nat.le_add_right _ _⟩
    · refine ⟨rfl, ?_⟩
      simp [Engine.perform, Engine.setPhase, sent, unsent]
    · cases effect with
      | countResult => exact absurd rfl other
      | sendResult url => exact absurd rfl (silent url)
      | _ => exact ⟨rfl, Nat.le_add_right _ _⟩
  obtain ⟨counter, sentResults⟩ := counters
  refine ⟨?_, ?_, ?_⟩
  · rw [keptTasks, keptPhase, counter, uncounted]
    rw [uncounted] at pages
    rcases Task.move_counts moved with ⟨rfl, was, is, -⟩ | ⟨⟨url, rfl⟩, -, -, is⟩ | ⟨other, -, -, mono⟩
    · simp only [was, is, if_true] at waiting ⊢
      simp only [Bool.false_eq_true, if_false] at waiting
      omega
    · simp only [is, Bool.false_eq_true, if_false, reduceCtorEq] at waiting ⊢
      omega
    · rw [if_neg other]
      cases is : phase.isUncounted <;>
        simp only [is, Bool.false_eq_true, if_false, if_true, forall_const] at waiting mono
      · omega
      · simp only [mono, if_true] at waiting
        omega
  · rw [keptTasks, counter, unsent]
    rw [unsent] at results
    rcases Task.move_counts moved with ⟨rfl, -, -, was⟩ | ⟨⟨url, rfl⟩, was, is, -⟩ | ⟨other, -, is, -⟩
    · simp only [was, Bool.false_eq_true, false_and, if_false, if_true] at sentResults sending ⊢
      split at sending <;> omega
    · simp only [was, is, if_true, Bool.false_eq_true, if_false] at sentResults sending ⊢
      simp only [not_false_eq_true, and_self, if_true] at sentResults
      omega
    · rw [if_neg other]
      simp only [is, Bool.false_eq_true, if_false] at sending sentResults
      split at sending <;> simp_all <;> omega
  · intro collected remaining here
    rw [keptPhase] at here
    rw [keptTasks, size]
    exact round collected remaining here

theorem spawn_withinBudget {engine : Engine} {collected remaining : Nat}
    (within : WithinBudget config engine) (here : engine.phase = .spawning collected remaining) :
    WithinBudget config (engine.spawn crates collected remaining) := by
  obtain ⟨pages, results, round⟩ := within
  rw [here] at pages
  simp only [Phase.slack] at pages
  rcases Engine.spawn_cases crates engine collected remaining with
    ended | ⟨scheduler, -, ended⟩ | ⟨left, scheduler, discovered, rfl, -, spawned⟩
  · rw [ended]
    refine ⟨?_, results, ?_⟩
    · simp only [Phase.slack]
      omega
    · rintro _ _ ⟨⟩
  · rw [ended]
    refine ⟨?_, results, ?_⟩
    · simp only [Phase.slack]
      omega
    · rintro _ _ ⟨⟩
  · rw [spawned]
    refine ⟨?_, ?_, ?_⟩
    · -- the new task is uncounted, and the slack falls by one
      have one : uncounted (engine.tasks ++ [⟨discovered, .pacing⟩]) =
          uncounted engine.tasks + 1 := by
        simp [uncounted, TaskPhase.isUncounted]
      simp only [Phase.slack, one]
      omega
    · simpa [unsent, TaskPhase.isUnsent] using results
    · -- the round had planned for this task
      rintro _ _ ⟨⟩
      have planned := (round _ _ here).resolve_left (Nat.succ_ne_zero left)
      simp only [List.length_append, List.length_singleton]
      omega

/-- A step that moves no URL may only enter the spawning phase with what the two counters
leave of the budget. -/
theorem control_slack {engine : Engine} {control : Engine.Control}
    (moved : engine.control config = some control) :
    control.phase.slack = 0 ∨ control.phase = .spawning engine.counter
      (Engine.remainingBudget config.maxPages engine.counter engine.tasks.length) := by
  unfold Engine.control Engine.goto Engine.stop at moved
  cases here : engine.phase <;> simp only [here] at moved
  case budget =>
    cases moved
    exact .inr rfl
  case snapshot after =>
    left
    split at moved
    · cases moved
      rfl
    · cases moved
      cases after <;> rfl
  all_goals
    left
    (repeat' split at moved) <;> cases moved <;> rfl

theorem control_withinBudget {engine : Engine} {control : Engine.Control}
    (within : WithinBudget config engine) (moved : engine.control config = some control) :
    WithinBudget config { engine with
      phase := control.phase, cancelled := control.cancelled, file := control.file } := by
  obtain ⟨pages, results, round⟩ := within
  have few := uncounted_le_length engine.tasks
  refine ⟨?_, results, ?_⟩
  · rcases control_slack moved with none | spawning
    · simp only [none]
      omega
    · simp only [spawning, Phase.slack, Engine.remainingBudget]
      omega
  · intro collected remaining here
    rcases control_slack moved with none | spawning
    · dsimp only at here
      rw [here] at none
      exact .inl none
    · dsimp only at here
      rw [spawning] at here
      cases here
      simp only [Engine.remainingBudget]
      omega

theorem step_withinBudget {engine next : Engine} {event : Event}
    (within : WithinBudget config engine) (taken : Engine.Step crates config site engine event next) :
    WithinBudget config next := by
  obtain ⟨pages, results, round⟩ := within
  cases event with
  | start =>
    simp only [Engine.Step, Engine.step, Option.ite_none_right_eq_some] at taken
    cases taken.2
    exact begin_withinBudget engine
  | kill =>
    cases taken
    refine ⟨?_, ?_, ?_⟩
    · simp only [uncounted, List.countP_nil, Phase.slack]
      omega
    · simp only [unsent, List.countP_nil]
      omega
    · rintro _ _ ⟨⟩
  | signal =>
    cases taken
    exact ⟨pages, results, round⟩
  | cancel =>
    cases taken
    exact ⟨pages, results, round⟩
  | setLevel level =>
    cases taken
    exact ⟨pages, results, round⟩
  | task index move => exact taskStep_withinBudget ⟨pages, results, round⟩ taken
  | advance =>
    rcases Engine.advance_cases taken with
      ⟨here, rfl⟩ | ⟨collected, remaining, here, rfl⟩ | ⟨control, moved, rfl⟩
    · refine ⟨?_, results, ?_⟩
      · simp only [Phase.slack]
        omega
      · rintro _ _ ⟨⟩
    · exact spawn_withinBudget ⟨pages, results, round⟩ here
    · exact control_withinBudget ⟨pages, results, round⟩ moved
  | join index =>
    obtain ⟨phase, task, joins, -, -, rfl⟩ := Engine.join_eq_some taken
    -- a joined task leaves both counts at most smaller
    have fewer := countP_eraseIdx_le (fun task => task.phase.isUncounted) engine.tasks index
    have fewerUnsent := countP_eraseIdx_le (fun task => task.phase.isUnsent) engine.tasks index
    have idle : phase.slack = 0 ∧ ∀ c r, phase ≠ .spawning c r := by
      unfold Engine.phaseAfterJoin at joins
      split at joins <;> cases joins <;> exact ⟨rfl, fun _ _ => by simp⟩
    refine ⟨?_, ?_, ?_⟩
    · simp only [idle.1, uncounted] at pages ⊢
      omega
    · simp only [unsent] at results ⊢
      omega
    · exact fun collected remaining here => absurd here (idle.2 collected remaining)
  | giveUp =>
    simp only [Engine.Step, Engine.step, Option.ite_none_right_eq_some] at taken
    cases taken.2
    refine ⟨?_, results, ?_⟩
    · simp only [Phase.slack]
      omega
    · rintro _ _ ⟨⟩
  | abort index =>
    obtain ⟨task, here, found, -, rfl⟩ := Engine.abort_eq_some taken
    -- an aborted task counts no more, wherever it stood
    have waiting := Counting.countP_set_add (fun task => task.phase.isUncounted)
      { task with phase := .ended .aborted } found
    have sending := Counting.countP_set_add (fun task => task.phase.isUnsent)
      { task with phase := .ended .aborted } found
    refine ⟨?_, ?_, ?_⟩
    · simp only [uncounted, Engine.recordEnd, Engine.setPhase, TaskPhase.isUncounted,
        Bool.false_eq_true, if_false] at pages waiting ⊢
      omega
    · simp only [unsent, Engine.recordEnd, Engine.setPhase, TaskPhase.isUnsent,
        Bool.false_eq_true, if_false] at results sending ⊢
      omega
    · intro collected remaining spawning
      simp only [Engine.recordEnd, Engine.setPhase, here] at spawning
      cases spawning
  | persisted written =>
    obtain ⟨state, after, -, rfl⟩ := Engine.persisted_eq_some taken
    refine ⟨?_, results, ?_⟩
    · cases after <;> simp only [AfterSave.phase, Phase.slack] <;> omega
    · intro collected remaining spawning
      cases after <;> cases spawning

/-- At every moment the collected pages and the tasks that may still deliver one fit the
budget, and so do the results. A dispatch happens in a round whose own reading of the
collected count, with every task in the join set and the new one, fits it too. -/
theorem dispatch_within_budget {engine : Engine}
    (reached : Reachable (Engine.Step crates config site) (fun _ _ => True)
      (Engine.initial config) engine) :
    engine.counter + uncounted engine.tasks ≤ config.maxPages ∧
      engine.results.length ≤ config.maxPages ∧
      ∀ event next discovered, Engine.Step crates config site engine event next →
        next.dispatched = engine.dispatched ++ [discovered] →
        ∃ collected remaining, engine.phase = .spawning collected remaining ∧
          collected + next.tasks.length ≤ config.maxPages := by
  have within : WithinBudget config engine :=
    reached.invariant initial_withinBudget fun s e s' sWithin _ taken =>
      step_withinBudget sWithin taken
  have pages := within.pages
  have results := within.results
  refine ⟨by omega, by omega, ?_⟩
  intro event next discovered taken dispatches
  rcases Engine.step_dispatched taken with same | ⟨-, empty⟩ |
    ⟨collected, remaining, scheduler, handed, here, -, rfl⟩
  · rw [same] at dispatches
    simpa using congrArg List.length dispatches
  · rw [empty] at dispatches
    simp at dispatches
  · have planned := (within.round _ _ here).resolve_left (Nat.succ_ne_zero remaining)
    refine ⟨collected, remaining + 1, here, ?_⟩
    simp only [List.length_append, List.length_singleton]
    omega

/-! A sitemap crawl of two pages: the seed delivers its page while the round goes on. -/

namespace DeliveredInRound

def twoPages : CrawlerConfig where
  seedUrl := "https://example.com"
  seedAllowed := true
  maxDepth := 1
  maxPages := 2
  concurrency := 4
  checkpointEnabled := false
  checkpointInterval := 0
  extraSeeds := [⟨"https://example.com/a", 1⟩]

def noLinks : SiteGraph := fun _ => []

/-- Up to the spawning phase, the seed's dispatch, and the seed's delivery. -/
def events : List Event :=
  .start :: List.replicate 8 .advance ++
    [.task 0 .pace, .task 0 .fetch, .task 0 (.count "https://example.com"), .task 0 .send]

def before : Option Engine :=
  runEvents (Engine.step plainUrls twoPages noLinks) (Engine.initial twoPages) events

def after : Option Engine :=
  before.bind fun engine => engine.step plainUrls twoPages noLinks .advance

end DeliveredInRound

open DeliveredInRound in
theorem dispatch_within_budget_delivered :
    ∃ engine, before = some engine ∧
      engine.counter + uncounted engine.tasks ≤ 2 ∧ engine.results.length ≤ 2 ∧
      ∀ event next discovered, Engine.Step plainUrls twoPages noLinks engine event next →
        next.dispatched = engine.dispatched ++ [discovered] →
        ∃ collected remaining, engine.phase = .spawning collected remaining ∧
          collected + next.tasks.length ≤ 2 := by
  have ran : before.isSome := by decide
  obtain ⟨engine, reached⟩ := Option.isSome_iff_exists.mp ran
  exact ⟨engine, reached, dispatch_within_budget (Reachable.run .start (fun _ _ _ => trivial) reached)⟩

open DeliveredInRound in
/-- One collected page and two tasks in the join set, over a budget of two pages. -/
theorem delivered_page_counted_twice :
    ∃ engine next, Reachable (Engine.Step plainUrls twoPages noLinks) (fun _ _ => True)
        (Engine.initial twoPages) engine ∧
      Engine.Step plainUrls twoPages noLinks engine .advance next ∧
      next.dispatched = engine.dispatched ++ [⟨"https://example.com/a", 1⟩] ∧
      twoPages.maxPages < next.counter + next.tasks.length := by
  have ran : before.isSome := by decide
  have stepped : after.isSome := by decide
  have dispatchedBefore : before.map Engine.dispatched = some [⟨"https://example.com", 0⟩] := by
    decide
  have dispatchedAfter : after.map Engine.dispatched =
      some [⟨"https://example.com", 0⟩, ⟨"https://example.com/a", 1⟩] := by
    decide
  have counted : after.map (fun next => next.counter + next.tasks.length) = some 3 := by decide
  obtain ⟨engine, reached⟩ := Option.isSome_iff_exists.mp ran
  obtain ⟨next, taken⟩ := Option.isSome_iff_exists.mp stepped
  rw [taken, Option.map_some, Option.some.injEq] at dispatchedAfter counted
  rw [reached, Option.map_some, Option.some.injEq] at dispatchedBefore
  rw [after, reached, Option.bind_some] at taken
  refine ⟨engine, next, Reachable.run .start (fun _ _ _ => trivial) reached, taken, ?_, ?_⟩
  · rw [dispatchedAfter, dispatchedBefore]
    rfl
  · rw [counted]
    decide

end Webfang.Crawler
