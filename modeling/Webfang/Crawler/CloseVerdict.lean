import Webfang.Crawler.CheckpointSoundness
import Webfang.Crawler.Completeness

/-!
# The verdict at the close

`run` asks `CrawlSession::finish` to delete the checkpoint from three facts: no shutdown was
signalled, nothing is pending, the collector is not full. The token is not one of them, so a
page that gives way to the token alone leaves no trace in the verdict. Where pages give way
only to a run that is being stopped, a run that deletes its checkpoint lost no page.
-/
namespace Webfang.Crawler

open Library Domain

namespace Engine

variable (config : CrawlerConfig)

def completedFully (engine : Engine) : Bool :=
  !engine.shutdown && !engine.scheduler.hasPendingWork && !engine.isFull config

def AsksDelete (engine : Engine) : Prop :=
  engine.phase = .closing ∧ config.checkpointEnabled = true ∧ engine.completedFully config = true

/-- The token or the drain ended a page that this run handed out. -/
def Interrupted (engine : Engine) : Prop :=
  ∃ ending ∈ engine.endings, ending.2 = .cancelled ∨ ending.2 = .aborted

/-- The two ways to stop a run that the verdict knows of. -/
def Stopped (engine : Engine) : Prop := engine.shutdown = true ∨ engine.isFull config = true

/-- A page gives way to the token only in a run that is being stopped. -/
def YieldsToStop (engine : Engine) (event : Event) : Prop :=
  ∀ index, event = .task index .cancel → engine.Stopped config

/-- The same, and every save reaches the disk. -/
def YieldsAndSaves (engine : Engine) (event : Event) : Prop :=
  engine.YieldsToStop config event ∧ event ≠ .persisted false

end Engine

/-- The loop has been left. -/
def Phase.hasLeft : Phase → Bool
  | .draining | .closing | .finished => true
  | .snapshot after | .snapshotQueue _ _ after | .persisting _ after => after != .budget
  | _ => false

/-- The drain is over too. -/
def Phase.hasJoined : Phase → Bool
  | .closing | .finished => true
  | .snapshot after | .snapshotQueue _ _ after | .persisting _ after => after == .finished
  | _ => false

namespace Engine

structure WindsDown (config : CrawlerConfig) (engine : Engine) : Prop where
  /-- A run that nothing stopped left its loop with no work behind. -/
  left : engine.phase.hasLeft = true →
    engine.Stopped config ∨ engine.tasks = [] ∧ engine.scheduler.waiting = []
  joined : engine.phase.hasJoined = true → engine.tasks = []
  interrupted : engine.Interrupted → engine.Stopped config

variable {crates : UrlCrates} {config : CrawlerConfig} {site : SiteGraph}
variable {engine next : Engine} {event : Event}

/-- The verdict is what the close acts on: delete, write, or nothing without checkpoints. -/
theorem control_closing (closing : engine.phase = .closing) :
    engine.control config =
      if !config.checkpointEnabled then engine.goto .finished
      else if engine.completedFully config then some ⟨.finished, engine.cancelled, none⟩
      else engine.goto (.snapshot .finished) := by
  unfold control
  rw [closing]
  rfl

/-! ### What a step keeps -/

/-- Within a run the flag stays up and the collector's counter never falls. -/
theorem step_stops (taken : Step crates config site engine event next) (goes : event ≠ .start) :
    (engine.shutdown = true → next.shutdown = true) ∧ engine.counter ≤ next.counter := by
  cases event with
  | start => exact absurd rfl goes
  | kill | cancel | setLevel _ =>
    cases taken
    exact ⟨id, Nat.le_refl _⟩
  | signal =>
    cases taken
    exact ⟨fun _ => rfl, Nat.le_refl _⟩
  | task index move =>
    -- only the collector counts, and it counts up
    obtain ⟨task, phase, effect, -, -, rfl⟩ := taskStep_eq_some taken
    cases effect with
    | countResult => exact ⟨id, Nat.le_succ _⟩
    | _ => exact ⟨id, Nat.le_refl _⟩
  | advance =>
    rcases advance_cases taken with
      ⟨-, rfl⟩ | ⟨collected, remaining, -, rfl⟩ | ⟨control, -, rfl⟩
    · exact ⟨id, Nat.le_refl _⟩
    · rcases spawn_cases crates engine collected remaining with
        ended | ⟨scheduler, -, ended⟩ | ⟨left, scheduler, discovered, -, -, ended⟩
      all_goals
        rw [ended]
        exact ⟨id, Nat.le_refl _⟩
    · exact ⟨id, Nat.le_refl _⟩
  | join index =>
    obtain ⟨phase, task, -, -, -, rfl⟩ := join_eq_some taken
    exact ⟨id, Nat.le_refl _⟩
  | giveUp =>
    simp only [Step, step, Option.ite_none_right_eq_some] at taken
    cases taken.2
    exact ⟨id, Nat.le_refl _⟩
  | abort index =>
    obtain ⟨task, -, -, -, rfl⟩ := abort_eq_some taken
    exact ⟨id, Nat.le_refl _⟩
  | persisted written =>
    obtain ⟨state, after, -, rfl⟩ := persisted_eq_some taken
    exact ⟨id, Nat.le_refl _⟩

theorem Stopped.step (stopped : engine.Stopped config)
    (taken : Step crates config site engine event next) (goes : event ≠ .start) :
    next.Stopped config := by
  obtain ⟨shutdown, counter⟩ := step_stops taken goes
  refine stopped.imp shutdown fun full => ?_
  simp only [isFull, decide_eq_true_eq] at full ⊢
  omega

/-- A page that is interrupted gave way to the token, or was aborted in the drain. -/
theorem interrupted_cases (taken : Step crates config site engine event next)
    (interrupted : next.Interrupted) :
    engine.Interrupted ∧ event ≠ .start ∨ (∃ index, event = .task index .cancel) ∨
      engine.phase = .draining ∧ engine.tasks ≠ [] := by
  obtain ⟨ending, member, how⟩ := interrupted
  rcases eq_or_ne event .start with rfl | goes
  · simp only [Step, step, Option.ite_none_right_eq_some] at taken
    cases taken.2
    simp [begin] at member
  -- most steps record no ending at all
  have same : next.endings = engine.endings →
      engine.Interrupted ∧ event ≠ .start ∨ (∃ index, event = .task index .cancel) ∨
        engine.phase = .draining ∧ engine.tasks ≠ [] :=
    fun endings => .inl ⟨⟨ending, endings ▸ member, how⟩, goes⟩
  cases event with
  | start => exact absurd rfl goes
  | kill | signal | cancel | setLevel _ =>
    cases taken
    exact same rfl
  | task index move =>
    obtain ⟨task, phase, effect, -, moved, rfl⟩ := taskStep_eq_some taken
    cases effect with
    | recordEnd outcome =>
      rcases List.mem_append.mp member with old | new
      · exact .inl ⟨⟨ending, old, how⟩, goes⟩
      · cases List.mem_singleton.mp new
        refine .inr (.inl ⟨index, ?_⟩)
        -- of the moves that end a task only this one has such an outcome
        unfold Task.move Task.finishWith at moved
        split at moved
        all_goals first
          | rfl
          | (split at moved <;> cases moved)
          | (cases moved <;> simp at how)
    | _ => exact same rfl
  | advance =>
    rcases advance_cases taken with
      ⟨-, rfl⟩ | ⟨collected, remaining, -, rfl⟩ | ⟨control, -, rfl⟩
    · exact same rfl
    · refine same ?_
      rcases spawn_cases crates engine collected remaining with
        ended | ⟨scheduler, -, ended⟩ | ⟨left, scheduler, discovered, -, -, ended⟩
      all_goals rw [ended]
    · exact same rfl
  | join index =>
    obtain ⟨phase, task, -, -, -, rfl⟩ := join_eq_some taken
    exact same rfl
  | giveUp =>
    simp only [Step, step, Option.ite_none_right_eq_some] at taken
    cases taken.2
    exact same rfl
  | abort index =>
    obtain ⟨task, here, found, -, rfl⟩ := abort_eq_some taken
    refine .inr (.inr ⟨here, fun none => ?_⟩)
    simp [none] at found
  | persisted written =>
    obtain ⟨state, after, -, rfl⟩ := persisted_eq_some taken
    exact same rfl

/-! ### The way out of the loop -/

/-- The loop is left through its condition, or because the run is being stopped. -/
theorem control_left {control : Control} (moved : engine.control config = some control)
    (gone : control.phase.hasLeft = true) :
    engine.phase.hasLeft = true ∨ engine.Stopped config ∨
      engine.phase = .head ∧ engine.scheduler.pending = [] ∧ engine.tasks = [] := by
  unfold Engine.control goto stop at moved
  cases here : engine.phase <;> simp only [here] at moved
  case head =>
    split at moved
    next out =>
      simp only [CrawlScheduler.hasPendingWork, Bool.not_not, Bool.and_eq_true,
        List.isEmpty_iff] at out
      exact .inr (.inr ⟨rfl, out⟩)
    next =>
      split at moved
      next flag => exact .inr (.inl (.inl flag))
      next =>
        cases moved
        cases gone
  case checkBudget | recheck =>
    split at moved
    next full => exact .inr (.inl (.inr full))
    next =>
      cases moved
      cases gone
  case snapshot after =>
    cases after <;> split at moved <;> cases moved <;>
      first | exact .inl rfl | cases gone
  case snapshotQueue visited pagesCrawled after =>
    cases moved
    exact .inl gone
  all_goals
    (repeat' split at moved) <;> cases moved <;> first | exact .inl rfl | cases gone

theorem control_joined {control : Control} (moved : engine.control config = some control)
    (done : control.phase.hasJoined = true) :
    engine.phase.hasJoined = true ∨ engine.tasks = [] := by
  unfold Engine.control goto stop at moved
  cases here : engine.phase <;> simp only [here] at moved
  case draining =>
    split at moved
    next none => exact .inr (List.isEmpty_iff.mp none)
    next => cases moved
  case snapshot after =>
    cases after <;> split at moved <;> cases moved <;>
      first | exact .inl rfl | cases done
  case snapshotQueue visited pagesCrawled after =>
    cases moved
    exact .inl done
  all_goals
    (repeat' split at moved) <;> cases moved <;> first | exact .inl rfl | cases done

/-! ### Winding down -/

/-- Once the loop has been left nothing is handed out or discovered any more, unless the run is
being stopped. -/
theorem step_left (covered : Covered engine) (winds : WindsDown config engine)
    (taken : Step crates config site engine event next) (goes : event ≠ .start)
    (gone : next.phase.hasLeft = true) :
    next.Stopped config ∨ next.tasks = [] ∧ next.scheduler.waiting = [] := by
  -- where the loop had been left before, and no task is there to move
  have stay : engine.phase.hasLeft = true → next.tasks = engine.tasks →
      next.scheduler.waiting = engine.scheduler.waiting →
      next.Stopped config ∨ next.tasks = [] ∧ next.scheduler.waiting = [] := by
    intro before tasks waiting
    rw [tasks, waiting]
    exact (winds.left before).imp_left fun stopped => stopped.step taken goes
  have moves : ∀ {index : Nat} {task : Task}, engine.phase.hasLeft = true →
      engine.tasks[index]? = some task →
      next.Stopped config ∨ next.tasks = [] ∧ next.scheduler.waiting = [] := by
    intro index task before found
    rcases winds.left before with stopped | ⟨none, -⟩
    · exact .inl (stopped.step taken goes)
    · simp [none] at found
  cases event with
  | start => exact absurd rfl goes
  | kill =>
    cases taken
    cases gone
  | signal =>
    cases taken
    exact .inl (.inl rfl)
  | cancel | setLevel _ =>
    cases taken
    exact stay gone rfl rfl
  | task index move =>
    obtain ⟨task, phase, effect, found, -, rfl⟩ := taskStep_eq_some taken
    refine moves ?_ found
    cases effect <;> exact gone
  | advance =>
    rcases advance_cases taken with
      ⟨-, rfl⟩ | ⟨collected, remaining, here, rfl⟩ | ⟨control, moved, rfl⟩
    · cases gone
    · rcases spawn_cases crates engine collected remaining with
        ended | ⟨scheduler, -, ended⟩ | ⟨left, scheduler, discovered, -, -, ended⟩
      all_goals
        rw [ended] at gone
        cases gone
    · rcases control_left moved gone with before | stopped | ⟨head, pending, tasks⟩
      · exact stay before rfl rfl
      · exact .inl (stopped.step taken goes)
      · refine .inr ⟨tasks, ?_⟩
        -- at its condition the loop has drained the heap, or a task or work is left
        rcases covered.head head with heap | running | more
        · simp [CrawlScheduler.waiting, pending, heap]
        · exact absurd tasks running
        · exact absurd pending more
  | join index =>
    obtain ⟨phase, task, joins, found, -, rfl⟩ := join_eq_some taken
    refine moves ?_ found
    unfold phaseAfterJoin at joins
    split at joins <;> cases joins
    next here => cases gone
    next here => cases gone
    next here => rw [here]; rfl
  | giveUp =>
    simp only [Step, step, Option.ite_none_right_eq_some] at taken
    cases taken.2
    cases gone
  | abort index =>
    obtain ⟨task, here, found, -, rfl⟩ := abort_eq_some taken
    exact moves (by rw [here]; rfl) found
  | persisted written =>
    obtain ⟨state, after, here, rfl⟩ := persisted_eq_some taken
    refine stay ?_ rfl rfl
    rw [here]
    cases after with
    | budget => cases gone
    | draining | finished => rfl

theorem step_joined (winds : WindsDown config engine)
    (taken : Step crates config site engine event next) (goes : event ≠ .start)
    (done : next.phase.hasJoined = true) : next.tasks = [] := by
  cases event with
  | start => exact absurd rfl goes
  | kill =>
    -- a killed run keeps no tasks
    cases taken
    rfl
  | signal | cancel | setLevel _ =>
    cases taken
    exact winds.joined done
  | task index move =>
    -- behind the drain no task is left to move
    obtain ⟨task, phase, effect, found, -, rfl⟩ := taskStep_eq_some taken
    have none : engine.tasks = [] := winds.joined (by cases effect <;> exact done)
    simp [none] at found
  | advance =>
    rcases advance_cases taken with
      ⟨-, rfl⟩ | ⟨collected, remaining, here, rfl⟩ | ⟨control, moved, rfl⟩
    · cases done
    · rcases spawn_cases crates engine collected remaining with
        ended | ⟨scheduler, -, ended⟩ | ⟨left, scheduler, discovered, -, -, ended⟩
      all_goals
        rw [ended] at done
        cases done
    · exact (control_joined moved done).elim winds.joined id
  | join index =>
    obtain ⟨phase, task, joins, -, -, rfl⟩ := join_eq_some taken
    unfold phaseAfterJoin at joins
    split at joins <;> cases joins <;> cases done
  | giveUp =>
    simp only [Step, step, Option.ite_none_right_eq_some] at taken
    cases taken.2
    cases done
  | abort index =>
    obtain ⟨task, here, found, -, rfl⟩ := abort_eq_some taken
    simp [recordEnd, setPhase, here, Phase.hasJoined] at done
  | persisted written =>
    obtain ⟨state, after, here, rfl⟩ := persisted_eq_some taken
    refine winds.joined ?_
    rw [here]
    cases after with
    | finished => rfl
    | budget | draining => cases done

theorem initial_windsDown : WindsDown config (Engine.initial config) where
  left := nofun
  joined := nofun
  interrupted := by simp [Interrupted, initial]

theorem begin_windsDown (engine : Engine) : WindsDown config (engine.begin crates config) where
  left gone := by
    simp only [begin] at gone
    split at gone <;> cases gone
  joined _ := rfl
  interrupted := by simp [Interrupted, begin]

theorem step_windsDown (covered : Covered engine) (winds : WindsDown config engine)
    (met : engine.YieldsToStop config event)
    (taken : Step crates config site engine event next) : WindsDown config next := by
  by_cases restart : event = .start
  · subst restart
    simp only [Step, step, Option.ite_none_right_eq_some] at taken
    cases taken.2
    exact begin_windsDown engine
  refine ⟨step_left covered winds taken restart, step_joined winds taken restart, ?_⟩
  intro interrupted
  refine Stopped.step ?_ taken restart
  rcases interrupted_cases taken interrupted with ⟨before, -⟩ | ⟨index, yields⟩ | ⟨here, running⟩
  · exact winds.interrupted before
  · exact met index yields
  -- an aborted page was still running, so the loop was not left through its condition
  · exact (winds.left (by rw [here]; rfl)).resolve_right fun left => running left.1

theorem reached_windsDown (reached : Reachable (Step crates config site) (YieldsToStop config)
      (Engine.initial config) engine) : WindsDown config engine := by
  have complete : ∀ engine, Reachable (Step crates config site) (YieldsToStop config)
      (Engine.initial config) engine → Complete crates engine := fun _ reached =>
    reached.invariant initial_complete fun _ _ _ complete _ taken => step_complete complete taken
  exact reached.invariant_of complete initial_windsDown
    fun _ _ _ known winds met taken => step_windsDown known.covered winds met taken

/-- What the verdict deletes: a run that nothing stopped, and so that lost no page. -/
theorem WindsDown.deleted (winds : WindsDown config engine) (asked : engine.AsksDelete config) :
    ¬ engine.Interrupted ∧ engine.scheduler.waiting = [] := by
  obtain ⟨closing, -, verdict⟩ := asked
  have unstopped : ¬ engine.Stopped config := by
    simp only [completedFully, Bool.and_eq_true, Bool.not_eq_true'] at verdict
    rintro (shutdown | full)
    · simp [shutdown] at verdict
    · simp [full] at verdict
  exact ⟨fun interrupted => unstopped (winds.interrupted interrupted),
    ((winds.left (by rw [closing]; rfl)).resolve_left unstopped).2⟩

/-! ### What a closed run leaves on disk -/

/-- A closed run has a checkpoint on disk, or lost no page and left none waiting. -/
def LeavesFile (config : CrawlerConfig) (engine : Engine) : Prop :=
  engine.phase = .finished → config.checkpointEnabled = true →
    engine.file.isSome = true ∨ ¬ engine.Interrupted ∧ engine.scheduler.waiting = []

/-- With checkpoints on, the only step into the end that saves nothing is the deletion. -/
theorem control_finished {control : Control} (moved : engine.control config = some control)
    (finished : control.phase = .finished) (enabled : config.checkpointEnabled = true) :
    engine.AsksDelete config := by
  cases here : engine.phase
  case closing =>
    rw [control_closing here, enabled] at moved
    refine ⟨here, enabled, ?_⟩
    split at moved
    next off => cases off
    next =>
      split at moved
      next verdict => exact verdict
      next =>
        cases moved
        cases finished
  all_goals unfold Engine.control goto stop at moved
  all_goals simp only [here] at moved
  case snapshot after =>
    rw [if_pos enabled] at moved
    cases moved
    cases finished
  all_goals
    (repeat' split at moved) <;> cases moved <;> cases finished

theorem step_leavesFile (winds : WindsDown config engine) (leaves : LeavesFile config engine)
    (met : engine.YieldsAndSaves config event)
    (taken : Step crates config site engine event next) : LeavesFile config next := by
  intro finished enabled
  cases event with
  | start =>
    simp only [Step, step, Option.ite_none_right_eq_some] at taken
    cases taken.2
    simp only [begin] at finished
    split at finished <;> cases finished
  | kill =>
    cases taken
    cases finished
  | signal | cancel | setLevel _ =>
    cases taken
    exact leaves finished enabled
  | task index move =>
    obtain ⟨task, phase, effect, found, -, rfl⟩ := taskStep_eq_some taken
    have here : engine.phase = .finished := by cases effect <;> exact finished
    simp [winds.joined (by rw [here]; rfl)] at found
  | advance =>
    rcases advance_cases taken with
      ⟨-, rfl⟩ | ⟨collected, remaining, here, rfl⟩ | ⟨control, moved, rfl⟩
    · cases finished
    · rcases spawn_cases crates engine collected remaining with
        ended | ⟨scheduler, -, ended⟩ | ⟨left, scheduler, discovered, -, -, ended⟩
      all_goals
        rw [ended] at finished
        cases finished
    · exact .inr (winds.deleted (control_finished moved finished enabled))
  | join index =>
    obtain ⟨phase, task, joins, -, -, rfl⟩ := join_eq_some taken
    unfold phaseAfterJoin at joins
    split at joins <;> cases joins <;> cases finished
  | giveUp =>
    simp only [Step, step, Option.ite_none_right_eq_some] at taken
    cases taken.2
    cases finished
  | abort index =>
    obtain ⟨task, here, -, -, rfl⟩ := abort_eq_some taken
    simp [recordEnd, setPhase, here] at finished
  | persisted written =>
    obtain ⟨state, after, here, rfl⟩ := persisted_eq_some taken
    -- the guard says the last save reaches the disk
    cases written with
    | false => exact absurd rfl met.2
    | true => exact .inl rfl

/-- In every crawl whose pages give way to the token only while the run is being stopped, a run
that asks to delete its checkpoint lost no page and left none waiting; and where every save
reaches the disk too, a run that lost a page or left one waiting closes with a checkpoint. -/
theorem deletes_only_whole_runs (enabled : config.checkpointEnabled = true) :
    (∀ engine, Reachable (Step crates config site) (YieldsToStop config)
        (Engine.initial config) engine →
      engine.AsksDelete config → ¬ engine.Interrupted ∧ engine.scheduler.waiting = []) ∧
    ∀ engine, Reachable (Step crates config site) (YieldsAndSaves config)
        (Engine.initial config) engine →
      engine.phase = .finished → engine.Interrupted ∨ engine.scheduler.waiting ≠ [] →
        engine.file.isSome = true := by
  refine ⟨fun engine reached asked => (reached_windsDown reached).deleted asked, ?_⟩
  intro engine reached finished lost
  have winds : ∀ engine, Reachable (Step crates config site) (YieldsAndSaves config)
      (Engine.initial config) engine → WindsDown config engine := fun engine reached =>
    reached_windsDown (reached.mono fun _ _ met => met.1)
  have leaves : LeavesFile config engine := reached.invariant_of winds nofun
    fun _ _ _ known leaves met taken => step_leavesFile known leaves met taken
  refine (leaves finished enabled).resolve_right fun whole => ?_
  exact lost.elim whole.1 fun more => more whole.2

end Engine

/-! The crawl of one page with checkpoints on, closed after its page has ended. -/

namespace Interrupted

/-- The page has ended and is joined; one more round and the loop stands at its condition. -/
def closeUp : List Event := .join 0 :: List.replicate 11 .advance

/-- No page of the run gives way to the token. -/
def yieldsNever (_ : Engine) (event : Event) : Bool :=
  match event with
  | .task _ .cancel => false
  | _ => true

def wholeRun : Option Engine :=
  runEvents (fun engine event =>
      if yieldsNever engine event then engine.step plainUrls onePage bare event else none)
    (Engine.initial onePage) (handOut ++ [.task 0 .pace, .task 0 .fetch, .task 0 .filter] ++ closeUp)

/-- Only the token fires, through a handle, while the page waits for the rate limiter. -/
def tokenRun : Option Engine :=
  runEvents (Engine.step plainUrls onePage bare) (Engine.initial onePage)
    (handOut ++ [.cancel, .task 0 .cancel] ++ closeUp)

end Interrupted

open Interrupted in
theorem deletes_only_whole_runs_filtered :
    ∃ engine, wholeRun = some engine ∧ engine.AsksDelete onePage ∧
      ¬ engine.Interrupted ∧ engine.scheduler.waiting = [] := by
  have view : wholeRun.map (fun engine => (engine.phase, engine.completedFully onePage)) =
      some (.closing, true) := by
    decide
  obtain ⟨engine, ran, view⟩ := Option.map_eq_some_iff.mp view
  simp only [Prod.mk.injEq] at view
  have asked : engine.AsksDelete onePage := ⟨view.1, rfl, view.2⟩
  have enabled : onePage.checkpointEnabled = true := rfl
  refine ⟨engine, ran, asked, (Engine.deletes_only_whole_runs enabled).1 engine
    (Reachable.run_checked .start ?_ ran) asked⟩
  rintro engine event checked index rfl
  cases checked

open Interrupted in
/-- The token alone takes the only page away, and the run asks to delete its checkpoint. -/
theorem token_alone_deletes :
    ∃ engine, Reachable (Engine.Step plainUrls onePage bare) (fun _ _ => True)
        (Engine.initial onePage) engine ∧
      engine.AsksDelete onePage ∧ ("https://example.com/", .cancelled) ∈ engine.endings := by
  have view : tokenRun.map (fun engine => (engine.phase, engine.completedFully onePage,
      engine.endings)) = some (.closing, true, [("https://example.com/", .cancelled)]) := by
    decide
  obtain ⟨engine, ran, view⟩ := Option.map_eq_some_iff.mp view
  simp only [Prod.mk.injEq] at view
  obtain ⟨closing, verdict, endings⟩ := view
  refine ⟨engine, Reachable.run .start (fun _ _ _ => trivial) ran, ⟨closing, rfl, verdict⟩, ?_⟩
  rw [endings]
  exact List.mem_cons_self

end Webfang.Crawler
