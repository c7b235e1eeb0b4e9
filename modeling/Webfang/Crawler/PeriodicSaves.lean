import Webfang.Crawler.Engine

/-!
# Periodic checkpoints

`maybe_save_periodic_checkpoint` samples the page counter once in each iteration of the loop and
saves where the sample is a multiple of the interval. Tasks raise the counter in between, so that
a sample may lie behind a multiple that no iteration has seen.
-/
namespace Webfang.Crawler

open Library Domain

/-- A crawl with the pages counted at its last periodic save and at its last periodic check, or at
its start where there was none yet, and whether a save has failed in this run. -/
structure Watched where
  engine : Engine
  saved : Nat
  checked : Nat
  failed : Bool

namespace Watched

variable (crates : UrlCrates) (config : CrawlerConfig) (site : SiteGraph)

def initial : Watched := ⟨.initial config, 0, 0, false⟩

/-- The step of the loop that decides on a periodic save. -/
def Checks (watched : Watched) (event : Event) : Prop :=
  watched.engine.phase = .periodic ∧ event = .advance

instance (watched : Watched) (event : Event) : Decidable (watched.Checks event) :=
  inferInstanceAs (Decidable (_ ∧ _))

def note (watched : Watched) (event : Event) (next : Engine) : Watched :=
  if event = .start then ⟨next, next.pagesCrawled, next.pagesCrawled, false⟩
  else if watched.Checks event then
    ⟨next, if next.phase = .snapshot .budget then watched.engine.pagesCrawled else watched.saved,
      watched.engine.pagesCrawled, watched.failed⟩
  else ⟨next, watched.saved, watched.checked, watched.failed || event == .persisted false⟩

def step (watched : Watched) (event : Event) : Option Watched :=
  (watched.engine.step crates config site event).map (watched.note event)

def Step (watched : Watched) (event : Event) (next : Watched) : Prop :=
  watched.step crates config site event = some next

/-- Between two checks the counter passes no multiple of the interval, or it comes to rest on
one. -/
def KeepsPace (watched : Watched) (event : Event) : Prop :=
  watched.Checks event →
    watched.engine.pagesCrawled / config.checkpointInterval = watched.checked / config.checkpointInterval ∨
      watched.engine.pagesCrawled % config.checkpointInterval = 0

/-- A step inside an iteration, up to its check. -/
def Within (watched : Watched) (event : Event) : Prop := event ≠ .start ∧ ¬ watched.Checks event

/-- The checkpoint holds the pages of the last save, a save is under way, or no run is active. -/
def CoveredAt (saved : Nat) (file : Option CrawlCheckpoint) : Phase → Prop
  | .idle | .finished | .snapshot _ => True
  | .snapshotQueue _ pagesCrawled _ => saved ≤ pagesCrawled
  | .persisting state _ => saved ≤ state.pagesCrawled
  | _ => saved = 0 ∨ ∃ checkpoint, file = some checkpoint ∧ saved ≤ checkpoint.pagesCrawled

def Covered (watched : Watched) : Prop :=
  CoveredAt watched.saved watched.engine.file watched.engine.phase

end Watched

variable {crates : UrlCrates} {config : CrawlerConfig} {site : SiteGraph} {watched next : Watched}
  {event : Event}

/-! ### The counter -/

theorem perform_pagesCrawled (engine : Engine) (task : Task) (effect : Effect) :
    engine.pagesCrawled ≤ (engine.perform crates task effect).pagesCrawled := by
  cases effect with
  | pageCrawled => exact Nat.le_succ _
  | _ => exact Nat.le_refl _

/-- The counter only grows, until the next run starts. -/
theorem step_pagesCrawled {engine after : Engine} (taken : Engine.Step crates config site engine event after)
    (goes_on : event ≠ .start) : engine.pagesCrawled ≤ after.pagesCrawled := by
  cases event with
  | start => exact absurd rfl goes_on
  | kill | signal | cancel | setLevel _ =>
    cases taken
    exact Nat.le_refl _
  | task index move =>
    obtain ⟨task, phase, effect, -, -, rfl⟩ := Engine.taskStep_eq_some taken
    exact perform_pagesCrawled (engine.setPhase index task phase) task effect
  | advance =>
    rcases Engine.advance_cases taken with
      ⟨-, rfl⟩ | ⟨collected, remaining, -, rfl⟩ | ⟨control, -, rfl⟩
    · exact Nat.le_refl _
    · rcases Engine.spawn_cases crates engine collected remaining with
        ended | ⟨scheduler, -, ended⟩ | ⟨left, scheduler, discovered, -, -, spawned⟩
      · exact Nat.le_of_eq (by rw [ended])
      · exact Nat.le_of_eq (by rw [ended])
      · exact Nat.le_of_eq (by rw [spawned])
    · exact Nat.le_refl _
  | join index =>
    obtain ⟨phase, task, -, -, -, rfl⟩ := Engine.join_eq_some taken
    exact Nat.le_refl _
  | giveUp =>
    simp only [Engine.Step, Engine.step, Option.ite_none_right_eq_some] at taken
    cases taken.2
    exact Nat.le_refl _
  | abort index =>
    obtain ⟨task, -, -, -, rfl⟩ := Engine.abort_eq_some taken
    exact Nat.le_refl _
  | persisted written =>
    obtain ⟨state, after, -, rfl⟩ := Engine.persisted_eq_some taken
    exact Nat.le_refl _

/-! ### The steps under watch -/

/-- A step starts a run, checks, or stays within an iteration. -/
theorem watched_cases (taken : watched.Step crates config site event next) :
    Engine.Step crates config site watched.engine event next.engine ∧
      (event = .start ∧
          next = ⟨next.engine, next.engine.pagesCrawled, next.engine.pagesCrawled, false⟩ ∨
        watched.Checks event ∧ next = ⟨next.engine,
          if next.engine.phase = .snapshot .budget then watched.engine.pagesCrawled else watched.saved,
          watched.engine.pagesCrawled, watched.failed⟩ ∨
        watched.Within event ∧ next = ⟨next.engine, watched.saved, watched.checked,
          watched.failed || event == .persisted false⟩) := by
  rcases Option.map_eq_some_iff.mp taken with ⟨after, stepped, rfl⟩
  unfold Watched.note
  split
  next begins => exact ⟨stepped, .inl ⟨begins, rfl⟩⟩
  next goes_on =>
    split
    next checks => exact ⟨stepped, .inr (.inl ⟨checks, rfl⟩)⟩
    next within => exact ⟨stepped, .inr (.inr ⟨⟨goes_on, within⟩, rfl⟩)⟩

/-- A check saves exactly at a multiple of the interval other than 0. -/
theorem check_cases {after : Engine} (positive : 0 < config.checkpointInterval)
    (checks : watched.Checks event)
    (taken : Engine.Step crates config site watched.engine event after) :
    after = { watched.engine with phase := after.phase } ∧
      (after.phase = .snapshot .budget ∧ watched.engine.pagesCrawled ≠ 0 ∧
          watched.engine.pagesCrawled % config.checkpointInterval = 0 ∨
        after.phase = .budget ∧ (watched.engine.pagesCrawled = 0 ∨
          watched.engine.pagesCrawled % config.checkpointInterval ≠ 0)) := by
  rcases checks with ⟨here, rfl⟩
  rcases Engine.advance_cases taken with
    ⟨other, -⟩ | ⟨collected, remaining, other, -⟩ | ⟨control, moved, rfl⟩
  · rw [here] at other
    cases other
  · rw [here] at other
    cases other
  · simp only [Engine.control, here, Engine.goto] at moved
    split at moved
    next idle =>
      cases moved
      exact ⟨rfl, .inr ⟨rfl, idle.resolve_left (by omega)⟩⟩
    next due =>
      cases moved
      rw [not_or, not_or, not_not] at due
      exact ⟨rfl, .inl ⟨rfl, due.2⟩⟩

/-! ### Keeping pace -/

/-- Since the last save no check has passed a multiple of the interval. -/
structure Paced (config : CrawlerConfig) (watched : Watched) : Prop where
  quotient : watched.checked / config.checkpointInterval = watched.saved / config.checkpointInterval
  below : watched.saved ≤ watched.engine.pagesCrawled
  sampled : watched.checked ≤ watched.engine.pagesCrawled

theorem lt_add_of_div_eq {n p q : Nat} (positive : 0 < n) (same : p / n = q / n) : p < q + n := by
  have high := Nat.lt_mul_div_succ p positive
  have low := Nat.mul_div_le q n
  rw [same, Nat.mul_succ] at high
  omega

theorem initial_paced : Paced config (Watched.initial config) := ⟨rfl, Nat.le_refl _, Nat.le_refl _⟩

theorem step_paced (positive : 0 < config.checkpointInterval) (paced : Paced config watched)
    (pace : watched.KeepsPace config event) (taken : watched.Step crates config site event next) :
    Paced config next := by
  rcases watched_cases taken with ⟨stepped, ⟨rfl, noted⟩ | ⟨checks, noted⟩ | ⟨within, noted⟩⟩
  · rw [noted]
    exact ⟨rfl, Nat.le_refl _, Nat.le_refl _⟩
  · rcases check_cases positive checks stepped with ⟨same, ⟨saves, -, -⟩ | ⟨passes, sample⟩⟩
    · rw [noted, if_pos saves, same]
      exact ⟨rfl, Nat.le_refl _, Nat.le_refl _⟩
    · rw [noted, same, if_neg (by rw [passes]; exact Phase.noConfusion)]
      refine ⟨?_, paced.below, Nat.le_refl _⟩
      have sampled := paced.sampled
      rcases pace checks with kept | multiple
      · exact kept.trans paced.quotient
      · -- the only multiple that is not saved is 0
        have zero := sample.resolve_right (not_not.mpr multiple)
        have before : watched.checked = 0 := by omega
        rw [← paced.quotient, zero, before]
  · have grown := step_pagesCrawled stepped within.1
    rw [noted]
    exact ⟨paced.quotient, paced.below.trans grown, paced.sampled.trans grown⟩

/-- Within an iteration nothing is noted, and the counter may grow. -/
theorem within_run {later : Watched}
    (run : Reachable (Watched.Step crates config site) Watched.Within watched later) :
    later.saved = watched.saved ∧ later.checked = watched.checked ∧
      watched.engine.pagesCrawled ≤ later.engine.pagesCrawled := by
  refine run.invariant (motive := fun later => later.saved = watched.saved ∧
    later.checked = watched.checked ∧ watched.engine.pagesCrawled ≤ later.engine.pagesCrawled)
    ⟨rfl, rfl, Nat.le_refl _⟩ fun s e s' kept within taken => ?_
  rcases watched_cases taken with ⟨stepped, ⟨begins, -⟩ | ⟨checks, -⟩ | ⟨-, noted⟩⟩
  · exact absurd begins within.1
  · exact absurd checks within.2
  · have grown := step_pagesCrawled stepped within.1
    rw [noted]
    exact ⟨kept.1, kept.2.1, kept.2.2.trans grown⟩

theorem paced_check_saves {after : Engine} (positive : 0 < config.checkpointInterval)
    (paced : Paced config watched) (pace : watched.KeepsPace config .advance)
    (checks : watched.Checks .advance)
    (grown : watched.saved + config.checkpointInterval ≤ watched.engine.pagesCrawled)
    (taken : Engine.Step crates config site watched.engine .advance after) :
    after.phase = .snapshot .budget := by
  rcases check_cases positive checks taken with ⟨-, ⟨saves, -, -⟩ | ⟨-, sample⟩⟩
  · exact saves
  · exfalso
    rcases pace checks with kept | multiple
    · have near := lt_add_of_div_eq positive (kept.trans paced.quotient)
      omega
    · rcases sample with zero | other
      · omega
      · exact other multiple

/-- After a save at a multiple of the interval, the first check that does not keep pace misses its
save. -/
theorem check_misses_iff {after : Engine} (positive : 0 < config.checkpointInterval)
    (paced : Paced config watched) (multiple : watched.saved % config.checkpointInterval = 0)
    (checks : watched.Checks .advance)
    (taken : Engine.Step crates config site watched.engine .advance after) :
    watched.saved + config.checkpointInterval ≤ watched.engine.pagesCrawled ∧
        after.phase ≠ .snapshot .budget ↔ ¬ watched.KeepsPace config .advance := by
  constructor
  · rintro ⟨grown, missed⟩ pace
    exact missed (paced_check_saves positive paced pace checks grown taken)
  · intro behind
    rw [Watched.KeepsPace, Classical.not_imp, not_or] at behind
    rcases behind with ⟨-, passed, uneven⟩
    refine ⟨?_, fun saves => ?_⟩
    · have low := Nat.div_le_div_right (c := config.checkpointInterval) paced.sampled
      rw [paced.quotient] at passed low
      have next : watched.saved / config.checkpointInterval + 1 ≤
          watched.engine.pagesCrawled / config.checkpointInterval := by omega
      have whole := Nat.div_add_mod watched.saved config.checkpointInterval
      have reach := Nat.mul_le_mul_left config.checkpointInterval next
      have under := Nat.mul_div_le watched.engine.pagesCrawled config.checkpointInterval
      rw [Nat.mul_succ] at reach
      omega
    · rcases check_cases positive checks taken with ⟨-, ⟨-, -, even⟩ | ⟨passes, -⟩⟩
      · exact uneven even
      · rw [passes] at saves
        cases saves

/-! ### The checkpoint file -/

open Watched

/-- The steps of the loop keep what the checkpoint holds, and a save reads the counter. -/
theorem control_coveredAt {engine : Engine} {control : Engine.Control} {saved : Nat}
    (enabled : config.checkpointEnabled = true) (below : saved ≤ engine.pagesCrawled)
    (covered : CoveredAt saved engine.file engine.phase) (moved : engine.control config = some control) :
    CoveredAt saved control.file control.phase := by
  unfold Engine.control Engine.goto Engine.stop at moved
  cases here : engine.phase <;> simp only [here] at moved covered
  case snapshot after =>
    rw [if_pos enabled] at moved
    cases moved
    exact below
  case snapshotQueue visited pagesCrawled after =>
    cases moved
    exact covered
  case closing =>
    rw [if_neg (by simp [enabled])] at moved
    split at moved <;> cases moved <;> exact True.intro
  all_goals (repeat' split at moved) <;> cases moved <;> first | exact covered | exact True.intro

theorem begin_coveredAt (enabled : config.checkpointEnabled = true) (engine : Engine) :
    CoveredAt (engine.begin crates config).pagesCrawled (engine.begin crates config).file
      (engine.begin crates config).phase := by
  simp only [Engine.begin, Engine.checkpointState, enabled, if_true]
  split
  next =>
    cases found : engine.file with
    | none => exact .inl rfl
    | some checkpoint => exact .inr ⟨checkpoint, rfl, Nat.le_refl _⟩
  next => exact True.intro

variable (crates) in
theorem perform_file (engine : Engine) (task : Task) (effect : Effect) :
    (engine.perform crates task effect).file = engine.file ∧
      (engine.perform crates task effect).phase = engine.phase := by
  cases effect <;> exact ⟨rfl, rfl⟩

/-- As long as every save is written, each step keeps what the checkpoint holds. -/
theorem step_coveredAt {engine after : Engine} {saved : Nat} (enabled : config.checkpointEnabled = true)
    (below : saved ≤ engine.pagesCrawled) (goes_on : event ≠ .start) (stored : event ≠ .persisted false)
    (covered : CoveredAt saved engine.file engine.phase)
    (taken : Engine.Step crates config site engine event after) :
    CoveredAt saved after.file after.phase := by
  cases event with
  | start => exact absurd rfl goes_on
  | kill =>
    cases taken
    exact True.intro
  | signal | cancel | setLevel _ =>
    cases taken
    exact covered
  | task index move =>
    obtain ⟨task, phase, effect, -, -, rfl⟩ := Engine.taskStep_eq_some taken
    have same := perform_file crates (engine.setPhase index task phase) task effect
    rw [same.1, same.2]
    exact covered
  | advance =>
    rcases Engine.advance_cases taken with
      ⟨here, rfl⟩ | ⟨collected, remaining, here, rfl⟩ | ⟨control, moved, rfl⟩
    · rw [here] at covered
      exact covered
    · rw [here] at covered
      rcases Engine.spawn_cases crates engine collected remaining with
        ended | ⟨scheduler, -, ended⟩ | ⟨left, scheduler, discovered, -, -, spawned⟩
      · rw [ended]
        exact covered
      · rw [ended]
        exact covered
      · rw [spawned]
        exact covered
    · exact control_coveredAt enabled below covered moved
  | join index =>
    obtain ⟨phase, task, joins, -, -, rfl⟩ := Engine.join_eq_some taken
    unfold Engine.phaseAfterJoin at joins
    split at joins <;> cases joins
    all_goals
      next here =>
        rw [here] at covered
        exact covered
  | giveUp =>
    simp only [Engine.Step, Engine.step, Option.ite_none_right_eq_some] at taken
    obtain ⟨here, same⟩ := taken
    rw [here] at covered
    cases same
    exact covered
  | abort index =>
    obtain ⟨task, -, -, -, rfl⟩ := Engine.abort_eq_some taken
    exact covered
  | persisted written =>
    obtain ⟨state, after, here, rfl⟩ := Engine.persisted_eq_some taken
    cases written with
    | false => exact absurd rfl stored
    | true =>
      rw [here] at covered
      -- the file now holds what was read for it
      cases after with
      | finished => exact True.intro
      | _ => exact .inr ⟨state, rfl, covered⟩

theorem watched_covered (positive : 0 < config.checkpointInterval) (enabled : config.checkpointEnabled = true)
    (paced : Paced config watched) (covered : watched.failed = false → watched.Covered)
    (taken : watched.Step crates config site event next) (unfailed : next.failed = false) : next.Covered := by
  rcases watched_cases taken with ⟨stepped, ⟨rfl, noted⟩ | ⟨checks, noted⟩ | ⟨within, noted⟩⟩
  · rw [noted]
    simp only [Engine.Step, Engine.step, Option.ite_none_right_eq_some] at stepped
    have begun := Option.some.inj stepped.2
    rw [← begun]
    exact begin_coveredAt enabled watched.engine
  · rw [noted] at unfailed
    rcases check_cases positive checks stepped with ⟨same, ⟨saves, -, -⟩ | ⟨passes, -⟩⟩
    · rw [Covered, saves]
      exact True.intro
    · have before := covered unfailed
      rw [Covered, checks.1] at before
      rw [noted, Covered, same, passes]
      exact before
  · rw [noted] at unfailed
    rcases Bool.or_eq_false_iff.mp unfailed with ⟨before, written⟩
    rw [noted]
    exact step_coveredAt enabled paced.below within.1 (by simpa using written) (covered before) stepped

/-! ### Runs -/

/-- In a run whose checks keep pace, the counter having grown by the interval since the last save is
saved at the next check, however many pages complete before it. What is not saved stays below the
interval and the pages since the last check, and the checkpoint holds the rest as long as no save
fails. -/
theorem paced_run_saves (positive : 0 < config.checkpointInterval)
    (reached : Reachable (Watched.Step crates config site) (Watched.KeepsPace config)
      (Watched.initial config) watched) :
    (∀ later after, Reachable (Watched.Step crates config site) Watched.Within watched later →
      later.Checks .advance → later.KeepsPace config .advance →
      watched.saved + config.checkpointInterval ≤ watched.engine.pagesCrawled →
      Engine.Step crates config site later.engine .advance after → after.phase = .snapshot .budget) ∧
    watched.engine.pagesCrawled < watched.saved + config.checkpointInterval +
      (watched.engine.pagesCrawled - watched.checked) ∧
    (config.checkpointEnabled = true → watched.failed = false → watched.Covered) := by
  have paced : ∀ watched, Reachable (Watched.Step crates config site) (Watched.KeepsPace config)
      (Watched.initial config) watched → Paced config watched := fun watched run =>
    run.invariant initial_paced fun s e s' before pace taken => step_paced positive before pace taken
  have here := paced watched reached
  refine ⟨fun later after run checks pace grown taken => ?_, ?_, fun enabled => ?_⟩
  · -- an iteration notes nothing, so the later state still keeps pace
    rcases within_run run with ⟨saved, checked, more⟩
    have still : Paced config later :=
      ⟨by rw [saved, checked]; exact here.quotient, by rw [saved]; exact here.below.trans more,
        by rw [checked]; exact here.sampled.trans more⟩
    exact paced_check_saves positive still pace checks (by omega) taken
  · have near := lt_add_of_div_eq positive here.quotient
    have sampled := here.sampled
    omega
  · exact reached.invariant_of (motive := fun w => w.failed = false → w.Covered) paced
      (fun _ => True.intro) fun s e s' known covered _ taken =>
        watched_covered positive enabled known covered taken

/-! A crawl of three pages with a checkpoint every two. -/

namespace EveryTwoPages

def threePages : CrawlerConfig where
  seedUrl := "https://example.com"
  seedAllowed := true
  maxDepth := 1
  maxPages := 10
  concurrency := 4
  checkpointEnabled := true
  checkpointInterval := 2
  extraSeeds := [⟨"https://example.com/a", 1⟩, ⟨"https://example.com/b", 1⟩]

def noLinks : SiteGraph := fun _ => []

/-- All three pages are handed out in the first round. -/
def handOut : List Event := .start :: List.replicate 13 .advance

/-- Pages that are fetched before the next check. -/
def fetch (index : Nat) : List Event := [.task index .pace, .task index .fetch]

def keepsPace (watched : Watched) (event : Event) : Bool :=
  decide (¬ watched.Checks event ∨ watched.engine.pagesCrawled / 2 = watched.checked / 2 ∨
    watched.engine.pagesCrawled % 2 = 0)

/-- Two pages complete before the second check. -/
def twoFetched : Option Watched :=
  runEvents (fun watched event =>
      if keepsPace watched event then watched.step plainUrls threePages noLinks event else none)
    (.initial threePages) (handOut ++ fetch 0 ++ fetch 1)

/-- Three pages complete before the second check, and the loop comes to it. -/
def threeFetched : Option Watched :=
  runEvents (Watched.step plainUrls threePages noLinks) (.initial threePages)
    (handOut ++ fetch 0 ++ fetch 1 ++ fetch 2 ++ List.replicate 4 .advance)

end EveryTwoPages

open EveryTwoPages in
theorem paced_run_saves_two_pages :
    ∃ watched, twoFetched = some watched ∧ watched.engine.pagesCrawled = 2 ∧
      (∀ later after, Reachable (Watched.Step plainUrls threePages noLinks) Watched.Within watched later →
        later.Checks .advance → later.KeepsPace threePages .advance →
        watched.saved + 2 ≤ watched.engine.pagesCrawled →
        Engine.Step plainUrls threePages noLinks later.engine .advance after →
        after.phase = .snapshot .budget) ∧
      watched.engine.pagesCrawled < watched.saved + 2 + (watched.engine.pagesCrawled - watched.checked) ∧
      (threePages.checkpointEnabled = true → watched.failed = false → watched.Covered) := by
  have counted : twoFetched.map (fun watched => watched.engine.pagesCrawled) = some 2 := by decide
  obtain ⟨watched, ran, two⟩ := Option.map_eq_some_iff.mp counted
  refine ⟨watched, ran, two, paced_run_saves (by decide) (Reachable.run_checked .start ?_ ran)⟩
  intro watched event checked checks
  exact (of_decide_eq_true checked).resolve_left (not_not.mpr checks)

open EveryTwoPages in
/-- Three pages are counted since the start of the run, and the check passes them by. -/
theorem multiple_stepped_past :
    ∃ watched after, Reachable (Watched.Step plainUrls threePages noLinks) (fun _ _ => True)
        (Watched.initial threePages) watched ∧
      watched.Checks .advance ∧
      watched.saved + threePages.checkpointInterval ≤ watched.engine.pagesCrawled ∧
      Engine.Step plainUrls threePages noLinks watched.engine .advance after ∧
      after.phase = .budget ∧ after.file = none := by
  have sampled : threeFetched.map (fun watched =>
      (watched.engine.phase, watched.saved, watched.engine.pagesCrawled)) = some (.periodic, 0, 3) := by
    decide
  have passed : (threeFetched.bind fun watched =>
      watched.engine.step plainUrls threePages noLinks .advance).map
        (fun after => (after.phase, after.file)) = some (.budget, none) := by
    decide
  obtain ⟨watched, ran, sample⟩ := Option.map_eq_some_iff.mp sampled
  rw [ran, Option.bind_some] at passed
  obtain ⟨after, taken, here⟩ := Option.map_eq_some_iff.mp passed
  simp only [Prod.mk.injEq] at sample here
  refine ⟨watched, after, Reachable.run .start (fun _ _ _ => trivial) ran, ⟨sample.1, rfl⟩, ?_, taken,
    here⟩
  rw [sample.2.1, sample.2.2]
  decide

end Webfang.Crawler
